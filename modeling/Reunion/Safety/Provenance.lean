import Reunion.Safety.Invariant
import Reunion.Client.Updates

/-! # Where the keys come from

With crypto operations that are functions of their inputs (`World.Deterministic`), every
alpha key, beta key and result of a reachable exchange is computed from the T1, T2 and T3
filed under one peer hash, and a beta key is kept only once our `SendT3` to that peer was
accepted. The received maps only grow and `Run` never changes the session, so what was
derived from them stays derivable.
-/

namespace Reunion.Safety
open Reunion.Client

/-- `pk` is the alpha key `ProcessType1MessageAlpha` derives from the T1 filed under `h`. -/
def AlphaOf (c : Crypto) (e : Exchange) (h : ExchangeHash) (pk : PublicKey) : Prop :=
  ∃ t1 α β γ t2, e.receivedT1s.lookup h = some t1 ∧ c.decodeT1Message t1 = .ok (α, β, γ) ∧
    c.processType1MessageAlpha e.session α = .ok (t2, pk)

/-- `beta` is decrypted from the beta field of the T1 filed under `h`, with the candidate key
of the T2 filed under `h` and the alpha key of that T1. -/
def BetaOf (c : Crypto) (e : Exchange) (h : ExchangeHash) (beta : PublicKey) : Prop :=
  ∃ t1 t2 α β γ t2' pk k, e.receivedT1s.lookup h = some t1 ∧
    e.receivedT2s.lookup h = some t2 ∧ c.decodeT1Message t1 = .ok (α, β, γ) ∧
    c.processType1MessageAlpha e.session α = .ok (t2', pk) ∧
    c.getCandidateKey e.session t2 pk = .ok k ∧ c.decryptT1Beta k β = .ok beta

/-- `plaintext` is opened from the T3 filed under a key `h` with a beta key, with the gamma
field of the T1 filed under `h`. -/
def ResultOf (c : Crypto) (e : Exchange) (plaintext : Bytes) : Prop :=
  ∃ h beta t1 t3 α β γ, e.decryptedT1Betas.lookup h = some beta ∧
    e.receivedT3s.lookup h = some t3 ∧ e.receivedT1s.lookup h = some t1 ∧
    c.decodeT1Message t1 = .ok (α, β, γ) ∧
    c.processType3Message e.session t3 γ beta = .ok plaintext

/-- A `SendT3` addressed to `h` was accepted. -/
def AnsweredT3 (tr : List Event) (h : ExchangeHash) : Prop :=
  ∃ epoch src t3 r, .query (.sendT3 epoch src h t3) r ∈ tr ∧ accepted r = true

section Mono

variable {c : Crypto} {e e' : Exchange} {h : ExchangeHash}

theorem AlphaOf.mono (h₁ : SubMap e.receivedT1s e'.receivedT1s) (hs : e'.session = e.session)
    {pk : PublicKey} : AlphaOf c e h pk → AlphaOf c e' h pk := by
  rintro ⟨t1, α, β, γ, t2, hl, hd, hp⟩
  exact ⟨t1, α, β, γ, t2, h₁ hl, hd, hs ▸ hp⟩

theorem BetaOf.mono (h₁ : SubMap e.receivedT1s e'.receivedT1s)
    (h₂ : SubMap e.receivedT2s e'.receivedT2s) (hs : e'.session = e.session) {beta : PublicKey} :
    BetaOf c e h beta → BetaOf c e' h beta := by
  rintro ⟨t1, t2, α, β, γ, t2', pk, k, hl₁, hl₂, hd, hp, hk, hb⟩
  exact ⟨t1, t2, α, β, γ, t2', pk, k, h₁ hl₁, h₂ hl₂, hd, hs ▸ hp, hs ▸ hk, hb⟩

theorem ResultOf.mono (h₁ : SubMap e.receivedT1s e'.receivedT1s)
    (h₃ : SubMap e.receivedT3s e'.receivedT3s)
    (hb : SubMap e.decryptedT1Betas e'.decryptedT1Betas)
    (hs : e'.session = e.session) {plaintext : Bytes} :
    ResultOf c e plaintext → ResultOf c e' plaintext := by
  rintro ⟨h, beta, t1, t3, α, β, γ, hl, hl₃, hl₁, hd, hp⟩
  exact ⟨h, beta, t1, t3, α, β, γ, hb hl, h₃ hl₃, h₁ hl₁, hd, hs ▸ hp⟩

theorem AlphaOf.unique {pk pk' : PublicKey} (ha : AlphaOf c e h pk) (ha' : AlphaOf c e h pk') :
    pk = pk' := by
  obtain ⟨t1, α, β, γ, t2, hl, hd, hp⟩ := ha
  obtain ⟨t1', α', β', γ', t2', hl', hd', hp'⟩ := ha'
  cases hl.symm.trans hl'
  cases hd.symm.trans hd'
  cases hp.symm.trans hp'
  rfl

end Mono

/-- Every alpha key, beta key and result is derived from the messages of one peer, and
every beta key was answered by an accepted `SendT3`; `c` are the crypto operations. -/
structure Provenance (c : Crypto) (e : Exchange) (tr : List Event) : Prop where
  alphas : ∀ h pk, e.receivedT1Alphas.lookup h = some pk → AlphaOf c e h pk
  betas : ∀ h beta, e.decryptedT1Betas.lookup h = some beta → BetaOf c e h beta
  answered : ∀ h ∈ e.decryptedT1Betas, AnsweredT3 tr h
  results : ∀ u, .update u ∈ tr → ∀ plaintext, u.result = some plaintext →
    ResultOf c e plaintext

namespace Provenance

variable {c : Crypto} {e e' : Exchange} {tr : List Event}

theorem cons (hp : Provenance c e tr) (ev : Event)
    (hev : ∀ u, ev = .update u → ∀ plaintext, u.result = some plaintext →
      ResultOf c e plaintext) : Provenance c e (ev :: tr) where
  alphas := hp.alphas
  betas := hp.betas
  answered h hh := by
    obtain ⟨epoch, src, t3, r, hq, hr⟩ := hp.answered h hh
    exact ⟨epoch, src, t3, r, List.mem_cons_of_mem _ hq, hr⟩
  results u hu := by
    rcases List.mem_cons.1 hu with hu | hu
    exacts [hev u hu.symm, hp.results u hu]

theorem query (hp : Provenance c e tr) (cmd : Command) (r : Except String Response) :
    Provenance c e (.query cmd r :: tr) :=
  hp.cons _ fun _ h => by cases h

theorem grow (hp : Provenance c e tr) (h₁ : SubMap e.receivedT1s e'.receivedT1s)
    (h₂ : SubMap e.receivedT2s e'.receivedT2s) (h₃ : SubMap e.receivedT3s e'.receivedT3s)
    (hs : e'.session = e.session) (ha : e'.receivedT1Alphas = e.receivedT1Alphas)
    (hb : e'.decryptedT1Betas = e.decryptedT1Betas) : Provenance c e' tr where
  alphas h pk hl := (hp.alphas h pk (ha ▸ hl)).mono h₁ hs
  betas h beta hl := (hp.betas h beta (hb ▸ hl)).mono h₁ h₂ hs
  answered h hh := hp.answered h (hb ▸ hh)
  results u hu p hr := (hp.results u hu p hr).mono h₁ h₃ (hb ▸ SubMap.refl _) hs

theorem storeT2 (hp : Provenance c e tr) {t1Hash : ExchangeHash} {pk : PublicKey}
    (ha : AlphaOf c e t1Hash pk) (t2Hash : ExchangeHash) (t2 : Bytes) :
    Provenance c (e.storeT2 t1Hash pk t2Hash t2) tr where
  alphas h pk' hl := by
    rcases lookup_insert_eq_some.1 hl with ⟨rfl, rfl⟩ | ⟨-, hl⟩
    exacts [ha, hp.alphas h pk' hl]
  betas := hp.betas
  answered := hp.answered
  results := hp.results

theorem replyT2 (hp : Provenance c e tr) {src : ExchangeHash} {beta : PublicKey}
    (hn : src ∉ e.decryptedT1Betas) (hb : BetaOf c e src beta) (hans : AnsweredT3 tr src)
    (t2Hash : ExchangeHash) (t2 : Bytes) : Provenance c (e.replyT2 src beta t2Hash t2) tr where
  alphas := hp.alphas
  betas h beta' hl := by
    rcases lookup_insert_eq_some.1 hl with ⟨rfl, rfl⟩ | ⟨-, hl⟩
    exacts [hb, hp.betas h beta' hl]
  answered h hh := by
    rcases (AList.mem_insert _).1 hh with rfl | hh
    exacts [hans, hp.answered h hh]
  results u hu p hr := (hp.results u hu p hr).mono (by rfl) (by rfl) (subMap_insert hn) (by rfl)

end Provenance

section
variable {w : World} (hw : w.Deterministic)
include hw

theorem alphaOf_sendT2 {e : Exchange} {t1Hash : ExchangeHash} {t1 α β γ t2 : Bytes}
    {pk : PublicKey} {n : Nat} (hl : e.receivedT1s.lookup t1Hash = some t1)
    (hd : (w.crypto n).decodeT1Message t1 = .ok (α, β, γ))
    (hp : (w.crypto (n + 1)).processType1MessageAlpha e.session α = .ok (t2, pk)) :
    AlphaOf (w.crypto 0) e t1Hash pk :=
  ⟨t1, α, β, γ, t2, hl, hw n ▸ hd, hw (n + 1) ▸ hp⟩

theorem betaOf_sendT3 {e : Exchange} {src : ExchangeHash} {t1 t2 k α β γ : Bytes}
    {pk beta : PublicKey} {n : Nat} (h₂ : e.receivedT2s.lookup src = some t2)
    (h₁ : e.receivedT1s.lookup src = some t1) (ha : AlphaOf (w.crypto 0) e src pk)
    (hk : (w.crypto n).getCandidateKey e.session t2 pk = .ok k)
    (hd : (w.crypto (n + 1)).decodeT1Message t1 = .ok (α, β, γ))
    (hb : (w.crypto (n + 2)).decryptT1Beta k β = .ok beta) : BetaOf (w.crypto 0) e src beta := by
  obtain ⟨t1', α', β', γ', t2', hl, hd', hp⟩ := ha
  cases h₁.symm.trans hl
  cases (hw (n + 1) ▸ hd).symm.trans hd'
  exact ⟨t1, t2, α, β, γ, t2', pk, k, h₁, h₂, hd', hp, hw n ▸ hk, hw (n + 2) ▸ hb⟩

theorem provenance_move :
    MoveInvariant w fun s => Inv w.sha256 s.1 ∧ Provenance (w.crypto 0) s.1 s.2 where
  initial m h := by
    have hi := inv_initial h
    obtain ⟨-, -, -, -, -, -, ha, hb⟩ := hi.initial_empty (initial_status h)
    refine ⟨hi, fun h pk hl => by simp [ha] at hl, fun h beta hl => by simp [hb] at hl,
      fun h hh => by simp [hb] at hh, fun u hu => by simp [h.1] at hu⟩
  move s s' h hs := by
    obtain ⟨hi, hp⟩ := hs
    refine ⟨(inv_move w).move s s' h hi, ?_⟩
    cases h with
    | generate e tr t1 hs => exact { hp with }
    | sendT1 e tr t1 r hs => split <;> exact { hp.query _ r with }
    | fetch e tr t1s t2s t3s r hs h₁ h₂ h₃ =>
      exact (hp.query _ r).grow h₁ h₂ h₃ rfl rfl rfl
    | sendT2 e tr t1Hash t1 t2 α β γ pk n r hs hl hne hr hd hpk =>
      have hp' := hp.storeT2 (alphaOf_sendT2 hw hl hd hpk) (w.sha256 t2) t2
      split
      · exact { hp'.query _ r with }
      · exact hp'.query _ r
    | sendT3 e tr src t1 t2 t3 k α β γ pk beta n r hs h₂ h₁ hr ha hk hd hb hc =>
      dsimp only
      split
      · next hacc =>
        refine (hp.query _ r).replyT2 (not_mem_betas hi h₂ hr)
          (betaOf_sendT3 hw h₂ h₁ (hp.alphas src pk ha) hk hd hb) ?_ _ _
        exact ⟨_, _, t3, r, List.mem_cons_self _ _, hacc⟩
      · exact hp.query _ r
    | result e tr src t1 t3 α β γ plaintext beta n h₃ hb h₁ hd hpt =>
      refine hp.cons _ fun u hu p hr => ?_
      cases hu
      cases hr
      exact ⟨src, beta, t1, t3, α, β, γ, hb, h₃, h₁, hw n ▸ hd, hw (n + 1) ▸ hpt⟩
    | emit e tr u hu =>
      refine hp.cons _ fun u' hu' p hr => ?_
      cases hu'
      simp [hu] at hr
    | resume e tr => exact { hp with }

/-- In every reachable state, each beta key is decrypted from the T1 and T2 filed under its
key, with the alpha key filed under it, after an accepted `SendT3` to that key; and every
result in the history was opened from the T3 filed under such a key. -/
theorem reachable_beta_provenance {m : Machine} (hm : Reachable w m) :
    (∀ h beta, m.exchange.decryptedT1Betas.lookup h = some beta →
      ∃ t1 t2 pk α β γ t2' k, m.exchange.receivedT1s.lookup h = some t1 ∧
        m.exchange.receivedT2s.lookup h = some t2 ∧
        m.exchange.receivedT1Alphas.lookup h = some pk ∧
        (w.crypto 0).decodeT1Message t1 = .ok (α, β, γ) ∧
        (w.crypto 0).processType1MessageAlpha m.exchange.session α = .ok (t2', pk) ∧
        (w.crypto 0).getCandidateKey m.exchange.session t2 pk = .ok k ∧
        (w.crypto 0).decryptT1Beta k β = .ok beta ∧ AnsweredT3 m.trace h) ∧
    ∀ u, .update u ∈ m.trace → ∀ plaintext, u.result = some plaintext →
      ResultOf (w.crypto 0) m.exchange plaintext := by
  obtain ⟨hi, hp⟩ := (provenance_move hw).reachable hm
  refine ⟨fun h beta hl => ?_, hp.results⟩
  obtain ⟨t1, t2, α, β, γ, t2', pk, k, hl₁, hl₂, hd, hpk, hk, hb⟩ := hp.betas h beta hl
  obtain ⟨pk', hpk'⟩ := Option.isSome_iff_exists.1
    (AList.lookup_isSome.2 (hi.betas h (mem_of_lookup_eq_some hl)))
  have hu := (hp.alphas h pk' hpk').unique ⟨t1, α, β, γ, t2', hl₁, hd, hpk⟩
  subst hu
  exact ⟨t1, t2, pk', α, β, γ, t2', k, hl₁, hl₂, hpk', hd, hpk, hk, hb,
    hp.answered h (mem_of_lookup_eq_some hl)⟩

end

theorem sample_beta_provenance :
    twoPeerWorld.Deterministic ∧ Reachable twoPeerWorld twoPeerRun ∧
      hashKey 1 ∈ twoPeerRun.exchange.decryptedT1Betas ∧ results twoPeerRun.trace = [[5], [6]] ∧
      (∀ h beta, twoPeerRun.exchange.decryptedT1Betas.lookup h = some beta →
        ∃ t1 t2 pk α β γ t2' k, twoPeerRun.exchange.receivedT1s.lookup h = some t1 ∧
          twoPeerRun.exchange.receivedT2s.lookup h = some t2 ∧
          twoPeerRun.exchange.receivedT1Alphas.lookup h = some pk ∧
          (twoPeerWorld.crypto 0).decodeT1Message t1 = .ok (α, β, γ) ∧
          (twoPeerWorld.crypto 0).processType1MessageAlpha twoPeerRun.exchange.session α =
            .ok (t2', pk) ∧
          (twoPeerWorld.crypto 0).getCandidateKey twoPeerRun.exchange.session t2 pk = .ok k ∧
          (twoPeerWorld.crypto 0).decryptT1Beta k β = .ok beta ∧ AnsweredT3 twoPeerRun.trace h) ∧
      ∀ u, .update u ∈ twoPeerRun.trace → ∀ plaintext, u.result = some plaintext →
        ResultOf (twoPeerWorld.crypto 0) twoPeerRun.exchange plaintext :=
  have hd : twoPeerWorld.Deterministic := fun _ => rfl
  ⟨hd, twoPeerRun_reachable, by decide, by decide,
    reachable_beta_provenance hd twoPeerRun_reachable⟩

end Reunion.Safety
