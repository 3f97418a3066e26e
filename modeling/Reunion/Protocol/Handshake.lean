import Reunion.Safety.Provenance
import Reunion.Safety.SelfReply
import Reunion.Client.Handshake

/-! # What a peer sends

A peer only ever sends what the handshake (`Crypto.handshake`) computes. Every T2 in its
history is the reply of its session to the T1 it holds under the T2's destination, and every
T3 is composed from the beta key it opens from the T1 and T2 it holds under the T3's
destination (`Honest`, `honest_move`); every T2 and T3 goes out from the hash of its own T1,
in its epoch, to another hash (`Origin`, `origin_move`).
-/

def Reunion.Client.Command.isReply : Reunion.Client.Command → Bool
  | .sendT2 .. | .sendT3 .. => true
  | _ => false

namespace Reunion.Protocol
open Reunion.Client Reunion.Safety

/-- Where a send of the history points: an accepted T1 is the peer's own T1, sent in its
epoch, after which it stays in `t1MessageSentState`; a T2 or a T3 goes out in its epoch from
the hash of its own T1 to another hash. -/
def OriginOf (H : Bytes → ExchangeHash) (e : Exchange) : Event → Prop
  | .query (.sendT1 ep t1) r =>
    accepted r = true → e.status = t1MessageSentState ∧ ep = e.session.epoch ∧ t1 = e.sentT1
  | .query (.sendT2 ep src dst _) _ | .query (.sendT3 ep src dst _) _ =>
    e.status = t1MessageSentState ∧ ep = e.session.epoch ∧ src = H e.sentT1 ∧ dst ≠ src
  | _ => True

/-- Every send of the history points where `OriginOf` says. -/
def Origin (H : Bytes → ExchangeHash) (e : Exchange) (tr : List Event) : Prop :=
  ∀ ev ∈ tr, OriginOf H e ev

/-- What a send of the history carries is what the handshake computes from what the peer
holds: a T2 is the reply of its session to the T1 it holds under the T2's destination, and a
T3 is composed from the beta key it opens from the T1 and the T2 it holds under the T3's
destination. -/
def HonestOf (c : Crypto) (e : Exchange) : Event → Prop
  | .query (.sendT2 _ _ dst t2) _ =>
    ∃ t1 pk, e.receivedT1s.lookup dst = some t1 ∧ c.reply e.session t1 = .ok (t2, pk)
  | .query (.sendT3 _ _ dst t3) _ =>
    ∃ t1 t2 beta, e.receivedT1s.lookup dst = some t1 ∧ e.receivedT2s.lookup dst = some t2 ∧
      c.unlock e.session t1 t2 = .ok beta ∧ c.composeType3Message e.session beta = .ok t3
  | _ => True

/-- Every send of the history carries what `HonestOf` says. -/
def Honest (c : Crypto) (e : Exchange) (tr : List Event) : Prop :=
  ∀ ev ∈ tr, HonestOf c e ev

namespace Origin

variable {H : Bytes → ExchangeHash} {e e' : Exchange} {tr : List Event}

theorem t1 (h : Origin H e tr) {ep : UInt64} {t1 : Bytes} {r : Except String Response}
    (hm : .query (.sendT1 ep t1) r ∈ tr) (ha : accepted r = true) :
    e.status = t1MessageSentState ∧ ep = e.session.epoch ∧ t1 = e.sentT1 :=
  h _ hm ha

theorem t2 (h : Origin H e tr) {ep : UInt64} {src dst : ExchangeHash} {t2 : Bytes}
    {r : Except String Response} (hm : .query (.sendT2 ep src dst t2) r ∈ tr) :
    e.status = t1MessageSentState ∧ ep = e.session.epoch ∧ src = H e.sentT1 ∧ dst ≠ src :=
  h _ hm

theorem t3 (h : Origin H e tr) {ep : UInt64} {src dst : ExchangeHash} {t3 : Bytes}
    {r : Except String Response} (hm : .query (.sendT3 ep src dst t3) r ∈ tr) :
    e.status = t1MessageSentState ∧ ep = e.session.epoch ∧ src = H e.sentT1 ∧ dst ≠ src :=
  h _ hm

theorem cons {ev : Event} (hev : OriginOf H e ev) (h : Origin H e tr) : Origin H e (ev :: tr) :=
  List.forall_mem_cons.2 ⟨hev, h⟩

theorem of_eq (h : Origin H e tr) (hs : e'.status = e.status) (he : e'.session = e.session)
    (ht : e'.sentT1 = e.sentT1) : Origin H e' tr := fun ev hev => by
  have h := h ev hev
  rcases ev with ⟨_ | _ | _ | _, _⟩ | _ <;>
    first | trivial | simpa only [OriginOf, hs, he, ht] using h

theorem of_initial (h : Origin H e tr) (hs : e.status = initialState) (e' : Exchange) :
    Origin H e' tr := fun ev hev => by
  have hne : e.status ≠ t1MessageSentState := hs ▸ Inv.initialState_ne
  have h := h ev hev
  rcases ev with ⟨_ | _ | _ | _, _⟩ | _
  · trivial
  · exact fun ha => absurd (h ha).1 hne
  · exact absurd h.1 hne
  · exact absurd h.1 hne
  · trivial

end Origin

namespace Honest

variable {c : Crypto} {e e' : Exchange} {tr : List Event}

theorem t2 (h : Honest c e tr) {ep : UInt64} {src dst : ExchangeHash} {t2 : Bytes}
    {r : Except String Response} (hm : .query (.sendT2 ep src dst t2) r ∈ tr) :
    ∃ t1 pk, e.receivedT1s.lookup dst = some t1 ∧ c.reply e.session t1 = .ok (t2, pk) :=
  h _ hm

theorem t3 (h : Honest c e tr) {ep : UInt64} {src dst : ExchangeHash} {t3 : Bytes}
    {r : Except String Response} (hm : .query (.sendT3 ep src dst t3) r ∈ tr) :
    ∃ t1 t2 beta, e.receivedT1s.lookup dst = some t1 ∧ e.receivedT2s.lookup dst = some t2 ∧
      c.unlock e.session t1 t2 = .ok beta ∧ c.composeType3Message e.session beta = .ok t3 :=
  h _ hm

theorem cons {ev : Event} (hev : HonestOf c e ev) (h : Honest c e tr) : Honest c e (ev :: tr) :=
  List.forall_mem_cons.2 ⟨hev, h⟩

theorem mono (h : Honest c e tr) (h₁ : SubMap e.receivedT1s e'.receivedT1s)
    (h₂ : SubMap e.receivedT2s e'.receivedT2s) (hs : e'.session = e.session) :
    Honest c e' tr := fun ev hev => by
  have h := h ev hev
  rcases ev with ⟨_ | _ | _ | _, _⟩ | _
  · trivial
  · trivial
  · obtain ⟨t1, pk, hl, hr⟩ := h
    exact ⟨t1, pk, h₁ hl, hs ▸ hr⟩
  · obtain ⟨t1, t2, beta, hl₁, hl₂, hu, hc⟩ := h
    exact ⟨t1, t2, beta, h₁ hl₁, h₂ hl₂, hs ▸ hu, hs ▸ hc⟩
  · trivial

end Honest

/-- Every move keeps the sends pointing from the own T1 to another hash. -/
theorem origin_move (w : World) :
    MoveInvariant w fun s => Inv w.sha256 s.1 ∧ Origin w.sha256 s.1 s.2 where
  initial _ h := ⟨inv_initial h, by rw [h.1]; exact fun _ h => (by cases h)⟩
  move s s' h hs := by
    obtain ⟨hi, ho⟩ := hs
    refine ⟨(inv_move w).move s s' h hi, ?_⟩
    cases h with
    | generate e tr t1 hs => exact ho.of_initial hs _
    | sendT1 e tr t1 r hs =>
      dsimp only
      split
      · exact (ho.of_initial hs _).cons fun _ => ⟨rfl, rfl, rfl⟩
      · next ha => exact (ho.of_initial hs _).cons fun ha' => absurd ha' ha
    | fetch e tr t1s t2s t3s r hs => exact (ho.of_eq rfl rfl rfl).cons trivial
    | sendT2 e tr t1Hash t1 t2 α β γ pk n r hs hl hne =>
      dsimp only
      split <;> exact (ho.of_eq rfl rfl rfl).cons ⟨hs, rfl, rfl, hne⟩
    | sendT3 e tr src t1 t2 t3 k α β γ pk beta n r hs h₂ h₁ hr ha =>
      have hne : src ≠ w.sha256 e.sentT1 := fun he =>
        hi.own_t1.2.1 (he ▸ mem_of_lookup_eq_some ha)
      dsimp only
      split <;> exact (ho.of_eq rfl rfl rfl).cons ⟨hs, rfl, rfl, hne⟩
    | result e tr => exact ho.cons trivial
    | emit e tr => exact ho.cons trivial
    | resume e tr => exact ho.of_eq rfl rfl rfl

/-- A peer in `t1MessageSentState` had its own T1 accepted. -/
def SentOwn (e : Exchange) (tr : List Event) : Prop :=
  e.status = t1MessageSentState →
    ∃ r, .query (.sendT1 e.session.epoch e.sentT1) r ∈ tr ∧ accepted r = true

theorem SentOwn.cons {e e' : Exchange} {tr : List Event} (h : SentOwn e tr) (ev : Event)
    (hs : e'.status = e.status) (he : e'.session = e.session) (ht : e'.sentT1 = e.sentT1) :
    SentOwn e' (ev :: tr) := fun h' => by
  obtain ⟨r, hr, ha⟩ := h (hs ▸ h')
  rw [he, ht]
  exact ⟨r, List.mem_cons_of_mem _ hr, ha⟩

theorem sentOwn_move (w : World) : MoveInvariant w fun s => SentOwn s.1 s.2 where
  initial _ h hs := absurd ((initial_status h).symm.trans hs) Inv.initialState_ne
  move s s' h hs := by
    cases h with
    | generate e tr t1 h₀ => exact fun h => absurd (h₀.symm.trans h) Inv.initialState_ne
    | sendT1 e tr t1 r h₀ =>
      dsimp only
      split
      · exact fun _ => ⟨r, List.mem_cons_self _ _, ‹_›⟩
      · exact fun h => absurd (h₀.symm.trans h) Inv.initialState_ne
    | fetch => exact hs.cons _ rfl rfl rfl
    | sendT2 => dsimp only; split <;> exact hs.cons _ rfl rfl rfl
    | sendT3 => dsimp only; split <;> exact hs.cons _ rfl rfl rfl
    | result => exact hs.cons _ rfl rfl rfl
    | emit => exact hs.cons _ rfl rfl rfl
    | resume => exact hs

section
variable {w : World} (hw : w.Deterministic)
include hw

/-- Every move keeps what a peer sent computed by the handshake from what it holds. -/
theorem honest_move :
    MoveInvariant w fun s => (Inv w.sha256 s.1 ∧ Provenance (w.crypto 0) s.1 s.2) ∧
      Honest (w.crypto 0) s.1 s.2 where
  initial m h := ⟨(provenance_move hw).initial m h, by rw [h.1]; exact fun _ h => (by cases h)⟩
  move s s' h hs := by
    obtain ⟨hip, hh⟩ := hs
    refine ⟨(provenance_move hw).move s s' h hip, ?_⟩
    cases h with
    | generate e tr t1 hs => exact hh.mono (by rfl) (by rfl) rfl
    | sendT1 e tr t1 r hs =>
      dsimp only
      split <;> exact (hh.cons (by trivial)).mono (by rfl) (by rfl) rfl
    | fetch e tr t1s t2s t3s r hs h₁ h₂ => exact (hh.cons (by trivial)).mono h₁ h₂ rfl
    | sendT2 e tr t1Hash t1 t2 α β γ pk n r hs hl hne hr hd hp =>
      have hev : HonestOf (w.crypto 0) e
          (.query (.sendT2 e.session.epoch (w.sha256 e.sentT1) t1Hash t2) r) :=
        ⟨t1, pk, hl, Crypto.reply_of (hw n ▸ hd) (hw (n + 1) ▸ hp)⟩
      dsimp only
      split <;> exact (hh.cons hev).mono (by rfl) (by rfl) rfl
    | sendT3 e tr src t1 t2 t3 k α β γ pk beta n r hs h₂ h₁ hr ha hk hd hb hc =>
      obtain ⟨t1', α', β', γ', t2', hl', hd', hp'⟩ := hip.2.alphas src pk ha
      cases h₁.symm.trans hl'
      have hev : HonestOf (w.crypto 0) e
          (.query (.sendT3 e.session.epoch (w.sha256 e.sentT1) src t3) r) :=
        ⟨t1, t2, beta, h₁, h₂, Crypto.unlock_of (Crypto.reply_of hd' hp') (hw n ▸ hk)
          (hw (n + 1) ▸ hd) (hw (n + 2) ▸ hb), hw (n + 3) ▸ hc⟩
      dsimp only
      split <;> exact (hh.cons hev).mono (by rfl) (by rfl) rfl
    | result e tr => exact hh.cons (by trivial)
    | emit e tr => exact hh.cons (by trivial)
    | resume e tr => exact hh.mono (by rfl) (by rfl) rfl

/-- Whatever the database answers, every T2 a client sends in any run is its session's
reply to the T1 it holds under the T2's destination, and every T3 is composed from the beta
key it opens from the T1 and the T2 it holds under the T3's destination. -/
theorem reachable_sends_honest {m : Machine} (hm : Reachable w m) :
    Honest (w.crypto 0) m.exchange m.trace :=
  ((honest_move hw).reachable hm).2

end

theorem sample_sends_honest :
    twoPeerWorld.Deterministic ∧ Reachable twoPeerWorld twoPeerRun ∧
      twoPeerRun.trace.countP (fun ev => (Reunion.Safety.replyTarget ev).isSome) = 4 ∧
      Honest (twoPeerWorld.crypto 0) twoPeerRun.exchange twoPeerRun.trace :=
  have hd : twoPeerWorld.Deterministic := fun _ => rfl
  ⟨hd, twoPeerRun_reachable, by decide, reachable_sends_honest hd twoPeerRun_reachable⟩

end Reunion.Protocol
