import Reunion.Protocol.Progress

/-! # Every peer of an epoch completes

Any number of peers of one epoch, on fresh exchanges in front of an empty database, with a
crypto library that pairs them (`Crypto.Pairs`), hosts that neither stop them nor fail to
snapshot them, T1s that hash apart and replies of distinct peers to one T1 that hash apart,
all complete when each sends its T1 in turn and then each runs one iteration of its loop in
turn, twice over (`all_peers_complete`). In the first sweep every peer answers
every other's T1, and every peer after the first opens the first one's beta key
(`FirstSweep`); in the second the first peer completes with the T3 of any other and answers
every other's T2, and each peer after it completes with the first one's T3 (`SecondSweep`).

`sendT3Messages` files what it answered under the hash of the T2 (`repliedT2s`) and skips a
T2 whose hash it has answered, whoever sent it: that the beta key of every T2 answered was
opened rests on the replies of distinct peers hashing apart (`Reachable.betas_of_replied`).
-/

namespace Reunion.Protocol
open Reunion.Client Reunion.Safety

namespace System

variable {n : Nat} {db : Database} {c : Crypto} {w : Fin n → World} {S : System n}

/-! ## Sweeps -/

theorem mem_of_prefix_cons {f i : Fin n} {pre rest : List (Fin n)} (h : pre ++ [i] <+: f :: rest)
    (hi : i ≠ f) : f ∈ pre := by
  cases pre with
  | nil => exact absurd (List.cons_prefix_cons.1 h).1 hi
  | cons p pre => exact (List.cons_prefix_cons.1 h).1 ▸ List.mem_cons_self _ _

theorem run_flatMap_induction {B : Fin n → List (Fin n)} {L : List (Fin n)} (hL : L.Nodup)
    {P : List (Fin n) → System n → Prop}
    (hstep : ∀ pre i T, pre ++ [i] <+: L → i ∉ pre → T.Reachable db w → P pre T →
      P (pre ++ [i]) (T.run db w (B i))) :
    ∀ l pre T, pre ++ l <+: L → T.Reachable db w → P pre T →
      P (pre ++ l) (T.run db w (l.flatMap B)) := by
  intro l
  induction l with
  | nil => intro pre T _ _ hP; rwa [List.append_nil]
  | cons i l ih =>
    intro pre T hpre hT hP
    have hnd := (List.nodup_middle.1 (hL.sublist hpre.sublist))
    have hi : i ∉ pre := fun h => (List.nodup_cons.1 hnd).1 (List.mem_append_left _ h)
    have hpre' : pre ++ [i] ++ l <+: L := by rwa [List.append_assoc, List.singleton_append]
    rw [List.flatMap_cons, run_append, ← List.singleton_append, ← List.append_assoc]
    exact ih _ _ hpre' (hT.run _)
      (hstep pre i T ((List.prefix_append _ _).trans hpre') hi hT hP)

def loopSweep (l : List (Fin n)) : List (Fin n) := l.flatMap fun i => [i, i, i, i]

/-- Every peer of `l` runs `Run`'s entry, in the order of `l`; then each runs one iteration
of its loop in turn, twice over. -/
def sweepSchedule (l : List (Fin n)) : List (Fin n) := l ++ loopSweep l ++ loopSweep l

/-! ## Gathered peers -/

/-- Every peer is past `sendT1`, with session `s i` and a T1 that hashes to `h i`; the
sessions are of one epoch, no two T1s hash alike, and every two peers complete their
handshake. -/
structure Gathered (db : Database) (c : Crypto) (S : System n) (s : Fin n → Session)
    (h : Fin n → ExchangeHash) : Prop where
  status : ∀ i, (S.peers i).machine.exchange.status = t1MessageSentState
  session : ∀ i, (S.peers i).machine.exchange.session = s i
  hash : ∀ i, db.sha256 (S.peers i).machine.exchange.sentT1 = h i
  epoch : ∀ i j, (s i).epoch = (s j).epoch
  apart : Function.Injective h
  handshakes : Handshakes c S

section
variable {s : Fin n → Session} {h : Fin n → ExchangeHash} (hw : db.Serves c w)
  (hS : S.Reachable db w) (hG : Gathered db c S s h)
include hS hG

omit hw in
theorem Gathered.run (l : List (Fin n)) : Gathered db c (S.run db w l) s h := by
  have hf i := (hS.extends_run l i).fixed (hG.status i)
  exact ⟨fun i => (hf i).1, fun i => (hf i).2.2.trans (hG.session i),
    fun i => ((hf i).2.1 ▸ hG.hash i), hG.epoch, hG.apart, hG.handshakes.run hS hG.status l⟩

include hw

theorem Gathered.distinct : Distinct db.sha256 S where
  t1s _ _ _ _ h₁ h₂ he := by
    obtain ⟨j, -, -, rfl⟩ := hS.t1_of_board hw h₁
    obtain ⟨k, -, -, rfl⟩ := hS.t1_of_board hw h₂
    rw [hG.hash, hG.hash] at he
    rw [hG.apart he]
  peers j k _ _ he := hG.apart (by rw [← hG.hash, ← hG.hash, he])

theorem Reachable.t2_source {i : Fin n} {k : ExchangeHash}
    (hk : k ∈ (S.peers i).machine.exchange.receivedT2s) :
    ∃ l, l ≠ i ∧ k = h l ∧ h i ∈ (S.peers l).machine.exchange.receivedT1s := by
  obtain ⟨t2, ht2⟩ := exists_lookup_of_mem hk
  obtain ⟨l, rfl, hne, hl⟩ := hS.t2_from hw ((hS.fed hw i).received.t2s _ t2 ht2)
  simp only [hG.hash] at hne hl ⊢
  exact ⟨l, fun hli => hne (hli ▸ rfl), rfl, hl⟩

theorem Reachable.t3_source {i : Fin n} {k : ExchangeHash}
    (hk : k ∈ (S.peers i).machine.exchange.receivedT3s) :
    ∃ l, l ≠ i ∧ k = h l ∧ h i ∈ (S.peers l).machine.exchange.receivedT2s := by
  obtain ⟨t3, ht3⟩ := exists_lookup_of_mem hk
  obtain ⟨l, rfl, hne, hl⟩ := hS.t3_from hw ((hS.fed hw i).received.t3s _ t3 ht3)
  simp only [hG.hash] at hne hl ⊢
  exact ⟨l, fun hli => hne (hli ▸ rfl), rfl, hl⟩

theorem Reachable.reply_of_held {i l : Fin n} {t2 : Bytes}
    (ht2 : (S.peers i).machine.exchange.receivedT2s.lookup (h l) = some t2) :
    ∃ pk, c.reply (s l) (S.peers i).machine.exchange.sentT1 = .ok (t2, pk) := by
  have hx := hG.distinct hw hS
  obtain ⟨j, hsj, hsrc, t1, pk, hl, hr⟩ :=
    hS.t2_of_board hw ((hS.fed hw i).received.t2s _ _ ht2)
  obtain rfl := hS.peer_eq hw hx (hG.status l) hsj ((hG.hash l).trans hsrc)
  obtain rfl := hS.held_t1 hw hx (hG.status i) hl
  exact ⟨pk, hG.session l ▸ hr⟩

/-- When the replies of distinct peers to one T1 hash apart, a T2 a peer holds whose hash it
has marked answered had its source's beta key opened. -/
theorem Reachable.betas_of_replied
    (hT2 : ∀ j l t1 t2 t2' pk pk', c.reply (s j) t1 = .ok (t2, pk) →
      c.reply (s l) t1 = .ok (t2', pk') → db.sha256 t2 = db.sha256 t2' → j = l)
    {i : Fin n} {k : ExchangeHash} {t2 : Bytes}
    (hk : (S.peers i).machine.exchange.receivedT2s.lookup k = some t2)
    (hr : db.sha256 t2 ∈ (S.peers i).machine.exchange.repliedT2s) :
    k ∈ (S.peers i).machine.exchange.decryptedT1Betas := by
  obtain ⟨t2', ht2'⟩ := exists_lookup_of_mem hr
  obtain ⟨src, hsrc, hb⟩ := (hS.backed i).t2s _ _ ht2'
  obtain ⟨he, -⟩ := (hS.origin hw i).1.1.replied_t2s _ _ ht2'
  obtain ⟨l, -, rfl, -⟩ := hS.t2_source hw hG (mem_of_lookup_eq_some hk)
  obtain ⟨l', -, rfl, -⟩ := hS.t2_source hw hG (mem_of_lookup_eq_some hsrc)
  obtain ⟨pk, hp⟩ := hS.reply_of_held hw hG hk
  obtain ⟨pk', hp'⟩ := hS.reply_of_held hw hG hsrc
  rwa [hT2 _ _ _ _ _ _ _ hp hp' he]

theorem Reachable.handshake_of_top {i : Fin n} (hr : ResultOnTop (S.peers i).machine.trace) :
    ∃ u rest p, (S.peers i).machine.trace = .update u :: rest ∧ u.result = some p ∧
      ∃ j, j ≠ i ∧ c.handshake (S.peers i).machine.exchange.session
        (S.peers i).machine.exchange.sentT1 (S.peers j).machine.exchange.session
        (S.peers j).machine.exchange.sentT1 = .ok p := by
  obtain ⟨u, rest, p, htr, -, -, hp⟩ := hr
  obtain ⟨j, hji, -, -, hh⟩ :=
    hS.result_handshake hw (hG.distinct hw hS) (htr ▸ List.mem_cons_self _ _) hp
  exact ⟨u, rest, p, htr, hp, j, hji, hh⟩

end

/-! ## One iteration among gathered peers -/

section
variable {s : Fin n → Session} {h : Fin n → ExchangeHash} (hw : db.Serves c w)
  (hc : c.NonEmpty) (hl : ∀ i, (w i).Live)
  (hT2 : ∀ j l t1 t2 t2' pk pk', c.reply (s j) t1 = .ok (t2, pk) →
    c.reply (s l) t1 = .ok (t2', pk') → db.sha256 t2 = db.sha256 t2' → j = l)
include hw hc hl hT2

omit hc in
theorem Reachable.advance_sendT3_all (hS : S.Reachable db w) (hG : Gathered db c S s h)
    {i : Fin n} (hp : (S.peers i).pc = .sendT3)
    (h₁ : ∀ l, l ≠ i → h l ∈ (S.peers i).machine.exchange.receivedT1s)
    (h₂ : ∀ l, l ≠ i → h l ∈ (S.peers i).machine.exchange.repliedT1s) :
    ((System.advance db w S i).peers i).pc = .processT3 ∧
      ∀ k ∈ (S.peers i).machine.exchange.receivedT2s,
        k ∈ ((System.advance db w S i).peers i).machine.exchange.decryptedT1Betas := by
  obtain ⟨hp', hans⟩ := advance_sendT3 hw hl hS hG.handshakes (hG.distinct hw hS) hp
    fun src hs => by
    obtain ⟨l, hli, rfl, -⟩ := hS.t2_source hw hG hs
    exact ⟨h₁ l hli, ((hS.backed i).t1s _ (h₂ l hli)).1⟩
  refine ⟨hp', fun k hk => ?_⟩
  obtain ⟨t2, ht2⟩ := exists_lookup_of_mem hk
  exact (hS.advance i).betas_of_replied hw (hG.run hS [i]) hT2
    ((hS.extends_advance i i).receivedT2s ht2) (hans k t2 ht2)

theorem Reachable.iteration (hS : S.Reachable db w) (hG : Gathered db c S s h) {i : Fin n}
    (hp : (S.peers i).pc = .fetch) :
    (∀ j, j ≠ i → h j ∈ ((S.run db w [i, i, i, i]).peers i).machine.exchange.repliedT1s) ∧
      (∀ j, j ≠ i → h i ∈ (S.peers j).machine.exchange.repliedT1s →
        h j ∈ ((S.run db w [i, i, i, i]).peers i).machine.exchange.decryptedT1Betas) ∧
      ((∃ j, j ≠ i ∧ h i ∈ (S.peers j).machine.exchange.repliedT1s ∧
          h i ∈ (S.peers j).machine.exchange.decryptedT1Betas) →
        ((S.run db w [i, i, i, i]).peers i).pc = .halted .completed ∧
          ResultOnTop ((S.run db w [i, i, i, i]).peers i).machine.trace) ∧
      ((∀ j, j ≠ i → h i ∉ (S.peers j).machine.exchange.receivedT2s) →
        ((S.run db w [i, i, i, i]).peers i).pc = .fetch) := by
  rw [show S.run db w [i, i, i, i] = System.advance db w (System.advance db w
    (System.advance db w (System.advance db w S i) i) i) i from rfl]
  have hS₁ := hS.advance i
  have hS₂ := hS₁.advance i
  have hx₁ := hS.extends_advance i i
  have hx₂ := hS₁.extends_advance i i
  have hx₃ := hS₂.extends_advance i i
  have hf j := hS.fetch_holds hw hc hp (hG.status j)
    (by rw [hG.session, hG.session]; exact hG.epoch j i)
  simp only [hG.hash] at hf
  obtain ⟨hp₂, hr₂⟩ := advance_sendT2 hw hl hS₁ (hG.run hS [i]).handshakes (hf i).1
  have hr₂ j (hji : j ≠ i) := hr₂ (h j) (hf j).2.1
    (by rw [(hx₁.fixed (hG.status i)).2.1, hG.hash]; exact fun e => hji (hG.apart e))
  obtain ⟨hp₃, hb₃⟩ := hS₂.advance_sendT3_all hw hl hT2 (hG.run hS [i, i]) hp₂
    (fun j _ => hx₂.receivedT1s.mem (hf j).2.1) hr₂
  have hb j (hrj : h i ∈ (S.peers j).machine.exchange.repliedT1s) :=
    hb₃ _ (hx₂.receivedT2s.mem ((hf j).2.2.1 hrj))
  have hG₃ := hG.run hS [i, i, i]
  obtain ⟨he₄, hdone, hnot⟩ := (hS₂.advance i).advance_processT3 hw hp₃
  rw [he₄]
  refine ⟨fun j hji => hx₃.repliedT1s.mem (hr₂ j hji), fun j _ => hb j,
    fun ⟨j, _, hrj, hbj⟩ => hdone
      ⟨h j, (hx₂.trans hx₃).receivedT3s.mem ((hf j).2.2.2 hbj), hb j hrj⟩ hG₃.handshakes
      (hG₃.distinct hw (hS₂.advance i)),
    fun hn => hnot fun ⟨k, hk, _⟩ => ?_⟩
  obtain ⟨l, hli, rfl, hl⟩ := (hS₂.advance i).t3_source hw (hG.run hS [i, i, i]) hk
  rw [advance_ne _ hli, advance_ne _ hli, advance_ne _ hli] at hl
  exact hn l hli hl

/-! ## The first sweep -/

/-- Partway through the first sweep, `f` first: every peer is at the top of the loop; each
peer of `pre` answered every other's T1, holds no T2 from a peer after `pre`, and opened the
beta key of `f` unless it is `f`; the peers after `pre` hold no T1 and no T2. -/
structure FirstSweep (h : Fin n → ExchangeHash) (f : Fin n) (pre : List (Fin n))
    (T : System n) : Prop where
  pc : ∀ j, (T.peers j).pc = .fetch
  answered : ∀ j ∈ pre, ∀ k, k ≠ j → h k ∈ (T.peers j).machine.exchange.repliedT1s
  fresh : ∀ j ∉ pre, (T.peers j).machine.exchange.receivedT1s = ∅ ∧
    (T.peers j).machine.exchange.receivedT2s = ∅
  pending : ∀ j ∈ pre, ∀ k ∉ pre, h k ∉ (T.peers j).machine.exchange.receivedT2s
  opened : ∀ j ∈ pre, j ≠ f → h f ∈ (T.peers j).machine.exchange.decryptedT1Betas

theorem FirstSweep.step {f i : Fin n} {pre rest : List (Fin n)} {T : System n}
    (hT : T.Reachable db w) (hG : Gathered db c T s h) (hF : FirstSweep h f pre T)
    (hpre : pre ++ [i] <+: f :: rest) (hi : i ∉ pre) :
    FirstSweep h f (pre ++ [i]) (T.run db w [i, i, i, i]) := by
  obtain ⟨hrep, hbet, -, hfetch⟩ := hT.iteration hw hc hl hT2 hG (hF.pc i)
  have hu j (hji : j ≠ i) : (T.run db w [i, i, i, i]).peers j = T.peers j :=
    run_peers_of_not_mem (by simp [hji])
  have hmem {j} : j ∈ pre ++ [i] ↔ j ∈ pre ∨ j = i := by simp
  have hne {j} (hj : j ∈ pre) : j ≠ i := fun e => hi (e ▸ hj)
  refine ⟨fun j => ?_, fun j hj k hkj => ?_, fun j hj => ?_, fun j hj k hk₀ => ?_,
    fun j hj hjf => ?_⟩
  · by_cases hji : j = i
    · subst hji
      refine hfetch fun k _ => ?_
      by_cases hk : k ∈ pre
      · exact hF.pending k hk j hi
      · rw [(hF.fresh k hk).2]; exact AList.not_mem_empty _
    · rw [hu j hji]; exact hF.pc j
  · rcases hmem.1 hj with hj | rfl
    · rw [hu j (hne hj)]; exact hF.answered j hj k hkj
    · exact hrep k hkj
  · obtain ⟨hj, hji⟩ := not_or.1 (hmem.not.1 hj)
    rw [hu j hji]; exact hF.fresh j hj
  · obtain ⟨hk, hki⟩ := not_or.1 (hmem.not.1 hk₀)
    rcases hmem.1 hj with hj | rfl
    · rw [hu j (hne hj)]; exact hF.pending j hj k hk
    · intro hk'
      obtain ⟨l, -, hkl, hl⟩ := (hT.run [j, j, j, j]).t2_source hw (hG.run hT _) hk'
      obtain rfl := hG.apart hkl
      rw [hu k hki, (hF.fresh k hk).1] at hl
      exact AList.not_mem_empty _ hl
  · rcases hmem.1 hj with hj | rfl
    · rw [hu j (hne hj)]; exact hF.opened j hj hjf
    · have hf := mem_of_prefix_cons hpre hjf
      exact hbet f (Ne.symm hjf) (hF.answered f hf j hjf)

/-! ## The second sweep -/

/-- Partway through the second sweep, `f` first: the peers of `pre` completed with a result on
top of their histories and the others are at the top of the loop; every peer answered every
other's T1; every peer but `f` opened the beta key of `f`, and once `f` has run it opened
every other's. -/
structure SecondSweep (h : Fin n → ExchangeHash) (f : Fin n) (pre : List (Fin n))
    (T : System n) : Prop where
  done : ∀ j ∈ pre,
    (T.peers j).pc = .halted .completed ∧ ResultOnTop (T.peers j).machine.trace
  waiting : ∀ j ∉ pre, (T.peers j).pc = .fetch
  answered : ∀ j k, k ≠ j → h k ∈ (T.peers j).machine.exchange.repliedT1s
  primed : ∀ j, j ≠ f → h f ∈ (T.peers j).machine.exchange.decryptedT1Betas
  opened : f ∈ pre → ∀ j, j ≠ f → h j ∈ (T.peers f).machine.exchange.decryptedT1Betas

omit hw hc hl hT2 in
theorem FirstSweep.secondSweep {f : Fin n} {L : List (Fin n)} {T : System n}
    (hF : FirstSweep h f L T) (hall : ∀ i, i ∈ L) : SecondSweep h f [] T where
  done _ h := absurd h (List.not_mem_nil _)
  waiting j _ := hF.pc j
  answered j := hF.answered j (hall j)
  primed j := hF.opened j (hall j)
  opened h := absurd h (List.not_mem_nil _)

theorem SecondSweep.step {f i : Fin n} {pre rest : List (Fin n)} {T : System n}
    (hT : T.Reachable db w) (hG : Gathered db c T s h) (hF : SecondSweep h f pre T)
    (hg : ∃ g, g ≠ f) (hpre : pre ++ [i] <+: f :: rest) (hi : i ∉ pre) :
    SecondSweep h f (pre ++ [i]) (T.run db w [i, i, i, i]) := by
  obtain ⟨-, hbet, hdone, -⟩ := hT.iteration hw hc hl hT2 hG (hF.waiting i hi)
  have hu j (hji : j ≠ i) : (T.run db w [i, i, i, i]).peers j = T.peers j :=
    run_peers_of_not_mem (by simp [hji])
  have hmem {j} : j ∈ pre ++ [i] ↔ j ∈ pre ∨ j = i := by simp
  have hx j := hT.extends_run [i, i, i, i] j
  have hc : ∃ j, j ≠ i ∧ h i ∈ (T.peers j).machine.exchange.repliedT1s ∧
      h i ∈ (T.peers j).machine.exchange.decryptedT1Betas := by
    by_cases hif : i = f
    · obtain ⟨g, hg⟩ := hg
      subst hif
      exact ⟨g, hg, hF.answered g i (Ne.symm hg), hF.primed g hg⟩
    · exact ⟨f, Ne.symm hif, hF.answered f i hif,
        hF.opened (mem_of_prefix_cons hpre hif) i hif⟩
  refine ⟨fun j hj => ?_, fun j hj => ?_, fun j k hkj => (hx j).repliedT1s.mem
    (hF.answered j k hkj), fun j hjf => (hx j).decryptedT1Betas.mem (hF.primed j hjf),
    fun hf j hjf => ?_⟩
  · rcases hmem.1 hj with hj | rfl
    · rw [hu j fun e => hi (e ▸ hj)]; exact hF.done j hj
    · exact hdone hc
  · obtain ⟨hj, hji⟩ := not_or.1 (hmem.not.1 hj)
    rw [hu j hji]; exact hF.waiting j hj
  · by_cases hfp : f ∈ pre
    · exact (hx f).decryptedT1Betas.mem (hF.opened hfp j hjf)
    · obtain rfl : f = i := (hmem.1 hf).resolve_left hfp
      exact hbet j hjf (hF.answered j f (Ne.symm hjf))

end

/-! ## All peers complete -/

/-- The peers of `pre` have sent their T1 and are at the top of the loop, their exchanges
otherwise as in `S₀`; the other peers are as in `S₀`. -/
def Entered (c : Crypto) (S₀ : System n) (pre : List (Fin n)) (T : System n) : Prop :=
  ∀ i, (i ∈ pre → (T.peers i).pc = .fetch ∧ ∃ t1, c.generateType1Message
      (S₀.peers i).machine.exchange.session (S₀.peers i).machine.exchange.payload = .ok t1 ∧
      (T.peers i).machine.exchange =
        { (S₀.peers i).machine.exchange with sentT1 := t1, status := t1MessageSentState }) ∧
    (i ∉ pre → T.peers i = S₀.peers i)

section
variable {S₀ T : System n} {L : List (Fin n)}

theorem Entered.step (hw : db.Serves c w) (hc : c.Pairs S₀) (hl : ∀ i, (w i).Live)
    (hS₀ : Initial w S₀) {pre : List (Fin n)} {i : Fin n} (hE : Entered c S₀ pre T)
    (hi : i ∉ pre) : Entered c S₀ (pre ++ [i]) (T.run db w [i]) := by
  have hT := (hE i).2 hi
  obtain ⟨t1, hg, hp, he⟩ := advance_entry hw hl (S := T) (i := i)
    (by rw [hT]; exact (hS₀.2 i).1) (by rw [hT]; exact initial_status (hS₀.2 i).2)
    (by rw [hT]; exact hc.generate i)
  rw [hT] at hg he
  intro j
  by_cases hji : j = i
  · subst hji
    exact ⟨fun _ => ⟨hp, t1, hg, he⟩, fun h => absurd (List.mem_append_right _
      (List.mem_singleton_self _)) h⟩
  · have hm : j ∈ pre ++ [i] ↔ j ∈ pre := by simp [hji]
    rw [hm, show (T.run db w [i]).peers j = T.peers j from advance_ne T hji]
    exact hE j

theorem Entered.gathered (hE : Entered c S₀ L T) (hall : ∀ i, i ∈ L) (hc : c.Pairs S₀)
    (hep : ∀ i j, (S₀.peers i).machine.exchange.session.epoch =
      (S₀.peers j).machine.exchange.session.epoch)
    (hne : ∀ i j t1 t1', c.generateType1Message (S₀.peers i).machine.exchange.session
        (S₀.peers i).machine.exchange.payload = .ok t1 →
      c.generateType1Message (S₀.peers j).machine.exchange.session
        (S₀.peers j).machine.exchange.payload = .ok t1' →
      db.sha256 t1 = db.sha256 t1' → i = j) :
    Gathered db c T (fun i => (S₀.peers i).machine.exchange.session)
      (fun i => db.sha256 (T.peers i).machine.exchange.sentT1) where
  status i := by obtain ⟨-, t1, -, he⟩ := (hE i).1 (hall i); rw [he]
  session i := by obtain ⟨-, t1, -, he⟩ := (hE i).1 (hall i); rw [he]
  hash _ := rfl
  epoch := hep
  apart i j he := by
    obtain ⟨-, t1, hg, hei⟩ := (hE i).1 (hall i)
    obtain ⟨-, t1', hg', hej⟩ := (hE j).1 (hall j)
    rw [hei, hej] at he
    exact hne i j t1 t1' hg hg' he
  handshakes i j hji _ _ := by
    obtain ⟨-, t1, hg, hei⟩ := (hE i).1 (hall i)
    obtain ⟨-, t1', hg', hej⟩ := (hE j).1 (hall j)
    rw [hei, hej]
    exact hc.handshake i j hji t1 t1' hg hg'

theorem Entered.firstSweep (hS₀ : Initial w S₀) (hE : Entered c S₀ L T)
    (hall : ∀ i, i ∈ L) (h : Fin n → ExchangeHash) (f : Fin n) : FirstSweep h f [] T where
  pc j := ((hE j).1 (hall j)).1
  answered _ h := absurd h (List.not_mem_nil _)
  fresh j _ := by
    obtain ⟨-, t1, -, he⟩ := (hE j).1 (hall j)
    obtain ⟨-, -, -, h₁, h₂, -⟩ :=
      (inv_initial (hS₀.2 j).2).initial_empty (initial_status (hS₀.2 j).2)
    rw [he]
    exact ⟨h₁, h₂⟩
  pending _ h := absurd h (List.not_mem_nil _)
  opened _ h := absurd h (List.not_mem_nil _)

end

/-- Fresh peers of one epoch, in front of an empty database that serves them, with a crypto
library that pairs them (`Crypto.Pairs`), hosts that neither stop them nor fail to snapshot
them, T1s that hash apart, and replies of distinct peers to one T1 that hash apart: when
there are at least two and `sweepSchedule` runs them in an order `L` that lists each once,
every one completes, with on top of its history the result the handshake computes from its
own session and T1 and another peer's. -/
theorem all_peers_complete (hw : db.Serves c w) (hc : c.Pairs S) (hl : ∀ i, (w i).Live)
    (hS : Initial w S)
    (hep : ∀ i j, (S.peers i).machine.exchange.session.epoch =
      (S.peers j).machine.exchange.session.epoch)
    (hne : ∀ i j t1 t1', c.generateType1Message (S.peers i).machine.exchange.session
        (S.peers i).machine.exchange.payload = .ok t1 →
      c.generateType1Message (S.peers j).machine.exchange.session
        (S.peers j).machine.exchange.payload = .ok t1' →
      db.sha256 t1 = db.sha256 t1' → i = j)
    (hT2 : ∀ j l t1 t2 t2' pk pk',
      c.reply (S.peers j).machine.exchange.session t1 = .ok (t2, pk) →
      c.reply (S.peers l).machine.exchange.session t1 = .ok (t2', pk') →
      db.sha256 t2 = db.sha256 t2' → j = l)
    (hn : 2 ≤ n) {L : List (Fin n)} (hL : L.Nodup) (hall : ∀ i, i ∈ L) :
    ∀ i, ((S.run db w (sweepSchedule L)).peers i).pc = .halted .completed ∧
      ∃ u rest p, ((S.run db w (sweepSchedule L)).peers i).machine.trace = .update u :: rest ∧
        u.result = some p ∧
        ∃ j, j ≠ i ∧
          c.handshake ((S.run db w (sweepSchedule L)).peers i).machine.exchange.session
          ((S.run db w (sweepSchedule L)).peers i).machine.exchange.sentT1
          ((S.run db w (sweepSchedule L)).peers j).machine.exchange.session
          ((S.run db w (sweepSchedule L)).peers j).machine.exchange.sentT1 = .ok p := by
  obtain ⟨f, rest, rfl⟩ : ∃ f rest, L = f :: rest := by
    cases L with
    | nil => exact absurd (hall ⟨0, by omega⟩) (List.not_mem_nil _)
    | cons f rest => exact ⟨f, rest, rfl⟩
  have hg : ∃ g, g ≠ f := by
    have := Fin.nontrivial_iff_two_le.2 hn
    exact exists_ne f
  have hS' : S.Reachable db w := .initial hS
  have hn := hc.toNonEmpty
  have hE : Entered c S (f :: rest) (S.run db w (f :: rest)) := by
    have := run_flatMap_induction (B := fun i => [i]) hL (P := fun pre T => Entered c S pre T)
      (fun _ _ _ _ hi _ hE => hE.step hw hc hl hS hi) (f :: rest) [] S (List.prefix_refl _) hS'
      fun i => ⟨fun h => absurd h (List.not_mem_nil _), fun _ => rfl⟩
    rwa [List.flatMap_singleton'] at this
  set E := S.run db w (f :: rest)
  have hE' : E.Reachable db w := hS'.run _
  have hG := hE.gathered hall hc hep hne
  obtain ⟨hG₁, hF₁⟩ := run_flatMap_induction (B := fun i => [i, i, i, i]) hL
    (P := fun pre T => Gathered db c T _ _ ∧ FirstSweep _ f pre T)
    (fun _ _ T hpre hi hT ⟨hG, hF⟩ => ⟨hG.run hT _, hF.step hw hn hl hT2 hT hG hpre hi⟩)
    (f :: rest) [] E (List.prefix_refl _) hE' ⟨hG, hE.firstSweep hS hall _ f⟩
  have hT₁ : (E.run db w (loopSweep (f :: rest))).Reachable db w := hE'.run _
  obtain ⟨hG₂, hF₂⟩ := run_flatMap_induction (B := fun i => [i, i, i, i]) hL
    (P := fun pre T => Gathered db c T _ _ ∧ SecondSweep _ f pre T)
    (fun _ _ T hpre hi hT ⟨hG, hF⟩ => ⟨hG.run hT _, hF.step hw hn hl hT2 hT hG hg hpre hi⟩)
    (f :: rest) [] _ (List.prefix_refl _) hT₁ ⟨hG₁, hF₁.secondSweep hall⟩
  rw [sweepSchedule, run_append, run_append]
  intro i
  obtain ⟨hpc, hr⟩ := hF₂.done i (hall i)
  exact ⟨hpc, (hT₁.run _).handshake_of_top hw hG₂ hr⟩

end System

/-! ## Three peers -/

/-- The sample crypto library with the first byte of the session's key material in front of
every T2, and a tag byte in front of every T3. -/
def sweepCrypto : Crypto :=
  { (World.samplePeer.crypto 0) with
    processType1MessageAlpha := fun s alpha => .ok (s.keyMaterial.headD 0 :: alpha, ⟨alpha⟩)
    composeType3Message := fun _ beta => .ok (0 :: beta.key) }

def World.sweepPeer (k : UInt8) : World :=
  { World.samplePeer with
    newSession := fun _ _ epoch => .ok ⟨epoch, [k]⟩
    marshalExchange := fun _ => .ok []
    crypto := fun _ => sweepCrypto }

theorem World.sweepPeer_unmarshalState (k : UInt8) :
    (World.sweepPeer k).unmarshalState = decodeState := rfl

def sweepWorld (i : Fin 3) : World := World.sweepPeer i.val.toUInt8

def sweepSystem : System 3 :=
  ⟨[], fun i => ⟨.entry, ⟨{ sampleExchange with
    session := ⟨0, [i.val.toUInt8]⟩, payload := [i.val.toUInt8] }, 0, []⟩⟩⟩

theorem sweepCrypto_pairs : sweepCrypto.Pairs sweepSystem where
  t2 _ _ _ _ h := by cases h; exact List.cons_ne_nil _ _
  t3 _ _ _ h := by cases h; exact List.cons_ne_nil _ _
  generate _ := ⟨_, rfl⟩
  handshake _ _ _ _ _ _ _ := ⟨_, rfl⟩

theorem sweepWorld_live (i : Fin 3) : (sweepWorld i).Live :=
  ⟨fun _ => rfl, fun _ => ⟨[], rfl⟩⟩

theorem sampleDatabase_serves_sweep : sampleDatabase.Serves sweepCrypto sweepWorld :=
  ⟨fun _ => rfl,
    fun _ s => by rw [sweepWorld, World.sweepPeer_unmarshalState]; exact decodeState_encodeState s,
    fun _ _ => rfl⟩

theorem sweepSystem_initial : sweepSystem.Initial sweepWorld :=
  ⟨rfl, fun i => ⟨rfl, rfl, [i.val.toUInt8], 0, [], [], 0, rfl⟩⟩

theorem hashKey_toUInt8_injective :
    ∀ i j : Fin 3, hashKey i.val.toUInt8 = hashKey j.val.toUInt8 → i = j :=
  have key : ∀ i j : Fin 3, i.val.toUInt8 = j.val.toUInt8 → i = j := by decide
  fun i j h => key i j (congrArg (fun v : ExchangeHash => v.toList.headD 0) h)

theorem sweepSystem_t1s_apart :
    ∀ i j t1 t1', sweepCrypto.generateType1Message (sweepSystem.peers i).machine.exchange.session
        (sweepSystem.peers i).machine.exchange.payload = .ok t1 →
      sweepCrypto.generateType1Message (sweepSystem.peers j).machine.exchange.session
        (sweepSystem.peers j).machine.exchange.payload = .ok t1' →
      sampleDatabase.sha256 t1 = sampleDatabase.sha256 t1' → i = j := by
  rintro i j _ _ ⟨⟩ ⟨⟩ h
  exact hashKey_toUInt8_injective i j h

theorem sweepSystem_replies_apart :
    ∀ j l t1 t2 t2' pk pk',
      sweepCrypto.reply (sweepSystem.peers j).machine.exchange.session t1 = .ok (t2, pk) →
      sweepCrypto.reply (sweepSystem.peers l).machine.exchange.session t1 = .ok (t2', pk') →
      sampleDatabase.sha256 t2 = sampleDatabase.sha256 t2' → j = l := by
  rintro j l _ _ _ _ _ ⟨⟩ ⟨⟩ h
  exact hashKey_toUInt8_injective j l h

theorem three_peers_complete :
    sampleDatabase.Serves sweepCrypto sweepWorld ∧ sweepCrypto.Pairs sweepSystem ∧
      (∀ i, (sweepWorld i).Live) ∧ sweepSystem.Initial sweepWorld ∧
      (∀ i j, (sweepSystem.peers i).machine.exchange.session.epoch =
        (sweepSystem.peers j).machine.exchange.session.epoch) ∧
      (∀ i j t1 t1', sweepCrypto.generateType1Message
          (sweepSystem.peers i).machine.exchange.session
          (sweepSystem.peers i).machine.exchange.payload = .ok t1 →
        sweepCrypto.generateType1Message (sweepSystem.peers j).machine.exchange.session
          (sweepSystem.peers j).machine.exchange.payload = .ok t1' →
        sampleDatabase.sha256 t1 = sampleDatabase.sha256 t1' → i = j) ∧
      (∀ j l t1 t2 t2' pk pk',
        sweepCrypto.reply (sweepSystem.peers j).machine.exchange.session t1 = .ok (t2, pk) →
        sweepCrypto.reply (sweepSystem.peers l).machine.exchange.session t1 = .ok (t2', pk') →
        sampleDatabase.sha256 t2 = sampleDatabase.sha256 t2' → j = l) ∧
      2 ≤ 3 ∧ [(0 : Fin 3), 1, 2].Nodup ∧ (∀ i : Fin 3, i ∈ [0, 1, 2]) ∧
      ∀ i, ((sweepSystem.run sampleDatabase sweepWorld (System.sweepSchedule [0, 1, 2])).peers
          i).pc = .halted .completed ∧
        ∃ u rest p, ((sweepSystem.run sampleDatabase sweepWorld
            (System.sweepSchedule [0, 1, 2])).peers i).machine.trace = .update u :: rest ∧
          u.result = some p ∧
          ∃ j, j ≠ i ∧ sweepCrypto.handshake ((sweepSystem.run sampleDatabase sweepWorld
              (System.sweepSchedule [0, 1, 2])).peers i).machine.exchange.session
            ((sweepSystem.run sampleDatabase sweepWorld
              (System.sweepSchedule [0, 1, 2])).peers i).machine.exchange.sentT1
            ((sweepSystem.run sampleDatabase sweepWorld
              (System.sweepSchedule [0, 1, 2])).peers j).machine.exchange.session
            ((sweepSystem.run sampleDatabase sweepWorld
              (System.sweepSchedule [0, 1, 2])).peers j).machine.exchange.sentT1 = .ok p :=
  have hL : [(0 : Fin 3), 1, 2].Nodup := by decide
  have hall : ∀ i : Fin 3, i ∈ [0, 1, 2] := by decide
  ⟨sampleDatabase_serves_sweep, sweepCrypto_pairs, sweepWorld_live, sweepSystem_initial,
    fun _ _ => rfl, sweepSystem_t1s_apart, sweepSystem_replies_apart,
    by decide, hL, hall,
    System.all_peers_complete sampleDatabase_serves_sweep sweepCrypto_pairs sweepWorld_live
      sweepSystem_initial (fun _ _ => rfl) sweepSystem_t1s_apart sweepSystem_replies_apart
      (by decide) hL hall⟩

end Reunion.Protocol
