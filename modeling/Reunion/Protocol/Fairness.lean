import Reunion.Protocol.Liveness
import Reunion.Protocol.AtMostOnce

/-! # Two peers complete in every fair interleaving

Two fresh peers of one epoch, under the assumptions of `two_peers_complete`, complete in every
interleaving of their statements that gives each of them a statement in a first stretch and
seven in each of three stretches after it (`fair_peers_complete`). In the first stretch each
sends its T1 (`Joining`: neither can complete before the other has joined, for no T3 exists
until then); in the next three each answers the other's T1, then the other's T2, and last
opens the T3 the other sent. Seven statements take a peer from wherever it is in its loop
through one whole iteration that begins after the stretch began (`Stage`), and at that
iteration's fetch it finds whatever the other had done by the start of the stretch. Under a
scheduler that runs each peer infinitely often, both therefore complete after finitely many
statements, and stay completed (`fair_schedule_completes`).
-/

namespace Reunion.Protocol
open Reunion.Client Reunion.Safety

namespace System

variable {n : Nat} {db : Database} {c : Crypto}

theorem Reachable.replied_of_posted {w : Fin n → World} {S : System n} (hw : db.Serves c w)
    (hS : S.Reachable db w) {i : Fin n} {ep : UInt64} {src dst : ExchangeHash} {t2 : Bytes}
    {r : Except String Response}
    (hr : .query (.sendT2 ep src dst t2) r ∈ (S.peers i).machine.trace) :
    dst ∈ (S.peers i).machine.exchange.repliedT1s := by
  have hpos : 0 < (S.peers i).machine.trace.countP (acceptedT2 dst) :=
    List.countP_pos_iff.2 ⟨_, hr, by simp [acceptedT2, (hS.fed hw i).sends _ r hr rfl]⟩
  have hle := (hS.ledger i).t2 dst
  by_contra hd
  rw [if_neg hd] at hle
  omega

/-- Peer `p` has completed, with a result on top of its history, after answering the T1 and
the T2 of the peer whose T1 hashes to `k`. -/
structure Finished (k : ExchangeHash) (p : Peer) : Prop where
  pc : p.pc = .halted .completed
  top : ResultOnTop p.machine.trace
  answered : k ∈ p.machine.exchange.repliedT1s
  opened : k ∈ p.machine.exchange.decryptedT1Betas

/-- Peer `p` is at a statement of its loop, or finished. -/
def Looping (k : ExchangeHash) (p : Peer) : Prop :=
  p.pc = .fetch ∨ p.pc = .sendT2 ∨ p.pc = .sendT3 ∨ p.pc = .processT3 ∨ Finished k p

/-- How far peer `p` is through the iteration of its loop that begins at its next fetch, the
other peer, whose T1 hashes to `k`, having answered `p`'s T1 (`A`) and T2 (`B`) by then:
before that fetch at stages `0` to `3`, past its first statements at `4` to `6`, and past the
whole iteration from `7` on; a finished peer is at every stage. -/
def Stage (k : ExchangeHash) (A B : Prop) (st : Nat) (p : Peer) : Prop :=
  Finished k p ∨ match st with
    | 0 => p.pc = .sendT2
    | 1 => p.pc = .sendT3
    | 2 => p.pc = .processT3
    | 3 => p.pc = .fetch
    | 4 => p.pc = .sendT2 ∧ k ∈ p.machine.exchange.receivedT1s ∧
        (A → k ∈ p.machine.exchange.receivedT2s) ∧ (B → k ∈ p.machine.exchange.receivedT3s)
    | 5 => p.pc = .sendT3 ∧ k ∈ p.machine.exchange.receivedT1s ∧
        k ∈ p.machine.exchange.repliedT1s ∧
        (A → k ∈ p.machine.exchange.receivedT2s) ∧ (B → k ∈ p.machine.exchange.receivedT3s)
    | 6 => p.pc = .processT3 ∧ k ∈ p.machine.exchange.repliedT1s ∧
        (A → k ∈ p.machine.exchange.decryptedT1Betas) ∧
        (B → k ∈ p.machine.exchange.receivedT3s)
    | _ => k ∈ p.machine.exchange.repliedT1s ∧
        (A → k ∈ p.machine.exchange.decryptedT1Betas) ∧ ¬(A ∧ B)

theorem Stage.iterated {k : ExchangeHash} {A B : Prop} {p : Peer} (hs : Stage k A B 7 p) :
    k ∈ p.machine.exchange.repliedT1s ∧ (A → k ∈ p.machine.exchange.decryptedT1Betas) ∧
      (A → B → Finished k p) := by
  rcases hs with hF | ⟨hr, hb, hn⟩
  · exact ⟨hF.answered, fun _ => hF.opened, fun _ _ => hF⟩
  · exact ⟨hr, hb, fun a b => absurd ⟨a, b⟩ hn⟩

section
variable {w : Fin 2 → World} {T : System 2} {h : Fin 2 → ExchangeHash} (hw : db.Serves c w)
  (hT : T.Reachable db w) (hP : Paired db c T h)
include hw hT hP

theorem Reachable.answered_of_held {i j : Fin 2}
    (hk : h i ∈ (T.peers j).machine.exchange.receivedT2s) :
    h j ∈ (T.peers i).machine.exchange.repliedT1s := by
  obtain ⟨t2, ht2⟩ := exists_lookup_of_mem hk
  obtain ⟨l, hl⟩ := hT.mem_board.1 ((hT.fed hw j).received.t2s _ _ ht2)
  obtain ⟨-, r, hr⟩ := mem_posted.1 hl
  obtain ⟨-, -, hsrc, -⟩ := (hT.origin hw l).1.2.t2 hr
  obtain rfl : l = i := by
    by_contra hli
    exact hP.hash_ne hli ((hP.hash l).symm.trans hsrc.symm)
  rw [← hP.hash j]
  exact hT.replied_of_posted hw hr

theorem Reachable.finished_of_processT3 {i j : Fin 2} (hji : j ≠ i)
    (hp : (T.peers i).pc = .processT3)
    (hx : ∃ k ∈ (T.peers i).machine.exchange.receivedT3s,
      k ∈ (T.peers i).machine.exchange.decryptedT1Betas) :
    Finished (h j) ((System.advance db w T i).peers i) := by
  obtain ⟨he, hdone, -⟩ := hT.advance_processT3 hw hp
  obtain ⟨hpc, htop⟩ := hdone hx hP.handshakes (hP.distinct hw hT)
  obtain ⟨k, hk, hb⟩ := hx
  obtain ⟨rfl, hi⟩ := hT.t3_key hw hji hk
  simp only [hP.hash] at hi hb
  refine ⟨hpc, htop, ?_, by rw [he]; exact hb⟩
  rw [he]
  exact hT.answered_of_held hw hP hi

omit hP in
theorem Reachable.looping_advance_of (hc : c.NonEmpty) (hl : ∀ i, (w i).Live)
    (hH : Handshakes c T) {i : Fin 2}
    {k : ExchangeHash} (hL : Looping k (T.peers i))
    (hF : (T.peers i).pc = .processT3 → (∃ x ∈ (T.peers i).machine.exchange.receivedT3s,
        x ∈ (T.peers i).machine.exchange.decryptedT1Betas) →
      Finished k ((System.advance db w T i).peers i)) (z : Fin 2) :
    Looping k ((System.advance db w T z).peers i) := by
  by_cases hz : i = z
  · subst hz
    rcases hL with hp | hp | hp | hp | hF'
    · exact .inr (.inl (hT.advance_fetch hw hc hp).1)
    · exact .inr (.inr (.inl (advance_sendT2 hw hl hT hH hp).1))
    · exact .inr (.inr (.inr (.inl (advance_sendT3_pc hl hp))))
    · by_cases hx : ∃ x ∈ (T.peers i).machine.exchange.receivedT3s,
          x ∈ (T.peers i).machine.exchange.decryptedT1Betas
      · exact .inr (.inr (.inr (.inr (hF hp hx))))
      · exact .inl ((hT.advance_processT3 hw hp).2.2 hx)
    · rw [advance_halted hF'.pc]
      exact .inr (.inr (.inr (.inr hF')))
  · rw [advance_ne T hz]
    exact hL

theorem Reachable.looping_advance (hc : c.NonEmpty) (hl : ∀ i, (w i).Live) {i j : Fin 2}
    (hji : j ≠ i) (hL : Looping (h j) (T.peers i)) (z : Fin 2) :
    Looping (h j) ((System.advance db w T z).peers i) :=
  hT.looping_advance_of hw hc hl hP.handshakes hL (hT.finished_of_processT3 hw hP hji) z

theorem Reachable.stage_advance (hc : c.NonEmpty) (hl : ∀ i, (w i).Live) {i j : Fin 2}
    (hji : j ≠ i) {A B : Prop} (hA : A → h i ∈ (T.peers j).machine.exchange.repliedT1s)
    (hB : B → h i ∈ (T.peers j).machine.exchange.decryptedT1Betas) {st : Nat}
    (hs : Stage (h j) A B st (T.peers i)) :
    Stage (h j) A B (st + 1) ((System.advance db w T i).peers i) := by
  have hx := hT.extends_advance i i
  rcases hs with hF | hs
  · exact .inl (by rw [advance_halted hF.pc]; exact hF)
  rcases st with _ | _ | _ | _ | _ | _ | _ | st
  · exact .inr (advance_sendT2 hw hl hT hP.handshakes hs).1
  · exact .inr (advance_sendT3_pc hl hs)
  · by_cases hy : ∃ k ∈ (T.peers i).machine.exchange.receivedT3s,
        k ∈ (T.peers i).machine.exchange.decryptedT1Betas
    · exact .inl (hT.finished_of_processT3 hw hP hji hs hy)
    · exact .inr ((hT.advance_processT3 hw hs).2.2 hy)
  · obtain ⟨hp, h₁, h₂, h₃⟩ := hT.fetch_holds hw hc hs (hP.status j) (hP.epoch_eq j i)
    simp only [hP.hash] at h₁ h₂ h₃
    exact .inr ⟨hp, h₁, fun a => h₂ (hA a), fun b => h₃ (hB b)⟩
  · obtain ⟨hp, h₁, h₂, h₃⟩ := hs
    obtain ⟨hp', hr⟩ := advance_sendT2 hw hl hT hP.handshakes hp
    simp only [hP.hash] at hr
    exact .inr ⟨hp', hx.receivedT1s.mem h₁, hr _ h₁ (hP.hash_ne hji),
      fun a => hx.receivedT2s.mem (h₂ a), fun b => hx.receivedT3s.mem (h₃ b)⟩
  · obtain ⟨hp, h₁, hr, h₂, h₃⟩ := hs
    obtain ⟨hp', hb⟩ := hT.advance_sendT3_two hw hl hP hji hp (by rw [hP.hash]; exact h₁)
      (by rw [hP.hash]; exact hr)
    simp only [hP.hash] at hb
    exact .inr ⟨hp', hx.repliedT1s.mem hr, fun a => hb (h₂ a),
      fun b => hx.receivedT3s.mem (h₃ b)⟩
  · obtain ⟨hp, hr, h₂, h₃⟩ := hs
    by_cases hy : ∃ k ∈ (T.peers i).machine.exchange.receivedT3s,
        k ∈ (T.peers i).machine.exchange.decryptedT1Betas
    · exact .inl (hT.finished_of_processT3 hw hP hji hp hy)
    · refine .inr ?_
      rw [(hT.advance_processT3 hw hp).1]
      exact ⟨hr, h₂, fun ⟨a, b⟩ => hy ⟨_, h₃ b, h₂ a⟩⟩
  · obtain ⟨hr, h₂, hn⟩ := hs
    exact .inr ⟨hx.repliedT1s.mem hr, fun a => hx.decryptedT1Betas.mem (h₂ a), hn⟩

end

section
variable {w : Fin 2 → World} {h : Fin 2 → ExchangeHash} (hw : db.Serves c w)
  (hc : c.NonEmpty) (hl : ∀ i, (w i).Live)
include hw hc hl

theorem Reachable.looping_run {i j : Fin 2} (hji : j ≠ i) :
    ∀ (l : List (Fin 2)) {T : System 2}, T.Reachable db w → Paired db c T h →
      Looping (h j) (T.peers i) → Looping (h j) ((T.run db w l).peers i)
  | [], _, _, _, hL => hL
  | z :: l, _, hT, hP, hL => Reachable.looping_run hji l (hT.advance z) (hP.run hT [z])
      (hT.looping_advance hw hP hc hl hji hL z)

theorem Reachable.stage_run {i j : Fin 2} (hji : j ≠ i) {A B : Prop} :
    ∀ (l : List (Fin 2)) {T : System 2} {st : Nat}, T.Reachable db w → Paired db c T h →
      (A → h i ∈ (T.peers j).machine.exchange.repliedT1s) →
      (B → h i ∈ (T.peers j).machine.exchange.decryptedT1Betas) →
      Stage (h j) A B st (T.peers i) → 7 ≤ st + l.count i →
      Stage (h j) A B 7 ((T.run db w l).peers i)
  | [], _, st, _, _, _, _, hs, hk => by
    obtain ⟨m, rfl⟩ : ∃ m, st = m + 7 := ⟨st - 7, by simp at hk; omega⟩
    exact hs
  | z :: l, T, st, hT, hP, hA, hB, hs, hk => by
    have hx := hT.extends_advance j z
    have hA' a := hx.repliedT1s.mem (hA a)
    have hB' b := hx.decryptedT1Betas.mem (hB b)
    by_cases hz : z = i
    · subst hz
      refine Reachable.stage_run hji l (hT.advance z) (hP.run hT [z]) hA' hB'
        (hT.stage_advance hw hP hc hl hji hA hB hs) ?_
      simp only [List.count_cons_self] at hk
      omega
    · refine Reachable.stage_run hji l (hT.advance z) (hP.run hT [z]) hA' hB'
        (by rw [advance_ne T (Ne.symm hz)]; exact hs) ?_
      simpa [List.count_cons, hz] using hk

theorem Reachable.stretch {T : System 2} (hT : T.Reachable db w) (hP : Paired db c T h)
    {i j : Fin 2} (hji : j ≠ i) (hL : Looping (h j) (T.peers i)) {l : List (Fin 2)}
    (hk : 7 ≤ l.count i) :
    Stage (h j) (h i ∈ (T.peers j).machine.exchange.repliedT1s)
      (h i ∈ (T.peers j).machine.exchange.decryptedT1Betas) 7 ((T.run db w l).peers i) := by
  obtain ⟨st, hs⟩ : ∃ st, Stage (h j) (h i ∈ (T.peers j).machine.exchange.repliedT1s)
      (h i ∈ (T.peers j).machine.exchange.decryptedT1Betas) st (T.peers i) := by
    rcases hL with hp | hp | hp | hp | hF
    exacts [⟨3, .inr hp⟩, ⟨0, .inr hp⟩, ⟨1, .inr hp⟩, ⟨2, .inr hp⟩, ⟨0, .inl hF⟩]
  exact hT.stage_run hw hc hl hji l hP id id hs (by omega)

end

/-- Peer `p`, the `i`th of the fresh peers `S₀`, has sent its T1 `t1 i` and is in its loop. -/
structure Joined (db : Database) (S₀ : System 2) (t1 : Fin 2 → Bytes) (i : Fin 2) (p : Peer) :
    Prop where
  status : p.machine.exchange.status = t1MessageSentState
  sentT1 : p.machine.exchange.sentT1 = t1 i
  session : p.machine.exchange.session = (S₀.peers i).machine.exchange.session
  looping : ∀ j, j ≠ i → Looping (db.sha256 (t1 j)) p

/-- While the fresh peers `S₀` enter, each is as it started or has joined with its T1 `t1 i`. -/
def Joining (db : Database) (S₀ : System 2) (t1 : Fin 2 → Bytes) (T : System 2) : Prop :=
  ∀ i, T.peers i = S₀.peers i ∨ Joined db S₀ t1 i (T.peers i)

section
variable {w : Fin 2 → World} {S₀ T : System 2} {t1 : Fin 2 → Bytes} (hS₀ : Initial w S₀)
include hS₀

theorem Joining.joined (hJ : Joining db S₀ t1 T) {i : Fin 2}
    (hs : (T.peers i).machine.exchange.status = t1MessageSentState) :
    Joined db S₀ t1 i (T.peers i) := by
  refine (hJ i).resolve_left fun hu => Inv.initialState_ne ?_
  rw [← initial_status (hS₀.2 i).2, ← hu, hs]

theorem Joining.paired (hJ : Joining db S₀ t1 T)
    (hs : ∀ i, (T.peers i).machine.exchange.status = t1MessageSentState)
    (hc : c.Pairs S₀) (hg : ∀ i, c.generateType1Message (S₀.peers i).machine.exchange.session
      (S₀.peers i).machine.exchange.payload = .ok (t1 i))
    (hep : (S₀.peers 0).machine.exchange.session.epoch =
      (S₀.peers 1).machine.exchange.session.epoch)
    (hne : db.sha256 (t1 0) ≠ db.sha256 (t1 1)) : Paired db c T fun i => db.sha256 (t1 i) := by
  have he i := hJ.joined hS₀ (hs i)
  refine ⟨hs, by rw [(he 0).session, (he 1).session, hep], fun i => by rw [(he i).sentT1], hne,
    fun a b hab _ _ => ?_⟩
  rw [(he a).session, (he a).sentT1, (he b).session, (he b).sentT1]
  exact hc.handshake a b hab _ _ (hg a) (hg b)

theorem Reachable.no_t3_of_fresh (hw : db.Serves c w) (hT : T.Reachable db w) {i j : Fin 2}
    (hji : j ≠ i) (hu : T.peers j = S₀.peers j) (k : ExchangeHash) :
    k ∉ (T.peers i).machine.exchange.receivedT3s := fun hk => by
  have hm := (hT.t3_key hw hji hk).2
  obtain ⟨-, -, -, -, h₂, -⟩ :=
    (inv_initial (hS₀.2 j).2).initial_empty (initial_status (hS₀.2 j).2)
  rw [hu, h₂] at hm
  exact absurd hm (by simp)

variable (hw : db.Serves c w) (hc : c.Pairs S₀) (hl : ∀ i, (w i).Live)
  (hg : ∀ i, c.generateType1Message (S₀.peers i).machine.exchange.session
    (S₀.peers i).machine.exchange.payload = .ok (t1 i))
  (hep : (S₀.peers 0).machine.exchange.session.epoch =
    (S₀.peers 1).machine.exchange.session.epoch)
  (hne : db.sha256 (t1 0) ≠ db.sha256 (t1 1))
include hw hc hl hg hep hne

theorem Joining.advance (hT : T.Reachable db w) (hJ : Joining db S₀ t1 T) (z : Fin 2) :
    Joining db S₀ t1 (System.advance db w T z) ∧
      ((System.advance db w T z).peers z).machine.exchange.status = t1MessageSentState := by
  have hz : Joined db S₀ t1 z ((System.advance db w T z).peers z) := by
    rcases hJ z with hu | he
    · obtain ⟨t1', hg', hp, hex⟩ := advance_entry hw hl (by rw [hu]; exact (hS₀.2 z).1)
        (by rw [hu]; exact initial_status (hS₀.2 z).2) (by rw [hu]; exact ⟨_, hg z⟩)
      rw [hu, hg z] at hg'
      cases hg'
      rw [hu] at hex
      exact ⟨by rw [hex], by rw [hex], by rw [hex], fun _ _ => .inl hp⟩
    · have hf := (hT.extends_advance z z).fixed he.status
      refine ⟨hf.1, hf.2.1.trans he.sentT1, hf.2.2.trans he.session, fun j hji => ?_⟩
      by_cases hj : (T.peers j).machine.exchange.status = t1MessageSentState
      · have hP := hJ.paired hS₀ (fun k => by
          obtain rfl | rfl : k = z ∨ k = j := by omega
          exacts [he.status, hj]) hc hg hep hne
        exact hT.looping_advance hw hP hc.toNonEmpty hl hji (he.looping j hji) z
      · have hu := (hJ j).resolve_right fun hj' => hj hj'.status
        have hH : Handshakes c T := fun a b hab ha hb => by
          obtain rfl | rfl : a = j ∨ b = j := by omega
          exacts [absurd ha hj, absurd hb hj]
        exact hT.looping_advance_of hw hc.toNonEmpty hl hH (he.looping j hji)
          (fun _ ⟨x, hx, _⟩ => absurd hx (hT.no_t3_of_fresh hS₀ hw hji hu x)) z
  refine ⟨fun i => ?_, hz.status⟩
  by_cases hiz : i = z
  · subst hiz
    exact .inr hz
  · rw [advance_ne T hiz]
    exact hJ i

theorem Joining.run : ∀ (l : List (Fin 2)) {T : System 2}, T.Reachable db w →
    Joining db S₀ t1 T → Joining db S₀ t1 (T.run db w l) ∧
      ∀ i ∈ l, ((T.run db w l).peers i).machine.exchange.status = t1MessageSentState
  | [], _, _, hJ => ⟨hJ, fun _ h => absurd h (List.not_mem_nil _)⟩
  | z :: l, T, hT, hJ => by
    obtain ⟨hJ', hz⟩ := Joining.advance hS₀ hw hc hl hg hep hne hT hJ z
    obtain ⟨hJ'', hm⟩ := Joining.run l (hT.advance z) hJ'
    refine ⟨hJ'', fun i hi => ?_⟩
    rcases List.mem_cons.1 hi with rfl | hi
    · exact (((hT.advance i).extends_run l i).fixed hz).1
    · exact hm i hi

end

/-- Two fresh peers of one epoch, in front of an empty database that serves them, with a
crypto library that pairs them (`Crypto.Pairs`), hosts that neither stop them nor fail to
snapshot them, and T1s that hash apart: every interleaving that gives each
peer a statement in a first stretch and seven in each of three stretches after it completes
both, each with on top of its history the result the handshake computes from its own session
and T1 and the other's. -/
theorem fair_peers_complete {w : Fin 2 → World} {S : System 2} (hw : db.Serves c w)
    (hc : c.Pairs S) (hl : ∀ i, (w i).Live) (hS : Initial w S)
    (hep : (S.peers 0).machine.exchange.session.epoch =
      (S.peers 1).machine.exchange.session.epoch)
    (hne : ∀ t1x t1y, c.generateType1Message (S.peers 0).machine.exchange.session
        (S.peers 0).machine.exchange.payload = .ok t1x →
      c.generateType1Message (S.peers 1).machine.exchange.session
        (S.peers 1).machine.exchange.payload = .ok t1y → db.sha256 t1x ≠ db.sha256 t1y)
    {l₀ l₁ l₂ l₃ : List (Fin 2)} (h₀ : ∀ i, i ∈ l₀) (h₁ : ∀ i, 7 ≤ l₁.count i)
    (h₂ : ∀ i, 7 ≤ l₂.count i) (h₃ : ∀ i, 7 ≤ l₃.count i) :
    ∀ i j, j ≠ i →
      ((S.run db w (l₀ ++ l₁ ++ l₂ ++ l₃)).peers i).pc = .halted .completed ∧
      ∃ u rest p, ((S.run db w (l₀ ++ l₁ ++ l₂ ++ l₃)).peers i).machine.trace =
          .update u :: rest ∧ u.result = some p ∧
        c.handshake ((S.run db w (l₀ ++ l₁ ++ l₂ ++ l₃)).peers i).machine.exchange.session
          ((S.run db w (l₀ ++ l₁ ++ l₂ ++ l₃)).peers i).machine.exchange.sentT1
          ((S.run db w (l₀ ++ l₁ ++ l₂ ++ l₃)).peers j).machine.exchange.session
          ((S.run db w (l₀ ++ l₁ ++ l₂ ++ l₃)).peers j).machine.exchange.sentT1 = .ok p := by
  choose t1 hg using hc.generate
  have hn := hc.toNonEmpty
  have hne' := hne _ _ (hg 0) (hg 1)
  obtain ⟨hJ, hs⟩ := Joining.run hS hw hc hl hg hep hne' l₀ (.initial hS) fun _ => .inl rfl
  have hT : (S.run db w l₀).Reachable db w := (Reachable.initial hS).run l₀
  have hP := hJ.paired hS (fun i => hs i (h₀ i)) hc hg hep hne'
  have hL i j (hji : j ≠ i) := (hJ.joined hS (hs i (h₀ i))).looping j hji
  have hT₁ := hT.run l₁
  have hT₂ := hT₁.run l₂
  have hP₁ := hP.run hT l₁
  have hP₂ := hP₁.run hT₁ l₂
  have hL₁ i j (hji : j ≠ i) := hT.looping_run hw hn hl hji l₁ hP (hL i j hji)
  have hL₂ i j (hji : j ≠ i) := hT₁.looping_run hw hn hl hji l₂ hP₁ (hL₁ i j hji)
  have ha i j (hji : j ≠ i) := (hT.stretch hw hn hl hP hji (hL i j hji) (h₁ i)).iterated.1
  have hb i j (hji : j ≠ i) := (hT₁.stretch hw hn hl hP₁ hji (hL₁ i j hji)
    (h₂ i)).iterated.2.1 (ha j i hji.symm)
  have hf i j (hji : j ≠ i) := (hT₂.stretch hw hn hl hP₂ hji (hL₂ i j hji)
    (h₃ i)).iterated.2.2 ((hT₁.extends_run l₂ j).repliedT1s.mem (ha j i hji.symm))
    (hb j i hji.symm)
  rw [run_append, run_append, run_append]
  intro i j hji
  have hF := hf i j hji
  exact ⟨hF.pc, (hT₂.run l₃).handshake_on_top hw (hP₂.run hT₂ l₃) hji hF.top⟩

/-! ## Infinite schedules -/

/-- Every peer runs infinitely often. -/
def Fair (σ : Nat → Fin n) : Prop := ∀ i k, ∃ m, k ≤ m ∧ σ m = i

def window (σ : Nat → Fin n) (a : Nat) : Nat → List (Fin n)
  | 0 => []
  | d + 1 => window σ a d ++ [σ (a + d)]

theorem window_add (σ : Nat → Fin n) (a d : Nat) :
    ∀ e, window σ a (d + e) = window σ a d ++ window σ (a + d) e
  | 0 => (List.append_nil _).symm
  | e + 1 => by rw [← Nat.add_assoc, window, window, window_add σ a d e, Nat.add_assoc,
      List.append_assoc]

theorem Fair.exists_window_count {σ : Nat → Fin n} (hσ : Fair σ) (i : Fin n) (a : Nat) :
    ∀ k, ∃ d, k ≤ (window σ a d).count i
  | 0 => ⟨0, Nat.zero_le _⟩
  | k + 1 => by
    obtain ⟨d, hd⟩ := hσ.exists_window_count i a k
    obtain ⟨m, hm, rfl⟩ := hσ i (a + d)
    refine ⟨d + (m - (a + d)) + 1, ?_⟩
    have hm' : a + (d + (m - (a + d))) = m := by omega
    rw [window, window_add, hm', List.count_append, List.count_append,
      List.count_singleton_self]
    omega

theorem Fair.exists_window {σ : Nat → Fin n} (hσ : Fair σ) (a k : Nat) :
    ∃ d, ∀ i, k ≤ (window σ a d).count i := by
  suffices h : ∀ l : List (Fin n), ∃ d, ∀ i ∈ l, k ≤ (window σ a d).count i by
    obtain ⟨d, hd⟩ := h (List.finRange n)
    exact ⟨d, fun i => hd i (List.mem_finRange i)⟩
  intro l
  induction l with
  | nil => exact ⟨0, fun _ h => absurd h (List.not_mem_nil _)⟩
  | cons i l ih =>
    obtain ⟨d, hd⟩ := ih
    obtain ⟨e, he⟩ := hσ.exists_window_count i (a + d) k
    refine ⟨d + e, fun j hj => ?_⟩
    rw [window_add, List.count_append]
    rcases List.mem_cons.1 hj with rfl | hj
    · omega
    · have := hd j hj
      omega

/-- Under every fair scheduler, two fresh peers of one epoch, in front of an empty database
that serves them, with a crypto library that pairs them (`Crypto.Pairs`), hosts that neither
stop them nor fail to snapshot them, and T1s that hash apart, both complete
after finitely many statements and stay completed, each with on top of its history the result
the handshake computes from its own session and T1 and the other's. -/
theorem fair_schedule_completes {w : Fin 2 → World} {S : System 2} (hw : db.Serves c w)
    (hc : c.Pairs S) (hl : ∀ i, (w i).Live) (hS : Initial w S)
    (hep : (S.peers 0).machine.exchange.session.epoch =
      (S.peers 1).machine.exchange.session.epoch)
    (hne : ∀ t1x t1y, c.generateType1Message (S.peers 0).machine.exchange.session
        (S.peers 0).machine.exchange.payload = .ok t1x →
      c.generateType1Message (S.peers 1).machine.exchange.session
        (S.peers 1).machine.exchange.payload = .ok t1y → db.sha256 t1x ≠ db.sha256 t1y)
    {σ : Nat → Fin 2} (hσ : Fair σ) :
    ∃ N, ∀ M, N ≤ M → ∀ i j, j ≠ i →
      ((S.run db w (window σ 0 M)).peers i).pc = .halted .completed ∧
      ∃ u rest p, ((S.run db w (window σ 0 M)).peers i).machine.trace =
          .update u :: rest ∧ u.result = some p ∧
        c.handshake ((S.run db w (window σ 0 M)).peers i).machine.exchange.session
          ((S.run db w (window σ 0 M)).peers i).machine.exchange.sentT1
          ((S.run db w (window σ 0 M)).peers j).machine.exchange.session
          ((S.run db w (window σ 0 M)).peers j).machine.exchange.sentT1 = .ok p := by
  obtain ⟨d₀, h₀⟩ := hσ.exists_window 0 1
  obtain ⟨d₁, h₁⟩ := hσ.exists_window (0 + d₀) 7
  obtain ⟨d₂, h₂⟩ := hσ.exists_window (0 + (d₀ + d₁)) 7
  obtain ⟨d₃, h₃⟩ := hσ.exists_window (0 + (d₀ + d₁ + d₂)) 7
  have hF := fair_peers_complete hw hc hl hS hep hne (fun i => List.count_pos_iff.1 (h₀ i))
    h₁ h₂ h₃
  refine ⟨d₀ + d₁ + d₂ + d₃, fun M hM i j hji => ?_⟩
  obtain ⟨e, rfl⟩ := Nat.exists_eq_add_of_le hM
  rw [window_add, window_add, window_add, window_add, run_append,
    run_halted (hF i j hji).1, run_halted (hF j i hji.symm).1]
  exact hF i j hji

end System

def inTurn : List (Fin 2) := List.replicate 7 0 ++ List.replicate 7 1

def alternating : List (Fin 2) := [0, 1, 0, 1, 0, 1, 0, 1, 0, 1, 0, 1, 0, 1]

theorem live_fair_peers_complete :
    sampleDatabase.Serves liveCrypto (fun _ : Fin 2 => World.livePeer) ∧
      liveCrypto.Pairs liveSystem ∧ (∀ _ : Fin 2, World.livePeer.Live) ∧
      liveSystem.Initial (fun _ => World.livePeer) ∧
      (liveSystem.peers 0).machine.exchange.session.epoch =
        (liveSystem.peers 1).machine.exchange.session.epoch ∧
      (∀ t1x t1y, liveCrypto.generateType1Message (liveSystem.peers 0).machine.exchange.session
          (liveSystem.peers 0).machine.exchange.payload = .ok t1x →
        liveCrypto.generateType1Message (liveSystem.peers 1).machine.exchange.session
          (liveSystem.peers 1).machine.exchange.payload = .ok t1y →
        sampleDatabase.sha256 t1x ≠ sampleDatabase.sha256 t1y) ∧
      (∀ i : Fin 2, i ∈ [1, 1, 0]) ∧ (∀ i, 7 ≤ inTurn.count i) ∧
      (∀ i, 7 ≤ alternating.count i) ∧
      (∀ i, 7 ≤ inTurn.reverse.count i) ∧
      ∀ i j, j ≠ i →
        ((liveRun ([1, 1, 0] ++ inTurn ++ alternating ++ inTurn.reverse)).peers i).pc =
          .halted .completed ∧
        ∃ u rest p,
          ((liveRun ([1, 1, 0] ++ inTurn ++ alternating ++ inTurn.reverse)).peers
            i).machine.trace = .update u :: rest ∧
          u.result = some p ∧
          liveCrypto.handshake
            ((liveRun ([1, 1, 0] ++ inTurn ++ alternating ++ inTurn.reverse)).peers
              i).machine.exchange.session
            ((liveRun ([1, 1, 0] ++ inTurn ++ alternating ++ inTurn.reverse)).peers
              i).machine.exchange.sentT1
            ((liveRun ([1, 1, 0] ++ inTurn ++ alternating ++ inTurn.reverse)).peers
              j).machine.exchange.session
            ((liveRun ([1, 1, 0] ++ inTurn ++ alternating ++ inTurn.reverse)).peers
              j).machine.exchange.sentT1 = .ok p :=
  have h₀ : ∀ i : Fin 2, i ∈ [1, 1, 0] := by decide
  have h₁ : ∀ i, 7 ≤ inTurn.count i := by decide
  have h₂ : ∀ i, 7 ≤ alternating.count i := by decide
  have h₃ : ∀ i, 7 ≤ inTurn.reverse.count i := by decide
  ⟨sampleDatabase_serves_live, liveCrypto_pairs, fun _ => livePeer_live, liveSystem_initial,
    rfl, liveSystem_hashes_apart, h₀, h₁, h₂, h₃,
    System.fair_peers_complete sampleDatabase_serves_live liveCrypto_pairs
      (fun _ => livePeer_live) liveSystem_initial rfl liveSystem_hashes_apart h₀ h₁ h₂ h₃⟩

def byTurns (m : Nat) : Fin 2 := if m % 2 = 0 then 0 else 1

theorem byTurns_fair : System.Fair byTurns := fun i k => by
  obtain rfl | rfl : i = 0 ∨ i = 1 := by omega
  · exact ⟨2 * k, by omega, by rw [byTurns, if_pos (by omega)]⟩
  · exact ⟨2 * k + 1, by omega, by rw [byTurns, if_neg (by omega)]⟩

theorem live_fair_schedule_completes :
    sampleDatabase.Serves liveCrypto (fun _ : Fin 2 => World.livePeer) ∧
      liveCrypto.Pairs liveSystem ∧ (∀ _ : Fin 2, World.livePeer.Live) ∧
      liveSystem.Initial (fun _ => World.livePeer) ∧
      (liveSystem.peers 0).machine.exchange.session.epoch =
        (liveSystem.peers 1).machine.exchange.session.epoch ∧
      (∀ t1x t1y, liveCrypto.generateType1Message (liveSystem.peers 0).machine.exchange.session
          (liveSystem.peers 0).machine.exchange.payload = .ok t1x →
        liveCrypto.generateType1Message (liveSystem.peers 1).machine.exchange.session
          (liveSystem.peers 1).machine.exchange.payload = .ok t1y →
        sampleDatabase.sha256 t1x ≠ sampleDatabase.sha256 t1y) ∧
      System.Fair byTurns ∧
      ∃ N, ∀ M, N ≤ M → ∀ i j, j ≠ i →
        ((liveRun (System.window byTurns 0 M)).peers i).pc = .halted .completed ∧
        ∃ u rest p,
          ((liveRun (System.window byTurns 0 M)).peers i).machine.trace = .update u :: rest ∧
          u.result = some p ∧
          liveCrypto.handshake
            ((liveRun (System.window byTurns 0 M)).peers i).machine.exchange.session
            ((liveRun (System.window byTurns 0 M)).peers i).machine.exchange.sentT1
            ((liveRun (System.window byTurns 0 M)).peers j).machine.exchange.session
            ((liveRun (System.window byTurns 0 M)).peers j).machine.exchange.sentT1 = .ok p :=
  ⟨sampleDatabase_serves_live, liveCrypto_pairs, fun _ => livePeer_live, liveSystem_initial,
    rfl, liveSystem_hashes_apart, byTurns_fair,
    System.fair_schedule_completes sampleDatabase_serves_live liveCrypto_pairs
      (fun _ => livePeer_live) liveSystem_initial rfl liveSystem_hashes_apart byTurns_fair⟩

end Reunion.Protocol
