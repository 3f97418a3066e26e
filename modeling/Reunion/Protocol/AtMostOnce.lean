import Reunion.Protocol.Agreement
import Reunion.Safety.AtMostOnce

/-! # Each message at most once in the database

In every interleaving of any number of peers, the database holds at most one T1 under each
hash, and at most one T2 and one T3 from each hash to each hash (`reachable_log_at_most_once`),
as long as no two T1s in the log share a hash and no two peers posted one T1 (`Distinct`).
Each peer posts at most one of each, because the database accepts every send and the replied
maps are the peer's ledger of accepted sends; and only one peer can post a message of a given
source, because every message names its sender through the hash of the sender's T1.
-/

namespace Reunion.Client.Command

def isT1 (H : Bytes → ExchangeHash) (h : ExchangeHash) : Command → Bool
  | .sendT1 _ t1 => H t1 == h
  | _ => false

def isT2 (src dst : ExchangeHash) : Command → Bool
  | .sendT2 _ s d _ => s == src && d == dst
  | _ => false

def isT3 (src dst : ExchangeHash) : Command → Bool
  | .sendT3 _ s d _ => s == src && d == dst
  | _ => false

end Reunion.Client.Command

namespace Reunion.Protocol
open Reunion.Client Reunion.Safety

theorem countP_posted_le {tr : List Event} (ha : AllAccepted tr) {p : Command → Bool}
    {q : Event → Bool}
    (hpq : ∀ cmd r, p cmd = true → accepted r = true → q (.query cmd r) = true) :
    (posted tr).countP p ≤ tr.countP q := by
  rw [posted, List.countP_filterMap]
  refine List.countP_mono_left fun ev hev h => ?_
  cases ev with
  | query cmd r =>
    by_cases hs : cmd.isSend = true
    · simp only [hs, if_true, Option.map_some', Option.getD_some] at h
      exact hpq cmd r h (ha cmd r hev hs)
    · simp [hs] at h
  | update => simp at h

theorem sum_le_one {n : Nat} {f : Fin n → Nat} (hf : ∀ j, f j ≤ 1)
    (hu : ∀ j k, 0 < f j → 0 < f k → j = k) : ∑ j, f j ≤ 1 := by
  by_cases h : ∃ j, 0 < f j
  · obtain ⟨j, hj⟩ := h
    rw [Finset.sum_eq_single j (fun k _ hk => Nat.eq_zero_of_not_pos fun h => hk (hu k j h hj))
      (fun h => absurd (Finset.mem_univ j) h)]
    exact hf j
  · push_neg at h
    simp [Nat.le_zero.1 (h _)]

namespace System

variable {n : Nat} {db : Database} {c : Crypto} {w : Fin n → World} {S : System n}

theorem Reachable.countP_le_one (hS : S.Reachable db w) {p : Command → Bool}
    (hf : ∀ j, (posted (S.peers j).machine.trace).countP p ≤ 1)
    (hu : ∀ j k, 0 < (posted (S.peers j).machine.trace).countP p →
      0 < (posted (S.peers k).machine.trace).countP p → j = k) :
    S.board.countP p ≤ 1 :=
  hS.inv.board p ▸ sum_le_one hf hu

theorem Reachable.ledger (hS : S.Reachable db w) (j : Fin n) :
    Ledger (S.peers j).machine.exchange (S.peers j).machine.trace :=
  ((ledger_move (w j)).peer hS).2

theorem exists_query_of_countP_posted {tr : List Event} {p : Command → Bool}
    (h : 0 < (posted tr).countP p) : ∃ cmd r, .query cmd r ∈ tr ∧ p cmd = true := by
  obtain ⟨cmd, hc, hp⟩ := List.countP_pos_iff.1 h
  obtain ⟨-, r, hr⟩ := mem_posted.1 hc
  exact ⟨cmd, r, hr, hp⟩

theorem Reachable.poster_t1 (hw : db.Serves c w) (hS : S.Reachable db w) {j : Fin n}
    {h : ExchangeHash}
    (hj : 0 < (posted (S.peers j).machine.trace).countP (Command.isT1 db.sha256 h)) :
    (S.peers j).machine.exchange.status = t1MessageSentState ∧
      db.sha256 (S.peers j).machine.exchange.sentT1 = h := by
  obtain ⟨_ | _ | _ | _, r, hr, hp⟩ := exists_query_of_countP_posted hj <;>
    simp only [Command.isT1, beq_iff_eq, Bool.false_eq_true] at hp
  obtain ⟨hs, -, rfl⟩ := (hS.origin hw j).1.2.t1 hr ((hS.fed hw j).sends _ r hr rfl)
  exact ⟨hs, hp⟩

theorem Reachable.poster_t2 (hw : db.Serves c w) (hS : S.Reachable db w) {j : Fin n}
    {src dst : ExchangeHash}
    (hj : 0 < (posted (S.peers j).machine.trace).countP (Command.isT2 src dst)) :
    (S.peers j).machine.exchange.status = t1MessageSentState ∧
      db.sha256 (S.peers j).machine.exchange.sentT1 = src := by
  obtain ⟨_ | _ | ⟨_, _, _, _⟩ | _, r, hr, hp⟩ := exists_query_of_countP_posted hj <;>
    simp only [Command.isT2, Bool.and_eq_true, beq_iff_eq, Bool.false_eq_true] at hp
  obtain ⟨hs, -, rfl, -⟩ := (hS.origin hw j).1.2.t2 hr
  exact ⟨hs, hp.1⟩

theorem Reachable.poster_t3 (hw : db.Serves c w) (hS : S.Reachable db w) {j : Fin n}
    {src dst : ExchangeHash}
    (hj : 0 < (posted (S.peers j).machine.trace).countP (Command.isT3 src dst)) :
    (S.peers j).machine.exchange.status = t1MessageSentState ∧
      db.sha256 (S.peers j).machine.exchange.sentT1 = src := by
  obtain ⟨_ | _ | _ | ⟨_, _, _, _⟩, r, hr, hp⟩ := exists_query_of_countP_posted hj <;>
    simp only [Command.isT3, Bool.and_eq_true, beq_iff_eq, Bool.false_eq_true] at hp
  obtain ⟨hs, -, rfl, -⟩ := (hS.origin hw j).1.2.t3 hr
  exact ⟨hs, hp.1⟩

section
variable (hw : db.Serves c w) (hS : S.Reachable db w) (hx : Distinct db.sha256 S)
include hw hS hx

theorem Reachable.poster_eq {p : Command → Bool} {h : ExchangeHash}
    (hp : ∀ j, 0 < (posted (S.peers j).machine.trace).countP p →
      (S.peers j).machine.exchange.status = t1MessageSentState ∧
        db.sha256 (S.peers j).machine.exchange.sentT1 = h)
    (j k : Fin n) (hj : 0 < (posted (S.peers j).machine.trace).countP p)
    (hk : 0 < (posted (S.peers k).machine.trace).countP p) : j = k :=
  have hj := hp j hj
  have hk := hp k hk
  hS.peer_eq hw hx hj.1 hk.1 (hj.2.trans hk.2.symm)

/-- In every interleaving the database holds at most one T1 under each hash, and at most
one T2 and one T3 from each hash to each hash. -/
theorem reachable_log_at_most_once :
    (∀ h, S.board.countP (Command.isT1 db.sha256 h) ≤ 1) ∧
      ∀ src dst, S.board.countP (Command.isT2 src dst) ≤ 1 ∧
        S.board.countP (Command.isT3 src dst) ≤ 1 := by
  have hbound :
      ∀ {j : Fin n} {q : Event → Bool} {A : Prop} [Decidable A] {p : Command → Bool},
      (S.peers j).machine.trace.countP q ≤ (if A then 1 else 0) →
      (∀ cmd r, p cmd = true → accepted r = true → q (.query cmd r) = true) →
      (posted (S.peers j).machine.trace).countP p ≤ 1 := fun hl hpq =>
    (countP_posted_le (hS.fed hw _).sends hpq).trans (hl.trans (by split <;> simp))
  refine ⟨fun h => hS.countP_le_one (fun j => hbound (hS.ledger j).t1 ?_)
      (hS.poster_eq hw hx fun _ => hS.poster_t1 hw),
    fun src dst => ⟨hS.countP_le_one (fun j => hbound ((hS.ledger j).t2 dst) ?_)
      (hS.poster_eq hw hx fun _ => hS.poster_t2 hw),
      hS.countP_le_one (fun j => hbound ((hS.ledger j).t3 dst) ?_)
      (hS.poster_eq hw hx fun _ => hS.poster_t3 hw)⟩⟩
  all_goals rintro (_ | _ | _ | _) r hp ha <;> first
    | exact ha
    | exact Bool.and_eq_true_iff.2 ⟨(Bool.and_eq_true_iff.1 hp).2, ha⟩
    | cases hp

end

end System

end Reunion.Protocol
