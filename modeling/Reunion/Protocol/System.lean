import Mathlib.Algebra.Order.BigOperators.Group.Finset
import Reunion.Client.Driver
import Reunion.Client.Move
import Reunion.Protocol.Board

/-! # Peers sharing one database

Any number of peers run `Run` against one database. A peer is its driver and its machine;
one step of the system lets one peer execute its next statement against the log as it is
and appends the commands it sent, or lets the host invoke `Run` again on a peer whose `Run`
returned. `Reachable` are the states of every interleaving from fresh exchanges and an
empty database.

In every reachable state each peer has reached its exchange and history by `Move`s of its
own world, whatever the others did, so every `MoveInvariant` holds of every peer
(`MoveInvariant.peer`); and the log holds exactly the commands the peers sent
(`Inv.board`, `Reachable.mem_board`).
-/

namespace Reunion.Protocol
open Reunion.Client Relation

/-- One party: where its `Run` is, and its machine. -/
structure Peer where
  pc : Pc
  machine : Machine

/-- A peer's exchange and history. -/
def Peer.view (p : Peer) : View := (p.machine.exchange, p.machine.trace)

/-- `n` peers and the log of the database they share. -/
structure System (n : Nat) where
  board : Board
  peers : Fin n → Peer

end Reunion.Protocol

namespace Reunion.Client.Move
open Relation

theorem of_world {db : Reunion.Protocol.Database} {w : World} {b : Reunion.Protocol.Board}
    {s s' : View} (h : Move (db.world w b) s s') : Move w s s' := by
  cases h <;> constructor <;> assumption

theorem trace_suffix {w : World} {s s' : View} (h : Move w s s') : s.2 <:+ s'.2 := by
  cases h <;> first | exact List.suffix_refl _ | exact List.suffix_cons _ _

theorem trace_suffix_of_moves {w : World} {s s' : View} (h : ReflTransGen (Move w) s s') :
    s.2 <:+ s'.2 := by
  induction h with
  | refl => exact List.suffix_refl _
  | tail _ hm ih => exact ih.trans hm.trace_suffix

end Reunion.Client.Move

namespace Reunion.Protocol
open Reunion.Client Relation

namespace System

variable {n : Nat} (db : Database) (w : Fin n → World)

/-- Peer `i`'s next statement, against the log as it is. -/
def stepOf (S : System n) (i : Fin n) : Pc × Machine :=
  Pc.step (db.world (w i) S.board) ((S.peers i).pc, (S.peers i).machine)

/-- Peer `i` executes its next statement; the database keeps the commands it sent. -/
def advance (S : System n) (i : Fin n) : System n :=
  let s := stepOf db w S i
  { board := posted (s.2.trace.take (s.2.trace.length - (S.peers i).machine.trace.length)) ++
      S.board
    peers := Function.update S.peers i ⟨s.1, s.2⟩ }

/-- The host invokes `Run` again on peer `i`. -/
def restart (S : System n) (i : Fin n) : System n :=
  { S with peers := Function.update S.peers i { S.peers i with pc := .entry } }

/-- Every peer at the start of `Run` on a fresh exchange, and an empty database. -/
def Initial (S : System n) : Prop :=
  S.board = [] ∧
    ∀ i, (S.peers i).pc = .entry ∧ Reunion.Client.Initial (w i) (S.peers i).machine

/-- The states of every interleaving of the peers' statements and of the host's new
invocations of `Run` on peers whose `Run` returned. -/
inductive Reachable : System n → Prop
  | initial {S : System n} : Initial w S → Reachable S
  | advance {S : System n} (i : Fin n) : Reachable S → Reachable (advance db w S i)
  | restart {S : System n} (i : Fin n) (h : Halt) : Reachable S → (S.peers i).pc = .halted h →
      Reachable (restart S i)

variable {db w}

/-- What holds in every reachable state: each peer is at a statement its status allows and
reached its exchange and history by moves of its world from a fresh exchange, and the log
holds exactly the commands the peers sent. -/
structure Inv (S : System n) : Prop where
  ready : ∀ i, (S.peers i).pc.Ready (S.peers i).machine.exchange
  moves : ∀ i, ∃ m₀, Reunion.Client.Initial (w i) m₀ ∧
    ReflTransGen (Move (w i)) (m₀.exchange, m₀.trace) (S.peers i).view
  board : ∀ p : Command → Bool,
    S.board.countP p = ∑ i, (posted (S.peers i).machine.trace).countP p

theorem stepOf_moves (db : Database) {S : System n} {i : Fin n}
    (hr : (S.peers i).pc.Ready (S.peers i).machine.exchange) :
    (stepOf db w S i).1.Ready (stepOf db w S i).2.exchange ∧
      ReflTransGen (Move (w i)) (S.peers i).view
        ((stepOf db w S i).2.exchange, (stepOf db w S i).2.trace) := by
  have h := (moves_runInvariant (db.world (w i) S.board) (S.peers i).view).step
    (s := ((S.peers i).pc, (S.peers i).machine)) hr ReflTransGen.refl
  exact ⟨h.1, h.2.mono fun _ _ => Move.of_world⟩

theorem advance_board {S : System n} {i : Fin n} {new : List Event}
    (h : (stepOf db w S i).2.trace = new ++ (S.peers i).machine.trace) :
    (advance db w S i).board = posted new ++ S.board := by
  simp only [advance, h, List.length_append, Nat.add_sub_cancel]
  rw [List.take_left]

@[simp] theorem advance_self (S : System n) (i : Fin n) :
    (advance db w S i).peers i = ⟨(stepOf db w S i).1, (stepOf db w S i).2⟩ :=
  Function.update_same _ _ _

theorem advance_ne (S : System n) {i j : Fin n} (h : j ≠ i) :
    (advance db w S i).peers j = S.peers j :=
  Function.update_noteq h _ _

theorem sum_update (f : Fin n → Peer) (i : Fin n) (p' : Peer) (g : Peer → Nat) :
    ∑ j, g (Function.update f i p' j) + g (f i) = ∑ j, g (f j) + g p' := by
  rw [← Finset.add_sum_erase _ _ (Finset.mem_univ i), ← Finset.add_sum_erase _ _
    (Finset.mem_univ i), Function.update_same,
    Finset.sum_congr rfl fun j hj => by rw [Function.update_noteq (Finset.ne_of_mem_erase hj)]]
  omega

theorem Inv.initial {S : System n} (h : Initial w S) : Inv (w := w) S where
  ready i := by rw [(h.2 i).1]; exact Pc.ready_entry _
  moves i := ⟨_, (h.2 i).2, .refl⟩
  board p := by
    simp only [h.1, List.countP_nil, (h.2 _).2.1, posted, List.filterMap_nil, Peer.view,
      Finset.sum_const_zero]

theorem Inv.advance {S : System n} (hS : Inv (w := w) S) (i : Fin n) :
    Inv (w := w) (System.advance db w S i) := by
  obtain ⟨hr, hmv⟩ := stepOf_moves db (hS.ready i)
  obtain ⟨new, hnew⟩ := Move.trace_suffix_of_moves hmv
  replace hnew : (stepOf db w S i).2.trace = new ++ (S.peers i).machine.trace := hnew.symm
  refine ⟨fun j => ?_, fun j => ?_, fun p => ?_⟩
  · by_cases hj : j = i
    · subst hj; rw [advance_self]; exact hr
    · rw [advance_ne S hj]; exact hS.ready j
  · by_cases hj : j = i
    · subst hj
      obtain ⟨m₀, h₀, hm⟩ := hS.moves j
      rw [advance_self]
      exact ⟨m₀, h₀, hm.trans hmv⟩
    · rw [advance_ne S hj]; exact hS.moves j
  · have hs := sum_update S.peers i ⟨(stepOf db w S i).1, (stepOf db w S i).2⟩
      fun q => (posted q.machine.trace).countP p
    dsimp only at hs
    simp only [hnew, posted_append, List.countP_append] at hs
    rw [advance_board hnew, List.countP_append, hS.board p]
    change _ = ∑ j, (posted (Function.update S.peers i _ j).machine.trace).countP p
    omega

@[simp] theorem restart_board (S : System n) (i : Fin n) : (restart S i).board = S.board := rfl

@[simp] theorem restart_machine (S : System n) (i j : Fin n) :
    ((restart S i).peers j).machine = (S.peers j).machine := by
  by_cases hj : j = i
  · subst hj; simp [restart]
  · simp [restart, Function.update_noteq hj]

theorem Inv.restart {S : System n} (hS : Inv (w := w) S) (i : Fin n) :
    Inv (w := w) (System.restart S i) := by
  have hp := restart_machine S i
  refine ⟨fun j => ?_, fun j => ?_, fun p => ?_⟩
  · by_cases hj : j = i
    · subst hj; simp only [System.restart, Function.update_same]; exact Pc.ready_entry _
    · simp only [System.restart, Function.update_noteq hj]; exact hS.ready j
  · simp only [Peer.view, hp]; exact hS.moves j
  · simp only [hp]; exact hS.board p

theorem Reachable.inv {S : System n} (hS : Reachable db w S) : Inv (w := w) S := by
  induction hS with
  | initial h => exact .initial h
  | advance i _ ih => exact ih.advance i
  | restart i _ _ _ ih => exact ih.restart i

end System

end Reunion.Protocol

namespace Reunion.Client.MoveInvariant
open Reunion.Protocol

theorem peer {n : Nat} {db : Database} {w : Fin n → World} {S : System n} {i : Fin n}
    {I : View → Prop} (hI : MoveInvariant (w i) I) (hS : S.Reachable db w) :
    I (S.peers i).view := by
  obtain ⟨m₀, h₀, hm⟩ := hS.inv.moves i
  exact hI.moves hm (hI.initial m₀ h₀)

end Reunion.Client.MoveInvariant

namespace Reunion.Protocol
open Reunion.Client

namespace System

variable {n : Nat} {db : Database} {w : Fin n → World} {S : System n}

/-- The log holds exactly the commands the peers sent. -/
theorem Reachable.mem_board (hS : S.Reachable db w) {cmd : Command} :
    cmd ∈ S.board ↔ ∃ i, cmd ∈ posted (S.peers i).machine.trace := by
  have h := hS.inv.board (· == cmd)
  constructor
  · intro hc
    have hpos : 0 < S.board.countP (· == cmd) :=
      List.countP_pos_iff.2 ⟨cmd, hc, beq_self_eq_true _⟩
    rw [h] at hpos
    obtain ⟨i, -, hi⟩ := Finset.exists_ne_zero_of_sum_ne_zero hpos.ne'
    obtain ⟨c, hc, he⟩ := List.countP_pos_iff.1 (Nat.pos_of_ne_zero hi)
    exact ⟨i, (beq_iff_eq.1 he) ▸ hc⟩
  · rintro ⟨i, hi⟩
    have hpos : 0 < (posted (S.peers i).machine.trace).countP (· == cmd) :=
      List.countP_pos_iff.2 ⟨cmd, hi, beq_self_eq_true _⟩
    have hle := Finset.single_le_sum (fun j _ => Nat.zero_le
      ((posted (S.peers j).machine.trace).countP (· == cmd))) (Finset.mem_univ i)
    obtain ⟨c, hc, he⟩ := List.countP_pos_iff.1 (h ▸ lt_of_lt_of_le hpos hle)
    exact (beq_iff_eq.1 he) ▸ hc

end System

end Reunion.Protocol
