import Mathlib.Logic.Equiv.List
import Reunion.Client.Fetch

/-! # The Reunion database

Modelled from the specification, the database's code not being among the sources. The
database takes every `SendT1`, `SendT2` and `SendT3` and answers it with an OK
`MessageResponse`; it keeps, per epoch, every T1 under its SHA-256 hash and every T2 and T3
under the hash it is addressed to; a `FetchState` for `(epoch, t1Hash)` gets an OK,
untruncated `StateResponse` with the epoch's T1s and the messages addressed to `t1Hash`, in
the order they arrived. A `Board` is the log of the commands the database took, newest
first, and a peer in front of it sees the world `Database.world`, whose replies are read
off the log as it is.

What a peer holds after any number of fetches came from the log (`Received`,
`fetchState_received`).
-/

namespace Reunion.Client.Command

/-- Modelled from the spec: the message a command leaves for `dst` in `epoch`, a T2 or a T3
with its source. -/
def messageTo (epoch : UInt64) (dst : ExchangeHash) : Command → Option T2T3Message
  | .sendT2 e src d t2 => if e = epoch ∧ d = dst then some ⟨src, t2, []⟩ else none
  | .sendT3 e src d t3 => if e = epoch ∧ d = dst then some ⟨src, [], t3⟩ else none
  | _ => none

end Reunion.Client.Command

namespace Reunion.Protocol
open Reunion.Client

/-- Modelled from the spec: the commands the database took, newest first. -/
abbrev Board := List Command

/-- Modelled from the spec: what the database computes its answers with, SHA-256 and the
encoding of its state into the payload of a `StateResponse`. -/
structure Database where
  sha256 : Bytes → ExchangeHash
  encode : RequestedReunionState → Bytes

namespace Board

variable (db : Database)

/-- Modelled from the spec: the T1s of `epoch` under their hashes; a later T1 replaces an
earlier one of the same hash. -/
def t1Map (epoch : UInt64) : Board → ExchangeMap Bytes
  | [] => ∅
  | .sendT1 e t1 :: b =>
    if e = epoch then (t1Map epoch b).insert (db.sha256 t1) t1 else t1Map epoch b
  | .fetchState .. :: b | .sendT2 .. :: b | .sendT3 .. :: b => t1Map epoch b

/-- Modelled from the spec: the answer to `FetchState epoch dst`, the epoch's T1s and the
messages addressed to `dst` in the order they arrived. -/
def state (b : Board) (epoch : UInt64) (dst : ExchangeHash) : RequestedReunionState :=
  ⟨t1Map db epoch b, (b.filterMap (Command.messageTo epoch dst)).reverse⟩

/-- Modelled from the spec: the database's reply to a command, an OK untruncated
`StateResponse` to a fetch and an OK `MessageResponse` to every send. -/
def answer (b : Board) : Command → Except String Response
  | .fetchState epoch t1Hash =>
    .ok (.stateResponse responseStatusOK false (db.encode (state db b epoch t1Hash)))
  | _ => .ok (.messageResponse responseStatusOK)

theorem lookup_t1Map {epoch : UInt64} {b : Board} {h : ExchangeHash} {t1 : Bytes}
    (hl : (t1Map db epoch b).lookup h = some t1) : .sendT1 epoch t1 ∈ b ∧ db.sha256 t1 = h := by
  induction b with
  | nil => simp [t1Map] at hl
  | cons cmd b ih =>
    cases cmd with
    | sendT1 e t1' =>
      rw [t1Map] at hl
      split_ifs at hl with he
      · rcases lookup_insert_eq_some.1 hl with ⟨rfl, rfl⟩ | ⟨-, hl⟩
        · exact ⟨he ▸ List.mem_cons_self _ _, rfl⟩
        · exact (ih hl).imp_left (List.mem_cons_of_mem _)
      · exact (ih hl).imp_left (List.mem_cons_of_mem _)
    | _ => exact (ih hl).imp_left (List.mem_cons_of_mem _)

theorem sendT2_of_mem_state {b : Board} {epoch : UInt64} {dst : ExchangeHash}
    {msg : T2T3Message} (hm : msg ∈ (state db b epoch dst).messages)
    (h₂ : 0 < msg.t2Payload.length) : .sendT2 epoch msg.srcT1Hash dst msg.t2Payload ∈ b := by
  obtain ⟨cmd, hc, hmsg⟩ := List.mem_filterMap.1 (List.mem_reverse.1 hm)
  cases cmd with
  | sendT2 e src d t2 =>
    simp only [Command.messageTo, Option.ite_none_right_eq_some, Option.some.injEq] at hmsg
    obtain ⟨⟨rfl, rfl⟩, rfl⟩ := hmsg
    exact hc
  | sendT3 e src d t3 =>
    simp only [Command.messageTo, Option.ite_none_right_eq_some, Option.some.injEq] at hmsg
    obtain ⟨-, rfl⟩ := hmsg
    simp at h₂
  | _ => simp [Command.messageTo] at hmsg

theorem sendT3_of_mem_state {b : Board} {epoch : UInt64} {dst : ExchangeHash}
    {msg : T2T3Message} (hm : msg ∈ (state db b epoch dst).messages)
    (h₃ : 0 < msg.t3Payload.length) : .sendT3 epoch msg.srcT1Hash dst msg.t3Payload ∈ b := by
  obtain ⟨cmd, hc, hmsg⟩ := List.mem_filterMap.1 (List.mem_reverse.1 hm)
  cases cmd with
  | sendT2 e src d t2 =>
    simp only [Command.messageTo, Option.ite_none_right_eq_some, Option.some.injEq] at hmsg
    obtain ⟨-, rfl⟩ := hmsg
    simp at h₃
  | sendT3 e src d t3 =>
    simp only [Command.messageTo, Option.ite_none_right_eq_some, Option.some.injEq] at hmsg
    obtain ⟨⟨rfl, rfl⟩, rfl⟩ := hmsg
    exact hc
  | _ => simp [Command.messageTo] at hmsg

theorem mem_t1Map {b : Board} {epoch : UInt64} {t1 : Bytes} (h : .sendT1 epoch t1 ∈ b) :
    db.sha256 t1 ∈ t1Map db epoch b := by
  induction b with
  | nil => cases h
  | cons cmd b ih =>
    rcases List.mem_cons.1 h with rfl | hb
    · simp [t1Map, AList.mem_insert]
    · cases cmd with
      | sendT1 e t1' =>
        rw [t1Map]
        split_ifs
        · exact (AList.mem_insert _).2 (.inr (ih hb))
        · exact ih hb
      | _ => exact ih hb

theorem mem_state_of_sendT2 {b : Board} {epoch : UInt64} {src dst : ExchangeHash} {t2 : Bytes}
    (h : .sendT2 epoch src dst t2 ∈ b) : ⟨src, t2, []⟩ ∈ (state db b epoch dst).messages :=
  List.mem_reverse.2 (List.mem_filterMap.2 ⟨_, h, by simp [Command.messageTo]⟩)

theorem mem_state_of_sendT3 {b : Board} {epoch : UInt64} {src dst : ExchangeHash} {t3 : Bytes}
    (h : .sendT3 epoch src dst t3 ∈ b) : ⟨src, [], t3⟩ ∈ (state db b epoch dst).messages :=
  List.mem_reverse.2 (List.mem_filterMap.2 ⟨_, h, by simp [Command.messageTo]⟩)

theorem state_valid {b : Board} {epoch : UInt64}
    (h₂ : ∀ e src dst t2, .sendT2 e src dst t2 ∈ b → t2 ≠ [])
    (h₃ : ∀ e src dst t3, .sendT3 e src dst t3 ∈ b → t3 ≠ []) (dst : ExchangeHash) :
    ∀ msg ∈ (state db b epoch dst).messages, msg.valid = true := by
  intro msg hm
  obtain ⟨cmd, hc, hmsg⟩ := List.mem_filterMap.1 (List.mem_reverse.1 hm)
  cases cmd with
  | sendT2 e src d t2 =>
    simp only [Command.messageTo, Option.ite_none_right_eq_some, Option.some.injEq] at hmsg
    obtain ⟨-, rfl⟩ := hmsg
    simp [T2T3Message.valid, List.length_pos.2 (h₂ _ _ _ _ hc)]
  | sendT3 e src d t3 =>
    simp only [Command.messageTo, Option.ite_none_right_eq_some, Option.some.injEq] at hmsg
    obtain ⟨-, rfl⟩ := hmsg
    simp [T2T3Message.valid, List.length_pos.2 (h₃ _ _ _ _ hc)]
  | _ => simp [Command.messageTo] at hmsg

end Board

/-- Modelled from the spec: the world of a peer whose world is otherwise `w`, in front of
the database with log `b`. -/
def Database.world (db : Database) (w : World) (b : Board) : World :=
  { w with query := fun _ => b.answer db }

theorem Database.world_accepts (db : Database) (w : World) (b : Board) (k : Nat) {cmd : Command}
    (hs : cmd.isSend = true) : accepted ((db.world w b).query k cmd) = true := by
  cases cmd <;> first | rfl | cases hs

/-- The commands a history left in the database: its `SendT*` queries, newest first. -/
def posted (tr : List Event) : List Command :=
  tr.filterMap fun
    | .query cmd _ => if cmd.isSend then some cmd else none
    | .update _ => none

@[simp] theorem posted_append (tr tr' : List Event) :
    posted (tr ++ tr') = posted tr ++ posted tr' :=
  List.filterMap_append _ _ _

theorem mem_posted {tr : List Event} {cmd : Command} :
    cmd ∈ posted tr ↔ cmd.isSend = true ∧ ∃ r, .query cmd r ∈ tr := by
  simp only [posted, List.mem_filterMap]
  constructor
  · rintro ⟨ev, hev, hc⟩
    cases ev with
    | query cmd' r =>
      simp only [Option.ite_none_right_eq_some, Option.some.injEq] at hc
      obtain ⟨hs, rfl⟩ := hc
      exact ⟨hs, r, hev⟩
    | update u => cases hc
  · rintro ⟨hs, r, hr⟩
    exact ⟨_, hr, by simp [hs]⟩

/-! ## What a peer received -/

/-- Every T1 a peer holds is a T1 of its epoch in the log, under its hash; every T2 or T3 it
holds under `h` was sent in its epoch from `h` to the hash of its own T1. -/
structure Received (H : Bytes → ExchangeHash) (b : Board) (e : Exchange) : Prop where
  t1s : ∀ h t1, e.receivedT1s.lookup h = some t1 → .sendT1 e.session.epoch t1 ∈ b ∧ H t1 = h
  t2s : ∀ h t2, e.receivedT2s.lookup h = some t2 →
    .sendT2 e.session.epoch h (H e.sentT1) t2 ∈ b
  t3s : ∀ h t3, e.receivedT3s.lookup h = some t3 →
    .sendT3 e.session.epoch h (H e.sentT1) t3 ∈ b

namespace Received

variable {H : Bytes → ExchangeHash} {b b' : Board} {e : Exchange}

theorem mono (hr : Received H b e) (hb : b ⊆ b') : Received H b' e where
  t1s h t1 hl := (hr.t1s h t1 hl).imp_left (@hb _)
  t2s h t2 hl := hb (hr.t2s h t2 hl)
  t3s h t3 hl := hb (hr.t3s h t3 hl)

theorem of_empty (h₁ : e.receivedT1s = ∅) (h₂ : e.receivedT2s = ∅)
    (h₃ : e.receivedT3s = ∅) : Received H b e where
  t1s h t1 hl := by simp [h₁] at hl
  t2s h t2 hl := by simp [h₂] at hl
  t3s h t3 hl := by simp [h₃] at hl

end Received

theorem firstT2_mem {msgs : List T2T3Message} {k : ExchangeHash} {t2 : Bytes}
    (h : firstT2 msgs k = some t2) :
    ∃ msg ∈ msgs, msg.srcT1Hash = k ∧ 0 < msg.t2Payload.length ∧ msg.t2Payload = t2 := by
  obtain ⟨msg, hf, rfl⟩ := Option.map_eq_some'.1 h
  have hp := List.find?_some hf
  simp only [decide_eq_true_eq] at hp
  exact ⟨msg, List.mem_of_find?_eq_some hf, hp.1, hp.2, rfl⟩

theorem firstT3_mem {msgs : List T2T3Message} {k : ExchangeHash} {t3 : Bytes}
    (h : firstT3 msgs k = some t3) :
    ∃ msg ∈ msgs, msg.srcT1Hash = k ∧ 0 < msg.t3Payload.length ∧ msg.t3Payload = t3 := by
  obtain ⟨msg, hf, rfl⟩ := Option.map_eq_some'.1 h
  have hp := List.find?_some hf
  simp only [decide_eq_true_eq] at hp
  exact ⟨msg, List.mem_of_find?_eq_some hf, hp.1, hp.2.2, rfl⟩

theorem firstT2_isSome {msgs : List T2T3Message} {src : ExchangeHash} {t2 t3 : Bytes}
    (hm : ⟨src, t2, t3⟩ ∈ msgs) (h : t2 ≠ []) : (firstT2 msgs src).isSome := by
  simp only [firstT2, Option.isSome_map', List.find?_isSome, decide_eq_true_eq]
  exact ⟨_, hm, rfl, List.length_pos.2 h⟩

theorem firstT3_isSome {msgs : List T2T3Message} {src : ExchangeHash} {t3 : Bytes}
    (hm : ⟨src, [], t3⟩ ∈ msgs) (h : t3 ≠ []) : (firstT3 msgs src).isSome := by
  simp only [firstT3, Option.isSome_map', List.find?_isSome, decide_eq_true_eq]
  exact ⟨_, hm, rfl, rfl, List.length_pos.2 h⟩

section
variable {db : Database} {w : World} (hH : w.sha256 = db.sha256)
  (hc : ∀ s, w.unmarshalState (db.encode s) = .ok s) (b : Board)
include hH hc

theorem fetchState_atBoard (m : Machine) :
    MergedFrom m.exchange (b.state db m.exchange.session.epoch (db.sha256 m.exchange.sentT1)).t1Map
      ((b.state db m.exchange.session.epoch (db.sha256 m.exchange.sentT1)).messages.takeWhile
        T2T3Message.valid) (fetchState (db.world w b) m).2.exchange := by
  rcases fetchState_reply (db.world w b) m with ⟨payload, state, hq, hu, hf, -⟩ | ⟨hn, -⟩
  · simp only [Database.world, Board.answer, hH, Except.ok.injEq, Response.stateResponse.injEq,
      true_and] at hq hu
    rw [← hq, hc] at hu
    cases hu
    rw [hf]
    exact processState_merged (db.world w b) _
      ((db.world w b).ask (.fetchState m.exchange.session.epoch (w.sha256 m.exchange.sentT1)) m).2
  · exact absurd ⟨_, _, rfl, by simp only [Database.world, hH]; exact hc _⟩ hn

/-- What a fetch against the database adds came from the log. -/
theorem fetchState_received {m : Machine} (hm : Received db.sha256 b m.exchange) :
    Received db.sha256 b (fetchState (db.world w b) m).2.exchange := by
  have hmf := fetchState_atBoard hH hc b m
  obtain ⟨t1s, t2s, t3s, he⟩ := hmf.frame
  have hs : (fetchState (db.world w b) m).2.exchange.session = m.exchange.session := by rw [he]
  have ht : (fetchState (db.world w b) m).2.exchange.sentT1 = m.exchange.sentT1 := by rw [he]
  refine ⟨fun h t1 hl => ?_, fun h t2 hl => ?_, fun h t3 hl => ?_⟩
  · rw [hmf.t1s] at hl
    rw [hs]
    rcases ho : m.exchange.receivedT1s.lookup h with _ | t1' <;> rw [ho] at hl
    · exact Board.lookup_t1Map db hl
    · cases hl
      exact hm.t1s h _ ho
  · rw [hmf.t2s] at hl
    rw [hs, ht]
    rcases ho : m.exchange.receivedT2s.lookup h with _ | t2' <;> rw [ho] at hl
    · obtain ⟨msg, hmem, rfl, h₂, rfl⟩ := firstT2_mem hl
      exact Board.sendT2_of_mem_state db (List.takeWhile_subset _ hmem) h₂
    · cases hl
      exact hm.t2s h _ ho
  · rw [hmf.t3s] at hl
    rw [hs, ht]
    rcases ho : m.exchange.receivedT3s.lookup h with _ | t3' <;> rw [ho] at hl
    · obtain ⟨msg, hmem, rfl, h₃, rfl⟩ := firstT3_mem hl
      exact Board.sendT3_of_mem_state db (List.takeWhile_subset _ hmem) h₃
    · cases hl
      exact hm.t3s h _ ho

theorem fetchState_ok_atBoard (m : Machine) (hv : ∀ msg ∈ (b.state db m.exchange.session.epoch
      (db.sha256 m.exchange.sentT1)).messages, msg.valid = true) :
    ∃ u, (fetchState (db.world w b) m).1 = .ok u := by
  rcases fetchState_reply (db.world w b) m with ⟨payload, state, hq, hu, -, hok⟩ | ⟨hn, -⟩
  · simp only [Database.world, Board.answer, hH, Except.ok.injEq, Response.stateResponse.injEq,
      true_and] at hq hu
    rw [← hq, hc] at hu
    cases hu
    exact hok.2 ((processState_ok_iff _ _ _).2 hv)
  · exact absurd ⟨_, _, rfl, by simp only [Database.world, hH]; exact hc _⟩ hn

end

/-! ## A codec for the examples

`RequestedReunionState` is countable, so an encoding into bytes that decodes back exists;
`encodeState` writes the state's code in unary. It stands in for the CBOR codec the database
and the client share, in the examples that need one. -/

instance uint8Encodable : Encodable UInt8 :=
  Encodable.ofEquiv (Fin (2 ^ 8))
    ⟨fun u => u.toBitVec.toFin, fun f => ⟨⟨f⟩⟩, fun ⟨⟨_⟩⟩ => rfl, fun _ => rfl⟩

instance entriesNodupKeys : DecidablePred fun l : List Entry => l.NodupKeys :=
  fun l => inferInstanceAs (Decidable l.keys.Nodup)

instance exchangeMapEncodable : Encodable (ExchangeMap Bytes) :=
  Encodable.ofEquiv { l : List Entry // l.NodupKeys }
    ⟨fun a => ⟨a.entries, a.nodupKeys⟩, fun l => ⟨l.1, l.2⟩, fun _ => rfl, fun _ => rfl⟩

instance t2t3MessageEncodable : Encodable T2T3Message :=
  Encodable.ofEquiv (ExchangeHash × Bytes × Bytes)
    ⟨fun m => (m.srcT1Hash, m.t2Payload, m.t3Payload), fun p => ⟨p.1, p.2.1, p.2.2⟩,
      fun _ => rfl, fun _ => rfl⟩

instance requestedReunionStateEncodable : Encodable RequestedReunionState :=
  Encodable.ofEquiv (ExchangeMap Bytes × List T2T3Message)
    ⟨fun s => (s.t1Map, s.messages), fun p => ⟨p.1, p.2⟩, fun _ => rfl, fun _ => rfl⟩

def encodeState (s : RequestedReunionState) : Bytes := List.replicate (Encodable.encode s) 0

def decodeState (payload : Bytes) : Except String RequestedReunionState :=
  match Encodable.decode payload.length with
  | some s => .ok s
  | none => .error "undecodable state"

theorem decodeState_encodeState (s : RequestedReunionState) :
    decodeState (encodeState s) = .ok s := by
  unfold decodeState encodeState
  rw [List.length_replicate, Encodable.encodek]

def sampleDatabase : Database :=
  ⟨(World.sample sampleExchange.toSerializable).sha256, encodeState⟩

def World.samplePeer : World :=
  { World.sample sampleExchange.toSerializable with unmarshalState := decodeState }

theorem World.samplePeer_unmarshalState : World.samplePeer.unmarshalState = decodeState := rfl

end Reunion.Protocol
