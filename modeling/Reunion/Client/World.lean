import Reunion.Client.Types

/-! # The world around one exchange

Everything `exchange.go` calls but does not define: SHA-256, the CBOR codecs, the
`crypto` package and the database. The code trusts none of the nondeterministic answers,
so they are indexed by a clock that every interaction advances: each database reply,
crypto outcome, `range` order and shutdown poll may be anything, independently of the
others. A `Machine` is the exchange together with that clock and the history of what it
sent to the database and to its update channel, newest first.
-/

namespace Reunion.Client

/-- The outcomes of the `crypto` package calls at one moment. -/
structure Crypto where
  generateType1Message : Session → Bytes → Except String Bytes
  decodeT1Message : Bytes → Except String (Bytes × Bytes × Bytes)
  processType1MessageAlpha : Session → Bytes → Except String (Bytes × PublicKey)
  getCandidateKey : Session → Bytes → PublicKey → Except String Bytes
  decryptT1Beta : Bytes → Bytes → Except String PublicKey
  composeType3Message : Session → PublicKey → Except String Bytes
  processType3Message : Session → Bytes → Bytes → PublicKey → Except String Bytes

structure World where
  sha256 : Bytes → ExchangeHash
  newSession : Bytes → Bytes → UInt64 → Except String Session
  marshalExchange : SerializableExchange → Except String Bytes
  unmarshalExchange : Bytes → Except String SerializableExchange
  unmarshalState : Bytes → Except String RequestedReunionState
  query : Nat → Command → Except String Response
  shutdown : Nat → Bool
  crypto : Nat → Crypto
  /-- The order in which a `range` loop visits a map's entries: any permutation. -/
  order : Nat → List Entry → List Entry
  order_perm : ∀ n l, (order n l).Perm l

/-- The assumption that the external CBOR codec round-trips `serializableExchange`. -/
def World.RoundTrips (w : World) : Prop :=
  ∀ state data, w.marshalExchange state = .ok data → w.unmarshalExchange data = .ok state

/-- The crypto outcomes are functions of their inputs alone. -/
def World.Deterministic (w : World) : Prop := ∀ n, w.crypto n = w.crypto 0

/-- What the outside sees: a database query with its reply, or an update sent on
`updateChan`. -/
inductive Event where
  | query (cmd : Command) (response : Except String Response)
  | update (u : ReunionUpdate)

structure Machine where
  exchange : Exchange
  clock : Nat
  /-- Newest first. -/
  trace : List Event

namespace Machine

def tick (m : Machine) : Machine := { m with clock := m.clock + 1 }

def modify (f : Exchange → Exchange) (m : Machine) : Machine :=
  { m with exchange := f m.exchange }

/-- `e.updateChan <- u`. -/
def emit (u : ReunionUpdate) (m : Machine) : Machine := { m with trace := .update u :: m.trace }

@[simp] theorem tick_exchange (m : Machine) : m.tick.exchange = m.exchange := rfl
@[simp] theorem tick_trace (m : Machine) : m.tick.trace = m.trace := rfl
@[simp] theorem tick_clock (m : Machine) : m.tick.clock = m.clock + 1 := rfl
@[simp] theorem modify_exchange (f : Exchange → Exchange) (m : Machine) :
    (m.modify f).exchange = f m.exchange := rfl
@[simp] theorem modify_trace (f : Exchange → Exchange) (m : Machine) :
    (m.modify f).trace = m.trace := rfl
@[simp] theorem modify_clock (f : Exchange → Exchange) (m : Machine) :
    (m.modify f).clock = m.clock := rfl
@[simp] theorem emit_exchange (u : ReunionUpdate) (m : Machine) :
    (m.emit u).exchange = m.exchange := rfl
@[simp] theorem emit_trace (u : ReunionUpdate) (m : Machine) :
    (m.emit u).trace = .update u :: m.trace := rfl
@[simp] theorem emit_clock (u : ReunionUpdate) (m : Machine) : (m.emit u).clock = m.clock := rfl

end Machine

/-- A call into the `crypto` package: its outcome at the current clock. -/
def World.call {α : Type} (w : World) (m : Machine) (f : Crypto → α) : α × Machine :=
  (f (w.crypto m.clock), m.tick)

/-- `e.db.Query(cmd, e.shutdownChan)`: the reply at the current clock, recorded. -/
def World.ask (w : World) (cmd : Command) (m : Machine) : Except String Response × Machine :=
  (w.query m.clock cmd,
    { m with clock := m.clock + 1, trace := .query cmd (w.query m.clock cmd) :: m.trace })

@[simp] theorem World.call_snd {α : Type} (w : World) (m : Machine) (f : Crypto → α) :
    (w.call m f).2 = m.tick := rfl

@[simp] theorem World.ask_exchange (w : World) (cmd : Command) (m : Machine) :
    (w.ask cmd m).2.exchange = m.exchange := rfl

end Reunion.Client
