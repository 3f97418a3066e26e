import Mathlib.Data.List.AList
import Mathlib.Data.Vector.Defs

/-! # Data model of the Reunion client

The types of `client/exchange.go` and of the values it exchanges with the Reunion
database. Go byte slices are lists of bytes, `ExchangeHash` is a 32 byte vector and a Go
`map[ExchangeHash]V` is an association list with unique keys, whose entries a `range`
loop visits in an order the runtime chooses.
-/

namespace Reunion.Client

/-- A Go `[]byte`; `nil` is the empty list. -/
abbrev Bytes := List UInt8

/-- `ExchangeHash`: the SHA-256 digest of one T1, T2 or T3 message. -/
abbrev ExchangeHash := Mathlib.Vector UInt8 32

/-- A Go `map[ExchangeHash]V`. -/
abbrev ExchangeMap (V : Type) := AList fun _ : ExchangeHash => V

/-- One `(key, value)` pair of a `map[ExchangeHash][]byte`, as a `range` loop yields it. -/
abbrev Entry := Σ _ : ExchangeHash, Bytes

/-- A `crypto.Session`. The exchange reads only its epoch; the key material is read by
the crypto primitives alone. -/
structure Session where
  epoch : UInt64
  keyMaterial : Bytes
deriving DecidableEq

/-- A `crypto.PublicKey`, in its encoded form. -/
structure PublicKey where
  key : Bytes
deriving DecidableEq

/-- The database commands the client issues (`commands.FetchState`, `commands.SendT1`,
`commands.SendT2`, `commands.SendT3`). -/
inductive Command where
  | fetchState (epoch : UInt64) (t1Hash : ExchangeHash)
  | sendT1 (epoch : UInt64) (payload : Bytes)
  | sendT2 (epoch : UInt64) (srcT1Hash dstT1Hash : ExchangeHash) (payload : Bytes)
  | sendT3 (epoch : UInt64) (srcT1Hash dstT1Hash : ExchangeHash) (payload : Bytes)
deriving DecidableEq

def Command.isSend : Command → Bool
  | .fetchState .. => false
  | _ => true

/-- A database reply: `commands.MessageResponse`, `commands.StateResponse`, or a command of
any other type, which every type assertion of the client rejects. -/
inductive Response where
  | messageResponse (errorCode : UInt8)
  | stateResponse (errorCode : UInt8) (truncated : Bool) (payload : Bytes)
  | other
deriving DecidableEq

/-- One element of `RequestedReunionState.Messages`. -/
structure T2T3Message where
  srcT1Hash : ExchangeHash
  t2Payload : Bytes
  t3Payload : Bytes

/-- `server.RequestedReunionState`, the decoded payload of a `StateResponse`. -/
structure RequestedReunionState where
  t1Map : ExchangeMap Bytes
  messages : List T2T3Message

/-- `ReunionUpdate`; a Go `nil` field is `none`. -/
structure ReunionUpdate where
  contactID : UInt64
  error : Option String
  serialized : Option Bytes
  result : Option Bytes
deriving DecidableEq

/-- `serializableExchange`, the record `Marshal` hands to the CBOR codec. -/
structure SerializableExchange where
  contactID : UInt64
  status : Int
  session : Session
  sentT1 : Bytes
  sentT2Map : ExchangeMap Bytes
  receivedT1s : ExchangeMap Bytes
  receivedT2s : ExchangeMap Bytes
  receivedT3s : ExchangeMap Bytes
  repliedT1s : ExchangeMap Bytes
  repliedT2s : ExchangeMap Bytes
  receivedT1Alphas : ExchangeMap PublicKey
  decryptedT1Betas : ExchangeMap PublicKey
deriving DecidableEq

/-- The protocol state of `Exchange`. The logger, the database handle, the update channel
and the shutdown channel are the environment (`World`) and the history (`Machine`). -/
structure Exchange where
  status : Int
  contactID : UInt64
  session : Session
  payload : Bytes
  sentT1 : Bytes
  sentT2Map : ExchangeMap Bytes
  repliedT1s : ExchangeMap Bytes
  repliedT2s : ExchangeMap Bytes
  receivedT1s : ExchangeMap Bytes
  receivedT2s : ExchangeMap Bytes
  receivedT3s : ExchangeMap Bytes
  receivedT1Alphas : ExchangeMap PublicKey
  decryptedT1Betas : ExchangeMap PublicKey

end Reunion.Client
