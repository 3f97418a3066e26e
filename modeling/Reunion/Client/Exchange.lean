import Reunion.Client.World

/-! # The exchange state machine

`client/exchange.go`, method by method. A method is a function of the world and the
machine, returning its Go result and the machine after the call. A `range` loop visits
the entries in the order the world picks, and its body ends in one of three ways: go on,
go on with the loop's flag set, or `return false`.
-/

namespace Reunion.Client

def initialState : Int := 0
def t1MessageSentState : Int := 1

/-- Modelled from the spec: `commands.ResponseStatusOK`, the error code `0` that means OK. -/
def responseStatusOK : UInt8 := 0

section
variable (w : World)

def newExchange (payload : Bytes) (contactID : UInt64) (passphrase sharedRandomValue : Bytes)
    (epoch : UInt64) : Except String Exchange :=
  match w.newSession passphrase sharedRandomValue epoch with
  | .error err => .error err
  | .ok session => .ok
    { status := initialState, contactID, session, payload, sentT1 := [], sentT2Map := ∅,
      receivedT1s := ∅, receivedT2s := ∅, receivedT3s := ∅, repliedT1s := ∅,
      repliedT2s := ∅, receivedT1Alphas := ∅, decryptedT1Betas := ∅ }

def Exchange.toSerializable (e : Exchange) : SerializableExchange :=
  { contactID := e.contactID, status := e.status, session := e.session, sentT1 := e.sentT1,
    sentT2Map := e.sentT2Map, receivedT1s := e.receivedT1s, receivedT2s := e.receivedT2s,
    receivedT3s := e.receivedT3s, repliedT1s := e.repliedT1s, repliedT2s := e.repliedT2s,
    receivedT1Alphas := e.receivedT1Alphas, decryptedT1Betas := e.decryptedT1Betas }

def Exchange.marshal (e : Exchange) : Except String Bytes := w.marshalExchange e.toSerializable

/-- The object `Unmarshal` leaves behind: every persistent field from the snapshot, and the
payload the object already had. -/
def SerializableExchange.toExchange (state : SerializableExchange) (payload : Bytes) :
    Exchange :=
  { status := state.status, contactID := state.contactID, session := state.session, payload,
    sentT1 := state.sentT1, sentT2Map := state.sentT2Map, repliedT1s := state.repliedT1s,
    repliedT2s := state.repliedT2s, receivedT1s := state.receivedT1s,
    receivedT2s := state.receivedT2s, receivedT3s := state.receivedT3s,
    receivedT1Alphas := state.receivedT1Alphas, decryptedT1Betas := state.decryptedT1Betas }

/-- `Exchange.Unmarshal` on an object whose payload is `payload`. -/
def unmarshal (payload data : Bytes) : Except String Exchange :=
  match w.unmarshalExchange data with
  | .error err => .error ("wtf unmarshal failure: " ++ err ++ "\n")
  | .ok state => .ok (state.toExchange payload)

/-- `NewExchangeFromSnapshot`: `Unmarshal` into a fresh object, whose payload is `nil`. -/
def newExchangeFromSnapshot (serialized : Bytes) : Except String Exchange :=
  unmarshal w [] serialized

def shouldStop (m : Machine) : Bool × Machine := (w.shutdown m.clock, m.tick)

def sentUpdateOK (m : Machine) : Bool × Machine :=
  match m.exchange.marshal w with
  | .ok serialized => (true, m.emit ⟨m.exchange.contactID, none, some serialized, none⟩)
  | .error err => (false, m.emit ⟨m.exchange.contactID, some err, none, none⟩)

/-- The `range state.T1Map` loop of `processState`; the flag is `hasNew`. -/
def mergeT1s : List Entry → ExchangeMap Bytes → Bool → ExchangeMap Bytes × Bool
  | [], t1s, hasNew => (t1s, hasNew)
  | ⟨t1hash, t1⟩ :: rest, t1s, hasNew =>
    if t1hash ∈ t1s then mergeT1s rest t1s hasNew else mergeT1s rest (t1s.insert t1hash t1) true

/-- The `range state.Messages` loop of `processState`. An invalid message ends it with an
error, after the messages before it were merged. -/
def mergeMessages : List T2T3Message → Exchange → Bool → Except String Bool × Exchange
  | [], e, hasNew => (.ok hasNew, e)
  | message :: rest, e, hasNew =>
    if message.t2Payload.length > 0 then
      if message.srcT1Hash ∈ e.receivedT2s then mergeMessages rest e hasNew
      else mergeMessages rest
        { e with receivedT2s := e.receivedT2s.insert message.srcT1Hash message.t2Payload } true
    else if message.t3Payload.length > 0 then
      if message.srcT1Hash ∈ e.receivedT3s then mergeMessages rest e hasNew
      else mergeMessages rest
        { e with receivedT3s := e.receivedT3s.insert message.srcT1Hash message.t3Payload } true
    else (.error "wtf, invalid message found", e)

def processState (state : RequestedReunionState) (m : Machine) : Except String Bool × Machine :=
  let (t1s, hasNew) := mergeT1s (w.order m.clock state.t1Map.entries) m.exchange.receivedT1s false
  let (r, e) := mergeMessages state.messages { m.exchange with receivedT1s := t1s } hasNew
  (r, { m.tick with exchange := e })

def fetchState (m : Machine) : Except String Unit × Machine :=
  match w.ask (.fetchState m.exchange.session.epoch (w.sha256 m.exchange.sentT1)) m with
  | (.error err, m) => (.error err, m)
  | (.ok (.stateResponse errorCode truncated payload), m) =>
    if errorCode ≠ responseStatusOK then
      (.error ("fetch state: received an error status code from the reunion db: " ++
        toString errorCode), m)
    else match w.unmarshalState payload with
      | .error err => (.error err, m)
      | .ok state =>
        if truncated then (.error "truncated Reunion DB state not yet supported", m)
        else match processState w state m with
          | (.error err, m) => (.error err, m)
          | (.ok _, m) => (.ok (), m)
  | (.ok _, m) => (.error "fetch state: wrong response command received", m)

/-- The reply check of `sendT1`, `sendT2Messages` and `sendT3Messages`: no query error, a
`MessageResponse`, and an OK code. -/
def accepted : Except String Response → Bool
  | .ok (.messageResponse errorCode) => errorCode == responseStatusOK
  | _ => false

/-- Issue a `SendT*` command and check its reply. -/
def send (cmd : Command) (m : Machine) : Bool × Machine :=
  (accepted (w.ask cmd m).1, (w.ask cmd m).2)

def sendT1 (m : Machine) : Bool × Machine :=
  match w.call m fun c => c.generateType1Message m.exchange.session m.exchange.payload with
  | (.error _, m') => (false, m'.modify fun e => { e with sentT1 := [] })
  | (.ok t1, m') =>
    send w (.sendT1 m.exchange.session.epoch t1) (m'.modify fun e => { e with sentT1 := t1 })

/-- How one pass of a `range` loop body ends. -/
inductive Flow where
  /-- The end of the body, or `continue`. -/
  | next (m : Machine)
  /-- The body set the loop's flag (`hasSent`, `hasSentT3`, `processed`). -/
  | mark (m : Machine)
  /-- `return false`. -/
  | exit (m : Machine)

/-- A `range` loop over the entries in the order given, with a Boolean flag. -/
def rangeLoop (body : Entry → Machine → Flow) :
    List Entry → Bool → Machine → Bool × Machine
  | [], flag, m => (flag, m)
  | x :: xs, flag, m =>
    match body x m with
    | .next m => rangeLoop body xs flag m
    | .mark m => rangeLoop body xs true m
    | .exit m => (false, m)

/-- `for k, v := range entries { body }`, in the order the world picks now. -/
def rangeOver (body : Entry → Machine → Flow) (entries : List Entry) (m : Machine) :
    Bool × Machine :=
  rangeLoop body (w.order m.clock entries) false m.tick

def sendT2Body (myT1Hash : ExchangeHash) : Entry → Machine → Flow
  | ⟨t1Hash, t1⟩, m =>
    if t1Hash = myT1Hash then .next m
    else if t1Hash ∈ m.exchange.repliedT1s then .next m
    else match w.call m fun c => c.decodeT1Message t1 with
    | (.error _, m) => .exit m
    | (.ok (alpha, _, _), m) =>
      match w.call m fun c => c.processType1MessageAlpha m.exchange.session alpha with
      | (.error _, m) => .exit m
      | (.ok (t2, alphaPubKey), m) =>
        let m := m.modify fun e => { e with
          receivedT1Alphas := e.receivedT1Alphas.insert t1Hash alphaPubKey
          sentT2Map := e.sentT2Map.insert (w.sha256 t2) t2 }
        match send w (.sendT2 m.exchange.session.epoch myT1Hash t1Hash t2) m with
        | (false, m) => .exit m
        | (true, m) => .mark (m.modify fun e => { e with
            repliedT1s := e.repliedT1s.insert t1Hash t1 })

def sendT2Messages (m : Machine) : Bool × Machine :=
  rangeOver w (sendT2Body w (w.sha256 m.exchange.sentT1)) m.exchange.receivedT1s.entries m

def sendT3Body (myT1Hash : ExchangeHash) : Entry → Machine → Flow
  | ⟨srcT1Hash, t2⟩, m =>
    match m.exchange.receivedT1s.lookup srcT1Hash with
    | none => .exit m
    | some t1 =>
      if w.sha256 t2 ∈ m.exchange.repliedT2s then .next m
      else match m.exchange.receivedT1Alphas.lookup srcT1Hash with
      | none => .exit m
      | some alphaKey =>
        match w.call m fun c => c.getCandidateKey m.exchange.session t2 alphaKey with
        | (.error _, m) => .exit m
        | (.ok candidateKey, m) =>
          match w.call m fun c => c.decodeT1Message t1 with
          | (.error _, m) => .exit m
          | (.ok (_, t1beta, _), m) =>
            match w.call m fun c => c.decryptT1Beta candidateKey t1beta with
            | (.error _, m) => .next m
            | (.ok beta, m) =>
              match w.call m fun c => c.composeType3Message m.exchange.session beta with
              | (.error _, m) => .exit m
              | (.ok t3, m) =>
                match send w (.sendT3 m.exchange.session.epoch myT1Hash srcT1Hash t3) m with
                | (false, m) => .exit m
                | (true, m) => .mark (m.modify fun e => { e with
                    decryptedT1Betas := e.decryptedT1Betas.insert srcT1Hash beta
                    repliedT2s := e.repliedT2s.insert (w.sha256 t2) t2 })

def sendT3Messages (m : Machine) : Bool × Machine :=
  rangeOver w (sendT3Body w (w.sha256 m.exchange.sentT1)) m.exchange.receivedT2s.entries m

def processT3Body : Entry → Machine → Flow
  | ⟨srcT1Hash, t3⟩, m =>
    match m.exchange.decryptedT1Betas.lookup srcT1Hash with
    | none => .next m
    | some beta =>
      match m.exchange.receivedT1s.lookup srcT1Hash with
      | none => .exit m
      | some t1 =>
        match w.call m fun c => c.decodeT1Message t1 with
        | (.error _, m) => .exit m
        | (.ok (_, _, gamma), m) =>
          match w.call m fun c => c.processType3Message m.exchange.session t3 gamma beta with
          | (.error _, m) => .exit m
          | (.ok plaintext, m) =>
            .mark (m.emit ⟨m.exchange.contactID, none, none, some plaintext⟩)

def processT3Messages (m : Machine) : Bool × Machine :=
  rangeOver w (processT3Body w) m.exchange.receivedT3s.entries m

/-- Why `Run` returned: one constructor for each of its `return` statements. -/
inductive Halt where
  | sendT1Failed
  | marshalFailed
  | shutdown
  | fetchStateFailed (err : String)
  | completed
  | unknownState
deriving DecidableEq

/-- `sentUpdateOK` and then `shouldStop`, as `Run` does after each state change. -/
def checkpoint (m : Machine) : Option Halt × Machine :=
  match sentUpdateOK w m with
  | (false, m) => (some .marshalFailed, m)
  | (true, m) =>
    match shouldStop w m with
    | (true, m) => (some .shutdown, m)
    | (false, m) => (none, m)

/-- The `for` loop of the `t1MessageSentState` case, cut after `fuel` iterations (`none`). -/
def runLoop : Nat → Machine → Option Halt × Machine
  | 0, m => (none, m)
  | fuel + 1, m =>
    match fetchState w m with
    | (.error err, m) => (some (.fetchStateFailed err), m)
    | (.ok _, m) =>
      match checkpoint w (sendT2Messages w m).2 with
      | (some h, m) => (some h, m)
      | (none, m) =>
        match checkpoint w (sendT3Messages w m).2 with
        | (some h, m) => (some h, m)
        | (none, m) =>
          match processT3Messages w m with
          | (true, m) => (some .completed, m)
          | (false, m) => runLoop fuel m

def run (fuel : Nat) (m : Machine) : Option Halt × Machine :=
  if m.exchange.status = initialState then
    match sendT1 w m with
    | (false, m) => (some .sendT1Failed, m)
    | (true, m) =>
      match checkpoint w (m.modify fun e => { e with status := t1MessageSentState }) with
      | (some h, m) => (some h, m)
      | (none, m) => runLoop w fuel m
  else if m.exchange.status = t1MessageSentState then runLoop w fuel m
  else
    (some .unknownState, m.emit ⟨m.exchange.contactID, some "unknown state error", none, none⟩)

end

end Reunion.Client
