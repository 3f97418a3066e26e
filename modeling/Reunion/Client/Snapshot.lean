import Reunion.Client.Run

/-! # Resuming from a snapshot

`Marshal` leaves the payload out of `serializableExchange`, and `NewExchangeFromSnapshot`
builds an object whose payload is `nil`. Past the T1 nothing reads the payload: every method
commutes with erasing it (`runLoop_erase`), so the rebuilt exchange runs exactly as the
original (`resume_runs_alike`). Before the T1, `sendT1` encrypts the payload, and a rebuilt
exchange sends another T1 (`resume_before_t1_differs`).
-/

namespace Reunion.Client

/-- The machine whose exchange has lost its payload, as `NewExchangeFromSnapshot` leaves it. -/
def Machine.erase (m : Machine) : Machine :=
  { m with exchange := { m.exchange with payload := [] } }

@[simp] theorem Machine.erase_exchange (m : Machine) :
    m.erase.exchange = { m.exchange with payload := [] } := rfl
@[simp] theorem Machine.erase_clock (m : Machine) : m.erase.clock = m.clock := rfl
@[simp] theorem Machine.erase_trace (m : Machine) : m.erase.trace = m.trace := rfl

def Flow.map (f : Machine → Machine) : Flow → Flow
  | .next m => .next (f m)
  | .mark m => .mark (f m)
  | .exit m => .exit (f m)

section
variable (w : World)

theorem ask_erase (cmd : Command) (m : Machine) :
    w.ask cmd m.erase = ((w.ask cmd m).1, (w.ask cmd m).2.erase) := rfl

theorem marshal_erase (m : Machine) : m.erase.exchange.marshal w = m.exchange.marshal w := rfl

/-! ## Loops -/

theorem rangeLoop_erase {body : Entry → Machine → Flow}
    (hbody : ∀ x m, body x m.erase = (body x m).map Machine.erase) (xs : List Entry) :
    ∀ flag m, rangeLoop body xs flag m.erase =
      ((rangeLoop body xs flag m).1, (rangeLoop body xs flag m).2.erase) := by
  induction xs with
  | nil => exact fun _ _ => rfl
  | cons x xs ih =>
    intro flag m
    rw [rangeLoop, rangeLoop, hbody]
    cases body x m <;> first | exact ih _ _ | rfl

theorem rangeOver_erase {body : Entry → Machine → Flow}
    (hbody : ∀ x m, body x m.erase = (body x m).map Machine.erase) (entries : List Entry)
    (m : Machine) :
    rangeOver w body entries m.erase =
      ((rangeOver w body entries m).1, (rangeOver w body entries m).2.erase) :=
  rangeLoop_erase hbody _ false m.tick

/-! ## Loop bodies

Each crypto outcome and each reply is split on once; both sides then take the same branch. -/

theorem sendT2Body_erase (my : ExchangeHash) (x : Entry) (m : Machine) :
    sendT2Body w my x m.erase = (sendT2Body w my x m).map Machine.erase := by
  obtain ⟨t1Hash, t1⟩ := x
  simp only [sendT2Body, send, World.call, World.ask, Machine.erase, Machine.tick, Machine.modify]
  split_ifs
  · rfl
  · rfl
  rcases (w.crypto m.clock).decodeT1Message t1 with _ | ⟨alpha, _, _⟩
  · rfl
  dsimp only
  rcases (w.crypto (m.clock + 1)).processType1MessageAlpha m.exchange.session alpha
    with _ | ⟨t2, pk⟩
  · rfl
  dsimp only
  generalize accepted _ = ok
  cases ok <;> rfl

theorem sendT3Body_erase (my : ExchangeHash) (x : Entry) (m : Machine) :
    sendT3Body w my x m.erase = (sendT3Body w my x m).map Machine.erase := by
  obtain ⟨src, t2⟩ := x
  simp only [sendT3Body, send, World.call, World.ask, Machine.erase, Machine.tick, Machine.modify]
  rcases m.exchange.receivedT1s.lookup src with _ | t1
  · rfl
  dsimp only
  split_ifs
  · rfl
  rcases m.exchange.receivedT1Alphas.lookup src with _ | pk
  · rfl
  dsimp only
  rcases (w.crypto m.clock).getCandidateKey m.exchange.session t2 pk with _ | k
  · rfl
  dsimp only
  rcases (w.crypto (m.clock + 1)).decodeT1Message t1 with _ | ⟨_, β, _⟩
  · rfl
  dsimp only
  rcases (w.crypto (m.clock + 1 + 1)).decryptT1Beta k β with _ | beta
  · rfl
  dsimp only
  rcases (w.crypto (m.clock + 1 + 1 + 1)).composeType3Message m.exchange.session beta
    with _ | t3
  · rfl
  dsimp only
  generalize accepted _ = ok
  cases ok <;> rfl

theorem processT3Body_erase (x : Entry) (m : Machine) :
    processT3Body w x m.erase = (processT3Body w x m).map Machine.erase := by
  obtain ⟨src, t3⟩ := x
  simp only [processT3Body, World.call, Machine.erase, Machine.tick, Machine.emit]
  rcases m.exchange.decryptedT1Betas.lookup src with _ | beta
  · rfl
  rcases m.exchange.receivedT1s.lookup src with _ | t1
  · rfl
  dsimp only
  rcases (w.crypto m.clock).decodeT1Message t1 with _ | ⟨_, _, γ⟩
  · rfl
  dsimp only
  rcases (w.crypto (m.clock + 1)).processType3Message m.exchange.session t3 γ beta
    with _ | plaintext <;> rfl

theorem sendT2Messages_erase (m : Machine) :
    sendT2Messages w m.erase = ((sendT2Messages w m).1, (sendT2Messages w m).2.erase) :=
  rangeOver_erase w (sendT2Body_erase w _) _ m

theorem sendT3Messages_erase (m : Machine) :
    sendT3Messages w m.erase = ((sendT3Messages w m).1, (sendT3Messages w m).2.erase) :=
  rangeOver_erase w (sendT3Body_erase w _) _ m

theorem processT3Messages_erase (m : Machine) :
    processT3Messages w m.erase =
      ((processT3Messages w m).1, (processT3Messages w m).2.erase) :=
  rangeOver_erase w (processT3Body_erase w) _ m

/-! ## Straight-line methods -/

theorem mergeMessages_erase (msgs : List T2T3Message) (e : Exchange) (hasNew : Bool) :
    mergeMessages msgs { e with payload := [] } hasNew =
      ((mergeMessages msgs e hasNew).1,
        { (mergeMessages msgs e hasNew).2 with payload := [] }) := by
  induction msgs generalizing e hasNew with
  | nil => rfl
  | cons msg msgs ih =>
    simp only [mergeMessages]
    split_ifs
    · exact ih e hasNew
    · exact ih { e with receivedT2s := e.receivedT2s.insert msg.srcT1Hash msg.t2Payload } true
    · exact ih e hasNew
    · exact ih { e with receivedT3s := e.receivedT3s.insert msg.srcT1Hash msg.t3Payload } true
    · rfl

theorem processState_erase (state : RequestedReunionState) (m : Machine) :
    processState w state m.erase =
      ((processState w state m).1, (processState w state m).2.erase) := by
  dsimp only [processState, Machine.erase_exchange, Machine.erase_clock]
  generalize mergeT1s (w.order m.clock state.t1Map.entries) m.exchange.receivedT1s false = p
  have h := mergeMessages_erase state.messages { m.exchange with receivedT1s := p.1 } p.2
  dsimp only at h
  rw [h]
  rfl

theorem fetchState_erase (m : Machine) :
    fetchState w m.erase = ((fetchState w m).1, (fetchState w m).2.erase) := by
  unfold fetchState
  rw [ask_erase]
  simp only [Machine.erase_exchange]
  rcases w.ask (.fetchState m.exchange.session.epoch (w.sha256 m.exchange.sentT1)) m
    with ⟨_ | (_ | ⟨code, truncated, payload⟩ | _), m'⟩
  · rfl
  · rfl
  · dsimp only
    split_ifs
    · rfl
    · rcases w.unmarshalState payload with _ | state <;> rfl
    · rcases w.unmarshalState payload with _ | state
      · rfl
      dsimp only
      rw [processState_erase]
      rcases processState w state m' with ⟨_ | _, m''⟩ <;> rfl
  · rfl

theorem checkpoint_erase (m : Machine) :
    checkpoint w m.erase = ((checkpoint w m).1, (checkpoint w m).2.erase) := by
  unfold checkpoint sentUpdateOK shouldStop
  rw [marshal_erase]
  rcases m.exchange.marshal w with err | serialized
  · rfl
  · simp only [Machine.emit_clock, Machine.erase_clock]
    cases w.shutdown m.clock <;> rfl

/-! ## Runs -/

/-- The loop of the `t1MessageSentState` case never reads the payload. -/
theorem runLoop_erase (fuel : Nat) (m : Machine) :
    runLoop w fuel m.erase = ((runLoop w fuel m).1, (runLoop w fuel m).2.erase) := by
  induction fuel generalizing m with
  | zero => rfl
  | succ fuel ih =>
    rw [runLoop, runLoop, fetchState_erase]
    rcases fetchState w m with ⟨_ | _, m₁⟩
    · rfl
    dsimp only
    rw [sendT2Messages_erase, checkpoint_erase]
    rcases checkpoint w (sendT2Messages w m₁).2 with ⟨_ | h, m₂⟩
    · dsimp only
      rw [sendT3Messages_erase, checkpoint_erase]
      rcases checkpoint w (sendT3Messages w m₂).2 with ⟨_ | h, m₃⟩
      · dsimp only
        rw [processT3Messages_erase]
        rcases processT3Messages w m₃ with ⟨_ | _, m₄⟩
        · exact ih m₄
        · rfl
      · rfl
    · rfl

theorem run_erase (fuel : Nat) (m : Machine) (hs : m.exchange.status ≠ initialState) :
    run w fuel m.erase = ((run w fuel m).1, (run w fuel m).2.erase) := by
  unfold run
  simp only [Machine.erase_exchange]
  rw [if_neg hs, if_neg hs]
  split_ifs
  · exact runLoop_erase w fuel m
  · rfl

end

/-- Under a round-tripping codec, an exchange past its T1, or without a payload, and the
exchange `NewExchangeFromSnapshot` rebuilds from its `Marshal` run alike: the same queries
with the same replies, the same updates, and the same way of returning. -/
theorem resume_runs_alike {w : World} (hw : w.RoundTrips) (m : Machine)
    (hs : m.exchange.status ≠ initialState ∨ m.exchange.payload = []) {data : Bytes}
    (hd : m.exchange.marshal w = .ok data) :
    ∃ e', newExchangeFromSnapshot w data = .ok e' ∧ ∀ fuel,
      (run w fuel { m with exchange := e' }).1 = (run w fuel m).1 ∧
      (run w fuel { m with exchange := e' }).2.trace = (run w fuel m).2.trace := by
  refine ⟨{ m.exchange with payload := [] }, ?_, fun fuel => ?_⟩
  · rw [newExchangeFromSnapshot, unmarshal, hw _ _ hd]
    rfl
  · rcases hs with hs | hs
    · show (run w fuel m.erase).1 = _ ∧ (run w fuel m.erase).2.trace = _
      rw [run_erase w fuel m hs]
      exact ⟨rfl, rfl⟩
    · have he : { m with exchange := { m.exchange with payload := [] } } = m := by rw [← hs]
      rw [he]
      exact ⟨rfl, rfl⟩

theorem resume_runs_alike_sample :
    let m := (run snapshotWorld 0 payloadMachine).2
    snapshotWorld.RoundTrips ∧ m.exchange.payload = [9] ∧
      (run snapshotWorld 1 m).1 = some .completed ∧
      (m.exchange.status ≠ initialState ∨ m.exchange.payload = []) ∧
      m.exchange.marshal snapshotWorld = .ok [1] ∧
      ∃ e', newExchangeFromSnapshot snapshotWorld [1] = .ok e' ∧ ∀ fuel,
        (run snapshotWorld fuel { m with exchange := e' }).1 = (run snapshotWorld fuel m).1 ∧
        (run snapshotWorld fuel { m with exchange := e' }).2.trace =
          (run snapshotWorld fuel m).2.trace :=
  ⟨World.knowing_roundTrips _ _ _ _, by decide, by decide, .inl (by decide), rfl,
    resume_runs_alike (World.knowing_roundTrips _ _ _ _) _ (.inl (by decide)) rfl⟩

def sentT1Payload : Event → Option Bytes
  | .query (.sendT1 _ t1) _ => some t1
  | _ => none

/-- Resuming before the T1 is not invisible: in the sample world, whose T1 is the payload
itself, a fresh exchange with payload `[1]` sends the T1 `[1]`, and the exchange rebuilt from
its snapshot sends `[]`. -/
theorem resume_before_t1_differs :
    ¬ ∀ w : World, w.RoundTrips → ∀ m, Reachable w m → ∀ data,
      m.exchange.marshal w = .ok data → ∃ e', newExchangeFromSnapshot w data = .ok e' ∧ ∀ fuel,
        (run w fuel { m with exchange := e' }).1 = (run w fuel m).1 ∧
        (run w fuel { m with exchange := e' }).2.trace = (run w fuel m).2.trace := by
  intro h
  obtain ⟨e', he, hrun⟩ := h (World.sample sampleExchange.toSerializable)
    (World.sample_roundTrips _) ⟨{ sampleExchange with payload := [1] }, 0, []⟩
    ⟨⟨{ sampleExchange with payload := [1] }, 0, []⟩, ⟨rfl, [1], 0, [], [], 0, rfl⟩, .refl⟩
    [] (if_pos rfl)
  cases he
  exact absurd (congrArg (List.filterMap sentT1Payload) (hrun 0).2) (by decide)

end Reunion.Client
