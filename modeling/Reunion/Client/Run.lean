import Reunion.Client.Spec

/-! # Runs of the exchange

`Run` strings the methods together; a property that each of them keeps is kept by every
run (`RunInvariant.run`). The host may invoke `Run` any number of times on one object, and
may replace the object by `NewExchangeFromSnapshot` of its own `Marshal`; `Reachable` and
`Resumable` are the states these moves reach from `NewExchange`.
-/

namespace Reunion.Client

section
variable (w : World)

theorem sendT2Messages_frame (m : Machine) :
    ∃ alphas sent replied, (sendT2Messages w m).2.exchange =
      { m.exchange with receivedT1Alphas := alphas, sentT2Map := sent, repliedT1s := replied } :=
  sendT2Messages_preserves w m
    (P := fun e _ => ∃ alphas sent replied, e = { m.exchange with
      receivedT1Alphas := alphas, sentT2Map := sent, repliedT1s := replied })
    (fun _ _ _ _ _ _ _ _ _ _ he _ _ _ _ _ _ => by
      obtain ⟨_, _, _, rfl⟩ := he; dsimp only; split <;> exact ⟨_, _, _, rfl⟩)
    ⟨_, _, _, rfl⟩

theorem sendT3Messages_frame (m : Machine) :
    ∃ betas replied, (sendT3Messages w m).2.exchange =
      { m.exchange with decryptedT1Betas := betas, repliedT2s := replied } :=
  sendT3Messages_preserves w m
    (P := fun e _ => ∃ betas replied, e = { m.exchange with
      decryptedT1Betas := betas, repliedT2s := replied })
    (fun _ _ _ _ _ _ _ _ _ _ _ _ _ he _ _ _ _ _ _ _ _ _ => by
      obtain ⟨_, _, rfl⟩ := he; dsimp only; split <;> exact ⟨_, _, rfl⟩)
    ⟨_, _, rfl⟩

theorem checkpoint_of_marshal_ok {m : Machine} {serialized : Bytes}
    (h : m.exchange.marshal w = .ok serialized) :
    checkpoint w m = (if w.shutdown m.clock then some .shutdown else none,
      (m.emit ⟨m.exchange.contactID, none, some serialized, none⟩).tick) := by
  unfold checkpoint sentUpdateOK shouldStop
  simp only [h]
  split_ifs with hs <;> simp [hs]

theorem checkpoint_of_marshal_error {m : Machine} {err : String}
    (h : m.exchange.marshal w = .error err) :
    checkpoint w m =
      (some .marshalFailed, m.emit ⟨m.exchange.contactID, some err, none, none⟩) := by
  unfold checkpoint sentUpdateOK
  simp only [h]

theorem checkpoint_exchange (m : Machine) : (checkpoint w m).2.exchange = m.exchange := by
  rcases h : m.exchange.marshal w with err | serialized
  · rw [checkpoint_of_marshal_error w h]; rfl
  · rw [checkpoint_of_marshal_ok w h]; rfl

theorem checkpoint_trace (m : Machine) :
    ∃ u : ReunionUpdate, (checkpoint w m).2.trace = .update u :: m.trace ∧
      u.contactID = m.exchange.contactID ∧ u.result = none ∧
      ((checkpoint w m).1 = some .marshalFailed ↔ u.error ≠ none) := by
  rcases h : m.exchange.marshal w with err | serialized
  · rw [checkpoint_of_marshal_error w h]; exact ⟨_, rfl, rfl, rfl, by simp⟩
  · rw [checkpoint_of_marshal_ok w h]
    exact ⟨_, rfl, rfl, rfl, by split_ifs <;> simp⟩

theorem sendT2Messages_status (m : Machine) :
    (sendT2Messages w m).2.exchange.status = m.exchange.status := by
  obtain ⟨_, _, _, h⟩ := sendT2Messages_frame w m; rw [h]

theorem sendT3Messages_status (m : Machine) :
    (sendT3Messages w m).2.exchange.status = m.exchange.status := by
  obtain ⟨_, _, h⟩ := sendT3Messages_frame w m; rw [h]

theorem fetchState_status (m : Machine) :
    (fetchState w m).2.exchange.status = m.exchange.status := by
  obtain ⟨_, _, _, _, h, -⟩ := fetchState_spec w m; rw [h]

end

/-- A property of the exchange and of its history that every step of `Run` keeps. -/
structure RunInvariant (w : World) (P : Exchange → List Event → Prop) : Prop where
  after_sendT1 : ∀ m : Machine, m.exchange.status = initialState → P m.exchange m.trace →
    P (if (sendT1 w m).1 then { (sendT1 w m).2.exchange with status := t1MessageSentState }
      else (sendT1 w m).2.exchange) (sendT1 w m).2.trace
  after_emit : ∀ e tr (u : ReunionUpdate), u.result = none → P e tr → P e (.update u :: tr)
  after_fetchState : ∀ m : Machine, m.exchange.status = t1MessageSentState →
    P m.exchange m.trace → P (fetchState w m).2.exchange (fetchState w m).2.trace
  after_sendT2Messages : ∀ m : Machine, m.exchange.status = t1MessageSentState →
    P m.exchange m.trace → P (sendT2Messages w m).2.exchange (sendT2Messages w m).2.trace
  after_sendT3Messages : ∀ m : Machine, m.exchange.status = t1MessageSentState →
    P m.exchange m.trace → P (sendT3Messages w m).2.exchange (sendT3Messages w m).2.trace
  after_processT3Messages : ∀ m : Machine, P m.exchange m.trace →
    P (processT3Messages w m).2.exchange (processT3Messages w m).2.trace

namespace RunInvariant

variable {w : World} {P : Exchange → List Event → Prop}

theorem after_checkpoint (hP : RunInvariant w P) (m : Machine) (hm : P m.exchange m.trace) :
    P (checkpoint w m).2.exchange (checkpoint w m).2.trace := by
  obtain ⟨u, hu, -, hr, -⟩ := checkpoint_trace w m
  rw [checkpoint_exchange, hu]
  exact hP.after_emit _ _ u hr hm

theorem after_pass (hP : RunInvariant w P) {f : Machine → Bool × Machine}
    (hf : ∀ m : Machine, m.exchange.status = t1MessageSentState → P m.exchange m.trace →
      P (f m).2.exchange (f m).2.trace)
    (hfs : ∀ m, (f m).2.exchange.status = m.exchange.status) {m m' : Machine}
    {halt : Option Halt} (hc : checkpoint w (f m).2 = (halt, m'))
    (hs : m.exchange.status = t1MessageSentState) (hm : P m.exchange m.trace) :
    m'.exchange.status = t1MessageSentState ∧ P m'.exchange m'.trace := by
  have h := hP.after_checkpoint _ (hf m hs hm)
  have hs' := checkpoint_exchange w (f m).2
  rw [hc] at h hs'
  exact ⟨by rw [hs', hfs, hs], h⟩

theorem runLoop (hP : RunInvariant w P) :
    ∀ (fuel : Nat) (m : Machine), m.exchange.status = t1MessageSentState →
      P m.exchange m.trace → P (runLoop w fuel m).2.exchange (runLoop w fuel m).2.trace := by
  intro fuel
  induction fuel with
  | zero => exact fun _ _ h => h
  | succ fuel ih =>
    intro m hs hm
    have h₁ := hP.after_fetchState m hs hm
    have hs₁ := (fetchState_status w m).trans hs
    rw [Reunion.Client.runLoop]
    rcases hf : fetchState w m with ⟨_ | ⟨⟩, m₁⟩ <;> rw [hf] at h₁ hs₁ <;> dsimp only
    · exact h₁
    rcases hc : checkpoint w (sendT2Messages w m₁).2 with ⟨_ | _, m₂⟩ <;> dsimp only <;>
      obtain ⟨hs₂, h₂⟩ :=
        hP.after_pass hP.after_sendT2Messages (sendT2Messages_status w) hc hs₁ h₁
    · rcases hc' : checkpoint w (sendT3Messages w m₂).2 with ⟨_ | _, m₃⟩ <;> dsimp only <;>
        obtain ⟨hs₃, h₃⟩ :=
          hP.after_pass hP.after_sendT3Messages (sendT3Messages_status w) hc' hs₂ h₂
      · have h₄ := hP.after_processT3Messages _ h₃
        have he := processT3Messages_exchange w m₃
        rcases hp : processT3Messages w m₃ with ⟨_ | _, m₄⟩ <;> rw [hp] at h₄ he <;>
          dsimp only
        · exact ih m₄ (he ▸ hs₃) h₄
        · exact h₄
      · exact h₃
    · exact h₂

theorem run (hP : RunInvariant w P) (fuel : Nat) (m : Machine) (hm : P m.exchange m.trace) :
    P (run w fuel m).2.exchange (run w fuel m).2.trace := by
  rw [Reunion.Client.run]
  split_ifs with h₀ h₁
  · have h := hP.after_sendT1 m h₀ hm
    rcases hs : sendT1 w m with ⟨_ | _, m₁⟩ <;> rw [hs] at h <;> dsimp only at h ⊢
    · exact h
    have h₂ :=
      hP.after_checkpoint (m₁.modify fun e => { e with status := t1MessageSentState }) h
    have he := checkpoint_exchange w (m₁.modify fun e => { e with status := t1MessageSentState })
    rcases hc : checkpoint w (m₁.modify fun e => { e with status := t1MessageSentState })
      with ⟨_ | _, m₂⟩ <;> rw [hc] at h₂ he <;> dsimp only
    · exact hP.runLoop fuel _ (by rw [he]; rfl) h₂
    · exact h₂
  · exact hP.runLoop fuel m h₁ hm
  · exact hP.after_emit _ _ _ rfl hm

end RunInvariant

/-- A fresh exchange as `NewExchange` returns it, before anything was sent. -/
def Initial (w : World) (m : Machine) : Prop :=
  m.trace = [] ∧ ∃ payload contactID passphrase sharedRandomValue epoch,
    newExchange w payload contactID passphrase sharedRandomValue epoch = .ok m.exchange

/-- The host invokes `Run`, which has returned or is still looping after `fuel` iterations. -/
def RunStep (w : World) (m m' : Machine) : Prop := ∃ fuel, (run w fuel m).2 = m'

/-- The host invokes `Run`, or replaces the object by `NewExchangeFromSnapshot` of the
bytes its `Marshal` returns. -/
inductive HostStep (w : World) : Machine → Machine → Prop
  | run {m m' : Machine} : RunStep w m m' → HostStep w m m'
  | resume (m : Machine) {data : Bytes} {e : Exchange} : m.exchange.marshal w = .ok data →
      newExchangeFromSnapshot w data = .ok e → HostStep w m { m with exchange := e }

/-- The states `Run` invocations reach from `NewExchange`. -/
def Reachable (w : World) (m : Machine) : Prop :=
  ∃ m₀, Initial w m₀ ∧ Relation.ReflTransGen (RunStep w) m₀ m

/-- The states reached when the object may also be rebuilt from its snapshots. -/
def Resumable (w : World) (m : Machine) : Prop :=
  ∃ m₀, Initial w m₀ ∧ Relation.ReflTransGen (HostStep w) m₀ m

theorem Reachable.resumable {w : World} {m : Machine} (h : Reachable w m) : Resumable w m := by
  obtain ⟨m₀, h₀, hs⟩ := h
  exact ⟨m₀, h₀, hs.mono fun _ _ => HostStep.run⟩

theorem newExchangeFromSnapshot_marshal {w : World} (hw : w.RoundTrips) {e e' : Exchange}
    {data : Bytes} (h : e.marshal w = .ok data) (h' : newExchangeFromSnapshot w data = .ok e') :
    e' = { e with payload := [] } := by
  rw [newExchangeFromSnapshot, unmarshal, hw _ _ h] at h'
  cases h'
  rfl

/-! ## A world that meets every assumption

Its codec stores the one snapshot `s₀` and refuses every other, so it round-trips; its crypto
outcomes do not depend on the clock. -/

def hashKey (b : UInt8) : ExchangeHash := ⟨List.replicate 32 b, List.length_replicate _ _⟩

def World.sample (s₀ : SerializableExchange) : World where
  sha256 b := hashKey (b.headD 0)
  newSession _ _ epoch := .ok ⟨epoch, []⟩
  marshalExchange s := if s = s₀ then .ok [] else .error "unsupported snapshot"
  unmarshalExchange data := if data = [] then .ok s₀ else .error "unknown snapshot"
  unmarshalState _ := .error "no state"
  query _ _ := .error "offline"
  shutdown _ := false
  crypto _ :=
    { generateType1Message := fun _ payload => .ok payload
      decodeT1Message := fun t1 => .ok (t1, t1, t1)
      processType1MessageAlpha := fun _ alpha => .ok (alpha, ⟨alpha⟩)
      getCandidateKey := fun _ t2 _ => .ok t2
      decryptT1Beta := fun _ beta => .ok ⟨beta⟩
      composeType3Message := fun _ beta => .ok beta.key
      processType3Message := fun _ t3 _ _ => .ok t3 }
  order _ l := l
  order_perm _ l := List.Perm.refl l

theorem World.sample_roundTrips (s₀ : SerializableExchange) : (World.sample s₀).RoundTrips := by
  intro s data h
  simp only [World.sample] at h ⊢
  split_ifs at h with hs
  cases h
  simp [hs]

theorem World.sample_deterministic (s₀ : SerializableExchange) :
    (World.sample s₀).Deterministic := fun _ => rfl

/-- The exchange `NewExchange` builds in the sample world for an empty payload. -/
def sampleExchange : Exchange :=
  { status := initialState, contactID := 0, session := ⟨0, []⟩, payload := [], sentT1 := [],
    sentT2Map := ∅, receivedT1s := ∅, receivedT2s := ∅, receivedT3s := ∅, repliedT1s := ∅,
    repliedT2s := ∅, receivedT1Alphas := ∅, decryptedT1Betas := ∅ }

def acceptingBoard : Nat → Command → Except String Response
  | _, .fetchState .. => .ok (.stateResponse 0 false [])
  | _, _ => .ok (.messageResponse 0)

/-- The sample world in front of an accepting board whose state decodes to `state`, with a
codec that snapshots every exchange. -/
def World.board (state : RequestedReunionState) : World :=
  { World.sample sampleExchange.toSerializable with
    marshalExchange := fun _ => .ok []
    unmarshalState := fun _ => .ok state
    query := acceptingBoard }

section
variable (state : RequestedReunionState) (n : Nat)

theorem World.board_decodeT1Message (t1 : Bytes) :
    ∃ r, ((World.board state).crypto n).decodeT1Message t1 = .ok r := ⟨(t1, t1, t1), rfl⟩

theorem World.board_processType1MessageAlpha (s : Session) (alpha : Bytes) :
    ∃ r, ((World.board state).crypto n).processType1MessageAlpha s alpha = .ok r :=
  ⟨(alpha, ⟨alpha⟩), rfl⟩

theorem World.board_getCandidateKey (s : Session) (t2 : Bytes) (pk : PublicKey) :
    ∃ k, ((World.board state).crypto n).getCandidateKey s t2 pk = .ok k := ⟨t2, rfl⟩

theorem World.board_decryptT1Beta (k β : Bytes) :
    ∃ beta, ((World.board state).crypto n).decryptT1Beta k β = .ok beta := ⟨⟨β⟩, rfl⟩

theorem World.board_composeType3Message (s : Session) (beta : PublicKey) :
    ∃ t3, ((World.board state).crypto n).composeType3Message s beta = .ok t3 := ⟨beta.key, rfl⟩

theorem World.board_accepts_sendT2 (epoch : UInt64) (src dst : ExchangeHash) (t2 : Bytes) :
    accepted ((World.board state).query n (.sendT2 epoch src dst t2)) = true := rfl

theorem World.board_accepts_sendT3 (epoch : UInt64) (src dst : ExchangeHash) (t3 : Bytes) :
    accepted ((World.board state).query n (.sendT3 epoch src dst t3)) = true := rfl

end

/-- A board that files two peers, each with a T1 (`[1]`, `[2]`), a T2 (`[3]`, `[4]`) and a
T3 (`[5]`, `[6]`) that open. -/
def twoPeerWorld : World :=
  World.board ⟨(AList.singleton (hashKey 1) [1]).insert (hashKey 2) [2],
    [⟨hashKey 1, [3], []⟩, ⟨hashKey 2, [4], []⟩,
      ⟨hashKey 1, [], [5]⟩, ⟨hashKey 2, [], [6]⟩]⟩

/-! ## A codec that knows the snapshots of one run

`World.sample` compares snapshots with the equality of `AList`, which the kernel does not
evaluate; `SerializableExchange.same` compares the maps through their entries instead. -/

/-- The snapshots agree field by field, the maps entry by entry. -/
def SerializableExchange.same (s t : SerializableExchange) : Bool :=
  decide (s.contactID = t.contactID ∧ s.status = t.status ∧ s.session = t.session ∧
    s.sentT1 = t.sentT1 ∧ s.sentT2Map.entries = t.sentT2Map.entries ∧
    s.receivedT1s.entries = t.receivedT1s.entries ∧
    s.receivedT2s.entries = t.receivedT2s.entries ∧
    s.receivedT3s.entries = t.receivedT3s.entries ∧
    s.repliedT1s.entries = t.repliedT1s.entries ∧ s.repliedT2s.entries = t.repliedT2s.entries ∧
    s.receivedT1Alphas.entries = t.receivedT1Alphas.entries ∧
    s.decryptedT1Betas.entries = t.decryptedT1Betas.entries)

theorem SerializableExchange.eq_of_same {s t : SerializableExchange} (h : s.same t = true) :
    s = t := by
  obtain ⟨h₁, h₂, h₃, h₄, h₅, h₆, h₇, h₈, h₉, h₁₀, h₁₁, h₁₂⟩ := of_decide_eq_true h
  cases s
  cases t
  simp only [SerializableExchange.mk.injEq]
  exact ⟨h₁, h₂, h₃, h₄, AList.ext h₅, AList.ext h₆, AList.ext h₇, AList.ext h₈, AList.ext h₉,
    AList.ext h₁₀, AList.ext h₁₁, AList.ext h₁₂⟩

/-- `w` with a codec that knows the snapshots `s₁`, `s₂` and `s₃`, as `[1]`, `[2]` and `[3]`,
and refuses every other. -/
def World.knowing (w : World) (s₁ s₂ s₃ : SerializableExchange) : World :=
  { w with
    marshalExchange := fun s =>
      if s.same s₁ then .ok [1] else if s.same s₂ then .ok [2] else if s.same s₃ then .ok [3]
      else .error "unknown snapshot"
    unmarshalExchange := fun data =>
      if data = [1] then .ok s₁ else if data = [2] then .ok s₂ else if data = [3] then .ok s₃
      else .error "unknown snapshot" }

theorem World.knowing_roundTrips (w : World) (s₁ s₂ s₃ : SerializableExchange) :
    (w.knowing s₁ s₂ s₃).RoundTrips := by
  intro s data h
  simp only [World.knowing] at h ⊢
  split_ifs at h with h₁ h₂ h₃ <;> cases h
  · rw [SerializableExchange.eq_of_same h₁]
    rfl
  · rw [SerializableExchange.eq_of_same h₂]
    rfl
  · rw [SerializableExchange.eq_of_same h₃]
    rfl

def twoPeerRun : Machine := (run twoPeerWorld 1 ⟨sampleExchange, 0, []⟩).2

theorem twoPeerRun_reachable : Reachable twoPeerWorld twoPeerRun :=
  ⟨⟨sampleExchange, 0, []⟩, ⟨rfl, [], 0, [], [], 0, rfl⟩, .single ⟨1, rfl⟩⟩

def payloadMachine : Machine := ⟨{ sampleExchange with payload := [9] }, 0, []⟩

def payloadSnapshots : SerializableExchange × SerializableExchange × SerializableExchange :=
  let m₁ := (run twoPeerWorld 0 payloadMachine).2
  let m₂ := (sendT2Messages twoPeerWorld (fetchState twoPeerWorld m₁).2).2
  let m₃ := (sendT3Messages twoPeerWorld (checkpoint twoPeerWorld m₂).2).2
  (m₁.exchange.toSerializable, m₂.exchange.toSerializable, m₃.exchange.toSerializable)

def snapshotWorld : World :=
  twoPeerWorld.knowing payloadSnapshots.1 payloadSnapshots.2.1 payloadSnapshots.2.2

def resumedRun : Machine :=
  (run snapshotWorld 1 { (run snapshotWorld 1 payloadMachine).2 with
    exchange := payloadSnapshots.2.2.toExchange [] }).2

theorem payloadMachine_resumes :
    Relation.ReflTransGen (HostStep snapshotWorld) payloadMachine resumedRun :=
  .tail (.tail (.single (.run ⟨1, rfl⟩)) (.resume _ rfl rfl)) (.run ⟨1, rfl⟩)

theorem resumedRun_resumable : Resumable snapshotWorld resumedRun :=
  ⟨payloadMachine, ⟨rfl, [9], 0, [], [], 0, rfl⟩, payloadMachine_resumes⟩

end Reunion.Client
