import Reunion.Client.Updates

/-! # Opening the T3s

With crypto outcomes that depend on their inputs alone, `processT3Messages` returns true
exactly when some T3 has a beta key and every T3 with a beta key opens, whatever order it
visits them in (`processT3Messages_iff`): one T3 that fails ends the pass with false, before
or after one that opens (`processT3Messages_stops_at_failing_t3`). The pass the specification
describes skips a T3 that fails and stops at the first that opens, so it returns true
exactly when some T3 opens (`processT3MessagesReference_iff`).
-/

namespace Reunion.Client

/-- The T3 `t3` filed under `h` opens: `h` has a beta key and a T1 that decodes, and
`ProcessType3Message` accepts `t3` with that T1's gamma and that beta key. -/
def T3Opens (c : Crypto) (e : Exchange) (h : ExchangeHash) (t3 : Bytes) : Prop :=
  ∃ beta t1 α β γ plaintext, e.decryptedT1Betas.lookup h = some beta ∧
    e.receivedT1s.lookup h = some t1 ∧ c.decodeT1Message t1 = .ok (α, β, γ) ∧
    c.processType3Message e.session t3 γ beta = .ok plaintext

section
variable (w : World)

/-- One entry of the specified `processT3Messages`: skip a T3 without a beta key, without
its T1, whose T1 does not decode or that does not open; emit the result of one that opens. -/
def processT3ReferenceBody : Entry → Machine → Flow
  | ⟨srcT1Hash, t3⟩, m =>
    match m.exchange.decryptedT1Betas.lookup srcT1Hash with
    | none => .next m
    | some beta =>
      match m.exchange.receivedT1s.lookup srcT1Hash with
      | none => .next m
      | some t1 =>
        match w.call m fun c => c.decodeT1Message t1 with
        | (.error _, m) => .next m
        | (.ok (_, _, gamma), m) =>
          match w.call m fun c => c.processType3Message m.exchange.session t3 gamma beta with
          | (.error _, m) => .next m
          | (.ok plaintext, m) =>
            .mark (m.emit ⟨m.exchange.contactID, none, none, some plaintext⟩)

/-- A `range` loop that ends at the first body that sets its flag. -/
def firstMark (body : Entry → Machine → Flow) : List Entry → Machine → Bool × Machine
  | [], m => (false, m)
  | x :: xs, m =>
    match body x m with
    | .next m => firstMark body xs m
    | .mark m => (true, m)
    | .exit m => (false, m)

/-- `processT3Messages` as the specification describes it. -/
def processT3MessagesReference (m : Machine) : Bool × Machine :=
  firstMark (processT3ReferenceBody w) (w.order m.clock m.exchange.receivedT3s.entries) m.tick

end

theorem t3Opens_iff {c : Crypto} {e : Exchange} {h : ExchangeHash} {t3 : Bytes}
    {beta : PublicKey} {t1 : Bytes} (hb : e.decryptedT1Betas.lookup h = some beta)
    (h₁ : e.receivedT1s.lookup h = some t1) :
    T3Opens c e h t3 ↔ ∃ α β γ plaintext, c.decodeT1Message t1 = .ok (α, β, γ) ∧
      c.processType3Message e.session t3 γ beta = .ok plaintext := by
  simp only [T3Opens, hb, h₁, Option.some.injEq, exists_and_left, exists_eq_left']

theorem T3Opens.mem {c : Crypto} {e : Exchange} {h : ExchangeHash} {t3 : Bytes}
    (ho : T3Opens c e h t3) : h ∈ e.decryptedT1Betas := by
  obtain ⟨beta, -, -, -, -, -, hb, -⟩ := ho
  exact AList.lookup_isSome.1 (by rw [hb]; rfl)

theorem processT3ReferenceBody_eq (w : World) (x : Entry) (m : Machine) :
    processT3ReferenceBody w x m =
      match processT3Body w x m with
      | .exit m => .next m
      | f => f := by
  obtain ⟨src, t3⟩ := x
  simp only [processT3ReferenceBody, processT3Body, World.call, Machine.tick]
  rcases m.exchange.decryptedT1Betas.lookup src with _ | beta
  · rfl
  rcases m.exchange.receivedT1s.lookup src with _ | t1
  · rfl
  dsimp only
  rcases (w.crypto m.clock).decodeT1Message t1 with _ | ⟨_, _, γ⟩
  · rfl
  dsimp only
  rcases (w.crypto (m.clock + 1)).processType3Message m.exchange.session t3 γ beta
    with _ | p <;> rfl

section
variable {w : World} (hw : w.Deterministic)
include hw

theorem processT3Body_outcome (src : ExchangeHash) (t3 : Bytes) (m : Machine) :
    (src ∉ m.exchange.decryptedT1Betas ∧ processT3Body w ⟨src, t3⟩ m = .next m) ∨
    (T3Opens (w.crypto 0) m.exchange src t3 ∧
      ∃ m', processT3Body w ⟨src, t3⟩ m = .mark m' ∧ m'.exchange = m.exchange) ∨
    (src ∈ m.exchange.decryptedT1Betas ∧ ¬ T3Opens (w.crypto 0) m.exchange src t3 ∧
      ∃ m', processT3Body w ⟨src, t3⟩ m = .exit m' ∧ m'.exchange = m.exchange) := by
  rw [processT3Body]
  rcases hb : m.exchange.decryptedT1Betas.lookup src with _ | beta
  · exact .inl ⟨AList.lookup_eq_none.1 hb, rfl⟩
  have hmem : src ∈ m.exchange.decryptedT1Betas := AList.lookup_isSome.1 (by rw [hb]; rfl)
  rcases h₁ : m.exchange.receivedT1s.lookup src with _ | t1
  · exact .inr (.inr ⟨hmem, by simp [T3Opens, h₁], m, rfl, rfl⟩)
  simp only [World.call, hw m.clock]
  rcases hd : (w.crypto 0).decodeT1Message t1 with _ | ⟨α, β, γ⟩ <;> dsimp only
  · exact .inr (.inr ⟨hmem, by simp [t3Opens_iff hb h₁, hd], _, rfl, rfl⟩)
  simp only [Machine.tick_clock, Machine.tick_exchange, hw (m.clock + 1)]
  rcases hp : (w.crypto 0).processType3Message m.exchange.session t3 γ beta with _ | p
  · exact .inr (.inr ⟨hmem, by simp [t3Opens_iff hb h₁, hd, hp], _, rfl, rfl⟩)
  · exact .inr (.inl ⟨⟨beta, t1, α, β, γ, p, hb, h₁, hd, hp⟩, _, rfl, rfl⟩)

theorem processT3ReferenceBody_outcome (src : ExchangeHash) (t3 : Bytes) (m : Machine) :
    (¬ T3Opens (w.crypto 0) m.exchange src t3 ∧
      ∃ m', processT3ReferenceBody w ⟨src, t3⟩ m = .next m' ∧ m'.exchange = m.exchange) ∨
    (T3Opens (w.crypto 0) m.exchange src t3 ∧
      ∃ m', processT3ReferenceBody w ⟨src, t3⟩ m = .mark m' ∧ m'.exchange = m.exchange) := by
  rw [processT3ReferenceBody_eq]
  rcases processT3Body_outcome hw src t3 m with ⟨hn, hb⟩ | ⟨ho, m', hb, he⟩ |
    ⟨-, hno, m', hb, he⟩ <;> rw [hb]
  · exact .inl ⟨fun ho => hn ho.mem, m, rfl, rfl⟩
  · exact .inr ⟨ho, m', rfl, he⟩
  · exact .inl ⟨hno, m', rfl, he⟩

theorem processT3Loop_iff (e : Exchange) (xs : List Entry) : ∀ (flag : Bool) (m : Machine),
    m.exchange = e → ((rangeLoop (processT3Body w) xs flag m).1 = true ↔
      (flag = true ∨ ∃ x ∈ xs, x.1 ∈ e.decryptedT1Betas) ∧
        ∀ x ∈ xs, x.1 ∈ e.decryptedT1Betas → T3Opens (w.crypto 0) e x.1 x.2) := by
  induction xs with
  | nil => intro flag m _; simp [rangeLoop]
  | cons x xs ih =>
    intro flag m hm
    obtain ⟨src, t3⟩ := x
    subst hm
    rw [rangeLoop]
    rcases processT3Body_outcome hw src t3 m with ⟨hn, hb⟩ | ⟨ho, m', hb, he⟩ |
      ⟨hmem, hno, m', hb, he⟩ <;> rw [hb] <;> dsimp only
    · rw [ih flag m rfl]
      simp [hn]
    · rw [ih true m' he]
      simp [ho, ho.mem]
    · simp [hmem, hno]

theorem firstMark_processT3_iff (e : Exchange) (xs : List Entry) : ∀ m : Machine,
    m.exchange = e → ((firstMark (processT3ReferenceBody w) xs m).1 = true ↔
      ∃ x ∈ xs, T3Opens (w.crypto 0) e x.1 x.2) := by
  induction xs with
  | nil => intro m _; simp [firstMark]
  | cons x xs ih =>
    intro m hm
    obtain ⟨src, t3⟩ := x
    subst hm
    rw [firstMark]
    rcases processT3ReferenceBody_outcome hw src t3 m with ⟨hno, m', hb, he⟩ |
      ⟨ho, m', hb, he⟩ <;> rw [hb] <;> dsimp only
    · rw [ih m' he]
      simp [hno]
    · simp [ho]

end

theorem mem_order_iff (w : World) (n : Nat) (s : ExchangeMap Bytes) (x : Entry) :
    x ∈ w.order n s.entries ↔ s.lookup x.1 = some x.2 :=
  (w.order_perm n _).mem_iff.trans AList.mem_lookup_iff.symm

/-! ## A T3 that fails beside one that opens -/

/-- The world `w` visiting every map in reverse order. -/
def World.reversed (w : World) : World :=
  { w with order := fun _ l => l.reverse, order_perm := fun _ l => List.reverse_perm l }

/-- The board world with a `ProcessType3Message` that rejects an empty T3, as a failed MAC
check would. -/
def macWorld : World :=
  { World.board ⟨∅, []⟩ with
    crypto := fun n => { (World.board ⟨∅, []⟩).crypto n with
      processType3Message := fun _ t3 _ _ => if t3 = [] then .error "MAC" else .ok t3 } }

theorem macWorld_deterministic : macWorld.Deterministic := fun _ => rfl

def macMachine : Machine :=
  ⟨{ sampleExchange with
      status := t1MessageSentState
      receivedT1s := (AList.singleton (hashKey 2) [2]).insert (hashKey 1) [1]
      receivedT3s := (AList.singleton (hashKey 2) [6]).insert (hashKey 1) []
      decryptedT1Betas := (AList.singleton (hashKey 2) ⟨[2]⟩).insert (hashKey 1) ⟨[1]⟩ },
    0, []⟩

/-! ## The pass -/

section
variable {w : World} (hw : w.Deterministic)
include hw

/-- With deterministic crypto, and whatever order it visits them in, `processT3Messages`
returns true exactly when some T3 has a beta key and every T3 with a beta key opens. -/
theorem processT3Messages_iff (m : Machine) :
    (processT3Messages w m).1 = true ↔
      (∃ h t3, m.exchange.receivedT3s.lookup h = some t3 ∧ h ∈ m.exchange.decryptedT1Betas) ∧
      ∀ h t3, m.exchange.receivedT3s.lookup h = some t3 → h ∈ m.exchange.decryptedT1Betas →
        T3Opens (w.crypto 0) m.exchange h t3 := by
  rw [processT3Messages, rangeOver, processT3Loop_iff hw m.exchange _ false m.tick rfl]
  simp only [Bool.false_eq_true, false_or]
  constructor
  · rintro ⟨⟨x, hx, hb⟩, hall⟩
    exact ⟨⟨x.1, x.2, (mem_order_iff w _ _ x).1 hx, hb⟩,
      fun h t3 hl hb => hall ⟨h, t3⟩ ((mem_order_iff w _ _ _).2 hl) hb⟩
  · rintro ⟨⟨h, t3, hl, hb⟩, hall⟩
    exact ⟨⟨⟨h, t3⟩, (mem_order_iff w _ _ _).2 hl, hb⟩,
      fun x hx hb => hall x.1 x.2 ((mem_order_iff w _ _ x).1 hx) hb⟩

end

theorem processT3Messages_iff_mac :
    macWorld.Deterministic ∧
      ((processT3Messages macWorld macMachine).1 = true ↔
        (∃ h t3, macMachine.exchange.receivedT3s.lookup h = some t3 ∧
          h ∈ macMachine.exchange.decryptedT1Betas) ∧
        ∀ h t3, macMachine.exchange.receivedT3s.lookup h = some t3 →
          h ∈ macMachine.exchange.decryptedT1Betas →
            T3Opens (macWorld.crypto 0) macMachine.exchange h t3) :=
  ⟨macWorld_deterministic, processT3Messages_iff macWorld_deterministic macMachine⟩

section
variable {w : World} (hw : w.Deterministic)
include hw

/-- With deterministic crypto, and whatever order it visits them in, the specified pass
returns true exactly when some T3 opens. -/
theorem processT3MessagesReference_iff (m : Machine) :
    (processT3MessagesReference w m).1 = true ↔
      ∃ h t3, m.exchange.receivedT3s.lookup h = some t3 ∧
        T3Opens (w.crypto 0) m.exchange h t3 := by
  rw [processT3MessagesReference, firstMark_processT3_iff hw m.exchange _ m.tick rfl]
  constructor
  · rintro ⟨x, hx, ho⟩
    exact ⟨x.1, x.2, (mem_order_iff w _ _ x).1 hx, ho⟩
  · rintro ⟨h, t3, hl, ho⟩
    exact ⟨⟨h, t3⟩, (mem_order_iff w _ _ _).2 hl, ho⟩

end

/-- The board of `twoPeerWorld`, with crypto under which the T3 `[5]` of `1…1` does not open. -/
def blockWorld : World :=
  { twoPeerWorld with
    crypto := fun n => { twoPeerWorld.crypto n with
      processType3Message := fun _ t3 _ _ => if t3 = [5] then .error "MAC" else .ok t3 } }

def blockRun : Machine := (run blockWorld 1 ⟨sampleExchange, 0, []⟩).2

def blockRunReversed : Machine := (run blockWorld.reversed 1 ⟨sampleExchange, 0, []⟩).2

/-- After one iteration the T3 `[6]` of `2…2` opens in either order, yet the source's pass
returns false in both: visiting `2…2` first it has emitted the result and `Run` loops on,
emitting it again at every pass. The specified pass returns true in both. -/
theorem processT3Messages_stops_at_failing_t3 :
    Reachable blockWorld blockRun ∧ Reachable blockWorld.reversed blockRunReversed ∧
      blockRun.exchange.receivedT3s.lookup (hashKey 2) = some [6] ∧
      T3Opens (blockWorld.crypto 0) blockRun.exchange (hashKey 2) [6] ∧
      T3Opens (blockWorld.crypto 0) blockRunReversed.exchange (hashKey 2) [6] ∧
      (run blockWorld 1 ⟨sampleExchange, 0, []⟩).1 = none ∧ results blockRun.trace = [[6]] ∧
      (processT3Messages blockWorld blockRun).1 = false ∧
      results (processT3Messages blockWorld blockRun).2.trace = [[6], [6]] ∧
      (processT3Messages blockWorld.reversed blockRunReversed).1 = false ∧
      (processT3MessagesReference blockWorld blockRun).1 = true ∧
      (processT3MessagesReference blockWorld.reversed blockRunReversed).1 = true :=
  ⟨⟨⟨sampleExchange, 0, []⟩, ⟨rfl, [], 0, [], [], 0, rfl⟩, .single ⟨1, rfl⟩⟩,
    ⟨⟨sampleExchange, 0, []⟩, ⟨rfl, [], 0, [], [], 0, rfl⟩, .single ⟨1, rfl⟩⟩, by decide,
    ⟨⟨[2]⟩, [2], [2], [2], [2], [6], by decide, by decide, rfl, rfl⟩,
    ⟨⟨[2]⟩, [2], [2], [2], [2], [6], by decide, by decide, rfl, rfl⟩, by decide, by decide,
    by decide, by decide, by decide, by decide, by decide⟩

end Reunion.Client
