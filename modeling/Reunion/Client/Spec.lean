import Reunion.Client.Exchange
import Reunion.Client.SubMap

/-! # What each method can do

One lemma per method of `exchange.go`, saying exactly how it may change the exchange and
what it adds to the history. Later proofs cite these and never unfold the methods. A loop
body is described once, for one entry; `rangeOver_preserves` lifts any property that
every visited body keeps to the whole loop.
-/

namespace Reunion.Client

def Flow.machine : Flow → Machine
  | .next m | .mark m | .exit m => m

/-- The writes of a `sendT2Messages` iteration that reached its query. -/
@[simps] def Exchange.storeT2 (e : Exchange) (t1Hash : ExchangeHash) (alphaPubKey : PublicKey)
    (t2Hash : ExchangeHash) (t2 : Bytes) : Exchange :=
  { e with receivedT1Alphas := e.receivedT1Alphas.insert t1Hash alphaPubKey
           sentT2Map := e.sentT2Map.insert t2Hash t2 }

/-- The write of a `sendT2Messages` iteration whose `SendT2` was accepted. -/
@[simps] def Exchange.replyT1 (e : Exchange) (t1Hash : ExchangeHash) (t1 : Bytes) : Exchange :=
  { e with repliedT1s := e.repliedT1s.insert t1Hash t1 }

/-- The writes of a `sendT3Messages` iteration whose `SendT3` was accepted. -/
@[simps] def Exchange.replyT2 (e : Exchange) (srcT1Hash : ExchangeHash) (beta : PublicKey)
    (t2Hash : ExchangeHash) (t2 : Bytes) : Exchange :=
  { e with decryptedT1Betas := e.decryptedT1Betas.insert srcT1Hash beta
           repliedT2s := e.repliedT2s.insert t2Hash t2 }

section
variable (w : World)

/-! ## Loops -/

theorem rangeLoop_preserves {P : Exchange → List Event → Prop}
    {body : Entry → Machine → Flow}
    {xs : List Entry} (hbody : ∀ x ∈ xs, ∀ m : Machine, P m.exchange m.trace →
      P (body x m).machine.exchange (body x m).machine.trace) :
    ∀ (flag : Bool) (m : Machine), P m.exchange m.trace →
      P (rangeLoop body xs flag m).2.exchange (rangeLoop body xs flag m).2.trace := by
  induction xs with
  | nil => exact fun _ _ h => h
  | cons x xs ih =>
    intro flag m hm
    have hx := hbody x (List.mem_cons_self x xs) m hm
    have ih := ih fun y hy => hbody y (List.mem_cons_of_mem x hy)
    rw [rangeLoop]
    split <;> rename_i h <;> rw [h] at hx
    exacts [ih _ _ hx, ih _ _ hx, hx]

theorem rangeOver_preserves {P : Exchange → List Event → Prop}
    {body : Entry → Machine → Flow}
    {entries : List Entry} (hbody : ∀ x ∈ entries, ∀ m : Machine, P m.exchange m.trace →
      P (body x m).machine.exchange (body x m).machine.trace) (m : Machine)
    (hm : P m.exchange m.trace) :
    P (rangeOver w body entries m).2.exchange (rangeOver w body entries m).2.trace :=
  rangeLoop_preserves (fun x hx => hbody x ((w.order_perm _ _).mem_iff.1 hx)) false m.tick hm

/-! ## Straight-line methods -/

theorem sendT1_spec (m : Machine) :
    ∃ t1, (sendT1 w m).2.exchange = { m.exchange with sentT1 := t1 } ∧
      (((sendT1 w m).1 = false ∧ (sendT1 w m).2.trace = m.trace) ∨
        ((sendT1 w m).2.trace = .query (.sendT1 m.exchange.session.epoch t1)
            (w.query (m.clock + 1) (.sendT1 m.exchange.session.epoch t1)) :: m.trace ∧
          (sendT1 w m).1 =
            accepted (w.query (m.clock + 1) (.sendT1 m.exchange.session.epoch t1)))) := by
  unfold sendT1
  split <;> rename_i h <;> simp only [World.call, Prod.mk.injEq] at h <;> obtain ⟨-, rfl⟩ := h
  · exact ⟨[], rfl, .inl ⟨rfl, rfl⟩⟩
  · exact ⟨_, rfl, .inr ⟨rfl, rfl⟩⟩

theorem mergeT1s_sub (xs : List Entry) (t1s : ExchangeMap Bytes) (hasNew : Bool) :
    SubMap t1s (mergeT1s xs t1s hasNew).1 := by
  induction xs generalizing t1s hasNew with
  | nil => exact SubMap.refl _
  | cons x xs ih =>
    rw [mergeT1s]
    split_ifs with h
    · exact ih _ _
    · exact (subMap_insert h).trans (ih _ _)

theorem mergeMessages_spec (msgs : List T2T3Message) (e : Exchange) (hasNew : Bool) :
    ∃ t2s t3s,
      (mergeMessages msgs e hasNew).2 = { e with receivedT2s := t2s, receivedT3s := t3s } ∧
      SubMap e.receivedT2s t2s ∧ SubMap e.receivedT3s t3s := by
  induction msgs generalizing e hasNew with
  | nil => exact ⟨_, _, rfl, SubMap.refl _, SubMap.refl _⟩
  | cons msg msgs ih =>
    rw [mergeMessages]
    split_ifs with h₁ h₂ h₃ h₄
    · exact ih e hasNew
    · obtain ⟨t2s, t3s, he, h2, h3⟩ := ih { e with receivedT2s := _ } true
      exact ⟨t2s, t3s, he, (subMap_insert h₂).trans h2, h3⟩
    · exact ih e hasNew
    · obtain ⟨t2s, t3s, he, h2, h3⟩ := ih { e with receivedT3s := _ } true
      exact ⟨t2s, t3s, he, h2, (subMap_insert h₄).trans h3⟩
    · exact ⟨_, _, rfl, SubMap.refl _, SubMap.refl _⟩

theorem processState_spec (state : RequestedReunionState) (m : Machine) :
    ∃ t1s t2s t3s,
      (processState w state m).2.exchange =
        { m.exchange with receivedT1s := t1s, receivedT2s := t2s, receivedT3s := t3s } ∧
      SubMap m.exchange.receivedT1s t1s ∧ SubMap m.exchange.receivedT2s t2s ∧
      SubMap m.exchange.receivedT3s t3s ∧ (processState w state m).2.trace = m.trace := by
  obtain ⟨t2s, t3s, he, h2, h3⟩ := mergeMessages_spec state.messages
    { m.exchange with receivedT1s :=
        (mergeT1s (w.order m.clock state.t1Map.entries) m.exchange.receivedT1s false).1 }
    (mergeT1s (w.order m.clock state.t1Map.entries) m.exchange.receivedT1s false).2
  exact ⟨_, t2s, t3s, he, mergeT1s_sub _ _ _, h2, h3, rfl⟩

theorem fetchState_cases (m : Machine) :
    let m' := (w.ask (.fetchState m.exchange.session.epoch (w.sha256 m.exchange.sentT1)) m).2
    (fetchState w m).2 = m' ∨ ∃ state, (fetchState w m).2 = (processState w state m').2 := by
  intro m'
  unfold fetchState
  split <;> rename_i h <;> simp only [World.ask, Prod.mk.injEq] at h <;> obtain ⟨-, rfl⟩ := h
  all_goals
    repeat' split
  all_goals first
    | exact .inl rfl
    | exact .inr ⟨_, by rw [‹processState w _ _ = _›]⟩

theorem fetchState_spec (m : Machine) :
    ∃ t1s t2s t3s r,
      (fetchState w m).2.exchange =
        { m.exchange with receivedT1s := t1s, receivedT2s := t2s, receivedT3s := t3s } ∧
      SubMap m.exchange.receivedT1s t1s ∧ SubMap m.exchange.receivedT2s t2s ∧
      SubMap m.exchange.receivedT3s t3s ∧
      (fetchState w m).2.trace =
        .query (.fetchState m.exchange.session.epoch (w.sha256 m.exchange.sentT1)) r ::
          m.trace := by
  rcases fetchState_cases w m with h | ⟨state, h⟩ <;> rw [h]
  · exact ⟨_, _, _, _, rfl, SubMap.refl _, SubMap.refl _, SubMap.refl _, rfl⟩
  · obtain ⟨t1s, t2s, t3s, he, h1, h2, h3, ht⟩ := processState_spec w state
      (w.ask (.fetchState m.exchange.session.epoch (w.sha256 m.exchange.sentT1)) m).2
    exact ⟨t1s, t2s, t3s, _, he, h1, h2, h3, ht⟩

/-! ## Loop bodies -/

theorem sendT2Body_spec (my t1Hash : ExchangeHash) (t1 : Bytes) (m : Machine) :
    let m' := (sendT2Body w my ⟨t1Hash, t1⟩ m).machine
    (m'.exchange = m.exchange ∧ m'.trace = m.trace) ∨
    ∃ α β γ t2 pk, t1Hash ≠ my ∧ t1Hash ∉ m.exchange.repliedT1s ∧
      (w.crypto m.clock).decodeT1Message t1 = .ok (α, β, γ) ∧
      (w.crypto (m.clock + 1)).processType1MessageAlpha m.exchange.session α = .ok (t2, pk) ∧
      let cmd := Command.sendT2 m.exchange.session.epoch my t1Hash t2
      let e := m.exchange.storeT2 t1Hash pk (w.sha256 t2) t2
      m'.trace = .query cmd (w.query (m.clock + 2) cmd) :: m.trace ∧
      m'.exchange = if accepted (w.query (m.clock + 2) cmd) then e.replyT1 t1Hash t1 else e := by
  rw [sendT2Body]
  by_cases h₁ : t1Hash = my
  · simp [h₁, Flow.machine]
  by_cases h₂ : t1Hash ∈ m.exchange.repliedT1s
  · simp [h₁, h₂, Flow.machine]
  rw [if_neg h₁, if_neg h₂]
  rcases hd : (w.crypto m.clock).decodeT1Message t1 with _ | ⟨α, β, γ⟩
  · simp [World.call, hd, Flow.machine]
  rcases hp : (w.crypto (m.clock + 1)).processType1MessageAlpha m.exchange.session α with
    _ | ⟨t2, pk⟩
  · simp [World.call, hd, hp, Flow.machine]
  refine .inr ⟨α, β, γ, t2, pk, h₁, h₂, rfl, hp, ?_⟩
  simp only [World.call, hd, Machine.tick_exchange, Machine.tick_clock, hp, send, World.ask,
    Machine.modify_exchange, Machine.modify_clock, Machine.modify_trace, Machine.tick_trace,
    Nat.add_assoc, Nat.reduceAdd]
  cases accepted (w.query (m.clock + 2) (.sendT2 m.exchange.session.epoch my t1Hash t2)) <;>
    exact ⟨rfl, rfl⟩

theorem sendT3Body_spec (my src : ExchangeHash) (t2 : Bytes) (m : Machine) :
    let m' := (sendT3Body w my ⟨src, t2⟩ m).machine
    (m'.exchange = m.exchange ∧ m'.trace = m.trace) ∨
    ∃ t1 pk k α β γ beta t3,
      m.exchange.receivedT1s.lookup src = some t1 ∧ w.sha256 t2 ∉ m.exchange.repliedT2s ∧
      m.exchange.receivedT1Alphas.lookup src = some pk ∧
      (w.crypto m.clock).getCandidateKey m.exchange.session t2 pk = .ok k ∧
      (w.crypto (m.clock + 1)).decodeT1Message t1 = .ok (α, β, γ) ∧
      (w.crypto (m.clock + 2)).decryptT1Beta k β = .ok beta ∧
      (w.crypto (m.clock + 3)).composeType3Message m.exchange.session beta = .ok t3 ∧
      let cmd := Command.sendT3 m.exchange.session.epoch my src t3
      m'.trace = .query cmd (w.query (m.clock + 4) cmd) :: m.trace ∧
      m'.exchange = if accepted (w.query (m.clock + 4) cmd) then
        m.exchange.replyT2 src beta (w.sha256 t2) t2 else m.exchange := by
  rw [sendT3Body]
  rcases h₁ : m.exchange.receivedT1s.lookup src with _ | t1
  · simp [Flow.machine]
  by_cases h₂ : w.sha256 t2 ∈ m.exchange.repliedT2s
  · simp [h₂, Flow.machine]
  simp only [if_neg h₂]
  rcases h₃ : m.exchange.receivedT1Alphas.lookup src with _ | pk
  · simp [Flow.machine]
  rcases h₄ : (w.crypto m.clock).getCandidateKey m.exchange.session t2 pk with _ | k
  · simp [World.call, h₄, Flow.machine]
  rcases h₅ : (w.crypto (m.clock + 1)).decodeT1Message t1 with _ | ⟨α, β, γ⟩
  · simp [World.call, h₄, h₅, Flow.machine]
  rcases h₆ : (w.crypto (m.clock + 2)).decryptT1Beta k β with _ | beta
  · simp [World.call, h₄, h₅, h₆, Flow.machine]
  rcases h₇ : (w.crypto (m.clock + 3)).composeType3Message m.exchange.session beta with _ | t3
  · simp [World.call, h₄, h₅, h₆, h₇, Flow.machine]
  refine .inr ⟨t1, pk, k, α, β, γ, beta, t3, rfl, h₂, rfl, h₄, h₅, h₆, h₇, ?_⟩
  simp only [World.call, h₄, Machine.tick_exchange, Machine.tick_clock, h₅, h₆, h₇, send,
    World.ask, Machine.tick_trace, Nat.add_assoc, Nat.reduceAdd]
  cases accepted (w.query (m.clock + 4) (.sendT3 m.exchange.session.epoch my src t3)) <;>
    exact ⟨rfl, rfl⟩

theorem sendT3Body_received (my src : ExchangeHash) (t2 : Bytes) (m : Machine) :
    (sendT3Body w my ⟨src, t2⟩ m).machine.exchange.receivedT1s = m.exchange.receivedT1s ∧
      (sendT3Body w my ⟨src, t2⟩ m).machine.exchange.receivedT1Alphas =
        m.exchange.receivedT1Alphas ∧
      (sendT3Body w my ⟨src, t2⟩ m).machine.exchange.session = m.exchange.session := by
  rcases sendT3Body_spec w my src t2 m with ⟨he, -⟩ |
    ⟨_, _, _, _, _, _, _, _, -, -, -, -, -, -, -, -, he⟩ <;> rw [he]
  · exact ⟨rfl, rfl, rfl⟩
  · split <;> exact ⟨rfl, rfl, rfl⟩

theorem sendT2Body_session (my : ExchangeHash) (x : Entry) (m : Machine) :
    (sendT2Body w my x m).machine.exchange.session = m.exchange.session := by
  rcases sendT2Body_spec w my x.1 x.2 m with ⟨he, -⟩ | ⟨_, _, _, _, _, -, -, -, -, -, he⟩ <;>
    rw [he]
  split <;> rfl

theorem processT3Body_spec (src : ExchangeHash) (t3 : Bytes) (m : Machine) :
    (∃ m', (processT3Body w ⟨src, t3⟩ m = .next m' ∨
        processT3Body w ⟨src, t3⟩ m = .exit m') ∧
      m'.exchange = m.exchange ∧ m'.trace = m.trace) ∨
    ∃ beta t1 α β γ plaintext,
      m.exchange.decryptedT1Betas.lookup src = some beta ∧
      m.exchange.receivedT1s.lookup src = some t1 ∧
      (w.crypto m.clock).decodeT1Message t1 = .ok (α, β, γ) ∧
      (w.crypto (m.clock + 1)).processType3Message m.exchange.session t3 γ beta = .ok plaintext ∧
      processT3Body w ⟨src, t3⟩ m = .mark { m with
        clock := m.clock + 2
        trace := .update ⟨m.exchange.contactID, none, none, some plaintext⟩ :: m.trace } := by
  rw [processT3Body]
  rcases h₁ : m.exchange.decryptedT1Betas.lookup src with _ | beta
  · exact .inl ⟨m, .inl rfl, rfl, rfl⟩
  rcases h₂ : m.exchange.receivedT1s.lookup src with _ | t1
  · exact .inl ⟨m, .inr rfl, rfl, rfl⟩
  rcases h₃ : (w.crypto m.clock).decodeT1Message t1 with _ | ⟨α, β, γ⟩
  · exact .inl ⟨m.tick, by simp [World.call, h₃], rfl, rfl⟩
  rcases h₄ : (w.crypto (m.clock + 1)).processType3Message m.exchange.session t3 γ beta with
    _ | plaintext
  · exact .inl ⟨m.tick.tick, by simp [World.call, h₃, h₄], rfl, rfl⟩
  exact .inr ⟨beta, t1, α, β, γ, plaintext, rfl, rfl, h₃, h₄,
    by simp [World.call, h₃, h₄]; rfl⟩

/-! ## Loops over the exchange's maps

Each lemma reduces a property of a whole loop to the one iteration that changes
something, with the facts that iteration established. -/

theorem sendT2Messages_preserves {P : Exchange → List Event → Prop} (m : Machine)
    (hstep : ∀ (e : Exchange) (tr : List Event) (t1Hash : ExchangeHash) (t1 t2 : Bytes)
      (pk : PublicKey) (n : Nat) (α β γ : Bytes),
      (∃ alphas sent replied, e = { m.exchange with
        receivedT1Alphas := alphas, sentT2Map := sent, repliedT1s := replied }) →
      m.exchange.receivedT1s.lookup t1Hash = some t1 → t1Hash ≠ w.sha256 m.exchange.sentT1 →
      t1Hash ∉ e.repliedT1s → (w.crypto n).decodeT1Message t1 = .ok (α, β, γ) →
      (w.crypto (n + 1)).processType1MessageAlpha m.exchange.session α = .ok (t2, pk) →
      P e tr →
      let cmd := Command.sendT2 m.exchange.session.epoch (w.sha256 m.exchange.sentT1) t1Hash t2
      let e' := e.storeT2 t1Hash pk (w.sha256 t2) t2
      P (if accepted (w.query (n + 2) cmd) then e'.replyT1 t1Hash t1 else e')
        (.query cmd (w.query (n + 2) cmd) :: tr))
    (hm : P m.exchange m.trace) :
    P (sendT2Messages w m).2.exchange (sendT2Messages w m).2.trace := by
  refine (rangeOver_preserves w (P := fun e tr => P e tr ∧ ∃ alphas sent replied,
    e = { m.exchange with receivedT1Alphas := alphas, sentT2Map := sent, repliedT1s := replied })
    ?_ m ⟨hm, _, _, _, rfl⟩).1
  rintro ⟨t1Hash, t1⟩ hx ⟨_, clock, tr⟩ ⟨hP, alphas, sent, replied, rfl⟩
  rcases sendT2Body_spec w _ t1Hash t1 ⟨_, clock, tr⟩ with ⟨he, ht⟩ |
    ⟨α, β, γ, t2, pk, h₁, h₂, hd, hp, ht, he⟩ <;> rw [he, ht]
  · exact ⟨hP, alphas, sent, replied, rfl⟩
  · refine ⟨hstep _ _ t1Hash t1 t2 pk clock α β γ ⟨_, _, _, rfl⟩
      (lookup_of_mem_entries hx) h₁ h₂ hd hp hP, ?_⟩
    split <;> exact ⟨_, _, _, rfl⟩

theorem sendT3Messages_preserves {P : Exchange → List Event → Prop} (m : Machine)
    (hstep : ∀ (e : Exchange) (tr : List Event) (src : ExchangeHash) (t1 t2 t3 k α β γ : Bytes)
      (pk beta : PublicKey) (n : Nat),
      (∃ betas replied,
        e = { m.exchange with decryptedT1Betas := betas, repliedT2s := replied }) →
      m.exchange.receivedT2s.lookup src = some t2 →
      m.exchange.receivedT1s.lookup src = some t1 →
      w.sha256 t2 ∉ e.repliedT2s → m.exchange.receivedT1Alphas.lookup src = some pk →
      (w.crypto n).getCandidateKey m.exchange.session t2 pk = .ok k →
      (w.crypto (n + 1)).decodeT1Message t1 = .ok (α, β, γ) →
      (w.crypto (n + 2)).decryptT1Beta k β = .ok beta →
      (w.crypto (n + 3)).composeType3Message m.exchange.session beta = .ok t3 →
      P e tr →
      let cmd := Command.sendT3 m.exchange.session.epoch (w.sha256 m.exchange.sentT1) src t3
      P (if accepted (w.query (n + 4) cmd) then e.replyT2 src beta (w.sha256 t2) t2 else e)
        (.query cmd (w.query (n + 4) cmd) :: tr))
    (hm : P m.exchange m.trace) :
    P (sendT3Messages w m).2.exchange (sendT3Messages w m).2.trace := by
  refine (rangeOver_preserves w (P := fun e tr => P e tr ∧ ∃ betas replied,
    e = { m.exchange with decryptedT1Betas := betas, repliedT2s := replied })
    ?_ m ⟨hm, _, _, rfl⟩).1
  rintro ⟨src, t2⟩ hx ⟨_, clock, tr⟩ ⟨hP, betas, replied, rfl⟩
  rcases sendT3Body_spec w _ src t2 ⟨_, clock, tr⟩ with ⟨he, ht⟩ |
    ⟨t1, pk, k, α, β, γ, beta, t3, h₁, h₂, h₃, h₄, h₅, h₆, h₇, ht, he⟩ <;>
    rw [he, ht]
  · exact ⟨hP, betas, replied, rfl⟩
  · refine ⟨hstep _ _ src t1 t2 t3 k α β γ pk beta clock ⟨_, _, rfl⟩
      (lookup_of_mem_entries hx) h₁ h₂ h₃ h₄ h₅ h₆ h₇ hP, ?_⟩
    split <;> exact ⟨_, _, rfl⟩

theorem processT3Messages_preserves {P : Exchange → List Event → Prop} (m : Machine)
    (hstep : ∀ (tr : List Event) (src : ExchangeHash) (t1 t3 α β γ plaintext : Bytes)
      (beta : PublicKey) (n : Nat),
      m.exchange.receivedT3s.lookup src = some t3 →
      m.exchange.decryptedT1Betas.lookup src = some beta →
      m.exchange.receivedT1s.lookup src = some t1 →
      (w.crypto n).decodeT1Message t1 = .ok (α, β, γ) →
      (w.crypto (n + 1)).processType3Message m.exchange.session t3 γ beta = .ok plaintext →
      P m.exchange tr →
      P m.exchange (.update ⟨m.exchange.contactID, none, none, some plaintext⟩ :: tr))
    (hm : P m.exchange m.trace) :
    P (processT3Messages w m).2.exchange (processT3Messages w m).2.trace := by
  refine (rangeOver_preserves w (P := fun e tr => P e tr ∧ e = m.exchange) ?_ m ⟨hm, rfl⟩).1
  rintro ⟨src, t3⟩ hx ⟨_, clock, tr⟩ ⟨hP, rfl⟩
  rcases processT3Body_spec w src t3 ⟨_, clock, tr⟩ with ⟨m', hf, he, ht⟩ |
    ⟨beta, t1, α, β, γ, plaintext, h₁, h₂, h₃, h₄, hf⟩
  · rcases hf with hf | hf <;> rw [hf] <;> exact ⟨he ▸ ht ▸ hP, he⟩
  · rw [hf]
    exact ⟨hstep _ src t1 t3 α β γ plaintext beta clock (lookup_of_mem_entries hx)
      h₁ h₂ h₃ h₄ hP, rfl⟩

theorem processT3Messages_exchange (m : Machine) :
    (processT3Messages w m).2.exchange = m.exchange :=
  processT3Messages_preserves w (P := fun e _ => e = m.exchange) m
    (fun _ _ _ _ _ _ _ _ _ _ _ _ _ _ _ h => h) rfl

end

end Reunion.Client
