import Reunion.Client.Run

/-! # Fetching the board's state

`fetchState` fails exactly when the board's reply is not an OK, untruncated `StateResponse`
whose payload decodes to a state in which every message carries a T2 or a T3
(`fetchState_outcome`). What it merges is first-write-wins: a key already received keeps its
bytes, and a new key takes the bytes of the first message for it (`MergedFrom`). It is not
atomic: `processState` writes into the received maps as it goes, so a message with neither
payload leaves the new T1s and the messages before it merged (`fetchState_not_atomic`);
every failure before `processState` leaves the exchange alone.
-/

namespace Reunion.Client

/-- A message carries a T2 or a T3; `processState` rejects one with both payloads empty. -/
def T2T3Message.valid (msg : T2T3Message) : Bool :=
  0 < msg.t2Payload.length || 0 < msg.t3Payload.length

def firstT2 (msgs : List T2T3Message) (k : ExchangeHash) : Option Bytes :=
  (msgs.find? fun msg => msg.srcT1Hash = k ∧ 0 < msg.t2Payload.length).map (·.t2Payload)

def firstT3 (msgs : List T2T3Message) (k : ExchangeHash) : Option Bytes :=
  (msgs.find? fun msg =>
    msg.srcT1Hash = k ∧ msg.t2Payload = [] ∧ 0 < msg.t3Payload.length).map (·.t3Payload)

/-- `e'` is `e` with the T1s of `t1Map` and the T2s and T3s of `msgs` merged first-write-wins
into its received maps, and nothing else changed. -/
structure MergedFrom (e : Exchange) (t1Map : ExchangeMap Bytes) (msgs : List T2T3Message)
    (e' : Exchange) : Prop where
  frame : ∃ t1s t2s t3s,
    e' = { e with receivedT1s := t1s, receivedT2s := t2s, receivedT3s := t3s }
  t1s : ∀ k, e'.receivedT1s.lookup k = (e.receivedT1s.lookup k).or (t1Map.lookup k)
  t2s : ∀ k, e'.receivedT2s.lookup k = (e.receivedT2s.lookup k).or (firstT2 msgs k)
  t3s : ∀ k, e'.receivedT3s.lookup k = (e.receivedT3s.lookup k).or (firstT3 msgs k)

theorem firstT2_cons (msg : T2T3Message) (msgs : List T2T3Message) (k : ExchangeHash) :
    firstT2 (msg :: msgs) k =
      if msg.srcT1Hash = k ∧ 0 < msg.t2Payload.length then some msg.t2Payload
      else firstT2 msgs k := by
  unfold firstT2
  rw [List.find?_cons]
  by_cases h : msg.srcT1Hash = k ∧ 0 < msg.t2Payload.length <;> simp [h]

theorem firstT3_cons (msg : T2T3Message) (msgs : List T2T3Message) (k : ExchangeHash) :
    firstT3 (msg :: msgs) k =
      if msg.srcT1Hash = k ∧ msg.t2Payload = [] ∧ 0 < msg.t3Payload.length then
        some msg.t3Payload
      else firstT3 msgs k := by
  unfold firstT3
  rw [List.find?_cons]
  by_cases h : msg.srcT1Hash = k ∧ msg.t2Payload = [] ∧ 0 < msg.t3Payload.length <;>
    simp [h]

/-! ## First-write-wins -/

section
variable {s : ExchangeMap Bytes} {a : ExchangeHash}

theorem lookup_or_of_mem (h : a ∈ s) (k : ExchangeHash) (v : Bytes) (o : Option Bytes) :
    (s.lookup k).or o = (s.lookup k).or (if a = k then some v else o) := by
  by_cases hk : a = k
  · subst hk
    obtain ⟨v', hv⟩ := Option.isSome_iff_exists.1 (AList.lookup_isSome.2 h)
    simp [hv]
  · rw [if_neg hk]

theorem lookup_insert_or_of_not_mem (h : a ∉ s) (k : ExchangeHash) (v : Bytes)
    (o : Option Bytes) :
    ((s.insert a v).lookup k).or o = (s.lookup k).or (if a = k then some v else o) := by
  by_cases hk : a = k
  · subst hk
    simp [AList.lookup_eq_none.2 h]
  · rw [if_neg hk, AList.lookup_insert_ne (Ne.symm hk)]

end

theorem mergeT1s_lookup (xs : List Entry) (t1s : ExchangeMap Bytes) (hasNew : Bool)
    (k : ExchangeHash) :
    (mergeT1s xs t1s hasNew).1.lookup k = (t1s.lookup k).or (xs.dlookup k) := by
  induction xs generalizing t1s hasNew with
  | nil => exact Option.or_none.symm
  | cons x xs ih =>
    obtain ⟨a, v⟩ := x
    have hd : (⟨a, v⟩ :: xs : List Entry).dlookup k =
        if a = k then some v else xs.dlookup k := by
      by_cases hk : a = k
      · subst hk; rw [if_pos rfl, List.dlookup_cons_eq]
      · rw [if_neg hk, List.dlookup_cons_ne _ _ (Ne.symm hk)]
    rw [mergeT1s, hd]
    by_cases h : a ∈ t1s
    · rw [if_pos h, ih, lookup_or_of_mem h k v]
    · rw [if_neg h, ih, lookup_insert_or_of_not_mem h]

theorem mergeMessages_lookup (msgs : List T2T3Message) (e : Exchange) (hasNew : Bool)
    (k : ExchangeHash) :
    (mergeMessages msgs e hasNew).2.receivedT2s.lookup k =
        (e.receivedT2s.lookup k).or (firstT2 (msgs.takeWhile T2T3Message.valid) k) ∧
      (mergeMessages msgs e hasNew).2.receivedT3s.lookup k =
        (e.receivedT3s.lookup k).or (firstT3 (msgs.takeWhile T2T3Message.valid) k) := by
  induction msgs generalizing e hasNew with
  | nil => simp [mergeMessages, firstT2, firstT3]
  | cons msg msgs ih =>
    rw [mergeMessages, List.takeWhile_cons]
    by_cases h₂ : 0 < msg.t2Payload.length
    · have hv : msg.valid = true := by simp [T2T3Message.valid, h₂]
      have h₂' : msg.t2Payload ≠ [] := List.ne_nil_of_length_pos h₂
      simp only [gt_iff_lt, h₂, hv, if_true, firstT2_cons, firstT3_cons, h₂', and_true,
        and_false, false_and, if_false]
      by_cases hm : msg.srcT1Hash ∈ e.receivedT2s
      · rw [if_pos hm, (ih e hasNew).1, (ih e hasNew).2, lookup_or_of_mem hm k msg.t2Payload]
        exact ⟨rfl, rfl⟩
      · rw [if_neg hm, (ih _ true).1, (ih _ true).2, lookup_insert_or_of_not_mem hm]
        exact ⟨rfl, rfl⟩
    by_cases h₃ : 0 < msg.t3Payload.length
    · have hv : msg.valid = true := by simp [T2T3Message.valid, h₃]
      have h₂' : msg.t2Payload = [] := List.eq_nil_of_length_eq_zero (by omega)
      simp only [gt_iff_lt, h₂, h₃, hv, if_true, if_false, firstT2_cons, firstT3_cons, h₂',
        List.length_nil, lt_self_iff_false, and_true, and_false, true_and]
      by_cases hm : msg.srcT1Hash ∈ e.receivedT3s
      · rw [if_pos hm, (ih e hasNew).1, (ih e hasNew).2, lookup_or_of_mem hm k msg.t3Payload]
        exact ⟨rfl, rfl⟩
      · rw [if_neg hm, (ih _ true).1, (ih _ true).2, lookup_insert_or_of_not_mem hm]
        exact ⟨rfl, rfl⟩
    · have hv : msg.valid = false := by simp [T2T3Message.valid, h₂, h₃]
      simp [h₂, h₃, hv, firstT2, firstT3]

theorem mergeMessages_ok_iff (msgs : List T2T3Message) (e : Exchange) (hasNew : Bool) :
    (∃ b, (mergeMessages msgs e hasNew).1 = .ok b) ↔ ∀ msg ∈ msgs, msg.valid = true := by
  induction msgs generalizing e hasNew with
  | nil => simp [mergeMessages]
  | cons msg msgs ih =>
    rw [mergeMessages, List.forall_mem_cons]
    by_cases h₂ : 0 < msg.t2Payload.length
    · have hv : msg.valid = true := by simp [T2T3Message.valid, h₂]
      rw [if_pos h₂]
      split_ifs <;> rw [ih, hv, eq_self_iff_true, true_and]
    by_cases h₃ : 0 < msg.t3Payload.length
    · have hv : msg.valid = true := by simp [T2T3Message.valid, h₃]
      rw [if_neg h₂, if_pos h₃]
      split_ifs <;> rw [ih, hv, eq_self_iff_true, true_and]
    · simp [T2T3Message.valid, h₂, h₃]

theorem mergeMessages_receivedT1s (msgs : List T2T3Message) (e : Exchange) (hasNew : Bool) :
    (mergeMessages msgs e hasNew).2.receivedT1s = e.receivedT1s := by
  obtain ⟨_, _, he, -⟩ := mergeMessages_spec msgs e hasNew
  rw [he]

section
variable (w : World)

theorem order_dlookup (n : Nat) (s : ExchangeMap Bytes) (k : ExchangeHash) :
    (w.order n s.entries).dlookup k = s.lookup k :=
  List.perm_dlookup k ((List.perm_nodupKeys (w.order_perm n _)).2 s.nodupKeys) s.nodupKeys
    (w.order_perm n _)

theorem processState_merged (state : RequestedReunionState) (m : Machine) :
    MergedFrom m.exchange state.t1Map (state.messages.takeWhile T2T3Message.valid)
      (processState w state m).2.exchange := by
  obtain ⟨t1s, t2s, t3s, he, -⟩ := processState_spec w state m
  refine ⟨⟨t1s, t2s, t3s, he⟩, fun k => ?_, fun k => (mergeMessages_lookup _ _ _ k).1,
    fun k => (mergeMessages_lookup _ _ _ k).2⟩
  dsimp only [processState]
  rw [mergeMessages_receivedT1s, mergeT1s_lookup, order_dlookup]

theorem processState_ok_iff (state : RequestedReunionState) (m : Machine) :
    (∃ b, (processState w state m).1 = .ok b) ↔ ∀ msg ∈ state.messages, msg.valid = true :=
  mergeMessages_ok_iff _ _ _

theorem fetchState_reply (m : Machine) :
    (∃ payload state, w.query m.clock
          (.fetchState m.exchange.session.epoch (w.sha256 m.exchange.sentT1)) =
        .ok (.stateResponse responseStatusOK false payload) ∧
      w.unmarshalState payload = .ok state ∧
      (fetchState w m).2 = (processState w state
        (w.ask (.fetchState m.exchange.session.epoch (w.sha256 m.exchange.sentT1)) m).2).2 ∧
      ((∃ u, (fetchState w m).1 = .ok u) ↔ ∃ b, (processState w state
        (w.ask (.fetchState m.exchange.session.epoch (w.sha256 m.exchange.sentT1)) m).2).1 =
          .ok b)) ∨
    ((¬ ∃ payload state, w.query m.clock
          (.fetchState m.exchange.session.epoch (w.sha256 m.exchange.sentT1)) =
        .ok (.stateResponse responseStatusOK false payload) ∧
      w.unmarshalState payload = .ok state) ∧
      (fetchState w m).2 =
        (w.ask (.fetchState m.exchange.session.epoch (w.sha256 m.exchange.sentT1)) m).2 ∧
      ∃ err, (fetchState w m).1 = .error err) := by
  unfold fetchState
  simp only [World.ask]
  rcases hq : w.query m.clock (.fetchState m.exchange.session.epoch (w.sha256 m.exchange.sentT1))
    with err | (_ | ⟨code, truncated, payload⟩ | _) <;> dsimp only
  rotate_left 2
  · by_cases hc : code = responseStatusOK
    · rw [if_neg (not_not.2 hc)]
      rcases hu : w.unmarshalState payload with err | state <;> dsimp only
      · exact .inr ⟨by simp [hu], rfl, _, rfl⟩
      cases truncated
      · refine .inl ⟨payload, state, by rw [hc], hu, ?_⟩
        rcases processState w state _ with ⟨_ | _, _⟩ <;> simp
      · exact .inr ⟨by simp, rfl, _, rfl⟩
    · rw [if_pos hc]
      exact .inr ⟨by simp [hc], rfl, _, rfl⟩
  all_goals exact .inr ⟨by simp, rfl, _, rfl⟩

/-! ## What a fetch leaves behind -/

/-- Whatever the exchange and whatever the board answers, `fetchState` succeeds exactly when
the reply is an OK, untruncated `StateResponse` whose payload decodes to a state in which
every message carries a T2 or a T3. Once the reply decodes, the exchange afterwards is the
one before with the T1 map and the messages before the first invalid one merged
first-write-wins (all the messages, when it succeeds); after any other reply it is the
exchange before. -/
theorem fetchState_outcome (m : Machine) :
    ((∃ u, (fetchState w m).1 = .ok u) ↔ ∃ payload state,
        w.query m.clock (.fetchState m.exchange.session.epoch (w.sha256 m.exchange.sentT1)) =
          .ok (.stateResponse responseStatusOK false payload) ∧
        w.unmarshalState payload = .ok state ∧ ∀ msg ∈ state.messages, msg.valid = true) ∧
    (∀ payload state,
        w.query m.clock (.fetchState m.exchange.session.epoch (w.sha256 m.exchange.sentT1)) =
          .ok (.stateResponse responseStatusOK false payload) →
        w.unmarshalState payload = .ok state →
        MergedFrom m.exchange state.t1Map (state.messages.takeWhile T2T3Message.valid)
          (fetchState w m).2.exchange) ∧
    ((¬ ∃ payload state,
        w.query m.clock (.fetchState m.exchange.session.epoch (w.sha256 m.exchange.sentT1)) =
          .ok (.stateResponse responseStatusOK false payload) ∧
        w.unmarshalState payload = .ok state) →
      (fetchState w m).2.exchange = m.exchange) := by
  rcases fetchState_reply w m with ⟨payload, state, hq, hu, hf, hok⟩ | ⟨hn, hf, err, he⟩
  · have hsame : ∀ payload' state',
        w.query m.clock (.fetchState m.exchange.session.epoch (w.sha256 m.exchange.sentT1)) =
          .ok (.stateResponse responseStatusOK false payload') →
        w.unmarshalState payload' = .ok state' → state' = state := by
      intro payload' state' hq' hu'
      cases hq.symm.trans hq'
      exact Except.ok.inj (hu'.symm.trans hu)
    refine ⟨hok.trans ((processState_ok_iff w state _).trans
        ⟨fun h => ⟨payload, state, hq, hu, h⟩, ?_⟩), fun payload' state' hq' hu' => ?_,
      fun h => absurd ⟨payload, state, hq, hu⟩ h⟩
    · rintro ⟨payload', state', hq', hu', h⟩
      exact hsame payload' state' hq' hu' ▸ h
    · rw [hsame payload' state' hq' hu', hf]
      exact processState_merged w state
        (w.ask (.fetchState m.exchange.session.epoch (w.sha256 m.exchange.sentT1)) m).2
  · refine ⟨⟨fun ⟨u, hu⟩ => (by rw [he] at hu; cases hu),
      fun ⟨p, s, hq, hu, _⟩ => absurd ⟨p, s, hq, hu⟩ hn⟩,
      fun p s hq hu => absurd ⟨p, s, hq, hu⟩ hn, fun _ => by rw [hf]; rfl⟩

end

/-- A board whose state has the new T1 `[1]` under `1…1` and a message from `2…2` with
neither payload. -/
def invalidMessageWorld : World :=
  World.board ⟨AList.singleton (hashKey 1) [1], [⟨hashKey 2, [], []⟩]⟩

/-- The claim that a failed `fetchState` leaves the exchange as it was fails: against this
board the fetch fails on the invalid message, and the T1 merged before it stays. -/
theorem fetchState_not_atomic :
    ¬ ∀ (w : World) (m : Machine), (∃ err, (fetchState w m).1 = .error err) →
      (fetchState w m).2.exchange = m.exchange := by
  intro h
  have he := h invalidMessageWorld ⟨sampleExchange, 0, []⟩ ⟨_, rfl⟩
  exact absurd (congrArg (fun e => e.receivedT1s.lookup (hashKey 1)) he) (by decide)

end Reunion.Client
