import Reunion.Client.Run

/-! # The reply passes as specified

The specification has every failure of one peer's message skip that message, and stop a
pass only when the board refuses a reply; `sentT2Map` keeps only the T2s the board accepted.
`sendT2MessagesReference` and `sendT3MessagesReference` are these passes, written from that
description over the same machine, so that they can be run beside `sendT2Messages` and
`sendT3Messages`. On one malformed foreign T1, or one T2 whose alpha key is not known yet,
the source ends its pass and the references go on to answer the other peers
(`sendT2Messages_stops_at_malformed_t1`, `sendT3Messages_stops_at_missing_alpha`). Where no
such failure happens the source is the specified pass (`sendT2Messages_eq_reference`,
`sendT3Messages_eq_reference`).
-/

namespace Reunion.Client

section
variable (w : World)

/-- One entry of the specified `sendT2Messages`: skip our own T1 and the T1s answered, skip a
T1 that does not decode or whose alpha key cannot be derived, stop only on a refused reply,
and file the T2 only once accepted. -/
def sendT2ReferenceBody (myT1Hash : ExchangeHash) : Entry → Machine → Flow
  | ⟨t1Hash, t1⟩, m =>
    if t1Hash = myT1Hash then .next m
    else if t1Hash ∈ m.exchange.repliedT1s then .next m
    else match w.call m fun c => c.decodeT1Message t1 with
    | (.error _, m) => .next m
    | (.ok (alpha, _, _), m) =>
      match w.call m fun c => c.processType1MessageAlpha m.exchange.session alpha with
      | (.error _, m) => .next m
      | (.ok (t2, alphaPubKey), m) =>
        let m := m.modify fun e => { e with
          receivedT1Alphas := e.receivedT1Alphas.insert t1Hash alphaPubKey }
        match send w (.sendT2 m.exchange.session.epoch myT1Hash t1Hash t2) m with
        | (false, m) => .exit m
        | (true, m) => .mark (m.modify fun e => { e with
            repliedT1s := e.repliedT1s.insert t1Hash t1
            sentT2Map := e.sentT2Map.insert (w.sha256 t2) t2 })

/-- `sendT2Messages` as the specification describes it. -/
def sendT2MessagesReference (m : Machine) : Bool × Machine :=
  rangeOver w (sendT2ReferenceBody w (w.sha256 m.exchange.sentT1)) m.exchange.receivedT1s.entries m

/-- One entry of the specified `sendT3Messages`: skip a T2 answered, skip a T2 whose T1 or
alpha key is missing or whose crypto fails, and stop only on a refused reply. -/
def sendT3ReferenceBody (myT1Hash : ExchangeHash) : Entry → Machine → Flow
  | ⟨srcT1Hash, t2⟩, m =>
    if w.sha256 t2 ∈ m.exchange.repliedT2s then .next m
    else match m.exchange.receivedT1s.lookup srcT1Hash,
        m.exchange.receivedT1Alphas.lookup srcT1Hash with
    | some t1, some alphaKey =>
      match w.call m fun c => c.getCandidateKey m.exchange.session t2 alphaKey with
      | (.error _, m) => .next m
      | (.ok candidateKey, m) =>
        match w.call m fun c => c.decodeT1Message t1 with
        | (.error _, m) => .next m
        | (.ok (_, t1beta, _), m) =>
          match w.call m fun c => c.decryptT1Beta candidateKey t1beta with
          | (.error _, m) => .next m
          | (.ok beta, m) =>
            match w.call m fun c => c.composeType3Message m.exchange.session beta with
            | (.error _, m) => .next m
            | (.ok t3, m) =>
              match send w (.sendT3 m.exchange.session.epoch myT1Hash srcT1Hash t3) m with
              | (false, m) => .exit m
              | (true, m) => .mark (m.modify fun e => { e with
                  decryptedT1Betas := e.decryptedT1Betas.insert srcT1Hash beta
                  repliedT2s := e.repliedT2s.insert (w.sha256 t2) t2 })
    | _, _ => .next m

/-- `sendT3Messages` as the specification describes it. -/
def sendT3MessagesReference (m : Machine) : Bool × Machine :=
  rangeOver w (sendT3ReferenceBody w (w.sha256 m.exchange.sentT1)) m.exchange.receivedT2s.entries m

end

/-! ## Where the source ends its pass early -/

/-- An accepting board, with crypto where the T1 `[]` does not decode. -/
def malformedT1World : World :=
  { World.board ⟨∅, []⟩ with
    crypto := fun n =>
      { (World.board ⟨∅, []⟩).crypto n with
        decodeT1Message := fun t1 => if t1 = [] then .error "malformed T1" else .ok (t1, t1, t1) } }

def malformedT1Machine : Machine :=
  ⟨{ sampleExchange with
      status := t1MessageSentState
      receivedT1s := (AList.singleton (hashKey 2) [2]).insert (hashKey 1) [] }, 0, []⟩

/-- The source returns at the malformed T1 and sends nothing; the specified pass skips it
and answers peer `2…2`. -/
theorem sendT2Messages_stops_at_malformed_t1 :
    (sendT2Messages malformedT1World malformedT1Machine).2.trace.length = 0 ∧
      (sendT2Messages malformedT1World malformedT1Machine).2.exchange.repliedT1s.lookup
        (hashKey 2) = none ∧
      (sendT2MessagesReference malformedT1World malformedT1Machine).2.trace.length = 1 ∧
      (sendT2MessagesReference malformedT1World malformedT1Machine).2.exchange.repliedT1s.lookup
        (hashKey 2) = some [2] :=
  ⟨by decide, by decide, by decide, by decide⟩

def missingAlphaMachine : Machine :=
  ⟨{ sampleExchange with
      status := t1MessageSentState
      receivedT1s := (AList.singleton (hashKey 2) [2]).insert (hashKey 1) [1]
      receivedT2s := (AList.singleton (hashKey 2) [4]).insert (hashKey 1) [3]
      receivedT1Alphas := AList.singleton (hashKey 2) ⟨[2]⟩ }, 0, []⟩

/-- The source returns at the T2 without an alpha key and sends nothing; the specified pass
skips it and answers peer `2…2`. -/
theorem sendT3Messages_stops_at_missing_alpha :
    (sendT3Messages malformedT1World missingAlphaMachine).2.trace.length = 0 ∧
      (sendT3Messages malformedT1World missingAlphaMachine).2.exchange.decryptedT1Betas.lookup
        (hashKey 2) = none ∧
      (sendT3MessagesReference malformedT1World missingAlphaMachine).2.trace.length = 1 ∧
      (sendT3MessagesReference malformedT1World missingAlphaMachine).2.exchange.decryptedT1Betas.lookup
        (hashKey 2) = some ⟨[2]⟩ :=
  ⟨by decide, by decide, by decide, by decide⟩

/-! ## Where the source is the specified pass -/

theorem rangeLoop_congr {body body' : Entry → Machine → Flow} {Q : Machine → Prop}
    {xs : List Entry} (hQ : ∀ x ∈ xs, ∀ m, Q m → Q (body x m).machine)
    (h : ∀ x ∈ xs, ∀ m, Q m → body x m = body' x m) :
    ∀ flag m, Q m → rangeLoop body xs flag m = rangeLoop body' xs flag m := by
  induction xs with
  | nil => exact fun _ _ _ => rfl
  | cons x xs ih =>
    intro flag m hm
    have ih := ih (fun y hy => hQ y (List.mem_cons_of_mem x hy))
      (fun y hy => h y (List.mem_cons_of_mem x hy))
    have hq := hQ x (List.mem_cons_self x xs) m hm
    rw [rangeLoop, rangeLoop, ← h x (List.mem_cons_self x xs) m hm]
    rcases hb : body x m with m' | m' | m' <;> rw [hb] at hq
    exacts [ih _ _ hq, ih _ _ hq]

section
variable (w : World)

theorem sendT2Body_eq_reference (my : ExchangeHash) (x : Entry) (m : Machine)
    (hd : ∀ n t1, ∃ r, (w.crypto n).decodeT1Message t1 = .ok r)
    (hp : ∀ n s alpha, ∃ r, (w.crypto n).processType1MessageAlpha s alpha = .ok r)
    (hq : ∀ n epoch src dst t2, accepted (w.query n (.sendT2 epoch src dst t2)) = true) :
    sendT2Body w my x m = sendT2ReferenceBody w my x m := by
  obtain ⟨t1Hash, t1⟩ := x
  rw [sendT2Body, sendT2ReferenceBody]
  split_ifs
  · rfl
  · rfl
  obtain ⟨⟨α, β, γ⟩, hd⟩ := hd m.clock t1
  obtain ⟨⟨t2, pk⟩, hp⟩ := hp (m.clock + 1) m.exchange.session α
  simp only [World.call, hd, hp, Machine.tick_clock, Machine.tick_exchange, send, World.ask, hq]
  rfl

/-- When every foreign T1 decodes and yields its alpha key, and the board accepts every
`SendT2`, `sendT2Messages` is the specified pass: its early returns, and the T2 it files
before the board answers, are its only divergences. -/
theorem sendT2Messages_eq_reference (m : Machine)
    (hd : ∀ n t1, ∃ r, (w.crypto n).decodeT1Message t1 = .ok r)
    (hp : ∀ n s alpha, ∃ r, (w.crypto n).processType1MessageAlpha s alpha = .ok r)
    (hq : ∀ n epoch src dst t2, accepted (w.query n (.sendT2 epoch src dst t2)) = true) :
    sendT2Messages w m = sendT2MessagesReference w m :=
  rangeLoop_congr (Q := fun _ => True) (fun _ _ _ _ => trivial)
    (fun x _ m _ => sendT2Body_eq_reference w _ x m hd hp hq) false _ trivial

theorem sendT3Body_eq_reference (my src : ExchangeHash) (t2 : Bytes) (m : Machine) {t1 : Bytes}
    {pk : PublicKey} (h₁ : m.exchange.receivedT1s.lookup src = some t1)
    (hα : m.exchange.receivedT1Alphas.lookup src = some pk)
    (hk : ∀ n s t2 pk, ∃ k, (w.crypto n).getCandidateKey s t2 pk = .ok k)
    (hd : ∀ n t1, ∃ r, (w.crypto n).decodeT1Message t1 = .ok r)
    (hc : ∀ n s beta, ∃ t3, (w.crypto n).composeType3Message s beta = .ok t3) :
    sendT3Body w my ⟨src, t2⟩ m = sendT3ReferenceBody w my ⟨src, t2⟩ m := by
  rw [sendT3Body, sendT3ReferenceBody]
  simp only [h₁, hα]
  split_ifs
  · rfl
  obtain ⟨k, hk⟩ := hk m.clock m.exchange.session t2 pk
  obtain ⟨⟨α, β, γ⟩, hd⟩ := hd (m.clock + 1) t1
  simp only [World.call, hk, hd, Machine.tick_clock, Machine.tick_exchange]
  rcases (w.crypto (m.clock + 1 + 1)).decryptT1Beta k β with _ | beta
  · rfl
  obtain ⟨t3, hc⟩ := hc (m.clock + 1 + 1 + 1) m.exchange.session beta
  simp only [Machine.tick_clock, Machine.tick_exchange]
  rewrite [hc]
  rfl

/-- When every T2 has the T1 and the alpha key of its source, and `GetCandidateKey`,
`DecodeT1Message` and `ComposeType3Message` never fail, `sendT3Messages` is the specified
pass: its early returns are its only divergence. -/
theorem sendT3Messages_eq_reference (m : Machine)
    (hT1 : ∀ src ∈ m.exchange.receivedT2s.keys, src ∈ m.exchange.receivedT1s.keys)
    (hα : ∀ src ∈ m.exchange.receivedT2s.keys, src ∈ m.exchange.receivedT1Alphas.keys)
    (hk : ∀ n s t2 pk, ∃ k, (w.crypto n).getCandidateKey s t2 pk = .ok k)
    (hd : ∀ n t1, ∃ r, (w.crypto n).decodeT1Message t1 = .ok r)
    (hc : ∀ n s beta, ∃ t3, (w.crypto n).composeType3Message s beta = .ok t3) :
    sendT3Messages w m = sendT3MessagesReference w m := by
  refine rangeLoop_congr (Q := fun m' => m'.exchange.receivedT1s = m.exchange.receivedT1s ∧
      m'.exchange.receivedT1Alphas = m.exchange.receivedT1Alphas) ?_ ?_ false _ ⟨rfl, rfl⟩
  · rintro ⟨src, t2⟩ - m' ⟨h₁, h₂⟩
    obtain ⟨h₁', h₂', -⟩ := sendT3Body_received w _ src t2 m'
    exact ⟨h₁'.trans h₁, h₂'.trans h₂⟩
  · rintro ⟨src, t2⟩ hx m' ⟨h₁, h₂⟩
    have hs := List.mem_keys_of_mem ((w.order_perm _ _).mem_iff.1 hx)
    obtain ⟨t1, ht1⟩ := Option.isSome_iff_exists.1 (AList.lookup_isSome.2 (hT1 src hs))
    obtain ⟨pk, hpk⟩ := Option.isSome_iff_exists.1 (AList.lookup_isSome.2 (hα src hs))
    exact sendT3Body_eq_reference w _ src t2 m' (h₁ ▸ ht1) (h₂ ▸ hpk) hk hd hc

end

theorem sendT2Messages_eq_reference_board :
    (∀ n t1, ∃ r, ((World.board ⟨∅, []⟩).crypto n).decodeT1Message t1 = .ok r) ∧
      (∀ n s alpha, ∃ r,
        ((World.board ⟨∅, []⟩).crypto n).processType1MessageAlpha s alpha = .ok r) ∧
      (∀ n epoch src dst t2,
        accepted ((World.board ⟨∅, []⟩).query n (.sendT2 epoch src dst t2)) = true) ∧
      sendT2Messages (World.board ⟨∅, []⟩) malformedT1Machine =
        sendT2MessagesReference (World.board ⟨∅, []⟩) malformedT1Machine :=
  ⟨World.board_decodeT1Message _, World.board_processType1MessageAlpha _,
    World.board_accepts_sendT2 _, sendT2Messages_eq_reference _ _ (World.board_decodeT1Message _)
      (World.board_processType1MessageAlpha _) (World.board_accepts_sendT2 _)⟩

def alphasKnownMachine : Machine :=
  { missingAlphaMachine with
    exchange := { missingAlphaMachine.exchange with
      receivedT1Alphas := (AList.singleton (hashKey 2) ⟨[2]⟩).insert (hashKey 1) ⟨[1]⟩ } }

theorem sendT3Messages_eq_reference_board :
    (∀ src ∈ alphasKnownMachine.exchange.receivedT2s.keys,
        src ∈ alphasKnownMachine.exchange.receivedT1s.keys) ∧
      (∀ src ∈ alphasKnownMachine.exchange.receivedT2s.keys,
        src ∈ alphasKnownMachine.exchange.receivedT1Alphas.keys) ∧
      sendT3Messages (World.board ⟨∅, []⟩) alphasKnownMachine =
        sendT3MessagesReference (World.board ⟨∅, []⟩) alphasKnownMachine :=
  have hT1 : ∀ src ∈ alphasKnownMachine.exchange.receivedT2s.keys,
      src ∈ alphasKnownMachine.exchange.receivedT1s.keys := by decide
  have hα : ∀ src ∈ alphasKnownMachine.exchange.receivedT2s.keys,
      src ∈ alphasKnownMachine.exchange.receivedT1Alphas.keys := by decide
  ⟨hT1, hα, sendT3Messages_eq_reference _ _ hT1 hα (World.board_getCandidateKey _)
    (World.board_decodeT1Message _) (World.board_composeType3Message _)⟩

end Reunion.Client
