import Reunion.Client.Run

/-! # The atomic moves of an exchange

What one step of `exchange.go` can do to the exchange and to its history, whatever the
world answers: a `Move`. Every run of `Run`, and every resumption from a snapshot under a
round-tripping codec, is a sequence of moves (`RunStep.moves`, `HostStep.moves`), so a
property of states that every move keeps holds in every reachable state.
-/

namespace Reunion.Client

/-- The exchange together with its history. -/
abbrev View := Exchange × List Event

/-- The atomic moves. Guards are what the code checks (or what holds by the way the loop
visits the maps); each crypto outcome is the world's at some moment `n`. -/
inductive Move (w : World) : View → View → Prop
  /-- `sendT1`, when `GenerateType1Message` fails. -/
  | generate (e : Exchange) (tr : List Event) (t1 : Bytes) :
      e.status = initialState → Move w (e, tr) ({ e with sentT1 := t1 }, tr)
  /-- `sendT1` and its query; `Run` moves on to `t1MessageSentState` when it is accepted. -/
  | sendT1 (e : Exchange) (tr : List Event) (t1 : Bytes) (r : Except String Response) :
      e.status = initialState →
      Move w (e, tr) (if accepted r then { e with sentT1 := t1, status := t1MessageSentState }
        else { e with sentT1 := t1 }, .query (.sendT1 e.session.epoch t1) r :: tr)
  /-- `fetchState`: one query, then only new keys in the received maps. -/
  | fetch (e : Exchange) (tr : List Event) (t1s t2s t3s : ExchangeMap Bytes)
      (r : Except String Response) : e.status = t1MessageSentState →
      SubMap e.receivedT1s t1s → SubMap e.receivedT2s t2s → SubMap e.receivedT3s t3s →
      Move w (e, tr) ({ e with receivedT1s := t1s, receivedT2s := t2s, receivedT3s := t3s },
        .query (.fetchState e.session.epoch (w.sha256 e.sentT1)) r :: tr)
  /-- One iteration of `sendT2Messages` that reaches its query. -/
  | sendT2 (e : Exchange) (tr : List Event) (t1Hash : ExchangeHash) (t1 t2 α β γ : Bytes)
      (pk : PublicKey) (n : Nat) (r : Except String Response) : e.status = t1MessageSentState →
      e.receivedT1s.lookup t1Hash = some t1 → t1Hash ≠ w.sha256 e.sentT1 →
      t1Hash ∉ e.repliedT1s → (w.crypto n).decodeT1Message t1 = .ok (α, β, γ) →
      (w.crypto (n + 1)).processType1MessageAlpha e.session α = .ok (t2, pk) →
      Move w (e, tr)
        (if accepted r then (e.storeT2 t1Hash pk (w.sha256 t2) t2).replyT1 t1Hash t1
          else e.storeT2 t1Hash pk (w.sha256 t2) t2,
         .query (.sendT2 e.session.epoch (w.sha256 e.sentT1) t1Hash t2) r :: tr)
  /-- One iteration of `sendT3Messages` that reaches its query. -/
  | sendT3 (e : Exchange) (tr : List Event) (src : ExchangeHash) (t1 t2 t3 k α β γ : Bytes)
      (pk beta : PublicKey) (n : Nat) (r : Except String Response) :
      e.status = t1MessageSentState → e.receivedT2s.lookup src = some t2 →
      e.receivedT1s.lookup src = some t1 → w.sha256 t2 ∉ e.repliedT2s →
      e.receivedT1Alphas.lookup src = some pk →
      (w.crypto n).getCandidateKey e.session t2 pk = .ok k →
      (w.crypto (n + 1)).decodeT1Message t1 = .ok (α, β, γ) →
      (w.crypto (n + 2)).decryptT1Beta k β = .ok beta →
      (w.crypto (n + 3)).composeType3Message e.session beta = .ok t3 →
      Move w (e, tr) (if accepted r then e.replyT2 src beta (w.sha256 t2) t2 else e,
        .query (.sendT3 e.session.epoch (w.sha256 e.sentT1) src t3) r :: tr)
  /-- One iteration of `processT3Messages` that opens a T3. -/
  | result (e : Exchange) (tr : List Event) (src : ExchangeHash) (t1 t3 α β γ plaintext : Bytes)
      (beta : PublicKey) (n : Nat) : e.receivedT3s.lookup src = some t3 →
      e.decryptedT1Betas.lookup src = some beta → e.receivedT1s.lookup src = some t1 →
      (w.crypto n).decodeT1Message t1 = .ok (α, β, γ) →
      (w.crypto (n + 1)).processType3Message e.session t3 γ beta = .ok plaintext →
      Move w (e, tr) (e, .update ⟨e.contactID, none, none, some plaintext⟩ :: tr)
  /-- An update without a result: a snapshot, a `Marshal` error or the unknown-state error. -/
  | emit (e : Exchange) (tr : List Event) (u : ReunionUpdate) :
      u.result = none → Move w (e, tr) (e, .update u :: tr)
  /-- `NewExchangeFromSnapshot` of the object's own snapshot. -/
  | resume (e : Exchange) (tr : List Event) : Move w (e, tr) ({ e with payload := [] }, tr)

section
variable (w : World)

open Relation

theorem moves_runInvariant (s : View) :
    RunInvariant w fun e tr => ReflTransGen (Move w) s (e, tr) where
  after_sendT1 m hs h := by
    obtain ⟨t1, he, ⟨hb, ht⟩ | ⟨ht, hb⟩⟩ := sendT1_spec w m <;> rw [hb, he, ht]
    · exact h.tail (.generate _ _ t1 hs)
    · exact h.tail (.sendT1 _ _ t1 _ hs)
  after_emit _ _ u hu h := h.tail (.emit _ _ u hu)
  after_fetchState m hs h := by
    obtain ⟨t1s, t2s, t3s, r, he, h₁, h₂, h₃, ht⟩ := fetchState_spec w m
    rw [he, ht]
    exact h.tail (.fetch _ _ t1s t2s t3s r hs h₁ h₂ h₃)
  after_sendT2Messages m hs h := by
    refine sendT2Messages_preserves w m (P := fun e tr => ReflTransGen (Move w) s (e, tr)) ?_ h
    rintro e tr t1Hash t1 t2 pk n α β γ ⟨_, _, _, rfl⟩ hl hne hr hd hp h
    exact h.tail (.sendT2 _ _ t1Hash t1 t2 α β γ pk n _ hs hl hne hr hd hp)
  after_sendT3Messages m hs h := by
    refine sendT3Messages_preserves w m (P := fun e tr => ReflTransGen (Move w) s (e, tr)) ?_ h
    rintro e tr src t1 t2 t3 k α β γ pk beta n ⟨_, _, rfl⟩ h₂ h₁ hr ha hk hd hb hc h
    exact h.tail (.sendT3 _ _ src t1 t2 t3 k α β γ pk beta n _ hs h₂ h₁ hr ha hk hd hb hc)
  after_processT3Messages m h := by
    refine processT3Messages_preserves w m (P := fun e tr => ReflTransGen (Move w) s (e, tr)) ?_ h
    intro tr src t1 t3 α β γ plaintext beta n h₃ hb h₁ hd hp h
    exact h.tail (.result _ _ src t1 t3 α β γ plaintext beta n h₃ hb h₁ hd hp)

theorem RunStep.moves {m m' : Machine} (h : RunStep w m m') :
    ReflTransGen (Move w) (m.exchange, m.trace) (m'.exchange, m'.trace) := by
  obtain ⟨fuel, rfl⟩ := h
  exact (moves_runInvariant w _).run fuel m .refl

theorem HostStep.moves (hw : w.RoundTrips) {m m' : Machine} (h : HostStep w m m') :
    ReflTransGen (Move w) (m.exchange, m.trace) (m'.exchange, m'.trace) := by
  cases h with
  | run h => exact RunStep.moves w h
  | resume hd he =>
    rw [newExchangeFromSnapshot_marshal hw hd he]
    exact .single (.resume _ _)

end

/-- A property of views that holds initially and that every move keeps. -/
structure MoveInvariant (w : World) (I : View → Prop) : Prop where
  initial : ∀ m, Initial w m → I (m.exchange, m.trace)
  move : ∀ s s', Move w s s' → I s → I s'

namespace MoveInvariant

variable {w : World} {I : View → Prop}

theorem moves (hI : MoveInvariant w I) {s s' : View} (h : Relation.ReflTransGen (Move w) s s')
    (hs : I s) : I s' := by
  induction h with
  | refl => exact hs
  | tail _ hm ih => exact hI.move _ _ hm ih

theorem reachable (hI : MoveInvariant w I) {m : Machine} (hm : Reachable w m) :
    I (m.exchange, m.trace) := by
  obtain ⟨m₀, h₀, hs⟩ := hm
  induction hs with
  | refl => exact hI.initial _ h₀
  | tail _ hstep ih => exact hI.moves (RunStep.moves w hstep) ih

theorem resumable (hI : MoveInvariant w I) (hw : w.RoundTrips) {m : Machine}
    (hm : Resumable w m) : I (m.exchange, m.trace) := by
  obtain ⟨m₀, h₀, hs⟩ := hm
  induction hs with
  | refl => exact hI.initial _ h₀
  | tail _ hstep ih => exact hI.moves (HostStep.moves w hw hstep) ih

end MoveInvariant

end Reunion.Client
