import Reunion.Client.Run

/-! # What `Run` tells the host

The updates a run emits on `updateChan`. A run that returns because a T3 opened has a
result as its newest update (`run_completed_result`), and a run emits an error update only
when it returns on a `Marshal` failure or an unknown status (`run_noError`). So one pass of
`processT3Messages` may emit a result for every T3 that opens (`two_results`), and the
returns on cancellation, on a `sendT1` failure and on a `fetchState` failure leave the host
without an error update (`shutdown_unreported`).
-/

namespace Reunion.Client

/-- The newest event is a result update as `processT3Messages` sends it: no error, no
snapshot, and the plaintext `p` of a T3 that opened in `Result`. A `nil` plaintext is
`some []` here, so `some` says which field the update sets, not that the slice is non-nil. -/
def ResultOnTop (tr : List Event) : Prop :=
  ∃ u rest p, tr = .update u :: rest ∧ u.error = none ∧ u.serialized = none ∧ u.result = some p

/-- The results of the updates in a history, newest first. -/
def results (tr : List Event) : List Bytes :=
  tr.filterMap fun
    | .update u => u.result
    | .query .. => none

/-- The newest update of a history. -/
def lastUpdate (tr : List Event) : Option ReunionUpdate :=
  tr.findSome? fun
    | .update u => some u
    | .query .. => none

section
variable (w : World)

theorem processT3Loop_result (xs : List Entry) : ∀ (flag : Bool) (m : Machine),
    (flag = true → ResultOnTop m.trace) → (rangeLoop (processT3Body w) xs flag m).1 = true →
      ResultOnTop (rangeLoop (processT3Body w) xs flag m).2.trace := by
  induction xs with
  | nil => exact fun _ _ h => h
  | cons x xs ih =>
    intro flag m hm
    obtain ⟨src, t3⟩ := x
    rw [rangeLoop]
    rcases processT3Body_spec w src t3 m with ⟨m', hf | hf, -, ht⟩ |
      ⟨beta, t1, α, β, γ, plaintext, -, -, -, -, hf⟩ <;> rw [hf]
    · exact ih flag m' (ht ▸ hm)
    · exact fun h => absurd h Bool.false_ne_true
    · exact ih true _ fun _ => ⟨_, _, _, rfl, rfl, rfl, rfl⟩

theorem processT3Messages_result (m : Machine) (h : (processT3Messages w m).1 = true) :
    ResultOnTop (processT3Messages w m).2.trace :=
  processT3Loop_result w _ false _ (fun h => absurd h Bool.false_ne_true) h

theorem checkpoint_ne_completed (m : Machine) : (checkpoint w m).1 ≠ some .completed := by
  rcases h : m.exchange.marshal w with err | serialized
  · rw [checkpoint_of_marshal_error w h]; simp
  · rw [checkpoint_of_marshal_ok w h]; split_ifs <;> simp

/-- The updates of `tr` that were added to `tr₀` carry no error. -/
def NoErrorSince (tr₀ tr : List Event) : Prop :=
  ∃ new, tr = new ++ tr₀ ∧ ∀ u, .update u ∈ new → u.error = none

namespace NoErrorSince

variable {tr₀ tr : List Event}

theorem refl (tr : List Event) : NoErrorSince tr tr :=
  ⟨[], rfl, fun _ h => absurd h (List.not_mem_nil _)⟩

theorem cons (h : NoErrorSince tr₀ tr) (ev : Event)
    (hev : ∀ u, ev = .update u → u.error = none) : NoErrorSince tr₀ (ev :: tr) := by
  obtain ⟨new, rfl, hn⟩ := h
  refine ⟨ev :: new, rfl, fun u hu => ?_⟩
  rcases List.mem_cons.1 hu with hu | hu
  exacts [hev u hu.symm, hn u hu]

theorem query (h : NoErrorSince tr₀ tr) (cmd : Command) (r : Except String Response) :
    NoErrorSince tr₀ (.query cmd r :: tr) :=
  h.cons _ fun _ h => by cases h

end NoErrorSince

theorem checkpoint_noError {tr₀ : List Event} {m m' : Machine} {halt : Option Halt}
    (hc : checkpoint w m = (halt, m')) (h : NoErrorSince tr₀ m.trace)
    (hh : halt ≠ some .marshalFailed) : NoErrorSince tr₀ m'.trace := by
  obtain ⟨u, hu, -, -, he⟩ := checkpoint_trace w m
  rw [hc] at hu he
  rw [hu]
  exact h.cons _ fun u' h' => by cases h'; exact not_not.1 (mt he.2 hh)

theorem loop_noError {tr₀ : List Event} (m : Machine) (h : NoErrorSince tr₀ m.trace) :
    NoErrorSince tr₀ (fetchState w m).2.trace ∧
      NoErrorSince tr₀ (sendT2Messages w m).2.trace ∧
      NoErrorSince tr₀ (sendT3Messages w m).2.trace ∧
      NoErrorSince tr₀ (processT3Messages w m).2.trace := by
  refine ⟨?_, sendT2Messages_preserves w m (P := fun _ tr => NoErrorSince tr₀ tr)
      (fun _ _ _ _ _ _ _ _ _ _ _ _ _ _ _ _ h => h.query _ _) h,
    sendT3Messages_preserves w m (P := fun _ tr => NoErrorSince tr₀ tr)
      (fun _ _ _ _ _ _ _ _ _ _ _ _ _ _ _ _ _ _ _ _ _ _ h => h.query _ _) h,
    processT3Messages_preserves w m (P := fun _ tr => NoErrorSince tr₀ tr)
      (fun _ _ _ _ _ _ _ _ _ _ _ _ _ _ _ h => h.cons _ fun _ hu => by cases hu; rfl) h⟩
  obtain ⟨_, _, _, _, -, -, -, -, ht⟩ := fetchState_spec w m
  rw [ht]
  exact h.query _ _

theorem sendT1_noError (m : Machine) : NoErrorSince m.trace (sendT1 w m).2.trace := by
  obtain ⟨t1, -, ⟨-, ht⟩ | ⟨ht, -⟩⟩ := sendT1_spec w m <;> rw [ht]
  exacts [.refl _, (NoErrorSince.refl _).query _ _]

theorem runLoop_noError {tr₀ : List Event} (fuel : Nat) : ∀ m, NoErrorSince tr₀ m.trace →
    (runLoop w fuel m).1 ≠ some .marshalFailed →
      NoErrorSince tr₀ (runLoop w fuel m).2.trace := by
  induction fuel with
  | zero => exact fun _ h _ => h
  | succ fuel ih =>
    intro m h
    have h₁ := (loop_noError w m h).1
    rw [runLoop]
    rcases hf : fetchState w m with ⟨_ | _, m₁⟩ <;> rw [hf] at h₁ <;> dsimp only
    · exact fun _ => h₁
    have h₂ := (loop_noError w m₁ h₁).2.1
    rcases hc : checkpoint w (sendT2Messages w m₁).2 with ⟨_ | halt, m₂⟩ <;> dsimp only
    · have h₃ := (loop_noError w m₂ (checkpoint_noError w hc h₂ (by rintro ⟨⟩))).2.2.1
      rcases hc' : checkpoint w (sendT3Messages w m₂).2 with ⟨_ | halt, m₃⟩ <;> dsimp only
      · have h₄ := (loop_noError w m₃ (checkpoint_noError w hc' h₃ (by rintro ⟨⟩))).2.2.2
        rcases hp : processT3Messages w m₃ with ⟨_ | _, m₄⟩ <;> rw [hp] at h₄ <;>
          dsimp only
        · exact ih m₄ h₄
        · exact fun _ => h₄
      · exact checkpoint_noError w hc' h₃
    · exact checkpoint_noError w hc h₂

/-- A run tells the host of an error only by returning on a `Marshal` failure or an unknown
status: whenever it returns on cancellation, on a `sendT1` or `fetchState` failure, or after
a result, or is still looping, no update it emitted carries an error. -/
theorem run_noError (fuel : Nat) (m : Machine) (hm : (run w fuel m).1 ≠ some .marshalFailed)
    (hu : (run w fuel m).1 ≠ some .unknownState) :
    NoErrorSince m.trace (run w fuel m).2.trace := by
  revert hm hu
  unfold run
  split_ifs
  · have h₁ := sendT1_noError w m
    rcases hs : sendT1 w m with ⟨_ | _, m₁⟩ <;> rw [hs] at h₁ <;> dsimp only
    · exact fun _ _ => h₁
    rcases hc : checkpoint w (m₁.modify fun e => { e with status := t1MessageSentState })
      with ⟨_ | halt, m₂⟩ <;> dsimp only
    · exact fun hm _ =>
        runLoop_noError w fuel m₂ (checkpoint_noError w hc h₁ (by rintro ⟨⟩)) hm
    · exact fun hm _ => checkpoint_noError w hc h₁ hm
  · exact fun hm _ => runLoop_noError w fuel m (.refl _) hm
  · exact fun _ hu => absurd rfl hu

end

/-! ## Two peers whose T3s both open -/

/-- One run from `NewExchange` emits two results, one per peer, in the same pass of
`processT3Messages`. -/
theorem two_results :
    Initial twoPeerWorld ⟨sampleExchange, 0, []⟩ ∧
      (run twoPeerWorld 1 ⟨sampleExchange, 0, []⟩).1 = some .completed ∧
      results (run twoPeerWorld 1 ⟨sampleExchange, 0, []⟩).2.trace = [[5], [6]] :=
  ⟨⟨rfl, [], 0, [], [], 0, rfl⟩, by decide, by decide⟩

/-- An accepting board, and a shutdown signal that is always there. -/
def shutdownWorld : World := { World.board ⟨∅, []⟩ with shutdown := fun _ => true }

/-- A board that accepts every message and answers `FetchState` with an error status. -/
def unavailableWorld : World :=
  { World.board ⟨∅, []⟩ with
    query := fun n cmd => match cmd with
      | .fetchState .. => .ok (.stateResponse 1 false [])
      | cmd => acceptingBoard n cmd }

/-- A run from `NewExchange` that returns on cancellation, and one that returns because
`FetchState` failed: in both the newest update is the snapshot, which carries neither an error
nor a result. -/
theorem shutdown_unreported :
    Initial shutdownWorld ⟨sampleExchange, 0, []⟩ ∧
      (run shutdownWorld 0 ⟨sampleExchange, 0, []⟩).1 = some .shutdown ∧
      lastUpdate (run shutdownWorld 0 ⟨sampleExchange, 0, []⟩).2.trace =
        some ⟨0, none, some [], none⟩ ∧
      Initial unavailableWorld ⟨sampleExchange, 0, []⟩ ∧
      (∃ err, (run unavailableWorld 1 ⟨sampleExchange, 0, []⟩).1 = some (.fetchStateFailed err)) ∧
      lastUpdate (run unavailableWorld 1 ⟨sampleExchange, 0, []⟩).2.trace =
        some ⟨0, none, some [], none⟩ :=
  ⟨⟨rfl, [], 0, [], [], 0, rfl⟩, by decide, by decide, ⟨rfl, [], 0, [], [], 0, rfl⟩, ⟨_, rfl⟩,
    by decide⟩

theorem shutdown_noError :
    (run shutdownWorld 0 ⟨sampleExchange, 0, []⟩).1 ≠ some .marshalFailed ∧
      (run shutdownWorld 0 ⟨sampleExchange, 0, []⟩).1 ≠ some .unknownState ∧
      NoErrorSince [] (run shutdownWorld 0 ⟨sampleExchange, 0, []⟩).2.trace :=
  have hm : (run shutdownWorld 0 ⟨sampleExchange, 0, []⟩).1 ≠ some .marshalFailed := by decide
  have hu : (run shutdownWorld 0 ⟨sampleExchange, 0, []⟩).1 ≠ some .unknownState := by decide
  ⟨hm, hu, run_noError _ _ _ hm hu⟩

end Reunion.Client
