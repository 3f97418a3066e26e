import Reunion.Client.Run

/-! # `Run`, one statement at a time

The driver of `Run` as a small-step machine. `Pc` says where `Run` is: at the `switch` on
the status, at the top of its `for` loop (`fetchState`), at one of the two reply passes with
the `sentUpdateOK` and `shouldStop` after it, at `processT3Messages`, or returned. One
`Pc.step` executes the next statement against the world. `run` with `fuel` iterations of
the loop is the driver iterated `4 * fuel + 1` times (`run_iterate`); a property that every
method keeps is kept by every statement (`RunInvariant.step`), so the driver may be
interleaved with other peers and still moves its exchange by `Move`s only.
-/

namespace Reunion.Client

/-- Where `Run` is. -/
inductive Pc where
  /-- The `switch e.status`. -/
  | entry
  /-- The top of the loop of the `t1MessageSentState` case. -/
  | fetch
  /-- `sendT2Messages`, then `sentUpdateOK` and `shouldStop`. -/
  | sendT2
  /-- `sendT3Messages`, then `sentUpdateOK` and `shouldStop`. -/
  | sendT3
  | processT3
  | halted (h : Halt)
deriving DecidableEq

namespace Pc

def ofHalt (next : Pc) : Option Halt → Pc
  | some h => .halted h
  | none => next

def inLoop : Pc → Bool
  | .fetch | .sendT2 | .sendT3 | .processT3 => true
  | _ => false

/-- The status `Run` has at `pc`. -/
def Ready (pc : Pc) (e : Exchange) : Prop := pc.inLoop = true → e.status = t1MessageSentState

@[simp] theorem ofHalt_some (next : Pc) (h : Halt) : ofHalt next (some h) = .halted h := rfl
@[simp] theorem ofHalt_none (next : Pc) : ofHalt next none = next := rfl

theorem ready_entry (e : Exchange) : Ready .entry e := fun h => absurd h Bool.false_ne_true

theorem ready_halted (h : Halt) (e : Exchange) : Ready (.halted h) e :=
  fun h => absurd h Bool.false_ne_true

theorem ready_ofHalt {next : Pc} {e : Exchange} (hn : Ready next e) :
    ∀ h, Ready (ofHalt next h) e
  | some h => ready_halted h e
  | none => hn

section
variable (w : World)

/-- One statement of `Run`. -/
def step : Pc × Machine → Pc × Machine
  | (.entry, m) =>
    if m.exchange.status = initialState then
      match sendT1 w m with
      | (false, m) => (.halted .sendT1Failed, m)
      | (true, m) =>
        let r := checkpoint w (m.modify fun e => { e with status := t1MessageSentState })
        (ofHalt .fetch r.1, r.2)
    else if m.exchange.status = t1MessageSentState then (.fetch, m)
    else
      (.halted .unknownState,
        m.emit ⟨m.exchange.contactID, some "unknown state error", none, none⟩)
  | (.fetch, m) =>
    match fetchState w m with
    | (.error err, m) => (.halted (.fetchStateFailed err), m)
    | (.ok _, m) => (.sendT2, m)
  | (.sendT2, m) =>
    let r := checkpoint w (sendT2Messages w m).2
    (ofHalt .sendT3 r.1, r.2)
  | (.sendT3, m) =>
    let r := checkpoint w (sendT3Messages w m).2
    (ofHalt .processT3 r.1, r.2)
  | (.processT3, m) =>
    match processT3Messages w m with
    | (true, m) => (.halted .completed, m)
    | (false, m) => (.fetch, m)
  | (.halted h, m) => (.halted h, m)

@[simp] theorem step_halted (h : Halt) (m : Machine) : step w (.halted h, m) = (.halted h, m) :=
  rfl

theorem iterate_halted (h : Halt) (m : Machine) (k : Nat) :
    (step w)^[k] (.halted h, m) = (.halted h, m) :=
  Function.iterate_fixed (step_halted w h m) k

end

/-- The driver's state once `run` or `runLoop` returned `r`: returned, or back at the top of
the loop when the fuel ran out. -/
def ofRun (r : Option Halt × Machine) : Pc × Machine := (ofHalt .fetch r.1, r.2)

end Pc

section
variable (w : World)

theorem runLoop_iterate (fuel : Nat) (m : Machine) :
    (Pc.step w)^[4 * fuel] (.fetch, m) = Pc.ofRun (runLoop w fuel m) := by
  induction fuel generalizing m with
  | zero => rfl
  | succ fuel ih =>
    rw [Nat.mul_succ, Function.iterate_add_apply, runLoop]
    simp only [Function.iterate_succ_apply, Function.iterate_zero_apply]
    rcases hf : fetchState w m with ⟨_ | _, m₁⟩ <;> simp only [Pc.step, hf]
    · exact Pc.iterate_halted w _ _ _
    rcases hc : checkpoint w (sendT2Messages w m₁).2 with ⟨_ | h, m₂⟩ <;>
      simp only [hc, Pc.ofHalt_none, Pc.ofHalt_some, Pc.step_halted]
    · rcases hc' : checkpoint w (sendT3Messages w m₂).2 with ⟨_ | h, m₃⟩ <;>
        simp only [Pc.step, hc', Pc.ofHalt_none, Pc.ofHalt_some, Pc.step_halted]
      · rcases hp : processT3Messages w m₃ with ⟨_ | _, m₄⟩ <;> simp only [hp]
        · exact ih m₄
        · exact Pc.iterate_halted w _ _ _
      · exact Pc.iterate_halted w _ _ _
    · exact Pc.iterate_halted w _ _ _

/-- `Run` with `fuel` iterations of its loop is `4 * fuel + 1` statements of the driver. -/
theorem run_iterate (fuel : Nat) (m : Machine) :
    (Pc.step w)^[4 * fuel + 1] (.entry, m) = Pc.ofRun (run w fuel m) := by
  rw [Function.iterate_succ_apply, run]
  simp only [Pc.step]
  split_ifs with h₀ h₁
  · rcases hs : sendT1 w m with ⟨_ | _, m₁⟩ <;> simp only [hs]
    · exact Pc.iterate_halted w _ _ _
    rcases hc : checkpoint w (m₁.modify fun e => { e with status := t1MessageSentState }) with
      ⟨_ | h, m₂⟩ <;> simp only [hc, Pc.ofHalt_none, Pc.ofHalt_some]
    · exact runLoop_iterate w fuel m₂
    · exact Pc.iterate_halted w _ _ _
  · exact runLoop_iterate w fuel m
  · exact Pc.iterate_halted w _ _ _

end

namespace RunInvariant

variable {w : World} {P : Exchange → List Event → Prop}

theorem step (hP : RunInvariant w P) {s : Pc × Machine} (hr : s.1.Ready s.2.exchange)
    (hs : P s.2.exchange s.2.trace) :
    (Pc.step w s).1.Ready (Pc.step w s).2.exchange ∧
      P (Pc.step w s).2.exchange (Pc.step w s).2.trace := by
  obtain ⟨pc, m⟩ := s
  cases pc with
  | entry =>
    simp only [Pc.step]
    split_ifs with h₀ h₁
    · have h := hP.after_sendT1 m h₀ hs
      rcases hs₁ : sendT1 w m with ⟨_ | _, m₁⟩ <;> rw [hs₁] at h <;> dsimp only at h ⊢
      · exact ⟨Pc.ready_halted _ _, h⟩
      have he :=
        checkpoint_exchange w (m₁.modify fun e => { e with status := t1MessageSentState })
      exact ⟨Pc.ready_ofHalt (fun _ => by rw [he]; rfl) _, hP.after_checkpoint _ h⟩
    · exact ⟨fun _ => h₁, hs⟩
    · exact ⟨Pc.ready_halted _ _, hP.after_emit _ _ _ rfl hs⟩
  | fetch =>
    have h := hP.after_fetchState m (hr rfl) hs
    have hst := (fetchState_status w m).trans (hr rfl)
    simp only [Pc.step]
    rcases hf : fetchState w m with ⟨_ | _, m₁⟩ <;> rw [hf] at h hst
    exacts [⟨Pc.ready_halted _ _, h⟩, ⟨fun _ => hst, h⟩]
  | sendT2 =>
    obtain ⟨hst, h⟩ := hP.after_pass hP.after_sendT2Messages (sendT2Messages_status w)
      Prod.mk.eta.symm (hr rfl) hs
    exact ⟨Pc.ready_ofHalt (fun _ => hst) _, h⟩
  | sendT3 =>
    obtain ⟨hst, h⟩ := hP.after_pass hP.after_sendT3Messages (sendT3Messages_status w)
      Prod.mk.eta.symm (hr rfl) hs
    exact ⟨Pc.ready_ofHalt (fun _ => hst) _, h⟩
  | processT3 =>
    have h := hP.after_processT3Messages m hs
    have he := processT3Messages_exchange w m
    simp only [Pc.step]
    rcases hp : processT3Messages w m with ⟨_ | _, m₁⟩ <;> rw [hp] at h he
    exacts [⟨fun _ => he ▸ hr rfl, h⟩, ⟨Pc.ready_halted _ _, h⟩]
  | halted h => exact ⟨hr, hs⟩

end RunInvariant

end Reunion.Client
