import Reunion.Safety.Invariant

/-! # At most one accepted send per peer

Over the whole history of one exchange, across any number of `Run` invocations and any
resumptions from its snapshots (under a round-tripping codec), the database accepts at most
one `SendT1`, and for every hash `d` at most one `SendT2` and one `SendT3` addressed to `d`.
The replied maps are the ledger: an accepted send to `d` is recorded before `Run` can look
at `d` again, and the record is never lost.
-/

namespace Reunion.Safety
open Reunion.Client

/-- An accepted `SendT1`. -/
def acceptedT1 : Event → Bool
  | .query (.sendT1 _ _) r => accepted r
  | _ => false

/-- An accepted `SendT2` addressed to `d`. -/
def acceptedT2 (d : ExchangeHash) : Event → Bool
  | .query (.sendT2 _ _ dst _) r => dst == d && accepted r
  | _ => false

/-- An accepted `SendT3` addressed to `d`. -/
def acceptedT3 (d : ExchangeHash) : Event → Bool
  | .query (.sendT3 _ _ dst _) r => dst == d && accepted r
  | _ => false

/-- Every accepted send of the history is on the ledger, and at most once. -/
structure Ledger (e : Exchange) (tr : List Event) : Prop where
  t1 : tr.countP acceptedT1 ≤ if e.status = t1MessageSentState then 1 else 0
  t2 : ∀ d, tr.countP (acceptedT2 d) ≤ if d ∈ e.repliedT1s then 1 else 0
  t3 : ∀ d, tr.countP (acceptedT3 d) ≤ if d ∈ e.decryptedT1Betas then 1 else 0

section
variable {p : Event → Bool} {tr : List Event} {A B : Prop} [Decidable A] [Decidable B]

theorem count_mono (h : tr.countP p ≤ if A then 1 else 0) (hAB : A → B) :
    tr.countP p ≤ if B then 1 else 0 := by
  by_cases hA : A <;> by_cases hB : B <;> simp only [hA, hB, if_true, if_false] at h ⊢
  exacts [h, absurd (hAB hA) hB, by omega, h]

theorem count_cons (ev : Event) (h : tr.countP p ≤ if A then 1 else 0) (hAB : A → B)
    (hev : p ev = true → ¬A ∧ B) : (ev :: tr).countP p ≤ if B then 1 else 0 := by
  rw [List.countP_cons]
  cases hp : p ev
  · simpa using count_mono h hAB
  · obtain ⟨hA, hB⟩ := hev hp
    simp_all

end

theorem Ledger.cons_of_not_send {e : Exchange} {tr : List Event} (hl : Ledger e tr) {ev : Event}
    (h₁ : acceptedT1 ev = false) (h₂ : ∀ d, acceptedT2 d ev = false)
    (h₃ : ∀ d, acceptedT3 d ev = false) : Ledger e (ev :: tr) :=
  ⟨count_cons _ hl.t1 id (by simp [h₁]), fun d => count_cons _ (hl.t2 d) id (by simp [h₂ d]),
    fun d => count_cons _ (hl.t3 d) id (by simp [h₃ d])⟩

theorem ledger_initial {w : World} {m : Machine} (h : Initial w m) : Ledger m.exchange m.trace := by
  rw [h.1]; exact ⟨by simp, by simp, by simp⟩

theorem ledger_move (w : World) : MoveInvariant w fun s => Inv w.sha256 s.1 ∧ Ledger s.1 s.2 where
  initial _ h := ⟨inv_initial h, ledger_initial h⟩
  move s s' h hs := by
    obtain ⟨hi, hl⟩ := hs
    refine ⟨(inv_move w).move s s' h hi, ?_⟩
    cases h with
    | generate => exact { hl with }
    | sendT1 e tr t1 r hs =>
      refine ⟨count_cons _ hl.t1 (fun h => absurd (hs.symm.trans h) Inv.initialState_ne) ?_,
        fun d => count_cons _ (hl.t2 d) ?_ (by simp [acceptedT2]),
        fun d => count_cons _ (hl.t3 d) ?_ (by simp [acceptedT3])⟩
      · intro ha
        simp only [acceptedT1] at ha
        simp [ha, hs, Inv.initialState_ne]
      all_goals split <;> exact id
    | fetch => exact { hl.cons_of_not_send (by rfl) (fun _ => by rfl) (fun _ => by rfl) with }
    | sendT2 e tr t1Hash t1 t2 α β γ pk n r hs hl₁ hne hr =>
      refine ⟨count_cons _ hl.t1 ?_ (by simp [acceptedT1]),
        fun d => count_cons _ (hl.t2 d) ?_ ?_,
        fun d => count_cons _ (hl.t3 d) ?_ (by simp [acceptedT3])⟩
      all_goals dsimp only
      · split <;> exact id
      · split <;> simp_all [AList.mem_insert]
      · simp only [acceptedT2, Bool.and_eq_true, beq_iff_eq]
        rintro ⟨rfl, ha⟩
        simp [ha, hr, AList.mem_insert]
      · split <;> exact id
    | sendT3 e tr src t1 t2 t3 k α β γ pk beta n r hs h₂ h₁ hr =>
      refine ⟨count_cons _ hl.t1 ?_ (by simp [acceptedT1]),
        fun d => count_cons _ (hl.t2 d) ?_ (by simp [acceptedT2]),
        fun d => count_cons _ (hl.t3 d) ?_ ?_⟩
      all_goals dsimp only
      · split <;> exact id
      · split <;> exact id
      · split <;> simp_all [AList.mem_insert]
      · simp only [acceptedT3, Bool.and_eq_true, beq_iff_eq]
        rintro ⟨rfl, ha⟩
        simp [ha, not_mem_betas hi h₂ hr, AList.mem_insert]
    | result => exact hl.cons_of_not_send rfl (fun _ => rfl) (fun _ => rfl)
    | emit => exact hl.cons_of_not_send rfl (fun _ => rfl) (fun _ => rfl)
    | resume => exact { hl with }

/-- Whatever the board answers and whenever the host re-runs or resumes the exchange, the
board accepts at most one `SendT1`, and at most one `SendT2` and one `SendT3` per
destination hash. -/
theorem resumable_at_most_once {w : World} (hw : w.RoundTrips) {m : Machine}
    (hm : Resumable w m) :
    m.trace.countP acceptedT1 ≤ 1 ∧
      ∀ d, m.trace.countP (acceptedT2 d) ≤ 1 ∧ m.trace.countP (acceptedT3 d) ≤ 1 := by
  obtain ⟨-, hl⟩ := (ledger_move w).resumable hw hm
  refine ⟨hl.t1.trans ?_, fun d => ⟨(hl.t2 d).trans ?_, (hl.t3 d).trans ?_⟩⟩ <;>
    split <;> simp

theorem sample_at_most_once :
    snapshotWorld.RoundTrips ∧ Resumable snapshotWorld resumedRun ∧
      resumedRun.trace.countP acceptedT1 = 1 ∧
      resumedRun.trace.countP (acceptedT2 (hashKey 1)) = 1 ∧
      resumedRun.trace.countP (acceptedT3 (hashKey 2)) = 1 ∧
      (resumedRun.trace.countP acceptedT1 ≤ 1 ∧
        ∀ d, resumedRun.trace.countP (acceptedT2 d) ≤ 1 ∧
          resumedRun.trace.countP (acceptedT3 d) ≤ 1) :=
  ⟨World.knowing_roundTrips _ _ _ _, resumedRun_resumable, by decide, by decide, by decide,
    resumable_at_most_once (World.knowing_roundTrips _ _ _ _) resumedRun_resumable⟩

end Reunion.Safety
