import Reunion.Safety.Invariant

/-! # Nothing filed is ever lost or replaced

Between any two states of one exchange, the maps of received messages, of replies and of
decrypted beta keys only grow as sub-maps, so no later board response can overwrite a
T1, T2 or T3 already filed under a hash; and once the T1 is sent, status, T1 and session
are fixed. The first-write-wins of the beta keys rests on the invariant: a beta key is
only ever written for a T2 not yet answered.
-/

namespace Reunion.Safety
open Reunion.Client Relation

/-- `e'` is a later state of `e`. -/
structure Extends (e e' : Exchange) : Prop where
  receivedT1s : SubMap e.receivedT1s e'.receivedT1s
  receivedT2s : SubMap e.receivedT2s e'.receivedT2s
  receivedT3s : SubMap e.receivedT3s e'.receivedT3s
  repliedT1s : SubMap e.repliedT1s e'.repliedT1s
  repliedT2s : SubMap e.repliedT2s e'.repliedT2s
  decryptedT1Betas : SubMap e.decryptedT1Betas e'.decryptedT1Betas
  fixed : e.status = t1MessageSentState →
    e'.status = t1MessageSentState ∧ e'.sentT1 = e.sentT1 ∧ e'.session = e.session

namespace Extends

variable {e₁ e₂ e₃ : Exchange}

theorem refl (e : Exchange) : Extends e e :=
  ⟨.refl _, .refl _, .refl _, .refl _, .refl _, .refl _, fun h => ⟨h, rfl, rfl⟩⟩

theorem trans (h₁ : Extends e₁ e₂) (h₂ : Extends e₂ e₃) : Extends e₁ e₃ where
  receivedT1s := h₁.receivedT1s.trans h₂.receivedT1s
  receivedT2s := h₁.receivedT2s.trans h₂.receivedT2s
  receivedT3s := h₁.receivedT3s.trans h₂.receivedT3s
  repliedT1s := h₁.repliedT1s.trans h₂.repliedT1s
  repliedT2s := h₁.repliedT2s.trans h₂.repliedT2s
  decryptedT1Betas := h₁.decryptedT1Betas.trans h₂.decryptedT1Betas
  fixed h := by
    obtain ⟨hs, ht, hse⟩ := h₁.fixed h
    obtain ⟨hs', ht', hse'⟩ := h₂.fixed hs
    exact ⟨hs', ht'.trans ht, hse'.trans hse⟩

end Extends

theorem move_extends {w : World} {s s' : View} (h : Move w s s') (hi : Inv w.sha256 s.1) :
    Extends s.1 s'.1 := by
  cases h with
  | generate e tr t1 hs =>
    exact ⟨.refl _, .refl _, .refl _, .refl _, .refl _, .refl _,
      fun h => absurd (hs.symm.trans h) Inv.initialState_ne⟩
  | sendT1 e tr t1 r hs =>
    split <;> exact ⟨.refl _, .refl _, .refl _, .refl _, .refl _, .refl _,
      fun h => absurd (hs.symm.trans h) Inv.initialState_ne⟩
  | fetch e tr t1s t2s t3s r hs h₁ h₂ h₃ =>
    exact ⟨h₁, h₂, h₃, .refl _, .refl _, .refl _, fun h => ⟨h, rfl, rfl⟩⟩
  | sendT2 e tr t1Hash t1 t2 α β γ pk n r hs hl hne hr =>
    dsimp only
    split
    · exact ⟨.refl _, .refl _, .refl _, subMap_insert hr, .refl _, .refl _,
        fun h => ⟨h, rfl, rfl⟩⟩
    · exact ⟨.refl _, .refl _, .refl _, .refl _, .refl _, .refl _, fun h => ⟨h, rfl, rfl⟩⟩
  | sendT3 e tr src t1 t2 t3 k α β γ pk beta n r hs h₂ h₁ hr =>
    dsimp only
    split
    · exact ⟨.refl _, .refl _, .refl _, .refl _, subMap_insert hr,
        subMap_insert (not_mem_betas hi h₂ hr), fun h => ⟨h, rfl, rfl⟩⟩
    · exact Extends.refl _
  | result => exact Extends.refl _
  | emit => exact Extends.refl _
  | resume =>
    exact ⟨.refl _, .refl _, .refl _, .refl _, .refl _, .refl _, fun h => ⟨h, rfl, rfl⟩⟩

theorem moves_extends {w : World} {s s' : View} (h : ReflTransGen (Move w) s s')
    (hi : Inv w.sha256 s.1) : Extends s.1 s'.1 := by
  induction h with
  | refl => exact Extends.refl _
  | tail hs hm ih => exact ih.trans (move_extends hm (((inv_move w).moves hs hi)))

end Reunion.Safety
