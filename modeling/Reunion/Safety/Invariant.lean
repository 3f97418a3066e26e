import Reunion.Client.Move

/-! # The reachable-state invariant

What every state reached from `NewExchange` satisfies, whatever the database answers, the
crypto outcomes, the `range` orders and the shutdown timing: before the T1 is sent all maps
are empty; replies are filed only for messages received; a T2 is marked replied under its
own hash; the own T1 is never answered; and a decrypted beta key means its T2 was answered.
-/

namespace Reunion.Safety
open Reunion.Client

/-- The invariant of the exchange state; `H` is SHA-256. -/
structure Inv (H : Bytes → ExchangeHash) (e : Exchange) : Prop where
  status : e.status = initialState ∨ e.status = t1MessageSentState
  initial_empty : e.status = initialState →
    e.sentT2Map = ∅ ∧ e.repliedT1s = ∅ ∧ e.repliedT2s = ∅ ∧ e.receivedT1s = ∅ ∧
      e.receivedT2s = ∅ ∧ e.receivedT3s = ∅ ∧ e.receivedT1Alphas = ∅ ∧
      e.decryptedT1Betas = ∅
  replied_t1s : SubMap e.repliedT1s e.receivedT1s
  replied_t2s : ∀ k t2, e.repliedT2s.lookup k = some t2 →
    k = H t2 ∧ ∃ s, e.receivedT2s.lookup s = some t2
  own_t1 : H e.sentT1 ∉ e.repliedT1s ∧ H e.sentT1 ∉ e.receivedT1Alphas ∧
    H e.sentT1 ∉ e.decryptedT1Betas
  alphas : ∀ h ∈ e.receivedT1Alphas, h ∈ e.receivedT1s
  betas : ∀ h ∈ e.decryptedT1Betas, h ∈ e.receivedT1Alphas
  betas_replied : ∀ h ∈ e.decryptedT1Betas,
    ∃ t2, e.receivedT2s.lookup h = some t2 ∧ H t2 ∈ e.repliedT2s

namespace Inv

variable {H : Bytes → ExchangeHash} {e : Exchange}

theorem initialState_ne : initialState ≠ t1MessageSentState := by decide

theorem of_empty (hs : e.status = initialState ∨ e.status = t1MessageSentState)
    (h : e.sentT2Map = ∅ ∧ e.repliedT1s = ∅ ∧ e.repliedT2s = ∅ ∧ e.receivedT1s = ∅ ∧
      e.receivedT2s = ∅ ∧ e.receivedT3s = ∅ ∧ e.receivedT1Alphas = ∅ ∧
      e.decryptedT1Betas = ∅) : Inv H e := by
  obtain ⟨h₁, h₂, h₃, h₄, h₅, h₆, h₇, h₈⟩ := h
  refine ⟨hs, fun _ => ⟨h₁, h₂, h₃, h₄, h₅, h₆, h₇, h₈⟩, ?_, ?_, ?_, ?_, ?_, ?_⟩ <;>
    simp [h₂, h₃, h₇, h₈, SubMap.of_empty, AList.not_mem_empty]

theorem grow_received (hi : Inv H e) (hs : e.status = t1MessageSentState)
    {t1s t2s t3s : ExchangeMap Bytes} (h₁ : SubMap e.receivedT1s t1s)
    (h₂ : SubMap e.receivedT2s t2s) :
    Inv H { e with receivedT1s := t1s, receivedT2s := t2s, receivedT3s := t3s } where
  status := hi.status
  initial_empty h := absurd (hs.symm.trans h) initialState_ne.symm
  replied_t1s := hi.replied_t1s.trans h₁
  replied_t2s k t2 h := by
    obtain ⟨hk, s, hs⟩ := hi.replied_t2s k t2 h
    exact ⟨hk, s, h₂ hs⟩
  own_t1 := hi.own_t1
  alphas h hh := h₁.mem (hi.alphas h hh)
  betas := hi.betas
  betas_replied h hh := by
    obtain ⟨t2, hl, hr⟩ := hi.betas_replied h hh
    exact ⟨t2, h₂ hl, hr⟩

theorem storeT2 (hi : Inv H e) (hs : e.status = t1MessageSentState) {t1Hash : ExchangeHash}
    (h₁ : t1Hash ∈ e.receivedT1s) (h₂ : t1Hash ≠ H e.sentT1) (pk : PublicKey)
    (t2Hash : ExchangeHash) (t2 : Bytes) : Inv H (e.storeT2 t1Hash pk t2Hash t2) where
  status := hi.status
  initial_empty h := absurd (hs.symm.trans h) initialState_ne.symm
  replied_t1s := hi.replied_t1s
  replied_t2s := hi.replied_t2s
  own_t1 := ⟨hi.own_t1.1, by simpa [AList.mem_insert, Ne.symm h₂] using hi.own_t1.2.1,
    hi.own_t1.2.2⟩
  alphas h hh := by
    rcases (AList.mem_insert _).1 hh with rfl | hh
    exacts [h₁, hi.alphas h hh]
  betas h hh := (AList.mem_insert _).2 (.inr (hi.betas h hh))
  betas_replied := hi.betas_replied

theorem replyT1 (hi : Inv H e) (hs : e.status = t1MessageSentState) {t1Hash : ExchangeHash}
    {t1 : Bytes} (h₁ : e.receivedT1s.lookup t1Hash = some t1) (h₂ : t1Hash ≠ H e.sentT1) :
    Inv H (e.replyT1 t1Hash t1) where
  status := hi.status
  initial_empty h := absurd (hs.symm.trans h) initialState_ne.symm
  replied_t1s k v h := by
    rcases lookup_insert_eq_some.1 h with ⟨rfl, rfl⟩ | ⟨-, h⟩
    exacts [h₁, hi.replied_t1s h]
  replied_t2s := hi.replied_t2s
  own_t1 := ⟨by simpa [AList.mem_insert, Ne.symm h₂] using hi.own_t1.1, hi.own_t1.2⟩
  alphas := hi.alphas
  betas := hi.betas
  betas_replied := hi.betas_replied

theorem replyT2 (hi : Inv H e) (hs : e.status = t1MessageSentState) {src : ExchangeHash}
    {t2 : Bytes} (h₁ : e.receivedT2s.lookup src = some t2) (h₂ : src ∈ e.receivedT1Alphas)
    (beta : PublicKey) : Inv H (e.replyT2 src beta (H t2) t2) where
  status := hi.status
  initial_empty h := absurd (hs.symm.trans h) initialState_ne.symm
  replied_t1s := hi.replied_t1s
  replied_t2s k v h := by
    rcases lookup_insert_eq_some.1 h with ⟨rfl, rfl⟩ | ⟨-, h⟩
    exacts [⟨rfl, src, h₁⟩, hi.replied_t2s k v h]
  own_t1 := by
    refine ⟨hi.own_t1.1, hi.own_t1.2.1, ?_⟩
    have : H e.sentT1 ≠ src := fun h => hi.own_t1.2.1 (h ▸ h₂)
    simpa [AList.mem_insert, this] using hi.own_t1.2.2
  alphas := hi.alphas
  betas h hh := by
    rcases (AList.mem_insert _).1 hh with rfl | hh
    exacts [h₂, hi.betas h hh]
  betas_replied h hh := by
    rcases (AList.mem_insert _).1 hh with rfl | hh
    · exact ⟨t2, h₁, (AList.mem_insert _).2 (.inl rfl)⟩
    · obtain ⟨t2', hl, hr⟩ := hi.betas_replied h hh
      exact ⟨t2', hl, (AList.mem_insert _).2 (.inr hr)⟩

end Inv

theorem not_mem_betas {H : Bytes → ExchangeHash} {e : Exchange} (hi : Inv H e)
    {src : ExchangeHash} {t2 : Bytes} (h₂ : e.receivedT2s.lookup src = some t2)
    (hr : H t2 ∉ e.repliedT2s) : src ∉ e.decryptedT1Betas := fun hb => by
  obtain ⟨t2', hl, hr'⟩ := hi.betas_replied src hb
  rw [h₂, Option.some.injEq] at hl
  exact hr (hl ▸ hr')

theorem inv_initial {w : World} {m : Machine} (h : Initial w m) : Inv w.sha256 m.exchange := by
  obtain ⟨-, _, _, _, _, _, h⟩ := h
  unfold newExchange at h
  split at h
  · cases h
  · rw [← Except.ok.inj h]
    exact Inv.of_empty (.inl rfl) ⟨rfl, rfl, rfl, rfl, rfl, rfl, rfl, rfl⟩

theorem initial_status {w : World} {m : Machine} (h : Initial w m) :
    m.exchange.status = initialState := by
  obtain ⟨-, _, _, _, _, _, h⟩ := h
  unfold newExchange at h
  split at h
  · cases h
  · rw [← Except.ok.inj h]

theorem inv_move (w : World) : MoveInvariant w fun s => Inv w.sha256 s.1 where
  initial _ h := inv_initial h
  move s s' h hi := by
    cases h with
    | generate e tr t1 hs => exact Inv.of_empty (.inl hs) (hi.initial_empty hs)
    | sendT1 e tr t1 r hs =>
      exact Inv.of_empty (by split <;> simp [hs]) (by split <;> exact hi.initial_empty hs)
    | fetch e tr t1s t2s t3s r hs h₁ h₂ => exact hi.grow_received hs h₁ h₂
    | sendT2 e tr t1Hash t1 t2 α β γ pk n r hs hl hne =>
      have h := hi.storeT2 hs (mem_of_lookup_eq_some hl) hne pk (w.sha256 t2) t2
      dsimp only
      split
      · exact h.replyT1 hs hl hne
      · exact h
    | sendT3 e tr src t1 t2 t3 k α β γ pk beta n r hs h₂ h₁ hr ha =>
      dsimp only
      split
      · exact hi.replyT2 hs h₂ (mem_of_lookup_eq_some ha) beta
      · exact hi
    | result => exact hi
    | emit => exact hi
    | resume => exact { hi with }

theorem reachable_inv {w : World} {m : Machine} (hm : Reachable w m) : Inv w.sha256 m.exchange :=
  (inv_move w).reachable hm

theorem sample_inv :
    Reachable twoPeerWorld twoPeerRun ∧
      hashKey 1 ∈ twoPeerRun.exchange.decryptedT1Betas ∧
      Inv twoPeerWorld.sha256 twoPeerRun.exchange :=
  ⟨twoPeerRun_reachable, by decide, reachable_inv twoPeerRun_reachable⟩

/-- With a round-tripping codec, resuming from snapshots keeps the invariant too. -/
theorem resumable_inv {w : World} (hw : w.RoundTrips) {m : Machine} (hm : Resumable w m) :
    Inv w.sha256 m.exchange :=
  (inv_move w).resumable hw hm

theorem sample_resumable_inv :
    snapshotWorld.RoundTrips ∧ Resumable snapshotWorld resumedRun ∧
      hashKey 1 ∈ resumedRun.exchange.decryptedT1Betas ∧
      Inv snapshotWorld.sha256 resumedRun.exchange :=
  ⟨World.knowing_roundTrips _ _ _ _, resumedRun_resumable, by decide,
    resumable_inv (World.knowing_roundTrips _ _ _ _) resumedRun_resumable⟩

end Reunion.Safety
