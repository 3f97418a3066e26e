import Reunion.Safety.Monotone
import Reunion.Client.Opening

/-! # One T3 that does not open blocks the exchange for good

`processT3Messages` returns false as soon as a T3 with a beta key fails to open, whether or
not another T3 opened before it (`processT3Messages_iff`). A T3, its beta key and the T1 filed
under its hash are never replaced (`moves_extends`). So a peer that holds a T3 that does not
open, under a beta key it opened, never completes again: with deterministic crypto, whatever
the database answers, no later invocation of `Run` returns because a T3 opened
(`failing_t3_blocks`). Any peer of the epoch that answers the peer's T2 with a T3 that does
not open blocks it this way.
-/

namespace Reunion.Client

section
variable {w : World} {P : Exchange → List Event → Prop} (hP : RunInvariant w P)
  (hno : ∀ m : Machine, P m.exchange m.trace → (processT3Messages w m).1 = false)
include hP hno

theorem RunInvariant.runLoop_ne_completed : ∀ (fuel : Nat) (m : Machine),
    m.exchange.status = t1MessageSentState → P m.exchange m.trace →
      (Reunion.Client.runLoop w fuel m).1 ≠ some .completed := by
  intro fuel
  induction fuel with
  | zero => rintro _ _ _ ⟨⟩
  | succ fuel ih =>
    intro m hs hm
    have h₁ := hP.after_fetchState m hs hm
    have hs₁ := (fetchState_status w m).trans hs
    rw [Reunion.Client.runLoop]
    rcases hf : fetchState w m with ⟨_ | ⟨⟩, m₁⟩ <;> rw [hf] at h₁ hs₁ <;> dsimp only
    · rintro ⟨⟩
    rcases hc : checkpoint w (sendT2Messages w m₁).2 with ⟨_ | _, m₂⟩ <;> dsimp only
    · obtain ⟨hs₂, h₂⟩ :=
        hP.after_pass hP.after_sendT2Messages (sendT2Messages_status w) hc hs₁ h₁
      rcases hc' : checkpoint w (sendT3Messages w m₂).2 with ⟨_ | _, m₃⟩ <;> dsimp only
      · obtain ⟨hs₃, h₃⟩ :=
          hP.after_pass hP.after_sendT3Messages (sendT3Messages_status w) hc' hs₂ h₂
        have h₄ := hP.after_processT3Messages _ h₃
        have he := processT3Messages_exchange w m₃
        have hf₃ := hno m₃ h₃
        rcases hp : processT3Messages w m₃ with ⟨_ | _, m₄⟩ <;> rw [hp] at h₄ he hf₃ <;>
          dsimp only
        · exact ih m₄ (he ▸ hs₃) h₄
        · exact absurd hf₃.symm Bool.false_ne_true
      · exact fun he => checkpoint_ne_completed w _ (by rw [hc']; exact he)
    · exact fun he => checkpoint_ne_completed w _ (by rw [hc]; exact he)

theorem RunInvariant.run_ne_completed (fuel : Nat) (m : Machine)
    (hs : m.exchange.status = t1MessageSentState) (hm : P m.exchange m.trace) :
    (Reunion.Client.run w fuel m).1 ≠ some .completed := by
  rw [Reunion.Client.run, if_neg (by rw [hs]; decide), if_pos hs]
  exact hP.runLoop_ne_completed hno fuel m hs hm

end

end Reunion.Client

namespace Reunion.Safety
open Reunion.Client Relation

/-- The exchange holds under `h` the T3 `t3`, with a beta key, and `t3` does not open. -/
structure Blocked (c : Crypto) (h : ExchangeHash) (t3 : Bytes) (e : Exchange) : Prop where
  held : e.receivedT3s.lookup h = some t3
  beta : h ∈ e.decryptedT1Betas
  fails : ¬ T3Opens c e h t3

section
variable {H : Bytes → ExchangeHash} {c : Crypto} {h : ExchangeHash} {t3 : Bytes}
  {e e' : Exchange}

theorem Blocked.status (hb : Blocked c h t3 e) (hi : Inv H e) :
    e.status = t1MessageSentState :=
  hi.status.resolve_left fun h₀ => absurd hb.beta (by
    rw [(hi.initial_empty h₀).2.2.2.2.2.2.2]
    exact AList.not_mem_empty _)

theorem Blocked.mono (hb : Blocked c h t3 e) (hi : Inv H e) (hx : Extends e e') :
    Blocked c h t3 e' := by
  refine ⟨hx.receivedT3s hb.held, hx.decryptedT1Betas.mem hb.beta, fun ho => hb.fails ?_⟩
  obtain ⟨beta, hbeta⟩ := exists_lookup_of_mem hb.beta
  obtain ⟨t1, ht1⟩ := exists_lookup_of_mem (hi.alphas h (hi.betas h hb.beta))
  rw [t3Opens_iff (hx.decryptedT1Betas hbeta) (hx.receivedT1s ht1),
    (hx.fixed (hb.status hi)).2.2] at ho
  exact (t3Opens_iff hbeta ht1).2 ho

/-- With deterministic crypto, `processT3Messages` on a blocked exchange returns false. -/
theorem Blocked.processT3Messages {w : World} (hd : w.Deterministic) {m : Machine}
    (hb : Blocked (w.crypto 0) h t3 m.exchange) : (processT3Messages w m).1 = false :=
  Bool.eq_false_iff.2 fun ht =>
    hb.fails (((processT3Messages_iff hd m).1 ht).2 h t3 hb.held hb.beta)

end

/-- A peer that holds a T3 that does not open, under a beta key it opened, never completes
again: with deterministic crypto, whatever the database answers, no later invocation of `Run`
returns because a T3 opened. -/
theorem failing_t3_blocks {w : World} (hd : w.Deterministic) {m : Machine} (hm : Reachable w m)
    {h : ExchangeHash} {t3 : Bytes} (hb : Blocked (w.crypto 0) h t3 m.exchange)
    {m' : Machine} (h' : ReflTransGen (RunStep w) m m') (fuel : Nat) :
    (run w fuel m').1 ≠ some .completed := by
  have hi := reachable_inv hm
  have hB {s : View} (hs : ReflTransGen (Move w) (m.exchange, m.trace) s) :
      Blocked (w.crypto 0) h t3 s.1 :=
    hb.mono hi (moves_extends hs hi)
  have hm' := h'.lift' (fun m => (m.exchange, m.trace)) fun _ _ => RunStep.moves w
  exact (moves_runInvariant w _).run_ne_completed (fun _ hs => (hB hs).processT3Messages hd)
    fuel m' ((hB hm').status ((inv_move w).moves hm' hi)) hm'

theorem blocked_after_one_iteration :
    blockWorld.Deterministic ∧ Reachable blockWorld (run blockWorld 1 ⟨sampleExchange, 0, []⟩).2 ∧
      Blocked (blockWorld.crypto 0) (hashKey 1) [5]
        (run blockWorld 1 ⟨sampleExchange, 0, []⟩).2.exchange ∧
      T3Opens (blockWorld.crypto 0) (run blockWorld 1 ⟨sampleExchange, 0, []⟩).2.exchange
        (hashKey 2) [6] ∧
      ∀ fuel, (run blockWorld fuel (run blockWorld 1 ⟨sampleExchange, 0, []⟩).2).1 ≠
        some .completed :=
  have hd : blockWorld.Deterministic := fun _ => rfl
  have hm : Reachable blockWorld (run blockWorld 1 ⟨sampleExchange, 0, []⟩).2 :=
    ⟨⟨sampleExchange, 0, []⟩, ⟨rfl, [], 0, [], [], 0, rfl⟩, .single ⟨1, rfl⟩⟩
  have hb : Blocked (blockWorld.crypto 0) (hashKey 1) [5]
      (run blockWorld 1 ⟨sampleExchange, 0, []⟩).2.exchange :=
    ⟨by decide, by decide, fun ⟨_, _, _, _, _, _, _, _, _, hp⟩ => by simp [blockWorld] at hp⟩
  ⟨hd, hm, hb, ⟨⟨[2]⟩, [2], [2], [2], [2], [6], by decide, by decide, rfl, rfl⟩,
    fun fuel => failing_t3_blocks hd hm hb .refl fuel⟩

end Reunion.Safety
