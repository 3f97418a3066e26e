import Reunion.Safety.Invariant

/-! # The exchange never addresses a reply to its own T1

`sendT2Messages` skips the key equal to the hash of the own T1, and `sendT3Messages` only
answers sources whose alpha key it recorded, which never includes that hash. Keys are not
checked against the bytes filed under them, though: a board that files the client's own T1
under another key gets it answered (`own_t1_answered`).
-/

namespace Reunion.Safety
open Reunion.Client

/-- The hash a `SendT2` or `SendT3` query is addressed to. -/
def replyTarget : Event → Option ExchangeHash
  | .query (.sendT2 _ _ dst _) _ => some dst
  | .query (.sendT3 _ _ dst _) _ => some dst
  | _ => none

/-- No reply of the history is addressed to the hash of the own T1. -/
structure NoSelfReply (H : Bytes → ExchangeHash) (e : Exchange) (tr : List Event) : Prop where
  before_t1 : e.status = initialState → ∀ ev ∈ tr, replyTarget ev = none
  not_self : ∀ ev ∈ tr, ∀ d, replyTarget ev = some d → d ≠ H e.sentT1

namespace NoSelfReply

variable {H : Bytes → ExchangeHash} {e e' : Exchange} {tr : List Event}

theorem cons (h : NoSelfReply H e tr) (hs : e'.status = e.status) (ht : e'.sentT1 = e.sentT1)
    (ev : Event)
    (hev : ∀ d, replyTarget ev = some d → e.status ≠ initialState ∧ d ≠ H e.sentT1) :
    NoSelfReply H e' (ev :: tr) where
  before_t1 h₀ ev' hev' := by
    rw [hs] at h₀
    rcases List.mem_cons.1 hev' with rfl | hev'
    · cases ht' : replyTarget ev'
      · rfl
      · exact absurd h₀ (hev _ ht').1
    · exact h.before_t1 h₀ ev' hev'
  not_self ev' hev' d hd := by
    rw [ht]
    rcases List.mem_cons.1 hev' with rfl | hev'
    exacts [(hev d hd).2, h.not_self ev' hev' d hd]

theorem of_no_reply (htr : ∀ ev ∈ tr, replyTarget ev = none) : NoSelfReply H e tr where
  before_t1 _ := htr
  not_self ev hev d hd := by simp [htr ev hev] at hd

end NoSelfReply

theorem noSelfReply_move (w : World) :
    MoveInvariant w fun s => Inv w.sha256 s.1 ∧ NoSelfReply w.sha256 s.1 s.2 where
  initial _ h := ⟨inv_initial h, by rw [h.1]; exact ⟨fun _ _ h => absurd h (by simp),
    fun _ h => absurd h (by simp)⟩⟩
  move s s' h hs := by
    obtain ⟨hi, hn⟩ := hs
    refine ⟨(inv_move w).move s s' h hi, ?_⟩
    cases h with
    | generate e tr t1 hs => exact .of_no_reply (hn.before_t1 hs)
    | sendT1 e tr t1 r hs =>
      refine .of_no_reply fun ev hev => ?_
      rcases List.mem_cons.1 hev with rfl | hev
      exacts [rfl, hn.before_t1 hs ev hev]
    | fetch e tr t1s t2s t3s r =>
      refine hn.cons (by rfl) (by rfl) _ fun d h => ?_
      simp [replyTarget] at h
    | sendT2 e tr t1Hash t1 t2 α β γ pk n r hs hl hne =>
      refine hn.cons (by split <;> rfl) (by split <;> rfl) _ fun d h => ?_
      simp only [replyTarget, Option.some.injEq] at h
      exact ⟨hs ▸ Inv.initialState_ne.symm, h ▸ hne⟩
    | sendT3 e tr src t1 t2 t3 k α β γ pk beta n r hs h₂ h₁ hr ha =>
      refine hn.cons (by split <;> rfl) (by split <;> rfl) _ fun d h => ?_
      simp only [replyTarget, Option.some.injEq] at h
      refine ⟨hs ▸ Inv.initialState_ne.symm, h ▸ fun he => hi.own_t1.2.1 ?_⟩
      exact he ▸ mem_of_lookup_eq_some ha
    | result e tr =>
      refine hn.cons (by rfl) (by rfl) _ fun d h => ?_
      simp [replyTarget] at h
    | emit e tr =>
      refine hn.cons (by rfl) (by rfl) _ fun d h => ?_
      simp [replyTarget] at h
    | resume => exact { hn with }

/-- Whatever the board answers, no `SendT2` or `SendT3` of any run is addressed to the hash
of the exchange's own T1. -/
theorem reachable_reply_target_ne {w : World} {m : Machine} (hm : Reachable w m) :
    ∀ ev ∈ m.trace, ∀ d, replyTarget ev = some d → d ≠ w.sha256 m.exchange.sentT1 :=
  ((noSelfReply_move w).reachable hm).2.not_self

theorem sample_reply_target_ne :
    Reachable twoPeerWorld twoPeerRun ∧
      twoPeerRun.trace.countP (fun ev => (replyTarget ev).isSome) = 4 ∧
      ∀ ev ∈ twoPeerRun.trace, ∀ d, replyTarget ev = some d →
        d ≠ twoPeerWorld.sha256 twoPeerRun.exchange.sentT1 :=
  ⟨twoPeerRun_reachable, by decide, reachable_reply_target_ne twoPeerRun_reachable⟩

/-! ## The board can make the client answer its own T1 -/

/-- A board that files the client's T1 `[]` under the key `1…1`, which is not its hash. -/
def mirrorWorld : World := World.board ⟨AList.singleton (hashKey 1) [], []⟩

/-- The claim that no reply is computed from the own T1 fails: in one run, the exchange
answers the key under which the board filed its own T1. -/
theorem own_t1_answered :
    ¬ ∀ (w : World) (m : Machine), Reachable w m → ∀ ev ∈ m.trace, ∀ d,
      replyTarget ev = some d → d ≠ w.sha256 m.exchange.sentT1 ∧
        m.exchange.receivedT1s.lookup d ≠ some m.exchange.sentT1 := by
  intro h
  have hm : Reachable mirrorWorld (run mirrorWorld 1 ⟨sampleExchange, 0, []⟩).2 :=
    ⟨⟨sampleExchange, 0, []⟩, ⟨rfl, [], 0, [], [], 0, rfl⟩, .single ⟨1, rfl⟩⟩
  have hev : ∃ ev ∈ (run mirrorWorld 1 ⟨sampleExchange, 0, []⟩).2.trace,
      replyTarget ev = some (hashKey 1) := by decide
  obtain ⟨ev, hev, hd⟩ := hev
  exact (h _ _ hm ev hev _ hd).2 (by decide)

end Reunion.Safety
