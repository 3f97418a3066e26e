import Reunion.Client.Reference

/-! # Repeating a reply pass

The `replied*` maps keep a reply pass from answering again what an earlier pass answered.
When every message decodes, every key derives and the board accepts every reply, one pass
of `sendT2Messages` or `sendT3Messages` answers every entry it visits, so a second pass over
the same maps sends nothing and changes nothing: it only draws its visiting order
(`sendT2Messages_idempotent`, `sendT3Messages_idempotent`).
-/

namespace Reunion.Client

/-! ## Loops -/

theorem rangeLoop_idle {body : Entry → Machine → Flow} {xs : List Entry} {m : Machine}
    (h : ∀ x ∈ xs, body x m = .next m) (flag : Bool) : rangeLoop body xs flag m = (flag, m) := by
  induction xs with
  | nil => rfl
  | cons x xs ih =>
    rw [rangeLoop, h x (List.mem_cons_self x xs)]
    exact ih fun y hy => h y (List.mem_cons_of_mem x hy)

theorem rangeLoop_settles {body : Entry → Machine → Flow} {Q : Machine → Prop}
    {D : Entry → Exchange → Prop} {xs : List Entry}
    (hQ : ∀ x ∈ xs, ∀ m, Q m → Q (body x m).machine)
    (hkeep : ∀ x ∈ xs, ∀ y m, D y m.exchange → D y (body x m).machine.exchange)
    (hdone : ∀ x ∈ xs, ∀ m, Q m →
      D x (body x m).machine.exchange ∧ ∀ m', body x m ≠ .exit m') :
    ∀ flag m, Q m → ∀ x ∈ xs, D x (rangeLoop body xs flag m).2.exchange := by
  induction xs with
  | nil => exact fun _ _ _ _ h => absurd h (List.not_mem_nil _)
  | cons x xs ih =>
    intro flag m hm y hy
    have ih := ih (fun z hz => hQ z (List.mem_cons_of_mem x hz))
      (fun z hz => hkeep z (List.mem_cons_of_mem x hz))
      (fun z hz => hdone z (List.mem_cons_of_mem x hz))
    have hq := hQ x (List.mem_cons_self x xs) m hm
    obtain ⟨hx, hne⟩ := hdone x (List.mem_cons_self x xs) m hm
    have hrest : ∀ flag m', D x m'.exchange → D x (rangeLoop body xs flag m').2.exchange :=
      fun flag m' h => rangeLoop_preserves (P := fun e _ => D x e)
        (fun z hz m'' h' => hkeep z (List.mem_cons_of_mem x hz) x m'' h') flag m' h
    rw [rangeLoop]
    rcases hb : body x m with m' | m' | m' <;> rw [hb] at hq hx
    · rcases List.mem_cons.1 hy with rfl | hy
      exacts [hrest _ _ hx, ih _ _ hq y hy]
    · rcases List.mem_cons.1 hy with rfl | hy
      exacts [hrest _ _ hx, ih _ _ hq y hy]
    · exact absurd hb (hne m')

section
variable (w : World)

/-! ## `sendT2Messages` -/

theorem sendT2Body_idle (my : ExchangeHash) (x : Entry) (m : Machine)
    (h : x.1 = my ∨ x.1 ∈ m.exchange.repliedT1s) : sendT2Body w my x m = .next m := by
  obtain ⟨t1Hash, t1⟩ := x
  rw [sendT2Body]
  split_ifs with h₁ h₂
  · rfl
  · rfl
  · exact absurd (h.resolve_left h₁) h₂

theorem sendT2Body_keeps_replied (my : ExchangeHash) (x : Entry) (m : Machine)
    {h : ExchangeHash} (hh : h ∈ m.exchange.repliedT1s) :
    h ∈ (sendT2Body w my x m).machine.exchange.repliedT1s := by
  obtain ⟨t1Hash, t1⟩ := x
  rcases sendT2Body_spec w my t1Hash t1 m with ⟨he, -⟩ | ⟨_, _, _, _, _, -, -, -, -, -, he⟩ <;>
    rw [he]
  · exact hh
  · split <;> simp [hh, AList.mem_insert]

theorem sendT2Body_settles (my : ExchangeHash) (x : Entry) (m : Machine)
    (hr : x.1 ≠ my → x.1 ∉ m.exchange.repliedT1s → ∃ α β γ r,
      (w.crypto m.clock).decodeT1Message x.2 = .ok (α, β, γ) ∧
      (w.crypto (m.clock + 1)).processType1MessageAlpha m.exchange.session α = .ok r)
    (hq : ∀ n epoch src dst t2, accepted (w.query n (.sendT2 epoch src dst t2)) = true) :
    (x.1 = my ∨ x.1 ∈ (sendT2Body w my x m).machine.exchange.repliedT1s) ∧
      ∀ m', sendT2Body w my x m ≠ .exit m' := by
  obtain ⟨t1Hash, t1⟩ := x
  rw [sendT2Body]
  split_ifs with h₁ h₂
  · exact ⟨.inl h₁, fun _ h => Flow.noConfusion h⟩
  · exact ⟨.inr h₂, fun _ h => Flow.noConfusion h⟩
  obtain ⟨α, β, γ, ⟨t2, pk⟩, hd, hp⟩ := hr h₁ h₂
  simp only [World.call, hd, hp, Machine.tick_clock, Machine.tick_exchange, send, World.ask, hq]
  exact ⟨.inr (by simp [Flow.machine, AList.mem_insert]), fun _ h => Flow.noConfusion h⟩

/-- When every foreign T1 decodes and yields its alpha key and the board accepts every
`SendT2`, a second `sendT2Messages` right after the first sends nothing and changes nothing
but the clock. -/
theorem sendT2Messages_idempotent (m : Machine)
    (hd : ∀ n t1, ∃ r, (w.crypto n).decodeT1Message t1 = .ok r)
    (hp : ∀ n s alpha, ∃ r, (w.crypto n).processType1MessageAlpha s alpha = .ok r)
    (hq : ∀ n epoch src dst t2, accepted (w.query n (.sendT2 epoch src dst t2)) = true) :
    sendT2Messages w (sendT2Messages w m).2 = (false, (sendT2Messages w m).2.tick) := by
  obtain ⟨alphas, sent, replied, he⟩ := sendT2Messages_frame w m
  have hdone : ∀ x ∈ m.exchange.receivedT1s.entries, x.1 = w.sha256 m.exchange.sentT1 ∨
      x.1 ∈ (sendT2Messages w m).2.exchange.repliedT1s := fun x hx =>
    rangeLoop_settles (Q := fun _ => True)
      (D := fun x e => x.1 = w.sha256 m.exchange.sentT1 ∨ x.1 ∈ e.repliedT1s)
      (fun _ _ _ _ => trivial)
      (fun x _ _ m' h => h.imp_right (sendT2Body_keeps_replied w _ x m'))
      (fun x _ m' _ => sendT2Body_settles w _ x m' (fun _ _ =>
        let ⟨⟨α, β, γ⟩, hd⟩ := hd m'.clock x.2
        let ⟨r, hp⟩ := hp (m'.clock + 1) m'.exchange.session α
        ⟨α, β, γ, r, hd, hp⟩) hq) false m.tick trivial x
      ((w.order_perm _ _).mem_iff.2 hx)
  refine rangeLoop_idle (fun x hx => sendT2Body_idle w _ x _ ?_) false
  rw [(w.order_perm _ _).mem_iff, he] at hx
  simpa only [Machine.tick_exchange, he] using hdone x hx

/-! ## `sendT3Messages` -/

theorem sendT3Body_idle (my : ExchangeHash) (x : Entry) (m : Machine)
    (h₁ : x.1 ∈ m.exchange.receivedT1s) (h : w.sha256 x.2 ∈ m.exchange.repliedT2s) :
    sendT3Body w my x m = .next m := by
  obtain ⟨src, t2⟩ := x
  obtain ⟨t1, ht1⟩ := Option.isSome_iff_exists.1 (AList.lookup_isSome.2 h₁)
  rw [sendT3Body]
  simp only [ht1, if_pos h]

theorem sendT3Body_keeps_replied (my : ExchangeHash) (x : Entry) (m : Machine)
    {h : ExchangeHash} (hh : h ∈ m.exchange.repliedT2s) :
    h ∈ (sendT3Body w my x m).machine.exchange.repliedT2s := by
  obtain ⟨src, t2⟩ := x
  rcases sendT3Body_spec w my src t2 m with ⟨he, -⟩ |
    ⟨_, _, _, _, _, _, _, _, -, -, -, -, -, -, -, -, he⟩ <;> rw [he]
  · exact hh
  · split <;> simp [hh, AList.mem_insert]

theorem sendT3Body_settles (my src : ExchangeHash) (t2 : Bytes) (m : Machine) {t1 : Bytes}
    {pk : PublicKey} (h₁ : m.exchange.receivedT1s.lookup src = some t1)
    (hα : m.exchange.receivedT1Alphas.lookup src = some pk)
    (ha : w.sha256 t2 ∉ m.exchange.repliedT2s → ∃ k α β γ beta t3,
      (w.crypto m.clock).getCandidateKey m.exchange.session t2 pk = .ok k ∧
      (w.crypto (m.clock + 1)).decodeT1Message t1 = .ok (α, β, γ) ∧
      (w.crypto (m.clock + 1 + 1)).decryptT1Beta k β = .ok beta ∧
      (w.crypto (m.clock + 1 + 1 + 1)).composeType3Message m.exchange.session beta = .ok t3)
    (hq : ∀ n epoch src dst t3, accepted (w.query n (.sendT3 epoch src dst t3)) = true) :
    w.sha256 t2 ∈ (sendT3Body w my ⟨src, t2⟩ m).machine.exchange.repliedT2s ∧
      ∀ m', sendT3Body w my ⟨src, t2⟩ m ≠ .exit m' := by
  rw [sendT3Body]
  simp only [h₁, hα]
  split_ifs with h
  · exact ⟨h, fun _ h => Flow.noConfusion h⟩
  obtain ⟨k, α, β, γ, beta, t3, hk, hd, hb, hc⟩ := ha h
  simp only [World.call, hk, hd, hb, hc, Machine.tick_clock, Machine.tick_exchange, send,
    World.ask, hq]
  exact ⟨by simp [Flow.machine, AList.mem_insert], fun _ h => Flow.noConfusion h⟩

/-- When every T2 has the T1 and the alpha key of its source, no crypto call fails and the
board accepts every `SendT3`, a second `sendT3Messages` right after the first sends nothing
and changes nothing but the clock. -/
theorem sendT3Messages_idempotent (m : Machine)
    (hT1 : ∀ src ∈ m.exchange.receivedT2s.keys, src ∈ m.exchange.receivedT1s.keys)
    (hα : ∀ src ∈ m.exchange.receivedT2s.keys, src ∈ m.exchange.receivedT1Alphas.keys)
    (hk : ∀ n s t2 pk, ∃ k, (w.crypto n).getCandidateKey s t2 pk = .ok k)
    (hd : ∀ n t1, ∃ r, (w.crypto n).decodeT1Message t1 = .ok r)
    (hb : ∀ n k β, ∃ beta, (w.crypto n).decryptT1Beta k β = .ok beta)
    (hc : ∀ n s beta, ∃ t3, (w.crypto n).composeType3Message s beta = .ok t3)
    (hq : ∀ n epoch src dst t3, accepted (w.query n (.sendT3 epoch src dst t3)) = true) :
    sendT3Messages w (sendT3Messages w m).2 = (false, (sendT3Messages w m).2.tick) := by
  obtain ⟨betas, replied, he⟩ := sendT3Messages_frame w m
  have hdone : ∀ x ∈ m.exchange.receivedT2s.entries,
      w.sha256 x.2 ∈ (sendT3Messages w m).2.exchange.repliedT2s := by
    refine fun x hx => rangeLoop_settles
      (Q := fun m' => m'.exchange.receivedT1s = m.exchange.receivedT1s ∧
        m'.exchange.receivedT1Alphas = m.exchange.receivedT1Alphas)
      (D := fun x e => w.sha256 x.2 ∈ e.repliedT2s) ?_
      (fun x _ _ m' h => sendT3Body_keeps_replied w _ x m' h) ?_ false m.tick ⟨rfl, rfl⟩ x
      ((w.order_perm _ _).mem_iff.2 hx)
    · rintro ⟨src, t2⟩ - m' ⟨h₁, h₂⟩
      obtain ⟨h₁', h₂', -⟩ := sendT3Body_received w _ src t2 m'
      exact ⟨h₁'.trans h₁, h₂'.trans h₂⟩
    · rintro ⟨src, t2⟩ hx m' ⟨h₁, h₂⟩
      have hs := List.mem_keys_of_mem ((w.order_perm _ _).mem_iff.1 hx)
      obtain ⟨t1, ht1⟩ := Option.isSome_iff_exists.1 (AList.lookup_isSome.2 (hT1 src hs))
      obtain ⟨pk, hpk⟩ := Option.isSome_iff_exists.1 (AList.lookup_isSome.2 (hα src hs))
      refine sendT3Body_settles w _ src t2 m' (h₁ ▸ ht1) (h₂ ▸ hpk) (fun _ => ?_) hq
      obtain ⟨k, hk⟩ := hk m'.clock m'.exchange.session t2 pk
      obtain ⟨⟨α, β, γ⟩, hd⟩ := hd (m'.clock + 1) t1
      obtain ⟨beta, hb⟩ := hb (m'.clock + 1 + 1) k β
      obtain ⟨t3, hc⟩ := hc (m'.clock + 1 + 1 + 1) m'.exchange.session beta
      exact ⟨k, α, β, γ, beta, t3, hk, hd, hb, hc⟩
  refine rangeLoop_idle (fun x hx => sendT3Body_idle w _ x _ ?_ ?_) false <;>
    rw [(w.order_perm _ _).mem_iff, he] at hx
  · rw [Machine.tick_exchange, he]
    exact hT1 _ (List.mem_keys_of_mem hx)
  · exact hdone x hx

end

theorem sendT2Messages_idempotent_board :
    (∀ n t1, ∃ r, ((World.board ⟨∅, []⟩).crypto n).decodeT1Message t1 = .ok r) ∧
      (∀ n s alpha, ∃ r,
        ((World.board ⟨∅, []⟩).crypto n).processType1MessageAlpha s alpha = .ok r) ∧
      (∀ n epoch src dst t2,
        accepted ((World.board ⟨∅, []⟩).query n (.sendT2 epoch src dst t2)) = true) ∧
      sendT2Messages (World.board ⟨∅, []⟩)
          (sendT2Messages (World.board ⟨∅, []⟩) malformedT1Machine).2 =
        (false, (sendT2Messages (World.board ⟨∅, []⟩) malformedT1Machine).2.tick) :=
  ⟨World.board_decodeT1Message _, World.board_processType1MessageAlpha _,
    World.board_accepts_sendT2 _, sendT2Messages_idempotent _ _ (World.board_decodeT1Message _)
      (World.board_processType1MessageAlpha _) (World.board_accepts_sendT2 _)⟩

theorem sendT3Messages_idempotent_board :
    (∀ src ∈ alphasKnownMachine.exchange.receivedT2s.keys,
        src ∈ alphasKnownMachine.exchange.receivedT1s.keys) ∧
      (∀ src ∈ alphasKnownMachine.exchange.receivedT2s.keys,
        src ∈ alphasKnownMachine.exchange.receivedT1Alphas.keys) ∧
      sendT3Messages (World.board ⟨∅, []⟩)
          (sendT3Messages (World.board ⟨∅, []⟩) alphasKnownMachine).2 =
        (false, (sendT3Messages (World.board ⟨∅, []⟩) alphasKnownMachine).2.tick) :=
  have hT1 : ∀ src ∈ alphasKnownMachine.exchange.receivedT2s.keys,
      src ∈ alphasKnownMachine.exchange.receivedT1s.keys := by decide
  have hα : ∀ src ∈ alphasKnownMachine.exchange.receivedT2s.keys,
      src ∈ alphasKnownMachine.exchange.receivedT1Alphas.keys := by decide
  ⟨hT1, hα, sendT3Messages_idempotent _ _ hT1 hα (World.board_getCandidateKey _)
    (World.board_decodeT1Message _) (World.board_decryptT1Beta _)
    (World.board_composeType3Message _) (World.board_accepts_sendT3 _)⟩

end Reunion.Client
