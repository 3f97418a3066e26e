import Reunion.Client.Driver
import Reunion.Client.Repeat
import Reunion.Client.Opening
import Reunion.Client.Handshake

/-! # What each statement of `Run` achieves when nothing fails

With a crypto library whose operations are functions of their inputs, a host that never stops
the exchange and a codec that snapshots every exchange (`World.Live`), and a board that
accepts every send, each statement of the driver moves on to the next one and does its job as
far as the crypto operations on what the exchange holds succeed: `sendT1` posts the T1 and
enters the loop (`Pc.step_entry`), the first reply pass answers every T1 held but the own
(`Pc.step_sendT2`), the second answers every T2 held once each has its T1 and alpha key
(`Pc.step_sendT3`), and `processT3Messages` completes exactly when a T3 is held from a
source whose beta key was opened (`Pc.step_processT3`).
-/

namespace Reunion.Client

/-- A host that never shuts the exchange down, with a codec that snapshots every exchange. -/
structure World.Live (w : World) : Prop where
  shutdown : ∀ k, w.shutdown k = false
  marshal : ∀ s, ∃ data, w.marshalExchange s = .ok data

section
variable {c : Crypto} {w : World} (hw : ∀ k, w.crypto k = c) (hl : w.Live)
  (hq : ∀ k cmd, cmd.isSend = true → accepted (w.query k cmd) = true)

include hl in
theorem checkpoint_live (m : Machine) :
    (checkpoint w m).1 = none ∧ (checkpoint w m).2.exchange = m.exchange := by
  obtain ⟨data, hd⟩ := hl.marshal m.exchange.toSerializable
  rw [checkpoint_of_marshal_ok w hd, hl.shutdown]
  exact ⟨rfl, rfl⟩

include hw hl hq

/-- A fresh exchange whose T1 generates posts it and enters the loop. -/
theorem Pc.step_entry {m : Machine} (hs : m.exchange.status = initialState)
    (hg : ∃ t1, c.generateType1Message m.exchange.session m.exchange.payload = .ok t1) :
    ∃ t1, c.generateType1Message m.exchange.session m.exchange.payload = .ok t1 ∧
      (Pc.step w (.entry, m)).1 = .fetch ∧
      (Pc.step w (.entry, m)).2.exchange =
        { m.exchange with sentT1 := t1, status := t1MessageSentState } := by
  obtain ⟨t1, ht⟩ := hg
  have hsend : (sendT1 w m).1 = true ∧
      (sendT1 w m).2.exchange = { m.exchange with sentT1 := t1 } := by
    simp only [sendT1, World.call, hw, ht, send]
    exact ⟨hq _ _ rfl, rfl⟩
  refine ⟨t1, ht, ?_⟩
  simp only [Pc.step, if_pos hs]
  rcases h : sendT1 w m with ⟨_ | _, m₁⟩ <;> rw [h] at hsend
  · cases hsend.1
  · have hc := checkpoint_live hl (m₁.modify fun e => { e with status := t1MessageSentState })
    simp only [hc.1, Pc.ofHalt_none, hc.2, Machine.modify_exchange, hsend.2]
    exact ⟨trivial, by rw [hsend.2]⟩

/-- The first reply pass answers every T1 the exchange holds but its own, when the reply to
each of them comes out. -/
theorem Pc.step_sendT2 (m : Machine)
    (hr : ∀ k t1, m.exchange.receivedT1s.lookup k = some t1 → k ≠ w.sha256 m.exchange.sentT1 →
      ∃ r, c.reply m.exchange.session t1 = .ok r) :
    (Pc.step w (.sendT2, m)).1 = .sendT3 ∧
      (Pc.step w (.sendT2, m)).2.exchange = (sendT2Messages w m).2.exchange ∧
      ∀ k ∈ m.exchange.receivedT1s, k ≠ w.sha256 m.exchange.sentT1 →
        k ∈ (sendT2Messages w m).2.exchange.repliedT1s := by
  have hck := checkpoint_live hl (sendT2Messages w m).2
  refine ⟨by simp only [Pc.step, hck.1, Pc.ofHalt_none], hck.2, fun k hk hne => ?_⟩
  obtain ⟨t1, ht⟩ := exists_lookup_of_mem hk
  refine (rangeLoop_settles (Q := fun m' => m'.exchange.session = m.exchange.session)
    (D := fun x e => x.1 = w.sha256 m.exchange.sentT1 ∨ x.1 ∈ e.repliedT1s)
    (fun x _ m' h => (sendT2Body_session w _ x m').trans h)
    (fun x _ _ m' h => h.imp_right (sendT2Body_keeps_replied w _ x m'))
    (fun x hx m' hs => sendT2Body_settles w _ x m' (fun h₁ _ => ?_) (fun _ _ _ _ _ => hq _ _ rfl))
    false m.tick rfl ⟨k, t1⟩ ((mem_order_iff w _ _ _).2 ht)).resolve_left hne
  obtain ⟨r, hr⟩ := hr x.1 x.2 ((mem_order_iff w _ _ x).1 hx) h₁
  obtain ⟨α, β, γ, hd, hp⟩ := Crypto.reply_ok hr
  rw [hw, hw, hs]
  exact ⟨α, β, γ, r, hd, hp⟩

/-- Once every T2 the exchange holds has its T1 and its alpha key, the second reply pass
answers all of them whose alpha key is the reply's, whose beta key opens and whose T3 comes
out. -/
theorem Pc.step_sendT3 (m : Machine) (hT : ∀ src ∈ m.exchange.receivedT2s,
      src ∈ m.exchange.receivedT1s ∧ src ∈ m.exchange.receivedT1Alphas)
    (ha : ∀ src t1 t2 pk, m.exchange.receivedT2s.lookup src = some t2 →
      m.exchange.receivedT1s.lookup src = some t1 →
      m.exchange.receivedT1Alphas.lookup src = some pk →
      ∃ t2' beta t3, c.reply m.exchange.session t1 = .ok (t2', pk) ∧
        c.unlock m.exchange.session t1 t2 = .ok beta ∧
        c.composeType3Message m.exchange.session beta = .ok t3) :
    (Pc.step w (.sendT3, m)).1 = .processT3 ∧
      (Pc.step w (.sendT3, m)).2.exchange = (sendT3Messages w m).2.exchange ∧
      ∀ src t2, m.exchange.receivedT2s.lookup src = some t2 →
        w.sha256 t2 ∈ (sendT3Messages w m).2.exchange.repliedT2s := by
  have hck := checkpoint_live hl (sendT3Messages w m).2
  refine ⟨by simp only [Pc.step, hck.1, Pc.ofHalt_none], hck.2, fun src t2 ht => ?_⟩
  refine rangeLoop_settles
    (Q := fun m' => m'.exchange.receivedT1s = m.exchange.receivedT1s ∧
      m'.exchange.receivedT1Alphas = m.exchange.receivedT1Alphas ∧
      m'.exchange.session = m.exchange.session)
    (D := fun x e => w.sha256 x.2 ∈ e.repliedT2s) ?_
    (fun x _ _ m' h => sendT3Body_keeps_replied w _ x m' h) ?_ false m.tick ⟨rfl, rfl, rfl⟩
    ⟨src, t2⟩ ((mem_order_iff w _ _ _).2 ht)
  · rintro ⟨src', t2'⟩ - m' ⟨h₁, h₂, h₃⟩
    obtain ⟨h₁', h₂', h₃'⟩ := sendT3Body_received w _ src' t2' m'
    exact ⟨h₁'.trans h₁, h₂'.trans h₂, h₃'.trans h₃⟩
  · rintro ⟨src', t2'⟩ hx m' ⟨h₁, h₂, h₃⟩
    have hl₂ := (mem_order_iff w _ _ _).1 hx
    obtain ⟨hT1, hα⟩ := hT src' (mem_of_lookup_eq_some hl₂)
    obtain ⟨t1, ht1⟩ := exists_lookup_of_mem hT1
    obtain ⟨pk, hpk⟩ := exists_lookup_of_mem hα
    refine sendT3Body_settles w _ src' t2' m' (h₁ ▸ ht1) (h₂ ▸ hpk) (fun _ => ?_)
      (fun _ _ _ _ _ => hq _ _ rfl)
    obtain ⟨t2'', beta, t3, hr, hu, ht3⟩ := ha src' t1 t2' pk hl₂ ht1 hpk
    obtain ⟨t2₀, pk₀, k, α, β, γ, hr₀, hk, hd, hb⟩ := Crypto.unlock_ok hu
    cases hr.symm.trans hr₀
    simp only [hw, h₃]
    exact ⟨k, α, β, γ, beta, t3, hk, hd, hb, ht3⟩

omit hl hq in
/-- `processT3Messages` leaves the exchange as it is; it completes when the exchange holds a
T3 from a source whose beta key it opened and every such T3 opens, with the result on top of
its history, and moves on to the next fetch when it holds none. -/
theorem Pc.step_processT3 (m : Machine) :
    (Pc.step w (.processT3, m)).2.exchange = m.exchange ∧
      ((∃ h ∈ m.exchange.receivedT3s, h ∈ m.exchange.decryptedT1Betas) →
        (∀ h t3, m.exchange.receivedT3s.lookup h = some t3 → h ∈ m.exchange.decryptedT1Betas →
          T3Opens c m.exchange h t3) →
        (Pc.step w (.processT3, m)).1 = .halted .completed ∧
          ResultOnTop (Pc.step w (.processT3, m)).2.trace) ∧
      ((¬ ∃ h ∈ m.exchange.receivedT3s, h ∈ m.exchange.decryptedT1Betas) →
        (Pc.step w (.processT3, m)).1 = .fetch) := by
  have hiff : (processT3Messages w m).1 = true ↔
      (∃ h ∈ m.exchange.receivedT3s, h ∈ m.exchange.decryptedT1Betas) ∧
        ∀ h t3, m.exchange.receivedT3s.lookup h = some t3 → h ∈ m.exchange.decryptedT1Betas →
          T3Opens c m.exchange h t3 := by
    rw [processT3Messages, rangeOver, processT3Loop_iff (fun n => (hw n).trans (hw 0).symm)
      m.exchange _ false m.tick rfl, hw 0]
    simp only [Bool.false_eq_true, false_or, mem_order_iff]
    exact and_congr ⟨fun ⟨x, hx, hb⟩ => ⟨x.1, mem_of_lookup_eq_some hx, hb⟩,
      fun ⟨h, hh, hb⟩ => let ⟨t3, ht3⟩ := exists_lookup_of_mem hh; ⟨⟨h, t3⟩, ht3, hb⟩⟩
      ⟨fun hall h t3 => hall ⟨h, t3⟩, fun hall x => hall x.1 x.2⟩
  have he := processT3Messages_exchange w m
  have hr := processT3Messages_result w m
  simp only [Pc.step]
  rcases hp : processT3Messages w m with ⟨_ | _, m'⟩ <;> rw [hp] at hiff he hr
  · exact ⟨he, fun h ho => absurd (hiff.2 ⟨h, ho⟩) Bool.false_ne_true, fun _ => rfl⟩
  · exact ⟨he, fun _ _ => ⟨rfl, hr rfl⟩, fun h => absurd (hiff.1 rfl).1 h⟩

end

end Reunion.Client
