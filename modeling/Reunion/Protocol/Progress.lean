import Reunion.Client.Progress
import Reunion.Protocol.Agreement
import Reunion.Safety.Monotone

/-! # Progress of the peers in front of the database

What each statement of a peer achieves in any interleaving, when the crypto library never
returns an empty message, the peers past `sendT1` complete their handshakes with each other
(`Handshakes`) and the hosts neither stop the peers nor fail to snapshot them. The database
takes every send, and every message in its log carries a payload (`Reachable.state_valid`),
so a fetch goes through and the peer then holds the T1 of every peer of its epoch past
`sendT1`, and the T2 and T3 of every peer that answered its T1 and its T2
(`Reachable.fetch_holds`). Each crypto operation a reply pass or `processT3Messages` runs
on what a peer holds is one of the handshake with the peer that sent it (`Reachable.t1_reply`,
`Reachable.t2_answers`, `Reachable.t3_opens`). What a peer answered stays backed by its
sends (`Backed`): a T1 it answered has its alpha key and its `SendT2`, and a T2 it answered
has the beta key of its source.
-/

namespace Reunion.Client

/-- The crypto library never returns an empty T2 or T3. -/
structure Crypto.NonEmpty (c : Crypto) : Prop where
  t2 : ∀ s α t2 pk, c.processType1MessageAlpha s α = .ok (t2, pk) → t2 ≠ []
  t3 : ∀ s beta t3, c.composeType3Message s beta = .ok t3 → t3 ≠ []

/-- The crypto library pairs the fresh peers of `S`: it never returns an empty T2 or T3, each
peer generates its T1 from its session and payload, and with the T1s they generate every two
of them complete the handshake. -/
structure Crypto.Pairs (c : Crypto) {n : Nat} (S : Reunion.Protocol.System n)
    extends c.NonEmpty : Prop where
  generate : ∀ i, ∃ t1, c.generateType1Message (S.peers i).machine.exchange.session
    (S.peers i).machine.exchange.payload = .ok t1
  handshake : ∀ i j, j ≠ i → ∀ t1 t1', c.generateType1Message
      (S.peers i).machine.exchange.session (S.peers i).machine.exchange.payload = .ok t1 →
    c.generateType1Message (S.peers j).machine.exchange.session
      (S.peers j).machine.exchange.payload = .ok t1' →
    ∃ p, c.handshake (S.peers i).machine.exchange.session t1
      (S.peers j).machine.exchange.session t1' = .ok p

end Reunion.Client

namespace Reunion.Protocol
open Reunion.Client Reunion.Safety

section
variable {db : Database} {w : World} (hH : w.sha256 = db.sha256)
  (hc : ∀ s, w.unmarshalState (db.encode s) = .ok s) (b : Board)
include hH hc

theorem Database.step_fetch (m : Machine) (hv : ∀ msg ∈ (b.state db m.exchange.session.epoch
      (db.sha256 m.exchange.sentT1)).messages, msg.valid = true) :
    (Pc.step (db.world w b) (.fetch, m)).1 = .sendT2 ∧
      MergedFrom m.exchange
        (b.state db m.exchange.session.epoch (db.sha256 m.exchange.sentT1)).t1Map
        (b.state db m.exchange.session.epoch (db.sha256 m.exchange.sentT1)).messages
        (Pc.step (db.world w b) (.fetch, m)).2.exchange := by
  have hmf := fetchState_atBoard hH hc b m
  rw [List.takeWhile_eq_self_iff.2 hv] at hmf
  obtain ⟨u, hu⟩ := fetchState_ok_atBoard hH hc b m hv
  simp only [Pc.step]
  rcases hf : fetchState (db.world w b) m with ⟨_ | _, m'⟩ <;> rw [hf] at hu hmf
  · cases hu
  · exact ⟨rfl, hmf⟩

end

/-! ## What a peer's replies rest on -/

/-- A T1 the peer answered has its alpha key and a `SendT2` in the history; a T2 it answered
is held from a source whose beta key it opened. -/
structure Backed (e : Exchange) (tr : List Event) : Prop where
  t1s : ∀ k ∈ e.repliedT1s, k ∈ e.receivedT1Alphas ∧
    ∃ ep src t2 r, .query (.sendT2 ep src k t2) r ∈ tr
  t2s : ∀ k t2, e.repliedT2s.lookup k = some t2 →
    ∃ src, e.receivedT2s.lookup src = some t2 ∧ src ∈ e.decryptedT1Betas

theorem Backed.cons {e : Exchange} {tr : List Event} (h : Backed e tr) (ev : Event) :
    Backed e (ev :: tr) where
  t1s k hk := (h.t1s k hk).imp_right fun ⟨ep, src, t2, r, hm⟩ =>
    ⟨ep, src, t2, r, List.mem_cons_of_mem _ hm⟩
  t2s := h.t2s

theorem backed_move (w : World) : MoveInvariant w fun s => Backed s.1 s.2 where
  initial m h := by
    obtain ⟨-, h₁, h₂, -⟩ := (inv_initial h).initial_empty (initial_status h)
    exact ⟨fun k hk => by simp [h₁] at hk, fun k t2 hk => by simp [h₂] at hk⟩
  move s s' h hb := by
    cases h with
    | generate => exact ⟨hb.t1s, hb.t2s⟩
    | sendT1 => split <;> exact ⟨(hb.cons _).t1s, hb.t2s⟩
    | fetch e tr t1s t2s t3s r _ _ h₂ =>
      refine ⟨(hb.cons _).t1s, fun k t2 hk => ?_⟩
      obtain ⟨src, hl, hs⟩ := hb.t2s k t2 hk
      exact ⟨src, h₂ hl, hs⟩
    | sendT2 e tr t1Hash t1 t2 α β γ pk n r =>
      have hs : Backed (e.storeT2 t1Hash pk (w.sha256 t2) t2) tr :=
        ⟨fun k hk => (hb.t1s k hk).imp_left fun h => (AList.mem_insert _).2 (.inr h), hb.t2s⟩
      split
      · refine ⟨fun k hk => ?_, hs.t2s⟩
        rcases (AList.mem_insert _).1 hk with rfl | hk
        · exact ⟨(AList.mem_insert _).2 (.inl rfl), _, _, _, _, List.mem_cons_self _ _⟩
        · exact (hs.cons _).t1s k hk
      · exact hs.cons _
    | sendT3 e tr src t1 t2 t3 k α β γ pk beta n r _ h₂ =>
      split
      · refine ⟨(hb.cons _).t1s, fun k' t2' hk => ?_⟩
        rcases lookup_insert_eq_some.1 hk with ⟨-, rfl⟩ | ⟨-, hk⟩
        · exact ⟨src, h₂, (AList.mem_insert _).2 (.inl rfl)⟩
        · obtain ⟨src', hl, hs⟩ := hb.t2s _ _ hk
          exact ⟨src', hl, (AList.mem_insert _).2 (.inr hs)⟩
      · exact hb.cons _
    | result => exact hb.cons _
    | emit => exact hb.cons _
    | resume => exact ⟨hb.t1s, hb.t2s⟩

namespace System

variable {n : Nat} {db : Database} {c : Crypto} {w : Fin n → World} {S : System n}

/-- The peers execute their next statements in the order of `l`. -/
def run (db : Database) (w : Fin n → World) (S : System n) (l : List (Fin n)) : System n :=
  l.foldl (System.advance db w) S

theorem run_append (S : System n) (l₁ l₂ : List (Fin n)) :
    S.run db w (l₁ ++ l₂) = (S.run db w l₁).run db w l₂ :=
  List.foldl_append _ _ _ _

theorem run_peers_of_not_mem {l : List (Fin n)} {j : Fin n} (hj : j ∉ l) :
    (S.run db w l).peers j = S.peers j := by
  induction l generalizing S with
  | nil => rfl
  | cons i l ih =>
    rw [List.mem_cons, not_or] at hj
    exact (ih (S := System.advance db w S i) hj.2).trans (advance_ne S hj.1)

theorem advance_halted {i : Fin n} {hh : Halt} (hp : (S.peers i).pc = .halted hh) :
    (System.advance db w S i).peers i = S.peers i := by
  rw [advance_self, stepOf, hp, Pc.step_halted, ← hp]

theorem run_halted {i : Fin n} {hh : Halt} (hp : (S.peers i).pc = .halted hh)
    (l : List (Fin n)) : (S.run db w l).peers i = S.peers i := by
  induction l generalizing S with
  | nil => rfl
  | cons z l ih =>
    have h₁ : (System.advance db w S z).peers i = S.peers i := by
      by_cases hz : i = z
      · subst hz; exact advance_halted hp
      · exact advance_ne S hz
    exact (ih (S := System.advance db w S z) (by rw [h₁]; exact hp)).trans h₁

theorem Reachable.run (hS : S.Reachable db w) (l : List (Fin n)) :
    (S.run db w l).Reachable db w := by
  induction l generalizing S with
  | nil => exact hS
  | cons i l ih => exact ih (hS.advance i)

theorem Reachable.backed (hS : S.Reachable db w) (i : Fin n) :
    Backed (S.peers i).machine.exchange (S.peers i).machine.trace :=
  (backed_move (w i)).peer hS

theorem Reachable.extends_run (hS : S.Reachable db w) (l : List (Fin n)) (i : Fin n) :
    Extends (S.peers i).machine.exchange ((S.run db w l).peers i).machine.exchange := by
  induction l generalizing S with
  | nil => exact .refl _
  | cons j l ih =>
    refine .trans ?_ (ih (hS.advance j))
    by_cases hij : i = j
    · subst hij
      rw [advance_self]
      exact moves_extends (stepOf_moves db (hS.inv.ready i)).2 ((inv_move (w i)).peer hS)
    · rw [advance_ne S hij]
      exact .refl _

theorem Reachable.extends_advance (hS : S.Reachable db w) (i j : Fin n) :
    Extends (S.peers i).machine.exchange ((System.advance db w S j).peers i).machine.exchange :=
  hS.extends_run [j] i

section
variable (hw : db.Serves c w) (hS : S.Reachable db w)
include hw hS

theorem Reachable.sendT2_of_replied {i : Fin n} {k : ExchangeHash}
    (hk : k ∈ (S.peers i).machine.exchange.repliedT1s) :
    ∃ t2, .sendT2 (S.peers i).machine.exchange.session.epoch
      (db.sha256 (S.peers i).machine.exchange.sentT1) k t2 ∈ S.board := by
  obtain ⟨-, ep, src, t2, r, hr⟩ := (hS.backed i).t1s k hk
  obtain ⟨-, rfl, rfl, -⟩ := (hS.origin hw i).1.2.t2 hr
  exact ⟨t2, hS.mem_board.2 ⟨i, mem_posted.2 ⟨rfl, r, hr⟩⟩⟩

theorem Reachable.sendT3_of_answered {i : Fin n} {k : ExchangeHash}
    (hk : k ∈ (S.peers i).machine.exchange.decryptedT1Betas) :
    ∃ t3, .sendT3 (S.peers i).machine.exchange.session.epoch
      (db.sha256 (S.peers i).machine.exchange.sentT1) k t3 ∈ S.board := by
  obtain ⟨ep, src, t3, r, hr, -⟩ := (hS.honest hw i).1.2.answered k hk
  obtain ⟨-, rfl, rfl, -⟩ := (hS.origin hw i).1.2.t3 hr
  exact ⟨t3, hS.mem_board.2 ⟨i, mem_posted.2 ⟨rfl, r, hr⟩⟩⟩

theorem Reachable.t2_from {ep : UInt64} {src dst : ExchangeHash} {t2 : Bytes}
    (h : .sendT2 ep src dst t2 ∈ S.board) :
    ∃ l, src = db.sha256 (S.peers l).machine.exchange.sentT1 ∧ dst ≠ src ∧
      dst ∈ (S.peers l).machine.exchange.receivedT1s := by
  obtain ⟨l, hl⟩ := hS.mem_board.1 h
  obtain ⟨-, r, hr⟩ := mem_posted.1 hl
  obtain ⟨-, -, hsrc, hne⟩ := (hS.origin hw l).1.2.t2 hr
  obtain ⟨t1, -, ht1, -⟩ := (hS.honest hw l).2.t2 hr
  exact ⟨l, hsrc, hne, mem_of_lookup_eq_some ht1⟩

theorem Reachable.t3_from {ep : UInt64} {src dst : ExchangeHash} {t3 : Bytes}
    (h : .sendT3 ep src dst t3 ∈ S.board) :
    ∃ l, src = db.sha256 (S.peers l).machine.exchange.sentT1 ∧ dst ≠ src ∧
      dst ∈ (S.peers l).machine.exchange.receivedT2s := by
  obtain ⟨l, hl⟩ := hS.mem_board.1 h
  obtain ⟨-, r, hr⟩ := mem_posted.1 hl
  obtain ⟨-, -, hsrc, hne⟩ := (hS.origin hw l).1.2.t3 hr
  obtain ⟨t1, t2, -, -, ht2, -⟩ := (hS.honest hw l).2.t3 hr
  exact ⟨l, hsrc, hne, mem_of_lookup_eq_some ht2⟩

theorem Reachable.t2_ne_nil (hc : c.NonEmpty) {ep : UInt64} {src dst : ExchangeHash}
    {t2 : Bytes} (h : .sendT2 ep src dst t2 ∈ S.board) : t2 ≠ [] := by
  obtain ⟨j, -, -, t1, pk, -, hr⟩ := hS.t2_of_board hw h
  obtain ⟨α, β, γ, -, hp⟩ := Crypto.reply_ok hr
  exact hc.t2 _ _ _ _ hp

theorem Reachable.t3_ne_nil (hc : c.NonEmpty) {ep : UInt64} {src dst : ExchangeHash}
    {t3 : Bytes} (h : .sendT3 ep src dst t3 ∈ S.board) : t3 ≠ [] := by
  obtain ⟨j, -, -, t1, t2, beta, -, -, -, hcx⟩ := hS.t3_of_board hw h
  exact hc.t3 _ _ _ hcx

/-- Every state the database answers holds valid messages only. -/
theorem Reachable.state_valid (hc : c.NonEmpty) (epoch : UInt64) (dst : ExchangeHash) :
    ∀ msg ∈ (S.board.state db epoch dst).messages, msg.valid = true :=
  Board.state_valid db (fun _ _ _ _ h => hS.t2_ne_nil hw hc h)
    (fun _ _ _ _ h => hS.t3_ne_nil hw hc h) dst

end

/-! ## The handshakes of the peers -/

/-- Every two peers past `sendT1` complete the handshake with their sessions and T1s. -/
def Handshakes (c : Crypto) (S : System n) : Prop :=
  ∀ i j, j ≠ i → (S.peers i).machine.exchange.status = t1MessageSentState →
    (S.peers j).machine.exchange.status = t1MessageSentState →
    ∃ p, c.handshake (S.peers i).machine.exchange.session (S.peers i).machine.exchange.sentT1
      (S.peers j).machine.exchange.session (S.peers j).machine.exchange.sentT1 = .ok p

theorem Handshakes.run (hS : S.Reachable db w)
    (hs : ∀ i, (S.peers i).machine.exchange.status = t1MessageSentState)
    (hH : Handshakes c S) (l : List (Fin n)) : Handshakes c (S.run db w l) := fun i j hji _ _ => by
  have hf k := (hS.extends_run l k).fixed (hs k)
  rw [(hf i).2.2, (hf i).2.1, (hf j).2.2, (hf j).2.1]
  exact hH i j hji (hs i) (hs j)

section
variable (hw : db.Serves c w) (hS : S.Reachable db w) (hH : Handshakes c S)
include hw hS hH

/-- The reply a peer computes to a T1 it holds, not its own, comes out. -/
theorem Reachable.t1_reply {i : Fin n}
    (hi : (S.peers i).machine.exchange.status = t1MessageSentState) {k : ExchangeHash}
    {t1 : Bytes} (h₁ : (S.peers i).machine.exchange.receivedT1s.lookup k = some t1)
    (hk : k ≠ db.sha256 (S.peers i).machine.exchange.sentT1) :
    ∃ r, c.reply (S.peers i).machine.exchange.session t1 = .ok r := by
  obtain ⟨hb, rfl⟩ := (hS.fed hw i).received.t1s k t1 h₁
  obtain ⟨j, hsj, -, rfl⟩ := hS.t1_of_board hw hb
  obtain ⟨p, hp⟩ := hH i j (fun hji => hk (hji ▸ rfl)) hi hsj
  obtain ⟨_, _, _, _, _, _, _, _, _, _, hr, -⟩ := Crypto.handshake_ok hp
  exact ⟨_, hr⟩

variable (hx : Distinct db.sha256 S)
include hx

/-- A T2 a peer holds beside its T1 and alpha key gets its T3: the alpha key is the reply's,
and the beta key and the T3 come out, as in the handshake of its sender with the peer. -/
theorem Reachable.t2_answers {i : Fin n}
    (hi : (S.peers i).machine.exchange.status = t1MessageSentState) {src : ExchangeHash}
    {t1 t2 : Bytes} {pk : PublicKey}
    (h₂ : (S.peers i).machine.exchange.receivedT2s.lookup src = some t2)
    (h₁ : (S.peers i).machine.exchange.receivedT1s.lookup src = some t1)
    (hα : (S.peers i).machine.exchange.receivedT1Alphas.lookup src = some pk) :
    ∃ t2' beta t3, c.reply (S.peers i).machine.exchange.session t1 = .ok (t2', pk) ∧
      c.unlock (S.peers i).machine.exchange.session t1 t2 = .ok beta ∧
      c.composeType3Message (S.peers i).machine.exchange.session beta = .ok t3 := by
  obtain ⟨t1', α, β, γ, t2', hl, hd, hp⟩ := (hS.honest hw i).1.2.alphas _ _ hα
  cases h₁.symm.trans hl
  obtain ⟨j, hji, hsj, rfl, pk', hry⟩ := hS.t2_reply hw hx hi h₂
  obtain rfl := hS.held_t1 hw hx hsj h₁
  obtain ⟨p, hp'⟩ := hH j i hji.symm hsj hi
  obtain ⟨_, _, _, _, beta, _, t3, _, _, _, hrx, -, hbx, -, ht3, -⟩ := Crypto.handshake_ok hp'
  cases hry.symm.trans hrx
  exact ⟨t2', beta, t3, Crypto.reply_of hd hp, hbx, ht3⟩

/-- A T3 a peer holds under a key whose beta key it opened opens, as in the handshake of the
peer with its sender. -/
theorem Reachable.t3_opens {i : Fin n} {h : ExchangeHash} {t3 : Bytes}
    (h₃ : (S.peers i).machine.exchange.receivedT3s.lookup h = some t3)
    (hb : h ∈ (S.peers i).machine.exchange.decryptedT1Betas) :
    T3Opens c (S.peers i).machine.exchange h t3 := by
  obtain ⟨beta, hbeta⟩ := exists_lookup_of_mem hb
  have hinv := (hS.origin hw i).1.1
  obtain ⟨t1, ht1⟩ := exists_lookup_of_mem (hinv.alphas h (hinv.betas h hb))
  have hsi := hinv.status.resolve_left fun h₀ => by
    simp [(hinv.initial_empty h₀).2.2.2.2.2.2.2] at hb
  obtain ⟨j, hji, hsj, -, -, α, β, γ, hd, heq⟩ := hS.t3_handshake hw hx h₃ hbeta ht1
  obtain ⟨p, hp⟩ := hH i j hji hsi hsj
  exact ⟨beta, t1, α, β, γ, p, hbeta, ht1, hd, heq ▸ hp⟩

end

/-! ## One statement of one peer -/

section
variable (hw : db.Serves c w) (hl : ∀ i, (w i).Live)

include hl in
theorem live_atBoard (i : Fin n) (b : Board) : (db.world (w i) b).Live :=
  ⟨(hl i).shutdown, (hl i).marshal⟩

include hw hl

theorem advance_entry {i : Fin n} (hp : (S.peers i).pc = .entry)
    (hs : (S.peers i).machine.exchange.status = initialState)
    (hg : ∃ t1, c.generateType1Message (S.peers i).machine.exchange.session
      (S.peers i).machine.exchange.payload = .ok t1) :
    ∃ t1, c.generateType1Message (S.peers i).machine.exchange.session
        (S.peers i).machine.exchange.payload = .ok t1 ∧
      ((advance db w S i).peers i).pc = .fetch ∧
      ((advance db w S i).peers i).machine.exchange = { (S.peers i).machine.exchange with
        sentT1 := t1, status := t1MessageSentState } := by
  rw [advance_self, stepOf, hp]
  exact Pc.step_entry (w := db.world (w i) S.board) (hw.crypto i) (live_atBoard hl i S.board)
    (fun k _ hs => Database.world_accepts db (w i) S.board k hs) hs hg

theorem advance_sendT2 (hS : S.Reachable db w) (hH : Handshakes c S) {i : Fin n}
    (hp : (S.peers i).pc = .sendT2) :
    ((advance db w S i).peers i).pc = .sendT3 ∧
      ∀ k ∈ (S.peers i).machine.exchange.receivedT1s,
        k ≠ db.sha256 (S.peers i).machine.exchange.sentT1 →
        k ∈ ((advance db w S i).peers i).machine.exchange.repliedT1s := by
  have hi := hS.inv.ready i (by rw [hp]; rfl)
  rw [advance_self, stepOf, hp, ← hw.sha256 i]
  obtain ⟨h₁, h₂, h₃⟩ := Pc.step_sendT2 (w := db.world (w i) S.board) (hw.crypto i)
    (live_atBoard hl i S.board) (fun k _ hs => Database.world_accepts db (w i) S.board k hs)
    (S.peers i).machine fun k t1 h₁ hk => hS.t1_reply hw hH hi h₁ (hw.sha256 i ▸ hk)
  exact ⟨h₁, fun k hk hne => h₂ ▸ h₃ k hk hne⟩

omit hw in
theorem advance_sendT3_pc {i : Fin n} (hp : (S.peers i).pc = .sendT3) :
    ((advance db w S i).peers i).pc = .processT3 := by
  rw [advance_self, stepOf, hp]
  simp only [Pc.step, (checkpoint_live (live_atBoard hl i S.board) _).1, Pc.ofHalt_none]

theorem advance_sendT3 (hS : S.Reachable db w) (hH : Handshakes c S)
    (hx : Distinct db.sha256 S) {i : Fin n} (hp : (S.peers i).pc = .sendT3)
    (hT : ∀ src ∈ (S.peers i).machine.exchange.receivedT2s,
      src ∈ (S.peers i).machine.exchange.receivedT1s ∧
        src ∈ (S.peers i).machine.exchange.receivedT1Alphas) :
    ((advance db w S i).peers i).pc = .processT3 ∧
      ∀ src t2, (S.peers i).machine.exchange.receivedT2s.lookup src = some t2 →
        db.sha256 t2 ∈ ((advance db w S i).peers i).machine.exchange.repliedT2s := by
  have hi := hS.inv.ready i (by rw [hp]; rfl)
  rw [advance_self, stepOf, hp, ← hw.sha256 i]
  obtain ⟨h₁, h₂, h₃⟩ := Pc.step_sendT3 (w := db.world (w i) S.board) (hw.crypto i)
    (live_atBoard hl i S.board) (fun k _ hs => Database.world_accepts db (w i) S.board k hs)
    (S.peers i).machine hT fun _ _ _ _ h₂ h₁ hα => hS.t2_answers hw hH hx hi h₂ h₁ hα
  exact ⟨h₁, fun src t2 ht => h₂ ▸ h₃ src t2 ht⟩

end

section
variable (hw : db.Serves c w) (hS : S.Reachable db w)
include hw hS

theorem Reachable.advance_fetch (hc : c.NonEmpty) {i : Fin n} (hp : (S.peers i).pc = .fetch) :
    ((System.advance db w S i).peers i).pc = .sendT2 ∧
      MergedFrom (S.peers i).machine.exchange
        (S.board.state db (S.peers i).machine.exchange.session.epoch
          (db.sha256 (S.peers i).machine.exchange.sentT1)).t1Map
        (S.board.state db (S.peers i).machine.exchange.session.epoch
          (db.sha256 (S.peers i).machine.exchange.sentT1)).messages
        ((System.advance db w S i).peers i).machine.exchange := by
  rw [advance_self, stepOf, hp]
  exact Database.step_fetch (hw.sha256 i) (hw.decode i) S.board _ (hS.state_valid hw hc _ _)

theorem Reachable.advance_processT3 {i : Fin n} (hp : (S.peers i).pc = .processT3) :
    ((System.advance db w S i).peers i).machine.exchange = (S.peers i).machine.exchange ∧
      ((∃ h ∈ (S.peers i).machine.exchange.receivedT3s,
          h ∈ (S.peers i).machine.exchange.decryptedT1Betas) →
        Handshakes c S → Distinct db.sha256 S →
        ((System.advance db w S i).peers i).pc = .halted .completed ∧
          ResultOnTop ((System.advance db w S i).peers i).machine.trace) ∧
      ((¬ ∃ h ∈ (S.peers i).machine.exchange.receivedT3s,
          h ∈ (S.peers i).machine.exchange.decryptedT1Betas) →
        ((System.advance db w S i).peers i).pc = .fetch) := by
  rw [advance_self, stepOf, hp]
  obtain ⟨he, hdone, hnot⟩ := Pc.step_processT3 (w := db.world (w i) S.board) (hw.crypto i)
    (S.peers i).machine
  exact ⟨he, fun h hH hx => hdone h fun _ _ h₃ hb => hS.t3_opens hw hH hx h₃ hb, hnot⟩

/-- After a fetch a peer holds the T1 of every peer past `sendT1` in its epoch, a T2 from
each such peer that answered its T1, and a T3 from each such peer that answered its T2. -/
theorem Reachable.fetch_holds (hc : c.NonEmpty) {i j : Fin n} (hp : (S.peers i).pc = .fetch)
    (hsj : (S.peers j).machine.exchange.status = t1MessageSentState)
    (hep : (S.peers j).machine.exchange.session.epoch =
      (S.peers i).machine.exchange.session.epoch) :
    ((System.advance db w S i).peers i).pc = .sendT2 ∧
      db.sha256 (S.peers j).machine.exchange.sentT1 ∈
        ((System.advance db w S i).peers i).machine.exchange.receivedT1s ∧
      (db.sha256 (S.peers i).machine.exchange.sentT1 ∈ (S.peers j).machine.exchange.repliedT1s →
        db.sha256 (S.peers j).machine.exchange.sentT1 ∈
          ((System.advance db w S i).peers i).machine.exchange.receivedT2s) ∧
      (db.sha256 (S.peers i).machine.exchange.sentT1 ∈
          (S.peers j).machine.exchange.decryptedT1Betas →
        db.sha256 (S.peers j).machine.exchange.sentT1 ∈
          ((System.advance db w S i).peers i).machine.exchange.receivedT3s) := by
  obtain ⟨hp', hmf⟩ := hS.advance_fetch hw hc hp
  refine ⟨hp', AList.lookup_isSome.1 ?_, fun hr => AList.lookup_isSome.1 ?_,
    fun hb => AList.lookup_isSome.1 ?_⟩
  · rw [hmf.t1s, Option.isSome_or]
    exact Bool.or_eq_true_iff.2
      (.inr (AList.lookup_isSome.2 (Board.mem_t1Map db (hep ▸ hS.own_t1_mem hw hsj))))
  · obtain ⟨t2, ht2⟩ := hS.sendT2_of_replied hw hr
    rw [hmf.t2s, Option.isSome_or, firstT2_isSome (Board.mem_state_of_sendT2 db (hep ▸ ht2))
      (hS.t2_ne_nil hw hc ht2), Bool.or_true]
  · obtain ⟨t3, ht3⟩ := hS.sendT3_of_answered hw hb
    rw [hmf.t3s, Option.isSome_or, firstT3_isSome (Board.mem_state_of_sendT3 db (hep ▸ ht3))
      (hS.t3_ne_nil hw hc ht3), Bool.or_true]

end

end System

end Reunion.Protocol
