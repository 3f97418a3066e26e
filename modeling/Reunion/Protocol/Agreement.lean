import Reunion.Protocol.Handshake
import Reunion.Protocol.System

/-! # Agreement

Any number of peers, each running the client against one database, in any interleaving of
their statements and of the host's new invocations of `Run`. Each peer's world hashes as the
database does and decodes what it encodes, and all of them use one crypto library whose
operations are functions of their inputs (`Database.Serves`).

Every result a peer records is what the handshake computes from its own session and T1 and
those of another peer past `sendT1`, in its epoch (`reachable_result_handshake`), as long as
no two T1s in the log share a hash and no two peers posted one T1 (`Distinct`). The proof
reads the result back to the messages it was opened from and each message back to the peer
that sent it: every peer holds only what the log has (`Reachable.fed`), and every command
in the log names its sender through the hash of the sender's T1 and was computed by the
handshake from what the sender held (`t1_of_board`, `t2_of_board`, `t3_of_board`).
-/

namespace Reunion.Protocol
open Reunion.Client Reunion.Safety

/-- What the peers share with the database: their worlds hash as the database does and
decode its encoding of a state, and all of them run the crypto library `c`, whose operations
are functions of their inputs. -/
structure Database.Serves (db : Database) (c : Crypto) {n : Nat} (w : Fin n → World) :
    Prop where
  sha256 : ∀ i, (w i).sha256 = db.sha256
  decode : ∀ i s, (w i).unmarshalState (db.encode s) = .ok s
  crypto : ∀ i k, (w i).crypto k = c

/-- Every send of the history was accepted. -/
def AllAccepted (tr : List Event) : Prop :=
  ∀ cmd r, .query cmd r ∈ tr → cmd.isSend = true → accepted r = true

theorem AllAccepted.cons {tr : List Event} (h : AllAccepted tr) {ev : Event}
    (hev : ∀ cmd r, ev = .query cmd r → cmd.isSend = true → accepted r = true) :
    AllAccepted (ev :: tr) := fun cmd r hm hs => by
  rcases List.mem_cons.1 hm with hm | hm
  exacts [hev cmd r hm.symm hs, h cmd r hm hs]

/-- What a peer in front of the log `b` keeps: it holds nothing before its T1 was accepted,
the database accepted each of its sends, and what it holds came from `b`. -/
structure Fed (H : Bytes → ExchangeHash) (b : Board) (e : Exchange) (tr : List Event) :
    Prop where
  empty : e.status = initialState →
    e.receivedT1s = ∅ ∧ e.receivedT2s = ∅ ∧ e.receivedT3s = ∅
  sends : AllAccepted tr
  received : Received H b e

namespace Fed

variable {H : Bytes → ExchangeHash} {b b' : Board} {e e' : Exchange} {tr : List Event}

theorem mono (h : Fed H b e tr) (hb : b ⊆ b') : Fed H b' e tr :=
  { h with received := h.received.mono hb }

theorem step (h : Fed H b e tr) (hs : e'.status = e.status) (he : e'.session = e.session)
    (ht : e'.sentT1 = e.sentT1) (h₁ : e'.receivedT1s = e.receivedT1s)
    (h₂ : e'.receivedT2s = e.receivedT2s) (h₃ : e'.receivedT3s = e.receivedT3s) {ev : Event}
    (hev : ∀ cmd r, ev = .query cmd r → cmd.isSend = true → accepted r = true) :
    Fed H b e' (ev :: tr) where
  empty h' := by rw [h₁, h₂, h₃]; exact h.empty (hs ▸ h')
  sends := h.sends.cons hev
  received :=
    { t1s := fun k t1 hl => by rw [he]; exact h.received.t1s k t1 (h₁ ▸ hl)
      t2s := fun k t2 hl => by rw [he, ht]; exact h.received.t2s k t2 (h₂ ▸ hl)
      t3s := fun k t3 hl => by rw [he, ht]; exact h.received.t3s k t3 (h₃ ▸ hl) }

end Fed

section
variable {db : Database} {w : World} (hH : w.sha256 = db.sha256)
  (hc : ∀ s, w.unmarshalState (db.encode s) = .ok s) (b : Board)
include hH hc

theorem fed_runInvariant : RunInvariant (db.world w b) (Fed db.sha256 b) where
  after_sendT1 m hs h := by
    have hacc : ∀ t1, accepted ((db.world w b).query (m.clock + 1)
        (.sendT1 m.exchange.session.epoch t1)) = true :=
      fun _ => Database.world_accepts db w b _ rfl
    obtain ⟨h₁, h₂, h₃⟩ := h.empty hs
    obtain ⟨t1, he, ⟨hb, ht⟩ | ⟨ht, hb⟩⟩ := sendT1_spec (db.world w b) m <;>
      simp only [hb, he, ht, hacc, Bool.false_eq_true, if_true, if_false]
    · exact ⟨fun _ => ⟨h₁, h₂, h₃⟩, h.sends, .of_empty h₁ h₂ h₃⟩
    · refine ⟨fun h' => absurd h' Inv.initialState_ne.symm, h.sends.cons ?_,
        .of_empty h₁ h₂ h₃⟩
      rintro cmd r ⟨⟩ -
      exact hacc t1
  after_emit _ _ _ _ h := h.step rfl rfl rfl rfl rfl rfl fun _ _ h => by cases h
  after_fetchState m hs h := by
    obtain ⟨t1s, t2s, t3s, r, he, -, -, -, ht⟩ := fetchState_spec (db.world w b) m
    refine ⟨fun h' => ?_, ?_, fetchState_received hH hc b h.received⟩
    · rw [he] at h'
      exact absurd (hs.symm.trans h') Inv.initialState_ne.symm
    · rw [ht]
      exact h.sends.cons fun _ _ h hs => by cases h; cases hs
  after_sendT2Messages m _ h := by
    refine sendT2Messages_preserves (db.world w b) m ?_ h
    intro e tr _ t1 _ _ n _ _ _ _ _ _ _ _ _ hP cmd _
    have ha : accepted ((db.world w b).query (n + 2) cmd) = true :=
      Database.world_accepts db w b _ rfl
    rw [if_pos ha]
    refine hP.step ?_ ?_ ?_ ?_ ?_ ?_ (fun _ _ h _ => (Event.query.inj h).2 ▸ ha) <;> rfl
  after_sendT3Messages m _ h := by
    refine sendT3Messages_preserves (db.world w b) m ?_ h
    intro e tr _ _ _ _ _ _ _ _ _ _ n _ _ _ _ _ _ _ _ _ hP cmd
    have ha : accepted ((db.world w b).query (n + 4) cmd) = true :=
      Database.world_accepts db w b _ rfl
    rw [if_pos ha]
    refine hP.step ?_ ?_ ?_ ?_ ?_ ?_ (fun _ _ h _ => (Event.query.inj h).2 ▸ ha) <;> rfl
  after_processT3Messages m h :=
    processT3Messages_preserves (db.world w b) m
      (fun _ _ _ _ _ _ _ _ _ _ _ _ _ _ _ hP => hP.step rfl rfl rfl rfl rfl rfl fun _ _ h => by
        cases h) h

end

/-- No two T1s in the log share a hash, and no two peers past `sendT1` posted one T1. -/
structure Distinct (H : Bytes → ExchangeHash) {n : Nat} (S : System n) : Prop where
  t1s : ∀ ep ep' t1 t1', .sendT1 ep t1 ∈ S.board → .sendT1 ep' t1' ∈ S.board →
    H t1 = H t1' → t1 = t1'
  peers : ∀ j k, (S.peers j).machine.exchange.status = t1MessageSentState →
    (S.peers k).machine.exchange.status = t1MessageSentState →
    (S.peers j).machine.exchange.sentT1 = (S.peers k).machine.exchange.sentT1 → j = k

namespace System

variable {n : Nat} {db : Database} {c : Crypto} {w : Fin n → World} {S : System n}

/-- Every peer of every interleaving is fed by the log. -/
theorem Reachable.fed (hw : db.Serves c w) (hS : S.Reachable db w) (i : Fin n) :
    Fed db.sha256 S.board (S.peers i).machine.exchange (S.peers i).machine.trace := by
  induction hS with
  | initial h =>
    obtain ⟨-, -, -, h₁, h₂, h₃, -⟩ := (inv_initial (h.2 i).2).initial_empty
      (initial_status (h.2 i).2)
    rw [(h.2 i).2.1]
    exact ⟨fun _ => ⟨h₁, h₂, h₃⟩, fun _ _ h => (by cases h), .of_empty h₁ h₂ h₃⟩
  | @advance S j hS ih =>
    have hb : S.board ⊆ (System.advance db w S j).board := List.subset_append_right _ _
    by_cases hij : i = j
    · subst hij
      rw [advance_self]
      exact ((fed_runInvariant (hw.sha256 i) (hw.decode i) S.board).step
        (hS.inv.ready i) ih).2.mono hb
    · rw [advance_ne S hij]
      exact ih.mono hb
  | restart j _ _ _ ih => rwa [restart_board, restart_machine]

theorem Reachable.origin (hw : db.Serves c w) (hS : S.Reachable db w) (i : Fin n) :
    (Safety.Inv db.sha256 (S.peers i).machine.exchange ∧
      Origin db.sha256 (S.peers i).machine.exchange (S.peers i).machine.trace) ∧
      SentOwn (S.peers i).machine.exchange (S.peers i).machine.trace := by
  have h : Safety.Inv (w i).sha256 (S.peers i).machine.exchange ∧
      Origin (w i).sha256 (S.peers i).machine.exchange (S.peers i).machine.trace :=
    (origin_move (w i)).peer hS
  rw [hw.sha256 i] at h
  exact ⟨h, (sentOwn_move (w i)).peer hS⟩

theorem Reachable.honest (hw : db.Serves c w) (hS : S.Reachable db w) (i : Fin n) :
    (Safety.Inv db.sha256 (S.peers i).machine.exchange ∧
      Provenance c (S.peers i).machine.exchange (S.peers i).machine.trace) ∧
      Honest c (S.peers i).machine.exchange (S.peers i).machine.trace := by
  have h : (Safety.Inv (w i).sha256 (S.peers i).machine.exchange ∧
      Provenance ((w i).crypto 0) (S.peers i).machine.exchange (S.peers i).machine.trace) ∧
      Honest ((w i).crypto 0) (S.peers i).machine.exchange (S.peers i).machine.trace :=
    (honest_move fun k => (hw.crypto i k).trans (hw.crypto i 0).symm).peer hS
  rwa [hw.sha256 i, hw.crypto i 0] at h

theorem Reachable.own_t1_mem (hw : db.Serves c w) (hS : S.Reachable db w) {i : Fin n}
    (hi : (S.peers i).machine.exchange.status = t1MessageSentState) :
    .sendT1 (S.peers i).machine.exchange.session.epoch (S.peers i).machine.exchange.sentT1 ∈
      S.board := by
  obtain ⟨r, hr, -⟩ := (hS.origin hw i).2 hi
  exact hS.mem_board.2 ⟨i, mem_posted.2 ⟨rfl, r, hr⟩⟩

/-- A T1 in the log is the T1 of a peer past `sendT1`, posted in its epoch. -/
theorem Reachable.t1_of_board (hw : db.Serves c w) (hS : S.Reachable db w) {ep : UInt64}
    {t1 : Bytes} (h : .sendT1 ep t1 ∈ S.board) :
    ∃ j, (S.peers j).machine.exchange.status = t1MessageSentState ∧
      ep = (S.peers j).machine.exchange.session.epoch ∧
      t1 = (S.peers j).machine.exchange.sentT1 := by
  obtain ⟨j, hj⟩ := hS.mem_board.1 h
  obtain ⟨-, r, hr⟩ := mem_posted.1 hj
  exact ⟨j, (hS.origin hw j).1.2.t1 hr ((hS.fed hw j).sends _ r hr rfl)⟩

/-- A T2 in the log from `src` to `dst` was sent by a peer past `sendT1` whose T1 hashes to
`src`, as its reply to the T1 it holds under `dst`. -/
theorem Reachable.t2_of_board (hw : db.Serves c w) (hS : S.Reachable db w) {ep : UInt64}
    {src dst : ExchangeHash} {t2 : Bytes} (h : .sendT2 ep src dst t2 ∈ S.board) :
    ∃ j, (S.peers j).machine.exchange.status = t1MessageSentState ∧
      src = db.sha256 (S.peers j).machine.exchange.sentT1 ∧
      ∃ t1 pk, (S.peers j).machine.exchange.receivedT1s.lookup dst = some t1 ∧
        c.reply (S.peers j).machine.exchange.session t1 = .ok (t2, pk) := by
  obtain ⟨j, hj⟩ := hS.mem_board.1 h
  obtain ⟨-, r, hr⟩ := mem_posted.1 hj
  obtain ⟨hs, -, hsrc, -⟩ := (hS.origin hw j).1.2.t2 hr
  exact ⟨j, hs, hsrc, (hS.honest hw j).2.t2 hr⟩

/-- A T3 in the log from `src` to `dst` was sent by a peer past `sendT1` whose T1 hashes to
`src`, composed from the beta key it opens from what it holds under `dst`. -/
theorem Reachable.t3_of_board (hw : db.Serves c w) (hS : S.Reachable db w) {ep : UInt64}
    {src dst : ExchangeHash} {t3 : Bytes} (h : .sendT3 ep src dst t3 ∈ S.board) :
    ∃ j, (S.peers j).machine.exchange.status = t1MessageSentState ∧
      src = db.sha256 (S.peers j).machine.exchange.sentT1 ∧
      ∃ t1 t2 beta, (S.peers j).machine.exchange.receivedT1s.lookup dst = some t1 ∧
        (S.peers j).machine.exchange.receivedT2s.lookup dst = some t2 ∧
        c.unlock (S.peers j).machine.exchange.session t1 t2 = .ok beta ∧
        c.composeType3Message (S.peers j).machine.exchange.session beta = .ok t3 := by
  obtain ⟨j, hj⟩ := hS.mem_board.1 h
  obtain ⟨-, r, hr⟩ := mem_posted.1 hj
  obtain ⟨hs, -, hsrc, -⟩ := (hS.origin hw j).1.2.t3 hr
  exact ⟨j, hs, hsrc, (hS.honest hw j).2.t3 hr⟩

section
variable (hw : db.Serves c w) (hS : S.Reachable db w) (hx : Distinct db.sha256 S)
include hw hS hx

theorem Reachable.held_t1 {i j : Fin n} {t1 : Bytes}
    (hi : (S.peers i).machine.exchange.status = t1MessageSentState)
    (hl : (S.peers j).machine.exchange.receivedT1s.lookup
      (db.sha256 (S.peers i).machine.exchange.sentT1) = some t1) :
    t1 = (S.peers i).machine.exchange.sentT1 :=
  have h := (hS.fed hw j).received.t1s _ t1 hl
  hx.t1s _ _ _ _ h.1 (hS.own_t1_mem hw hi) h.2

theorem Reachable.peer_eq {j k : Fin n}
    (hj : (S.peers j).machine.exchange.status = t1MessageSentState)
    (hk : (S.peers k).machine.exchange.status = t1MessageSentState)
    (h : db.sha256 (S.peers j).machine.exchange.sentT1 =
      db.sha256 (S.peers k).machine.exchange.sentT1) : j = k :=
  hx.peers j k hj hk (hx.t1s _ _ _ _ (hS.own_t1_mem hw hj) (hS.own_t1_mem hw hk) h)

theorem Reachable.t2_reply {i : Fin n}
    (hi : (S.peers i).machine.exchange.status = t1MessageSentState) {src : ExchangeHash}
    {t2 : Bytes} (h₂ : (S.peers i).machine.exchange.receivedT2s.lookup src = some t2) :
    ∃ j, j ≠ i ∧ (S.peers j).machine.exchange.status = t1MessageSentState ∧
      src = db.sha256 (S.peers j).machine.exchange.sentT1 ∧
      ∃ pk, c.reply (S.peers j).machine.exchange.session
        (S.peers i).machine.exchange.sentT1 = .ok (t2, pk) := by
  obtain ⟨j, hj⟩ := hS.mem_board.1 ((hS.fed hw i).received.t2s _ _ h₂)
  obtain ⟨-, r, hr⟩ := mem_posted.1 hj
  obtain ⟨hsj, -, hsrc, hne⟩ := (hS.origin hw j).1.2.t2 hr
  obtain ⟨t1, pk, hl, hrep⟩ := (hS.honest hw j).2.t2 hr
  obtain rfl := hS.held_t1 hw hx hi hl
  exact ⟨j, fun hji => hne (hji ▸ hsrc).symm, hsj, hsrc, pk, hrep⟩

theorem Reachable.t3_handshake {i : Fin n} {h : ExchangeHash} {t3 t1 : Bytes}
    {beta : PublicKey} (h₃ : (S.peers i).machine.exchange.receivedT3s.lookup h = some t3)
    (hb : (S.peers i).machine.exchange.decryptedT1Betas.lookup h = some beta)
    (h₁ : (S.peers i).machine.exchange.receivedT1s.lookup h = some t1) :
    ∃ j, j ≠ i ∧ (S.peers j).machine.exchange.status = t1MessageSentState ∧
      (S.peers j).machine.exchange.session.epoch = (S.peers i).machine.exchange.session.epoch ∧
      t1 = (S.peers j).machine.exchange.sentT1 ∧ ∃ α β γ, c.decodeT1Message t1 = .ok (α, β, γ) ∧
      c.handshake (S.peers i).machine.exchange.session (S.peers i).machine.exchange.sentT1
        (S.peers j).machine.exchange.session (S.peers j).machine.exchange.sentT1 =
        c.processType3Message (S.peers i).machine.exchange.session t3 γ beta := by
  obtain ⟨⟨hinv, hprov⟩, -⟩ := hS.honest hw i
  have hfed := hS.fed hw i
  have hsi : (S.peers i).machine.exchange.status = t1MessageSentState :=
    hinv.status.resolve_left fun h₀ => by simp [(hinv.initial_empty h₀).2.2.2.2.2.2.2] at hb
  obtain ⟨hb₁, rfl⟩ := hfed.received.t1s h t1 h₁
  obtain ⟨j, hsj, hep, rfl⟩ := hS.t1_of_board hw hb₁
  have hji : j ≠ i := by
    rintro rfl
    exact hinv.own_t1.2.2 (mem_of_lookup_eq_some hb)
  obtain ⟨t1', t2, α, β, γ, t2', pk, k, hl₁', hl₂, hd, hp, hk, hdb⟩ := hprov.betas _ _ hb
  cases h₁.symm.trans hl₁'
  obtain ⟨l, -, hsl, hsrc, pky, hry⟩ := hS.t2_reply hw hx hsi hl₂
  obtain rfl := hS.peer_eq hw hx hsj hsl hsrc
  obtain ⟨l, hsl, hsrc, t1x, t2x, betaX, hlx₁, hlx₂, hux, hcx⟩ :=
    hS.t3_of_board hw (hfed.received.t3s _ _ h₃)
  obtain rfl := hS.peer_eq hw hx hsj hsl hsrc
  obtain rfl := hS.held_t1 hw hx hsi hlx₁
  obtain ⟨l, -, hsl, hsrc, pkx, hrx⟩ := hS.t2_reply hw hx hsj hlx₂
  obtain rfl := hS.peer_eq hw hx hsi hsl hsrc
  exact ⟨j, hji, hsj, hep.symm, rfl, α, β, γ, hd, Crypto.handshake_eq hrx hry hux
    (Crypto.unlock_of (Crypto.reply_of hd hp) hk hd hdb) hcx hd⟩

theorem Reachable.result_handshake {i : Fin n} {u : ReunionUpdate}
    (hu : .update u ∈ (S.peers i).machine.trace) {p : Bytes} (hp : u.result = some p) :
    ∃ j, j ≠ i ∧ (S.peers j).machine.exchange.status = t1MessageSentState ∧
      (S.peers j).machine.exchange.session.epoch = (S.peers i).machine.exchange.session.epoch ∧
      c.handshake (S.peers i).machine.exchange.session (S.peers i).machine.exchange.sentT1
        (S.peers j).machine.exchange.session (S.peers j).machine.exchange.sentT1 = .ok p := by
  obtain ⟨h, beta, t1, t3, α, β, γ, hlb, hl₃, hl₁, hdec, hres⟩ :=
    (hS.honest hw i).1.2.results u hu p hp
  obtain ⟨j, hji, hsj, hep, -, α', β', γ', hd, heq⟩ := hS.t3_handshake hw hx hl₃ hlb hl₁
  cases hdec.symm.trans hd
  exact ⟨j, hji, hsj, hep, heq.trans hres⟩

/-- Every result a peer records in any interleaving is what the handshake computes from its
own session and T1 and the session and T1 of another peer past `sendT1`, in its epoch. -/
theorem reachable_result_handshake (i : Fin n) :
    ∀ u, .update u ∈ (S.peers i).machine.trace → ∀ p, u.result = some p →
      ∃ j, j ≠ i ∧ (S.peers j).machine.exchange.status = t1MessageSentState ∧
        (S.peers j).machine.exchange.session.epoch =
          (S.peers i).machine.exchange.session.epoch ∧
        c.handshake (S.peers i).machine.exchange.session (S.peers i).machine.exchange.sentT1
          (S.peers j).machine.exchange.session (S.peers j).machine.exchange.sentT1 = .ok p :=
  fun _ hu _ hp => hS.result_handshake hw hx hu hp

end

end System

end Reunion.Protocol
