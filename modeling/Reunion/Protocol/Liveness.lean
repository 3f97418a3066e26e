import Reunion.Protocol.Progress
import Reunion.Protocol.AtMostOnce

/-! # Two peers complete

Two peers of one epoch, on fresh exchanges in front of an empty database, with a crypto
library that never returns an empty message and lets the two complete their handshake with
the T1s they generate (`Crypto.Pairs`), hosts that neither stop them nor fail to snapshot
them, and T1s that hash apart, both complete when each runs its loop in turn
(`two_peers_complete`): the first answers the second's T1; the second answers the first's T1
and T2; the first answers the second's T2 and opens its T3; the second opens the first's T3.
Each then has on top of its history the result the handshake computes from its own session
and T1 and the other's. The proof follows one iteration of a peer's loop (`Reachable.round`)
four times.
-/

namespace Reunion.Protocol
open Reunion.Client Reunion.Safety

namespace System

variable {db : Database} {c : Crypto}

/-! ## Two peers -/

section
variable {S : System 2} {h : Fin 2 → ExchangeHash}

/-- The two peers are past `sendT1`, in one epoch, their T1s hash to `h 0` and `h 1`, which
differ, and they complete their handshake each way. -/
structure Paired (db : Database) (c : Crypto) (S : System 2) (h : Fin 2 → ExchangeHash) :
    Prop where
  status : ∀ i, (S.peers i).machine.exchange.status = t1MessageSentState
  epoch : (S.peers 0).machine.exchange.session.epoch = (S.peers 1).machine.exchange.session.epoch
  hash : ∀ i, db.sha256 (S.peers i).machine.exchange.sentT1 = h i
  apart : h 0 ≠ h 1
  handshakes : Handshakes c S

theorem Paired.epoch_eq (hP : Paired db c S h) (i j : Fin 2) :
    (S.peers i).machine.exchange.session.epoch = (S.peers j).machine.exchange.session.epoch := by
  obtain rfl | rfl : i = 0 ∨ i = 1 := by omega
  all_goals obtain rfl | rfl : j = 0 ∨ j = 1 := by omega
  exacts [rfl, hP.epoch, hP.epoch.symm, rfl]

theorem Paired.hash_ne (hP : Paired db c S h) {i j : Fin 2}
    (hji : j ≠ i) : h j ≠ h i := by
  obtain rfl | rfl : i = 0 ∨ i = 1 := by omega
  all_goals obtain rfl | rfl : j = 0 ∨ j = 1 := by omega
  exacts [absurd rfl hji, hP.apart.symm, hP.apart, absurd rfl hji]

end

section
variable {w : Fin 2 → World} {S : System 2} (hw : db.Serves c w) (hS : S.Reachable db w)
include hw hS

omit hw in
theorem Paired.run {h : Fin 2 → ExchangeHash} (hP : Paired db c S h) (l : List (Fin 2)) :
    Paired db c (S.run db w l) h := by
  have hf i := (hS.extends_run l i).fixed (hP.status i)
  refine ⟨fun i => (hf i).1, ?_, fun i => ?_, hP.apart, hP.handshakes.run hS hP.status l⟩
  · rw [(hf 0).2.2, (hf 1).2.2, hP.epoch]
  · rw [(hf i).2.1, hP.hash i]

theorem Paired.distinct {h : Fin 2 → ExchangeHash} (hP : Paired db c S h) :
    Distinct db.sha256 S where
  t1s _ _ _ _ h₁ h₂ he := by
    obtain ⟨j, -, -, rfl⟩ := hS.t1_of_board hw h₁
    obtain ⟨k, -, -, rfl⟩ := hS.t1_of_board hw h₂
    obtain rfl : j = k := by
      by_contra hjk
      exact hP.hash_ne hjk (by rw [← hP.hash, ← hP.hash, he])
    rfl
  peers j k _ _ he := by
    by_contra hjk
    exact hP.hash_ne (Ne.symm hjk) (by rw [← hP.hash, ← hP.hash, he])

theorem Reachable.handshake_on_top {h : Fin 2 → ExchangeHash} (hP : Paired db c S h) {i j : Fin 2}
    (hji : j ≠ i) (hr : ResultOnTop (S.peers i).machine.trace) :
    ∃ u rest p, (S.peers i).machine.trace = .update u :: rest ∧ u.result = some p ∧
      c.handshake (S.peers i).machine.exchange.session (S.peers i).machine.exchange.sentT1
        (S.peers j).machine.exchange.session (S.peers j).machine.exchange.sentT1 = .ok p := by
  obtain ⟨u, rest, p, htr, -, -, hp⟩ := hr
  obtain ⟨l, hli, -, -, hh⟩ :=
    hS.result_handshake hw (hP.distinct hw hS) (htr ▸ List.mem_cons_self _ _) hp
  obtain rfl : l = j := by omega
  exact ⟨u, rest, p, htr, hp, hh⟩

theorem Reachable.t2_key {i j : Fin 2} (hji : j ≠ i) {k : ExchangeHash}
    (hk : k ∈ (S.peers i).machine.exchange.receivedT2s) :
    k = db.sha256 (S.peers j).machine.exchange.sentT1 ∧
      db.sha256 (S.peers i).machine.exchange.sentT1 ∈
        (S.peers j).machine.exchange.receivedT1s := by
  obtain ⟨t2, ht2⟩ := exists_lookup_of_mem hk
  obtain ⟨l, rfl, hne, hl⟩ := hS.t2_from hw ((hS.fed hw i).received.t2s k t2 ht2)
  obtain rfl : l = j := by
    have : l ≠ i := by rintro rfl; exact hne rfl
    omega
  exact ⟨rfl, hl⟩

theorem Reachable.t3_key {i j : Fin 2} (hji : j ≠ i) {k : ExchangeHash}
    (hk : k ∈ (S.peers i).machine.exchange.receivedT3s) :
    k = db.sha256 (S.peers j).machine.exchange.sentT1 ∧
      db.sha256 (S.peers i).machine.exchange.sentT1 ∈
        (S.peers j).machine.exchange.receivedT2s := by
  obtain ⟨t3, ht3⟩ := exists_lookup_of_mem hk
  obtain ⟨l, rfl, hne, hl⟩ := hS.t3_from hw ((hS.fed hw i).received.t3s k t3 ht3)
  obtain rfl : l = j := by
    have : l ≠ i := by rintro rfl; exact hne rfl
    omega
  exact ⟨rfl, hl⟩

theorem Reachable.advance_sendT3_two (hl : ∀ i, (w i).Live) {h : Fin 2 → ExchangeHash}
    (hP : Paired db c S h) {i j : Fin 2} (hji : j ≠ i) (hp : (S.peers i).pc = .sendT3)
    (h₁ : db.sha256 (S.peers j).machine.exchange.sentT1 ∈
      (S.peers i).machine.exchange.receivedT1s)
    (hr : db.sha256 (S.peers j).machine.exchange.sentT1 ∈
      (S.peers i).machine.exchange.repliedT1s) :
    ((System.advance db w S i).peers i).pc = .processT3 ∧
      (db.sha256 (S.peers j).machine.exchange.sentT1 ∈
          (S.peers i).machine.exchange.receivedT2s →
        db.sha256 (S.peers j).machine.exchange.sentT1 ∈
          ((System.advance db w S i).peers i).machine.exchange.decryptedT1Betas) := by
  obtain ⟨hp', hans⟩ := advance_sendT3 hw hl hS hP.handshakes (hP.distinct hw hS) hp
    fun src hs => by
    rw [(hS.t2_key hw hji hs).1]
    exact ⟨h₁, ((hS.backed i).t1s _ hr).1⟩
  refine ⟨hp', fun h₂ => ?_⟩
  have hS' := hS.advance i
  obtain ⟨t2, ht2⟩ := exists_lookup_of_mem h₂
  obtain ⟨t2', ht2'⟩ := exists_lookup_of_mem (hans _ _ ht2)
  obtain ⟨src, hsrc, hb⟩ := (hS'.backed i).t2s _ _ ht2'
  have hk := (hS'.t2_key hw hji (mem_of_lookup_eq_some hsrc)).1
  rw [advance_ne S hji] at hk
  exact hk ▸ hb

/-- One iteration of a peer's loop, the two peers paired: the peer answers the other's T1; it
answers the other's T2 if the other answered its T1; it then completes, with a result, if the
other also answered its T2; and it is back at the top of the loop if the other holds no T2
from it. The other peer does not move. -/
theorem Reachable.round (hc : c.NonEmpty) (hl : ∀ i, (w i).Live) {h : Fin 2 → ExchangeHash}
    (hP : Paired db c S h) {i j : Fin 2} (hji : j ≠ i) (hp : (S.peers i).pc = .fetch) :
    (S.run db w [i, i, i, i]).peers j = S.peers j ∧
      h j ∈ ((S.run db w [i, i, i, i]).peers i).machine.exchange.repliedT1s ∧
      (h i ∈ (S.peers j).machine.exchange.repliedT1s →
        h j ∈ ((S.run db w [i, i, i, i]).peers i).machine.exchange.decryptedT1Betas ∧
        (h i ∈ (S.peers j).machine.exchange.decryptedT1Betas →
          ((S.run db w [i, i, i, i]).peers i).pc = .halted .completed ∧
            ResultOnTop ((S.run db w [i, i, i, i]).peers i).machine.trace)) ∧
      (h i ∉ (S.peers j).machine.exchange.receivedT2s →
        ((S.run db w [i, i, i, i]).peers i).pc = .fetch) := by
  have hsi := hP.status i
  have hne : db.sha256 (S.peers j).machine.exchange.sentT1 ≠
      db.sha256 (S.peers i).machine.exchange.sentT1 := by
    rw [hP.hash, hP.hash]; exact hP.hash_ne hji
  rw [show S.run db w [i, i, i, i] = System.advance db w (System.advance db w
    (System.advance db w (System.advance db w S i) i) i) i from rfl, ← hP.hash i, ← hP.hash j]
  have hS₁ := hS.advance i
  have hS₂ := hS₁.advance i
  have hS₃ := hS₂.advance i
  have hx₁₃ := (hS₁.extends_advance i i).trans (hS₂.extends_advance i i)
  obtain ⟨hp₁, hT1, hT2, hT3⟩ := hS.fetch_holds hw hc hp (hP.status j) (hP.epoch_eq j i)
  have hj₁ : (System.advance db w S i).peers j = S.peers j := advance_ne S hji
  obtain ⟨hp₂, hr₂⟩ := advance_sendT2 hw hl hS₁ (hP.run hS [i]).handshakes hp₁
  have hr₂ := hr₂ _ hT1 (by rw [((hS.extends_advance i i).fixed hsi).2.1]; exact hne)
  have hj₂ : (System.advance db w (System.advance db w S i) i).peers j = S.peers j :=
    (advance_ne _ hji).trans hj₁
  have h₃ := hS₂.advance_sendT3_two hw hl (hP.run hS [i, i]) hji hp₂
  rw [hj₂] at h₃
  obtain ⟨hp₃, hb₃⟩ := h₃ ((hS₁.extends_advance i i).receivedT1s.mem hT1) hr₂
  have hj₃ : (System.advance db w (System.advance db w (System.advance db w S i) i) i).peers j =
      S.peers j := (advance_ne _ hji).trans hj₂
  have hP₃ := hP.run hS [i, i, i]
  obtain ⟨he₄, hdone, hnot⟩ := hS₃.advance_processT3 hw hp₃
  rw [he₄]
  refine ⟨(advance_ne _ hji).trans hj₃, (hS₂.extends_advance i i).repliedT1s.mem hr₂,
    fun hrj => ?_, fun hn => hnot fun ⟨k, hk, _⟩ => hn ?_⟩
  · have hb := hb₃ ((hS₁.extends_advance i i).receivedT2s.mem (hT2 hrj))
    exact ⟨hb, fun hbj => hdone ⟨_, hx₁₃.receivedT3s.mem (hT3 hbj), hb⟩ hP₃.handshakes
      (hP₃.distinct hw hS₃)⟩
  · have hk := (hS₃.t3_key hw hji hk).2
    rwa [hj₃, (((hS.extends_advance i i).trans hx₁₃).fixed hsi).2.1] at hk

end

section
variable {w : Fin 2 → World} {S : System 2} (hw : db.Serves c w) (hc : c.Pairs S)
  (hl : ∀ i, (w i).Live) (hS : Initial w S)
  (hep : (S.peers 0).machine.exchange.session.epoch = (S.peers 1).machine.exchange.session.epoch)
  (hne : ∀ t1x t1y, c.generateType1Message (S.peers 0).machine.exchange.session
      (S.peers 0).machine.exchange.payload = .ok t1x →
    c.generateType1Message (S.peers 1).machine.exchange.session
      (S.peers 1).machine.exchange.payload = .ok t1y → db.sha256 t1x ≠ db.sha256 t1y)
include hw hc hl hS hep hne

theorem Initial.entries :
    ∃ h, Paired db c (S.run db w [0, 1]) h ∧ ((S.run db w [0, 1]).peers 0).pc = .fetch ∧
      ((S.run db w [0, 1]).peers 1).pc = .fetch ∧
      ((S.run db w [0, 1]).peers 1).machine.exchange.receivedT1s = ∅ ∧
      ((S.run db w [0, 1]).peers 1).machine.exchange.receivedT2s = ∅ := by
  have hi i : (S.peers i).machine.exchange.status = initialState := initial_status (hS.2 i).2
  have h10 : (1 : Fin 2) ≠ 0 := by decide
  obtain ⟨t1x, hgx, hpx, hex⟩ := advance_entry hw hl (hS.2 0).1 (hi 0) (hc.generate 0)
  have hy : (System.advance db w S 0).peers 1 = S.peers 1 := advance_ne S h10
  obtain ⟨t1y, hgy, hpy, hey⟩ := advance_entry (S := System.advance db w S 0) (i := 1) hw hl
    (by rw [hy]; exact (hS.2 1).1) (by rw [hy]; exact hi 1) (by rw [hy]; exact hc.generate 1)
  rw [hy] at hgy hey
  have hx : (S.run db w [0, 1]).peers 0 = (System.advance db w S 0).peers 0 :=
    advance_ne _ h10.symm
  have e₀ : ((S.run db w [0, 1]).peers 0).machine.exchange = { (S.peers 0).machine.exchange with
      sentT1 := t1x, status := t1MessageSentState } := hx ▸ hex
  have e₁ : ((S.run db w [0, 1]).peers 1).machine.exchange = { (S.peers 1).machine.exchange with
      sentT1 := t1y, status := t1MessageSentState } := hey
  obtain ⟨-, -, -, h₁, h₂, -⟩ := (inv_initial (hS.2 1).2).initial_empty (hi 1)
  have hH : Handshakes c (S.run db w [0, 1]) := fun a b hab _ _ => by
    obtain rfl | rfl : a = 0 ∨ a = 1 := by omega
    all_goals obtain rfl | rfl : b = 0 ∨ b = 1 := by omega
    all_goals first | exact absurd rfl hab | rw [e₀, e₁]
    exacts [hc.handshake 0 1 h10 _ _ hgx hgy, hc.handshake 1 0 h10.symm _ _ hgy hgx]
  refine ⟨fun k => if k = 0 then db.sha256 t1x else db.sha256 t1y,
    ⟨fun i => ?_, by rw [e₀, e₁]; exact hep, fun i => ?_, hne _ _ hgx hgy, hH⟩, hx ▸ hpx, hpy,
    by rw [e₁]; exact h₁, by rw [e₁]; exact h₂⟩
  all_goals obtain rfl | rfl : i = 0 ∨ i = 1 := by omega
  all_goals first | rw [e₀] | rw [e₁]
  all_goals rfl

/-- Each of the two peers runs `Run`'s entry, the first one first, and then each runs one
iteration of its loop in turn, twice over. -/
def twoPeerSchedule : List (Fin 2) :=
  [0, 1] ++ [0, 0, 0, 0] ++ [1, 1, 1, 1] ++ [0, 0, 0, 0] ++ [1, 1, 1, 1]

/-- Two fresh peers of one epoch, in front of an empty database that serves them, with a crypto
library that pairs them (`Crypto.Pairs`), hosts that neither stop them nor fail to snapshot
them, and T1s that hash apart: run by `twoPeerSchedule`, both complete, and
each has on top of its history the result the handshake computes from its own session and T1
and the other's. -/
theorem two_peers_complete :
    ∀ i j, j ≠ i → ((S.run db w twoPeerSchedule).peers i).pc = .halted .completed ∧
      ∃ u rest p, ((S.run db w twoPeerSchedule).peers i).machine.trace = .update u :: rest ∧
        u.result = some p ∧
        c.handshake ((S.run db w twoPeerSchedule).peers i).machine.exchange.session
          ((S.run db w twoPeerSchedule).peers i).machine.exchange.sentT1
          ((S.run db w twoPeerSchedule).peers j).machine.exchange.session
          ((S.run db w twoPeerSchedule).peers j).machine.exchange.sentT1 = .ok p := by
  obtain ⟨h, hP, hp₀, hp₁, hT1, hT2⟩ := Initial.entries hw hc hl hS hep hne
  have hn := hc.toNonEmpty
  have h10 : (1 : Fin 2) ≠ 0 := by decide
  have hT : (S.run db w [0, 1]).Reachable db w := (Reachable.initial hS).run [0, 1]
  have hT₁ := hT.run [0, 0, 0, 0]
  have hT₂ := hT₁.run [1, 1, 1, 1]
  have hT₃ := hT₂.run [0, 0, 0, 0]
  have hP₃ := ((hP.run hT [0, 0, 0, 0]).run hT₁ [1, 1, 1, 1]).run hT₂ [0, 0, 0, 0]
  obtain ⟨hy₁, hr₁, -, hf₁⟩ := hT.round hw hn hl hP h10 hp₀
  obtain ⟨hx₂, hr₂, hb₂, hf₂⟩ := hT₁.round hw hn hl (hP.run hT [0, 0, 0, 0]) h10.symm
    (by rw [hy₁]; exact hp₁)
  have hf₂ := hf₂ fun hk => by
    have hk := (hT₁.t2_key hw h10 hk).2
    rw [hy₁, hT1] at hk
    exact AList.not_mem_empty _ hk
  obtain ⟨hy₃, hr₃, hb₃, -⟩ := hT₂.round hw hn hl
    ((hP.run hT [0, 0, 0, 0]).run hT₁ [1, 1, 1, 1]) h10
    (by rw [hx₂]; exact hf₁ (by rw [hT2]; exact AList.not_mem_empty _))
  obtain ⟨hx₄, -, hb₄, -⟩ :=
    hT₃.round hw hn hl hP₃ h10.symm (by rw [hy₃]; exact hf₂)
  have hb₃ := hb₃ hr₂
  simp only [twoPeerSchedule, run_append]
  refine fun i j hji => ⟨?_, (hT₃.run [1, 1, 1, 1]).handshake_on_top hw
    (hP₃.run hT₃ [1, 1, 1, 1]) hji ?_⟩ <;> obtain rfl | rfl : i = 0 ∨ i = 1 := by omega
  · rw [hx₄]; exact (hb₃.2 (hb₂ hr₁).1).1
  · exact ((hb₄ hr₃).2 hb₃.1).1
  · rw [hx₄]; exact (hb₃.2 (hb₂ hr₁).1).2
  · exact ((hb₄ hr₃).2 hb₃.1).2

end

end System

/-! ## Two live peers -/

/-- The sample crypto library with a tag byte in front of every T2 and T3, so that none is
empty. -/
def liveCrypto : Crypto :=
  { (World.samplePeer.crypto 0) with
    processType1MessageAlpha := fun _ alpha => .ok (0 :: alpha, ⟨alpha⟩)
    composeType3Message := fun _ beta => .ok (0 :: beta.key) }

def World.livePeer : World :=
  { World.samplePeer with marshalExchange := fun _ => .ok [], crypto := fun _ => liveCrypto }

theorem World.livePeer_unmarshalState : World.livePeer.unmarshalState = decodeState := rfl

def liveSystem : System 2 :=
  ⟨[], fun i =>
    ⟨.entry, ⟨{ sampleExchange with payload := if i = 0 then [1] else [2] }, 0, []⟩⟩⟩

def liveRun (l : List (Fin 2)) : System 2 :=
  liveSystem.run sampleDatabase (fun _ => World.livePeer) l

theorem liveCrypto_pairs : liveCrypto.Pairs liveSystem where
  t2 _ _ _ _ h := by cases h; exact List.cons_ne_nil _ _
  t3 _ _ _ h := by cases h; exact List.cons_ne_nil _ _
  generate _ := ⟨_, rfl⟩
  handshake _ _ _ _ _ _ _ := ⟨_, rfl⟩

theorem livePeer_live : World.livePeer.Live := ⟨fun _ => rfl, fun _ => ⟨[], rfl⟩⟩

theorem sampleDatabase_serves_live :
    sampleDatabase.Serves liveCrypto fun _ : Fin 2 => World.livePeer :=
  ⟨fun _ => rfl,
    fun _ s => by rw [World.livePeer_unmarshalState]; exact decodeState_encodeState s,
    fun _ _ => rfl⟩

theorem liveSystem_initial : liveSystem.Initial fun _ => World.livePeer :=
  ⟨rfl, fun i => ⟨rfl, rfl, if i = 0 then [1] else [2], 0, [], [], 0, rfl⟩⟩

theorem liveSystem_hashes_apart :
    ∀ t1x t1y, liveCrypto.generateType1Message (liveSystem.peers 0).machine.exchange.session
        (liveSystem.peers 0).machine.exchange.payload = .ok t1x →
      liveCrypto.generateType1Message (liveSystem.peers 1).machine.exchange.session
        (liveSystem.peers 1).machine.exchange.payload = .ok t1y →
      sampleDatabase.sha256 t1x ≠ sampleDatabase.sha256 t1y := by
  rintro _ _ ⟨⟩ ⟨⟩
  decide

theorem live_two_peers_complete :
    sampleDatabase.Serves liveCrypto (fun _ : Fin 2 => World.livePeer) ∧
      liveCrypto.Pairs liveSystem ∧ (∀ _ : Fin 2, World.livePeer.Live) ∧
      liveSystem.Initial (fun _ => World.livePeer) ∧
      (liveSystem.peers 0).machine.exchange.session.epoch =
        (liveSystem.peers 1).machine.exchange.session.epoch ∧
      (∀ t1x t1y, liveCrypto.generateType1Message (liveSystem.peers 0).machine.exchange.session
          (liveSystem.peers 0).machine.exchange.payload = .ok t1x →
        liveCrypto.generateType1Message (liveSystem.peers 1).machine.exchange.session
          (liveSystem.peers 1).machine.exchange.payload = .ok t1y →
        sampleDatabase.sha256 t1x ≠ sampleDatabase.sha256 t1y) ∧
      ∀ i j, j ≠ i →
        ((liveSystem.run sampleDatabase (fun _ => World.livePeer) System.twoPeerSchedule).peers
          i).pc = .halted .completed ∧
        ∃ u rest p, ((liveSystem.run sampleDatabase (fun _ => World.livePeer)
            System.twoPeerSchedule).peers i).machine.trace = .update u :: rest ∧
          u.result = some p ∧
          liveCrypto.handshake ((liveSystem.run sampleDatabase (fun _ => World.livePeer)
              System.twoPeerSchedule).peers i).machine.exchange.session
            ((liveSystem.run sampleDatabase (fun _ => World.livePeer)
              System.twoPeerSchedule).peers i).machine.exchange.sentT1
            ((liveSystem.run sampleDatabase (fun _ => World.livePeer)
              System.twoPeerSchedule).peers j).machine.exchange.session
            ((liveSystem.run sampleDatabase (fun _ => World.livePeer)
              System.twoPeerSchedule).peers j).machine.exchange.sentT1 = .ok p :=
  ⟨sampleDatabase_serves_live, liveCrypto_pairs, fun _ => livePeer_live, liveSystem_initial,
    rfl, liveSystem_hashes_apart,
    System.two_peers_complete sampleDatabase_serves_live liveCrypto_pairs
      (fun _ => livePeer_live) liveSystem_initial rfl liveSystem_hashes_apart⟩

theorem liveRun_reachable (l : List (Fin 2)) :
    (liveRun l).Reachable sampleDatabase fun _ => World.livePeer :=
  (System.Reachable.initial liveSystem_initial).run l

theorem liveRun_distinct (l : List (Fin 2)) :
    Distinct sampleDatabase.sha256 (liveRun ([0, 1] ++ l)) := by
  obtain ⟨h, hP, -⟩ := System.Initial.entries sampleDatabase_serves_live liveCrypto_pairs
    (fun _ => livePeer_live) liveSystem_initial rfl liveSystem_hashes_apart
  rw [liveRun, System.run_append]
  exact (hP.run (liveRun_reachable [0, 1]) l).distinct sampleDatabase_serves_live
    (liveRun_reachable [0, 1] |>.run l)

theorem liveRun_twoPeerSchedule_distinct :
    Distinct sampleDatabase.sha256 (liveRun System.twoPeerSchedule) := by
  rw [System.twoPeerSchedule, List.append_assoc, List.append_assoc, List.append_assoc]
  exact liveRun_distinct _

theorem live_result_handshake :
    sampleDatabase.Serves liveCrypto (fun _ : Fin 2 => World.livePeer) ∧
      (liveRun System.twoPeerSchedule).Reachable sampleDatabase (fun _ => World.livePeer) ∧
      Distinct sampleDatabase.sha256 (liveRun System.twoPeerSchedule) ∧
      ∀ u, .update u ∈ ((liveRun System.twoPeerSchedule).peers 0).machine.trace →
        ∀ p, u.result = some p →
        ∃ j, j ≠ 0 ∧
          ((liveRun System.twoPeerSchedule).peers j).machine.exchange.status =
            t1MessageSentState ∧
          ((liveRun System.twoPeerSchedule).peers j).machine.exchange.session.epoch =
            ((liveRun System.twoPeerSchedule).peers 0).machine.exchange.session.epoch ∧
          liveCrypto.handshake
            ((liveRun System.twoPeerSchedule).peers 0).machine.exchange.session
            ((liveRun System.twoPeerSchedule).peers 0).machine.exchange.sentT1
            ((liveRun System.twoPeerSchedule).peers j).machine.exchange.session
            ((liveRun System.twoPeerSchedule).peers j).machine.exchange.sentT1 = .ok p :=
  ⟨sampleDatabase_serves_live, liveRun_reachable _, liveRun_twoPeerSchedule_distinct,
    System.reachable_result_handshake sampleDatabase_serves_live (liveRun_reachable _)
      (liveRun_twoPeerSchedule_distinct) 0⟩

theorem live_log_at_most_once :
    sampleDatabase.Serves liveCrypto (fun _ : Fin 2 => World.livePeer) ∧
      (liveRun System.twoPeerSchedule).Reachable sampleDatabase (fun _ => World.livePeer) ∧
      Distinct sampleDatabase.sha256 (liveRun System.twoPeerSchedule) ∧
      (∀ h, (liveRun System.twoPeerSchedule).board.countP
        (Command.isT1 sampleDatabase.sha256 h) ≤ 1) ∧
      ∀ src dst, (liveRun System.twoPeerSchedule).board.countP (Command.isT2 src dst) ≤ 1 ∧
        (liveRun System.twoPeerSchedule).board.countP (Command.isT3 src dst) ≤ 1 :=
  ⟨sampleDatabase_serves_live, liveRun_reachable _, liveRun_twoPeerSchedule_distinct,
    System.reachable_log_at_most_once sampleDatabase_serves_live (liveRun_reachable _)
      (liveRun_twoPeerSchedule_distinct)⟩

end Reunion.Protocol
