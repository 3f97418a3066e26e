import Reunion.Client.World

/-! # The handshake

What the exchange is for. Two peers `x` and `y` post their T1s; each answers the other's T1
with a T2 (`Crypto.reply`), opens the other's beta key with the T2 it got back
(`Crypto.unlock`), answers with a T3, and opens the other's T3. `Crypto.handshake c sx t1x
sy t1y` is what `x` obtains from `y` this way, computed in one go from the crypto
operations: the abstract model of one successful exchange. Each of these succeeds exactly
when the operations it chains do (`reply_ok`, `unlock_ok`, `handshake_ok`).
-/

namespace Reunion.Client.Crypto

theorem bind_eq_ok {α β : Type} {x : Except String α} {f : α → Except String β} {b : β} :
    x >>= f = .ok b ↔ ∃ a, x = .ok a ∧ f a = .ok b := by
  cases x <;> simp [bind, Except.bind]

variable (c : Crypto)

/-- The T2 a peer with session `s` sends in reply to the T1 `t1`, and the alpha key it keeps
for that T1 (`sendT2Messages`). -/
def reply (s : Session) (t1 : Bytes) : Except String (Bytes × PublicKey) := do
  let (alpha, _, _) ← c.decodeT1Message t1
  c.processType1MessageAlpha s alpha

/-- The beta key a peer with session `s` opens from the T1 `t1` with the T2 `t2` it got from
that T1's peer (`sendT3Messages`). -/
def unlock (s : Session) (t1 t2 : Bytes) : Except String PublicKey := do
  let (_, alphaKey) ← c.reply s t1
  let candidateKey ← c.getCandidateKey s t2 alphaKey
  let (_, t1beta, _) ← c.decodeT1Message t1
  c.decryptT1Beta candidateKey t1beta

/-- What the peer with session `sx` and T1 `t1x` opens from the peer with session `sy` and
T1 `t1y`: `y`'s T3 to `x`, composed from the beta key `y` opens with `x`'s T2, opened with
the beta key `x` opens with `y`'s T2 and the gamma field of `t1y`. -/
def handshake (sx : Session) (t1x : Bytes) (sy : Session) (t1y : Bytes) :
    Except String Bytes := do
  let (t2x, _) ← c.reply sx t1y
  let (t2y, _) ← c.reply sy t1x
  let betaY ← c.unlock sx t1y t2y
  let betaX ← c.unlock sy t1x t2x
  let t3 ← c.composeType3Message sy betaX
  let (_, _, gamma) ← c.decodeT1Message t1y
  c.processType3Message sx t3 gamma betaY

variable {c}

theorem reply_of {s : Session} {t1 α β γ : Bytes} {r : Bytes × PublicKey}
    (hd : c.decodeT1Message t1 = .ok (α, β, γ)) (hp : c.processType1MessageAlpha s α = .ok r) :
    c.reply s t1 = .ok r := by
  simp only [reply, hd, hp, bind, Except.bind]

theorem unlock_of {s : Session} {t1 t2 t2' k α β γ : Bytes} {pk beta : PublicKey}
    (hr : c.reply s t1 = .ok (t2', pk)) (hk : c.getCandidateKey s t2 pk = .ok k)
    (hd : c.decodeT1Message t1 = .ok (α, β, γ)) (hb : c.decryptT1Beta k β = .ok beta) :
    c.unlock s t1 t2 = .ok beta := by
  simp only [unlock, hr, hk, hd, hb, bind, Except.bind]

theorem handshake_eq {sx sy : Session} {t1x t1y t2x t2y t3 α β γ : Bytes}
    {pkx pky betaX betaY : PublicKey} (hx : c.reply sx t1y = .ok (t2x, pkx))
    (hy : c.reply sy t1x = .ok (t2y, pky)) (hbx : c.unlock sy t1x t2x = .ok betaX)
    (hby : c.unlock sx t1y t2y = .ok betaY) (ht3 : c.composeType3Message sy betaX = .ok t3)
    (hd : c.decodeT1Message t1y = .ok (α, β, γ)) :
    c.handshake sx t1x sy t1y = c.processType3Message sx t3 γ betaY := by
  simp only [handshake, hx, hy, hbx, hby, ht3, hd, bind, Except.bind]

theorem reply_ok {s : Session} {t1 : Bytes} {r : Bytes × PublicKey} (h : c.reply s t1 = .ok r) :
    ∃ α β γ, c.decodeT1Message t1 = .ok (α, β, γ) ∧ c.processType1MessageAlpha s α = .ok r := by
  obtain ⟨⟨α, β, γ⟩, hd, hp⟩ := bind_eq_ok.1 h
  exact ⟨α, β, γ, hd, hp⟩

theorem unlock_ok {s : Session} {t1 t2 : Bytes} {beta : PublicKey}
    (h : c.unlock s t1 t2 = .ok beta) :
    ∃ t2' pk k α β γ, c.reply s t1 = .ok (t2', pk) ∧ c.getCandidateKey s t2 pk = .ok k ∧
      c.decodeT1Message t1 = .ok (α, β, γ) ∧ c.decryptT1Beta k β = .ok beta := by
  obtain ⟨⟨t2', pk⟩, hr, h⟩ := bind_eq_ok.1 h
  obtain ⟨k, hk, h⟩ := bind_eq_ok.1 h
  obtain ⟨⟨α, β, γ⟩, hd, hb⟩ := bind_eq_ok.1 h
  exact ⟨t2', pk, k, α, β, γ, hr, hk, hd, hb⟩

theorem handshake_ok {sx sy : Session} {t1x t1y p : Bytes}
    (h : c.handshake sx t1x sy t1y = .ok p) :
    ∃ t2x pkx t2y pky betaX betaY t3 α β γ, c.reply sx t1y = .ok (t2x, pkx) ∧
      c.reply sy t1x = .ok (t2y, pky) ∧ c.unlock sy t1x t2x = .ok betaX ∧
      c.unlock sx t1y t2y = .ok betaY ∧ c.composeType3Message sy betaX = .ok t3 ∧
      c.decodeT1Message t1y = .ok (α, β, γ) ∧ c.processType3Message sx t3 γ betaY = .ok p := by
  obtain ⟨⟨t2x, pkx⟩, hx, h⟩ := bind_eq_ok.1 h
  obtain ⟨⟨t2y, pky⟩, hy, h⟩ := bind_eq_ok.1 h
  obtain ⟨betaY, hby, h⟩ := bind_eq_ok.1 h
  obtain ⟨betaX, hbx, h⟩ := bind_eq_ok.1 h
  obtain ⟨t3, ht3, h⟩ := bind_eq_ok.1 h
  obtain ⟨⟨α, β, γ⟩, hd, hp⟩ := bind_eq_ok.1 h
  exact ⟨t2x, pkx, t2y, pky, betaX, betaY, t3, α, β, γ, hx, hy, hbx, hby, ht3, hd, hp⟩

end Reunion.Client.Crypto
