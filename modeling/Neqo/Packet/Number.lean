import Neqo.Codec.Equiv
import Neqo.Basic

/-!
# Packet numbers

A packet carries only the low bytes of its number. The sender chooses how many, from what has been
acknowledged; the receiver takes the number that is closest to the one it expects.
-/

namespace Neqo

open Option

def maxPacketNumberLen : ℕ := 4

/-! ### Sending -/

/-- How many bits of a 64-bit number are zero before the first one that is not. -/
def leadingZeros (v : ℕ) : ℕ := if v = 0 then 64 else 63 - v.log2

/-- Twice the number of packets that the receiver may have to tell apart, unless this overflows. -/
def unackedRange (pn : ℕ) : Option ℕ → Option ℕ
  | none => if pn + 1 < 2 ^ 64 then some (pn + 1) else none
  | some la => if la ≤ pn then some (((pn - la) <<< 1) % 2 ^ 64) else none

/-- The number of bytes that `build_packet_header` chooses for a packet number: those that are not
zero in the range. There is none if it panics. -/
def pnLen (pn : ℕ) (largestAcknowledged : Option ℕ) : Option ℕ :=
  match unackedRange pn largestAcknowledged with
  | none => none
  | some unackedRange =>
    let pnLen := 8 - leadingZeros unackedRange / 8
    if pnLen > 0 then some pnLen else none

/-! ### Receiving -/

namespace Public

/-- Complete a packet number of `w` bytes. -/
def decodePn (expected pn w : ℕ) : ℕ :=
  let window := 1 <<< (w * 8)
  let candidate := (expected &&& (2 ^ 64 - 1 - (window - 1))) ||| pn
  if candidate + window / 2 ≤ expected then candidate + window
  else if candidate > expected + window / 2 then
    if window ≤ candidate then candidate - window else candidate
  else candidate

end Public

/-!
## Packet numbers are recovered

The number of bytes is such that the receiver, which expects a packet after the largest acknowledged
one, has the number in its window. The numbers in a window differ in their low bytes, so the one
that it takes is the one that was sent (`decodePn_encodeUint`).
-/

/-! ### Lengths -/

lemma lt_of_leadingZeros {v : ℕ} (h : v < 2 ^ 64) : v < 2 ^ (8 * (8 - leadingZeros v / 8)) := by
  unfold leadingZeros
  split_ifs with hzero
  · rw [hzero]
    omega
  · have hlog : v.log2 < 64 := (Nat.log2_lt hzero).mpr h
    calc v < 2 ^ (v.log2 + 1) := Nat.lt_log2_self
      _ ≤ 2 ^ (8 * (8 - (63 - v.log2) / 8)) := Nat.pow_le_pow_right (by decide) (by omega)

lemma range_lt_of_pnLen {pn n : ℕ} {largestAcknowledged : Option ℕ}
    (h : pnLen pn largestAcknowledged = some n) :
    0 < n ∧ ∃ range, unackedRange pn largestAcknowledged = some range ∧ range < 2 ^ (8 * n) := by
  unfold pnLen at h
  rcases hrange : unackedRange pn largestAcknowledged with _ | range
  · rw [hrange] at h
    exact nomatch h
  rw [hrange] at h
  dsimp only at h
  split_ifs at h with hpos
  obtain rfl := some.inj h
  refine ⟨hpos, range, rfl, lt_of_leadingZeros ?_⟩
  unfold unackedRange at hrange
  cases largestAcknowledged with
  | none =>
    split_ifs at hrange with hlt
    exact some.inj hrange ▸ hlt
  | some =>
    dsimp only at hrange
    split_ifs at hrange
    exact some.inj hrange ▸ Nat.mod_lt _ (by decide)

/-! ### Windows -/

namespace Public

variable {expected pn w n : ℕ}

lemma and_not_window {k : ℕ} (h : expected < 2 ^ 64) (hk : k ≤ 64) :
    expected &&& (2 ^ 64 - 1 - (2 ^ k - 1)) = expected / 2 ^ k * 2 ^ k := by
  have hmask : 2 ^ 64 - 1 - (2 ^ k - 1) = 2 ^ 64 - ((2 ^ k - 1) + 1) := by omega
  have hlt : 2 ^ k - 1 < 2 ^ 64 := by
    have hle : 2 ^ k ≤ 2 ^ 64 := Nat.pow_le_pow_right (by decide) hk
    omega
  rw [hmask, ← Nat.shiftRight_eq_div_pow, ← Nat.shiftLeft_eq]
  apply Nat.eq_of_testBit_eq
  intro i
  rw [Nat.testBit_and, Nat.testBit_two_pow_sub_succ hlt, Nat.testBit_shiftLeft,
    Nat.testBit_shiftRight]
  by_cases hi : i < k
  · simp [hi, not_le.mpr hi]
  · have hki : k ≤ i := Nat.le_of_not_lt hi
    rw [Nat.add_sub_cancel' hki]
    by_cases hi64 : i < 64
    · simp [hi, hki, hi64]
    · have hbit : expected.testBit i = false :=
        Nat.testBit_lt_two_pow (h.trans_le (Nat.pow_le_pow_right (by decide) (by omega)))
      simp [hbit]

lemma decodePn_eq (h : expected < 2 ^ 64) (hw : w ≤ 8) (hpn : pn < 2 ^ (8 * w)) :
    decodePn expected pn w =
      let window := 2 ^ (8 * w)
      let candidate := expected / window * window + pn
      if candidate + window / 2 ≤ expected then candidate + window
      else if candidate > expected + window / 2 then
        if window ≤ candidate then candidate - window else candidate
      else candidate := by
  have hcandidate : (expected &&& (2 ^ 64 - 1 - (2 ^ (8 * w) - 1))) ||| pn =
      expected / 2 ^ (8 * w) * 2 ^ (8 * w) + pn := by
    rw [and_not_window h (by omega), ← Nat.shiftLeft_eq, Nat.shiftLeft_add_eq_or_of_lt hpn]
  unfold decodePn
  rw [Nat.one_shiftLeft, mul_comm w 8]
  dsimp only
  rw [hcandidate]

/-- **A number in the window of the receiver is recovered from its low bytes.**  A number less than
the window need not be in the lower half of it. -/
theorem decodePn_mod (hw : 0 < w) (hw' : w ≤ 8) (hpn : pn < 2 ^ 63) (hexpected : expected < 2 ^ 64)
    (hlow : expected < pn + 2 ^ (8 * w - 1))
    (hhigh : pn < 2 ^ (8 * w) ∨ pn ≤ expected + 2 ^ (8 * w - 1)) :
    decodePn expected (pn % 2 ^ (8 * w)) w = pn := by
  have hwindow : 2 ^ (8 * w) = 2 * 2 ^ (8 * w - 1) := by
    rw [← Nat.pow_succ', Nat.succ_eq_add_one, Nat.sub_add_cancel (by omega)]
  rw [decodePn_eq hexpected hw' (Nat.mod_lt _ (Nat.two_pow_pos _))]
  dsimp only
  generalize 2 ^ (8 * w - 1) = half at *
  generalize 2 ^ (8 * w) = window at *
  -- Both numbers as a multiple of the window and a rest.
  have hpn' := Nat.div_add_mod' pn window
  have hexpected' := Nat.div_add_mod' expected window
  have hrest : pn % window < window := Nat.mod_lt _ (by omega)
  have hrest' : expected % window < window := Nat.mod_lt _ (by omega)
  have hhalf : window / 2 = half := by omega
  generalize pn % window = r at *
  generalize expected % window = e at *
  have hsmall : pn < window → pn / window = 0 := fun h => Nat.div_eq_of_lt h
  generalize pn / window = p at *
  generalize expected / window = q at *
  rcases Nat.lt_trichotomy p q with hlt | heq | hgt
  · -- The receiver is in the next window.
    have hnext : q = p + 1 := by
      by_contra hne
      have hle := Nat.mul_le_mul_right window (show p + 2 ≤ q by omega)
      rw [add_mul] at hle
      omega
    subst hnext
    rw [add_mul] at hexpected' ⊢
    rw [if_neg (by omega), if_pos (by omega), if_pos (by omega)]
    omega
  · subst heq
    rw [if_neg (by omega)]
    split_ifs with hfar hfits
    · -- The number is not in the lower half, so there is only one window.
      have hzero := hsmall (hhigh.resolve_right (by omega))
      omega
    · omega
    · omega
  · -- The receiver is in the window before.
    have hle := Nat.mul_le_mul_right window (show q + 1 ≤ p by omega)
    have hnext : p = q + 1 := by
      by_contra hne
      have hle' := Nat.mul_le_mul_right window (show q + 2 ≤ p by omega)
      rw [add_mul] at hle'
      omega
    subst hnext
    rw [add_mul] at hpn'
    rw [if_pos (by omega)]
    omega

/-- **A packet number is recovered.**  The sender chooses the length from what is acknowledged; the
receiver may expect any number after that, also if later packets have arrived before. -/
theorem decodePn_encodeUint {pn n expected : ℕ} {largestAcknowledged : Option ℕ} (hpn : pn < 2 ^ 62)
    (hlen : pnLen pn largestAcknowledged = some n) (hle : n ≤ maxPacketNumberLen)
    (hlow : largestAcknowledged.elim 0 (· + 1) ≤ expected)
      (hhigh : expected < pn + 2 ^ (8 * n - 1)) :
    decodePn expected (Decoder.fromBeBytes (Encoder.encodeUint n pn)) n = pn := by
  obtain ⟨hpos, range, hrange, hlt⟩ := range_lt_of_pnLen hlen
  unfold maxPacketNumberLen at hle
  have hwindow : 2 ^ (8 * n) = 2 * 2 ^ (8 * n - 1) := by
    rw [← Nat.pow_succ', Nat.succ_eq_add_one, Nat.sub_add_cancel (by omega)]
  have hhalf : 2 ^ (8 * n - 1) ≤ 2 ^ 31 := Nat.pow_le_pow_right (by decide) (by omega)
  unfold Encoder.encodeUint
  rw [Decoder.fromBeBytes_toBeBytes, show 256 ^ n = 2 ^ (8 * n) from (pow_mul 2 8 n).symm]
  apply decodePn_mod hpos (by omega) (by omega) (by omega) hhigh
  cases largestAcknowledged with
  | none =>
    left
    unfold unackedRange at hrange
    split_ifs at hrange
    have hsome := some.inj hrange
    omega
  | some la =>
    right
    change la + 1 ≤ expected at hlow
    unfold unackedRange at hrange
    dsimp only at hrange
    split_ifs at hrange
    have hsome := some.inj hrange
    omega

/-- Many packets after the one that is sent have arrived before it. -/
theorem decodePn_encodeUint_overtaken :
    pnLen 1000 (some 900) = some 1 ∧
      decodePn 1127 (Decoder.fromBeBytes (Encoder.encodeUint 1 1000)) 1 = 1000 :=
  ⟨by decide, decodePn_encodeUint (by decide) (by decide : pnLen 1000 (some 900) = some 1)
    (by decide) (by decide) (by decide)⟩

end Public

end Neqo
