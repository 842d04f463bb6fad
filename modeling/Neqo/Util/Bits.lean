import Mathlib.Algebra.Order.Ring.Nat
import Mathlib.Data.Nat.Bitwise

/-!
# Numbers and bytes as lists of bits

Bits are written most significant first, so that the bits of a number are the bits of its upper part
followed by those of its lower part (`ofNat_add`, `ofNat_or`).
-/

namespace Neqo.Bits

open List

/-- The `n` low bits of a number, most significant first. -/
def ofNat : ℕ → ℕ → List Bool
  | 0, _ => []
  | n + 1, v => v.testBit n :: ofNat n v

@[simp] lemma length_ofNat (n v : ℕ) : (ofNat n v).length = n := by
  induction n with
  | zero => rfl
  | succ n ih => rw [ofNat, length_cons, ih]

lemma ofNat_congr {n v w : ℕ} (h : ∀ i < n, v.testBit i = w.testBit i) : ofNat n v = ofNat n w := by
  induction n with
  | zero => rfl
  | succ n ih =>
    rw [ofNat, ofNat, h n (Nat.lt_succ_self n), ih fun i hi => h i (Nat.lt_succ_of_lt hi)]

lemma ofNat_add (m n v : ℕ) : ofNat (m + n) v = ofNat m (v >>> n) ++ ofNat n v := by
  induction m with
  | zero => rw [zero_add, ofNat, nil_append]
  | succ m ih =>
    rw [add_right_comm, ofNat, ofNat, ih, Nat.testBit_shiftRight, add_comm n m,
      cons_append]

lemma ofNat_or {n b : ℕ} (m a : ℕ) (hb : b < 2 ^ n) :
    ofNat (m + n) (a <<< n ||| b) = ofNat m a ++ ofNat n b := by
  rw [ofNat_add]
  congr 1
  · rw [Nat.shiftRight_or_distrib, Nat.shiftLeft_shiftRight, Nat.shiftRight_eq_div_pow b,
      Nat.div_eq_of_lt hb, Nat.or_zero]
  · apply ofNat_congr
    intro i hi
    simp [not_le.mpr hi]

lemma ofNat_mod (n v : ℕ) : ofNat n (v % 2 ^ n) = ofNat n v := by
  apply ofNat_congr
  intro i hi
  simp [Nat.testBit_mod_two_pow, hi]

lemma ofNat_ones (n : ℕ) : ofNat n (2 ^ n - 1) = List.replicate n true := by
  have hbits (m : ℕ) (hm : m ≤ n) : ofNat m (2 ^ n - 1) = List.replicate m true := by
    induction m with
    | zero => rfl
    | succ m ih =>
      rw [ofNat, ih (Nat.le_of_succ_le hm), replicate_succ]
      simp [Nat.lt_of_succ_le hm]
  exact hbits n le_rfl

lemma ofNat_inj {n v w : ℕ} (hv : v < 2 ^ n) (hw : w < 2 ^ n) (h : ofNat n v = ofNat n w) :
    v = w := by
  have hbits (m : ℕ) (hm : ofNat m v = ofNat m w) : ∀ i < m, v.testBit i = w.testBit i := by
    induction m with
    | zero => exact fun i hi => absurd hi (Nat.not_lt_zero i)
    | succ m ih =>
      obtain ⟨hhead, htail⟩ := cons.inj hm
      intro i hi
      obtain hi | rfl := Nat.lt_succ_iff_lt_or_eq.mp hi
      · exact ih htail i hi
      · exact hhead
  apply Nat.eq_of_testBit_eq
  intro i
  by_cases hi : i < n
  · exact hbits n h i hi
  · have hle : 2 ^ n ≤ 2 ^ i := Nat.pow_le_pow_right (by decide) (Nat.not_lt.mp hi)
    rw [Nat.testBit_lt_two_pow (hv.trans_le hle), Nat.testBit_lt_two_pow (hw.trans_le hle)]

/-- The bits of a sequence of bytes. -/
def ofBytes (bytes : List UInt8) : List Bool := bytes.flatMap fun b => ofNat 8 b.toNat

@[simp] lemma ofBytes_nil : ofBytes [] = [] := rfl

lemma ofBytes_cons (b : UInt8) (bytes : List UInt8) :
    ofBytes (b :: bytes) = ofNat 8 b.toNat ++ ofBytes bytes := List.flatMap_cons

lemma ofBytes_append (bytes bytes' : List UInt8) :
    ofBytes (bytes ++ bytes') = ofBytes bytes ++ ofBytes bytes' := List.flatMap_append

lemma length_ofBytes (bytes : List UInt8) : (ofBytes bytes).length = 8 * bytes.length := by
  induction bytes with
  | nil => rfl
  | cons =>
    rw [ofBytes_cons, length_append, length_ofNat, length_cons]
    omega

lemma ofBytes_inj {bytes bytes' : List UInt8} (h : ofBytes bytes = ofBytes bytes') :
    bytes = bytes' := by
  induction bytes generalizing bytes' with
  | nil =>
    cases bytes' with
    | nil => rfl
    | cons => cases h
  | cons b bytes ih =>
    cases bytes' with
    | nil => cases h
    | cons b' bytes' =>
      obtain ⟨hbits, hrest⟩ := append_inj h (by rw [length_ofNat, length_ofNat])
      rw [UInt8.toNat_inj.mp (ofNat_inj b.toNat_lt b'.toNat_lt hbits), ih hrest]

lemma ofBytes_singleton {v : ℕ} (hv : v < 256) : ofBytes [UInt8.ofNat v] = ofNat 8 v := by
  rw [ofBytes_cons, ofBytes_nil, append_nil, UInt8.toNat_ofNat_of_lt' hv]

end Neqo.Bits
