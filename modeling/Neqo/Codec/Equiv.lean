import Mathlib.Data.List.Induction
import Mathlib.Data.Nat.Bitwise
import Mathlib.Tactic.Ring
import Neqo.Codec

/-!
# Varints and vectors round trip

`decodeVarint` reads back what `encodeVarint` wrote, wherever it stands and whatever follows, and
moves by the length that `varintLen` gives. Nothing shorter decodes to the same value
(`decodeVarint_eq_some`). `encodeVvecWith` builds what `encodeVvec` would append by shifting the
block that its closure has written (`encodeVvecWith_eq`), so that `decodeVvec` reads both back.
-/

namespace Neqo

open Decoder Encoder List Option UInt8

/-! ### Big-endian bytes -/

namespace Encoder

@[simp] lemma length_toBeBytes (n v : ℕ) : (toBeBytes n v).length = n := by
  induction n generalizing v with
  | zero => rfl
  | succ n ih => rw [toBeBytes, length_append, ih, length_singleton]

lemma toBeBytes_succ (n v : ℕ) :
    toBeBytes (n + 1) v = ofNat (v / 256 ^ n % 256) :: toBeBytes n v := by
  induction n generalizing v with
  | zero => simp [toBeBytes]
  | succ n ih =>
    rw [toBeBytes, ih, Nat.div_div_eq_div_mul, ← pow_succ']
    rfl

@[simp] lemma length_encodeVarint (v : ℕ) : (encodeVarint v).length = varintLen v := by
  unfold encodeVarint varintLen
  split_ifs <;> exact length_toBeBytes _ _

lemma varintLen_pos (v : ℕ) : 0 < varintLen v := by
  unfold varintLen
  split_ifs <;> decide

lemma varintLen_le (v : ℕ) : varintLen v ≤ 8 := by
  unfold varintLen
  split_ifs <;> decide

lemma encodeVarint_of_lt {v : ℕ} (h : v < 2 ^ 6) : encodeVarint v = [ofNat v] := by
  have hmod : v % 256 = v := Nat.mod_eq_of_lt (by omega)
  rw [encodeVarint, if_pos h, toBeBytes, toBeBytes, hmod, nil_append]

lemma or_shiftLeft {v m : ℕ} (k : ℕ) (h : v < 2 ^ m) : v ||| k <<< m = k * 2 ^ m + v := by
  rw [Nat.or_comm, ← Nat.shiftLeft_add_eq_or_of_lt h, Nat.shiftLeft_eq]

end Encoder

namespace Decoder

open Encoder

lemma fromBeBytes_concat (bytes : Bytes) (b : UInt8) :
    fromBeBytes (bytes ++ [b]) = fromBeBytes bytes * 256 + b.toNat := by
  rw [fromBeBytes, foldl_append]
  rfl

lemma fromBeBytes_toBeBytes (n v : ℕ) : fromBeBytes (toBeBytes n v) = v % 256 ^ n := by
  induction n generalizing v with
  | zero => simp [toBeBytes, fromBeBytes, Nat.mod_one]
  | succ n ih =>
    have hbyte : (ofNat (v % 256)).toNat = v % 256 := by
      rw [toNat_ofNat']
      omega
    rw [toBeBytes, fromBeBytes_concat, ih, hbyte, pow_succ', Nat.mod_mul]
    ring

/-! ### Moving over what was encoded -/

variable {d d' : Decoder} {bytes rest : Bytes}

lemma asRef_skip (h : d.asRef = bytes ++ rest) : (d.skip bytes.length).asRef = rest := by
  simp only [asRef, skip] at h ⊢
  rw [← drop_drop, h, drop_left]

lemma length_asRef (d : Decoder) : d.asRef.length = d.remaining := by
  rw [asRef, length_drop, remaining]

lemma decode_of_asRef (h : d.asRef = bytes ++ rest) :
    d.decode bytes.length = some (bytes, d.skip bytes.length) := by
  have hlen : d.remaining = bytes.length + rest.length := by
    rw [← length_append, ← h, length_asRef]
  rw [decode, if_neg (by omega), h, take_left]

variable {n v k m : ℕ}

lemma decodeN_of_asRef (h : d.asRef = toBeBytes n v ++ rest) :
    d.decodeN n = some (v % 256 ^ n, d.skip n) := by
  have hdecode := decode_of_asRef h
  rw [length_toBeBytes] at hdecode
  rw [decodeN, hdecode, map_some]
  dsimp only
  rw [fromBeBytes_toBeBytes]

lemma masked_of_asRef (hv : v < 2 ^ m) (hm : (k + 1) * 2 ^ m ≤ 256 ^ n)
    (h : d.asRef = toBeBytes n (v ||| k <<< m) ++ rest) :
    decodeVarint.masked d n (2 ^ m - 1) = some (v, d.skip n) := by
  have hlt : k * 2 ^ m + v < 256 ^ n := by
    calc k * 2 ^ m + v < k * 2 ^ m + 2 ^ m := by omega
      _ = (k + 1) * 2 ^ m := by ring
      _ ≤ 256 ^ n := hm
  rw [or_shiftLeft k hv] at h
  rw [decodeVarint.masked, decodeN_of_asRef h, map_some, Nat.mod_eq_of_lt hlt]
  dsimp only
  rw [Nat.and_two_pow_sub_one_eq_mod, Nat.mul_add_mod_of_lt hv]

lemma first_of_asRef (hv : v < 2 ^ m) (hk : k < 4) (hm : 2 ^ m = 64 * 256 ^ n) :
    ∃ first : UInt8, toBeBytes (n + 1) (v ||| k <<< m) = first :: toBeBytes n (v ||| k <<< m) ∧
      64 * k ≤ first.toNat ∧ first.toNat < 64 * (k + 1) := by
  refine ⟨_, toBeBytes_succ _ _, ?_⟩
  have hpos : 0 < 256 ^ n := Nat.pow_pos (by decide)
  have hdiv : (k * 2 ^ m + v) / 256 ^ n = 64 * k + v / 256 ^ n := by
    rw [hm, show k * (64 * 256 ^ n) + v = v + 64 * k * 256 ^ n by ring,
      Nat.add_mul_div_right _ _ hpos, add_comm]
  have hlow : v / 256 ^ n < 64 := by
    rw [Nat.div_lt_iff_lt_mul hpos, ← hm]
    exact hv
  rw [or_shiftLeft k hv, hdiv, toNat_ofNat']
  generalize v / 256 ^ n = q at hlow
  omega

/-- **Varints round trip.** -/
theorem decodeVarint_of_asRef (hv : v ≤ maxVarint) (h : d.asRef = encodeVarint v ++ rest) :
    d.decodeVarint = some (v, d.skip (varintLen v)) := by
  have hmax : maxVarint = 2 ^ 62 - 1 := rfl
  unfold encodeVarint at h
  unfold varintLen decodeVarint
  split_ifs at h ⊢ with h6 h14 h30
  · rw [toBeBytes, toBeBytes, nil_append, singleton_append] at h
    have hbyte : (ofNat (v % 256)).toNat = v := by
      rw [toNat_ofNat']
      omega
    rw [h]
    simp only [hbyte]
    rw [if_pos (by omega)]
  · obtain ⟨first, hfirst, hge, hlt⟩ := first_of_asRef (k := 1) (n := 1) h14 (by decide) (by decide)
    rw [h, hfirst, cons_append]
    dsimp only
    rw [if_neg (by omega), if_pos (by omega)]
    exact masked_of_asRef h14 (by decide) h
  · obtain ⟨first, hfirst, hge, hlt⟩ := first_of_asRef (k := 2) (n := 3) h30 (by decide) (by decide)
    rw [h, hfirst, cons_append]
    dsimp only
    rw [if_neg (by omega), if_neg (by omega), if_pos (by omega)]
    exact masked_of_asRef h30 (by decide) h
  · have h62 : v < 2 ^ 62 := by omega
    obtain ⟨first, hfirst, hge, hlt⟩ := first_of_asRef (k := 3) (n := 7) h62 (by decide) (by decide)
    rw [h, hfirst, cons_append]
    dsimp only
    rw [if_neg (by omega), if_neg (by omega), if_neg (by omega)]
    exact masked_of_asRef h62 (by decide) h

lemma decode_eq_some (h : d.decode n = some (bytes, d')) :
    n ≤ d.remaining ∧ d' = d.skip n ∧ bytes = d.asRef.take n := by
  unfold decode at h
  split_ifs at h with hlt
  cases h
  exact ⟨not_lt.mp hlt, rfl, rfl⟩

lemma masked_eq_some (h : decodeVarint.masked d n (2 ^ m - 1) = some (v, d')) :
    v < 2 ^ m ∧ n ≤ d.remaining ∧ d' = d.skip n := by
  rw [decodeVarint.masked, map_eq_some_iff] at h
  obtain ⟨⟨w, d₁⟩, hn, heq⟩ := h
  cases heq
  rw [decodeN, map_eq_some_iff] at hn
  obtain ⟨⟨bytes, d₂⟩, hd, heq⟩ := hn
  cases heq
  obtain ⟨hle, hskip, -⟩ := decode_eq_some hd
  exact ⟨Nat.and_lt_two_pow _ (Nat.sub_lt (Nat.two_pow_pos m) Nat.one_pos), hle, hskip⟩

/-- **The least length**: whatever decodes to `v` takes at least as many bytes as `varintLen`
gives. -/
theorem decodeVarint_eq_some (h : d.decodeVarint = some (v, d')) :
    ∃ n, varintLen v ≤ n ∧ n ≤ d.remaining ∧ d' = d.skip n ∧ v ≤ maxVarint := by
  have hmax : maxVarint = 2 ^ 62 - 1 := rfl
  unfold decodeVarint at h
  cases hd : d.asRef with
  | nil => simp [hd] at h
  | cons =>
    rw [hd] at h
    dsimp only at h
    unfold varintLen
    split_ifs at h with h6 h14 h30
    · cases h
      refine ⟨1, ?_, ?_, rfl, by omega⟩
      · rw [if_pos (by omega)]
      · rw [← length_asRef, hd]
        exact Nat.succ_pos _
    · obtain ⟨hv, hle, hskip⟩ := masked_eq_some (m := 14) h
      exact ⟨2, by split_ifs <;> omega, hle, hskip, by omega⟩
    · obtain ⟨hv, hle, hskip⟩ := masked_eq_some (m := 30) h
      exact ⟨4, by split_ifs <;> omega, hle, hskip, by omega⟩
    · obtain ⟨hv, hle, hskip⟩ := masked_eq_some h
      exact ⟨8, by split_ifs <;> omega, hle, hskip, by omega⟩

lemma decodeVvec_of_asRef {s : Bytes} (hs : s.length ≤ maxVarint)
    (h : d.asRef = encodeVvec s ++ rest) :
    d.decodeVvec = some (s, d.skip (encodeVvec s).length) := by
  rw [encodeVvec, append_assoc] at h
  have hrest := asRef_skip h
  rw [length_encodeVarint] at hrest
  rw [decodeVvec, decodeVarint_of_asRef hs h, bind_some]
  dsimp only
  rw [decode_of_asRef hrest, encodeVvec, length_append, length_encodeVarint]
  simp only [skip, add_assoc]

end Decoder

/-! ### Vectors that are written by a closure -/

namespace Encoder

lemma rotateRight_high (buf block high : Bytes) (start : ℕ) :
    (rotateRight ⟨buf ++ block ++ high, start⟩ buf.length high.length) =
      ⟨buf ++ (high ++ block), start⟩ := by
  have hlen : (block ++ high).length - high.length = block.length := by
    rw [length_append, Nat.add_sub_cancel]
  simp only [rotateRight, append_assoc, drop_left, take_left, hlen]

lemma toBeBytes_or (n v bits : ℕ) (h : bits % 256 = 0) : toBeBytes (n + 1) (v ||| bits) =
    toBeBytes n (v >>> 8 ||| bits >>> 8) ++ [ofNat (v &&& 0xff)] := by
  have hlow : (v ||| bits) % 2 ^ 8 = v &&& 0xff := by
    rw [Nat.or_mod_two_pow, h, Nat.or_zero, ← Nat.and_two_pow_sub_one_eq_mod]
  rw [← Nat.shiftRight_or_distrib, Nat.shiftRight_eq_div_pow]
  exact congrArg (fun b => _ ++ [ofNat b]) hlow

/-- **A closure that appends**: `encodeVvecWith` appends the vector of the bytes that it has
appended. -/
theorem encodeVvecWith_eq (e : Encoder) {f : Encoder → Option Encoder} {bytes : Bytes}
    (hf : f (e.encode [0]) = some ((e.encode [0]).encode bytes)) (hlen : bytes.length < 2 ^ 62) :
    e.encodeVvecWith f = some (e.encode (encodeVvec bytes)) := by
  obtain ⟨buf, start⟩ := e
  have hset (b : UInt8) : writeAt ⟨buf ++ [0] ++ bytes, start⟩ buf.length b =
      ⟨buf ++ (b :: bytes), start⟩ := by
    simp [writeAt]
  have hhigh (n bits : ℕ) (h : bits % 256 = 0) :
      (encode ⟨buf ++ (ofNat (bytes.length &&& 0xff) :: bytes), start⟩
        (toBeBytes n (bytes.length >>> 8 ||| bits >>> 8))).rotateRight buf.length n =
      ⟨buf ++ (toBeBytes (n + 1) (bytes.length ||| bits) ++ bytes), start⟩ := by
    have := rotateRight_high buf (ofNat (bytes.length &&& 0xff) :: bytes)
      (toBeBytes n (bytes.length >>> 8 ||| bits >>> 8)) start
    rw [length_toBeBytes] at this
    rw [encode, this, toBeBytes_or n _ _ h, append_assoc]
    rfl
  have hsub : (buf ++ [0] ++ bytes).length - buf.length - 1 = bytes.length := by
    simp only [length_append, length_singleton]
    omega
  rw [encodeVvecWith, hf, Option.bind_some]
  simp only [encode, hsub, hset]
  unfold encodeVvec encodeVarint
  split_ifs
  · have hbyte := toBeBytes_or 0 bytes.length 0 rfl
    rw [Nat.or_zero] at hbyte
    rw [hbyte]
    rfl
  · exact congrArg some (hhigh 1 (1 <<< 14) rfl)
  · exact congrArg some (hhigh 3 (2 <<< 30) rfl)
  · exact congrArg some (hhigh 7 (3 <<< 62) rfl)

/-- **The codec round trips.**  A varint is read back and what follows it is left, `varintLen` gives
its length, and nothing shorter decodes to the same value. A vector is read back likewise. With a
closure that only appends bytes, on top of any content, `encodeVvecWith` appends the vector of those
bytes, also inside the closure of another one. -/
theorem codec_round_trip :
    (∀ (d : Decoder) (v : ℕ) (rest : Bytes), v < 2 ^ 62 → d.asRef = encodeVarint v ++ rest →
      ∃ d', d.decodeVarint = some (v, d') ∧ d'.asRef = rest) ∧
    (∀ v < 2 ^ 62, (encodeVarint v).length = varintLen v ∧
      ∀ d d' : Decoder, d.decodeVarint = some (v, d') → d.offset + varintLen v ≤ d'.offset) ∧
    (∀ (d : Decoder) (s rest : Bytes), s.length < 2 ^ 62 → d.asRef = encodeVvec s ++ rest →
      ∃ d', d.decodeVvec = some (s, d') ∧ d'.asRef = rest) ∧
    (∀ (e : Encoder) (f : Encoder → Option Encoder) (bytes : Bytes), bytes.length < 2 ^ 62 →
      f (e.encode [0]) = some ((e.encode [0]).encode bytes) →
      e.encodeVvecWith f = some (e.encode (encodeVvec bytes))) ∧
    ∀ (e : Encoder) (g : Encoder → Option Encoder) (before bytes after : Bytes),
      (before ++ (encodeVvec bytes ++ after)).length < 2 ^ 62 →
      (∀ e, g e = some (e.encode bytes)) →
      e.encodeVvecWith (fun e => ((e.encode before).encodeVvecWith g).map (·.encode after)) =
        some (e.encode (encodeVvec (before ++ (encodeVvec bytes ++ after)))) := by
  have hmax : maxVarint = 2 ^ 62 - 1 := rfl
  refine ⟨fun d v rest hv h => ?_, fun v _ => ⟨length_encodeVarint v, fun d d' h => ?_⟩,
    fun d s rest hs h => ?_, fun e f bytes hlen hf => encodeVvecWith_eq e hf hlen,
    fun e g before bytes after hlen hg => ?_⟩
  · have hrest := asRef_skip h
    rw [length_encodeVarint] at hrest
    exact ⟨_, decodeVarint_of_asRef (by omega) h, hrest⟩
  · obtain ⟨n, hle, -, rfl, -⟩ := decodeVarint_eq_some h
    exact Nat.add_le_add_left hle d.offset
  · exact ⟨_, decodeVvec_of_asRef (by omega) h, asRef_skip h⟩
  · refine encodeVvecWith_eq e ?_ hlen
    have hle : bytes.length < 2 ^ 62 := by
      simp only [encodeVvec, length_append] at hlen
      omega
    rw [encodeVvecWith_eq _ (hg _) hle]
    simp [encode]

/-- A block of 64 bytes, whose length takes a second byte, within another. -/
theorem codec_round_trip_nested :
    (mk [7] 1).encodeVvecWith (fun e => ((e.encode [1]).encodeVvecWith fun e =>
      some (e.encode (replicate 64 2))).map (·.encode [3])) =
        some ((mk [7] 1).encode
          (encodeVvec ([1] ++ (encodeVvec (replicate 64 2) ++ [3])))) :=
  codec_round_trip.2.2.2.2 _ _ _ _ _ (by decide) fun _ => rfl

end Encoder

/-!
## Vectors with a length of fixed width

A vector whose length fits is found again. A length that does not fit is cut off, and a closure can
only be used at the start of an encoder: what is there already counts as space for the length
(`length_of_encodeVecWith`). Arithmetic that overflows panics, so a closure cannot be used with
width 8.
-/

namespace Encoder

open List

lemma foldl_writeAt (buf tail : Bytes) (start n v : ℕ) :
    (range n).foldl (fun (e : Encoder) i => e.writeAt (buf.length + i)
        (ofNat (v >>> (8 * (n - i - 1)) &&& 0xff)))
      ⟨buf ++ (replicate n 0 ++ tail), start⟩ = ⟨buf ++ (toBeBytes n v ++ tail), start⟩ := by
  induction n generalizing buf with
  | zero => rfl
  | succ n ih =>
    have hbyte : v >>> (8 * n) &&& 0xff = v / 256 ^ n % 256 := by
      rw [Nat.shiftRight_eq_div_pow, pow_mul]
      exact Nat.and_two_pow_sub_one_eq_mod _ 8
    have hrest := ih (buf ++ [ofNat (v / 256 ^ n % 256)])
    simp only [length_append, length_singleton, append_assoc, add_assoc,
      add_comm 1] at hrest
    rw [range_succ_eq_map, foldl_cons, foldl_map, toBeBytes_succ, writeAt]
    simp only [Nat.succ_eq_add_one, Nat.add_sub_add_right, Nat.add_zero, Nat.sub_zero,
      Nat.add_sub_cancel, hbyte]
    rw [set_append_right _ _ le_rfl, Nat.sub_self]
    exact hrest

variable {e : Encoder} {n : ℕ} {s : Bytes}

lemma encodeVecWith_eq (hstart : e.buf.length = e.start) :
    e.encodeVecWith n (fun e => some (e.encode s)) =
      if n < 8 ∧ s.length < 256 ^ n then some (e.encode (toBeBytes n s.length ++ s)) else none := by
  have hlen : ((e.padTo n 0).encode s).buf.length = e.buf.length + n + s.length := by
    simp [padTo, encode, hstart, Nat.add_assoc]
  have hpow : 1 <<< (n * 8) = 256 ^ n := by
    rw [Nat.one_shiftLeft, Nat.mul_comm, Nat.pow_mul]
  have hwidth : n * 8 < 64 ↔ n < 8 := by omega
  unfold encodeVecWith
  rw [Option.bind_some, if_neg (by omega), hlen, Nat.add_assoc, Nat.add_sub_cancel_left,
    Nat.add_sub_cancel_left, hpow]
  refine if_congr (and_congr_left fun _ => hwidth) (congrArg some ?_) rfl
  rw [padTo, ← hstart, Nat.add_sub_cancel_left, encode, encode, encode, append_assoc]
  exact foldl_writeAt e.buf s e.start n s.length

lemma decodeVec_of_asRef {d : Decoder} {rest : Bytes} (hs : s.length < 256 ^ n)
    (hd : d.asRef = toBeBytes n s.length ++ s ++ rest) :
    ∃ d', d.decodeVec n = some (s, d') ∧ d'.asRef = rest := by
  rw [append_assoc] at hd
  have hrest := asRef_skip hd
  rw [length_toBeBytes] at hrest
  refine ⟨_, ?_, asRef_skip hrest⟩
  rw [decodeVec, decodeN_of_asRef hd, Nat.mod_eq_of_lt hs]
  exact decode_of_asRef hrest

lemma encodeVec_eq (hpos : 0 < n) (hle : n ≤ 8) :
    e.encodeVec n s = some (e.encode (toBeBytes n s.length ++ s)) := by
  rw [encodeVec, if_pos ⟨hpos, hle⟩, encode, encode, encode, append_assoc]
  rfl

lemma length_foldl_writeAt (e : Encoder) (pos : ℕ → ℕ) (byte : ℕ → UInt8) (is : List ℕ) :
    (is.foldl (fun e i => e.writeAt (pos i) (byte i)) e).buf.length = e.buf.length := by
  induction is generalizing e with
  | nil => rfl
  | cons i is ih => exact (ih _).trans length_set

lemma length_of_encodeVecWith {e' : Encoder}
    (h : e.encodeVecWith n (fun e => some (e.encode s)) = some e') :
    n < 8 ∧ e'.buf.length = e.buf.length + (e.start + n - e.buf.length) + s.length := by
  unfold encodeVecWith at h
  dsimp only [Option.bind_some] at h
  split_ifs at h with _ hwidth
  cases h
  rw [length_foldl_writeAt]
  exact ⟨by omega, by simp [padTo, encode, add_assoc]⟩

/-- Both ways to encode a vector write the same after what is there, so that the vector is found
again, or panic if its length does not fit. -/
def EncodesVec (e : Encoder) (n : ℕ) (s : Bytes) : Prop :=
  (s.length < 256 ^ n → ∃ bytes, e.encodeVec n s = some (e.encode bytes) ∧
    e.encodeVecWith n (fun e => some (e.encode s)) = some (e.encode bytes) ∧
    ∀ (d : Decoder) (rest : Bytes), d.asRef = bytes ++ rest →
      ∃ d', d.decodeVec n = some (s, d') ∧ d'.asRef = rest) ∧
  (256 ^ n ≤ s.length → e.encodeVec n s = none ∧
    e.encodeVecWith n (fun e => some (e.encode s)) = none)

/-- **Vectors in TLS style**: both ways to encode a vector are right exactly for an empty encoder, a
width below 8 and a length that fits. Without a closure a vector whose length fits is found again
whatever was there before. -/
theorem encodeVec_round_trip_iff (e : Encoder) (n : ℕ) (s : Bytes)
    (hstart : e.start ≤ e.buf.length) (hpos : 0 < n) (hle : n ≤ 8) :
    (e.EncodesVec n s ↔ e.buf.length = e.start ∧ n < 8 ∧ s.length < 256 ^ n) ∧
      (s.length < 256 ^ n → ∃ bytes, e.encodeVec n s = some (e.encode bytes) ∧
        ∀ (d : Decoder) (rest : Bytes), d.asRef = bytes ++ rest →
          ∃ d', d.decodeVec n = some (s, d') ∧ d'.asRef = rest) := by
  refine ⟨⟨fun ⟨hfits, htooLong⟩ => ?_, fun ⟨hempty, hlt, hs⟩ => ⟨fun _ => ?_, fun hge => ?_⟩⟩,
    fun hs => ⟨_, encodeVec_eq hpos hle, fun _ _ => decodeVec_of_asRef hs⟩⟩
  · by_cases hs : s.length < 256 ^ n
    · obtain ⟨bytes, hvec, hwith, -⟩ := hfits hs
      -- The bytes are those of `encodeVec`, so that all of the padding was needed.
      rw [← hvec, encodeVec_eq hpos hle] at hwith
      obtain ⟨hlt, hlen⟩ := length_of_encodeVecWith hwith
      simp only [encode, length_append, length_toBeBytes] at hlen
      exact ⟨by omega, hlt, hs⟩
    · exact nomatch (encodeVec_eq hpos hle).symm.trans (htooLong (not_lt.mp hs)).1
  · refine ⟨_, encodeVec_eq hpos hle, ?_, fun _ _ => decodeVec_of_asRef hs⟩
    rw [encodeVecWith_eq hempty, if_pos ⟨hlt, hs⟩]
  · omega

/-- Two bytes at the start of an encoder that held another byte before. -/
theorem encodeVec_round_trip_of_two : (mk [7] 1).EncodesVec 1 [1, 2] :=
  (encodeVec_round_trip_iff ⟨[7], 1⟩ 1 [1, 2] (by decide) (by decide) (by decide)).1.mpr (by decide)

/-- After other content the length is written over the vector, a length that does not fit is cut
off, and eight bytes are never enough. -/
theorem encodeVec_overwritten :
    (mk [7] 0).encodeVec 1 [1, 2] = some ⟨[7, 2, 1, 2], 0⟩ ∧
      (mk [7] 0).encodeVecWith 1 (fun e => some (e.encode [1, 2])) = some ⟨[7, 1, 2], 0⟩ ∧
      (mk [] 0).encodeVec 1 (replicate 256 9) = some ⟨0 :: replicate 256 9, 0⟩ ∧
      (mk [] 0).encodeVecWith 8 (fun e => some (e.encode [1, 2])) = none := by
  decide +kernel

end Encoder

/-!
## Decoding stays in bounds

Whatever the bytes are, decoding moves on in the buffer and not beyond its end (`Ahead`), and what
it returns stands where it has moved (`Within`). Skipping runs of a byte in chunks gives the same
as looking at every byte (`skipWhileChunked_eq`).
-/

namespace Decoder

/-! ### Skipping -/

variable {p : UInt8} {l : Bytes}

lemma findIdx?_getD_length {α : Type} [BEq α] [LawfulBEq α] (l : List α) (a : α) :
    (l.findIdx? (· != a)).getD l.length = (l.takeWhile (· == a)).length := by
  induction l with
  | nil => rfl
  | cons b l ih =>
    by_cases hb : b = a
    · rw [findIdx?_cons, takeWhile_cons, if_neg (by simp [hb]), if_pos (by simp [hb]),
        length_cons, length_cons, ← ih]
      cases l.findIdx? (· != a) <;> rfl
    · simp [findIdx?_cons, hb]

lemma eq_of_mem_takeWhile {α : Type} [BEq α] [LawfulBEq α] {l : List α} {a b : α}
    (h : b ∈ l.takeWhile (· == a)) : b = a :=
  beq_iff_eq.mp (all_eq_true.mp all_takeWhile b h)

variable {n lo hi v : ℕ}

lemma length_takeWhile_drop (hn : n ≤ l.length) (h : ∀ b ∈ l.take n, b = p) :
    (l.takeWhile (· == p)).length = n + ((l.drop n).takeWhile (· == p)).length := by
  have hall : ∀ b ∈ l.take n, (b == p) = true := fun b hb => beq_iff_eq.mpr (h b hb)
  conv_lhs => rw [← take_append_drop n l, takeWhile_append_of_pos hall]
  simp [hn]

lemma forall_take_asChunks {j : ℕ} (hj : j ≤ l.length / 16)
    (h : ∀ i < j, (l.drop (i * 16)).take 16 = replicate 16 p) : ∀ b ∈ l.take (j * 16), b = p := by
  intro b hb
  obtain ⟨k, hk, rfl⟩ := mem_iff_getElem.mp hb
  rw [length_take] at hk
  have hchunk := congrArg (·[k % 16]?) (h (k / 16) (by omega))
  simp only [getElem?_take, getElem?_drop, getElem?_replicate] at hchunk
  rw [if_pos (by omega), if_pos (by omega), show k / 16 * 16 + k % 16 = k by omega,
    getElem?_eq_getElem (by omega)] at hchunk
  rw [getElem_take]
  exact some.inj hchunk

/-- **Scanning in chunks** finds the same byte, whatever the alignment, and never panics. -/
theorem skipWhileChunked_eq (d : Decoder) (alignOffset : ℕ) (p : UInt8) :
    d.skipWhileChunked alignOffset p = some (d.skipWhile p) := by
  unfold skipWhileChunked skipWhile
  rw [← length_asRef]
  generalize d.asRef = l
  dsimp only
  generalize hhead : min alignOffset l.length = head
  have hle : (l.takeWhile (· == p)).length ≤ l.length := (List.takeWhile_prefix _).length_le
  have hfound := findIdx?_getD_length (l.take head) p
  rcases hfirst : (l.take head).findIdx? (· != p) with _ | i
  · -- All bytes before the chunks are skipped, and so are those in chunks that do not differ.
    rw [hfirst] at hfound
    have hbytes : ∀ b ∈ l.take head, b = p := by
      rw [← (List.takeWhile_prefix _).eq_of_length hfound.symm]
      exact fun b hb => eq_of_mem_takeWhile hb
    rw [findIdx?_getD_length]
    obtain ⟨rest, hrest⟩ := takeWhile_prefix
      (· == replicate 16 p)
    have hsame : ∀ c ∈ (asChunks 16 (l.drop head)).takeWhile (· == replicate 16 p),
        c = replicate 16 p := fun c hc => eq_of_mem_takeWhile hc
    generalize (asChunks 16 (l.drop head)).takeWhile (· == replicate 16 p) = taken at *
    have hlen : taken.length ≤ (l.drop head).length / 16 := by
      have := congrArg length hrest
      simp only [asChunks, length_append, length_map, length_range] at this
      omega
    have hchunks : ∀ b ∈ (l.drop head).take (taken.length * 16), b = p := by
      refine forall_take_asChunks hlen fun i hi => ?_
      have hget := congrArg (·[i]?) hrest
      rw [getElem?_append_left hi, asChunks, getElem?_map,
        getElem?_range (by omega), getElem?_eq_getElem hi] at hget
      rw [← hsame taken[i] (getElem_mem hi)]
      exact (some.inj hget).symm
    rw [length_drop] at hlen
    have hstop : ((l.drop (head + taken.length * 16)).findIdx? (· != p)).elim l.length
        (head + taken.length * 16 + ·) = (l.takeWhile (· == p)).length := by
      rw [length_takeWhile_drop (by omega) hbytes,
        length_takeWhile_drop (by rw [length_drop]; omega) hchunks, drop_drop,
        ← findIdx?_getD_length]
      cases (l.drop (head + taken.length * 16)).findIdx? (· != p) <;> simp <;> omega
    rw [if_neg (by omega), hstop, if_neg (by omega)]
  · -- Another byte comes before the chunks.
    rw [hfirst, getD_some] at hfound
    have hlt : i < (l.take head).length := (findIdx?_eq_some_iff_getElem.mp hfirst).1
    have heq : (l.takeWhile (· == p)).length = i := by
      conv_lhs => rw [← take_append_drop head l, takeWhile_append, if_neg (by omega)]
      exact hfound.symm
    dsimp only
    rw [if_neg (by omega), heq]

lemma getElem?_takeWhile (l : Bytes) (p : UInt8) :
    (∀ i < (l.takeWhile (· == p)).length, l[i]? = some p) ∧
      l[(l.takeWhile (· == p)).length]? ≠ some p := by
  induction l with
  | nil => exact ⟨nofun, nofun⟩
  | cons b l ih =>
    by_cases hb : b = p
    · rw [takeWhile_cons_of_pos (by simp [hb])]
      refine ⟨fun i hi => ?_, ih.2⟩
      cases i with
      | zero => exact congrArg some hb
      | succ i => exact ih.1 i (Nat.lt_of_succ_lt_succ hi)
    · simp [hb]

/-- **Skipping in chunks is skipping byte by byte**: whatever the alignment, the bytes before the
first other one are skipped, and counted. -/
theorem skipWhileChunked_bytewise (d : Decoder) (alignOffset : ℕ) (p : UInt8) :
    ∃ n ≤ d.remaining, d.skipWhileChunked alignOffset p = some (n, d.skip n) ∧
      (∀ i < n, d.asRef[i]? = some p) ∧ d.asRef[n]? ≠ some p := by
  refine ⟨(d.asRef.takeWhile (· == p)).length, ?_, skipWhileChunked_eq d alignOffset p,
    getElem?_takeWhile d.asRef p⟩
  rw [← length_asRef]
  exact (List.takeWhile_prefix _).length_le

/-! ### Bounds -/

/-- The decoder has moved on in its buffer. -/
structure Ahead (d d' : Decoder) : Prop where
  buf : d'.buf = d.buf
  le : d.offset ≤ d'.offset
  inBounds : d'.offset ≤ d.buf.length

/-- These bytes stand in the buffer between two offsets. -/
def Within (buf : Bytes) (lo hi : ℕ) (bytes : Bytes) : Prop :=
  ∃ i, lo ≤ i ∧ i + bytes.length ≤ hi ∧ bytes = (buf.drop i).take bytes.length

lemma Within.mono {buf bytes : Bytes} {lo' hi' : ℕ} (h : Within buf lo hi bytes)
    (hlo : lo' ≤ lo) (hhi : hi ≤ hi') : Within buf lo' hi' bytes := by
  obtain ⟨i, h1, h2, h3⟩ := h
  exact ⟨i, hlo.trans h1, h2.trans hhi, h3⟩

lemma Within.isInfix {buf bytes : Bytes} (h : Within buf lo hi bytes) :
    bytes <:+: (buf.drop lo).take (hi - lo) := by
  obtain ⟨i, hlo, hhi, heq⟩ := h
  have hslice : bytes = (((buf.drop lo).take (hi - lo)).drop (i - lo)).take bytes.length := by
    rw [drop_take, take_take, drop_drop, Nat.add_sub_cancel' hlo,
      min_eq_left (by omega)]
    exact heq
  rw [hslice]
  exact (List.take_prefix _ _).isInfix.trans (drop_suffix _ _).isInfix

variable {d₀ d d' : Decoder} {bytes : Bytes}

section

variable (h : Ahead d₀ d)

include h

lemma Ahead.skip (hn : n ≤ d.remaining) : Ahead d₀ (d.skip n) := by
  obtain ⟨hbuf, hle, hin⟩ := h
  simp only [remaining, hbuf] at hn
  exact ⟨hbuf, by simp only [Decoder.skip]; omega, by simp only [Decoder.skip]; omega⟩

lemma ahead_decodeVarint (hd : d.decodeVarint = some (v, d')) :
    Ahead d₀ d' ∧ d.offset < d'.offset ∧ v ≤ maxVarint := by
  obtain ⟨n, hlen, hle, rfl, hv⟩ := decodeVarint_eq_some hd
  have := varintLen_pos v
  exact ⟨h.skip hle, by simp only [skip]; omega, hv⟩

lemma ahead_decode (hd : d.decode n = some (bytes, d')) :
    Ahead d₀ d' ∧ Within d₀.buf d.offset d'.offset bytes := by
  obtain ⟨hle, rfl, rfl⟩ := decode_eq_some hd
  have hlen : (d.asRef.take n).length = n := by rw [length_take, length_asRef, min_eq_left hle]
  exact ⟨h.skip hle, d.offset, le_rfl, by rw [hlen, skip], by rw [hlen, asRef, h.buf]⟩

lemma ahead_decodeN (hd : d.decodeN n = some (v, d')) : Ahead d₀ d' ∧ d.offset ≤ d'.offset := by
  rw [decodeN, map_eq_some_iff] at hd
  obtain ⟨⟨bytes, d₁⟩, hd, heq⟩ := hd
  cases heq
  obtain ⟨hle, rfl, -⟩ := decode_eq_some hd
  exact ⟨h.skip hle, Nat.le_add_right _ _⟩

lemma ahead_decodeVec (hd : d.decodeVec n = some (bytes, d')) :
    Ahead d₀ d' ∧ Within d₀.buf d.offset d'.offset bytes := by
  rw [decodeVec, bind_eq_some_iff] at hd
  obtain ⟨⟨len, d₁⟩, hn, hd⟩ := hd
  obtain ⟨h₁, hle⟩ := ahead_decodeN h hn
  exact (ahead_decode h₁ hd).imp_right fun hw => hw.mono hle le_rfl

lemma ahead_decodeVvec (hd : d.decodeVvec = some (bytes, d')) :
    Ahead d₀ d' ∧ Within d₀.buf d.offset d'.offset bytes := by
  rw [decodeVvec, bind_eq_some_iff] at hd
  obtain ⟨⟨len, d₁⟩, hn, hd⟩ := hd
  obtain ⟨h₁, hlt, -⟩ := ahead_decodeVarint h hn
  exact (ahead_decode h₁ hd).imp_right fun hw => hw.mono hlt.le le_rfl

lemma ahead_decodeRemainder (hd : some d.decodeRemainder = some (bytes, d')) :
    Ahead d₀ d' ∧ Within d₀.buf d.offset d'.offset bytes := by
  cases hd
  have hlen : d.asRef.length = d.buf.length - d.offset := length_drop
  obtain ⟨hbuf, hle, hin⟩ := h
  rw [← hbuf] at hin ⊢
  refine ⟨⟨hbuf, hle.trans hin, hbuf ▸ le_rfl⟩, d.offset, le_rfl, ?_, ?_⟩
  · rw [hlen, Nat.add_sub_cancel' hin]
  · exact take_length.symm

lemma ahead_skipWhile (p : UInt8) : Ahead d₀ (d.skipWhile p).2 := by
  refine h.skip ?_
  rw [← length_asRef]
  exact (List.takeWhile_prefix _).length_le

end

end Decoder

end Neqo
