import Mathlib.Data.Fintype.Basic
import Mathlib.Tactic.Ring
import Neqo.Qpack.Equiv.Huffman
import Neqo.Util.Reader

/-!
# Integers are read back

An integer encoded with a prefix starts with the pattern of the prefix, and `IntReader` reads it
back, however its bytes are cut into parts (`feed_encodePrefixedEncodedInt`).
-/

namespace Neqo.Qpack

open IntReader Prefix UInt8

/-! ### The first byte -/

/-- The byte has the pattern of the prefix in its leading bits. -/
def Prefix.Starts (p : Prefix) (b : UInt8) : Prop :=
  b.toNat / 2 ^ (8 - p.len) = p.pattern / 2 ^ (8 - p.len)

instance (p : Prefix) : DecidablePred p.Starts := fun b =>
  inferInstanceAs (Decidable (b.toNat / 2 ^ (8 - p.len) = p.pattern / 2 ^ (8 - p.len)))

namespace Prefix

variable (p : Prefix)

lemma firstByteMax_lt : firstByteMax p.len < 2 ^ (8 - p.len) := by
  rw [firstByteMax_eq]
  exact Nat.sub_lt (Nat.two_pow_pos _) Nat.one_pos

lemma pattern_add_lt {low : ℕ} (hlow : low < 2 ^ (8 - p.len)) : p.pattern + low < 256 := by
  obtain ⟨k, hk⟩ := p.pattern_dvd
  have hpow : 2 ^ (8 - p.len) * 2 ^ p.len = 256 := by
    rw [← Nat.pow_add, show 8 - p.len + p.len = 8 by have := p.len_le; omega]
  have hlt := p.pattern_lt
  rw [hk, ← hpow] at hlt ⊢
  have hk' : k + 1 ≤ 2 ^ p.len := Nat.lt_of_mul_lt_mul_left hlt
  calc 2 ^ (8 - p.len) * k + low < 2 ^ (8 - p.len) * (k + 1) := by rw [Nat.mul_add_one]; omega
    _ ≤ 2 ^ (8 - p.len) * 2 ^ p.len := Nat.mul_le_mul_left _ hk'

lemma toNat_firstByte {low : ℕ} (hlow : low < 2 ^ (8 - p.len)) :
    (ofNat (p.pattern + low)).toNat = p.pattern + low :=
  toNat_ofNat_of_lt (p.pattern_add_lt hlow)

lemma starts_firstByte {low : ℕ} (hlow : low < 2 ^ (8 - p.len)) :
    p.Starts (ofNat (p.pattern + low)) := by
  obtain ⟨k, hk⟩ := p.pattern_dvd
  unfold Starts
  rw [p.toNat_firstByte hlow, hk, Nat.mul_add_div (Nat.two_pow_pos _), Nat.div_eq_of_lt hlow,
    Nat.mul_div_cancel_left _ (Nat.two_pow_pos _), add_zero]

/-- The groups after the first byte. -/
def groups (val : ℕ) : Bytes :=
  if val < firstByteMax p.len then [] else encodeGroups 10 (val - firstByteMax p.len)

lemma encodePrefixedEncodedInt_eq (val : ℕ) :
    p.encodePrefixedEncodedInt val =
      ofNat (p.pattern + min val (firstByteMax p.len)) :: p.groups val := by
  have hmax := p.firstByteMax_lt
  obtain ⟨k, hk⟩ := p.pattern_dvd
  have hor : ∀ low, low < 2 ^ (8 - p.len) → p.pattern ||| low = p.pattern + low := by
    intro low hlow
    rw [hk, ← Nat.two_pow_add_eq_or_of_lt hlow]
  unfold encodePrefixedEncodedInt groups
  by_cases hval : val < firstByteMax p.len
  · -- The bits below the pattern are clear, so clearing them changes nothing.
    have hclear : p.pattern &&& (0xff ^^^ firstByteMax p.len) = p.pattern := by
      apply Nat.eq_of_testBit_eq
      intro i
      rw [Nat.testBit_and, Nat.testBit_xor, firstByteMax_eq, show 0xff = 2 ^ 8 - 1 from rfl,
        Nat.testBit_two_pow_sub_one]
      by_cases hi : p.pattern.testBit i
      · have hlow : ¬ i < 8 - p.len := by
          intro hlt
          rw [hk, Nat.testBit_two_pow_mul] at hi
          simp only [ge_iff_le, Bool.and_eq_true, decide_eq_true_eq] at hi
          omega
        have hhigh : i < 8 := by
          by_contra hge
          have hpow : 2 ^ 8 ≤ 2 ^ i := Nat.pow_le_pow_right (by decide) (by omega)
          rw [Nat.testBit_lt_two_pow (p.pattern_lt.trans_le hpow)] at hi
          exact Bool.false_ne_true hi
        simp [hi, hlow, hhigh]
      · simp [hi]
    rw [if_pos hval, if_pos hval, hclear, hor val (hval.trans hmax), min_eq_left hval.le]
  · rw [if_neg hval, if_neg hval, hor _ hmax, min_eq_right (by omega)]

end Prefix

/-! ### Reading the value back -/

namespace IntReader

lemma new_firstByte (p : Prefix) {low : ℕ} (hlow : low < 2 ^ (8 - p.len)) :
    new (ofNat (p.pattern + low)) p.len =
      { value := low, cnt := 0, done := low < firstByteMax p.len } := by
  obtain ⟨k, hk⟩ := p.pattern_dvd
  have hvalue : (p.pattern + low) &&& firstByteMax p.len = low := by
    rw [firstByteMax_eq, Nat.and_two_pow_sub_one_eq_mod, hk, Nat.mul_add_mod,
      Nat.mod_eq_of_lt hlow]
  unfold new
  dsimp only
  rw [p.toNat_firstByte hlow, hvalue]

lemma read_of_done {eof : Error} {r : IntReader} (h : r.done = true) (bytes : Bytes) :
    r.read eof bytes = (r, bytes, .ok r.value) := by
  cases bytes <;> rw [read, if_pos h]

lemma read_encodeGroups {eof : Error} {fuel v value cnt : ℕ} (ys : Bytes)
    (hcnt : cnt + 7 * fuel = 70) (hcnt' : cnt ≤ 63) (hv : v < 2 ^ (7 * fuel))
    (hlt : value + v * 2 ^ cnt < 2 ^ 64) :
    (read eof ⟨value, cnt, false⟩ (encodeGroups fuel v ++ ys)).2 =
      (ys, .ok (value + v * 2 ^ cnt)) := by
  induction fuel generalizing v value cnt with
  | zero => omega
  | succ fuel ih =>
    have hmod : v &&& 0x7f = v % 128 := Nat.and_two_pow_sub_one_eq_mod v 7
    have hdiv : v >>> 7 = v / 128 := Nat.shiftRight_eq_div_pow v 7
    have hsplit : v % 128 * 2 ^ cnt + v / 128 * 2 ^ (cnt + 7) = v * 2 ^ cnt := by
      rw [pow_add, mul_comm (2 ^ cnt), ← mul_assoc, ← add_mul]
      congr 1
      omega
    unfold encodeGroups
    rw [hmod, hdiv]
    by_cases hmore : v / 128 > 0
    · -- More groups follow, so this is not the tenth.
      have hfuel : fuel ≠ 0 := by
        rintro rfl
        omega
      have hne : cnt ≠ 63 := by omega
      have hbyte : v % 128 ||| 0x80 = 0x80 + v % 128 := by
        rw [Nat.lor_comm]
        exact (Nat.two_pow_add_eq_or_of_lt (i := 7) (Nat.mod_lt _ (by decide)) 1).symm
      have hb : (ofNat (v % 128 ||| 0x80)).toNat = 0x80 + v % 128 := by
        rw [hbyte]
        exact toNat_ofNat_of_lt (show 0x80 + v % 128 < 256 by omega)
      have hlow : (0x80 + v % 128) &&& 0x7f = v % 128 := by
        rw [show 0x7f = 2 ^ 7 - 1 from rfl, Nat.and_two_pow_sub_one_eq_mod]
        omega
      have htop : (0x80 + v % 128) &&& 0x80 ≠ 0 := by
        rw [← hbyte, Nat.and_or_distrib_right]
        intro h
        exact absurd (Nat.or_eq_zero_iff.mp h).2 (by decide)
      rw [if_pos hmore, List.cons_append, read, if_neg Bool.false_ne_true,
        if_neg fun h => hne h.1]
      simp only [hb, hlow, Nat.shiftLeft_eq]
      have hdone : (decide ((0x80 + v % 128) &&& 0x80 = 0) || decide (cnt + 7 ≥ 64)) = false := by
        rw [decide_eq_false htop, decide_eq_false (by omega)]
        rfl
      rw [hdone, ih (by omega) (by omega) (Nat.div_lt_of_lt_mul (by
          rw [mul_comm, show 128 = 2 ^ 7 from rfl, ← pow_add]
          exact hv)) (by rw [add_assoc, hsplit]; exact hlt),
        add_assoc, hsplit]
    · have hv' : v < 128 := by omega
      have hb : (ofNat (v % 128)).toNat = v := by
        rw [Nat.mod_eq_of_lt hv']
        exact toNat_ofNat_of_lt (show v < 256 by omega)
      have hlow : v &&& 0x7f = v := by rw [hmod, Nat.mod_eq_of_lt hv']
      have htop : v &&& 0x80 = 0 := by
        rw [show 0x80 = 2 ^ 7 from rfl, Nat.and_two_pow, Nat.testBit_lt_two_pow hv']
        rfl
      -- The tenth group has one bit, and the value has room for it.
      have hover : ¬ (cnt = 63 ∧ (v > 1 ∨ (v = 1 ∧ value >>> 63 = 1))) := by
        rintro ⟨rfl, hgt | ⟨rfl, hval⟩⟩
        · omega
        · omega
      rw [if_neg hmore, List.cons_append, List.nil_append, read, if_neg Bool.false_ne_true, hb,
        if_neg hover]
      simp only [hlow, htop, Nat.shiftLeft_eq]
      rw [read_of_done (by simp)]

/-- **An integer is read back.** -/
theorem read_encodePrefixedEncodedInt (eof : Error) (p : Prefix) {val : ℕ} (hval : val < 2 ^ 64) :
    ∃ b, p.encodePrefixedEncodedInt val = b :: p.groups val ∧ p.Starts b ∧
      ∀ ys, ∃ r, (new b p.len).read eof (p.groups val ++ ys) = (r, ys, .ok val) := by
  have hlow : min val (firstByteMax p.len) < 2 ^ (8 - p.len) :=
    (min_le_right _ _).trans_lt p.firstByteMax_lt
  refine ⟨_, p.encodePrefixedEncodedInt_eq val, p.starts_firstByte hlow,
    fun ys => ⟨_, Prod.ext rfl ?_⟩⟩
  rw [new_firstByte p hlow]
  unfold groups
  by_cases hlt : val < firstByteMax p.len
  · rw [if_pos hlt, read_of_done (by simpa using hlt), min_eq_left hlt.le, List.nil_append]
  · rw [if_neg hlt, min_eq_right (by omega), decide_eq_false (lt_irrefl _),
      read_encodeGroups ys (by decide) (by decide) (by omega) (by omega)]
    congr 2
    omega

/-! ### Reading in parts -/

/-- It makes no difference how the bytes of an integer are cut into parts. -/
lemma resumes (r : IntReader) :
    Reader.Resumes Error.needMoreData (fun _ => True) (read .needMoreData)
      (r.read .needMoreData) := by
  intro xs
  induction xs generalizing r with
  | nil =>
    by_cases hdone : r.done = true
    · rw [funext (read_of_done hdone)]
      exact Reader.Resumes.finish trivial []
    · rw [read, if_neg hdone]
      exact .pending fun ys => rfl
  | cons b xs ih =>
    by_cases hdone : r.done = true
    · rw [funext (read_of_done hdone)]
      exact Reader.Resumes.finish trivial (b :: xs)
    · refine Reader.Part.cons ?_
      simp only [read, if_neg hdone]
      split_ifs
      · refine Reader.Resumes.error r ?_ xs
        decide
      · exact ih _

/-- After `k` bytes, at most ten are read in all, the value fits into 64 bits, and nothing but an
overflow or the end of the bytes is an error. -/
def Bounded (k : ℕ) (bytes : Bytes) (res : IntReader × Bytes × Res ℕ) : Prop :=
  res.1.value < 2 ^ 64 ∧ (∃ used, bytes = used ++ res.2.1 ∧ used.length + k ≤ 10) ∧
    (res.2.2 = .ok res.1.value ∨ res.2.2 = .error .integerOverflow ∨
      res.2.2 = .error .needMoreData ∧ bytes.length + k < 10)

lemma read_bounded {k value : ℕ} (hk : k ≤ 9) (hvalue : value < 2 ^ (7 * k) + 255) (bytes : Bytes) :
    Bounded k bytes (read .needMoreData ⟨value, 7 * k, false⟩ bytes) := by
  have hpow : 2 ^ (7 * k) ≤ 2 ^ 63 := Nat.pow_le_pow_right (by decide) (by omega)
  have hlt : value < 2 ^ 64 := by omega
  induction bytes generalizing k value with
  | nil => exact ⟨hlt, ⟨[], rfl, by simp; omega⟩, .inr (.inr ⟨rfl, by simp; omega⟩)⟩
  | cons b bytes ih =>
    have hlow : b.toNat &&& 0x7f < 128 := Nat.and_lt_two_pow (n := 7) _ (by decide)
    rw [read, if_neg Bool.false_ne_true]
    split_ifs with hover
    · exact ⟨hlt, ⟨[b], rfl, by simp; omega⟩, .inr (.inl rfl)⟩
    rw [Nat.shiftLeft_eq]
    have hnext : 2 ^ (7 * (k + 1)) = 128 * 2 ^ (7 * k) := by rw [Nat.mul_add_one, pow_add]; omega
    have hmul : (b.toNat &&& 0x7f) * 2 ^ (7 * k) ≤ 127 * 2 ^ (7 * k) :=
      Nat.mul_le_mul_right _ (by omega)
    have hvalue' : value + (b.toNat &&& 0x7f) * 2 ^ (7 * k) < 2 ^ (7 * (k + 1)) + 255 := by omega
    have hlt' : value + (b.toNat &&& 0x7f) * 2 ^ (7 * k) < 2 ^ 64 := by
      rcases lt_or_eq_of_le hk with hk | rfl
      · have hpow' : 2 ^ (7 * (k + 1)) ≤ 2 ^ 63 := Nat.pow_le_pow_right (by decide) (by omega)
        omega
      · -- The tenth byte has one bit, and adds nothing if the value has 64 bits already.
        have hand : b.toNat &&& 0x7f ≤ b.toNat := Nat.and_le_left
        have hover : ¬ (b.toNat > 1 ∨ b.toNat = 1 ∧ value >>> 63 = 1) := fun h => hover ⟨rfl, h⟩
        rw [Nat.shiftRight_eq_div_pow] at hover
        omega
    by_cases hdone : b.toNat &&& 0x80 = 0 ∨ 7 * k + 7 ≥ 64
    · rw [read_of_done (by simpa using hdone)]
      exact ⟨hlt', ⟨[b], rfl, by simp; omega⟩, .inl rfl⟩
    · rw [show (decide _ || decide _) = false by simpa using hdone]
      obtain ⟨hfits, ⟨used, hused, hlen⟩, hres⟩ :=
        ih (show k + 1 ≤ 9 by omega) hvalue' (Nat.pow_le_pow_right (by decide) (by omega)) hlt'
      refine ⟨hfits, ⟨b :: used, congrArg _ hused, ?_⟩, ?_⟩
      · rw [List.length_cons]
        omega
      · rw [List.length_cons, add_right_comm]
        exact hres

/-- **Integers are read back from any parts**, up to their last byte and no further. Whatever bytes
follow a first byte, at most ten of them are read, until there is a value below `2 ^ 64` or an
error. -/
theorem feed_encodePrefixedEncodedInt (p : Prefix) :
    let feed := Reader.feed .needMoreData (read .needMoreData)
    (∀ val < 2 ^ 64, ∃ b bytes, p.encodePrefixedEncodedInt val = b :: bytes ∧
      ∀ parts ys, parts.flatten = bytes ++ ys → (feed (.new b p.len) parts).2 = (ys, .ok val)) ∧
    ∀ b parts, Bounded 0 parts.flatten (feed (.new b p.len) parts) := by
  intro feed
  have hfeed : feed = fun r parts => r.read .needMoreData parts.flatten :=
    funext fun r => funext fun parts => Reader.feed_eq resumes r parts
  rw [hfeed]
  refine ⟨fun val hval => ?_, fun b parts => ?_⟩
  · obtain ⟨b, hb, -, hread⟩ := read_encodePrefixedEncodedInt .needMoreData p hval
    refine ⟨b, _, hb, fun parts ys hparts => ?_⟩
    obtain ⟨r, hread⟩ := hread ys
    simp only [hparts, hread]
  · have hlow : b.toNat &&& firstByteMax p.len ≤ b.toNat := Nat.and_le_left
    have hlt := b.toNat_lt
    have hvalue : b.toNat &&& firstByteMax p.len < 2 ^ (7 * 0) + 255 := by omega
    dsimp only [new]
    by_cases hdone : b.toNat &&& firstByteMax p.len < firstByteMax p.len
    · rw [read_of_done (by simpa using hdone)]
      exact ⟨by dsimp only; omega, ⟨[], rfl, by decide⟩, .inl rfl⟩
    · rw [decide_eq_false hdone]
      exact read_bounded (by decide) hvalue parts.flatten

end IntReader

/-!
## Literals are read back

A literal is read back from a stream, however its bytes are cut into parts, and from a header block.
-/

open List LiteralReader Prefix

/-! ### The first byte -/

lemma Prefix.starts_of_literal (p : Prefix) (h : p.len ≤ 6) {useHuffman : Bool} {b : UInt8}
    (hb : (p.literal h useHuffman).Starts b) :
    p.Starts b ∧ (b.toNat &&& 0x80 >>> p.len ≠ 0 ↔ useHuffman = true) := by
  obtain ⟨k, hk⟩ := p.pattern_dvd
  have hpow : 2 ^ (8 - p.len) = 2 ^ (7 - p.len) * 2 := by
    rw [← pow_succ]
    congr 1
    omega
  -- One bit is left of the byte after the pattern: the one for Huffman encoding.
  have hdiv : b.toNat / 2 ^ (7 - p.len) = 2 * k + useHuffman.toNat := by
    have hb' : b.toNat / 2 ^ (8 - (p.len + 1)) =
        p.literalPattern useHuffman / 2 ^ (8 - (p.len + 1)) := hb
    rw [show 8 - (p.len + 1) = 7 - p.len by omega, p.literalPattern_eq h, hk, hpow, mul_assoc,
      mul_comm useHuffman.toNat, Nat.mul_add_div (Nat.two_pow_pos _),
      Nat.mul_div_cancel_left _ (Nat.two_pow_pos _)] at hb'
    exact hb'
  have hlt : useHuffman.toNat < 2 := by cases useHuffman <;> decide
  constructor
  · unfold Starts
    rw [hk, Nat.mul_div_cancel_left _ (Nat.two_pow_pos _), hpow, ← Nat.div_div_eq_div_mul]
    omega
  · have hbit : 0x80 >>> p.len = 2 ^ (7 - p.len) := by
      rw [Nat.shiftRight_eq_div_pow, show 0x80 = 2 ^ 7 from rfl,
        Nat.pow_div (by omega) (by decide)]
    have htest : b.toNat.testBit (7 - p.len) = useHuffman := by
      rw [Nat.testBit_eq_decide_div_mod_eq, hdiv]
      cases useHuffman with
      | false => simp
      | true =>
        rw [Nat.mul_add_mod]
        rfl
    rw [hbit, Nat.and_two_pow, htest]
    cases useHuffman with
    | false | true => simp

lemma LiteralReader.decoded_encodedLiteral (useHuffman : Bool) (value : Bytes) :
    decoded useHuffman (encodedLiteral useHuffman value) = .ok value := by
  cases useHuffman with
  | false => rfl
  | true => exact Huffman.decode_encode value

lemma Prefix.encodeLiteral_cases (eof : Error) {useHuffman : Bool} (p : Prefix) {value : Bytes}
    (h : p.len ≤ 6) (hlen : (encodedLiteral useHuffman value).length ≤ maxLen) :
    ∃ b groups, encodeLiteral useHuffman p value h =
        b :: (groups ++ encodedLiteral useHuffman value) ∧
      p.Starts b ∧ (b.toNat &&& 0x80 >>> p.len ≠ 0 ↔ useHuffman = true) ∧
      ∀ ys, ∃ r, (new b (p.len + 1)).read eof (groups ++ ys) =
        (r, ys, .ok (encodedLiteral useHuffman value).length) := by
  have hlt : (encodedLiteral useHuffman value).length < 2 ^ 64 := hlen.trans_lt (by decide)
  obtain ⟨b, hb, hstarts, hread⟩ :=
    read_encodePrefixedEncodedInt eof (p.literal h useHuffman) hlt
  obtain ⟨hp, hhuffman⟩ := p.starts_of_literal h hstarts
  refine ⟨b, (p.literal h useHuffman).groups (encodedLiteral useHuffman value).length, ?_, hp,
    hhuffman, hread⟩
  rw [encodeLiteral, hb, cons_append]

/-! ### Reading from a stream -/

namespace LiteralReader

variable {r : LiteralReader} {bytes value ys : Bytes}

lemma readLiteral_of_le {missing : ℕ} (h : missing ≤ bytes.length) :
    readLiteral r missing bytes =
      ({ r with state := .done, literal := r.literal ++ bytes.take missing }, bytes.drop missing,
        decoded r.useHuffman (r.literal ++ bytes.take missing)) := by
  unfold readLiteral
  simp only [Nat.min_eq_right h, Nat.sub_self, if_true]

lemma readLiteral_of_lt {missing : ℕ} (h : bytes.length < missing) :
    readLiteral r missing bytes =
      ({ r with state := .readLiteral (missing - bytes.length), literal := r.literal ++ bytes }, [],
        .error .needMoreData) := by
  unfold readLiteral
  simp only [min_eq_left h.le, if_neg (Nat.sub_ne_zero_of_lt h), take_length,
    drop_length]

lemma readLength_append {reader : IntReader} {groups : Bytes} (hr : r.literal = [])
    (hreader : ∀ ys, ∃ reader', reader.read .needMoreData (groups ++ ys) = (reader', ys,
    .ok (encodedLiteral r.useHuffman value).length))
    (hlen : (encodedLiteral r.useHuffman value).length ≤ maxLen) :
    ∃ r', readLength r reader (groups ++ encodedLiteral r.useHuffman value ++ ys) =
      (r', ys, .ok value) := by
  obtain ⟨reader', hread⟩ := hreader (encodedLiteral r.useHuffman value ++ ys)
  rw [readLength, append_assoc, hread]
  simp only [if_pos hlen]
  refine ⟨_, Prod.ext rfl ?_⟩
  rw [readLiteral_of_le (by rw [length_append]; exact Nat.le_add_right _ _), take_left,
    drop_left, hr, nil_append, decoded_encodedLiteral]

/-- **A literal with a prefix is read back.** -/
theorem read_newWithFirstByte {useHuffman : Bool} (p : Prefix) (h : p.len ≤ 6)
    (hlen : (encodedLiteral useHuffman value).length ≤ maxLen) (ys : Bytes) :
    ∃ b rest, encodeLiteral useHuffman p value h = b :: rest ∧ p.Starts b ∧
      ∃ r, (newWithFirstByte b p.len).read (rest ++ ys) = (r, ys, .ok value) := by
  obtain ⟨b, groups, hb, hstarts, hhuffman, hread⟩ :=
    p.encodeLiteral_cases .needMoreData h hlen
  refine ⟨b, _, hb, hstarts, ?_⟩
  have huse : (newWithFirstByte b p.len).useHuffman = useHuffman := by
    unfold newWithFirstByte
    cases useHuffman with
    | false => simpa using hhuffman
    | true => simpa using hhuffman
  rw [← huse] at hlen hread ⊢
  exact readLength_append rfl hread hlen

/-- **A literal without a prefix is read back.** -/
theorem read_noPrefix {useHuffman : Bool}
    (hlen : (encodedLiteral useHuffman value).length ≤ maxLen) (ys : Bytes) :
    ∃ r, ({} : LiteralReader).read (encodeLiteral useHuffman noPrefix value ++ ys) =
      (r, ys, .ok value) := by
  obtain ⟨b, rest, hb, -, hread⟩ := read_newWithFirstByte noPrefix (by decide) hlen ys
  rw [hb]
  exact hread

/-! ### Reading in parts -/

/-- A literal that is complete never asks for more. -/
lemma decoded_ne_needMoreData (useHuffman : Bool) (literal : Bytes) :
    decoded useHuffman literal ≠ .error .needMoreData := by
  unfold decoded
  cases useHuffman with
  | false => simp
  | true =>
    intro h
    exact absurd ((Huffman.decode_spec literal).2 _ h) (by decide)

variable (r : LiteralReader)

lemma resumes_readLiteral (missing : ℕ) :
    Reader.Resumes Error.needMoreData (fun _ => True) read (readLiteral r missing) := by
  intro xs
  by_cases hle : missing ≤ xs.length
  · rw [readLiteral_of_le hle]
    refine .done (decoded_ne_needMoreData _ _) (fun _ _ => trivial) (drop_suffix _ xs)
      fun ys => ?_
    rw [readLiteral_of_le (hle.trans (by rw [length_append]; omega)),
      take_append_of_le_length hle, drop_append_of_le_length hle]
  · have hlt : xs.length < missing := by omega
    rw [readLiteral_of_lt hlt]
    refine .pending fun ys => ?_
    -- Either the rest of the literal is in the second part, or that is not the last one either.
    show readLiteral r missing (xs ++ ys) =
      readLiteral { r with state := .readLiteral (missing - xs.length), literal := r.literal ++ xs }
        (missing - xs.length) ys
    by_cases hys : missing - xs.length ≤ ys.length
    · rw [readLiteral_of_le hys, readLiteral_of_le (by rw [length_append]; omega),
        take_append, take_of_length_le hlt.le, drop_append,
        drop_of_length_le hlt.le]
      simp only [append_assoc, nil_append]
    · rw [readLiteral_of_lt (by rw [length_append]; omega), readLiteral_of_lt (by omega)]
      simp only [length_append, append_assoc, Nat.sub_sub]

lemma resumes_readLength (reader : IntReader) :
    Reader.Resumes Error.needMoreData (fun _ => True) read (readLength r reader) := by
  refine .andThen (readLength r) (fun reader => { r with state := .readLength reader })
    resumes (fun _ => rfl) (fun h => by rw [readLength, h]) (fun reader v => ?_) reader
  by_cases hv : v ≤ maxLen
  · exact ⟨_, resumes_readLiteral _ v, fun h => by rw [readLength, h]; exact if_pos hv⟩
  · exact ⟨_, .error (e := .decoding) _ nofun, fun h => by rw [readLength, h]; exact if_neg hv⟩

lemma resumes : Reader.Resumes Error.needMoreData (fun _ => True) read r.read := by
  rcases r with ⟨state, literal, useHuffman⟩
  cases state with
  | readHuffman => exact .uncons rfl rfl fun b => resumes_readLength _ _
  | readLength reader => exact resumes_readLength _ reader
  | readLiteral missing => exact resumes_readLiteral _ missing
  | done => exact .error _ nofun

end LiteralReader

/-! ### Reading from a header block -/

namespace ReceiverBufferWrapper

lemma readPrefixedInt_encode (p : Prefix) {val : ℕ} (hval : val < 2 ^ 64) (ys : Bytes) :
    readPrefixedInt (p.encodePrefixedEncodedInt val ++ ys) p.len = .ok (val, ys) := by
  obtain ⟨b, hb, -, hread⟩ := read_encodePrefixedEncodedInt .decompression p hval
  obtain ⟨r, hread⟩ := hread ys
  rw [hb, cons_append, readPrefixedInt, hread]

lemma readLiteralFromBuffer_encode {useHuffman : Bool} (p : Prefix) {value : Bytes}
    (h : p.len ≤ 6) (hlen : (encodedLiteral useHuffman value).length ≤ maxLen) (ys : Bytes) :
    readLiteralFromBuffer (encodeLiteral useHuffman p value h ++ ys) p.len =
      .ok (value, ys) := by
  obtain ⟨b, groups, hb, -, hhuffman, hread⟩ := p.encodeLiteral_cases .decompression h hlen
  have huse : decide (b.toNat &&& 0x80 >>> p.len ≠ 0) = useHuffman := by
    cases useHuffman with
    | false => simpa using hhuffman
    | true => simpa using hhuffman
  obtain ⟨r, hread⟩ := hread (encodedLiteral useHuffman value ++ ys)
  rw [hb, cons_append, append_assoc, readLiteralFromBuffer, hread]
  have hslice : slice (encodedLiteral useHuffman value ++ ys)
      (encodedLiteral useHuffman value).length =
        .ok (encodedLiteral useHuffman value, ys) := by
    rw [slice, if_neg (by rw [length_append]; omega), take_left, drop_left]
  simp only [if_pos hlen, huse, hslice]
  show (decoded useHuffman (encodedLiteral useHuffman value)).bind _ = _
  rw [decoded_encodedLiteral]
  rfl

end ReceiverBufferWrapper

lemma parseUtf8_asBytes (s : String) : parseUtf8 (asBytes s) = .ok s := by
  have h : String.fromUTF8? ⟨(asBytes s).toArray⟩ = some s := dif_pos s.isValidUTF8
  rw [parseUtf8, h]

end Neqo.Qpack
