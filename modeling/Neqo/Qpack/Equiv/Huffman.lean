import Neqo.Qpack.Basic
import Neqo.Util.Bits

/-!
# Huffman coding is inverted by decoding

* `walk_root_iff` — the tree leads along the bits of a code word to its leaf, and to no other.
* `BitWriter.Holds`, `BitReader.remaining` — what was written and what is left to read, as bits.
* `decode_spec`, `spells_iff` — a string is decoded from what encodes it, and from nothing else.
-/

namespace Neqo.Qpack.Huffman

open BitReader Bits HuffmanDecoderNode List

/-! ### The code -/

/-- The bits of a code word. -/
def Entry.code (e : Entry) : List Bool := ofNat e.len e.val

lemma length_huffmanTable : huffmanTable.length = 257 := by decide +kernel

lemma entry_wf {e : Entry} (he : e ∈ huffmanTable) :
    0 < e.len ∧ e.len ≤ 30 ∧ e.val < 2 ^ e.len := by
  have hall : huffmanTable.all (fun e => 0 < e.len && e.len ≤ 30 && e.val < 2 ^ e.len) = true := by
    decide +kernel
  have := all_eq_true.mp hall e he
  simpa [and_assoc] using this

lemma entry_get? (c : UInt8) : huffmanTable[c.toNat]? = some (entry c) := by
  have hlt : c.toNat < huffmanTable.length := by
    rw [length_huffmanTable]
    exact lt_of_lt_of_le c.toNat_lt (by decide)
  unfold entry
  rw [getD_eq_getElem?_getD, getElem?_eq_getElem hlt]
  rfl

/-! ### The tree -/

/-- The character of the leaf to which bits lead from a node, with the bits after it, unless they
end before. -/
def walk : HuffmanDecoderNode → List Bool → Option (ℕ × List Bool)
  | .node _ _ (some c), bits => some (c, bits)
  | .node zero one none, bit :: bits => walk (if bit then one else zero) bits
  | _, _ => none

variable {n : HuffmanDecoderNode} {bits rest path : List Bool} {c i fuel : ℕ}

lemma walk_append (h : walk n bits = some (c, rest)) (more : List Bool) :
    walk n (bits ++ more) = some (c, rest ++ more) := by
  induction bits generalizing n with
  | nil =>
    rcases n with _ | ⟨zero, one, _ | _⟩ <;> cases h
    rw [walk, nil_append]
  | cons bit bits ih =>
    rcases n with _ | ⟨zero, one, _ | _⟩
    · cases h
    · exact ih h
    · cases h
      rfl

/-- No child is missing, and each leaf has the code word of its character, which starts with the
bits that lead to the node. -/
def labelled : HuffmanDecoderNode → List Bool → Bool
  | .absent, _ => false
  | .node _ _ (some c), path => huffmanTable[c]?.map Entry.code = some path
  | .node zero one none, path => labelled zero (path ++ [false]) && labelled one (path ++ [true])

lemma code_of_walk (hn : labelled n path = true) (h : walk n bits = some (c, rest)) :
    ∃ e, huffmanTable[c]? = some e ∧ path ++ bits = e.code ++ rest := by
  induction n generalizing path bits with
  | absent => cases hn
  | node zero one value ihzero ihone =>
    cases value with
    | some =>
      rw [walk] at h
      cases h
      obtain ⟨e, he, hcode⟩ := Option.map_eq_some_iff.mp (of_decide_eq_true hn)
      exact ⟨e, he, by rw [hcode]⟩
    | none =>
      obtain ⟨hzero, hone⟩ := (Bool.and_eq_true _ _).mp hn
      rcases bits with _ | ⟨bit, bits⟩
      · cases h
      rw [← singleton_append, ← append_assoc]
      cases bit
      · exact ihzero hzero h
      · exact ihone hone h

/-- Checked by building the tree, once: the leaves have the code words of their characters, these
lead to the leaves, and the padding is too short for one. -/
lemma root_spec : labelled huffmanDecoderRoot [] = true ∧
    (huffmanTable.zipIdx.all fun p => walk huffmanDecoderRoot p.1.code = some (p.2, [])) = true ∧
    ∀ n < 8, walk huffmanDecoderRoot (replicate n true) = none := by
  unfold huffmanDecoderRoot
  decide +kernel

/-- **The bits of a code word lead to its leaf**, and the bits that lead to a leaf are its code
word. -/
theorem walk_root_iff : walk huffmanDecoderRoot bits = some (c, rest) ↔
    ∃ e, huffmanTable[c]? = some e ∧ bits = e.code ++ rest := by
  refine ⟨fun h => code_of_walk root_spec.1 h, ?_⟩
  rintro ⟨e, he, rfl⟩
  have hmem : (e, c) ∈ huffmanTable.zipIdx := mk_mem_zipIdx_iff_getElem?.mpr he
  exact walk_append (of_decide_eq_true (all_eq_true.mp root_spec.2.1 (e, c) hmem)) rest

/-- The code words of a string. -/
def codes (input : Bytes) : List Bool := input.flatMap fun c => (entry c).code

lemma codes_cons (c : UInt8) (input : Bytes) :
    codes (c :: input) = (entry c).code ++ codes input := flatMap_cons

variable {input : Bytes}

/-- The bits are the code words of a string, padded with fewer than eight ones. -/
def Spells (bits : List Bool) (input : Bytes) : Prop :=
  ∃ n < 8, bits = codes input ++ replicate n true

lemma walk_codes_cons (c : UInt8) (input : Bytes) (bits : List Bool) :
    walk huffmanDecoderRoot (codes (c :: input) ++ bits) = some (c.toNat, codes input ++ bits) := by
  rw [codes_cons, append_assoc]
  exact walk_root_iff.mpr ⟨entry c, entry_get? c, rfl⟩

lemma spells_of_walk (h : walk huffmanDecoderRoot bits = some (c, rest)) :
    Spells bits input ↔ ∃ b input', input = b :: input' ∧ b.toNat = c ∧ Spells rest input' := by
  constructor
  · rintro ⟨n, hn, rfl⟩
    cases input with
    | nil =>
      rw [codes, flatMap_nil, nil_append, root_spec.2.2 n hn] at h
      cases h
    | cons b input =>
      rw [walk_codes_cons] at h
      cases h
      exact ⟨b, input, rfl, rfl, n, hn, rfl⟩
  · rintro ⟨b, input, rfl, rfl, n, hn, rfl⟩
    obtain ⟨e, he, rfl⟩ := walk_root_iff.mp h
    rw [entry_get?] at he
    cases he
    exact ⟨n, hn, by rw [codes_cons, append_assoc]⟩

lemma spells_of_walk_eq_none (h : walk huffmanDecoderRoot bits = none) :
    Spells bits input ↔ input = [] ∧ bits.length < 8 ∧ bits = replicate bits.length true := by
  constructor
  · rintro ⟨n, hn, rfl⟩
    cases input with
    | nil => simpa [codes] using hn
    | cons b input =>
      rw [walk_codes_cons] at h
      cases h
  · rintro ⟨rfl, hlt, hbits⟩
    exact ⟨_, hlt, hbits⟩

/-! ### Reading bits -/

namespace BitReader

/-- The reader stands within the input. -/
structure Wf (r : BitReader) : Prop where
  offset_lt : r.offset < r.input.length
  currentBit_le : r.currentBit ≤ 8

/-- The bits that were not read. -/
def remaining (r : BitReader) : List Bool :=
  ofNat r.currentBit (r.byteAt r.offset) ++ ofBytes (r.input.drop (r.offset + 1))

/-- All bits were read. -/
def atEnd (r : BitReader) : BitReader := { r with offset := r.input.length, currentBit := 0 }

lemma byteAt_drop (r : BitReader) {offset : ℕ} (h : offset < r.input.length) :
    ofBytes (r.input.drop offset) =
      ofNat 8 (r.byteAt offset) ++ ofBytes (r.input.drop (offset + 1)) := by
  rw [drop_eq_getElem_cons h, byteAt, getD_eq_getElem?_getD,
    getElem?_eq_getElem h]
  rfl

lemma shiftRight_and_one (v i : ℕ) : decide (v >>> i &&& 0x01 = 1) = v.testBit i := by
  rw [Nat.and_one_is_mod, Nat.testBit_eq_decide_div_mod_eq, Nat.shiftRight_eq_div_pow]

variable {r : BitReader}

lemma readBit_cons (h : r.Wf) {bit : Bool} {bits : List Bool} (hbits : r.remaining = bit :: bits)
    : ∃ r', r.readBit = (r', some bit) ∧ r'.remaining = bits ∧ r'.Wf ∧ r'.atEnd = r.atEnd := by
  have hoffset := h.offset_lt
  unfold readBit
  rw [if_neg (by omega)]
  unfold remaining at hbits
  by_cases hcurrent : r.currentBit = 0
  · -- The next bit is the first one of the next byte.
    rw [hcurrent, ofNat] at hbits
    have hnext : r.offset + 1 < r.input.length := by
      by_contra hend
      rw [drop_eq_nil_of_le (not_lt.mp hend)] at hbits
      cases hbits
    rw [byteAt_drop r hnext, ofNat] at hbits
    obtain ⟨rfl, rfl⟩ := cons.inj hbits
    rw [if_pos hcurrent]
    dsimp only
    rw [if_neg (by omega), shiftRight_and_one]
    exact ⟨_, rfl, rfl, ⟨hnext, show 7 ≤ 8 by decide⟩, rfl⟩
  · obtain ⟨n, hn⟩ := Nat.exists_eq_succ_of_ne_zero hcurrent
    rw [hn, ofNat] at hbits
    obtain ⟨rfl, rfl⟩ := cons.inj hbits
    have hle := h.currentBit_le
    rw [if_neg hcurrent]
    dsimp only
    rw [hn, shiftRight_and_one]
    exact ⟨_, rfl, rfl, ⟨hoffset, by dsimp only; omega⟩, rfl⟩

lemma readBit_nil (h : r.Wf) (hbits : r.remaining = []) : r.readBit = (r.atEnd, none) := by
  obtain ⟨hfirst, hrest⟩ := append_eq_nil_iff.mp hbits
  have hcurrent : r.currentBit = 0 := by
    rw [← length_ofNat r.currentBit (r.byteAt r.offset), hfirst]
    rfl
  have hoffset := h.offset_lt
  have hlast : r.offset + 1 = r.input.length := by
    by_contra hne
    rw [byteAt_drop r (by omega)] at hrest
    cases hrest
  unfold readBit
  rw [if_neg (by omega), if_pos hcurrent]
  rw [if_pos hlast, atEnd, hlast, hcurrent]

/-- What is left is accepted as padding if it is fewer than eight ones. -/
lemma verifyEnding_atEnd (h : r.Wf) : r.atEnd.verifyEnding r.remaining.length =
    (r.atEnd, if r.remaining.length < 8 ∧ r.remaining = replicate r.remaining.length true then
      .ok () else .error .huffmanDecompression) := by
  have hlt := h.offset_lt
  have hne : r.input ≠ [] := ne_nil_of_length_pos (Nat.zero_lt_of_lt hlt)
  generalize hn : r.remaining.length = n
  unfold verifyEnding
  rw [show r.atEnd.currentBit = 0 from rfl, show r.atEnd.offset = r.input.length from rfl,
    show r.atEnd.input = r.input from rfl, add_zero]
  by_cases hlong : n > 7
  · rw [if_pos hlong, if_neg (by omega)]
  · -- The padding is in the last byte.
    have hlast : r.offset + 1 = r.input.length := by
      by_contra hlast
      unfold remaining at hn
      rw [byteAt_drop r (by omega), length_append, length_append, length_ofNat,
        length_ofNat] at hn
      omega
    have hremaining : r.remaining = ofNat n (r.atEnd.byteAt (r.input.length - 1)) := by
      unfold remaining at hn ⊢
      rw [drop_eq_nil_of_le hlast.ge, ofBytes_nil, append_nil] at hn ⊢
      rw [length_ofNat] at hn
      rw [hn, ← hlast]
      rfl
    have hpos : 0 < 2 ^ n := Nat.two_pow_pos n
    have hones : r.atEnd.byteAt (r.input.length - 1) &&& (1 <<< n - 1) = 1 <<< n - 1 ↔
        n < 8 ∧ r.remaining = replicate n true := by
      rw [hremaining, Nat.one_shiftLeft, Nat.and_two_pow_sub_one_eq_mod, ← ofNat_ones, ← ofNat_mod]
      refine ⟨fun heq => ⟨by omega, by rw [heq]⟩, fun heq => ?_⟩
      exact ofNat_inj (Nat.mod_lt _ hpos) (Nat.sub_lt hpos (by decide)) heq.2
    rw [if_neg hlong, if_neg (by simpa using hne), if_neg (not_not.mpr rfl)]
    dsimp only
    simp only [hones]
    split_ifs <;> rfl

end BitReader

/-! ### Decoding -/

variable {r : BitReader}

lemma decodeCharacterFrom_spec (hn : labelled n path = true) (h : r.Wf) (i : ℕ) :
    (∃ c r', walk n r.remaining = some (c, r'.remaining) ∧ r'.Wf ∧
      decodeCharacterFrom n i r = (r', .ok (some c))) ∨
    (walk n r.remaining = none ∧
      let ending := r.atEnd.verifyEnding (i + r.remaining.length)
      decodeCharacterFrom n i r = (ending.1, ending.2.map fun _ => none)) := by
  induction n generalizing path i r with
  | absent => cases hn
  | node zero one value ihzero ihone =>
    cases value with
    | some c => exact .inl ⟨c, r, by rw [walk], h, rfl⟩
    | none =>
      obtain ⟨hzero, hone⟩ := (Bool.and_eq_true _ _).mp hn
      rcases hbits : r.remaining with _ | ⟨bit, bits⟩
      · refine .inr ⟨rfl, ?_⟩
        rw [decodeCharacterFrom, readBit_nil h hbits]
        rfl
      · obtain ⟨r₁, hread, rfl, h₁, hend⟩ := readBit_cons h hbits
        have hlength : i + (bit :: r₁.remaining).length = i + 1 + r₁.remaining.length := by
          rw [length_cons]
          omega
        rw [decodeCharacterFrom, hread, hlength, ← hend]
        cases bit
        · exact ihzero hzero h₁ (i + 1)
        · exact ihone hone h₁ (i + 1)

/-- Decoding finds the string that is spelled, if there is one, and has no other error. -/
lemma decodeLoop_spec (h : r.Wf) (hfuel : r.remaining.length + 2 ≤ fuel) (output : Bytes) :
    (∀ s, decodeLoop fuel r output = .ok s ↔ ∃ input, Spells r.remaining input ∧
    s = output ++ input) ∧
      ∀ e, decodeLoop fuel r output = .error e → e = .huffmanDecompression := by
  induction fuel generalizing r output with
  | zero => omega
  | succ fuel ih =>
    have hlt := h.offset_lt
    have hmore : r.hasMoreData = true := by
      simp [hasMoreData, ne_of_lt hlt, ne_nil_of_length_pos (Nat.zero_lt_of_lt hlt)]
    rw [decodeLoop, if_pos hmore]
    rcases decodeCharacterFrom_spec root_spec.1 h 0 with ⟨c, r', hwalk, h', hdecode⟩
      | ⟨hwalk, hdecode⟩
    · rw [decodeCharacter, hdecode]
      dsimp only
      simp only [spells_of_walk hwalk]
      split_ifs with hc
      · obtain ⟨e, he, hbits⟩ := walk_root_iff.mp hwalk
        have hlen : e.code.length = e.len := length_ofNat ..
        have hpos := (entry_wf (mem_of_getElem? he)).1
        rw [hbits, length_append] at hfuel
        obtain ⟨hok, herror⟩ := ih h' (by omega) (output ++ [UInt8.ofNat c])
        refine ⟨fun s => (hok s).trans ⟨?_, ?_⟩, herror⟩
        · rintro ⟨input, hinput, rfl⟩
          refine ⟨_, ⟨UInt8.ofNat c, input, rfl, UInt8.toNat_ofNat_of_lt hc, hinput⟩, ?_⟩
          rw [append_assoc, singleton_append]
        · rintro ⟨_, ⟨b, input, rfl, rfl, hinput⟩, rfl⟩
          refine ⟨input, hinput, ?_⟩
          rw [UInt8.ofNat_toNat, append_assoc, singleton_append]
      · refine ⟨fun s => ⟨nofun, ?_⟩, fun e he => (Except.error.inj he).symm⟩
        rintro ⟨_, ⟨b, _, rfl, rfl, -⟩, -⟩
        exact absurd b.toNat_lt hc
    · obtain ⟨fuel, rfl⟩ : ∃ k, fuel = k + 1 := ⟨fuel - 1, by omega⟩
      have hend : r.atEnd.hasMoreData = false := by simp [hasMoreData, atEnd]
      rw [decodeCharacter, hdecode, zero_add, verifyEnding_atEnd h]
      simp only [spells_of_walk_eq_none hwalk]
      split_ifs with hones
      · dsimp only [Except.map]
        rw [decodeLoop, if_neg (by simp [hend])]
        refine ⟨fun s => ⟨fun hs => ?_, ?_⟩, nofun⟩
        · cases hs
          exact ⟨[], ⟨rfl, hones⟩, (append_nil _).symm⟩
        · rintro ⟨_, ⟨rfl, -⟩, rfl⟩
          rw [append_nil]
      · refine ⟨fun s => ⟨nofun, ?_⟩, fun e he => (Except.error.inj he).symm⟩
        rintro ⟨_, ⟨-, hbits⟩, -⟩
        exact absurd hbits hones

lemma decode_spec (x : Bytes) : (∀ s, decode x = .ok s ↔ Spells (ofBytes x) s) ∧
    ∀ e, decode x = .error e → e = .huffmanDecompression := by
  cases x with
  | nil =>
    refine ⟨fun s => ?_, nofun⟩
    have hnil : walk huffmanDecoderRoot [] = none := root_spec.2.2 0 (by decide)
    rw [ofBytes_nil, spells_of_walk_eq_none hnil]
    refine ⟨fun hs => ?_, fun hs => ?_⟩
    · cases hs
      exact ⟨rfl, by decide, rfl⟩
    · rw [hs.1]
      rfl
  | cons b bytes =>
    have hwf : (new (b :: bytes)).Wf := ⟨Nat.succ_pos _, le_rfl⟩
    have hbits : (new (b :: bytes)).remaining = ofBytes (b :: bytes) := rfl
    have hspec := decodeLoop_spec hwf (by rw [hbits, length_ofBytes]) []
    simpa [hbits, decode] using hspec

/-! ### Writing bits -/

namespace BitWriter

/-- The writer holds these bits: those of the bytes that are full, and the upper bits of the byte
that is not. -/
structure Holds (w : BitWriter) (bits : List Bool) : Prop where
  left_pos : 0 < w.left
  left_le : w.left ≤ 8
  saved : ∃ v < 2 ^ (8 - w.left), w.saved = v <<< w.left ∧
    bits = ofBytes w.output ++ ofNat (8 - w.left) v

lemma holds_new : ({} : BitWriter).Holds [] := ⟨by decide, by decide, 0, by decide, rfl, rfl⟩

lemma or_lt {m n a b : ℕ} (ha : a < 2 ^ m) (hb : b < 2 ^ n) : a <<< n ||| b < 2 ^ (m + n) := by
  apply Nat.or_lt_two_pow
  · rw [Nat.shiftLeft_eq, pow_add]
    exact Nat.mul_lt_mul_of_pos_right ha (Nat.two_pow_pos n)
  · exact hb.trans_le (Nat.pow_le_pow_right (by decide) (Nat.le_add_left n m))

lemma Holds.fill {w : BitWriter} {bits : List Bool} (h : w.Holds bits) {v : ℕ}
    (hv : v < 2 ^ w.left) :
    ofBytes (w.output ++ [UInt8.ofNat (w.saved ||| v)]) = bits ++ ofNat w.left v := by
  obtain ⟨-, hle, u, hu, hsaved, rfl⟩ := h
  have hbyte := or_lt hu hv
  have hbits := ofNat_or (8 - w.left) u hv
  rw [Nat.sub_add_cancel hle] at hbyte hbits
  rw [hsaved, ofBytes_append, ofBytes_singleton hbyte, hbits, append_assoc]

lemma and_ff (v : ℕ) : v &&& 0xff = v % 2 ^ 8 := Nat.and_two_pow_sub_one_eq_mod v 8

lemma writeFull_bits (val : ℕ) {fuel len : ℕ} (hfuel : len ≤ fuel) (output : Bytes) :
    (writeFull val fuel len output).1 < 8 ∧
      ofBytes (writeFull val fuel len output).2 ++
        ofNat (writeFull val fuel len output).1 val =
      ofBytes output ++ ofNat len val := by
  induction fuel generalizing len output with
  | zero =>
    obtain rfl : len = 0 := Nat.le_zero.mp hfuel
    exact ⟨show 0 < 8 by decide, rfl⟩
  | succ fuel ih =>
    rw [writeFull]
    split_ifs with hlen
    · obtain ⟨hlt, hbits⟩ := ih (show len - 8 ≤ fuel by omega)
        (output ++ [UInt8.ofNat (val >>> (len - 8) &&& 0xff)])
      refine ⟨hlt, hbits.trans ?_⟩
      have hbyte := Nat.mod_lt (val >>> (len - 8)) (Nat.two_pow_pos 8)
      rw [and_ff, ofBytes_append, ofBytes_singleton hbyte, append_assoc, ofNat_mod, ← ofNat_add,
        Nat.add_sub_cancel' hlen]
    · exact ⟨not_le.mp hlen, rfl⟩

lemma Holds.write {w : BitWriter} {bits : List Bool} (h : w.Holds bits) {e : Entry}
    (he : e.val < 2 ^ e.len) (hpos : 0 < e.len) : (w.write e).Holds (bits ++ e.code) := by
  have hle := h.left_le
  unfold BitWriter.write
  by_cases hfill : e.len < w.left
  · -- The code word fits into the byte.
    obtain ⟨-, -, v, hv, hsaved, rfl⟩ := h
    rw [if_pos hfill]
    have hval : e.val &&& 0xff = e.val := by
      rw [and_ff]
      exact Nat.mod_eq_of_lt (he.trans_le (Nat.pow_le_pow_right (by decide) (by omega)))
    have hwidth : 8 - (w.left - e.len) = 8 - w.left + e.len := by omega
    refine ⟨show 0 < w.left - e.len by omega, show w.left - e.len ≤ 8 by omega,
      v <<< e.len ||| e.val, ?_, ?_, ?_⟩
    · rw [hwidth]
      exact or_lt hv he
    · show w.saved ||| (e.val &&& 0xff) <<< (w.left - e.len) = _
      rw [hsaved, hval, Nat.shiftLeft_or_distrib, ← Nat.shiftLeft_add,
        Nat.add_sub_cancel' hfill.le]
    · show _ = ofBytes w.output ++ ofNat (8 - (w.left - e.len)) _
      rw [hwidth, ofNat_or _ _ he, append_assoc]
      rfl
  · -- It fills the byte.
    have hfill := not_lt.mp hfill
    have hupper : e.val >>> (e.len - w.left) < 2 ^ w.left := by
      rw [Nat.shiftRight_eq_div_pow, Nat.div_lt_iff_lt_mul (Nat.two_pow_pos _), ← pow_add,
        Nat.add_sub_cancel' hfill]
      exact he
    obtain ⟨hlen, hbits⟩ := writeFull_bits e.val (show e.len - w.left ≤ e.len by omega)
      (w.output ++ [UInt8.ofNat (w.saved ||| e.val >>> (e.len - w.left))])
    rw [h.fill hupper, append_assoc, ← ofNat_add, Nat.add_sub_cancel' hfill] at hbits
    rw [Entry.code, ← hbits]
    dsimp only
    generalize writeFull e.val e.len (e.len - w.left) _ = r at hlen ⊢
    obtain ⟨len, output⟩ := r
    split_ifs with hrest
    · have hmask : e.val &&& (1 <<< len - 1) = e.val % 2 ^ len := by
        rw [Nat.one_shiftLeft, Nat.and_two_pow_sub_one_eq_mod]
      have hwidth : 8 - (8 - len) = len := by omega
      refine ⟨show 0 < 8 - len by omega, show 8 - len ≤ 8 by omega, e.val % 2 ^ len, ?_, ?_, ?_⟩
      · rw [hwidth]
        omega
      · rw [hmask]
      · rw [hwidth, ofNat_mod]
    · obtain rfl : len = 0 := by omega
      exact ⟨show 0 < 8 by decide, le_rfl, 0, by simp, rfl, rfl⟩

lemma Holds.finish {w : BitWriter} {bits : List Bool} (h : w.Holds bits) :
    ∃ n < 8, ofBytes w.finish = bits ++ replicate n true := by
  have hle := h.left_le
  unfold BitWriter.finish
  split_ifs with hpad
  · refine ⟨w.left, by omega, ?_⟩
    have hones : 1 <<< w.left - 1 < 2 ^ w.left := by
      rw [Nat.one_shiftLeft]
      exact Nat.sub_lt (Nat.two_pow_pos _) (by decide)
    rw [h.fill hones, Nat.one_shiftLeft, ofNat_ones]
  · obtain ⟨-, -, v, -, -, rfl⟩ := h
    have hfull : w.left = 8 := by omega
    refine ⟨0, by decide, ?_⟩
    rw [hfull, ofNat, append_nil, replicate_zero, append_nil]

end BitWriter

lemma foldl_write_holds {w : BitWriter} (h : w.Holds bits) :
    (input.foldl (fun w c => w.write (entry c)) w).Holds (bits ++ codes input) := by
  induction input generalizing w bits with
  | nil =>
    rw [codes, flatMap_nil, append_nil]
    exact h
  | cons c input ih =>
    obtain ⟨hpos, -, hlt⟩ := entry_wf (mem_of_getElem? (entry_get? c))
    rw [codes_cons, ← append_assoc]
    exact ih (h.write hlt hpos)

lemma spells_iff (x : Bytes) : Spells (ofBytes x) input ↔ x = encode input := by
  obtain ⟨m, hm, hencode⟩ : Spells (ofBytes (encode input)) input :=
    (foldl_write_holds BitWriter.holds_new).finish
  constructor
  · rintro ⟨n, hn, hbits⟩
    have hlength := congrArg length hbits
    have hlength' := congrArg length hencode
    rw [length_ofBytes, length_append, length_replicate] at hlength hlength'
    obtain rfl : n = m := by omega
    exact ofBytes_inj (hbits.trans hencode.symm)
  · rintro rfl
    exact ⟨m, hm, hencode⟩

lemma decode_encode (input : Bytes) : decode (encode input) = .ok input :=
  ((decode_spec _).1 _).mpr ((spells_iff _).mpr rfl)

/-- **Decoding inverts encoding.**  A string of bytes is decoded if and only if it encodes what is
returned, so that longer padding, padding with zeros and the end of the string are not accepted;
what is not an encoding is an error. -/
theorem decode_eq_ok_iff (x : Bytes) : (∀ s, decode x = .ok s ↔ x = encode s) ∧
    ((∀ s, x ≠ encode s) → decode x = .error .huffmanDecompression) := by
  obtain ⟨hok, herror⟩ := decode_spec x
  have hiff (s : Bytes) : decode x = .ok s ↔ x = encode s := (hok s).trans (spells_iff x)
  refine ⟨hiff, fun hne => ?_⟩
  cases hdecode : decode x with
  | ok s => exact absurd ((hiff s).mp hdecode) (hne s)
  | error e => rw [herror e hdecode]

end Neqo.Qpack.Huffman
