import Mathlib.Data.Nat.Bitwise
import Neqo.Codec

/-!
# Errors, settings, strings and integers
-/

namespace Neqo.Qpack

/-! ### Errors -/

/-- The errors of QPACK. -/
inductive Error where
  | decompression
  | encoderStream
  | decoderStream
  | closedCriticalStream
  | internal
  /-- An input stream does not have more data that a decoder needs. -/
  | needMoreData
  | headerLookup
  | huffmanDecompression
  | badUtf8
  | changeCapacity
  | dynamicTableFull
  | incrementAck
  | integerOverflow
  | decoding
  | encoderStreamBlocked
  /-- An assertion does not hold, or unreachable code is reached. -/
  | assertion
  deriving DecidableEq, Repr

abbrev Res (α : Type) := Except Error α

/-- Any error is mapped to the indicated type. A failed assertion is not an error that is
returned. -/
def Error.mapError {α : Type} (r : Res α) (err : Error) : Res α :=
  match r with
  | .ok a => .ok a
  | .error e => .error (if e = .closedCriticalStream ∨ e = .assertion then e else err)

/-! ### Settings -/

/-- The specification limits the table size. -/
def tableSizeLimit : ℕ := (1 <<< 30) - 1

/-- The limits that an endpoint is configured with. -/
structure Settings where
  maxTableSizeDecoder : ℕ := 65536
  maxTableSizeEncoder : ℕ := 65536
  maxBlockedStreams : ℕ := 20
  /-- Upper bound on the number of streams that the encoder tracks. -/
  maxTrackedStreams : ℕ := 1000
  maxTableSizeDecoder_le : maxTableSizeDecoder ≤ tableSizeLimit := by decide
  maxTableSizeEncoder_le : maxTableSizeEncoder ≤ tableSizeLimit := by decide
  maxBlockedStreams_lt : maxBlockedStreams < 2 ^ 16 := by decide

/-! ### Streams -/

/-- A stream to the peer: the bytes that the connection has accepted, and how many more it accepts
at the moment. -/
structure OutStream where
  sent : Bytes := []
  space : ℕ := 0
  deriving DecidableEq, Repr

namespace OutStream

/-- Send all bytes or none. -/
def streamSendAtomic (s : OutStream) (buf : Bytes) : OutStream × Bool :=
  if buf.length ≤ s.space then
    ({ sent := s.sent ++ buf, space := s.space - buf.length }, true)
  else (s, false)

/-- Send as many bytes as possible. Returns their number. -/
def streamSend (s : OutStream) (buf : Bytes) : OutStream × ℕ :=
  let amount := min buf.length s.space
  ({ sent := s.sent ++ buf.take amount, space := s.space - amount }, amount)

end OutStream

end Neqo.Qpack

/-!
## Huffman coding of strings

`encode` packs the code words of the bytes and fills the last byte with ones. `decode` walks down a
tree built from the table, bit by bit.
-/

namespace Neqo.Qpack.Huffman

/-- A code word: the `len` low bits of `val`. -/
structure Entry where
  len : ℕ
  val : ℕ
  deriving DecidableEq, Repr

/-- The code words of the bytes, and of the end of the string. -/
def huffmanTable : List Entry :=
  [(13, 0x1ff8), (23, 0x7fffd8), (28, 0xfffffe2), (28, 0xfffffe3), (28, 0xfffffe4),
    (28, 0xfffffe5), (28, 0xfffffe6), (28, 0xfffffe7), (28, 0xfffffe8), (24, 0xffffea),
    (30, 0x3ffffffc), (28, 0xfffffe9), (28, 0xfffffea), (30, 0x3ffffffd), (28, 0xfffffeb),
    (28, 0xfffffec), (28, 0xfffffed), (28, 0xfffffee), (28, 0xfffffef), (28, 0xffffff0),
    (28, 0xffffff1), (28, 0xffffff2), (30, 0x3ffffffe), (28, 0xffffff3), (28, 0xffffff4),
    (28, 0xffffff5), (28, 0xffffff6), (28, 0xffffff7), (28, 0xffffff8), (28, 0xffffff9),
    (28, 0xffffffa), (28, 0xffffffb), (6, 0x14), (10, 0x3f8), (10, 0x3f9), (12, 0xffa),
    (13, 0x1ff9), (6, 0x15), (8, 0xf8), (11, 0x7fa), (10, 0x3fa), (10, 0x3fb), (8, 0xf9),
    (11, 0x7fb), (8, 0xfa), (6, 0x16), (6, 0x17), (6, 0x18), (5, 0x0), (5, 0x1), (5, 0x2),
    (6, 0x19), (6, 0x1a), (6, 0x1b), (6, 0x1c), (6, 0x1d), (6, 0x1e), (6, 0x1f), (7, 0x5c),
    (8, 0xfb), (15, 0x7ffc), (6, 0x20), (12, 0xffb), (10, 0x3fc), (13, 0x1ffa), (6, 0x21),
    (7, 0x5d), (7, 0x5e), (7, 0x5f), (7, 0x60), (7, 0x61), (7, 0x62), (7, 0x63), (7, 0x64),
    (7, 0x65), (7, 0x66), (7, 0x67), (7, 0x68), (7, 0x69), (7, 0x6a), (7, 0x6b), (7, 0x6c),
    (7, 0x6d), (7, 0x6e), (7, 0x6f), (7, 0x70), (7, 0x71), (7, 0x72), (8, 0xfc), (7, 0x73),
    (8, 0xfd), (13, 0x1ffb), (19, 0x7fff0), (13, 0x1ffc), (14, 0x3ffc), (6, 0x22), (15, 0x7ffd),
    (5, 0x3), (6, 0x23), (5, 0x4), (6, 0x24), (5, 0x5), (6, 0x25), (6, 0x26), (6, 0x27), (5, 0x6),
    (7, 0x74), (7, 0x75), (6, 0x28), (6, 0x29), (6, 0x2a), (5, 0x7), (6, 0x2b), (7, 0x76),
    (6, 0x2c), (5, 0x8), (5, 0x9), (6, 0x2d), (7, 0x77), (7, 0x78), (7, 0x79), (7, 0x7a),
    (7, 0x7b), (15, 0x7ffe), (11, 0x7fc), (14, 0x3ffd), (13, 0x1ffd), (28, 0xffffffc),
    (20, 0xfffe6), (22, 0x3fffd2), (20, 0xfffe7), (20, 0xfffe8), (22, 0x3fffd3), (22, 0x3fffd4),
    (22, 0x3fffd5), (23, 0x7fffd9), (22, 0x3fffd6), (23, 0x7fffda), (23, 0x7fffdb), (23, 0x7fffdc),
    (23, 0x7fffdd), (23, 0x7fffde), (24, 0xffffeb), (23, 0x7fffdf), (24, 0xffffec), (24, 0xffffed),
    (22, 0x3fffd7), (23, 0x7fffe0), (24, 0xffffee), (23, 0x7fffe1), (23, 0x7fffe2), (23, 0x7fffe3),
    (23, 0x7fffe4), (21, 0x1fffdc), (22, 0x3fffd8), (23, 0x7fffe5), (22, 0x3fffd9), (23, 0x7fffe6),
    (23, 0x7fffe7), (24, 0xffffef), (22, 0x3fffda), (21, 0x1fffdd), (20, 0xfffe9), (22, 0x3fffdb),
    (22, 0x3fffdc), (23, 0x7fffe8), (23, 0x7fffe9), (21, 0x1fffde), (23, 0x7fffea), (22, 0x3fffdd),
    (22, 0x3fffde), (24, 0xfffff0), (21, 0x1fffdf), (22, 0x3fffdf), (23, 0x7fffeb), (23, 0x7fffec),
    (21, 0x1fffe0), (21, 0x1fffe1), (22, 0x3fffe0), (21, 0x1fffe2), (23, 0x7fffed), (22, 0x3fffe1),
    (23, 0x7fffee), (23, 0x7fffef), (20, 0xfffea), (22, 0x3fffe2), (22, 0x3fffe3), (22, 0x3fffe4),
    (23, 0x7ffff0), (22, 0x3fffe5), (22, 0x3fffe6), (23, 0x7ffff1), (26, 0x3ffffe0),
    (26, 0x3ffffe1), (20, 0xfffeb), (19, 0x7fff1), (22, 0x3fffe7), (23, 0x7ffff2), (22, 0x3fffe8),
    (25, 0x1ffffec), (26, 0x3ffffe2), (26, 0x3ffffe3), (26, 0x3ffffe4), (27, 0x7ffffde),
    (27, 0x7ffffdf), (26, 0x3ffffe5), (24, 0xfffff1), (25, 0x1ffffed), (19, 0x7fff2),
    (21, 0x1fffe3), (26, 0x3ffffe6), (27, 0x7ffffe0), (27, 0x7ffffe1), (26, 0x3ffffe7),
    (27, 0x7ffffe2), (24, 0xfffff2), (21, 0x1fffe4), (21, 0x1fffe5), (26, 0x3ffffe8),
    (26, 0x3ffffe9), (28, 0xffffffd), (27, 0x7ffffe3), (27, 0x7ffffe4), (27, 0x7ffffe5),
    (20, 0xfffec), (24, 0xfffff3), (20, 0xfffed), (21, 0x1fffe6), (22, 0x3fffe9), (21, 0x1fffe7),
    (21, 0x1fffe8), (23, 0x7ffff3), (22, 0x3fffea), (22, 0x3fffeb), (25, 0x1ffffee),
    (25, 0x1ffffef), (24, 0xfffff4), (24, 0xfffff5), (26, 0x3ffffea), (23, 0x7ffff4),
    (26, 0x3ffffeb), (27, 0x7ffffe6), (26, 0x3ffffec), (26, 0x3ffffed), (27, 0x7ffffe7),
    (27, 0x7ffffe8), (27, 0x7ffffe9), (27, 0x7ffffea), (27, 0x7ffffeb), (28, 0xffffffe),
    (27, 0x7ffffec), (27, 0x7ffffed), (27, 0x7ffffee), (27, 0x7ffffef), (27, 0x7fffff0),
    (26, 0x3ffffee), (30, 0x3fffffff)].map fun (len, val) => { len, val }

/-! ### The tree -/

/-- A node of the tree; `absent` stands for a missing child. -/
inductive HuffmanDecoderNode where
  | absent
  | node (zero one : HuffmanDecoderNode) (value : Option ℕ)
  deriving DecidableEq, Repr

namespace HuffmanDecoderNode

def isAbsent : HuffmanDecoderNode → Bool
  | absent => true
  | node .. => false

/-- A node without children. -/
def leaf (value : ℕ) : HuffmanDecoderNode := node absent absent (some value)

/-- What one pass over the table finds for a node. -/
structure Scan where
  found : Bool := false
  zero : HuffmanDecoderNode := absent
  one : HuffmanDecoderNode := absent

/-- Make leaves of the entries that continue the code word `start` of `len` bits and end with the
next bit; stop when both children are leaves. -/
def scan (start len : ℕ) : List (Entry × ℕ) → Scan → Scan
  | [], s => s
  | (e, i) :: entries, s =>
    if e.len ≤ len then scan start len entries s
    else if e.val >>> (e.len - len) ≠ start then scan start len entries s
    else if e.len = len + 1 then
      if e.val &&& 1 = 0 then
        let s := { s with found := true, zero := leaf i }
        if s.one.isAbsent then scan start len entries s else s
      else
        let s := { s with found := true, one := leaf i }
        if s.zero.isAbsent then scan start len entries s else s
    else scan start len entries { s with found := true }

end HuffmanDecoderNode

open HuffmanDecoderNode in
/-- The tree below a code word `start` of `len` bits, of at most the given depth. -/
def makeHuffmanTree : ℕ → ℕ → ℕ → HuffmanDecoderNode
  | 0, _, _ => .node .absent .absent none
  | depth + 1, start, len =>
    let s := scan start len huffmanTable.zipIdx {}
    if s.found then
      .node (if s.zero.isAbsent then makeHuffmanTree depth (start <<< 1) (len + 1) else s.zero)
        (if s.one.isAbsent then makeHuffmanTree depth ((start <<< 1) + 1) (len + 1) else s.one) none
    else .node s.zero s.one none

/-- No code word is longer than 30 bits. -/
@[irreducible] def huffmanDecoderRoot : HuffmanDecoderNode := makeHuffmanTree 31 0 0

/-! ### Decoding -/

/-- Input that is read bit by bit. -/
structure BitReader where
  input : Bytes
  offset : ℕ := 0
  currentBit : ℕ := 8
  deriving DecidableEq, Repr

namespace BitReader

def new (input : Bytes) : BitReader := { input := input }

/-- The byte at an offset that is within the input. -/
def byteAt (r : BitReader) (offset : ℕ) : ℕ := (r.input.getD offset 0).toNat

/-- The next bit, or that there is no more data. -/
def readBit (r : BitReader) : BitReader × Option Bool :=
  if r.input.length = r.offset then (r, none)
  else if r.currentBit = 0 then
    let r := { r with offset := r.offset + 1 }
    if r.offset = r.input.length then (r, none)
    else ({ r with currentBit := 7 }, some (r.byteAt r.offset >>> 7 &&& 0x01 = 1))
  else
    let r := { r with currentBit := r.currentBit - 1 }
    (r, some (r.byteAt r.offset >>> r.currentBit &&& 0x01 = 1))

/-- Check that the string ends here, with the last `i` bits that were read and what is left of the
byte as padding. -/
def verifyEnding (r : BitReader) (i : ℕ) : BitReader × Res Unit :=
  if i + r.currentBit > 7 then (r, .error .huffmanDecompression)
  else if r.input.isEmpty then (r, .ok ())
  else if r.offset ≠ r.input.length then (r, .error .huffmanDecompression)
  else
    let ones := (1 <<< (i + r.currentBit)) - 1
    if r.byteAt (r.input.length - 1) &&& ones = ones then ({ r with currentBit := 0 }, .ok ())
    else (r, .error .huffmanDecompression)

def hasMoreData (r : BitReader) : Bool :=
  !r.input.isEmpty && (r.offset ≠ r.input.length || r.currentBit ≠ 0)

end BitReader

/-- Walk down the tree, of which `i` bits were read; `none` at the end of the string. -/
def decodeCharacterFrom : HuffmanDecoderNode → ℕ → BitReader → BitReader × Res (Option ℕ)
  | .absent, i, r => ((r.verifyEnding i).1, (r.verifyEnding i).2.map fun _ => none)
  | .node _ _ (some c), _, r => (r, .ok (some c))
  | .node zero one none, i, r =>
    match r.readBit with
    | (r, none) => ((r.verifyEnding i).1, (r.verifyEnding i).2.map fun _ => none)
    | (r, some true) => decodeCharacterFrom one (i + 1) r
    | (r, some false) => decodeCharacterFrom zero (i + 1) r

def decodeCharacter (r : BitReader) : BitReader × Res (Option ℕ) :=
  decodeCharacterFrom huffmanDecoderRoot 0 r

/-- Decode characters while there is data; each takes at least a bit. -/
def decodeLoop : ℕ → BitReader → Bytes → Res Bytes
  | 0, _, output => .ok output
  | fuel + 1, r, output =>
    if r.hasMoreData then
      match decodeCharacter r with
      | (_, .error e) => .error e
      | (r, .ok none) => decodeLoop fuel r output
      | (r, .ok (some c)) =>
        if c < 256 then decodeLoop fuel r (output ++ [UInt8.ofNat c])
        else .error .huffmanDecompression
    else .ok output

def decode (input : Bytes) : Res Bytes :=
  decodeLoop (8 * input.length + 2) (.new input) []

/-! ### Encoding -/

/-- What was written: whole bytes, and the byte that has `left` bits free. -/
structure BitWriter where
  output : Bytes := []
  left : ℕ := 8
  saved : ℕ := 0
  deriving DecidableEq, Repr

namespace BitWriter

/-- Write the full bytes of the `len` low bits of `val`. Returns the number of bits that are
left. -/
def writeFull (val : ℕ) : ℕ → ℕ → Bytes → ℕ × Bytes
  | 0, len, output => (len, output)
  | fuel + 1, len, output =>
    if len ≥ 8 then
      writeFull val fuel (len - 8) (output ++ [UInt8.ofNat (val >>> (len - 8) &&& 0xff)])
    else (len, output)

/-- Write a code word. -/
def write (w : BitWriter) (e : Entry) : BitWriter :=
  -- Fill the previous byte.
  if e.len < w.left then
    { w with
      saved := w.saved ||| (e.val &&& 0xff) <<< (w.left - e.len)
      left := w.left - e.len }
  else
    let output := w.output ++ [UInt8.ofNat (w.saved ||| e.val >>> (e.len - w.left))]
    -- Write full bytes.
    let (len, output) := writeFull e.val e.len (e.len - w.left) output
    -- Write the rest into `saved`.
    if len > 0 then
      { output := output, left := 8 - len, saved := (e.val &&& ((1 <<< len) - 1)) <<< (8 - len) }
    else { output := output, left := 8, saved := 0 }

/-- Fill the last byte with ones. -/
def finish (w : BitWriter) : Bytes :=
  if w.left < 8 then w.output ++ [UInt8.ofNat (w.saved ||| ((1 <<< w.left) - 1))] else w.output

end BitWriter

/-- The code word of a byte. -/
def entry (c : UInt8) : Entry := huffmanTable.getD c.toNat ⟨0, 0⟩

def encode (input : Bytes) : Bytes :=
  (input.foldl (fun w c => w.write (entry c)) ({} : BitWriter)).finish

end Neqo.Qpack.Huffman

/-!
## Integers and literals with a prefix

A `Prefix` takes the leading bits of a byte; an integer or a literal starts in the bits it leaves.
-/

namespace Neqo.Qpack

/-- A pattern in the leading bits of a byte. -/
structure Prefix where
  pattern : ℕ
  len : ℕ
  /-- The bits that are compared to tell this prefix from others. -/
  mask : ℕ
  len_le : len ≤ 7 := by decide
  pattern_lt : pattern < 256 := by decide
  /-- The pattern has only leading bits. -/
  pattern_dvd : 2 ^ (8 - len) ∣ pattern := by decide

namespace Prefix

variable (p : Prefix)

def cmpPrefix (b : UInt8) : Bool := b.toNat &&& p.mask = p.pattern

def noPrefix : Prefix := { pattern := 0, len := 0, mask := 0xff }

/-! ### Decoder instructions -/

def decoderHeaderAck : Prefix := { pattern := 0x80, len := 1, mask := 0x80 }

def decoderStreamCancellation : Prefix := { pattern := 0x40, len := 2, mask := 0xc0 }

def decoderInsertCountIncrement : Prefix := { pattern := 0x00, len := 2, mask := 0xc0 }

/-! ### Encoder instructions -/

def encoderCapacity : Prefix := { pattern := 0x20, len := 3, mask := 0xe0 }

def encoderInsertWithNameRefStatic : Prefix := { pattern := 0xc0, len := 2, mask := 0xc0 }

def encoderInsertWithNameRefDynamic : Prefix := { pattern := 0x80, len := 2, mask := 0xc0 }

def encoderInsertWithNameLiteral : Prefix := { pattern := 0x40, len := 2, mask := 0xc0 }

def encoderDuplicate : Prefix := { pattern := 0x00, len := 3, mask := 0xe0 }

/-! ### Header blocks -/

def basePrefixPositive : Prefix := { pattern := 0x00, len := 1, mask := 0x80 }

def basePrefixNegative : Prefix := { pattern := 0x80, len := 1, mask := 0x80 }

def headerFieldIndexStatic : Prefix := { pattern := 0xc0, len := 2, mask := 0xc0 }

def headerFieldIndexDynamic : Prefix := { pattern := 0x80, len := 2, mask := 0xc0 }

def headerFieldIndexDynamicPost : Prefix := { pattern := 0x10, len := 4, mask := 0xf0 }

def headerFieldLiteralNameRefStatic : Prefix := { pattern := 0x50, len := 4, mask := 0xd0 }

def headerFieldLiteralNameRefDynamic : Prefix := { pattern := 0x40, len := 4, mask := 0xd0 }

def headerFieldLiteralNameRefDynamicPost : Prefix := { pattern := 0x00, len := 5, mask := 0xf0 }

def headerFieldLiteralNameLiteral : Prefix := { pattern := 0x20, len := 4, mask := 0xe0 }

/-- The largest value in the bits that a prefix of this length leaves. -/
def firstByteMax (len : ℕ) : ℕ := if len = 0 then 0xff else (1 <<< (8 - len)) - 1

lemma firstByteMax_eq {len : ℕ} : firstByteMax len = 2 ^ (8 - len) - 1 := by
  unfold firstByteMax
  split_ifs with h
  · rw [h]
    rfl
  · rw [Nat.one_shiftLeft]

/-! ### Encoding -/

/-- The groups of seven bits of an integer, from the lowest; all but the last have the top bit set.
A `u64` has at most ten. -/
def encodeGroups : ℕ → ℕ → Bytes
  | 0, _ => []
  | fuel + 1, val =>
    if val >>> 7 > 0 then UInt8.ofNat (val &&& 0x7f ||| 0x80) :: encodeGroups fuel (val >>> 7)
    else [UInt8.ofNat (val &&& 0x7f)]

/-- Encode an integer with a prefix. -/
def encodePrefixedEncodedInt (val : ℕ) : Bytes :=
  let max := firstByteMax p.len
  if val < max then [UInt8.ofNat (p.pattern &&& (0xff ^^^ max) ||| val)]
  else UInt8.ofNat (p.pattern ||| max) :: encodeGroups 10 (val - max)

variable (useHuffman : Bool)

/-- The pattern and the bit that says whether the literal is Huffman-encoded. -/
def literalPattern : ℕ :=
  if useHuffman then p.pattern ||| 0x80 >>> p.len else p.pattern

lemma literalPattern_eq (h : p.len ≤ 6) (useHuffman : Bool) :
    p.literalPattern useHuffman = p.pattern + useHuffman.toNat * 2 ^ (7 - p.len) := by
  unfold literalPattern
  cases useHuffman with
  | false => simp
  | true =>
    obtain ⟨k, hk⟩ := p.pattern_dvd
    have hbit : 0x80 >>> p.len = 2 ^ (7 - p.len) := by
      rw [Nat.shiftRight_eq_div_pow, show 0x80 = 2 ^ 7 from rfl,
        Nat.pow_div (by omega) (by decide)]
    have hlt : 2 ^ (7 - p.len) < 2 ^ (8 - p.len) := Nat.pow_lt_pow_right (by decide) (by omega)
    rw [if_pos rfl, hbit, hk, ← Nat.two_pow_add_eq_or_of_lt hlt, Bool.toNat_true, one_mul]

lemma literalPattern_dvd (h : p.len ≤ 6) (useHuffman : Bool) :
    2 ^ (8 - (p.len + 1)) ∣ p.literalPattern useHuffman := by
  rw [p.literalPattern_eq h, show 8 - (p.len + 1) = 7 - p.len by omega]
  refine Nat.dvd_add ?_ (Nat.dvd_mul_left _ _)
  exact (Nat.pow_dvd_pow 2 (by omega)).trans p.pattern_dvd

lemma literalPattern_lt : p.literalPattern useHuffman < 256 := by
  unfold literalPattern
  split_ifs
  · apply Nat.or_lt_two_pow (show p.pattern < 2 ^ 8 from p.pattern_lt)
    rw [Nat.shiftRight_eq_div_pow]
    exact (Nat.div_le_self _ _).trans_lt (by decide)
  · exact p.pattern_lt

/-- The prefix of a literal: one bit longer. -/
def literal (h : p.len ≤ 6) (useHuffman : Bool) : Prefix where
  pattern := p.literalPattern useHuffman
  len := p.len + 1
  mask := ((1 <<< (p.len + 1)) - 1) <<< (8 - (p.len + 1))
  len_le := by omega
  pattern_lt := p.literalPattern_lt useHuffman
  pattern_dvd := p.literalPattern_dvd h useHuffman

/-- What a literal is encoded to, without its length. -/
def encodedLiteral (value : Bytes) : Bytes :=
  if useHuffman then Huffman.encode value else value

lemma noPrefix_len_le : noPrefix.len ≤ 6 := by decide

/-- Encode a literal with a prefix, of which the bit for Huffman encoding becomes a part. -/
def encodeLiteral (p : Prefix) (value : Bytes) (h : p.len ≤ 6 := by decide) : Bytes :=
  let encoded := encodedLiteral useHuffman value
  (p.literal h useHuffman).encodePrefixedEncodedInt encoded.length ++ encoded

end Prefix

/-!
## Reading integers and literals

`IntReader` and `LiteralReader` read from a stream of which only a part has arrived: they keep what
they have read and report `needMoreData` at its end. A reader takes the bytes that are there and
returns those that it leaves. A header block is there as a whole, so reading at its end is an
error.
-/

/-! ### Integers -/

/-- A reader of an integer that can take into account a prefix. -/
structure IntReader where
  value : ℕ
  cnt : ℕ
  done : Bool
  deriving DecidableEq, Repr

namespace IntReader

/-- An integer may take only one byte; then the first byte completes it. -/
def new (firstByte : UInt8) (prefixLen : ℕ) : IntReader :=
  let mask := Prefix.firstByteMax prefixLen
  let value := firstByte.toNat &&& mask
  { value := value, cnt := 0, done := value < mask }

/-- Take the length of the first prefix that matches. `none` if it panics. -/
def make (firstByte : UInt8) (prefixes : List Prefix) : Option IntReader :=
  (prefixes.find? fun p => p.cmpPrefix firstByte).map fun p => new firstByte p.len

/-- Read bytes until the integer is decoded, or report `eof` at the end of the bytes. -/
def read (eof : Error) : IntReader → Bytes → IntReader × Bytes × Res ℕ
  | r, [] => if r.done then (r, [], .ok r.value) else (r, [], .error eof)
  | r, b :: bytes =>
    if r.done then (r, b :: bytes, .ok r.value)
    else if r.cnt = 63 ∧ (b.toNat > 1 ∨ (b.toNat = 1 ∧ r.value >>> 63 = 1)) then
      (r, bytes, .error .integerOverflow)
    else
      read eof
        { value := r.value + (b.toNat &&& 0x7f) <<< r.cnt
          cnt := r.cnt + 7
          done := b.toNat &&& 0x80 = 0 || r.cnt + 7 ≥ 64 } bytes

end IntReader

/-! ### Literals -/

/-- How far a literal was read. -/
inductive LiteralReaderState where
  | readHuffman
  | readLength (reader : IntReader)
  /-- Read a literal of which `missing` bytes have not been read. -/
  | readLiteral (missing : ℕ)
  | done
  deriving DecidableEq, Repr

/-- A reader of a literal: the bit for Huffman encoding, the length, and the literal itself. -/
structure LiteralReader where
  state : LiteralReaderState := .readHuffman
  /-- The bytes of the literal that have been read. -/
  literal : Bytes := []
  useHuffman : Bool := false
  deriving DecidableEq, Repr

namespace LiteralReader

/-- Maximum length for a literal string. -/
def maxLen : ℕ := 384 * 1024

/-- A literal that has a prefix starts in the first byte. -/
def newWithFirstByte (firstByte : UInt8) (prefixLen : ℕ) : LiteralReader :=
  { state := .readLength (.new firstByte (prefixLen + 1))
    useHuffman := firstByte.toNat &&& 0x80 >>> prefixLen ≠ 0 }

/-- The string that a literal stands for. -/
def decoded (useHuffman : Bool) (literal : Bytes) : Res Bytes :=
  if useHuffman then Huffman.decode literal else .ok literal

def readLiteral (r : LiteralReader) (missing : ℕ) (bytes : Bytes) :
    LiteralReader × Bytes × Res Bytes :=
  let amount := min bytes.length missing
  let r := { r with literal := r.literal ++ bytes.take amount }
  if missing - amount = 0 then
    ({ r with state := .done }, bytes.drop amount, decoded r.useHuffman r.literal)
  else ({ r with state := .readLiteral (missing - amount) }, bytes.drop amount,
    .error .needMoreData)

def readLength (r : LiteralReader) (reader : IntReader) (bytes : Bytes) :
    LiteralReader × Bytes × Res Bytes :=
  match reader.read .needMoreData bytes with
  | (reader, bytes, .error e) => ({ r with state := .readLength reader }, bytes, .error e)
  | (reader, bytes, .ok v) =>
    if v ≤ maxLen then readLiteral { r with state := .readLiteral v } v bytes
    else ({ r with state := .readLength reader }, bytes, .error .decoding)

/-- Read bytes until the literal is decoded. -/
def read (r : LiteralReader) (bytes : Bytes) : LiteralReader × Bytes × Res Bytes :=
  match r.state with
  | .readHuffman =>
    match bytes with
    | [] => (r, [], .error .needMoreData)
    | b :: bytes => readLength { r with useHuffman := b.toNat &&& 0x80 ≠ 0 } (.new b 1) bytes
  | .readLength reader => readLength r reader bytes
  | .readLiteral missing => readLiteral r missing bytes
  | .done => (r, bytes, .error .assertion)

end LiteralReader

/-! ### Header blocks -/

/-- What is left of a header block. -/
abbrev ReceiverBufferWrapper := Bytes

namespace ReceiverBufferWrapper

variable (buf : ReceiverBufferWrapper)

/-- Decode an integer, ignoring `prefixLen` bits of the first byte. -/
def readPrefixedInt (prefixLen : ℕ) : Res (ℕ × ReceiverBufferWrapper) :=
  match buf with
  | [] => .error .decompression
  | firstByte :: buf =>
    match (IntReader.new firstByte prefixLen).read .decompression buf with
    | (_, _, .error e) => .error e
    | (_, buf, .ok v) => .ok (v, buf)

def slice (len : ℕ) : Res (Bytes × ReceiverBufferWrapper) :=
  if len > buf.length then .error .decompression else .ok (buf.take len, buf.drop len)

/-- Decode a literal, ignoring `prefixLen` bits of the first byte. -/
def readLiteralFromBuffer (prefixLen : ℕ) : Res (Bytes × ReceiverBufferWrapper) :=
  match buf with
  | [] => .error .decompression
  | firstByte :: buf =>
    match (IntReader.new firstByte (prefixLen + 1)).read .decompression buf with
    | (_, _, .error e) => .error e
    | (_, buf, .ok length) =>
      if length ≤ LiteralReader.maxLen then do
        let (literal, buf) ← slice buf length
        let value ← LiteralReader.decoded (firstByte.toNat &&& 0x80 >>> prefixLen ≠ 0) literal
        return (value, buf)
      else .error .decompression

end ReceiverBufferWrapper

/-- The bytes of a string. -/
def asBytes (s : String) : Bytes := s.toByteArray.data.toList

def parseUtf8 (v : Bytes) : Res String :=
  match String.fromUTF8? ⟨v.toArray⟩ with
  | some s => .ok s
  | none => .error .badUtf8

end Neqo.Qpack
