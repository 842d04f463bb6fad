import Mathlib.Algebra.Order.Ring.Nat

/-!
# Encoding and decoding

`Encoder` appends to a buffer; `encodeVarint` and `encodeVvec` give the bytes that it appends.
The source panics for a varint above `maxVarint`, where these give eight bytes; to read back what
was encoded takes numbers up to `maxVarint`.
-/

namespace Neqo

/-- A sequence of bytes. -/
abbrev Bytes := List UInt8

/-- An encoder that owns its buffer, which may have held bytes already when the encoder was made. -/
structure Encoder where
  buf : Bytes
  start : ℕ := 0
  deriving DecidableEq, Repr

namespace Encoder

/-- The largest value that a varint can hold. -/
def maxVarint : ℕ := 2 ^ 62 - 1

/-- How many bytes a varint takes. -/
def varintLen (v : ℕ) : ℕ :=
  if v < 2 ^ 6 then 1
  else if v < 2 ^ 14 then 2
  else if v < 2 ^ 30 then 4
  else 8

/-- The `n` low bytes of a number, most significant first. -/
def toBeBytes : ℕ → ℕ → Bytes
  | 0, _ => []
  | n + 1, v => toBeBytes n (v / 256) ++ [UInt8.ofNat (v % 256)]

/-- Encode a QUIC varint: the two top bits hold the length. -/
def encodeVarint (v : ℕ) : Bytes :=
  if v < 2 ^ 6 then toBeBytes 1 v
  else if v < 2 ^ 14 then toBeBytes 2 (v ||| 1 <<< 14)
  else if v < 2 ^ 30 then toBeBytes 4 (v ||| 2 <<< 30)
  else toBeBytes 8 (v ||| 3 <<< 62)

/-- Encode a vector with a varint length. -/
def encodeVvec (v : Bytes) : Bytes := encodeVarint v.length ++ v

variable (e : Encoder)

/-- Generic encode routine for arbitrary data. -/
def encode (data : Bytes) : Encoder := { e with buf := e.buf ++ data }

/-- Overwrite one byte of the buffer. -/
def writeAt (pos : ℕ) (data : UInt8) : Encoder := { e with buf := e.buf.set pos data }

/-- Rotate the buffer from `start` on: its last `count` bytes move to the front. -/
def rotateRight (start count : ℕ) : Encoder :=
  let tail := e.buf.drop start
  { e with buf := e.buf.take start ++
      (tail.drop (tail.length - count) ++ tail.take (tail.length - count)) }

/-- Encode the low bytes of a number. -/
def encodeUint (n v : ℕ) : Bytes := toBeBytes n v

/-- Encode a vector in TLS style. This panics unless `n` is from 1 to 8. -/
def encodeVec (n : ℕ) (v : Bytes) : Option Encoder :=
  if n > 0 ∧ n ≤ 8 then some ((e.encode (encodeUint n v.length)).encode v) else none

/-- Pad the encoder to `len` with bytes set to `v`. -/
def padTo (len : ℕ) (v : UInt8) : Encoder :=
  e.encode (List.replicate (e.start + len - e.buf.length) v)

/-- Encode a vector in TLS style using a closure. Panics if the padding and what the closure writes
are less than `n` bytes, if the bound on the length overflows or if the length exceeds it. -/
def encodeVecWith (n : ℕ) (f : Encoder → Option Encoder) : Option Encoder :=
  let start := e.buf.length
  (f (e.padTo n 0)).bind fun e =>
    let len := e.buf.length - start - n
    if e.buf.length < start + n then none
    else if n * 8 < 64 ∧ len < 1 <<< (n * 8) then
      some ((List.range n).foldl
        (fun e i => e.writeAt (start + i) (UInt8.ofNat (len >>> (8 * (n - i - 1)) &&& 0xff))) e)
    else none

/-- Encode a vector with a varint length using a closure, which may panic. One byte is reserved for
the length. If that is not enough, the high bytes of the length are written after the block, which
is then rotated. Panics if the closure writes 2^62 bytes or more. -/
def encodeVvecWith (f : Encoder → Option Encoder) : Option Encoder :=
  let start := e.buf.length
  (f (e.encode [0])).bind fun e =>
    let len := e.buf.length - start - 1
    let e := e.writeAt start (UInt8.ofNat (len &&& 0xff))
    let withHigh (count bits : ℕ) : Encoder :=
      (e.encode (toBeBytes count (len >>> 8 ||| bits))).rotateRight start count
    if len < 2 ^ 6 then some e
    else if len < 2 ^ 14 then some (withHigh 1 (1 <<< 6))
    else if len < 2 ^ 30 then some (withHigh 3 (2 <<< 22))
    else if len < 2 ^ 62 then some (withHigh 7 (3 <<< 54))
    else none

end Encoder

/-!
## Decoding

A `Decoder` is a view into a byte array with a read offset. Lengths fit into `usize`, of 64 bits.
-/

/-- A byte array and how much of it has been decoded. -/
structure Decoder where
  buf : Bytes
  offset : ℕ := 0
  deriving DecidableEq, Repr

namespace Decoder

def new (buf : Bytes) : Decoder := { buf := buf }

variable (d : Decoder)

/-- The number of bytes remaining until the end. -/
def remaining : ℕ := d.buf.length - d.offset

/-- The bytes that have not been decoded. -/
def asRef : Bytes := d.buf.drop d.offset

def skip (n : ℕ) : Decoder := { d with offset := d.offset + n }

/-- Skip while the current byte is `predicate`. Returns the number of bytes skipped. -/
def skipWhile (predicate : UInt8) : ℕ × Decoder :=
  let n := (d.asRef.takeWhile (· == predicate)).length
  (n, d.skip n)

/-- The full chunks of `n` bytes. -/
def asChunks (n : ℕ) (buf : Bytes) : List Bytes :=
  (List.range (buf.length / n)).map fun i => (buf.drop (i * n)).take n

/-- How `skipWhile` looks for the first other byte: one by one up to `alignOffset`, then in chunks,
then one by one. `none` if it panics. -/
def skipWhileChunked (alignOffset : ℕ) (predicate : UInt8) : Option (ℕ × Decoder) :=
  let buf := d.asRef
  let head := min alignOffset buf.length
  match (buf.take head).findIdx? (· != predicate) with
  | some i => if d.remaining < i then none else some (i, d.skip i)
  | none =>
    let chunks := asChunks 16 (buf.drop head)
    let differs := chunks.findIdx? (· != List.replicate 16 predicate)
    let start := head + differs.getD chunks.length * 16
    if buf.length < start then none
    else
      let stop := ((buf.drop start).findIdx? (· != predicate)).elim buf.length (start + ·)
      if d.remaining < stop then none else some (stop, d.skip stop)

/-- Decodes arbitrary data. -/
def decode (n : ℕ) : Option (Bytes × Decoder) :=
  if d.remaining < n then none else some (d.asRef.take n, d.skip n)

/-- The number with these bytes, most significant first. -/
def fromBeBytes (bytes : Bytes) : ℕ := bytes.foldl (fun v b => v * 256 + b.toNat) 0

/-- Decodes a big-endian number of `n` bytes. -/
def decodeN (n : ℕ) : Option (ℕ × Decoder) :=
  (d.decode n).map fun (bytes, d) => (fromBeBytes bytes, d)

/-- Decodes a QUIC varint. The two most significant bits of the first byte encode the length:
1, 2, 4 or 8 bytes. -/
def decodeVarint : Option (ℕ × Decoder) :=
  match d.asRef with
  | [] => none
  | first :: _ =>
    if first.toNat < 0x40 then some (first.toNat, d.skip 1)
    else if first.toNat < 0x80 then masked 2 0x3fff
    else if first.toNat < 0xc0 then masked 4 0x3fffffff
    else masked 8 Encoder.maxVarint
where
  masked (n mask : ℕ) : Option (ℕ × Decoder) := (d.decodeN n).map fun (v, d) => (v &&& mask, d)

/-- Decodes the rest of the buffer. -/
def decodeRemainder : Bytes × Decoder :=
  (d.asRef, { d with offset := d.buf.length })

/-- Decodes a TLS-style length-prefixed buffer. -/
def decodeVec (n : ℕ) : Option (Bytes × Decoder) :=
  (d.decodeN n).bind fun (len, d) => d.decode len

/-- Decodes a QUIC varint-length-prefixed buffer. -/
def decodeVvec : Option (Bytes × Decoder) :=
  d.decodeVarint.bind fun (len, d) => d.decode len

end Decoder

end Neqo
