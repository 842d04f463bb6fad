import Neqo.Ecn

/-!
# Tracking of received packets and generating ACKs thereof

A failed assertion is a `Failure`, and so is a value that is too large for a varint. Packet numbers
are below 2^62, so that sums do not overflow. Times are in nanoseconds.
-/

namespace Neqo

open Encoder

/-- Whether something was inserted by `PacketRange.add`. -/
inductive InsertionResult where
  | largest
  | smallest
  | notInserted
  deriving DecidableEq, Repr

/-- A range of packet numbers, both ends included. -/
structure PacketRange where
  largest : ℕ
  smallest : ℕ
  ackNeeded : Bool
  le : smallest ≤ largest
  deriving DecidableEq, Repr

namespace PacketRange

/-- Make a single packet range. -/
def new (pn : ℕ) : PacketRange := { largest := pn, smallest := pn, ackNeeded := true, le := le_rfl }

/-- Get the number of acknowledged packets in the range. -/
def len (r : PacketRange) : ℕ := r.largest - r.smallest + 1

/-- Whether the given number is in the range. -/
def contains (r : PacketRange) (pn : ℕ) : Bool := r.smallest ≤ pn ∧ pn ≤ r.largest

/-- Maybe add a packet number to the range, if it is adjacent to it. -/
def add (r : PacketRange) (pn : ℕ) : Except Failure (PacketRange × InsertionResult) :=
  if r.contains pn then .error .assertion
  else if r.largest + 1 = pn then
    .ok ({ r with largest := r.largest + 1, ackNeeded := true, le := Nat.le_succ_of_le r.le },
      .largest)
  else if r.smallest = pn + 1 then
    .ok ({ r with smallest := r.smallest - 1, ackNeeded := true,
                  le := (Nat.sub_le _ _).trans r.le }, .smallest)
  else .ok (r, .notInserted)

/-- Merge a higher-numbered range into this. This only works if they are immediately adjacent. -/
def mergeLarger (r other : PacketRange) : Except Failure PacketRange :=
  if h : r.largest + 1 = other.smallest then
    .ok { r with
      largest := other.largest
      ackNeeded := r.ackNeeded || other.ackNeeded
      le := r.le.trans ((Nat.le_succ _).trans (h.le.trans other.le)) }
  else .error .assertion

/-- When a packet containing the range `other` is acknowledged, clear `ackNeeded` on this. Requires
that other is equal to this, or a larger range. -/
def acknowledged (r other : PacketRange) : PacketRange :=
  if other.smallest ≤ r.smallest ∧ r.largest ≤ other.largest then { r with ackNeeded := false }
  else r

end PacketRange

/-- Whether any of the ECT(0), ECT(1) or CE counts are non-zero. -/
def Ecn.Count.isSome (c : Ecn.Count) : Bool := c.ect0 > 0 || c.ect1 > 0 || c.ce > 0

/-- What packets have been received, and what needs acknowledgement for a packet number space. -/
structure RecvdPackets where
  space : PacketNumberSpace
  ranges : List PacketRange := []
  /-- The packet number of the lowest number packet that we are tracking. -/
  minTracked : ℕ := 0
  /-- The time we got the largest acknowledged. -/
  largestPnTime : Option ℕ := none
  /-- The time that we should be sending an ACK. -/
  ackTime : Option ℕ := none
  /-- The time we last sent an ACK. -/
  lastAckTime : Option ℕ := none
  /-- The current ACK frequency sequence number. -/
  ackFrequencySeqno : ℕ := 0
  /-- The time to delay after receiving the first packet that is not immediately acknowledged. -/
  ackDelay : ℕ := 20000000
  /-- The number of ack-eliciting packets that have been received, but not acknowledged. -/
  unacknowledgedCount : ℕ := 0
  /-- The number of contiguous packets that can be received without acknowledging immediately. -/
  unacknowledgedTolerance : ℕ
  /-- Whether we are ignoring packets that arrive out of order for the purposes of generating
  immediate acknowledgment. -/
  ignoreOrder : Bool := false
  /-- The counts of different ECN marks that have been received. -/
  ecnCount : Ecn.Count := {}
  deriving DecidableEq, Repr

namespace RecvdPackets

/-- The default number of in-order packets we will receive after largest acknowledged without
sending an immediate acknowledgment. -/
def defaultAckPacketTolerance : ℕ := 1

def maxTrackedRanges : ℕ := 128

/-- Make a new `RecvdPackets` for the indicated packet number space. -/
def new (space : PacketNumberSpace) : RecvdPackets :=
  { space := space
    unacknowledgedTolerance :=
      if space = .applicationData then defaultAckPacketTolerance
      -- ACK more aggressively
      else 0 }

variable (r : RecvdPackets)

/-- Count the ECN marks of a received packet. -/
def ecnMarks (marks : Ecn.Count) : RecvdPackets :=
  { r with ecnCount :=
      { ect0 := r.ecnCount.ect0 + marks.ect0
        ect1 := r.ecnCount.ect1 + marks.ect1
        ce := r.ecnCount.ce + marks.ce } }

/-- Update acknowledgment delay parameters. -/
def ackFreq (seqno tolerance delay : ℕ) (ignoreOrder : Bool) : RecvdPackets :=
  if seqno ≥ r.ackFrequencySeqno then
    { r with
      ackFrequencySeqno := seqno
      unacknowledgedTolerance := tolerance
      ackDelay := delay
      ignoreOrder := ignoreOrder }
  else r

/-- Whether an ACK frame should be sent now: either because `now` has reached `ackTime`, or because
it is more than an RTT since the last time we sent an ACK. -/
def ackNow (now rtt : ℕ) : Bool :=
  r.ackTime.any fun next => next ≤ now || r.lastAckTime.any fun last => last + rtt ≤ now

/-! ### Receiving -/

/-- A simple addition of a packet number to the tracked set, which is searched from the largest
range on. -/
def add (pn : ℕ) : List PacketRange → Except Failure (List PacketRange)
  | [] => .ok [.new pn]
  | r :: ranges => do
    match ← r.add pn with
    | (r', .largest) => .ok (r' :: ranges)
    | (r', .smallest) =>
      -- If this was the smallest, it might have filled a gap.
      match ranges with
      | nxt :: ranges' =>
        if pn - 1 = nxt.largest then do
          let merged ← nxt.mergeLarger r'
          .ok (merged :: ranges')
        else .ok (r' :: nxt :: ranges')
      | [] => .ok [r']
    | (_, .notInserted) =>
      if r.largest < pn then .ok (.new pn :: r :: ranges)
      else do
        let ranges' ← add pn ranges
        .ok (r :: ranges')

/-- Limit the number of ranges that are tracked to `maxTrackedRanges`. -/
def trimRanges : Except Failure RecvdPackets :=
  if r.ranges.length > maxTrackedRanges then
    match r.ranges.getLast? with
    | none => .error (.error .internal)
    | some oldest =>
      .ok { r with ranges := r.ranges.dropLast, minTracked := oldest.largest + 1 }
  else .ok r

/-- Set the time of the next ACK for an ack-eliciting packet. -/
def setAckTime (now pn nextInOrderPn : ℕ) : RecvdPackets :=
  let r := { r with unacknowledgedCount := r.unacknowledgedCount + 1 }
  let immediateAck := r.space ≠ .applicationData ∨ (pn ≠ nextInOrderPn ∧ !r.ignoreOrder) ∨
    r.unacknowledgedCount > r.unacknowledgedTolerance
  let ackTime := if immediateAck then now else r.ackTime.getD (now + r.ackDelay)
  { r with ackTime := some ackTime }

/-- Add the packet to the tracked set. Returns true if the packet was the largest received so
far. -/
def setReceived (now pn : ℕ) (ackEliciting : Bool) : Except Failure (RecvdPackets × Bool) := do
  let nextInOrderPn := (r.ranges.head?.map (·.largest + 1)).getD 0
  let ranges ← add pn r.ranges
  let r ← trimRanges { r with ranges := ranges }
  -- The new addition was the largest, so update the time we use for calculating ACK delay.
  let largest : Bool := pn ≥ nextInOrderPn
  let r := if largest then { r with largestPnTime := some now } else r
  let r := if ackEliciting then r.setAckTime now pn nextInOrderPn else r
  .ok (r, largest)

/-- If we just received a PING frame, we should immediately acknowledge. -/
def immediateAck (now : ℕ) : RecvdPackets := { r with ackTime := some now }

/-- Check if the packet is a duplicate. -/
def isDuplicate (pn : ℕ) : Bool :=
  if pn < r.minTracked then true
  else (r.ranges.takeWhile (pn ≤ ·.largest)).any (·.contains pn)

/-- Mark ranges as having been acknowledged, from some tracked range on. -/
def acknowledgedFrom (ranges : List PacketRange) : List PacketRange → List PacketRange
  | [] => ranges
  | ack :: acked =>
    let passed := ranges.takeWhile (·.smallest > ack.largest)
    match ranges.dropWhile (·.smallest > ack.largest) with
    | [] => ranges
    | cur :: rest => passed ++ acknowledgedFrom (cur.acknowledged ack :: rest) acked

/-- Mark the given ranges as having been acknowledged. -/
def acknowledged (acked : List PacketRange) : Except Failure RecvdPackets :=
  if r.ranges.isEmpty then .error .assertion
  else .ok { r with ranges := acknowledgedFrom r.ranges acked }

/-! ### Writing ACK frames

The functions append to the bytes that an encoder holds. -/

/-- Append a varint. -/
def encodeVarint (buf : Bytes) (v : ℕ) : Except Failure Bytes :=
  if v ≤ Encoder.maxVarint then .ok (buf ++ Encoder.encodeVarint v) else .error .assertion

/-- Cap on bytes used for ACK ranges after the first. -/
def rangeFrameSpace : ℕ := 512

/-- Worst case for one ACK Range: a gap and a length, each a maximum-width varint. -/
def assumedAckRangeLen : ℕ := 16

/-- Largest ACK Range Count that fits in a one-byte varint. -/
def maxExtraAckRanges : ℕ := 63

/-- Largest, delay, a reserved range count, and the first range. Returns where the count is. -/
def encodeAckFixed (buf : Bytes) (first : PacketRange) (ackDelay : ℕ) :
    Except Failure (Bytes × ℕ) := do
  let buf ← encodeVarint buf first.largest
  let buf ← encodeVarint buf ackDelay
  let reservation := buf.length
  let buf := buf ++ [0]
  let buf ← encodeVarint buf (first.len - 1)
  .ok (buf, reservation)

/-- Write ranges until `limit`, with room left for a full-sized gap plus range instead of measuring
it. Returns the ranges that were written. -/
def encodePending (limit : ℕ) (buf : Bytes) (last : ℕ) :
    List PacketRange → Except Failure (Bytes × List PacketRange)
  | [] => .ok (buf, [])
  | range :: pending =>
    if buf.length + assumedAckRangeLen > limit then .ok (buf, [])
    -- The difference must be at least 2 because 0-length gaps (difference 1) are illegal.
    else if last < range.largest + 2 then .error .assertion
    else do
      let buf ← encodeVarint buf (last - range.largest - 2)
      let buf ← encodeVarint buf (range.len - 1)
      let (buf, acked) ← encodePending limit buf range.smallest pending
      .ok (buf, range :: acked)

/-- Additional ACK ranges that fit in `space`, then the reserved range count. `pending` is the
ack-needed ranges after `first`, newest-first. -/
def encodeAckRanges (pending : List PacketRange) (buf : Bytes) (first : PacketRange)
    (reservation space : ℕ) : Except Failure (Bytes × List PacketRange) := do
  let start := buf.length
  let rangeBudget := min rangeFrameSpace space
  let (buf, acked) ← encodePending (start + rangeBudget) buf first.smallest
    (pending.take maxExtraAckRanges)
  if buf.length - start > rangeBudget then
    throw .assertion
  if acked.length ≥ 2 ^ 8 then
    throw .assertion
  .ok (buf.set reservation (UInt8.ofNat acked.length), first :: acked)

/-- The ECN counts that follow the ranges. -/
def encodeEcn (buf : Bytes) : Option Ecn.Count → Except Failure Bytes
  | none => .ok buf
  | some ecn => do
    let buf ← encodeVarint buf ecn.ect0
    let buf ← encodeVarint buf ecn.ect1
    encodeVarint buf ecn.ce

/-- The length of a frame with one range. -/
def fixedLen (frameType : FrameType) (first : PacketRange) (ackDelay : ℕ)
    (ecn : Option Ecn.Count) : ℕ :=
  varintLen frameType.toNat + varintLen first.largest + varintLen ackDelay +
    -- one byte for range count
    1 + varintLen (first.len - 1) +
    (ecn.elim 0 fun ecn =>
      varintLen ecn.ect0 + varintLen ecn.ect1 + varintLen ecn.ce)

/-- The delay in multiples of 8 microseconds. -/
def encodedAckDelay (elapsed : ℕ) : ℕ := min maxVarint (elapsed / 1000 / 8)

/-- The counts that are written, if there are any. -/
def ecn : Option Ecn.Count := if r.ecnCount.isSome then some r.ecnCount else none

/-- `ACK` or `ACK_ECN`. -/
def ackFrameType (ecn : Option Ecn.Count) : FrameType := if ecn.isSome then .ackEcn else .ack

/-- Write the frame for the ranges `first :: pending`, `space` bytes longer than a frame with one
range at most. -/
def encodeAckFrame (b : Builder) (frameType : FrameType) (first : PacketRange)
    (pending : List PacketRange) (ackDelay : ℕ) (ecn : Option Ecn.Count) (space : ℕ) :
    Except Failure (Builder × List PacketRange) := do
  let buf := b.bytes ++ Encoder.encodeVarint frameType.toNat
  let (buf, reservation) ← encodeAckFixed buf first ackDelay
  let (buf, acked) ← encodeAckRanges pending buf first reservation space
  let buf ← encodeEcn buf ecn
  if buf.length > b.limit then
    throw .assertion
  .ok ({ b with bytes := buf }, acked)

/-- Generate an ACK frame for this packet number space. `tokens` are the `Ack` tokens: the ranges
of each frame written. -/
def writeFrame (now rtt : ℕ) (b : Builder) (tokens : List (List PacketRange)) :
    Except Failure (RecvdPackets × Builder × List (List PacketRange)) :=
  -- Check that we aren't delaying ACKs.
  if !r.ackNow now rtt then .ok (r, b, tokens)
  else
    match r.ranges.filter (·.ackNeeded), r.largestPnTime with
    | first :: pending, some largestPnTime =>
      let ackDelay := encodedAckDelay (now - largestPnTime)
      let frameType := ackFrameType r.ecn
      let fixedLen := fixedLen frameType first ackDelay r.ecn
      if b.remaining < fixedLen then .ok (r, b, tokens)
      else do
        let (b, acked) ← encodeAckFrame b frameType first pending ackDelay r.ecn
          (b.remaining - fixedLen)
        -- We've sent an ACK, reset the timer.
        .ok ({ r with ackTime := none, lastAckTime := some now, unacknowledgedCount := 0 }, b,
          tokens ++ [acked])
    | _, _ => .ok (r, b, tokens)

end RecvdPackets

end Neqo
