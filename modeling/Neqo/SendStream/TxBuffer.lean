import Neqo.Codec
import Neqo.Util.OrdMap

/-!
# Range tracking for sent stream data

`RangeTracker` records which bytes of a stream have been sent and which have been acknowledged.
Offsets and lengths are natural numbers; `RangeTracker.Reachable.fits` shows that they stay
within 64 bits as long as the ranges that are passed in do.
-/

namespace Neqo

/-- What a tracked range is known to be. -/
inductive RangeState where
  | sent
  | acked
  deriving DecidableEq, Repr

/-- Start offset to length and state. -/
abbrev RangeMap := OrdMap ℕ (ℕ × RangeState)

/-- Track ranges in the stream as sent or acked. Acked implies sent. Not in a range implies
needing to be sent, either initially or as a retransmission. -/
structure RangeTracker where
  /-- The number of bytes that have been acknowledged starting from offset 0. -/
  acked : ℕ := 0
  /-- The state of ranges: start offset to length and state. -/
  used : RangeMap := OrdMap.empty
  /-- A cache for the output of `firstUnmarkedRange`. -/
  firstUnmarked : Option (ℕ × Option ℕ) := none
  deriving DecidableEq

namespace RangeTracker

variable (t : RangeTracker)

def highestOffset : ℕ :=
  match t.used.last? with
  | some (k, (v, _)) => k + v
  | none => t.acked

def ackedFromZero : ℕ := t.acked

/-- The loop of `firstUnmarkedRange`: walk the ranges while they are contiguous. -/
def scanUnmarked (prevEnd : ℕ) : List (ℕ × (ℕ × RangeState)) → ℕ × Option ℕ
  | [] => (prevEnd, none)
  | (curOff, (curLen, _)) :: rest =>
    if prevEnd = curOff then scanUnmarked (curOff + curLen) rest
    else (prevEnd, some (curOff - prevEnd))

/-- Find the first unmarked range. If all are contiguous, this returns
`(highestOffset, none)`. -/
def firstUnmarkedRange : RangeTracker × (ℕ × Option ℕ) :=
  match t.firstUnmarked with
  | some r => (t, r)
  | none =>
    let res := scanUnmarked t.acked t.used.entries
    ({ t with firstUnmarked := some res }, res)

/-- The loop of `coalesceAcked`. The list is what is left of `used`, so that its head is the
first entry of the map. -/
def coalesceLoop : List (ℕ × (ℕ × RangeState)) → RangeTracker → RangeTracker
  | [], t => t
  | (off, (len, state)) :: rest, t =>
    if off < t.acked then
      let used := t.used.remove off
      let overflow := (off + len) - t.acked
      if overflow > 0 then
        if state = .acked then
          { t with used := used, acked := t.acked + overflow }
        else
          { t with used := used.insert t.acked (overflow, state) }
      else
        coalesceLoop rest { t with used := used }
    else if off = t.acked then
      if state = .acked then
        { t with used := t.used.remove off, acked := t.acked + len }
      else t
    else t

/-- When the range of acknowledged bytes from zero increases, drop any ranges within that span
and maybe extend it to include an adjacent acknowledged range. -/
def coalesceAcked : RangeTracker := coalesceLoop t.used.entries t

/-- The first half of `markAcked` beyond the acknowledged prefix: absorb or cut what follows the
new range and drop what it covers. Returns the map and the new end. -/
def absorbFollowing (used : RangeMap) (newOff newEnd : ℕ) : RangeMap × ℕ :=
  let covered := (used.range newOff newEnd).map Prod.fst
  match used.get? newEnd with
  | some (extraLen, .acked) => ((used.remove newEnd).removeAll covered, newEnd + extraLen)
  | some (_, .sent) => (used.removeAll covered, newEnd)
  | none =>
    match (used.range newOff newEnd).getLast? with
    | none => (used.removeAll covered, newEnd)
    | some (oldOff, (oldLen, oldState)) =>
      let used := used.remove oldOff
      let remainder := (oldOff + oldLen) - newEnd
      if remainder > 0 then
        if oldState = .acked then
          (used.removeAll covered.dropLast, newEnd + remainder)
        else
          ((used.insert newEnd (remainder, .sent)).removeAll covered.dropLast, newEnd)
      else (used.removeAll covered.dropLast, newEnd)

/-- The second half: merge with a preceding acked range or cut a preceding sent range. -/
def mergePreceding (used : RangeMap) (newOff newEnd : ℕ) : RangeMap :=
  match used.lastBelow newOff with
  | none => used.insert newOff (newEnd - newOff, .acked)
  | some (prevOff, (prevLen, prevState)) =>
    let prevEnd := prevOff + prevLen
    if prevEnd ≥ newOff then
      if prevState = .sent then
        let used := used.insert prevOff (newOff - prevOff, .sent)
        let used :=
          if prevEnd > newEnd then used.insert newEnd (prevEnd - newEnd, .sent) else used
        used.insert newOff (newEnd - newOff, .acked)
      else used.insert prevOff (max prevEnd newEnd - prevOff, prevState)
    else used.insert newOff (newEnd - newOff, .acked)

/-- Mark a range as acknowledged. An acknowledged range can never turn back into a sent range,
so this overrides the entire range. -/
def markAcked (newOff newLen : ℕ) : RangeTracker :=
  let stop := newOff + newLen
  let newOff := max t.acked newOff
  let newLen := stop - newOff
  if newLen = 0 then t
  else if newOff = t.acked then
    coalesceAcked { t with firstUnmarked := none, acked := t.acked + newLen }
  else
    let (used, newEnd) := absorbFollowing t.used newOff (newOff + newLen)
    { t with firstUnmarked := none, used := mergePreceding used newOff newEnd }

/-- The first step of `markSent`: merge with the very next entry if it is of the same type. -/
def mergeNext (used : RangeMap) (newEnd newLen : ℕ) : RangeMap × ℕ :=
  match used.get? newEnd with
  | some (extraLen, .sent) => (used.remove newEnd, newLen + extraLen)
  | _ => (used, newLen)

/-- The loop of `markSent` over the ranges that start within the new one: interleave new sent
chunks with the acked chunks that exist already. -/
def interleaveSent (used : RangeMap) (newOff newLen : ℕ) : List ℕ → RangeMap
  | [] => used.insert newOff (newLen, .sent)
  | oldOff :: rest =>
    match used.get? oldOff with
    | none => used -- unreachable: covered ranges stay in the map until they are visited
    | some (oldLen, .acked) =>
      let chunkLen := oldOff - newOff
      let used := if chunkLen > 0 then used.insert newOff (chunkLen, .sent) else used
      let included := chunkLen + oldLen
      if newLen - included = 0 then used
      else interleaveSent used (newOff + included) (newLen - included) rest
    | some (oldLen, .sent) =>
      let overhang := (oldOff + oldLen) - (newOff + newLen)
      let used := if oldOff ≠ newOff then used.remove oldOff else used
      interleaveSent used newOff (newLen + overhang) rest

/-- Turn a single sent range into a list of subranges that align with the acknowledged ranges
that exist already, which are kept in place. -/
def markSent (newOff newLen : ℕ) : RangeTracker :=
  let newEnd := newOff + newLen
  let newOff := max t.acked newOff
  let newLen := newEnd - newOff
  if newLen = 0 then t
  else
    let covered := (t.used.range newOff (newOff + newLen)).map Prod.fst
    let (used, newLen) := mergeNext t.used newEnd newLen
    -- Merge with a preceding sent range, or cut the head if the preceding range is acked.
    match used.lastBelow newOff with
    | some (prevOff, (prevLen, prevState)) =>
      if prevOff + prevLen ≥ newOff then
        let overlap := prevOff + prevLen - newOff
        let newLen := newLen - overlap
        if newLen = 0 then { t with firstUnmarked := none, used := used }
        else if prevState = .acked then
          { t with firstUnmarked := none,
                   used := interleaveSent used (newOff + overlap) newLen covered }
        else
          { t with firstUnmarked := none,
                   used := interleaveSent used prevOff (newLen + prevLen) covered }
      else
        { t with firstUnmarked := none, used := interleaveSent used newOff newLen covered }
    | none => { t with firstUnmarked := none, used := interleaveSent used newOff newLen covered }

/-- What the loop of `unmarkRange` accumulates. -/
structure UnmarkAcc where
  used : RangeMap
  toRemove : List ℕ := []
  toAdd : Option (ℕ × ℕ × RangeState) := none
  unmarked : Bool := false

/-- The loop of `unmarkRange`, backwards through the ranges that start below `endOff`. -/
def unmarkLoop (off endOff : ℕ) : List (ℕ × (ℕ × RangeState)) → UnmarkAcc → UnmarkAcc
  | [], acc => acc
  | (curOff, (curLen, curState)) :: rest, acc =>
    let curEndOff := curOff + curLen
    -- Only the last range examined can start below `off`, and it keeps its head.
    let head := decide (curOff < off)
    if head ∧ curEndOff ≤ off then acc
    else
      let acc :=
        if curState = .acked then acc
        else
          let acc :=
            if curEndOff > endOff then
              { acc with toAdd := some (endOff, curEndOff - endOff, curState) }
            else acc
          if head then
            { acc with used := acc.used.insert curOff (off - curOff, curState), unmarked := true }
          else { acc with toRemove := acc.toRemove ++ [curOff] }
      if head then acc else unmarkLoop off endOff rest acc

/-- Carry out the removals and the addition that the loop has collected. -/
def UnmarkAcc.apply (acc : UnmarkAcc) : RangeMap :=
  let used := acc.used.removeAll acc.toRemove
  match acc.toAdd with
  | some (newCurOff, newCurLen, curState) => used.insert newCurOff (newCurLen, curState)
  | none => used

/-- Unmark the sent bytes of a range. Returns whether any range was actually unmarked. -/
def unmarkRange (off len : ℕ) : RangeTracker × Bool :=
  if len = 0 then (t, false)
  else
    let endOff := off + len
    let acc := unmarkLoop off endOff (t.used.rangeBelow endOff).reverse { used := t.used }
    let unmarked := acc.unmarked || !acc.toRemove.isEmpty
    ({ t with firstUnmarked := none, used := acc.apply }, unmarked)

/-- Unmark all sent ranges. Returns whether any range was actually unmarked. -/
def unmarkSent : RangeTracker × Bool := t.unmarkRange 0 t.highestOffset

end RangeTracker

/-!
## Send buffer

`TxBuffer` holds the bytes of a stream that have not been acknowledged contiguously from the start,
together with the ranges that have been sent or acknowledged.
-/

/-- Buffer to contain queued bytes and track their state. -/
structure TxBuffer where
  /-- Buffer of not-acked bytes. -/
  sendBuf : Bytes := []
  /-- Ranges in buffer that have been sent or acked. -/
  ranges : RangeTracker := {}
  deriving DecidableEq

namespace TxBuffer

/-- The maximum stream send buffer size. -/
def maxSize : ℕ := 10 * 1024 * 1024

variable (b : TxBuffer)

def retired : ℕ := b.ranges.ackedFromZero

def buffered : ℕ := b.sendBuf.length

def avail : ℕ := maxSize - b.buffered

def used : ℕ := b.retired + b.buffered

/-- Attempt to add some or all of the passed-in buffer to the `TxBuffer`. -/
def send (buf : Bytes) : TxBuffer × ℕ :=
  let canBuffer := min (maxSize - b.buffered) buf.length
  ({ b with sendBuf := b.sendBuf ++ buf.take canBuffer }, canBuffer)

def firstUnmarkedRange : TxBuffer × Option (ℕ × Option ℕ) :=
  let (ranges, start, maybeLen) := b.ranges.firstUnmarkedRange
  let b := { b with ranges := ranges }
  (b, if start ≠ b.retired + b.buffered then some (start, maybeLen) else none)

def hasNextBytes : TxBuffer × Bool :=
  let (b, r) := b.firstUnmarkedRange
  (b, r.isSome)

/-- Whether there are unsent bytes before `limit`. -/
def hasNextBytesBefore (limit : ℕ) : TxBuffer × Bool :=
  let (b, r) := b.firstUnmarkedRange
  (b, match r with | some (start, _) => start < limit | none => false)

/-- The first unmarked bytes and their offset. The buffer is a ring buffer that is accessed as two
slices; `split` is the length of the first one, which depends on where the ring happens to wrap. -/
def nextBytes (split : ℕ) : TxBuffer × Option (ℕ × Bytes) :=
  let (b, r) := b.firstUnmarkedRange
  match r with
  | none => (b, none)
  | some (start, maybeLen) =>
    let first := b.sendBuf.take split
    let second := b.sendBuf.drop split
    -- Convert from ranges-relative-to-zero to ranges-relative-to-buffer-start.
    let buffOff := start - b.retired
    let slc :=
      if buffOff < first.length then first.drop buffOff else second.drop (buffOff - first.length)
    let len :=
      match maybeLen with
      | some rangeLen => min rangeLen slc.length
      | none => slc.length
    (b, some (start, slc.take len))

def markAsSent (offset len : ℕ) : TxBuffer :=
  { b with ranges := b.ranges.markSent offset len }

/-- Mark bytes as acknowledged. Any newly-retired bytes are dropped from the buffer. -/
def markAsAcked (offset len : ℕ) : TxBuffer :=
  let prevRetired := b.retired
  let b := { b with ranges := b.ranges.markAcked offset len }
  let newRetirable := b.retired - prevRetired
  { b with sendBuf := b.sendBuf.drop newRetirable }

def markAsLost (offset len : ℕ) : TxBuffer :=
  { b with ranges := (b.ranges.unmarkRange offset len).1 }

end TxBuffer

end Neqo
