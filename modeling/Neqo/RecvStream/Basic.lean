import Neqo.FlowControl
import Neqo.Util.IntervalMap

/-!
# Reassembly of received stream data

`RxStreamOrderer` holds the data of a stream that has been received but not been read yet. Stream
offsets are bounded by 2^62 - 1 when frames are decoded, so no sum of an offset and a length wraps
and natural numbers stand for both.
-/

namespace Neqo

/-- Orders received data by stream offset. -/
structure RxStreamOrderer where
  /-- Start offset to data. -/
  dataRanges : OrdMap ℕ Bytes := OrdMap.empty
  /-- Number of bytes the application has read. -/
  retired : ℕ := 0
  /-- The number of bytes that were added to `dataRanges`; reading does not reduce it, and bytes of
  ranges that are replaced count again. -/
  received : ℕ := 0
  /-- Exclusive end offset of the rightmost received range (the end of the last entry in
  `dataRanges`, or `retired` if the map is empty). -/
  endOff : ℕ := 0
  deriving DecidableEq

namespace RxStreamOrderer

/-- Target maximum length of a buffered range before a new entry is created instead of
extending. -/
def rangeTarget : ℕ := 4096

/-- Maximum number of gaps allowed in the data a stream holds. -/
def maxGaps : ℕ := 4096

variable (o : RxStreamOrderer)

/-- Limit the entries a stream can be made to hold, which flow control does not. -/
def checkGapLimit : Res :=
  let span := o.endOff - o.retired
  let needed := span / rangeTarget
  if o.dataRanges.len > maxGaps + needed then .error .protocolViolation else .ok ()

/-- Add a range, which is the only thing that can take the entry count over the limit. -/
def insertRange (start : ℕ) (data : Bytes) : RxStreamOrderer × Res :=
  let o := { o with dataRanges := o.dataRanges.insert start data }
  (o, o.checkGapLimit)

variable (newStart : ℕ)

variable (newData : Bytes)

/-- The common case of `inboundFrame`: the frame starts at or after the end of what is held. -/
def appendFrame : RxStreamOrderer × Res :=
  let adjacent := newStart = o.endOff
  let o' := { o with received := o.received + newData.length, endOff := newStart + newData.length }
  match o.dataRanges.last? with
  | some (lastStart, lastData) =>
    if adjacent ∧ lastData.length < rangeTarget then
      ({ o' with dataRanges := o.dataRanges.insert lastStart (lastData ++ newData) }, .ok ())
    else o'.insertRange newStart newData
  | none => o'.insertRange newStart newData

/-- The loop of `inboundFrame` over the ranges that follow the new one: what is left to add of the
new data, and which ranges it replaces. -/
def scanFollowing (newData : Bytes) (newEnd : ℕ) : List (ℕ × Bytes) → List ℕ → Bytes × List ℕ
  | [], toRemove => (newData, toRemove)
  | (nextStart, nextData) :: rest, toRemove =>
    let nextEnd := nextStart + nextData.length
    let overlap := newEnd - nextStart
    if overlap = 0 then (newData, toRemove)
    else if nextEnd ≥ newEnd then (newData.take (newData.length - overlap), toRemove)
    else scanFollowing newData newEnd rest (toRemove ++ [nextStart])

/-- The last step of `inboundFrame`: store what is left of the new data, by extending the range
before it (and absorbing the one after it) or as a range of its own. -/
def storeFrame (newEnd : ℕ) (toAdd : Bytes) (extend : Option (ℕ × ℕ)) : RxStreamOrderer × Res :=
  if toAdd.isEmpty then (o, .ok ())
  else
    let o :=
      { o with received := o.received + toAdd.length, endOff := max o.endOff newEnd }
    match extend with
    | some (prevStart, prevLen) =>
      let addEnd := newStart + toAdd.length
      let (ranges, next) :=
        match o.dataRanges.get? addEnd with
        | some n =>
          if prevLen + toAdd.length + n.length ≤ rangeTarget then (o.dataRanges.remove addEnd, n)
          else (o.dataRanges, [])
        | none => (o.dataRanges, [])
      match ranges.get? prevStart with
      | some buf => ({ o with dataRanges := ranges.insert prevStart (buf ++ toAdd ++ next) },
          .ok ())
      | none => ({ o with dataRanges := ranges }, .ok ())
    | none => o.insertRange newStart toAdd

/-- Retransmission or overlap: the frame starts before the end of what is held. -/
def overlapFrame (extend : Option (ℕ × ℕ)) : RxStreamOrderer × Res :=
  -- Trimming what is held already from the front has not moved the end of the frame.
  let newEnd := newStart + newData.length
  let (toAdd, toRemove) :=
    match o.dataRanges.last? with
    | some (lastStart, _) =>
      if lastStart ≥ newStart then
        scanFollowing newData newEnd (o.dataRanges.rangeFrom newStart) []
      else (newData, [])
    | none => (newData, [])
  let o := { o with dataRanges := o.dataRanges.removeAll toRemove }
  o.storeFrame newStart newEnd toAdd extend

/-- The part of `inboundFrame` that places data at or above `retired`. -/
def placeFrame : RxStreamOrderer × Res :=
  let newEnd := newStart + newData.length
  if newData.isEmpty then (o, .ok ())
  else if newStart ≥ o.endOff then o.appendFrame newStart newData
  else
    match o.dataRanges.lastAtMost newStart with
    | some (prevStart, prevVec) =>
      let prevLen := prevVec.length
      let prevEnd := prevStart + prevLen
      if newEnd > prevEnd then
        -- Add a range containing only new data.
        let overlap := prevEnd - newStart
        let newStart := newStart + overlap
        let newData := newData.drop overlap
        let extend :=
          if prevLen < rangeTarget ∧ prevEnd = newStart then some (prevStart, prevLen) else none
        o.overlapFrame newStart newData extend
      else (o, .ok ())
    | none => o.overlapFrame newStart newData none

/-- Process an incoming stream frame off the wire. This may result in data being available to
upper layers if the frame is not out of order or if it fills a gap. -/
def inboundFrame : RxStreamOrderer × Res :=
  let newEnd := newStart + newData.length
  if newEnd ≤ o.retired then
    -- Range already read by application, this frame is very late and unneeded.
    (o, .ok ())
  else if newStart < o.retired then
    o.placeFrame o.retired (newData.drop (o.retired - newStart))
  else o.placeFrame newStart newData

/-- The fold of `bytesReady`. -/
def readyLoop (retired : ℕ) : ℕ → List (ℕ × Bytes) → ℕ
  | _, [] => 0
  | prevEnd, (startOffset, data) :: rest =>
    -- Ranges don't overlap but some of the first entry's data may be retired already.
    let dataLen := data.length - (retired - startOffset)
    if startOffset ≤ prevEnd then dataLen + readyLoop retired (prevEnd + dataLen) rest else 0

/-- How many bytes are readable? -/
def bytesReady : ℕ := readyLoop o.retired o.retired o.dataRanges.entries

/-- Discard any buffered data at or beyond `offset`, truncating a range that straddles it. -/
def discardAfter (offset : ℕ) : RxStreamOrderer :=
  let ranges := o.dataRanges.splitBelow offset
  match ranges.last? with
  | some (start, data) =>
    let data := data.take (offset - start)
    { o with dataRanges := ranges.insert start data, endOff := start + data.length }
  | none => { o with dataRanges := ranges, endOff := o.retired }

/-- Data bytes buffered. Could be more than `bytesReady` if there are ranges missing. -/
def buffered : ℕ :=
  (o.dataRanges.entries.map fun (start, data) => data.length - (o.retired - start)).sum

/-- The loop of `read`, with the bytes copied so far. -/
def readLoop (bufLen : ℕ) : List (ℕ × Bytes) → RxStreamOrderer → Bytes → RxStreamOrderer × Bytes
  | [], o, copied => ({ o with dataRanges := OrdMap.empty, endOff := o.retired }, copied)
  | (rangeStart, rangeData) :: rest, o, copied =>
    if o.retired ≥ rangeStart then
      -- Frame data has new contiguous bytes.
      let copyOffset := o.retired - rangeStart
      let available := rangeData.length - copyOffset
      let space := bufLen - copied.length
      let keep := available > space
      let copyBytes := if keep then space else available
      let copied := copied ++ (rangeData.drop copyOffset).take copyBytes
      let o := { o with retired := o.retired + copyBytes }
      if keep then ({ o with dataRanges := o.dataRanges.splitFrom rangeStart }, copied)
      else readLoop bufLen rest o copied
    else
      -- The data in the buffer isn't contiguous.
      ({ o with dataRanges := o.dataRanges.splitFrom rangeStart }, copied)

/-- Copy received data (if any) into a buffer of `bufLen` bytes. Returns the bytes copied. -/
def read (bufLen : ℕ) : RxStreamOrderer × Bytes :=
  readLoop bufLen o.dataRanges.entries o []

/-- Read everything that is available. -/
def readToEnd : RxStreamOrderer × Bytes := o.read o.bytesReady

end RxStreamOrderer

/-!
## Receiving streams

A `RecvStream` shares the flow control of the connection (`sessionFc`) with the other streams, so
the functions that use it take it as an argument and return it. A method that can fail returns the
state in which it leaves its receiver next to its result. The events that a stream raises for the
application and its keep-alive token are left out: no function here reads them.
-/

/-- QUIC receiving states. -/
inductive RecvStreamState where
  | recv (fc : StreamFc) (recvBuf : RxStreamOrderer)
  | sizeKnown (fc : StreamFc) (recvBuf : RxStreamOrderer)
  /-- A `RESET_STREAM_AT` has been received: the final size is known and the reliable prefix must be
  delivered before the reset is surfaced. Data at or beyond `reliableSize` is dropped. -/
  | sizeKnownAt (fc : StreamFc) (recvBuf : RxStreamOrderer)
      (err finalSize reliableSize : ℕ)
  | dataRecvd (fc : StreamFc) (recvBuf : RxStreamOrderer)
  | dataRead (finalReceived finalRead : ℕ)
  | abortReading (fc : StreamFc) (finalSizeReached frameNeeded : Bool)
      (err finalReceived finalRead : ℕ)
  | waitForReset (fc : StreamFc) (finalReceived finalRead : ℕ)
  | resetRecvd (finalReceived finalRead : ℕ)
  deriving DecidableEq

/-- A QUIC receive stream. -/
structure RecvStream where
  streamId : StreamId
  state : RecvStreamState
  deriving DecidableEq

/-- Retire `newRead` bytes of a stream, at the level of the stream and of the connection. -/
def RecvStream.flowControlRetireData (newRead : ℕ) (fc : StreamFc) (sessionFc : SessionFc) :
    StreamFc × SessionFc :=
  if newRead > 0 then (fc.addRetired newRead, sessionFc.addRetired newRead) else (fc, sessionFc)

namespace RecvStreamState

def new (maxBytes : ℕ) (streamId : StreamId) : RecvStreamState :=
  .recv (ReceiverFlowControl.new streamId maxBytes) {}

/-- The flow control of the stream, in the states that hold it. -/
def fc : RecvStreamState → Option StreamFc
  | recv fc _ => some fc
  | sizeKnown fc _ => some fc
  | sizeKnownAt fc _ _ _ _ => some fc
  | dataRecvd fc _ => some fc
  | abortReading fc _ _ _ _ _ => some fc
  | waitForReset fc _ _ => some fc
  | dataRead _ _ => none
  | resetRecvd _ _ => none

/-- Replace the flow control of the stream, in the states that hold it. -/
def setFc (fc : StreamFc) : RecvStreamState → RecvStreamState
  | recv _ recvBuf => recv fc recvBuf
  | sizeKnown _ recvBuf => sizeKnown fc recvBuf
  | sizeKnownAt _ recvBuf err finalSize reliableSize =>
    sizeKnownAt fc recvBuf err finalSize reliableSize
  | dataRecvd _ recvBuf => dataRecvd fc recvBuf
  | abortReading _ finalSizeReached frameNeeded err finalReceived finalRead =>
    abortReading fc finalSizeReached frameNeeded err finalReceived finalRead
  | waitForReset _ finalReceived finalRead => waitForReset fc finalReceived finalRead
  | s => s

/-- Whether the final size of the stream is known. -/
def finalSizeReached : RecvStreamState → Bool
  | recv _ _ => false
  | waitForReset _ _ _ => false
  | abortReading _ finalSizeReached _ _ _ _ => finalSizeReached
  | _ => true

/-- Whether data that arrives is retired at once, because the stream has been aborted. -/
def retireData : RecvStreamState → Bool
  | abortReading _ _ _ _ _ _ => true
  | waitForReset _ _ _ => true
  | _ => false

/-- An aborted stream remembers that it has seen the final size. -/
def noteFin (fin : Bool) : RecvStreamState → RecvStreamState
  | abortReading fc finalSizeReached frameNeeded err finalReceived finalRead =>
    abortReading fc (finalSizeReached || fin) frameNeeded err finalReceived finalRead
  | s => s

/-- Whether data that ends at `consumed` agrees with what is known of the final size. -/
def finalSizeOk (fin finalSizeReached : Bool) (consumed fcConsumed : ℕ) : Bool :=
  match fin, finalSizeReached with
  | true, true => consumed = fcConsumed
  | false, true => consumed ≤ fcConsumed
  | true, false => consumed ≥ fcConsumed
  | false, false => true

/-- Charge the stream and the connection for data up to the offset `consumed`. -/
def flowControlConsumeData (s : RecvStreamState) (sessionFc : SessionFc)
    (consumed : ℕ) (fin : Bool) : RecvStreamState × SessionFc × Res :=
  match s.fc with
  | none => (s, sessionFc, .ok ())
  | some fc =>
    let s' := s.noteFin fin
    if finalSizeOk fin s.finalSizeReached consumed fc.consumed then
      match fc.setConsumed consumed with
      | .error e => (s', sessionFc, .error e)
      | .ok (fc, newBytesConsumed) =>
        match sessionFc.consume newBytesConsumed with
        | .error e => (s'.setFc fc, sessionFc, .error e)
        | .ok sessionFc =>
          if s.retireData then
            let (fc, sessionFc) :=
              RecvStream.flowControlRetireData (fc.consumed - fc.retired) fc sessionFc
            (s'.setFc fc, sessionFc, .ok ())
          else (s'.setFc fc, sessionFc, .ok ())
    else (s', sessionFc, .error .finalSize)

/-- The state of a stream whose final size is known, which depends on whether everything up to it
has been received. -/
def withFinalSize (fc : StreamFc) (recvBuf : RxStreamOrderer) : RecvStreamState :=
  if fc.consumed = recvBuf.retired + recvBuf.bytesReady then dataRecvd fc recvBuf
  else sizeKnown fc recvBuf

/-- The part of `inboundStreamFrame` that stores the data. -/
def receiveData (s : RecvStreamState) (fin : Bool) (offset : ℕ) (data : Bytes) :
    RecvStreamState × Res :=
  match s with
  | recv fc recvBuf =>
    let (recvBuf, r) := recvBuf.inboundFrame offset data
    match r with
    | .error e => (recv fc recvBuf, .error e)
    | .ok () =>
      if fin then (withFinalSize fc recvBuf, .ok ()) else (recv fc recvBuf, .ok ())
  | sizeKnown fc recvBuf =>
    let (recvBuf, r) := recvBuf.inboundFrame offset data
    match r with
    | .error e => (sizeKnown fc recvBuf, .error e)
    | .ok () => (withFinalSize fc recvBuf, .ok ())
  | sizeKnownAt fc recvBuf err finalSize reliableSize =>
    -- Buffer the reliable prefix; completion is driven by `read`, not by frame arrival.
    let keep := reliableSize - offset
    if keep > 0 then
      let (recvBuf, r) := recvBuf.inboundFrame offset (data.take keep)
      (sizeKnownAt fc recvBuf err finalSize reliableSize, r)
    else (s, .ok ())
  | s => (s, .ok ())

end RecvStreamState

namespace RecvStream

open RecvStreamState

def new (streamId : StreamId) (maxStreamData : ℕ) : RecvStream :=
  { streamId := streamId, state := RecvStreamState.new maxStreamData streamId }

variable (s : RecvStream) (sessionFc : SessionFc)

/-- Process a `STREAM` frame. -/
def inboundStreamFrame (fin : Bool) (offset : ℕ) (data : Bytes) : RecvStream × SessionFc × Res :=
  let newEnd := offset + data.length
  let (state, sessionFc, r) := s.state.flowControlConsumeData sessionFc newEnd fin
  match r with
  | .error e => ({ s with state := state }, sessionFc, .error e)
  | .ok () =>
    let (state, r) := state.receiveData fin offset data
    ({ s with state := state }, sessionFc, r)

/-- On a reliable reset, retire the flow control for everything that will never be delivered, i.e.
all but the still-unread reliable prefix. `read` is how much the application has read so far. -/
def retireUndeliverable (finalSize reliableSize read : ℕ) (fc : StreamFc) (sessionFc : SessionFc) :
    StreamFc × SessionFc :=
  let stillNeeded := reliableSize - read
  let targetRetired := finalSize - stillNeeded
  flowControlRetireData (targetRetired - fc.retired) fc sessionFc

/-- Finalize a reset: release any flow control still held up to `finalSize` and move to
`resetRecvd`. -/
def finishReset (finalSize finalReceived finalRead : ℕ) : RecvStream × SessionFc :=
  let sessionFc :=
    match s.state with
    | .sizeKnownAt fc _ _ _ _ => (flowControlRetireData (finalSize - fc.retired) fc sessionFc).2
    | .abortReading fc _ _ _ _ _ => (flowControlRetireData (finalSize - fc.retired) fc sessionFc).2
    | .waitForReset fc _ _ => (flowControlRetireData (finalSize - fc.retired) fc sessionFc).2
    | _ => sessionFc
  ({ s with state := .resetRecvd finalReceived finalRead }, sessionFc)

/-- While in `sizeKnownAt`, once the application has read the entire reliable prefix, release the
remaining flow control and move to `resetRecvd`. Returns whether the stream ended. -/
def completeReliableResetIfDrained : RecvStream × SessionFc × Bool :=
  match s.state with
  | .sizeKnownAt _ recvBuf _ finalSize reliableSize =>
    if recvBuf.retired < reliableSize then (s, sessionFc, false)
    else
      let (s, sessionFc) := s.finishReset sessionFc finalSize recvBuf.received recvBuf.retired
      (s, sessionFc, true)
  | _ => (s, sessionFc, false)

/-- Move to `sizeKnownAt`, or on to `resetRecvd`, with the given reliable size. -/
def settleReset (fc : StreamFc) (recvBuf : RxStreamOrderer) (err finalSize reliableSize : ℕ) :
    RecvStream × SessionFc × Except Error Bool :=
  -- Keep the buffered reliable prefix; drop anything at or beyond `reliableSize`.
  let recvBuf := recvBuf.discardAfter reliableSize
  -- Only the still-unread prefix keeps its credit.
  let (fc, sessionFc) := retireUndeliverable finalSize reliableSize recvBuf.retired fc sessionFc
  let s := { s with state := .sizeKnownAt fc recvBuf err finalSize reliableSize }
  let (s, sessionFc, ended) := s.completeReliableResetIfDrained sessionFc
  (s, sessionFc, .ok ended)

/-- The part of `reset` after the final size has been charged. -/
def applyReset (applicationErrorCode finalSize reliableSize : ℕ) :
    RecvStream × SessionFc × Except Error Bool :=
  match s.state with
  | .recv fc recvBuf =>
    s.settleReset sessionFc fc recvBuf applicationErrorCode finalSize reliableSize
  | .sizeKnown fc recvBuf =>
    s.settleReset sessionFc fc recvBuf applicationErrorCode finalSize reliableSize
  | .sizeKnownAt fc recvBuf err finalSize stored =>
    -- `reliableSize` may only be reduced (increases are ignored).
    if applicationErrorCode ≠ err then (s, sessionFc, .error .streamState)
    else if reliableSize < stored then
      s.settleReset sessionFc fc recvBuf err finalSize reliableSize
    else (s, sessionFc, .ok false)
  -- The application abandoned the read side, so the reliable prefix is not needed.
  | .abortReading _ _ _ _ finalReceived finalRead =>
    let (s, sessionFc) := s.finishReset sessionFc finalSize finalReceived finalRead
    (s, sessionFc, .ok true)
  | .waitForReset _ finalReceived finalRead =>
    let (s, sessionFc) := s.finishReset sessionFc finalSize finalReceived finalRead
    (s, sessionFc, .ok true)
  | _ => (s, sessionFc, .ok false)

/-- Handle a `RESET_STREAM` or `RESET_STREAM_AT` frame. Returns `true` when the stream reaches
`resetRecvd`. -/
def reset (applicationErrorCode finalSize reliableSize : ℕ) :
    RecvStream × SessionFc × Except Error Bool :=
  if reliableSize > finalSize then (s, sessionFc, .error .frameEncoding)
  else
    -- Catches a changed final size.
    let (state, sessionFc, r) := s.state.flowControlConsumeData sessionFc finalSize true
    match r with
    | .error e => ({ s with state := state }, sessionFc, .error e)
    | .ok () =>
      { s with state := state }.applyReset sessionFc applicationErrorCode finalSize reliableSize

def isEnded : Bool :=
  match s.state with
  | .resetRecvd _ _ => true
  | .dataRead _ _ => true
  | _ => false

/-- Read up to `bufLen` bytes. Returns the bytes and whether they are the last ones. -/
def read (bufLen : ℕ) : RecvStream × SessionFc × Except Error (Bytes × Bool) :=
  match s.state with
  | .recv fc recvBuf =>
    let (recvBuf, bytes) := recvBuf.read bufLen
    let (fc, sessionFc) := flowControlRetireData bytes.length fc sessionFc
    ({ s with state := .recv fc recvBuf }, sessionFc, .ok (bytes, false))
  | .sizeKnown fc recvBuf =>
    let (recvBuf, bytes) := recvBuf.read bufLen
    let (fc, sessionFc) := flowControlRetireData bytes.length fc sessionFc
    ({ s with state := .sizeKnown fc recvBuf }, sessionFc, .ok (bytes, false))
  | .dataRecvd fc recvBuf =>
    let (recvBuf, bytes) := recvBuf.read bufLen
    let (fc, sessionFc) := flowControlRetireData bytes.length fc sessionFc
    if recvBuf.buffered = 0 then
      ({ s with state := .dataRead recvBuf.received recvBuf.retired }, sessionFc, .ok (bytes, true))
    else ({ s with state := .dataRecvd fc recvBuf }, sessionFc, .ok (bytes, false))
  | .sizeKnownAt fc recvBuf err finalSize reliableSize =>
    let (recvBuf, bytes) := recvBuf.read bufLen
    let (fc, sessionFc) := flowControlRetireData bytes.length fc sessionFc
    let s := { s with state := .sizeKnownAt fc recvBuf err finalSize reliableSize }
    -- A reliable reset never delivers a FIN.
    let (s, sessionFc, _) := s.completeReliableResetIfDrained sessionFc
    (s, sessionFc, .ok (bytes, false))
  | _ => (s, sessionFc, .error .noMoreData)

/-- The transition of a stream whose reading is abandoned to `abortReading`. -/
def abort (fc : StreamFc) (recvBuf : RxStreamOrderer) (err : ℕ) : RecvStream × SessionFc :=
  let finalSizeReached := s.state.finalSizeReached
  let (fc, sessionFc) := flowControlRetireData (fc.consumed - fc.retired) fc sessionFc
  ({ s with state :=
      .abortReading fc finalSizeReached true err recvBuf.received recvBuf.retired }, sessionFc)

/-- Abandon reading. Returns `true` if the stream has ended. -/
def stopSending (err : ℕ) : RecvStream × SessionFc × Bool :=
  match s.state with
  | .recv fc recvBuf =>
    let (s, sessionFc) := s.abort sessionFc fc recvBuf err
    (s, sessionFc, false)
  | .sizeKnown fc recvBuf =>
    let (s, sessionFc) := s.abort sessionFc fc recvBuf err
    (s, sessionFc, false)
  | .dataRecvd fc recvBuf =>
    let (_, sessionFc) := flowControlRetireData (fc.consumed - fc.retired) fc sessionFc
    ({ s with state := .dataRead recvBuf.received recvBuf.retired }, sessionFc, true)
  | .sizeKnownAt _ recvBuf _ finalSize _ =>
    -- The application is abandoning the (not fully delivered) reliable prefix.
    let (s, sessionFc) := s.finishReset sessionFc finalSize recvBuf.received recvBuf.retired
    (s, sessionFc, true)
  | _ => (s, sessionFc, false)

def stopSendingLost : RecvStream :=
  match s.state with
  | .abortReading fc finalSizeReached _ err finalReceived finalRead =>
    { s with state := .abortReading fc finalSizeReached true err finalReceived finalRead }
  | _ => s

/-- Returns `true` if the stream ended because the final size was already known. -/
def stopSendingAcked : RecvStream × Bool :=
  match s.state with
  | .abortReading fc finalSizeReached _ _ finalReceived finalRead =>
    if finalSizeReached then ({ s with state := .resetRecvd finalReceived finalRead }, true)
    else ({ s with state := .waitForReset fc finalReceived finalRead }, false)
  | _ => (s, false)

/-- The peer declared that it is blocked: send `MAX_STREAM_DATA` if there is any increase
possible. -/
def sendFlowcUpdate : RecvStream :=
  match s.state with
  | .recv fc recvBuf => { s with state := .recv fc.sendFlowcUpdate recvBuf }
  | _ => s

def maxStreamDataLost (maximumData : ℕ) : RecvStream :=
  match s.state with
  | .recv fc recvBuf => { s with state := .recv (fc.frameLost maximumData) recvBuf }
  | _ => s

def setStreamMaxData (maxData : ℕ) : RecvStream :=
  match s.state with
  | .recv fc recvBuf => { s with state := .recv (fc.setMaxActive maxData) recvBuf }
  | _ => s

/-- Maybe write a `MAX_STREAM_DATA` or a `STOP_SENDING` frame. -/
def writeFrame (b : Builder) (tokens : Tokens) (now rtt : ℕ) : RecvStream × Builder × Tokens :=
  match s.state with
  | .recv fc recvBuf =>
    let (fc, b, tokens) := fc.writeStreamFrames b tokens now rtt
    ({ s with state := .recv fc recvBuf }, b, tokens)
  | .abortReading fc finalSizeReached frameNeeded err finalReceived finalRead =>
    if frameNeeded then
      let (b, written) := b.writeVarintFrame .stopSending [s.streamId.asU64, err]
      if written then
        ({ s with state := .abortReading fc finalSizeReached false err finalReceived finalRead }, b,
          tokens ++ [.stopSending s.streamId])
      else (s, b, tokens)
    else (s, b, tokens)
  | _ => (s, b, tokens)

end RecvStream

/-!
## Runs of a receiving stream

Everything that can happen to a `RecvStream`. The flow control of the connection is shared with
other streams, so each operation meets it in any state.
-/

namespace RecvStream

/-- What happens to a stream. -/
inductive Op where
  | frame (fin : Bool) (offset : ℕ) (data : Bytes)
  | reset (applicationErrorCode finalSize reliableSize : ℕ)
  | read (bufLen : ℕ)
  | stopSending (err : ℕ)
  | stopSendingAcked
  | stopSendingLost
  /-- The peer sends `STREAM_DATA_BLOCKED`. -/
  | streamDataBlocked
  | maxStreamDataLost (maximumData : ℕ)
  | setStreamMaxData (maxData : ℕ)
  | writeFrame (b : Builder) (now rtt : ℕ)

variable (s : RecvStream)

/-- The state after an operation. -/
def apply (sessionFc : SessionFc) : Op → RecvStream
  | .frame fin offset data => (s.inboundStreamFrame sessionFc fin offset data).1
  | .reset err finalSize reliableSize => (s.reset sessionFc err finalSize reliableSize).1
  | .read bufLen => (s.read sessionFc bufLen).1
  | .stopSending err => (s.stopSending sessionFc err).1
  | .stopSendingAcked => s.stopSendingAcked.1
  | .stopSendingLost => s.stopSendingLost
  | .streamDataBlocked => s.sendFlowcUpdate
  | .maxStreamDataLost maximumData => s.maxStreamDataLost maximumData
  | .setStreamMaxData maxData => s.setStreamMaxData maxData
  | .writeFrame b now rtt => (s.writeFrame b [] now rtt).1

/-- Whether the peer's frame, or the application's read, is accepted. -/
def result (sessionFc : SessionFc) : Op → Res
  | .frame fin offset data => (s.inboundStreamFrame sessionFc fin offset data).2.2
  | .reset err finalSize reliableSize =>
    (s.reset sessionFc err finalSize reliableSize).2.2.map fun _ => ()
  | .read bufLen => (s.read sessionFc bufLen).2.2.map fun _ => ()
  | _ => .ok ()

/-- A run, with the state in which each operation meets the flow control of the connection. -/
def run (ops : List (SessionFc × Op)) : RecvStream :=
  ops.foldl (fun s (sessionFc, op) => s.apply sessionFc op) s

@[simp] lemma run_nil : s.run [] = s := rfl

end RecvStream

end Neqo
