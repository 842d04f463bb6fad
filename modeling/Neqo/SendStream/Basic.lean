import Neqo.FlowControl
import Neqo.SendStream.TxBuffer

/-!
# Sending streams

A `SendStream` shares the flow control of the connection with the other streams, so the functions
that use it take it as an argument and return it. The low watermark for writable events, which only
`maybeEmitWritableEvent` reads, is an argument too; the other events that a stream raises for the
application and its scheduling attributes (send order, fairness, send group) are left out: no
function here reads them.
-/

namespace Neqo

/-- The priority that is assigned to sending data for the stream. -/
inductive TransmissionPriority where
  | critical
  | important
  | high
  | normal
  | low
  deriving DecidableEq, Repr

/-- If data is lost, this determines the priority that applies to retransmissions of that data. -/
inductive RetransmissionPriority where
  | fixed (priority : TransmissionPriority)
  | same
  | higher
  | muchHigher
  deriving DecidableEq, Repr

/-- The priority of retransmissions. -/
def TransmissionPriority.add : TransmissionPriority → RetransmissionPriority → TransmissionPriority
  | _, .fixed p => p
  | p, .same => p
  | .critical, .higher => .critical
  | .important, .higher => .important
  | .high, .higher => .important
  | .normal, .higher => .high
  | .low, .higher => .normal
  | .critical, .muchHigher => .critical
  | .important, .muchHigher => .critical
  | .high, .muchHigher => .important
  | .normal, .muchHigher => .important
  | .low, .muchHigher => .high

namespace SendStream

/-- QUIC sending stream states. -/
inductive State where
  | ready (fc : SenderFlowControl StreamId)
  /-- `committed` is the committed (reliable) offset. -/
  | send (fc : SenderFlowControl StreamId) (sendBuf : TxBuffer) (committed : ℕ)
  /-- Entered when the stream is closed, not when all data has been sent for the first time. -/
  | dataSent (sendBuf : TxBuffer) (finSent finAcked : Bool) (committed : ℕ)
  | dataRecvd (retired written : ℕ)
  /-- A reset has been sent and no committed data below `reliableSize` is still outstanding. -/
  | resetSent (err finalSize reliableSize : ℕ) (priority : Option TransmissionPriority)
      (finalRetired finalWritten : ℕ)
  /-- A `RESET_STREAM_AT` has been sent, but committed data below `reliableSize` is still in
  flight, so the buffer is retained to (re)transmit it. -/
  | resetSentReliable (sendBuf : TxBuffer) (err finalSize reliableSize : ℕ)
      (priority : Option TransmissionPriority) (resetAcked : Bool)
  | resetRecvd (finalRetired finalWritten : ℕ)
  deriving DecidableEq

namespace State

def txBuf : State → Option TxBuffer
  | send _ sendBuf _ => some sendBuf
  | dataSent sendBuf _ _ _ => some sendBuf
  | resetSentReliable sendBuf _ _ _ _ _ => some sendBuf
  | _ => none

/-- Update the send buffer, if there is one. -/
def mapTxBuf (f : TxBuffer → TxBuffer) : State → State
  | send fc sendBuf committed => send fc (f sendBuf) committed
  | dataSent sendBuf finSent finAcked committed => dataSent (f sendBuf) finSent finAcked committed
  | resetSentReliable sendBuf err finalSize reliableSize priority resetAcked =>
    resetSentReliable (f sendBuf) err finalSize reliableSize priority resetAcked
  | s => s

def txAvail : State → ℕ
  -- In `ready`, the buffer is not yet allocated but its size is known.
  | ready _ => TxBuffer.maxSize
  | send _ sendBuf _ => sendBuf.avail
  | dataSent sendBuf _ _ _ => sendBuf.avail
  -- No application data can be added after a reset.
  | _ => 0

end State

end SendStream

/-- A QUIC send stream. -/
structure SendStream where
  streamId : StreamId
  state : SendStream.State
  priority : TransmissionPriority := .normal
  /-- Cached result of `priority + retransmission`. -/
  effectivePriority : TransmissionPriority := TransmissionPriority.add .normal .higher
  retransmissionOffset : ℕ := 0
  bytesSent : ℕ := 0
  deriving DecidableEq

namespace SendStream

/-- A new stream. -/
def new (streamId : StreamId) (maxStreamData : ℕ) : SendStream :=
  { streamId := streamId, state := .ready { subject := streamId, limit := maxStreamData } }

variable (s : SendStream)

def setPriority (transmission : TransmissionPriority)
    (retransmission : RetransmissionPriority) : SendStream :=
  { s with priority := transmission, effectivePriority := transmission.add retransmission }

variable (connFc : ConnFc)

/-- Bytes sendable on stream. Constrained by stream credit available, connection credit available,
and space in the send buffer. -/
def avail : ℕ :=
  match s.state with
  | .ready fc => min (min fc.available connFc.available) s.state.txAvail
  | .send fc _ _ => min (min fc.available connFc.available) s.state.txAvail
  | _ => 0

def isEnded : Bool :=
  match s.state with
  | .dataRecvd _ _ => true
  | .resetRecvd _ _ => true
  | _ => false

/-! ### Statistics -/

def State.bytesWritten : State → ℕ
  | send _ sendBuf _ => sendBuf.retired + sendBuf.buffered
  | dataSent sendBuf _ _ _ => sendBuf.retired + sendBuf.buffered
  | resetSentReliable sendBuf _ _ _ _ _ => sendBuf.retired + sendBuf.buffered
  | dataRecvd retired written => retired + written
  | resetSent _ _ _ _ finalRetired finalWritten => finalRetired + finalWritten
  | resetRecvd finalRetired finalWritten => finalRetired + finalWritten
  | ready _ => 0

def State.bytesAcked : State → ℕ
  | send _ sendBuf _ => sendBuf.retired
  | dataSent sendBuf _ _ _ => sendBuf.retired
  | resetSentReliable sendBuf _ _ _ _ _ => sendBuf.retired
  | dataRecvd retired _ => retired
  | resetSent _ _ _ _ finalRetired _ => finalRetired
  | resetRecvd finalRetired _ => finalRetired
  | ready _ => 0

/-- The statistics of a stream. -/
structure Stats where
  /-- The bytes that the application has written. -/
  bytesWritten : ℕ
  /-- The bytes that were sent at least once. -/
  bytesSent : ℕ
  /-- The bytes that were acknowledged, up to the first one that was not. -/
  bytesAcked : ℕ
  deriving DecidableEq

def stats : Stats := ⟨s.state.bytesWritten, s.bytesSent, s.state.bytesAcked⟩

/-! ### Sending -/

def sendBlockedIfSpaceNeeded (neededSpace : ℕ) : SendStream × ConnFc :=
  let mark (fc : SenderFlowControl StreamId) :=
    if fc.available ≤ neededSpace then fc.blocked else fc
  let connFc' := if connFc.available ≤ neededSpace then connFc.blocked else connFc
  match s.state with
  | .ready fc => ({ s with state := .ready (mark fc) }, connFc')
  | .send fc sendBuf committed => ({ s with state := .send (mark fc) sendBuf committed }, connFc')
  | _ => (s, connFc)

/-- The first call of `sendInternal` allocates the send buffer. -/
def enterSend : SendStream :=
  match s.state with
  | .ready fc => { s with state := .send fc {} 0 }
  | _ => s

/-- Accept application data. Returns how many bytes of it were accepted. -/
def sendInternal (buf : Bytes) (atomic : Bool) : SendStream × ConnFc × Except Error ℕ :=
  if buf.isEmpty then (s, connFc, .error .invalidInput)
  else
    let s := s.enterSend
    match s.state with
    | .send fc sendBuf committed =>
      if s.avail connFc = 0 then (s, connFc, .ok 0)
      else if s.avail connFc < buf.length ∧ atomic then
        let (s, connFc) := s.sendBlockedIfSpaceNeeded connFc buf.length
        (s, connFc, .ok 0)
      else
        let buf := if s.avail connFc < buf.length then buf.take (s.avail connFc) else buf
        let (sendBuf, sent) := sendBuf.send buf
        ({ s with state := .send (fc.consume sent) sendBuf committed }, connFc.consume sent,
          .ok sent)
    | _ => (s, connFc, .error .finalSize)

/-- Close the stream: no more data is accepted. -/
def close : SendStream :=
  match s.state with
  | .ready _ => { s with state := .dataSent {} false false 0 }
  | .send _ sendBuf committed => { s with state := .dataSent sendBuf false false committed }
  | _ => s

def setMaxStreamData (limit : ℕ) : SendStream :=
  match s.state with
  | .ready fc => { s with state := .ready (fc.update limit).1 }
  | .send fc sendBuf committed => { s with state := .send (fc.update limit).1 sendBuf committed }
  | _ => s

/-! ### Committing and resetting -/

/-- Commit to reliably delivering all data buffered so far. -/
def commit : SendStream × Res :=
  match s.state with
  | .ready _ => (s, .ok ())
  | .dataRecvd _ _ => (s, .ok ())
  | .send fc sendBuf _ => ({ s with state := .send fc sendBuf sendBuf.used }, .ok ())
  | .dataSent sendBuf finSent finAcked _ =>
    ({ s with state := .dataSent sendBuf finSent finAcked sendBuf.used }, .ok ())
  | _ => (s, .error .streamState)

/-- Build the reset state for a stream that has a send buffer, choosing between a buffer-less
`resetSent` and a `resetSentReliable` that retains the buffer for committed data. -/
def makeResetState (err : ℕ) (priority : TransmissionPriority) (sendBuf : TxBuffer)
    (finalSize committed : ℕ) : State :=
  let reliableSize := min committed finalSize
  let finalRetired := sendBuf.retired
  let finalWritten := sendBuf.buffered
  if reliableSize = 0 ∨ finalRetired ≥ reliableSize then
    .resetSent err finalSize reliableSize (some priority) finalRetired finalWritten
  else .resetSentReliable sendBuf err finalSize reliableSize (some priority) false

/-- Reset the stream. With a non-zero commitment a `RESET_STREAM_AT` is emitted, otherwise a plain
`RESET_STREAM`. -/
def reset (err : ℕ) : SendStream :=
  match s.state with
  | .ready fc => { s with state := .resetSent err fc.used 0 (some s.priority) 0 0 }
  | .send fc sendBuf committed =>
    { s with state := makeResetState err s.priority sendBuf fc.used committed }
  | .dataSent sendBuf _ _ committed =>
    { s with state := makeResetState err s.priority sendBuf sendBuf.used committed }
  | _ => s

/-- Drop any commitment in response to a `STOP_SENDING`: the peer has no interest in the data. -/
def dropCommitment : SendStream :=
  match s.state with
  | .send fc sendBuf _ => { s with state := .send fc sendBuf 0 }
  | .dataSent sendBuf finSent finAcked _ => { s with state := .dataSent sendBuf finSent finAcked 0 }
  | .resetSentReliable sendBuf err finalSize _ priority resetAcked =>
    if resetAcked then
      -- The reset is already acked, so abandoning the data completes the reset.
      { s with state := .resetRecvd sendBuf.retired sendBuf.buffered }
    else
      { s with state := .resetSent err finalSize 0 priority sendBuf.retired sendBuf.buffered }
  | _ => s

def resetAcked : SendStream :=
  match s.state with
  | .resetSent _ _ _ _ finalRetired finalWritten =>
    { s with state := .resetRecvd finalRetired finalWritten }
  | .resetSentReliable sendBuf err finalSize reliableSize priority _ =>
    -- Complete only once all committed data has also been acked.
    if sendBuf.retired ≥ reliableSize then
      { s with state := .resetRecvd sendBuf.retired sendBuf.buffered }
    else { s with state := .resetSentReliable sendBuf err finalSize reliableSize priority true }
  | _ => s

/-- Handle the loss of a reset frame. In a state in which no reset was sent, the source is
unreachable. -/
def resetLost : SendStream :=
  match s.state with
  | .resetSent err finalSize reliableSize _ finalRetired finalWritten =>
    { s with state :=
      .resetSent err finalSize reliableSize (some s.effectivePriority) finalRetired finalWritten }
  | .resetSentReliable sendBuf err finalSize reliableSize _ resetAcked =>
    { s with state :=
      .resetSentReliable sendBuf err finalSize reliableSize (some s.effectivePriority) resetAcked }
  | _ => s

def blockedLost (limit : ℕ) : SendStream :=
  match s.state with
  | .ready fc => { s with state := .ready (fc.frameLost limit) }
  | .send fc sendBuf committed => { s with state := .send (fc.frameLost limit) sendBuf committed }
  | _ => s

/-! ### Sent, acknowledged and lost data -/

def markAsSent (offset len : ℕ) (fin : Bool) : SendStream × ConnFc :=
  let s := { s with bytesSent := max s.bytesSent (offset + len) }
  let (s, connFc) :=
    match s.state.txBuf with
    | some _ =>
      { s with state := s.state.mapTxBuf fun b => b.markAsSent offset len }.sendBlockedIfSpaceNeeded
        connFc 0
    | none => (s, connFc)
  match s.state with
  | .dataSent sendBuf _ finAcked committed =>
    if fin then ({ s with state := .dataSent sendBuf true finAcked committed }, connFc)
    else (s, connFc)
  | _ => (s, connFc)

def markAsAcked (offset len : ℕ) (fin : Bool) : SendStream :=
  match s.state with
  | .send fc sendBuf committed =>
    { s with state := .send fc (sendBuf.markAsAcked offset len) committed }
  | .dataSent sendBuf finSent finAcked committed =>
    let sendBuf := sendBuf.markAsAcked offset len
    let finAcked := finAcked || fin
    if finAcked ∧ sendBuf.buffered = 0 then
      { s with state := .dataRecvd sendBuf.retired sendBuf.buffered }
    else { s with state := .dataSent sendBuf finSent finAcked committed }
  | .resetSentReliable sendBuf err finalSize reliableSize priority resetAcked =>
    let sendBuf := sendBuf.markAsAcked offset len
    -- Wait until all committed data is acked.
    if sendBuf.retired ≥ reliableSize then
      if resetAcked then { s with state := .resetRecvd sendBuf.retired sendBuf.buffered }
      else
        { s with state :=
          .resetSent err finalSize reliableSize priority sendBuf.retired sendBuf.buffered }
    else
      { s with state :=
        .resetSentReliable sendBuf err finalSize reliableSize priority resetAcked }
  | _ => s

def markAsLost (offset len : ℕ) (fin : Bool) : SendStream :=
  let s := { s with retransmissionOffset := max s.retransmissionOffset (offset + len) }
  let s := { s with state := s.state.mapTxBuf fun b => b.markAsLost offset len }
  match s.state with
  | .dataSent sendBuf _ finAcked committed =>
    if fin then { s with state := .dataSent sendBuf finAcked finAcked committed } else s
  | _ => s

/-! ### Writable events -/

/-- Whether a change of one of the limits makes the stream writable. -/
def maybeEmitWritableEvent (lowWatermark previousLimit currentLimit : ℕ) : Bool :=
  -- Not if the stream was not constrained by the limit before, or still is constrained by it, or is
  -- constrained by a different limit.
  !(lowWatermark < previousLimit || currentLimit < lowWatermark || s.avail connFc < lowWatermark)

/-- Whether `markAsAcked` makes the stream writable. -/
def markAsAckedWritable (lowWatermark offset len : ℕ) (fin : Bool) : Bool :=
  match s.state with
  | .send _ sendBuf _ =>
    (s.markAsAcked offset len fin).maybeEmitWritableEvent connFc lowWatermark sendBuf.avail
      (sendBuf.markAsAcked offset len).avail
  | _ => false

/-- Whether `setMaxStreamData` makes the stream writable. -/
def setMaxStreamDataWritable (lowWatermark limit : ℕ) : Bool :=
  let writable (fc : SenderFlowControl StreamId) :=
    (fc.update limit).2.any fun currentLimit =>
      (s.setMaxStreamData limit).maybeEmitWritableEvent connFc lowWatermark fc.available
        currentLimit
  match s.state with
  | .ready fc => writable fc
  | .send fc _ _ => writable fc
  | _ => false

/-! ### Writing frames -/

/-- A `STREAM` frame that is to be written; `fill` says that it takes the rest of the packet. -/
structure StreamFrame where
  streamId : StreamId
  offset : ℕ
  data : Bytes
  fin : Bool
  fill : Bool
  deriving DecidableEq, Repr

/-- Return the next range to be sent, if any. If this is a retransmission, cut off what is sent at
the retransmission offset. -/
def nextBytes (retransmissionOnly : Bool) (split : ℕ) : SendStream × Option (ℕ × Bytes) :=
  match s.state with
  | .send fc sendBuf committed =>
    let (sendBuf, r) := sendBuf.nextBytes split
    let s := { s with state := .send fc sendBuf committed }
    match r with
    | none => (s, none)
    | some (offset, slice) =>
      if retransmissionOnly then
        if s.retransmissionOffset > offset then
          (s, some (offset, slice.take (s.retransmissionOffset - offset)))
        else (s, none)
      else (s, some (offset, slice))
  | .dataSent sendBuf finSent finAcked committed =>
    let used := sendBuf.used
    let (sendBuf, bytes) := sendBuf.nextBytes split
    let s := { s with state := .dataSent sendBuf finSent finAcked committed }
    match bytes with
    | some r => (s, some r)
    -- Send empty stream frame with fin set.
    | none => (s, if finSent then none else some (used, []))
  | .resetSentReliable sendBuf err finalSize reliableSize priority resetAcked =>
    -- Only committed data, and never a FIN.
    let limit :=
      if retransmissionOnly then min s.retransmissionOffset reliableSize else reliableSize
    let (sendBuf, r) := sendBuf.nextBytes split
    let s := { s with state :=
      .resetSentReliable sendBuf err finalSize reliableSize priority resetAcked }
    match r with
    | none => (s, none)
    | some (offset, slice) =>
      if offset < limit then (s, some (offset, slice.take (limit - offset))) else (s, none)
  | _ => (s, none)

/-- Whether `nextBytes` would yield data, without locating the exact range. -/
def hasNextBytes (retransmissionOnly : Bool) : SendStream × Bool :=
  match s.state with
  | .send fc sendBuf committed =>
    let (sendBuf, r) :=
      if retransmissionOnly then sendBuf.hasNextBytesBefore s.retransmissionOffset
      else sendBuf.hasNextBytes
    ({ s with state := .send fc sendBuf committed }, r)
  | .dataSent sendBuf finSent finAcked committed =>
    let (sendBuf, r) := sendBuf.hasNextBytes
    ({ s with state := .dataSent sendBuf finSent finAcked committed }, r || !finSent)
  | .resetSentReliable sendBuf err finalSize reliableSize priority resetAcked =>
    let limit :=
      if retransmissionOnly then min s.retransmissionOffset reliableSize else reliableSize
    let (sendBuf, r) := sendBuf.hasNextBytesBefore limit
    ({ s with state := .resetSentReliable sendBuf err finalSize reliableSize priority resetAcked },
      r)
  | _ => (s, false)

variable (priority : TransmissionPriority)

/-- Whether `writeFrames` at this priority has a frame queued: a reset, `STREAM_DATA_BLOCKED` or
`STREAM` frame. -/
def hasDataAt : SendStream × Bool :=
  match s.state with
  -- A plain reset emits no other frames.
  | .resetSent _ _ _ resetPriority _ _ => (s, resetPriority = some priority)
  -- A reliable reset may also have committed data pending.
  | .resetSentReliable _ _ _ _ resetPriority _ =>
    if resetPriority = some priority then (s, true) else hasStream
  | .ready fc => if priority = s.priority ∧ fc.isBlocked then (s, true) else hasStream
  | .send fc _ _ => if priority = s.priority ∧ fc.isBlocked then (s, true) else hasStream
  | _ => hasStream
where
  hasStream : SendStream × Bool :=
    if priority = s.priority then s.hasNextBytes false
    else if priority = s.effectivePriority then s.hasNextBytes true
    else (s, false)

/-- Calculate how many bytes can fit into available space and whether the remainder of the space
can be filled (or if a length field is needed). -/
def lengthAndFill (dataLen space : ℕ) : ℕ × Bool :=
  if dataLen ≥ space then (space, true)
  else
    let length := min (space - 1) dataLen
    let lengthLen := Encoder.varintLen length
    (dataLen, dataLen + lengthLen + Builder.minimumFrameSize > space)

/-- The header of a `STREAM` frame, other than the length field. -/
def streamOverhead (id : StreamId) (offset : ℕ) : ℕ :=
  1 + Encoder.varintLen id.asU64 + if offset > 0 then Encoder.varintLen offset else 0

/-- The `STREAM` frame that `writeStreamFrame` writes at this priority into this much space, if
any. -/
def nextStreamFrame (split remaining : ℕ) : SendStream × Option StreamFrame :=
  if priority ≠ s.priority ∧ priority ≠ s.effectivePriority then (s, none)
  else
    let retransmission := decide (priority ≠ s.priority)
    let finOffset :=
      match s.state with
      | .dataSent sendBuf _ _ _ => some sendBuf.used
      | _ => none
    let (s, r) := s.nextBytes retransmission split
    match r with
    | none => (s, none)
    | some (offset, data) =>
      let overhead := streamOverhead s.streamId offset
      if overhead > remaining then (s, none)
      else
        let (length, fill) := lengthAndFill data.length (remaining - overhead)
        let fin := decide (finOffset = some (offset + length))
        if length = 0 ∧ ¬ fin then (s, none)
        else
          (s, some { streamId := s.streamId, offset := offset, data := data.take length, fin := fin,
                     fill := fill })

/-- Encode a `STREAM` frame. -/
def StreamFrame.encode (f : StreamFrame) (b : Builder) : Builder :=
  let b := if f.fill then b.padBefore (streamOverhead f.streamId f.offset + f.data.length) else b
  let b := b.encodeFrame (Frame.streamType f.fin (f.offset > 0) f.fill)
    (Encoder.encodeVarint f.streamId.asU64
      ++ (if f.offset > 0 then Encoder.encodeVarint f.offset else [])
      ++ (if f.fill then f.data else Encoder.encodeVvec f.data))
  if f.fill then b.markFull else b

/-- The token that stands for a `STREAM` frame. -/
def StreamFrame.token (f : StreamFrame) : RecoveryToken :=
  { id := f.streamId, offset := f.offset, length := f.data.length, fin := f.fin }

/-- Maybe write a `STREAM` frame. -/
def writeStreamFrame (split : ℕ) (b : Builder) (tokens : Tokens) :
    SendStream × ConnFc × Builder × Tokens :=
  let (s, r) := s.nextStreamFrame priority split b.remaining
  match r with
  | none => (s, connFc, b, tokens)
  | some f =>
    let (s, connFc) := s.markAsSent connFc f.offset f.data.length f.fin
    (s, connFc, f.encode b, tokens ++ [.stream f.token])

/-- Maybe write a `RESET_STREAM` or `RESET_STREAM_AT` frame. The result is true if the reset is
successfully sent and that is the only data that needs sending. -/
def writeResetFrame (p : TransmissionPriority) (b : Builder) (tokens : Tokens) :
    SendStream × Builder × Tokens × Bool :=
  match s.state with
  | .resetSent err finalSize reliableSize priority finalRetired finalWritten =>
    if priority ≠ some p then (s, b, tokens, false)
    else
      let (b, written) := writeFrame err finalSize reliableSize
      if written then
        ({ s with state := .resetSent err finalSize reliableSize none finalRetired finalWritten },
          b, tokens ++ [.resetStream s.streamId], true)
      else (s, b, tokens, false)
  | .resetSentReliable sendBuf err finalSize reliableSize priority resetAcked =>
    if priority ≠ some p then (s, b, tokens, false)
    else
      let (b, written) := writeFrame err finalSize reliableSize
      if written then
        -- Reliable data is still pending.
        ({ s with state := .resetSentReliable sendBuf err finalSize reliableSize none resetAcked },
          b, tokens ++ [.resetStream s.streamId], false)
      else (s, b, tokens, false)
  | _ => (s, b, tokens, false)
where
  writeFrame (err finalSize reliableSize : ℕ) : Builder × Bool :=
    if reliableSize = 0 then
      b.writeVarintFrame .resetStream [s.streamId.asU64, err, finalSize]
    else b.writeVarintFrame .resetStreamAt [s.streamId.asU64, err, finalSize, reliableSize]

/-- Maybe write a `STREAM_DATA_BLOCKED` frame. -/
def writeBlockedFrame (b : Builder) (tokens : Tokens) : SendStream × Builder × Tokens :=
  if priority ≠ s.priority then (s, b, tokens)
  else
    match s.state with
    | .ready fc =>
      let (fc, b, tokens) := fc.writeStreamFrames b tokens
      ({ s with state := .ready fc }, b, tokens)
    | .send fc sendBuf committed =>
      let (fc, b, tokens) := fc.writeStreamFrames b tokens
      ({ s with state := .send fc sendBuf committed }, b, tokens)
    | _ => (s, b, tokens)

/-- Write the frames of a stream at a priority. -/
def writeFrames (split : ℕ) (b : Builder) (tokens : Tokens) :
    SendStream × ConnFc × Builder × Tokens :=
  let (s, b, tokens, done) := s.writeResetFrame priority b tokens
  if done then (s, connFc, b, tokens)
  else
    let (s, b, tokens) := s.writeBlockedFrame priority b tokens
    if b.isFull then (s, connFc, b, tokens)
    else s.writeStreamFrame connFc priority split b tokens

/-!
## Runs of sending streams

A `Sending` is a stream with a record of what it has accepted, emitted and learned from the peer.
Only tokens that the stream has issued are acknowledged or lost, each any number of times and in any
order. `Senders` are streams that share the flow control of a connection.
-/

/-- The flow control of a stream that can still accept data. -/
def State.fc? : State → Option (SenderFlowControl StreamId)
  | ready fc => some fc
  | send fc _ _ => some fc
  | _ => none

/-- The states in which the loss of a reset frame is expected. -/
def State.wasReset : State → Bool
  | resetSent _ _ _ _ _ _ => true
  | resetSentReliable _ _ _ _ _ _ => true
  | resetRecvd _ _ => true
  | _ => false

/-- How much of the data has to be delivered in spite of the reset. -/
def State.reliableSize? : State → Option ℕ
  | resetSent _ _ reliableSize _ _ _ => some reliableSize
  | resetSentReliable _ _ _ reliableSize _ _ => some reliableSize
  | _ => none

/-- The bytes that a call of `send` has accepted. -/
def acceptedBytes (buf : Bytes) : Except Error ℕ → Bytes
  | .ok n => buf.take n
  | .error _ => []

/-! ### Emitted frames -/

/-- A `RESET_STREAM` frame, or a `RESET_STREAM_AT` frame if there is a reliable size. -/
structure ResetFrame where
  streamId : StreamId
  err : ℕ
  finalSize : ℕ
  reliableSize : ℕ
  deriving DecidableEq, Repr

def ResetFrame.write (f : ResetFrame) (b : Builder) : Builder × Bool :=
  if f.reliableSize = 0 then
    b.writeVarintFrame .resetStream [f.streamId.asU64, f.err, f.finalSize]
  else b.writeVarintFrame .resetStreamAt [f.streamId.asU64, f.err, f.finalSize, f.reliableSize]

/-- The reset frame that `writeResetFrame` tries to write at this priority. -/
def dueReset (p : TransmissionPriority) : Option ResetFrame :=
  match s.state with
  | .resetSent err finalSize reliableSize priority _ _ =>
    if priority ≠ some p then none else some ⟨s.streamId, err, finalSize, reliableSize⟩
  | .resetSentReliable _ err finalSize reliableSize priority _ =>
    if priority ≠ some p then none else some ⟨s.streamId, err, finalSize, reliableSize⟩
  | _ => none

/-- A frame that fixes or uses the offsets of a stream. -/
inductive Emitted where
  | stream (f : StreamFrame)
  | reset (f : ResetFrame)
  deriving DecidableEq, Repr

/-- The frames that `writeFrames` writes, other than `STREAM_DATA_BLOCKED`. -/
def emits (split : ℕ) (b : Builder) : List Emitted :=
  let resets := ((s.dueReset priority).filter fun f => (f.write b).2).toList.map .reset
  let (s, b, tokens, done) := s.writeResetFrame priority b []
  if done then resets
  else
    let (s, b, _) := s.writeBlockedFrame priority b tokens
    if b.isFull then resets
    else resets ++ (s.nextStreamFrame priority split b.remaining).2.toList.map .stream

/-! ### Acknowledgment and loss -/

def tokenAcked : StreamRecoveryToken → SendStream
  | .stream token => s.markAsAcked token.offset token.length token.fin
  | .resetStream _ => s.resetAcked
  | _ => s

def tokenLost : StreamRecoveryToken → SendStream
  | .stream token => s.markAsLost token.offset token.length token.fin
  | .resetStream _ => s.resetLost
  | .streamDataBlocked _ limit => s.blockedLost limit
  | _ => s

/-- What happens to a stream. -/
inductive Op where
  | send (buf : Bytes) (atomic : Bool)
  | setMaxStreamData (limit : ℕ)
  | setPriority (transmission : TransmissionPriority) (retransmission : RetransmissionPriority)
  | close
  | commit
  | reset (err : ℕ)
  | dropCommitment
  /-- Write frames into a packet; `split` is where the send buffer wraps around. -/
  | writeFrames (priority : TransmissionPriority) (split : ℕ) (b : Builder)
  /-- The `i`-th token is acknowledged or lost. -/
  | acked (i : ℕ)
  | lost (i : ℕ)
  deriving DecidableEq

end SendStream

/-- A stream and what has happened to it. -/
structure Sending where
  stream : SendStream
  /-- The bytes that `send` has accepted. -/
  accepted : Bytes := []
  /-- How many bytes had been accepted at the last `commit`, unless the peer has asked to stop. -/
  committed : ℕ := 0
  emitted : List SendStream.Emitted := []
  /-- The tokens that were issued. -/
  tokens : Tokens := []
  /-- The tokens that were acknowledged. -/
  ackedTokens : Tokens := []
  /-- The tokens that were declared lost. -/
  lostTokens : Tokens := []
  deriving DecidableEq

namespace Sending

def new (streamId : StreamId) (maxStreamData : ℕ) : Sending :=
  { stream := .new streamId maxStreamData }

/-- One operation, with the flow control of the connection. -/
def step (t : Sending) (connFc : ConnFc) : SendStream.Op → Sending × ConnFc
  | .send buf atomic =>
    let (stream, connFc, r) := t.stream.sendInternal connFc buf atomic
    ({ t with stream := stream, accepted := t.accepted ++ SendStream.acceptedBytes buf r }, connFc)
  | .setMaxStreamData limit => ({ t with stream := t.stream.setMaxStreamData limit }, connFc)
  | .setPriority transmission retransmission =>
    ({ t with stream := t.stream.setPriority transmission retransmission }, connFc)
  | .close => ({ t with stream := t.stream.close }, connFc)
  | .commit =>
    let (stream, r) := t.stream.commit
    ({ t with stream := stream,
              committed := if r.isOk then t.accepted.length else t.committed }, connFc)
  | .reset err => ({ t with stream := t.stream.reset err }, connFc)
  | .dropCommitment => ({ t with stream := t.stream.dropCommitment, committed := 0 }, connFc)
  | .writeFrames priority split b =>
    let (stream, connFc, _, tokens) := t.stream.writeFrames connFc priority split b []
    ({ t with stream := stream, emitted := t.emitted ++ t.stream.emits priority split b,
              tokens := t.tokens ++ tokens }, connFc)
  | .acked i =>
    match t.tokens[i]? with
    | some token =>
      ({ t with stream := t.stream.tokenAcked token, ackedTokens := token :: t.ackedTokens },
        connFc)
    | none => (t, connFc)
  | .lost i =>
    match t.tokens[i]? with
    | some token =>
      ({ t with stream := t.stream.tokenLost token, lostTokens := token :: t.lostTokens }, connFc)
    | none => (t, connFc)

/-- A run. Other streams use the flow control of the connection too, so each operation meets it in
any state. -/
def run (t : Sending) (ops : List (ConnFc × SendStream.Op)) : Sending :=
  ops.foldl (fun t (connFc, op) => (t.step connFc op).1) t

@[simp] lemma run_cons (t : Sending) (connFc : ConnFc) (op : SendStream.Op)
    (ops : List (ConnFc × SendStream.Op)) :
    t.run ((connFc, op) :: ops) = (t.step connFc op).1.run ops := rfl

lemma run_append (t : Sending) (ops ops' : List (ConnFc × SendStream.Op)) :
    t.run (ops ++ ops') = (t.run ops).run ops' := List.foldl_append ..

end Sending

/-- Streams that share the flow control of a connection. -/
structure Senders where
  streams : List Sending := []
  connFc : ConnFc
  deriving DecidableEq

namespace Senders

/-- What happens to a connection. -/
inductive Op where
  | newStream (streamId : StreamId) (maxStreamData : ℕ)
  | stream (i : ℕ) (op : SendStream.Op)
  | handleMaxData (maximumData : ℕ)
  | writeFrames (b : Builder)
  | dataBlockedLost (limit : ℕ)
  deriving DecidableEq

def new (maxData : ℕ) : Senders := { connFc := { subject := (), limit := maxData } }

def step (p : Senders) : Op → Senders
  | .newStream streamId maxStreamData =>
    { p with streams := p.streams ++ [.new streamId maxStreamData] }
  | .stream i op =>
    match p.streams[i]? with
    | some t =>
      let (t, connFc) := t.step p.connFc op
      { streams := p.streams.set i t, connFc := connFc }
    | none => p
  | .handleMaxData maximumData => { p with connFc := (p.connFc.update maximumData).1 }
  | .writeFrames b => { p with connFc := (p.connFc.writeFrames b []).1 }
  | .dataBlockedLost limit => { p with connFc := p.connFc.frameLost limit }

def run (p : Senders) (ops : List Op) : Senders := ops.foldl step p

/-- Whether an operation emits a writable event for the stream at an index, whose low watermark is
given. -/
def writable (p : Senders) (lowWatermark i : ℕ) : Op → Bool
  | .stream j (.acked k) =>
    i = j && p.streams[i]?.any fun t => t.tokens[k]?.any fun
      | .stream token => t.stream.markAsAckedWritable p.connFc lowWatermark token.offset
          token.length token.fin
      | _ => false
  | .stream j (.setMaxStreamData limit) =>
    i = j && p.streams[i]?.any fun t => t.stream.setMaxStreamDataWritable p.connFc
      lowWatermark limit
  | .handleMaxData maximumData =>
    let (connFc, currentLimit) := p.connFc.update maximumData
    currentLimit.any fun currentLimit => p.streams[i]?.any fun t =>
      t.stream.maybeEmitWritableEvent connFc lowWatermark p.connFc.available currentLimit
  | _ => false

end Senders

end Neqo
