import Neqo.Basic

/-!
# Flow control
-/

namespace Neqo

/-- Flow control for something that is sent: bytes of a connection or of a stream, or streams. -/
structure SenderFlowControl (T : Type) where
  /-- The thing that we're counting for. -/
  subject : T
  /-- The limit. -/
  limit : ℕ
  /-- How much of that limit we've used. -/
  used : ℕ := 0
  /-- The limit at which blocking was last reported, or `none` if never blocked. -/
  blockedAt : Option ℕ := none
  /-- Whether a blocked frame should be sent. -/
  blockedFrame : Bool := false
  deriving DecidableEq, Repr

/-- The flow control of the connection, for sending. -/
abbrev ConnFc := SenderFlowControl Unit

namespace SenderFlowControl

variable {T : Type}

/-- Get available flow control. -/
def available (fc : SenderFlowControl T) : ℕ := fc.limit - fc.used

/-- Update the maximum. Returns the updated available flow control if the change was an
increase. -/
def update (fc : SenderFlowControl T) (limit : ℕ) : SenderFlowControl T × Option ℕ :=
  if limit > fc.limit then
    let fc := { fc with limit := limit, blockedFrame := false }
    (fc, some fc.available)
  else (fc, none)

/-- Consume flow control. -/
def consume (fc : SenderFlowControl T) (count : ℕ) : SenderFlowControl T :=
  { fc with used := fc.used + count }

/-- Mark flow control as blocked, if the current limit exceeds the last reported blocking limit. -/
def blocked (fc : SenderFlowControl T) : SenderFlowControl T :=
  match fc.blockedAt with
  | some block =>
    if fc.limit ≤ block then fc
    else { fc with blockedAt := some fc.limit, blockedFrame := true }
  | none => { fc with blockedAt := some fc.limit, blockedFrame := true }

/-- The limit to report in a blocked frame, if one needs to be sent. -/
def blockedNeeded (fc : SenderFlowControl T) : Option ℕ :=
  fc.blockedAt.filter fun l => fc.blockedFrame && fc.limit ≤ l

def isBlocked (fc : SenderFlowControl T) : Bool := fc.blockedNeeded.isSome

/-- Clear the need to send a blocked frame. -/
def blockedSent (fc : SenderFlowControl T) : SenderFlowControl T :=
  { fc with blockedFrame := false }

/-- A blocked frame was lost. Only send again if `blockedAt` hasn't increased since sending. -/
def frameLost (fc : SenderFlowControl T) (limit : ℕ) : SenderFlowControl T :=
  if fc.blockedAt = some limit then { fc with blockedFrame := true } else fc

/-- Write a blocked frame with the given values before the limit, and remember it with the given
token. -/
def writeBlocked (fc : SenderFlowControl T) (frameType : FrameType) (values : List ℕ)
    (token : ℕ → StreamRecoveryToken) (b : Builder) (tokens : Tokens) :
    SenderFlowControl T × Builder × Tokens :=
  match fc.blockedNeeded with
  | some limit =>
    let (b, written) := b.writeVarintFrame frameType (values ++ [limit])
    if written then (fc.blockedSent, b, tokens ++ [token limit]) else (fc, b, tokens)
  | none => (fc, b, tokens)

/-! ### Limits and use -/

variable (fc : SenderFlowControl T)

lemma blocked_credit : fc.blocked.used = fc.used ∧ fc.blocked.limit = fc.limit := by
  unfold blocked
  split
  · split_ifs <;> exact ⟨rfl, rfl⟩
  · exact ⟨rfl, rfl⟩

lemma frameLost_credit (limit : ℕ) :
    (fc.frameLost limit).used = fc.used ∧ (fc.frameLost limit).limit = fc.limit := by
  unfold frameLost
  split_ifs <;> exact ⟨rfl, rfl⟩

lemma writeBlocked_credit (frameType : FrameType) (values : List ℕ)
    (token : ℕ → StreamRecoveryToken) (b : Builder) (tokens : Tokens) :
    (fc.writeBlocked frameType values token b tokens).1.used = fc.used ∧
      (fc.writeBlocked frameType values token b tokens).1.limit = fc.limit := by
  unfold writeBlocked
  split
  · dsimp only
    split_ifs <;> exact ⟨rfl, rfl⟩
  · exact ⟨rfl, rfl⟩

lemma update_credit (limit : ℕ) :
    (fc.update limit).1.used = fc.used ∧ fc.limit ≤ (fc.update limit).1.limit := by
  unfold update
  split_ifs with h
  · exact ⟨rfl, h.le⟩
  · exact ⟨rfl, le_rfl⟩

end SenderFlowControl

/-- `DATA_BLOCKED` for the connection. -/
def SenderFlowControl.writeFrames (fc : ConnFc) (b : Builder) (tokens : Tokens) :
    ConnFc × Builder × Tokens :=
  fc.writeBlocked .dataBlocked [] .dataBlocked b tokens

/-- `STREAM_DATA_BLOCKED` for a stream. -/
def SenderFlowControl.writeStreamFrames (fc : SenderFlowControl StreamId) (b : Builder)
    (tokens : Tokens) :
    SenderFlowControl StreamId × Builder × Tokens :=
  fc.writeBlocked .streamDataBlocked [fc.subject.asU64] (.streamDataBlocked fc.subject) b tokens

/-- `STREAMS_BLOCKED` for a type of streams. -/
def SenderFlowControl.writeStreamsFrames (fc : SenderFlowControl StreamType) (b : Builder)
    (tokens : Tokens) :
    SenderFlowControl StreamType × Builder × Tokens :=
  fc.writeBlocked (.streamsBlocked fc.subject) [] (.streamsBlocked fc.subject) b tokens

/-! ## The receiving side -/

/-- Flow control for something that is received. -/
structure ReceiverFlowControl (T : Type) where
  /-- The thing that we're counting for. -/
  subject : T
  /-- The maximum amount of items that can be active (e.g., the size of the receive buffer). -/
  maxActive : ℕ
  /-- Last max allowed sent. -/
  maxAllowed : ℕ
  /-- Last time a flow control update was sent, in microseconds. -/
  lastUpdate : Option ℕ := none
  /-- Items received, but not retired yet: the largest offset of a stream, or the sum of these over
  all streams. -/
  consumed : ℕ := 0
  /-- Retired items. -/
  retired : ℕ := 0
  framePending : Bool := false
  deriving DecidableEq, Repr

/-- The flow control of the connection, for receiving. -/
abbrev SessionFc := ReceiverFlowControl Unit

/-- The flow control of a receiving stream. -/
abbrev StreamFc := ReceiverFlowControl StreamId

namespace ReceiverFlowControl

variable {T : Type}

/-- Flow control updates are sent once this fraction of the window has been used. -/
def windowUpdateFraction : ℕ := 4

/-- Make a new instance with the initial value and subject. -/
def new (subject : T) (max : ℕ) : ReceiverFlowControl T :=
  { subject := subject, maxActive := max, maxAllowed := max }

def shouldSendUpdate (fc : ReceiverFlowControl T) : Bool :=
  -- What is retired was allowed (`MaxData.Ordered`).
  let windowBytesUnused := fc.maxAllowed - fc.retired
  windowBytesUnused < fc.maxActive - fc.maxActive / windowUpdateFraction

/-- The flow control will try to send an update if possible. -/
def sendFlowcUpdate (fc : ReceiverFlowControl T) : ReceiverFlowControl T :=
  if fc.retired + fc.maxActive > fc.maxAllowed then { fc with framePending := true } else fc

/-- The limit that the next update announces. -/
def nextLimit (fc : ReceiverFlowControl T) : ℕ := min (fc.retired + fc.maxActive) Encoder.maxVarint

def frameLost (fc : ReceiverFlowControl T) (maximumData : ℕ) : ReceiverFlowControl T :=
  if maximumData = fc.maxAllowed then { fc with framePending := true } else fc

def frameSent (fc : ReceiverFlowControl T) (newMax : ℕ) : ReceiverFlowControl T :=
  { fc with maxAllowed := newMax, framePending := false }

/-- If the window has been increased, send an update immediately. -/
def setMaxActive (fc : ReceiverFlowControl T) (max : ℕ) : ReceiverFlowControl T :=
  { fc with framePending := fc.framePending || fc.maxActive < max, maxActive := max }

/-- Retire `count` items more. -/
def addRetired (fc : ReceiverFlowControl T) (count : ℕ) : ReceiverFlowControl T :=
  let fc := { fc with retired := fc.retired + count }
  if fc.shouldSendUpdate then { fc with framePending := true } else fc

variable (fc : ReceiverFlowControl T) (count : ℕ)

@[simp] lemma addRetired_retired : (fc.addRetired count).retired = fc.retired + count := by
  unfold addRetired
  dsimp only
  split_ifs <;> rfl

@[simp] lemma addRetired_consumed : (fc.addRetired count).consumed = fc.consumed := by
  unfold addRetired
  dsimp only
  split_ifs <;> rfl

@[simp] lemma addRetired_maxAllowed : (fc.addRetired count).maxAllowed = fc.maxAllowed := by
  unfold addRetired
  dsimp only
  split_ifs <;> rfl

@[simp] lemma addRetired_maxActive : (fc.addRetired count).maxActive = fc.maxActive := by
  unfold addRetired
  dsimp only
  split_ifs <;> rfl

end ReceiverFlowControl

/-! ### Writing updates -/

namespace ReceiverFlowControl

variable {T : Type}

/-- Multiplier for auto-tuning the receive window. -/
def windowIncreaseMultiplier : ℕ := 4

/-- The largest receive window of a stream. -/
def maxLocalMaxStreamData : ℕ := 10 * 1024 * 1024

/-- How much larger the window of a connection may be than that of a stream. -/
def connectionFactor : ℕ := 2

/-- The largest receive window of a connection. -/
def maxLocalMaxData : ℕ := maxLocalMaxStreamData * connectionFactor

variable (fc : ReceiverFlowControl T)

/-- Increase the window, up to `maxWindow`, when the sending rate exceeds what the current window
and RTT would allow. Times are in microseconds. What does not fit into 64 bits wraps around. -/
def autoTuneInner (now rtt maxWindow : ℕ) : ReceiverFlowControl T :=
  let u64 (n : ℕ) := n % 2 ^ 64
  match fc.lastUpdate with
  | none => fc
  | some maxAllowedSentAt =>
    let elapsed := now - maxAllowedSentAt
    -- If the RTT is zero, there is no need for tuning.
    if elapsed ≥ 2 ^ 64 ∨ rtt ≥ 2 ^ 64 ∨ rtt = 0 then fc
    else
      let effectiveWindow := u64 (fc.maxActive * (windowUpdateFraction - 1)) / windowUpdateFraction
      let windowBytesExpected := u64 (effectiveWindow * elapsed) / rtt
      -- This is less than zero if the window has been reduced since the last update.
      let windowBytesUsed := u64 (fc.maxActive + 2 ^ 64 - (fc.maxAllowed - fc.retired))
      -- Used below expected.
      if windowBytesUsed < windowBytesExpected then fc
      else
        let excess := windowBytesUsed - windowBytesExpected
        let newMaxActive := min (u64 (fc.maxActive + excess * windowIncreaseMultiplier)) maxWindow
        -- Never decrease the window, even if `maxWindow` is smaller.
        if newMaxActive ≤ fc.maxActive then fc else { fc with maxActive := newMaxActive }

/-- Write a frame that announces `limit`, with the given values before it, and remember it with the
given token. -/
def writeLimit (frameType : FrameType) (values : List ℕ) (limit : ℕ)
    (token : StreamRecoveryToken) (b : Builder) (tokens : Tokens) :
    ReceiverFlowControl T × Builder × Tokens × Bool :=
  let (b, written) := b.writeVarintFrame frameType (values ++ [limit])
  if written then (fc.frameSent limit, b, tokens ++ [token], true) else (fc, b, tokens, false)

/-- An update of the data limit of a connection or a stream, which auto-tunes the window first. -/
def writeMaxData (maxWindow : ℕ) (frameType : FrameType) (values : List ℕ)
    (token : ℕ → StreamRecoveryToken) (b : Builder) (tokens : Tokens) (now rtt : ℕ) :
    ReceiverFlowControl T × Builder × Tokens :=
  if !fc.framePending then (fc, b, tokens)
  else
    let fc := fc.autoTuneInner now rtt maxWindow
    let limit := fc.nextLimit
    let (fc, b, tokens, written) := fc.writeLimit frameType values limit (token limit) b tokens
    (if written then { fc with lastUpdate := some now } else fc, b, tokens)

end ReceiverFlowControl

/-- `MAX_DATA` for the connection. -/
def ReceiverFlowControl.writeFrames (fc : SessionFc) (b : Builder) (tokens : Tokens) (now rtt : ℕ) :
    SessionFc × Builder × Tokens :=
  fc.writeMaxData maxLocalMaxData .maxData [] .maxData b tokens now rtt

/-- `MAX_STREAM_DATA` for a stream. -/
def ReceiverFlowControl.writeStreamFrames (fc : StreamFc) (b : Builder)
    (tokens : Tokens) (now rtt : ℕ) :
    StreamFc × Builder × Tokens :=
  fc.writeMaxData maxLocalMaxStreamData .maxStreamData [fc.subject.asU64]
    (.maxStreamData fc.subject) b tokens now rtt

variable (fc : ReceiverFlowControl StreamType)

/-- `MAX_STREAMS` for a type of streams. -/
def ReceiverFlowControl.writeStreamsFrames (b : Builder) (tokens : Tokens) :
    ReceiverFlowControl StreamType × Builder × Tokens :=
  if !fc.framePending then (fc, b, tokens)
  else
    -- A stream count above this is a frame encoding error.
    let maxStreams := min fc.nextLimit StreamId.maxStreamsLimit
    let (fc, b, tokens, _) := fc.writeLimit (.maxStreams fc.subject) [] maxStreams
      (.maxStreams fc.subject maxStreams) b tokens
    (fc, b, tokens)

/-! ### Consuming -/

/-- Account for `count` more bytes received on the connection. -/
def ReceiverFlowControl.consume (fc : SessionFc) (count : ℕ) : Except Error SessionFc :=
  if fc.consumed + count > fc.maxAllowed then .error .flowControl
  else .ok { fc with consumed := fc.consumed + count }

/-- Account for the largest byte offset received on a stream. Returns by how much it grew. -/
def ReceiverFlowControl.setConsumed (fc : StreamFc) (consumed : ℕ) : Except Error (StreamFc × ℕ) :=
  if consumed ≤ fc.consumed then .ok (fc, 0)
  else if consumed > fc.maxAllowed then .error .flowControl
  else .ok ({ fc with consumed := consumed }, consumed - fc.consumed)

/-!
## Limits on the number of streams

A `RemoteStreamLimit` counts the streams of one type that the peer opens, `LocalStreamLimits` those
that this endpoint opens.
-/

/-- Retire `count` streams more. This sends flow control updates immediately. -/
def ReceiverFlowControl.addRetiredStreams (count : ℕ) : ReceiverFlowControl StreamType :=
  let fc := { fc with retired := fc.retired + count }
  if count > 0 then fc.sendFlowcUpdate else fc

lemma ReceiverFlowControl.addRetiredStreams_spec (count : ℕ) :
    (fc.addRetiredStreams count).retired = fc.retired + count ∧
      (fc.addRetiredStreams count).maxActive = fc.maxActive ∧
      (0 < count →
        (fc.addRetiredStreams count).maxAllowed < (fc.addRetiredStreams count).nextLimit →
        (fc.addRetiredStreams count).framePending = true) := by
  unfold addRetiredStreams sendFlowcUpdate
  dsimp only
  split_ifs with hcount hlt
  · exact ⟨rfl, rfl, fun _ _ => rfl⟩
  · exact ⟨rfl, rfl, fun _ h => absurd (h.trans_le (min_le_left _ _)) hlt⟩
  · exact ⟨rfl, rfl, fun h => absurd h hcount⟩

/-- Check if a received item is within the allowed flow control limit. -/
def ReceiverFlowControl.checkAllowed (newEnd : ℕ) : Bool :=
  newEnd < fc.maxAllowed

/-- The streams of one type that the peer opens. -/
structure RemoteStreamLimit where
  streamsFc : ReceiverFlowControl StreamType
  nextStream : StreamId
  deriving DecidableEq, Repr

namespace RemoteStreamLimit

def new (streamType : StreamType) (maxStreams : ℕ) (role : Role) : RemoteStreamLimit :=
  { streamsFc := .new streamType maxStreams
    -- This is for a stream created by a peer.
    nextStream := .init streamType role.remote }

def isAllowed (l : RemoteStreamLimit) (streamId : StreamId) : Bool :=
  l.streamsFc.checkAllowed (streamId.asU64 >>> 2)

def isNewStream (l : RemoteStreamLimit) (streamId : StreamId) : Except Error Bool :=
  if !l.isAllowed streamId then .error .streamLimit else .ok (l.nextStream ≤ streamId)

/-- The next stream. The source asserts that it is allowed (`isAllowed_nextStream`). -/
def takeStreamId (l : RemoteStreamLimit) : RemoteStreamLimit × StreamId :=
  ({ l with nextStream := l.nextStream.next }, l.nextStream)

/-- While a stream is new, all streams up to it are allowed. -/
lemma isAllowed_nextStream {l : RemoteStreamLimit} {id : StreamId}
    (h : l.isNewStream id = .ok true) : l.isAllowed l.nextStream := by
  unfold isNewStream at h
  split_ifs at h with hid
  have hle : l.nextStream ≤ id := of_decide_eq_true (Except.ok.inj h)
  simp only [isAllowed, ReceiverFlowControl.checkAllowed, Nat.shiftRight_eq_div_pow,
    Bool.not_eq_true', decide_eq_false_iff_not, not_not, decide_eq_true_eq] at hid ⊢
  exact (Nat.div_le_div_right hle).trans_lt hid

end RemoteStreamLimit

/-- One value for each type of stream. -/
structure StreamTypeMap (α : Type) where
  biDi : α
  uniDi : α
  deriving DecidableEq, Repr

namespace StreamTypeMap

variable {α : Type}

def get (m : StreamTypeMap α) : StreamType → α
  | .biDi => m.biDi
  | .uniDi => m.uniDi

def set (m : StreamTypeMap α) (streamType : StreamType) (a : α) : StreamTypeMap α :=
  match streamType with
  | .biDi => { m with biDi := a }
  | .uniDi => { m with uniDi := a }

def modify (m : StreamTypeMap α) (streamType : StreamType) (f : α → α) : StreamTypeMap α :=
  m.set streamType (f (m.get streamType))

end StreamTypeMap

/-- Apply `f` to the flow control. -/
def RemoteStreamLimit.modifyFc (l : RemoteStreamLimit)
    (f : ReceiverFlowControl StreamType → ReceiverFlowControl StreamType) : RemoteStreamLimit :=
  { l with streamsFc := f l.streamsFc }

/-- The limits for streams that the peer opens. -/
abbrev RemoteStreamLimits := StreamTypeMap RemoteStreamLimit

def RemoteStreamLimits.new (localMaxStreamBidi localMaxStreamUni : ℕ) (role : Role) :
    RemoteStreamLimits :=
  { biDi := .new .biDi localMaxStreamBidi role, uniDi := .new .uniDi localMaxStreamUni role }

/-- The streams that this endpoint opens. -/
structure LocalStreamLimits where
  limits : StreamTypeMap (SenderFlowControl StreamType)
  roleBit : ℕ
  deriving DecidableEq, Repr

namespace LocalStreamLimits

def new (role : Role) : LocalStreamLimits :=
  { limits :=
      { biDi := { subject := .biDi, limit := 0 }, uniDi := { subject := .uniDi, limit := 0 } }
    roleBit := StreamId.roleBit role }

/-- Open a stream, or note that the limit blocks it. -/
def takeStreamId (l : LocalStreamLimits) (streamType : StreamType) :
    LocalStreamLimits × Option StreamId :=
  let fc := l.limits.get streamType
  if fc.available > 0 then
    let newStream := fc.used
    ({ l with limits := l.limits.set streamType (fc.consume 1) },
      some ⟨(newStream <<< 2) + streamType.toNat + l.roleBit⟩)
  else ({ l with limits := l.limits.set streamType fc.blocked }, none)

/-- Apply `f` to the limit of a type. -/
def modify (l : LocalStreamLimits) (streamType : StreamType)
    (f : SenderFlowControl StreamType → SenderFlowControl StreamType) : LocalStreamLimits :=
  { l with limits := l.limits.modify streamType f }

end LocalStreamLimits

end Neqo
