import Neqo.RecvStream.Basic
import Neqo.SendStream.Basic
import Neqo.Util.IndexMap

/-!
# The streams of a connection

`Streams` owns the sending and the receiving half of every stream, creates them as the peer or the
application asks for them, dispatches frames, acknowledgments and losses to them, and drops those
that have ended in `cleanupClosedStreams`.

* `SendStreams`, `RecvStreams` — the two maps; each notes in `hasEnded` that a stream of it ended.
* `Streams` — both maps, the flow control of the connection and the limits on streams.

The order in which `SendStreams` visits its streams when it writes frames is not modelled here: the
queues of send groups do not bear on which streams there are.
-/

namespace Neqo

/-- The transport parameters that matter to streams. -/
structure TransportParameters where
  initialMaxData : ℕ := 0
  initialMaxStreamDataBidiLocal : ℕ := 0
  initialMaxStreamDataBidiRemote : ℕ := 0
  initialMaxStreamDataUni : ℕ := 0
  initialMaxStreamsBidi : ℕ := 0
  initialMaxStreamsUni : ℕ := 0
  resetStreamAt : Bool := false
  deriving DecidableEq, Repr

/-! ### Send streams -/

/-- The sending halves of streams. -/
structure SendStreams where
  map : IndexMap StreamId SendStream := .empty
  /-- Set when any stream has ended; cleared by `removeEnded`. -/
  hasEnded : Bool := false

namespace SendStreams

variable (ss : SendStreams) (id : StreamId)

def get? : Option SendStream := ss.map.get? id

def «exists» : Bool := ss.map.containsKey id

def insert (stream : SendStream) : SendStreams :=
  { ss with map := ss.map.insert id stream }

/-- Apply `f` to a stream, if it is there. -/
def modify (f : SendStream → SendStream) : SendStreams :=
  match ss.get? id with
  | some s => ss.insert id (f s)
  | none => ss

/-- Apply `f` to a stream, if it is there, and note whether it has ended. -/
def modifyNoting (f : SendStream → SendStream) : SendStreams :=
  match ss.get? id with
  | some s => { ss.insert id (f s) with hasEnded := ss.hasEnded || (f s).isEnded }
  | none => ss

def acked (token : RecoveryToken) : SendStreams :=
  ss.modifyNoting token.id fun s => s.markAsAcked token.offset token.length token.fin

def resetAcked : SendStreams :=
  ss.modifyNoting id SendStream.resetAcked

def lost (token : RecoveryToken) : SendStreams :=
  ss.modify token.id fun s => s.markAsLost token.offset token.length token.fin

def resetLost : SendStreams := ss.modify id SendStream.resetLost

def blockedLost (limit : ℕ) : SendStreams :=
  ss.modify id fun s => s.blockedLost limit

/-- Remove ended streams. Returns `true` if any were removed. -/
def removeEnded : SendStreams × Bool :=
  if !ss.hasEnded then (ss, false)
  else
    ({ map := ss.map.retain fun _ s => !s.isEnded, hasEnded := false },
      ss.map.entries.any fun e => e.2.isEnded)

/-- As a client, raise the limits of streams that were created with remembered parameters. -/
def updateInitialLimit (remote : TransportParameters) : SendStreams :=
  let limit (id : StreamId) : ℕ :=
    if id.isBidi then remote.initialMaxStreamDataBidiRemote else remote.initialMaxStreamDataUni
  { ss with map := ss.map.mapValues fun id s => s.setMaxStreamData (limit id) }

end SendStreams

/-! ### Receive streams -/

/-- The receiving halves of streams. -/
structure RecvStreams where
  streams : OrdMap StreamId RecvStream := .empty
  /-- Set when any stream has ended; cleared by `removeEnded`. -/
  hasEnded : Bool := false
  role : Role

namespace RecvStreams

variable (rs : RecvStreams)

def get? (id : StreamId) : Option RecvStream := rs.streams.get? id

def insert (id : StreamId) (stream : RecvStream) : RecvStreams :=
  { rs with streams := rs.streams.insert id stream }

def setEnded (ended : Bool) : RecvStreams :=
  { rs with hasEnded := rs.hasEnded || ended }

def clear : RecvStreams := { rs with streams := .empty, hasEnded := false }

variable (sessionFc : SessionFc)

/-- Read from a stream, noting when it ends. -/
def read (id : StreamId) (bufLen : ℕ) : RecvStreams × SessionFc × Except Error (Bytes × Bool) :=
  match rs.get? id with
  | none => (rs, sessionFc, .error .invalidStreamId)
  | some s =>
    let (s, sessionFc, r) := s.read sessionFc bufLen
    match r with
    | .error e => (rs.insert id s, sessionFc, .error e)
    -- A read can end the stream cleanly or by draining the reliable prefix of a reset.
    | .ok r => ((rs.insert id s).setEnded s.isEnded, sessionFc, .ok r)

/-- Stop sending on a stream, noting when it ends. -/
def stopSending (id : StreamId) (err : ℕ) : RecvStreams × SessionFc × Res :=
  match rs.get? id with
  | none => (rs, sessionFc, .error .invalidStreamId)
  | some s =>
    let (s, sessionFc, ended) := s.stopSending sessionFc err
    ((rs.insert id s).setEnded ended, sessionFc, .ok ())

/-- Handle a `RESET_STREAM` or `RESET_STREAM_AT` for a stream, noting if it ended. -/
def reset (id : StreamId) (applicationErrorCode finalSize reliableSize : ℕ) :
    RecvStreams × SessionFc × Res :=
  match rs.get? id with
  | none => (rs, sessionFc, .ok ())
  | some s =>
    let (s, sessionFc, r) := s.reset sessionFc applicationErrorCode finalSize reliableSize
    match r with
    | .error e => (rs.insert id s, sessionFc, .error e)
    | .ok ended => ((rs.insert id s).setEnded ended, sessionFc, .ok ())

/-- Note whether a stop-sending ack ended the stream. -/
def stopSendingAcked (id : StreamId) : RecvStreams :=
  match rs.get? id with
  | none => rs
  | some s =>
    let (s, ended) := s.stopSendingAcked
    (rs.insert id s).setEnded ended

/-- Whether a stream can be dropped: it ended, and it has no sending half left. -/
def dead (sendStreams : SendStreams) (id : StreamId) (s : RecvStream) : Bool :=
  s.isEnded && (id.isUni || !sendStreams.exists id)

/-- Remove ended streams. Returns how many bidirectional and unidirectional streams of the peer
were removed. -/
def removeEnded (sendStreams : SendStreams) : RecvStreams × ℕ × ℕ :=
  if !rs.hasEnded then (rs, 0, 0)
  else
    let removed := rs.streams.entries.filter fun e =>
      dead sendStreams e.1 e.2 && e.1.isRemoteInitiated rs.role
    ({ rs with streams := rs.streams.retain fun id s => !dead sendStreams id s, hasEnded := false },
      (removed.filter fun e => e.1.isBidi).length, (removed.filter fun e => !e.1.isBidi).length)

/-- Write frames for the given streams, in order, until the packet is full. -/
def writeFramesFor : List StreamId → RecvStreams → Builder → Tokens → ℕ → ℕ →
    RecvStreams × Builder × Tokens
  | [], rs, b, tokens, _, _ => (rs, b, tokens)
  | id :: ids, rs, b, tokens, now, rtt =>
    match rs.get? id with
    | none => writeFramesFor ids rs b tokens now rtt
    | some s =>
      let (s, b, tokens) := s.writeFrame b tokens now rtt
      if b.isFull then (rs.insert id s, b, tokens)
      else writeFramesFor ids (rs.insert id s) b tokens now rtt

def writeFrames (b : Builder) (tokens : Tokens) (now rtt : ℕ) : RecvStreams × Builder × Tokens :=
  writeFramesFor rs.streams.keys rs b tokens now rtt

end RecvStreams

/-! ### Both halves -/

/-- The streams of a connection. -/
structure Streams where
  role : Role
  /-- The transport parameters of this endpoint. -/
  localParams : TransportParameters
  /-- The transport parameters of the peer. -/
  remoteParams : TransportParameters
  senderFc : ConnFc
  receiverFc : SessionFc
  remoteStreamLimits : RemoteStreamLimits
  localStreamLimits : LocalStreamLimits
  send : SendStreams
  recv : RecvStreams

namespace Streams

def new (role : Role) (localParams : TransportParameters) : Streams :=
  { role := role
    localParams := localParams
    remoteParams := {}
    senderFc := { subject := (), limit := 0 }
    receiverFc := .new () localParams.initialMaxData
    remoteStreamLimits :=
      .new localParams.initialMaxStreamsBidi localParams.initialMaxStreamsUni role
    localStreamLimits := .new role
    send := {}
    recv := { role := role } }

variable (s : Streams)

def clearStreams : Streams := { s with send := {}, recv := s.recv.clear }

def zeroRttRejected : Streams :=
  { s.clearStreams with
    -- Rejected data does not count against the new 1-RTT flow-control limit.
    senderFc := { subject := (), limit := 0 }
    localStreamLimits := .new s.role }

/-! #### Creating streams -/

/-- The receive window of a stream that the peer opens. -/
def recvInitialMaxStreamData : StreamType → ℕ
  | .biDi => s.localParams.initialMaxStreamDataBidiRemote
  | .uniDi => s.localParams.initialMaxStreamDataUni

variable (streamType : StreamType)

/-- Create the next stream of a type that the peer opens. -/
def createNextRemote : Streams :=
  let (limit, id) := (s.remoteStreamLimits.get streamType).takeStreamId
  { s with
    remoteStreamLimits := s.remoteStreamLimits.set streamType limit
    recv := s.recv.insert id (.new id (s.recvInitialMaxStreamData streamType))
    send :=
      if id.isBidi then s.send.insert id (.new id s.remoteParams.initialMaxStreamDataBidiLocal)
      else s.send }

/-- Create streams while the given one is new; the fuel bounds their number. -/
def createWhileNew : ℕ → Streams → StreamId → Streams × Res
  | 0, s, _ => (s, .ok ())
  | fuel + 1, s, id =>
    match (s.remoteStreamLimits.get id.streamType).isNewStream id with
    | .error e => (s, .error e)
    | .ok false => (s, .ok ())
    | .ok true => createWhileNew fuel (s.createNextRemote id.streamType) id

variable (id : StreamId)

def ensureCreatedIfRemote : Streams × Res :=
  if !id.isRemoteInitiated s.role then (s, .ok ())
  -- There are at most as many new streams as there are smaller stream IDs.
  else createWhileNew (id.asU64 + 1) s id

/-- Get or make a stream, and implicitly open additional streams as indicated by its stream ID. -/
def obtainStream : Streams × Except Error (Option SendStream × Option RecvStream) :=
  let (s, r) := s.ensureCreatedIfRemote id
  match r with
  | .error e => (s, .error e)
  | .ok () =>
    let ss := s.send.get? id
    let rs := s.recv.get? id
    -- A locally initiated stream that was never opened is illegal.
    if ss.isNone ∧ rs.isNone ∧ ¬ id.isRemoteInitiated s.role
        ∧ (s.localStreamLimits.limits.get id.streamType).used ≤ id.index then
      (s, .error .streamState)
    else (s, .ok (ss, rs))

def streamCreate (st : StreamType) : Streams × Except Error StreamId :=
  let (limits, r) := s.localStreamLimits.takeStreamId st
  let s := { s with localStreamLimits := limits }
  match r with
  | none => (s, .error .streamLimit)
  | some newId =>
    let sendLimit :=
      match st with
      | .uniDi => s.remoteParams.initialMaxStreamDataUni
      | .biDi => s.remoteParams.initialMaxStreamDataBidiRemote
    let s := { s with send := s.send.insert newId (.new newId sendLimit) }
    match st with
    | .uniDi => (s, .ok newId)
    | .biDi =>
      ({ s with recv :=
          s.recv.insert newId (.new newId s.localParams.initialMaxStreamDataBidiLocal) }, .ok newId)

/-! #### Frames of the peer -/

/-- Process a `RESET_STREAM` or a `RESET_STREAM_AT`. -/
def inputReset (applicationErrorCode finalSize reliableSize : ℕ) : Streams × Res :=
  -- It is an error on a send-only stream.
  if id.isSendOnly s.role then (s, .error .streamState)
  else
    let (s, r) := s.obtainStream id
    match r with
    | .error e => (s, .error e)
    | .ok (_, none) => (s, .ok ())
    | .ok (_, some _) =>
      let (recv, fc, r) := s.recv.reset s.receiverFc id applicationErrorCode finalSize reliableSize
      ({ s with recv := recv, receiverFc := fc }, r)

/-- Process a frame that is for the sending half of a stream. -/
def inputForSend (f : SendStream → SendStream) : Streams × Res :=
  -- It is an error on a receive-only stream.
  if id.isRecvOnly s.role then (s, .error .streamState)
  else
    let (s, r) := s.obtainStream id
    match r with
    | .error e => (s, .error e)
    | .ok (none, _) => (s, .ok ())
    | .ok (some ss, _) => ({ s with send := s.send.insert id (f ss) }, .ok ())

/-- Process a frame that is for the receiving half of a stream. -/
def inputForRecv (f : RecvStream → SessionFc → RecvStream × SessionFc × Res) : Streams × Res :=
  -- It is an error on a send-only stream.
  if id.isSendOnly s.role then (s, .error .streamState)
  else
    let (s, r) := s.obtainStream id
    match r with
    | .error e => (s, .error e)
    | .ok (_, none) => (s, .ok ())
    | .ok (_, some rs) =>
      let (rs, fc, r) := f rs s.receiverFc
      ({ s with recv := s.recv.insert id rs, receiverFc := fc }, r)

def inputFrame : Frame → Streams × Res
  | .resetStream id applicationErrorCode finalSize =>
    -- A plain `RESET_STREAM` is a reliable reset with a reliable size of 0.
    s.inputReset id applicationErrorCode finalSize 0
  | .resetStreamAt id applicationErrorCode finalSize reliableSize =>
    -- We must have advertised support to legitimately receive this frame.
    if !s.localParams.resetStreamAt then (s, .error .protocolViolation)
    else s.inputReset id applicationErrorCode finalSize reliableSize
  | .stopSending id applicationErrorCode =>
    -- The peer has no interest in this data, so drop any commitment.
    s.inputForSend id fun ss => ss.dropCommitment.reset applicationErrorCode
  | .stream fin id offset data =>
    s.inputForRecv id fun rs fc => rs.inboundStreamFrame fc fin offset data
  | .maxData maximumData => ({ s with senderFc := (s.senderFc.update maximumData).1 }, .ok ())
  | .maxStreamData id maximumStreamData =>
    s.inputForSend id fun ss => ss.setMaxStreamData maximumStreamData
  | .maxStreams streamType maximumStreams =>
    ({ s with localStreamLimits :=
        s.localStreamLimits.modify streamType fun fc => (fc.update maximumStreams).1 }, .ok ())
  | .dataBlocked _ => ({ s with receiverFc := s.receiverFc.sendFlowcUpdate }, .ok ())
  | .streamDataBlocked id _ => s.inputForRecv id fun rs fc => (rs.sendFlowcUpdate, fc, .ok ())
  -- We send an update every time we retire a stream.
  | .streamsBlocked _ _ => (s, .ok ())

/-! #### Acknowledgments and losses -/

/-- A frame that was about the receiving half of a stream was lost. -/
def recvFrameLost (f : RecvStream → RecvStream) : Streams :=
  let (s, r) := s.obtainStream id
  match r with
  | .ok (_, some rs) => { s with recv := s.recv.insert id (f rs) }
  | _ => s

def lost : StreamRecoveryToken → Streams
  | .stream token => { s with send := s.send.lost token }
  | .resetStream id => { s with send := s.send.resetLost id }
  | .streamDataBlocked id limit => { s with send := s.send.blockedLost id limit }
  | .maxStreamData id maxData => s.recvFrameLost id fun rs => rs.maxStreamDataLost maxData
  | .stopSending id => s.recvFrameLost id RecvStream.stopSendingLost
  | .streamsBlocked streamType limit =>
    { s with localStreamLimits := s.localStreamLimits.modify streamType fun fc =>
      fc.frameLost limit }
  | .maxStreams streamType maxStreams =>
    { s with remoteStreamLimits := s.remoteStreamLimits.modify streamType fun l =>
        l.modifyFc fun fc => fc.frameLost maxStreams }
  | .dataBlocked limit => { s with senderFc := s.senderFc.frameLost limit }
  | .maxData maximumData => { s with receiverFc := s.receiverFc.frameLost maximumData }

def acked : StreamRecoveryToken → Streams
  | .stream token => { s with send := s.send.acked token }
  | .resetStream id => { s with send := s.send.resetAcked id }
  | .stopSending id => { s with recv := s.recv.stopSendingAcked id }
  -- We only worry when the others are lost.
  | _ => s

/-! #### Cleaning up -/

def cleanupClosedStreams : Streams :=
  -- If any send streams were removed, bidirectional receive streams whose send counterpart just
  -- disappeared may now be clearable too.
  let (send, removed) := s.send.removeEnded
  let (recv, removedBidi, removedUni) := (s.recv.setEnded removed).removeEnded send
  let limits := s.remoteStreamLimits.modify .biDi fun l =>
    l.modifyFc fun fc => fc.addRetiredStreams removedBidi
  let limits := limits.modify .uniDi fun l =>
    l.modifyFc fun fc => fc.addRetiredStreams removedUni
  { s with send := send, recv := recv, remoteStreamLimits := limits }

/-! #### The application -/

/-- An operation of the application on the sending half of a stream. -/
def onSendStream {α : Type} (s : Streams) (id : StreamId)
    (f : SendStream → ConnFc → SendStream × ConnFc × Except Error α) : Streams × Except Error α :=
  match s.send.get? id with
  | none => (s, .error .invalidStreamId)
  | some ss =>
    let (ss, fc, r) := f ss s.senderFc
    ({ s with send := s.send.insert id ss, senderFc := fc }, r)

def streamSend (data : Bytes) (atomic : Bool) : Streams × Except Error ℕ :=
  s.onSendStream id fun ss fc => ss.sendInternal fc data atomic

def streamClose : Streams × Res :=
  s.onSendStream id fun ss fc => (ss.close, fc, .ok ())

def streamCommit : Streams × Res :=
  s.onSendStream id fun ss fc => (ss.commit.1, fc, ss.commit.2)

def streamReset (err : ℕ) : Streams × Res :=
  s.onSendStream id fun ss fc => (ss.reset err, fc, .ok ())

def streamPriority (transmission : TransmissionPriority)
    (retransmission : RetransmissionPriority) : Streams × Res :=
  s.onSendStream id fun ss fc => (ss.setPriority transmission retransmission, fc, .ok ())

/-- Read from a stream. -/
def recvData (bufLen : ℕ) : Streams × Except Error (Bytes × Bool) :=
  let (recv, fc, r) := s.recv.read s.receiverFc id bufLen
  ({ s with recv := recv, receiverFc := fc }, r)

def stopSending (err : ℕ) : Streams × Res :=
  let (recv, fc, r) := s.recv.stopSending s.receiverFc id err
  ({ s with recv := recv, receiverFc := fc }, r)

def setStreamMaxData (maxData : ℕ) : Streams × Res :=
  match s.recv.get? id with
  | none => (s, .error .invalidStreamId)
  | some rs => ({ s with recv := s.recv.insert id (rs.setStreamMaxData maxData) }, .ok ())

def setRemoteMaxStreams (max : ℕ) : Streams :=
  let max := min max StreamId.maxStreamsLimit
  if max > (s.remoteStreamLimits.get streamType).streamsFc.maxActive then
    { s with remoteStreamLimits := s.remoteStreamLimits.modify streamType fun l =>
        l.modifyFc fun fc => fc.setMaxActive max }
  else s

/-- Take the limits from the transport parameters of the peer. -/
def setInitialLimits : Streams :=
  let limits := s.localStreamLimits.modify .biDi fun fc =>
    (fc.update s.remoteParams.initialMaxStreamsBidi).1
  { s with
    localStreamLimits := limits.modify .uniDi fun fc =>
      (fc.update s.remoteParams.initialMaxStreamsUni).1
    send := if s.role = .client then s.send.updateInitialLimit s.remoteParams else s.send
    senderFc := (s.senderFc.update s.remoteParams.initialMaxData).1 }

/-! #### Writing frames -/

/-- Write the frames of the sending half of a stream. -/
def writeStream (priority : TransmissionPriority) (split : ℕ)
    (b : Builder) : Streams × Builder × Tokens :=
  match s.send.get? id with
  | none => (s, b, [])
  | some ss =>
    let (ss, fc, b, tokens) := ss.writeFrames s.senderFc priority split b []
    ({ s with send := s.send.insert id ss, senderFc := fc }, b, tokens)

/-- Write the limit on the streams of the peer. -/
def writeRemoteLimit (b : Builder) (tokens : Tokens) : Streams × Builder × Tokens :=
  let (fc, b, tokens) :=
    (s.remoteStreamLimits.get streamType).streamsFc.writeStreamsFrames b tokens
  let limits := s.remoteStreamLimits.modify streamType fun l => l.modifyFc fun _ => fc
  ({ s with remoteStreamLimits := limits }, b, tokens)

/-- Write that a limit on the streams of this endpoint blocks it. -/
def writeLocalLimit (b : Builder) (tokens : Tokens) : Streams × Builder × Tokens :=
  let (fc, b, tokens) := (s.localStreamLimits.limits.get streamType).writeStreamsFrames b tokens
  ({ s with localStreamLimits := s.localStreamLimits.modify streamType fun _ => fc }, b, tokens)

def writeMaintenanceFrames (b : Builder) (now rtt : ℕ) : Streams × Builder × Tokens :=
  -- Send `DATA_BLOCKED` as necessary.
  let (fc, b, tokens) := s.senderFc.writeFrames b []
  let s := { s with senderFc := fc }
  if b.isFull then (s, b, tokens)
  else
    -- Send `MAX_DATA` as necessary.
    let (fc, b, tokens) := s.receiverFc.writeFrames b tokens now rtt
    let s := { s with receiverFc := fc }
    if b.isFull then (s, b, tokens)
    else
      let (recv, b, tokens) := s.recv.writeFrames b tokens now rtt
      let s := { s with recv := recv }
      let (s, b, tokens) := s.writeRemoteLimit .biDi b tokens
      if b.isFull then (s, b, tokens)
      else
        let (s, b, tokens) := s.writeRemoteLimit .uniDi b tokens
        if b.isFull then (s, b, tokens)
        else
          let (s, b, tokens) := s.writeLocalLimit .biDi b tokens
          if b.isFull then (s, b, tokens)
          else s.writeLocalLimit .uniDi b tokens

/-! ### Runs -/

/-- What can happen to the streams of a connection. -/
inductive Op where
  | inputFrame (frame : Frame)
  | acked (token : StreamRecoveryToken)
  | lost (token : StreamRecoveryToken)
  | streamCreate (streamType : StreamType)
  | streamSend (id : StreamId) (data : Bytes) (atomic : Bool)
  | streamClose (id : StreamId)
  | streamCommit (id : StreamId)
  | streamReset (id : StreamId) (err : ℕ)
  | streamPriority (id : StreamId) (transmission : TransmissionPriority)
      (retransmission : RetransmissionPriority)
  | recvData (id : StreamId) (bufLen : ℕ)
  | stopSending (id : StreamId) (err : ℕ)
  | setStreamMaxData (id : StreamId) (maxData : ℕ)
  | setRemoteMaxStreams (streamType : StreamType) (max : ℕ)
  /-- The transport parameters of the peer arrive. -/
  | setInitialLimits (remote : TransportParameters)
  | zeroRttRejected
  | clearStreams
  | writeStream (id : StreamId) (priority : TransmissionPriority) (split : ℕ) (b : Builder)
  | writeMaintenanceFrames (b : Builder) (now rtt : ℕ)
  | cleanupClosedStreams

/-- The effect of an operation; what it returns to its caller is left aside. -/
def step : Op → Streams
  | .inputFrame frame => (s.inputFrame frame).1
  | .acked token => s.acked token
  | .lost token => s.lost token
  | .streamCreate streamType => (s.streamCreate streamType).1
  | .streamSend id data atomic => (s.streamSend id data atomic).1
  | .streamClose id => (s.streamClose id).1
  | .streamCommit id => (s.streamCommit id).1
  | .streamReset id err => (s.streamReset id err).1
  | .streamPriority id transmission retransmission =>
    (s.streamPriority id transmission retransmission).1
  | .recvData id bufLen => (s.recvData id bufLen).1
  | .stopSending id err => (s.stopSending id err).1
  | .setStreamMaxData id maxData => (s.setStreamMaxData id maxData).1
  | .setRemoteMaxStreams streamType max => s.setRemoteMaxStreams streamType max
  | .setInitialLimits remote => { s with remoteParams := remote }.setInitialLimits
  | .zeroRttRejected => s.zeroRttRejected
  | .clearStreams => s.clearStreams
  | .writeStream id priority split b => (s.writeStream id priority split b).1
  | .writeMaintenanceFrames b now rtt => (s.writeMaintenanceFrames b now rtt).1
  | .cleanupClosedStreams => s.cleanupClosedStreams

/-- The streams after a sequence of operations. -/
def run (ops : List Op) : Streams := ops.foldl step s

end Streams

end Neqo
