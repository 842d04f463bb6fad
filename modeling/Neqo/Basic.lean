import Neqo.Codec

/-!
# Errors, frames and packets

The errors that the modelled functions can return, and results that keep the state of the receiver
of a method that takes `&mut self`, also when it fails.
-/

namespace Neqo

/-- Transport errors. -/
inductive Error where
  | connectionIdLimitExceeded
  | connectionIdsExhausted
  | decrypt
  | finalSize
  | flowControl
  | frameEncoding
  | internal
  | invalidInput
  | invalidMigration
  | invalidStreamId
  | keysExhausted
  | keysPending
  | keyUpdateBlocked
  | noMoreData
  | packetNumberOverlap
  | protocolViolation
  | streamLimit
  | streamState
  | tooMuchData
  | transportParameter
  | unknownFrameType
  | versionNegotiation
  deriving DecidableEq, Repr

/-- How a function can fail: an assertion in it does not hold, or it returns an error. -/
inductive Failure where
  | assertion
  | error (error : Error)
  deriving DecidableEq, Repr

/-- The result of a fallible method without a return value. -/
abbrev Res := Except Error Unit

lemma bind_eq_ok {ε α β : Type} {x : Except ε α} {f : α → Except ε β} {b : β} :
    (x >>= f) = .ok b ↔ ∃ a, x = .ok a ∧ f a = .ok b := by
  cases x with
  | error => exact ⟨nofun, nofun⟩
  | ok a => exact ⟨fun h => ⟨a, rfl, h⟩, fun ⟨_, ha, h⟩ => by cases ha; exact h⟩

lemma map_eq_ok {ε α β : Type} {x : Except ε α} {f : α → β} {b : β} :
    f <$> x = .ok b ↔ ∃ a, x = .ok a ∧ f a = b := by
  cases x with
  | error => exact ⟨nofun, nofun⟩
  | ok a => exact ⟨fun h => ⟨a, rfl, Except.ok.inj h⟩, fun ⟨_, ha, h⟩ => by cases ha; cases h; rfl⟩

/-!
## Stream identifiers, frame types and recovery tokens
-/

/-- The role of an endpoint. -/
inductive Role where
  | client
  | server
  deriving DecidableEq, Repr

/-- The role of the peer. -/
def Role.remote : Role → Role
  | .client => .server
  | .server => .client

/-- The type of stream, either bidirectional or unidirectional. -/
inductive StreamType where
  | biDi
  | uniDi
  deriving DecidableEq, Repr

/-- The bits that are shared by all streams of this type. -/
def StreamType.toNat : StreamType → ℕ
  | .biDi => 0
  | .uniDi => 2

/-- A stream ID: two bits for the role that opened it and its type, and an index. -/
structure StreamId where
  asU64 : ℕ
  deriving DecidableEq, Repr

namespace StreamId

/-- Stream IDs are ordered as numbers. -/
instance : LinearOrder StreamId := LinearOrder.lift' StreamId.asU64 fun a b h => by
  obtain ⟨a⟩ := a
  exact congrArg StreamId.mk h

/-- A bit that is shared by all streams created by this role. -/
def roleBit : Role → ℕ
  | .server => 1
  | .client => 0

/-- The highest number of streams of a type that a peer can be allowed. -/
def maxStreamsLimit : ℕ := 2 ^ 60

/-- The first stream ID of a type and role. -/
def init (streamType : StreamType) (role : Role) : StreamId :=
  ⟨streamType.toNat + roleBit role⟩

variable (id : StreamId)

def isBidi : Bool := id.asU64 &&& 0x02 = 0

def isUni : Bool := !id.isBidi

def streamType : StreamType := if id.isBidi then .biDi else .uniDi

def isClientInitiated : Bool := id.asU64 &&& 0x01 = 0

def isServerInitiated : Bool := !id.isClientInitiated

def isSelfInitiated (myRole : Role) : Bool :=
  match myRole with
  | .client => id.isClientInitiated
  | .server => id.isServerInitiated

def isRemoteInitiated (myRole : Role) : Bool := !id.isSelfInitiated myRole

def isSendOnly (myRole : Role) : Bool := id.isUni && id.isSelfInitiated myRole

def isRecvOnly (myRole : Role) : Bool := id.isUni && id.isRemoteInitiated myRole

/-- The next stream ID of the same type and role. -/
def next : StreamId := ⟨id.asU64 + 4⟩

/-- The stream index of this stream ID. -/
def index : ℕ := id.asU64 >>> 2

end StreamId

/-- Frame types. -/
inductive FrameType where
  | padding
  | ping
  | ack
  | ackEcn
  | resetStream
  | stopSending
  | crypto
  | newToken
  | stream (fin len off : Bool)
  | maxData
  | maxStreamData
  | maxStreams (streamType : StreamType)
  | dataBlocked
  | streamDataBlocked
  | streamsBlocked (streamType : StreamType)
  | newConnectionId
  | retireConnectionId
  | pathChallenge
  | pathResponse
  | connectionCloseTransport
  | connectionCloseApplication
  | handshakeDone
  | resetStreamAt
  | ackFrequency
  | datagram
  | datagramWithLen
  deriving DecidableEq, Repr

/-- The code of a frame type on the wire. -/
def FrameType.toNat : FrameType → ℕ
  | .padding => 0x0
  | .ping => 0x1
  | .ack => 0x2
  | .ackEcn => 0x3
  | .resetStream => 0x4
  | .stopSending => 0x5
  | .crypto => 0x6
  | .newToken => 0x7
  | .stream fin len off =>
    0x08 + (if fin then 1 else 0) + (if len then 2 else 0) + (if off then 4 else 0)
  | .maxData => 0x10
  | .maxStreamData => 0x11
  | .maxStreams .biDi => 0x12
  | .maxStreams .uniDi => 0x13
  | .dataBlocked => 0x14
  | .streamDataBlocked => 0x15
  | .streamsBlocked .biDi => 0x16
  | .streamsBlocked .uniDi => 0x17
  | .newConnectionId => 0x18
  | .retireConnectionId => 0x19
  | .pathChallenge => 0x1a
  | .pathResponse => 0x1b
  | .connectionCloseTransport => 0x1c
  | .connectionCloseApplication => 0x1d
  | .handshakeDone => 0x1e
  | .resetStreamAt => 0x24
  | .ackFrequency => 0xaf
  | .datagram => 0x30
  | .datagramWithLen => 0x31

/-- The frame type with a code. -/
def FrameType.fromRepr : ℕ → Option FrameType
  | 0x0 => some .padding
  | 0x1 => some .ping
  | 0x2 => some .ack
  | 0x3 => some .ackEcn
  | 0x4 => some .resetStream
  | 0x5 => some .stopSending
  | 0x6 => some .crypto
  | 0x7 => some .newToken
  | 0x08 => some (.stream false false false)
  | 0x09 => some (.stream true false false)
  | 0x0a => some (.stream false true false)
  | 0x0b => some (.stream true true false)
  | 0x0c => some (.stream false false true)
  | 0x0d => some (.stream true false true)
  | 0x0e => some (.stream false true true)
  | 0x0f => some (.stream true true true)
  | 0x10 => some .maxData
  | 0x11 => some .maxStreamData
  | 0x12 => some (.maxStreams .biDi)
  | 0x13 => some (.maxStreams .uniDi)
  | 0x14 => some .dataBlocked
  | 0x15 => some .streamDataBlocked
  | 0x16 => some (.streamsBlocked .biDi)
  | 0x17 => some (.streamsBlocked .uniDi)
  | 0x18 => some .newConnectionId
  | 0x19 => some .retireConnectionId
  | 0x1a => some .pathChallenge
  | 0x1b => some .pathResponse
  | 0x1c => some .connectionCloseTransport
  | 0x1d => some .connectionCloseApplication
  | 0x1e => some .handshakeDone
  | 0x24 => some .resetStreamAt
  | 0xaf => some .ackFrequency
  | 0x30 => some .datagram
  | 0x31 => some .datagramWithLen
  | _ => none

lemma FrameType.fromRepr_toNat (t : FrameType) : fromRepr t.toNat = some t := by
  cases t with
  | stream fin len off => cases fin <;> cases len <;> cases off <;> rfl
  | maxStreams streamType | streamsBlocked streamType => cases streamType <;> rfl
  | _ => rfl

/-- The frames that belong to streams, as they are received. -/
inductive Frame where
  | resetStream (streamId : StreamId) (applicationErrorCode finalSize : ℕ)
  | resetStreamAt (streamId : StreamId) (applicationErrorCode finalSize reliableSize : ℕ)
  | stopSending (streamId : StreamId) (applicationErrorCode : ℕ)
  | stream (fin : Bool) (streamId : StreamId) (offset : ℕ) (data : Bytes)
  | maxData (maximumData : ℕ)
  | maxStreamData (streamId : StreamId) (maximumStreamData : ℕ)
  | maxStreams (streamType : StreamType) (maximumStreams : ℕ)
  | dataBlocked (dataLimit : ℕ)
  | streamDataBlocked (streamId : StreamId) (streamDataLimit : ℕ)
  | streamsBlocked (streamType : StreamType) (streamLimit : ℕ)
  deriving DecidableEq, Repr

/-- The type of a `STREAM` frame. -/
def Frame.streamType (fin nonzeroOffset fill : Bool) : FrameType :=
  .stream fin (!fill) nonzeroOffset

/-- What is remembered of a `STREAM` frame in order to handle its acknowledgment or loss. -/
structure RecoveryToken where
  id : StreamId
  offset : ℕ
  length : ℕ
  fin : Bool
  deriving DecidableEq, Repr

/-- Recovery tokens of frames that belong to streams. -/
inductive StreamRecoveryToken where
  | stream (token : RecoveryToken)
  | resetStream (streamId : StreamId)
  | stopSending (streamId : StreamId)
  | maxData (limit : ℕ)
  | dataBlocked (limit : ℕ)
  | maxStreamData (streamId : StreamId) (maxData : ℕ)
  | streamDataBlocked (streamId : StreamId) (limit : ℕ)
  | maxStreams (streamType : StreamType) (maxStreams : ℕ)
  | streamsBlocked (streamType : StreamType) (limit : ℕ)
  deriving DecidableEq, Repr

/-- The tokens of a packet. -/
abbrev Tokens := List StreamRecoveryToken

/-!
## Packets
-/

/-- The types of packets that are numbered. -/
inductive PacketType where
  | initial
  | zeroRtt
  | handshake
  | short
  deriving DecidableEq, Repr

/-- The spaces in which packets are numbered. -/
inductive PacketNumberSpace where
  | initial
  | handshake
  | applicationData
  deriving DecidableEq, Repr

namespace PacketNumberSpace

/-- The space in which packets of a type are numbered. -/
def ofType : PacketType → PacketNumberSpace
  | .initial => .initial
  | .handshake => .handshake
  | .zeroRtt => .applicationData
  | .short => .applicationData

/-- Spaces are ordered as they come into use. -/
def index : PacketNumberSpace → ℕ
  | .initial => 0
  | .handshake => 1
  | .applicationData => 2

/-- The earlier one of two spaces. -/
def min (a b : PacketNumberSpace) : PacketNumberSpace := if a.index ≤ b.index then a else b

/-- All spaces, in order. -/
def all : List PacketNumberSpace := [.initial, .handshake, .applicationData]

end PacketNumberSpace

/-- One value for each packet number space. -/
structure SpaceMap (α : Type) where
  initial : α
  handshake : α
  applicationData : α
  deriving DecidableEq, Repr

namespace SpaceMap

variable {α : Type}

def get (m : SpaceMap α) : PacketNumberSpace → α
  | .initial => m.initial
  | .handshake => m.handshake
  | .applicationData => m.applicationData

def set (m : SpaceMap α) (space : PacketNumberSpace) (a : α) : SpaceMap α :=
  match space with
  | .initial => { m with initial := a }
  | .handshake => { m with handshake := a }
  | .applicationData => { m with applicationData := a }

variable (m : SpaceMap α)

@[simp] lemma get_set_self (space : PacketNumberSpace) (a : α) : (m.set space a).get space = a := by
  cases space <;> rfl

lemma get_set_of_ne {space space' : PacketNumberSpace} (h : space' ≠ space) (a : α) :
    (m.set space a).get space' = m.get space' := by
  cases space <;> cases space' <;> first | rfl | exact absurd rfl h

lemma get_set (space space' : PacketNumberSpace) (a : α) :
    (m.set space a).get space' = if space' = space then a else m.get space' := by
  by_cases h : space' = space
  · rw [if_pos h, h, get_set_self]
  · rw [if_neg h, get_set_of_ne m h]

end SpaceMap

/-- A set of packet number spaces. -/
abbrev PacketNumberSpaceSet := SpaceMap Bool

namespace PacketNumberSpaceSet

def empty : PacketNumberSpaceSet := ⟨false, false, false⟩

def all : PacketNumberSpaceSet := ⟨true, true, true⟩

variable (s : PacketNumberSpaceSet) (space : PacketNumberSpace)

def insert : PacketNumberSpaceSet :=
  SpaceMap.set s space true

def remove : PacketNumberSpaceSet :=
  SpaceMap.set s space false

def contains : Bool := SpaceMap.get s space

def union (t : PacketNumberSpaceSet) : PacketNumberSpaceSet :=
  ⟨s.initial || t.initial, s.handshake || t.handshake, s.applicationData || t.applicationData⟩

end PacketNumberSpaceSet

/-!
### Packet builder

What writing frames uses of `packet::Builder`: the bytes so far, the limit and the state of padding.
-/

/-- A packet under construction. -/
structure Builder where
  /-- What has been encoded so far. -/
  bytes : Bytes := []
  /-- Where the header of this packet starts. -/
  headerStart : ℕ := 0
  limit : ℕ
  padding : Bool := false
  padded : Bool := false
  deriving DecidableEq, Repr

namespace Builder

/-- No useful frame is smaller than this. -/
def minimumFrameSize : ℕ := 2

variable (b : Builder)

def len : ℕ := b.bytes.length

def isLong : Bool :=
  match b.bytes[b.headerStart]? with
  | some first => first &&& 0x80 = 0x80
  | none => false

/-- How many bytes remain against the size limit for the builder. -/
def remaining : ℕ := b.limit - b.len

/-- Whether the packet has no more space for frames. -/
def isFull : Bool := b.limit < b.len + minimumFrameSize

/-- Adjust the limit to ensure that no more data is added. -/
def markFull : Builder := { b with limit := b.len }

/-- Append bytes. -/
def encode (bytes : Bytes) : Builder := { b with bytes := b.bytes ++ bytes }

/-- Maybe pad with `PADDING` frames, so that a final frame of `len` bytes ends at the limit, if
padding was needed and this is a short packet. -/
def padBefore (len : ℕ) : Builder :=
  if b.padding ∧ ¬ b.isLong ∧ len < b.remaining then
    { b.encode (List.replicate (b.limit - len - b.len) 0) with padded := true }
  else b

/-- Encode a frame: its type and its content. -/
def encodeFrame (frameType : FrameType) (content : Bytes) : Builder :=
  b.encode (Encoder.encodeVarint frameType.toNat ++ content)

/-- Write a frame that is a collection of varints, if it fits. The result says whether a frame
was written. -/
def writeVarintFrame (frameType : FrameType) (values : List ℕ) : Builder × Bool :=
  let size := ((frameType.toNat :: values).map Encoder.varintLen).sum
  if b.remaining ≥ size then
    (b.encodeFrame frameType (values.flatMap Encoder.encodeVarint), true)
  else (b, false)

end Builder

end Neqo
