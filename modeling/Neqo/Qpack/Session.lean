import Neqo.Qpack.Instructions
import Neqo.Qpack.Table
import Neqo.Util.IndexMap
import Neqo.Util.Reader

/-!
# The encoder

The encoder decides which headers go to the dynamic table, and tells the decoder on the encoder
stream. It remembers which entries the header blocks refer to that the decoder has not
acknowledged. A failed assertion is the error `assertion`.
-/

namespace Neqo.Qpack

def qpackUniStreamTypeEncoder : UInt8 := 0x2

/-- Whether the type of the stream was sent. -/
inductive LocalStreamState where
  | noStream
  | uninitialized (streamId : StreamId)
  | initialized (streamId : StreamId)
  deriving DecidableEq, Repr

def LocalStreamState.streamId : LocalStreamState → Option StreamId
  | .noStream => none
  | .uninitialized streamId => some streamId
  | .initialized streamId => some streamId

/-- The encoder of an endpoint. -/
structure Encoder where
  table : HeaderTable := .new true
  maxTableSize : ℕ
  /-- Maximum entry count derived from the decoder's advertised table capacity. -/
  maxEntries : ℕ := 0
  instructionReader : DecoderInstructionReader := {}
  localStream : LocalStreamState := .noStream
  maxBlockedStreams : ℕ := 0
  maxTrackedStreams : ℕ
  /-- The header blocks of a stream that refer to the dynamic table, from the newest to the oldest.
  Each is a list of entries, without duplicates. -/
  unackedHeaderBlocks : IndexMap StreamId (List (List ℕ)) := .empty
  blockedStreamCnt : ℕ := 0
  useHuffman : Bool
  nextCapacity : Option ℕ := none
  recvStreamId : Option StreamId := none

namespace Encoder

def new (settings : Settings) (useHuffman : Bool) : Encoder :=
  { maxTableSize := settings.maxTableSizeEncoder
    maxTrackedStreams := settings.maxTrackedStreams
    useHuffman := useHuffman }

variable (e : Encoder) (streamId : StreamId)

/-- The decoder stream has been created. -/
def addRecvStream : Encoder × Res Unit :=
  if e.recvStreamId.isSome then (e, .error .internal)
  else ({ e with recvStreamId := some streamId }, .ok ())

/-- The encoder stream has been created. -/
def addSendStream : Encoder × Res Unit :=
  if e.localStream ≠ .noStream then (e, .error .internal)
  else ({ e with localStream := .uninitialized streamId }, .ok ())

def changeCapacity (value : ℕ) : Encoder := { e with nextCapacity := some value }

/-- Set the maximum capacity, as received in the settings. We also set our table to the maximum
that is allowed. -/
def setMaxCapacity (cap : ℕ) : Encoder × Res Unit :=
  if cap > (1 <<< 30) - 1 then (e, .error .encoderStream)
  else
    let e := { e with maxEntries := cap / additionalTableEntrySize }
    if cap = e.table.capacity then (e, .ok ())
    else (e.changeCapacity (min e.maxTableSize cap), .ok ())

def setMaxBlockedStreams (blockedStreams : ℕ) : Encoder × Res Unit :=
  if blockedStreams ≥ 2 ^ 16 then (e, .error .encoderStream)
  else ({ e with maxBlockedStreams := blockedStreams }, .ok ())

/-! ### Instructions of the decoder -/

/-- A header block of the stream refers to an entry whose insert is unacked. -/
def isBlocker (ackedInsertsCnt : ℕ) (hbList : List (List ℕ)) : Bool :=
  hbList.flatten.any fun index => index ≥ ackedInsertsCnt

def recalculateBlockedStreams : Encoder :=
  { e with
    blockedStreamCnt := e.unackedHeaderBlocks.entries.countP fun entry =>
      isBlocker e.table.ackedInsertsCnt entry.2 }

def insertCountInstruction (increment : ℕ) : Encoder × Res Unit :=
  match e.table.incrementAcked increment with
  | (table, .error _) => ({ e with table := table }, .error .decoderStream)
  | (table, .ok ()) => (recalculateBlockedStreams { e with table := table }, .ok ())

/-- The number of inserts that a header block with these references acknowledges. -/
def ackedBy (ackedInsertsCnt : ℕ) (refList : List ℕ) : ℕ :=
  refList.foldl (fun newAcked index => if index ≥ newAcked then index + 1 else newAcked)
    ackedInsertsCnt

/-- Replace the list of header blocks of a stream; a stream without any is removed. -/
def setHeaderBlocks (hbList : List (List ℕ)) : Encoder :=
  { e with
    unackedHeaderBlocks :=
      if hbList.isEmpty then e.unackedHeaderBlocks.remove streamId
      else e.unackedHeaderBlocks.insert streamId hbList }

/-- The oldest header block of the stream is acknowledged, and with it the entries it refers to. -/
def headerAck : Encoder × Res Unit :=
  match e.unackedHeaderBlocks.get? streamId with
  | none => (e, .error .decoderStream)
  | some hbList =>
    match hbList.getLast? with
    | none => (e, .error .assertion)
    | some refList =>
      match refList.foldlM HeaderTable.removeRef e.table with
      | .error err => (e, .error err)
      | .ok table =>
        let newAcked := ackedBy e.table.ackedInsertsCnt refList
        let e := setHeaderBlocks { e with table := table } streamId hbList.dropLast
        if newAcked > e.table.ackedInsertsCnt then
          e.insertCountInstruction (newAcked - e.table.ackedInsertsCnt)
        else (e, .ok ())

def streamCancellation : Encoder × Res Unit :=
  match e.unackedHeaderBlocks.get? streamId with
  | none => (e, .ok ())
  | some hbList =>
    match hbList.flatten.foldlM HeaderTable.removeRef e.table with
    | .error err => (e, .error err)
    | .ok table =>
      let wasBlocker := isBlocker e.table.ackedInsertsCnt hbList
      let e := { e with
        table := table
        unackedHeaderBlocks := e.unackedHeaderBlocks.remove streamId }
      if !wasBlocker then (e, .ok ())
      else if e.blockedStreamCnt = 0 then (e, .error .assertion)
      else ({ e with blockedStreamCnt := e.blockedStreamCnt - 1 }, .ok ())

def callInstruction (instruction : DecoderInstruction) : Encoder × Res Unit :=
  match instruction with
  | .insertCountIncrement increment =>
    if increment = 0 then (e, .error .decoderStream) else e.insertCountInstruction increment
  | .headerAck streamId => e.headerAck streamId
  | .streamCancellation streamId => e.streamCancellation streamId
  | .noInstruction => (e, .ok ())

def mapError (err : Error) : Error :=
  if err = .closedCriticalStream ∨ err = .internal ∨ err = .assertion then err else .decoderStream

/-- Read the instructions in the bytes that have arrived. -/
def readInstructions (bytes : Bytes) : Encoder × Res Unit :=
  if e.recvStreamId.isNone then (e, .error .internal)
  else
    let (reader, e, res) := Reader.loop .needMoreData DecoderInstructionReader.readInstructions
      callInstruction (bytes.length + 2) e.instructionReader e bytes
    ({ e with instructionReader := reader }, res)

/-- Receive bytes of the decoder stream. -/
def receive (bytes : Bytes) : Encoder × Res Unit :=
  let (e, res) := e.readInstructions bytes
  (e, res.mapError mapError)

/-! ### Instructions to the decoder -/

variable (conn : OutStream)

/-- Insert a new entry into the table and send the instruction to the peer. The entry is only added
if it is possible to send the instruction immediately. -/
def sendAndInsert (name value : Bytes) : Encoder × OutStream × Res ℕ :=
  let entrySize := name.length + value.length + additionalTableEntrySize
  if !e.table.insertPossible entrySize then (e, conn, .error .dynamicTableFull)
  else if e.localStream.streamId.isNone then (e, conn, .error .internal)
  else
    match conn.streamSendAtomic
      ((EncoderInstruction.insertWithNameLiteral name value).marshal e.useHuffman) with
    | (conn, false) => (e, conn, .error .encoderStreamBlocked)
    | (conn, true) =>
      let (table, res) := e.table.insert name value
      ({ e with table := table }, conn, res)

def maybeSendChangeCapacity : Encoder × OutStream × Res Unit :=
  match e.nextCapacity with
  | none => (e, conn, .ok ())
  | some cap =>
    if cap < e.table.capacity ∧ !e.table.canEvictTo cap then (e, conn, .error .dynamicTableFull)
    else
      match conn.streamSendAtomic ((EncoderInstruction.capacity cap).marshal e.useHuffman) with
      | (conn, false) => (e, conn, .error .encoderStreamBlocked)
      | (conn, true) =>
        match e.table.setCapacity cap with
        | (table, .error _) => ({ e with table := table }, conn, .error .internal)
        | (table, .ok ()) => ({ e with table := table, nextCapacity := none }, conn, .ok ())

/-- Send any encoder instructions. -/
def sendEncoderUpdates : Encoder × OutStream × Res Unit :=
  match e.localStream with
  | .noStream => (e, conn, .ok ())
  | .uninitialized streamId =>
    match conn.streamSendAtomic [qpackUniStreamTypeEncoder] with
    | (conn, false) => (e, conn, .error .encoderStreamBlocked)
    | (conn, true) => maybeSendChangeCapacity { e with localStream := .initialized streamId } conn
  | .initialized _ => e.maybeSendChangeCapacity conn

/-! ### Header blocks -/

def isStreamBlocker : Bool :=
  match e.unackedHeaderBlocks.get? streamId with
  | none => false
  | some hbList => isBlocker e.table.ackedInsertsCnt hbList

/-- What changes while headers are encoded. -/
structure Encoding where
  encoder : Encoder
  conn : OutStream
  encodedH : HeaderEncoder
  refEntries : List ℕ := []
  encoderBlocked : Bool

/-- The field line for a header that was found in one of the tables. -/
def encodeReference (encodedH : HeaderEncoder) (found : LookupResult) (value : Bytes) :
    HeaderEncoder :=
  if found.valueMatches then
    if found.staticTable then encodedH.encodeIndexedStatic found.index
    else encodedH.encodeIndexedDynamic found.index
  else encodedH.encodeLiteralWithNameRef found.staticTable found.index value

/-- Encode a header that was found in one of the tables. -/
def Encoding.encodeFound (s : Encoding) (found : LookupResult) (value : Bytes) : Res Encoding :=
  let encodedH := encodeReference s.encodedH found value
  if !found.staticTable && !s.refEntries.contains found.index then
    (s.encoder.table.addRef found.index).map fun table =>
      { s with
        encoder := { s.encoder with table := table }
        encodedH := encodedH
        refEntries := found.index :: s.refEntries }
  else .ok { s with encodedH := encodedH }

/-- Encode a header that was not found: insert it if possible, otherwise as a literal. -/
def Encoding.encodeNotFound (s : Encoding) (canBlock : Bool) (name value : Bytes) : Res Encoding :=
  if canBlock && !s.encoderBlocked then
    match s.encoder.sendAndInsert s.conn name value with
    | (e, conn, .ok index) =>
      (e.table.addRef index).map fun table =>
        { s with
          encoder := { e with table := table }
          conn := conn
          encodedH := s.encodedH.encodeIndexedDynamic index
          refEntries :=
            if s.refEntries.contains index then s.refEntries else index :: s.refEntries }
    | (e, conn, .error _) =>
      -- As soon as an instruction cannot be written or the table is full, do not try again.
      .ok { s with
        encoder := e
        conn := conn
        encodedH := s.encodedH.encodeLiteralWithNameLiteral name value
        encoderBlocked := true }
  else .ok { s with encodedH := s.encodedH.encodeLiteralWithNameLiteral name value }

def Encoding.encodeHeader (canTrack canBlock : Bool) (s : Encoding) (header : Header) :
    Res Encoding :=
  let name := asBytes header.name
  let value := header.value
  let found :=
    if canTrack then s.encoder.table.lookup name value canBlock
    else HeaderTable.staticLookup name value
  match found with
  | some found => s.encodeFound found value
  | none => s.encodeNotFound canBlock name value

/-- Count the stream if it was not a blocker and is one now. -/
def countBlocked (streamWasBlocking : Bool) (refEntries : List ℕ) : Res Encoder :=
  if !streamWasBlocking && refEntries.any fun index => index ≥ e.table.ackedInsertsCnt then
    if e.blockedStreamCnt > e.maxBlockedStreams then .error .assertion
    else .ok { e with blockedStreamCnt := e.blockedStreamCnt + 1 }
  else .ok e

/-- Remember the entries that a header block refers to. -/
def trackHeaderBlock (refEntries : List ℕ) : Encoder :=
  if refEntries.isEmpty then e
  else
    let hbList := (e.unackedHeaderBlocks.get? streamId).getD []
    { e with unackedHeaderBlocks := e.unackedHeaderBlocks.insert streamId (refEntries :: hbList) }

/-- The state before the first header. Errors are not dealt with here: literals are used if
instructions cannot be sent. -/
def startEncoding : Encoding :=
  match e.sendEncoderUpdates conn with
  | (e, conn, res) =>
    { encoder := e
      conn := conn
      encodedH := HeaderEncoder.new e.table.base e.useHuffman e.maxEntries
      encoderBlocked := match res with
        | .ok () => false
        | .error _ => true }

/-- Avoid the dynamic table unless there is space to track. -/
def canTrack : Bool :=
  e.isStreamBlocker streamId || e.unackedHeaderBlocks.containsKey streamId ||
    e.unackedHeaderBlocks.len < e.maxTrackedStreams

/-- Avoid blocking unless the stream is already blocked or there is space for blocked streams. -/
def canBlock : Bool :=
  e.isStreamBlocker streamId ||
    (e.canTrack streamId && e.blockedStreamCnt < e.maxBlockedStreams)

/-- Encode headers one after the other. -/
def Encoding.encodeHeaders (s : Encoding) (h : List Header) (streamId : StreamId) : Res Encoding :=
  h.foldlM (Encoding.encodeHeader (s.encoder.canTrack streamId) (s.encoder.canBlock streamId)) s

/-- Encode headers. -/
def encodeHeaderBlock (h : List Header) (streamId : StreamId) :
    Res (Encoder × OutStream × HeaderEncoder) := do
  let start := e.startEncoding conn
  let s ← start.encodeHeaders h streamId
  let encodedH ← s.encodedH.encodeHeaderBlockPrefix
  let e ← s.encoder.countBlocked (start.encoder.isStreamBlocker streamId) s.refEntries
  return (e.trackHeaderBlock streamId s.refEntries, s.conn, encodedH)

end Encoder

/-!
## The decoder

The decoder follows the encoder's table. A header block that refers to an insert that has not
arrived is blocked until it has.
-/

def qpackUniStreamTypeDecoder : UInt8 := 0x3

/-- The decoder of an endpoint. -/
structure Decoder where
  instructionReader : EncoderInstructionReader := {}
  table : HeaderTable := .new false
  ackedInserts : ℕ := 0
  maxEntries : ℕ
  sendBuf : Bytes := [qpackUniStreamTypeDecoder]
  localStreamId : Option StreamId := none
  maxTableSize : ℕ
  maxBlockedStreams : ℕ
  /-- Stream IDs and requested insert counts. -/
  blockedStreams : List (StreamId × ℕ) := []
  recvStreamId : Option StreamId := none
  deriving DecidableEq, Repr

namespace Decoder

def new (settings : Settings) : Decoder :=
  { maxEntries := settings.maxTableSizeDecoder >>> 5
    maxTableSize := settings.maxTableSizeDecoder
    maxBlockedStreams := settings.maxBlockedStreams }

variable (d : Decoder) (streamId : StreamId)

/-- The decoder stream has been created. -/
def addSendStream : Decoder × Res Unit :=
  if d.localStreamId.isSome then (d, .error .internal)
  else ({ d with localStreamId := some streamId }, .ok ())

/-- The encoder stream has been created. -/
def addRecvStream : Decoder × Res Unit :=
  if d.recvStreamId.isSome then (d, .error .internal)
  else ({ d with recvStreamId := some streamId }, .ok ())

/-! ### Instructions of the encoder -/

def setCapacity (cap : ℕ) : Decoder × Res Unit :=
  if cap > d.maxTableSize then (d, .error .encoderStream)
  else
    let (table, res) := d.table.setCapacity cap
    ({ d with table := table }, res)

/-- The result of an insert. -/
def inserted : HeaderTable × Res ℕ → Decoder × Res Unit
  | (table, res) =>
    ({ d with table := table }, Error.mapError (res.map fun _ => ()) .encoderStream)

def executeInstruction (instruction : DecodedEncoderInstruction) : Decoder × Res Unit :=
  match instruction with
  | .capacity value => d.setCapacity value
  | .insertWithNameRefStatic index value => d.inserted (d.table.insertWithNameRef true index value)
  | .insertWithNameRefDynamic index value => d.inserted
      (d.table.insertWithNameRef false index value)
  | .insertWithNameLiteral name value => d.inserted (d.table.insert name value)
  | .duplicate index => d.inserted (d.table.duplicate index)
  -- Unreachable: this is only called with an instruction.
  | .noInstruction => (d, .error .assertion)

def mapError (err : Error) : Error :=
  if err = .closedCriticalStream ∨ err = .internal ∨ err = .assertion then err else .encoderStream

/-- Process the instructions in the bytes that have arrived. -/
def processInstructions (bytes : Bytes) : Decoder × Res Unit :=
  let (reader, d, res) := Reader.loop .needMoreData EncoderInstructionReader.readInstructions
    executeInstruction (bytes.length + 2) d.instructionReader d bytes
  ({ d with instructionReader := reader }, res)

def readInstructions (bytes : Bytes) : Decoder × Res Unit :=
  if d.recvStreamId.isNone then (d, .error .internal) else d.processInstructions bytes

/-- Receive bytes of the encoder stream. Returns a list of unblocked streams. -/
def receive (bytes : Bytes) : Decoder × Res (List StreamId) :=
  let baseOld := d.table.base
  match d.readInstructions bytes with
  | (d, .error err) => (d, .error (mapError err))
  | (d, .ok ()) =>
    let baseNew := d.table.base
    if baseOld = baseNew then (d, .ok [])
    else
      ({ d with blockedStreams := d.blockedStreams.filter fun (_, req) => ¬ req ≤ baseNew },
        .ok ((d.blockedStreams.filter fun (_, req) => req ≤ baseNew).map Prod.fst))

/-! ### Instructions to the encoder -/

def headerAck (requiredInserts : ℕ) : Decoder :=
  { d with
    sendBuf := d.sendBuf ++ (DecoderInstruction.headerAck streamId).marshal
    ackedInserts := if requiredInserts > d.ackedInserts then requiredInserts else d.ackedInserts }

def cancelStream : Decoder :=
  if d.table.capacity > 0 then
    { d with
      blockedStreams := d.blockedStreams.filter fun (id, _) => id ≠ streamId
      sendBuf := d.sendBuf ++ (DecoderInstruction.streamCancellation streamId).marshal }
  else d

/-- Send instructions, with an increment for the inserts that have not been acknowledged; no more
inserts than there are can have been. -/
def send (conn : OutStream) : Decoder × OutStream × Res Unit :=
  if d.table.base < d.ackedInserts then (d, conn, .error .assertion)
  else
    let increment := d.table.base - d.ackedInserts
    let d :=
      if increment > 0 then
        { d with
          sendBuf := d.sendBuf ++ (DecoderInstruction.insertCountIncrement increment).marshal
          ackedInserts := d.table.base }
      else d
    if !d.sendBuf.isEmpty && d.localStreamId.isSome then
      let (conn, amount) := conn.streamSend d.sendBuf
      ({ d with sendBuf := d.sendBuf.drop amount }, conn, .ok ())
    else (d, conn, .ok ())

/-! ### Header blocks -/

/-- Decode a complete header block. Returns `none` if the stream is blocked waiting for inserts. -/
def decodeHeaderBlock (buf : Bytes) (streamId : StreamId) : Decoder × Res (Option (List Header)) :=
  match HeaderDecoder.decodeHeaderBlock { buf := buf } d.table d.maxEntries d.table.base with
  | .ok (_, .blocked reqInsertCnt) =>
    if d.blockedStreams.any fun (id, _) => id = streamId then (d, .ok none)
    else if d.blockedStreams.length ≥ d.maxBlockedStreams then (d, .error .decompression)
    else ({ d with blockedStreams := d.blockedStreams ++ [(streamId, reqInsertCnt)] }, .ok none)
  | .ok (decoder, .headers h) =>
    if decoder.reqInsertCnt ≠ 0 then (d.headerAck streamId decoder.reqInsertCnt, .ok (some h))
    else (d, .ok (some h))
  | .error err => (d, .error (if err = .assertion then err else .decompression))

end Decoder

/-!
## Runs of an encoder and a decoder
-/

/-- The error that a result has. -/
def errorOf {α : Type} : Res α → Option Error
  | .ok _ => none
  | .error err => some err

/-! ### Encoders -/

/-- What happens to an encoder. -/
inductive EncoderOp where
  | addSendStream (streamId : StreamId)
  | addRecvStream (streamId : StreamId)
  | setMaxCapacity (cap : ℕ)
  | setMaxBlockedStreams (blockedStreams : ℕ)
  /-- Flow control lets so many bytes be sent on the encoder stream. -/
  | space (space : ℕ)
  | sendEncoderUpdates
  | encodeHeaderBlock (headers : List Header) (streamId : StreamId)
  /-- Bytes of the decoder stream arrive. -/
  | receive (bytes : Bytes)
  deriving DecidableEq, Repr

/-- A run of an encoder. -/
structure EncoderRun where
  encoder : Encoder
  conn : OutStream := {}
  /-- The error with which the run has ended. -/
  stopped : Option Error := none

namespace EncoderRun

def start (settings : Settings) (useHuffman : Bool) : EncoderRun :=
  { encoder := .new settings useHuffman }

/-- Whether instructions can be sent is not an error that is reported. -/
def updatesError : Res Unit → Option Error
  | .error .encoderStreamBlocked => none
  | .error .dynamicTableFull => none
  | res => errorOf res

def apply (r : EncoderRun) : EncoderOp → EncoderRun
  | .addSendStream streamId =>
    let (encoder, res) := r.encoder.addSendStream streamId
    { r with encoder := encoder, stopped := errorOf res }
  | .addRecvStream streamId =>
    let (encoder, res) := r.encoder.addRecvStream streamId
    { r with encoder := encoder, stopped := errorOf res }
  | .setMaxCapacity cap =>
    let (encoder, res) := r.encoder.setMaxCapacity cap
    { r with encoder := encoder, stopped := errorOf res }
  | .setMaxBlockedStreams blockedStreams =>
    let (encoder, res) := r.encoder.setMaxBlockedStreams blockedStreams
    { r with encoder := encoder, stopped := errorOf res }
  | .space space => { r with conn := { r.conn with space := space } }
  | .sendEncoderUpdates =>
    let (encoder, conn, res) := r.encoder.sendEncoderUpdates r.conn
    { encoder := encoder, conn := conn, stopped := updatesError res }
  | .encodeHeaderBlock headers streamId =>
    match r.encoder.encodeHeaderBlock r.conn headers streamId with
    | .error err => { r with stopped := some err }
    | .ok (encoder, conn, _) => { r with encoder := encoder, conn := conn }
  | .receive bytes =>
    let (encoder, res) := r.encoder.receive bytes
    { r with encoder := encoder, stopped := errorOf res }

def step (r : EncoderRun) (op : EncoderOp) : EncoderRun :=
  if r.stopped.isSome then r else r.apply op

def run (r : EncoderRun) (ops : List EncoderOp) : EncoderRun := ops.foldl step r

end EncoderRun

/-! ### Decoders -/

/-- What happens to a decoder. -/
inductive DecoderOp where
  | addSendStream (streamId : StreamId)
  | addRecvStream (streamId : StreamId)
  /-- Bytes of the encoder stream arrive. -/
  | receive (bytes : Bytes)
  | decodeHeaderBlock (buf : Bytes) (streamId : StreamId)
  | cancelStream (streamId : StreamId)
  /-- Instructions are sent on the decoder stream, of which so many bytes can be sent. -/
  | send (space : ℕ)
  deriving DecidableEq, Repr

/-- A run of a decoder. -/
structure DecoderRun where
  decoder : Decoder
  conn : OutStream := {}
  /-- The error with which the run has ended. -/
  stopped : Option Error := none

namespace DecoderRun

def start (settings : Settings) : DecoderRun := { decoder := .new settings }

def apply (r : DecoderRun) : DecoderOp → DecoderRun
  | .addSendStream streamId =>
    let (decoder, res) := r.decoder.addSendStream streamId
    { r with decoder := decoder, stopped := errorOf res }
  | .addRecvStream streamId =>
    let (decoder, res) := r.decoder.addRecvStream streamId
    { r with decoder := decoder, stopped := errorOf res }
  | .receive bytes =>
    let (decoder, res) := r.decoder.receive bytes
    { r with decoder := decoder, stopped := errorOf res }
  | .decodeHeaderBlock buf streamId =>
    let (decoder, res) := r.decoder.decodeHeaderBlock buf streamId
    { r with decoder := decoder, stopped := errorOf res }
  | .cancelStream streamId => { r with decoder := r.decoder.cancelStream streamId }
  | .send space =>
    let (decoder, conn, res) := r.decoder.send { r.conn with space := space }
    { decoder := decoder, conn := conn, stopped := errorOf res }

def step (r : DecoderRun) (op : DecoderOp) : DecoderRun :=
  if r.stopped.isSome then r else r.apply op

def run (r : DecoderRun) (ops : List DecoderOp) : DecoderRun := ops.foldl step r

end DecoderRun

/-!
## An encoder and a decoder

The bytes that the encoder and the decoder send to each other, and the header blocks on their
streams, arrive in order but with any delay.
-/

/-- An encoder and the decoder of its peer. -/
structure Session where
  encoder : Encoder
  /-- The encoder stream. -/
  encoderStream : OutStream := {}
  /-- The number of bytes of the encoder stream that have arrived, after its type. -/
  encoderStreamRead : ℕ := 0
  decoder : Decoder
  /-- The decoder stream. -/
  decoderStream : OutStream := {}
  /-- The number of bytes of the decoder stream that have arrived, after its type. -/
  decoderStreamRead : ℕ := 0
  /-- The header blocks that have not been decoded, from the oldest. -/
  blocks : StreamId → List Bytes := fun _ => []
  /-- The header lists that have been encoded. -/
  encoded : StreamId → List (List Header) := fun _ => []
  /-- The header lists that have been decoded. -/
  decoded : StreamId → List (List Header) := fun _ => []
  /-- The errors that were reported, by either side. -/
  errors : List Error := []

namespace Session

/-- A stream never carries more bytes than that. -/
def maxStreamLength : ℕ := 2 ^ 62 - 1

/-- A step of a session. -/
inductive Op where
  /-- The encoder stream is created. -/
  | addEncoderStream (streamId : StreamId)
  /-- The decoder stream is created. -/
  | addDecoderStream (streamId : StreamId)
  /-- Flow control lets so many bytes be sent on the encoder stream. -/
  | encoderSpace (space : ℕ)
  /-- Flow control lets so many bytes be sent on the decoder stream. -/
  | decoderSpace (space : ℕ)
  | encode (streamId : StreamId) (headers : List Header)
  /-- So many bytes of the encoder stream arrive. -/
  | receiveEncoderStream (amount : ℕ)
  /-- The decoder is given the next header block of a stream. -/
  | decode (streamId : StreamId)
  /-- The decoder sends its instructions. -/
  | send
  /-- So many bytes of the decoder stream arrive. -/
  | receiveDecoderStream (amount : ℕ)

/-- What the connection has for a receiver that has read so many bytes after the type of the
stream. -/
def unread (stream : OutStream) (read : ℕ) : Bytes := stream.sent.drop (1 + read)

def setSpace (stream : OutStream) (space : ℕ) : OutStream :=
  { stream with space := min space (maxStreamLength - stream.sent.length) }

/-- Note an error. -/
def report {α : Type} (s : Session) : Res α → Session
  | .ok _ => s
  | .error err => { s with errors := s.errors ++ [err] }

/-- Add to what there is of a stream. -/
def push {α : Type} (f : StreamId → List α) (streamId : StreamId) (a : α) : StreamId → List α :=
  Function.update f streamId (f streamId ++ [a])

variable (s : Session)

def encode (streamId : StreamId) (headers : List Header) : Session :=
  match s.encoder.encodeHeaderBlock s.encoderStream headers streamId with
  | .error err => { s with errors := s.errors ++ [err] }
  | .ok (encoder, conn, encodedH) =>
    { s with
      encoder := encoder
      encoderStream := conn
      blocks := push s.blocks streamId encodedH.buf
      encoded := push s.encoded streamId headers }

def decode (streamId : StreamId) : Session :=
  match s.blocks streamId with
  | [] => s
  | block :: blocks =>
    match s.decoder.decodeHeaderBlock block streamId with
    | (decoder, .error err) => { s with decoder := decoder, errors := s.errors ++ [err] }
    | (decoder, .ok none) => { s with decoder := decoder }
    | (decoder, .ok (some headers)) =>
      { s with
        decoder := decoder
        blocks := Function.update s.blocks streamId blocks
        decoded := push s.decoded streamId headers }

def receiveEncoderStream (amount : ℕ) : Session :=
  let bytes := (unread s.encoderStream s.encoderStreamRead).take amount
  let (decoder, res) := s.decoder.receive bytes
  { s with
    decoder := decoder
    encoderStreamRead := s.encoderStreamRead + bytes.length }.report res

def receiveDecoderStream (amount : ℕ) : Session :=
  let bytes := (unread s.decoderStream s.decoderStreamRead).take amount
  let (encoder, res) := s.encoder.receive bytes
  { s with
    encoder := encoder
    decoderStreamRead := s.decoderStreamRead + bytes.length }.report res

def step : Op → Session
  | .addEncoderStream streamId =>
    -- A stream is created once.
    if s.encoder.localStream = .noStream then
      let (encoder, res) := s.encoder.addSendStream streamId
      { s with encoder := encoder }.report res
    else s
  | .addDecoderStream streamId =>
    if s.decoder.localStreamId = none then
      let (decoder, res) := s.decoder.addSendStream streamId
      { s with decoder := decoder }.report res
    else s
  | .encoderSpace space => { s with encoderStream := setSpace s.encoderStream space }
  | .decoderSpace space => { s with decoderStream := setSpace s.decoderStream space }
  | .encode streamId headers => s.encode streamId headers
  | .receiveEncoderStream amount => s.receiveEncoderStream amount
  | .decode streamId => s.decode streamId
  | .send =>
    let (decoder, conn, res) := s.decoder.send s.decoderStream
    { s with decoder := decoder, decoderStream := conn }.report res
  | .receiveDecoderStream amount => s.receiveDecoderStream amount

def run (ops : List Op) : Session := ops.foldl step s

/-- The settings of the two sides, and the streams that each expects from the other. -/
structure Config where
  encoderSettings : Settings
  decoderSettings : Settings
  useHuffman : Bool
  encoderStreamId : StreamId
  decoderStreamId : StreamId

/-- The encoder has received the decoder's settings. -/
def start (config : Config) : Session :=
  let (encoder, added) :=
    (Encoder.new config.encoderSettings config.useHuffman).addRecvStream config.decoderStreamId
  let (encoder, capacity) := encoder.setMaxCapacity config.decoderSettings.maxTableSizeDecoder
  let (encoder, blocked) := encoder.setMaxBlockedStreams config.decoderSettings.maxBlockedStreams
  let (decoder, expected) := (Decoder.new config.decoderSettings).addRecvStream
    config.encoderStreamId
  ((({ encoder := encoder, decoder := decoder : Session }.report added).report capacity).report
    blocked).report expected

end Session

end Neqo.Qpack
