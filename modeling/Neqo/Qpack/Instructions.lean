import Neqo.Qpack.Basic
import Neqo.Basic

/-!
# Instructions

The encoder and the decoder send each other instructions, each on a stream of its own.
-/

namespace Neqo.Qpack

open Prefix

/-! ### Instructions of the encoder -/

/-- The instructions that the encoder sends; it only inserts entries with their names. -/
inductive EncoderInstruction where
  | capacity (value : ℕ)
  | insertWithNameLiteral (name value : Bytes)
  deriving DecidableEq, Repr

def EncoderInstruction.marshal (useHuffman : Bool) : EncoderInstruction → Bytes
  | .capacity value => encoderCapacity.encodePrefixedEncodedInt value
  | .insertWithNameLiteral name value =>
    encodeLiteral useHuffman encoderInsertWithNameLiteral name ++
      encodeLiteral useHuffman noPrefix value noPrefix_len_le

/-- The instructions that the decoder understands. -/
inductive DecodedEncoderInstruction where
  | capacity (value : ℕ)
  | insertWithNameRefStatic (index : ℕ) (value : Bytes)
  | insertWithNameRefDynamic (index : ℕ) (value : Bytes)
  | insertWithNameLiteral (name value : Bytes)
  | duplicate (index : ℕ)
  | noInstruction
  deriving DecidableEq, Repr

/-- How far an instruction was read. -/
inductive EncoderInstructionReaderState where
  | readInstruction
  | readFirstInt (reader : IntReader)
  | readFirstLiteral (reader : LiteralReader)
  | readSecondLiteral (reader : LiteralReader)
  deriving DecidableEq, Repr

/-- The decoder reads the instructions of the encoder. -/
structure EncoderInstructionReader where
  state : EncoderInstructionReaderState := .readInstruction
  instruction : DecodedEncoderInstruction := .noInstruction
  deriving DecidableEq, Repr

namespace EncoderInstructionReader

def decodeInstructionFromByte (b : UInt8) : DecodedEncoderInstruction :=
  if encoderInsertWithNameRefStatic.cmpPrefix b then .insertWithNameRefStatic 0 []
  else if encoderInsertWithNameRefDynamic.cmpPrefix b then .insertWithNameRefDynamic 0 []
  else if encoderInsertWithNameLiteral.cmpPrefix b then .insertWithNameLiteral [] []
  else if encoderCapacity.cmpPrefix b then .capacity 0
  else if encoderDuplicate.cmpPrefix b then .duplicate 0
  -- Unreachable: the patterns above match everything.
  else .noInstruction

variable (instruction : DecodedEncoderInstruction)

/-- An instruction is complete. -/
def finish (bytes : Bytes) : EncoderInstructionReader × Bytes × Res DecodedEncoderInstruction :=
  ({}, bytes, .ok instruction)

def readSecondLiteral (reader : LiteralReader)
    (bytes : Bytes) : EncoderInstructionReader × Bytes × Res DecodedEncoderInstruction :=
  match reader.read bytes with
  | (reader, bytes, .error e) => (⟨.readSecondLiteral reader, instruction⟩, bytes, .error e)
  | (reader, bytes, .ok val) =>
    match instruction with
    | .insertWithNameLiteral name _ => finish (.insertWithNameLiteral name val) bytes
    | _ => (⟨.readSecondLiteral reader, instruction⟩, bytes, .error .assertion)

def readFirstLiteral (reader : LiteralReader)
    (bytes : Bytes) : EncoderInstructionReader × Bytes × Res DecodedEncoderInstruction :=
  match reader.read bytes with
  | (reader, bytes, .error e) => (⟨.readFirstLiteral reader, instruction⟩, bytes, .error e)
  | (reader, bytes, .ok val) =>
    match instruction with
    | .insertWithNameRefStatic index _ => finish (.insertWithNameRefStatic index val) bytes
    | .insertWithNameRefDynamic index _ => finish (.insertWithNameRefDynamic index val) bytes
    | .insertWithNameLiteral _ value =>
      readSecondLiteral (.insertWithNameLiteral val value) {} bytes
    | _ => (⟨.readFirstLiteral reader, instruction⟩, bytes, .error .assertion)

def readFirstInt (reader : IntReader)
    (bytes : Bytes) : EncoderInstructionReader × Bytes × Res DecodedEncoderInstruction :=
  match reader.read .needMoreData bytes with
  | (reader, bytes, .error e) => (⟨.readFirstInt reader, instruction⟩, bytes, .error e)
  | (reader, bytes, .ok val) =>
    match instruction with
    | .capacity _ => finish (.capacity val) bytes
    | .duplicate _ => finish (.duplicate val) bytes
    | .insertWithNameRefStatic _ value =>
      readFirstLiteral (.insertWithNameRefStatic val value) {} bytes
    | .insertWithNameRefDynamic _ value =>
      readFirstLiteral (.insertWithNameRefDynamic val value) {} bytes
    | _ => (⟨.readFirstInt reader, instruction⟩, bytes, .error .assertion)

/-- Read the type of an instruction, and start on the rest of it. -/
def decodeInstructionType (b : UInt8) (bytes : Bytes) :
    EncoderInstructionReader × Bytes × Res DecodedEncoderInstruction :=
  let instruction := decodeInstructionFromByte b
  match instruction with
  | .capacity _ => readFirstInt instruction (.new b encoderCapacity.len) bytes
  | .duplicate _ => readFirstInt instruction (.new b encoderCapacity.len) bytes
  | .insertWithNameRefStatic .. =>
    readFirstInt instruction (.new b encoderInsertWithNameRefStatic.len) bytes
  | .insertWithNameRefDynamic .. =>
    readFirstInt instruction (.new b encoderInsertWithNameRefStatic.len) bytes
  | .insertWithNameLiteral .. =>
    readFirstLiteral instruction (.newWithFirstByte b encoderInsertWithNameLiteral.len) bytes
  | .noInstruction => (⟨.readInstruction, instruction⟩, bytes, .error .assertion)

/-- Read an instruction. -/
def readInstructions (r : EncoderInstructionReader) (bytes : Bytes) :
    EncoderInstructionReader × Bytes × Res DecodedEncoderInstruction :=
  match r.state with
  | .readInstruction =>
    match bytes with
    | [] => (r, [], .error .needMoreData)
    | b :: bytes => decodeInstructionType b bytes
  | .readFirstInt reader => readFirstInt r.instruction reader bytes
  | .readFirstLiteral reader => readFirstLiteral r.instruction reader bytes
  | .readSecondLiteral reader => readSecondLiteral r.instruction reader bytes

end EncoderInstructionReader

/-! ### Instructions of the decoder -/

/-- What a decoder tells the encoder. -/
inductive DecoderInstruction where
  | insertCountIncrement (increment : ℕ)
  | headerAck (streamId : StreamId)
  | streamCancellation (streamId : StreamId)
  | noInstruction
  deriving DecidableEq, Repr

namespace DecoderInstruction

def getInstruction (b : UInt8) : DecoderInstruction :=
  if decoderHeaderAck.cmpPrefix b then .headerAck ⟨0⟩
  else if decoderStreamCancellation.cmpPrefix b then .streamCancellation ⟨0⟩
  else if decoderInsertCountIncrement.cmpPrefix b then .insertCountIncrement 0
  -- Unreachable: the patterns above match everything.
  else .noInstruction

def marshal : DecoderInstruction → Bytes
  | .insertCountIncrement increment =>
    decoderInsertCountIncrement.encodePrefixedEncodedInt increment
  | .headerAck streamId => decoderHeaderAck.encodePrefixedEncodedInt streamId.asU64
  | .streamCancellation streamId =>
    decoderStreamCancellation.encodePrefixedEncodedInt streamId.asU64
  | .noInstruction => []

end DecoderInstruction

/-- How far an instruction was read. -/
inductive DecoderInstructionReaderState where
  | readInstruction
  | readInt (reader : IntReader)
  deriving DecidableEq, Repr

/-- The encoder reads the instructions of the decoder. -/
structure DecoderInstructionReader where
  state : DecoderInstructionReaderState := .readInstruction
  instruction : DecoderInstruction := .noInstruction
  deriving DecidableEq, Repr

namespace DecoderInstructionReader

def readInt (instruction : DecoderInstruction) (reader : IntReader) (bytes : Bytes) :
    DecoderInstructionReader × Bytes × Res DecoderInstruction :=
  match reader.read .needMoreData bytes with
  | (reader, bytes, .error e) => (⟨.readInt reader, instruction⟩, bytes, .error e)
  | (reader, bytes, .ok val) =>
    match instruction with
    | .insertCountIncrement _ => ({}, bytes, .ok (.insertCountIncrement val))
    | .headerAck _ => ({}, bytes, .ok (.headerAck ⟨val⟩))
    | .streamCancellation _ => ({}, bytes, .ok (.streamCancellation ⟨val⟩))
    | .noInstruction => (⟨.readInt reader, instruction⟩, bytes, .error .assertion)

/-- The prefixes of the instructions. -/
def decoderPrefixes : List Prefix :=
  [decoderHeaderAck, decoderStreamCancellation, decoderInsertCountIncrement]

/-- Read an instruction. -/
def readInstructions (r : DecoderInstructionReader) (bytes : Bytes) :
    DecoderInstructionReader × Bytes × Res DecoderInstruction :=
  match r.state with
  | .readInstruction =>
    match bytes with
    | [] => (r, [], .error .needMoreData)
    | b :: bytes =>
      match IntReader.make b decoderPrefixes with
      | some reader => readInt (.getInstruction b) reader bytes
      -- Unreachable: all prefixes are covered.
      | none => (r, bytes, .error .assertion)
  | .readInt reader => readInt r.instruction reader bytes

end DecoderInstructionReader

end Neqo.Qpack
