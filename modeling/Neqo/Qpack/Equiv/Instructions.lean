import Neqo.Qpack.Instructions
import Neqo.Qpack.Equiv.Literal

/-!
# Reading instructions

Instructions are read back from a stream, however its bytes are cut into parts
(`readInstructions_deliver`). The reader of the decoder's instructions reads the rest of an
instruction only after its first byte, so it never reaches code that is said to be unreachable.
-/

namespace Neqo.Qpack

open DecoderInstruction IntReader LiteralReader Prefix Reader

lemma IntReader.read_error {eof e : Error} {r : IntReader} {bytes : Bytes}
    (h : (r.read eof bytes).2.2 = .error e) : e = eof ∨ e = .integerOverflow := by
  induction bytes generalizing r with
  | nil =>
    unfold read at h
    split_ifs at h
    exact .inl (Except.error.inj h).symm
  | cons b bytes ih =>
    unfold read at h
    split_ifs at h
    · exact .inr (Except.error.inj h).symm
    · exact ih h

/-- A fact about all bytes can be checked. -/
instance decidableForallByte {P : UInt8 → Prop} [DecidablePred P] : Decidable (∀ b, P b) :=
  decidable_of_iff (∀ n < 256, P (UInt8.ofNat n))
    ⟨fun h b => UInt8.ofNat_toNat (x := b) ▸ h b.toNat b.toNat_lt, fun h _ _ => h _⟩

/-! ### Instructions of the encoder -/

namespace EncoderInstructionReader

open Reader

variable {instruction : DecodedEncoderInstruction}

section

variable (instruction : DecodedEncoderInstruction) (reader : LiteralReader)

lemma resumes_readSecondLiteral :
    Resumes Error.needMoreData (· = {}) readInstructions
    (readSecondLiteral instruction reader) := by
  refine .andThen (readSecondLiteral instruction)
    (fun reader => ⟨.readSecondLiteral reader, instruction⟩)
    resumes (fun _ => rfl) (fun h => by rw [readSecondLiteral, h])
    (fun reader val => ?_) reader
  cases instruction with
  | insertWithNameLiteral => exact ⟨_, .finish rfl, fun h => by rw [readSecondLiteral, h]; rfl⟩
  | _ => exact ⟨_, .error (e := .assertion) _ nofun, fun h => by rw [readSecondLiteral, h]⟩

lemma resumes_readFirstLiteral :
    Resumes Error.needMoreData (· = {}) readInstructions (readFirstLiteral instruction reader) := by
  refine .andThen (readFirstLiteral instruction)
    (fun reader => ⟨.readFirstLiteral reader, instruction⟩)
    resumes (fun _ => rfl) (fun h => by rw [readFirstLiteral, h])
    (fun reader val => ?_) reader
  cases instruction with
  | insertWithNameLiteral =>
    exact ⟨_, resumes_readSecondLiteral _ _, fun h => by rw [readFirstLiteral, h]⟩
  | insertWithNameRefStatic | insertWithNameRefDynamic =>
    exact ⟨_, .finish rfl, fun h => by rw [readFirstLiteral, h]; rfl⟩
  | _ => exact ⟨_, .error (e := .assertion) _ nofun, fun h => by rw [readFirstLiteral, h]⟩

lemma resumes_readFirstInt (reader : IntReader) :
    Resumes Error.needMoreData (· = {}) readInstructions (readFirstInt instruction reader) := by
  refine .andThen (readFirstInt instruction) (fun reader => ⟨.readFirstInt reader, instruction⟩)
    IntReader.resumes (fun _ => rfl) (fun h => by rw [readFirstInt, h])
    (fun reader val => ?_) reader
  cases instruction with
  | insertWithNameRefStatic | insertWithNameRefDynamic =>
    exact ⟨_, resumes_readFirstLiteral _ _, fun h => by rw [readFirstInt, h]⟩
  | capacity | duplicate => exact ⟨_, .finish rfl, fun h => by rw [readFirstInt, h]; rfl⟩
  | _ => exact ⟨_, .error (e := .assertion) _ nofun, fun h => by rw [readFirstInt, h]⟩

end

lemma resumes_decodeInstructionType (b : UInt8) :
    Resumes Error.needMoreData (· = {}) readInstructions (decodeInstructionType b) := by
  unfold decodeInstructionType
  cases decodeInstructionFromByte b with
  | noInstruction => exact .error _ nofun
  | insertWithNameLiteral => exact resumes_readFirstLiteral _ _
  | _ => exact resumes_readFirstInt _ _

lemma resumable : Resumable Error.needMoreData {} readInstructions where
  resumes := by
    rintro ⟨state, instruction⟩
    cases state with
    | readInstruction => exact .uncons rfl rfl resumes_decodeInstructionType
    | readFirstInt => exact resumes_readFirstInt _ _
    | readFirstLiteral => exact resumes_readFirstLiteral _ _
    | readSecondLiteral => exact resumes_readSecondLiteral _ _
  nil := rfl
  cons := resumes_decodeInstructionType

end EncoderInstructionReader

/-- The instruction that the decoder reads. -/
def EncoderInstruction.decoded : EncoderInstruction → DecodedEncoderInstruction
  | .capacity value => .capacity value
  | .insertWithNameLiteral name value => .insertWithNameLiteral name value

/-- The numbers and lengths in the instruction are not too large to be read. -/
def EncoderInstruction.Readable (useHuffman : Bool) : EncoderInstruction → Prop
  | .capacity value => value < 2 ^ 64
  | .insertWithNameLiteral name value =>
    (encodedLiteral useHuffman name).length ≤ maxLen ∧
      (encodedLiteral useHuffman value).length ≤ maxLen

namespace EncoderInstructionReader

lemma decodeInstructionFromByte_starts : ∀ b : UInt8,
    (encoderCapacity.Starts b → decodeInstructionFromByte b = .capacity 0) ∧
    (encoderInsertWithNameLiteral.Starts b →
      decodeInstructionFromByte b = .insertWithNameLiteral [] []) := by
  decide +kernel

/-- **An instruction of the encoder is read back.** -/
theorem readInstructions_marshal {useHuffman : Bool} {instruction : EncoderInstruction}
    (h : instruction.Readable useHuffman) (ys : Bytes) :
    ({} : EncoderInstructionReader).readInstructions (instruction.marshal useHuffman ++ ys) =
      ({}, ys, .ok instruction.decoded) := by
  cases instruction with
  | capacity value =>
    obtain ⟨b, hb, hstarts, hread⟩ := read_encodePrefixedEncodedInt .needMoreData encoderCapacity h
    obtain ⟨r, hread⟩ := hread ys
    show readInstructions {} (encoderCapacity.encodePrefixedEncodedInt value ++ ys) = _
    rw [hb]
    show decodeInstructionType b (encoderCapacity.groups value ++ ys) = _
    unfold decodeInstructionType
    rw [(decodeInstructionFromByte_starts b).1 hstarts]
    show readFirstInt _ _ _ = _
    rw [readFirstInt, hread]
    rfl
  | insertWithNameLiteral name value =>
    obtain ⟨b, rest, hb, hstarts, r, hread⟩ := read_newWithFirstByte
      encoderInsertWithNameLiteral (by decide) h.1
      (encodeLiteral useHuffman noPrefix value ++ ys)
    show readInstructions {} (encodeLiteral useHuffman encoderInsertWithNameLiteral name
      _ ++ encodeLiteral useHuffman noPrefix value ++ ys) = _
    rw [hb, List.append_assoc]
    show decodeInstructionType b
      (rest ++ (encodeLiteral useHuffman noPrefix value ++ ys)) = _
    unfold decodeInstructionType
    rw [(decodeInstructionFromByte_starts b).2 hstarts]
    show readFirstLiteral _ _ _ = _
    obtain ⟨r', hread'⟩ := read_noPrefix h.2 ys
    rw [readFirstLiteral, hread]
    show readSecondLiteral _ _ _ = _
    rw [readSecondLiteral, hread']
    rfl

end EncoderInstructionReader

/-! ### Instructions of the decoder -/

lemma DecoderInstruction.getInstruction_ne : ∀ b, getInstruction b ≠ .noInstruction := by
  decide +kernel

namespace DecoderInstructionReader

/-- The rest of an instruction is read only if it is known which one it is. -/
def Started (r : DecoderInstructionReader) : Prop :=
  ∀ reader, r.state = .readInt reader → r.instruction ≠ .noInstruction

lemma readInt_spec {instruction : DecoderInstruction} (h : instruction ≠ .noInstruction)
    (reader : IntReader) (bytes : Bytes) :
    (readInt instruction reader bytes).1.Started ∧
      (readInt instruction reader bytes).2.2 ≠ .error .assertion := by
  have herror := @IntReader.read_error .needMoreData .assertion reader bytes
  unfold readInt
  rcases hread : reader.read .needMoreData bytes with ⟨reader', rest, e | val⟩
  · rw [hread] at herror
    refine ⟨fun _ _ => h, ?_⟩
    intro he
    rcases herror (congrArg Except.error (Except.error.inj he)) with he | he
    · exact Error.noConfusion he
    · exact Error.noConfusion he
  · cases instruction with
    | noInstruction => exact absurd rfl h
    | insertCountIncrement | headerAck | streamCancellation => exact ⟨nofun, nofun⟩

lemma exists_make (b : UInt8) : ∃ reader, IntReader.make b decoderPrefixes = some reader :=
  have : ∀ b, (IntReader.make b decoderPrefixes).isSome := by decide +kernel
  Option.isSome_iff_exists.mp (this b)

lemma readInstructions_spec {r : DecoderInstructionReader} (h : r.Started) (bytes : Bytes) :
    (r.readInstructions bytes).1.Started ∧ (r.readInstructions bytes).2.2 ≠ .error .assertion := by
  unfold readInstructions
  cases hstate : r.state with
  | readInstruction =>
    cases bytes with
    | nil => exact ⟨h, nofun⟩
    | cons b =>
      obtain ⟨reader, hmake⟩ := exists_make b
      simp only [hmake]
      exact readInt_spec (getInstruction_ne b) _ _
  | readInt reader => exact readInt_spec (h reader hstate) _ _

open Reader

lemma resumes_readInt (instruction : DecoderInstruction) (reader : IntReader) :
    Resumes Error.needMoreData (· = {}) readInstructions (readInt instruction reader) := by
  refine .andThen (readInt instruction) (fun reader => ⟨.readInt reader, instruction⟩)
    IntReader.resumes (fun _ => rfl) (fun h => by rw [readInt, h]) (fun reader val => ?_) reader
  cases instruction with
  | noInstruction => exact ⟨_, .error (e := .assertion) _ nofun, fun h => by rw [readInt, h]⟩
  | _ => exact ⟨_, .finish rfl, fun h => by rw [readInt, h]⟩

lemma resumes_cons {r : DecoderInstructionReader} (h : r.state = .readInstruction) (b : UInt8) :
    Resumes Error.needMoreData (· = {}) readInstructions fun bytes =>
      readInstructions r (b :: bytes) := by
  obtain ⟨reader, hmake⟩ := exists_make b
  simp only [readInstructions, h, hmake]
  exact resumes_readInt _ _

/-- It makes no difference how the bytes of instructions are cut into parts. -/
lemma resumable : Resumable Error.needMoreData {} readInstructions where
  resumes := by
    rintro ⟨state, instruction⟩
    cases state with
    | readInstruction => exact .uncons rfl rfl (resumes_cons rfl)
    | readInt => exact resumes_readInt _ _
  nil := rfl
  cons := resumes_cons rfl

lemma starts_cases : ∀ b : UInt8,
    (decoderHeaderAck.Starts b →
      getInstruction b = .headerAck ⟨0⟩ ∧
        make b decoderPrefixes = some (.new b decoderHeaderAck.len)) ∧
    (decoderInsertCountIncrement.Starts b →
      getInstruction b = .insertCountIncrement 0 ∧
        make b decoderPrefixes = some (.new b decoderInsertCountIncrement.len)) := by
  decide +kernel

/-- An instruction whose first byte says which it is is all that is read of its bytes. -/
lemma ends_of_starts {p : Prefix} {instruction a : DecoderInstruction} {value : ℕ}
    (hvalue : value < 2 ^ 64)
    (hstarts : ∀ b, p.Starts b → getInstruction b = instruction ∧
      make b decoderPrefixes = some (.new b p.len))
    (ha : ∀ {reader r bytes}, reader.read .needMoreData bytes = (r, [], .ok value) →
      readInt instruction reader bytes = ({}, [], .ok a)) :
    Ends readInstructions .needMoreData {} (p.encodePrefixedEncodedInt value) [a] {} := by
  obtain ⟨b, hb, hb', hread⟩ := read_encodePrefixedEncodedInt .needMoreData p hvalue
  obtain ⟨r, hread⟩ := hread []
  obtain ⟨hget, hmake⟩ := hstarts b hb'
  rw [List.append_nil] at hread
  rw [hb]
  have hfirst : readInstructions {} (b :: p.groups value) = ({}, [], .ok a) := by
    simp only [readInstructions, hmake, hget]
    exact ha hread
  exact .single hfirst rfl

/-- **An acknowledgement is read back.** -/
theorem ends_headerAck {streamId : StreamId} (h : streamId.asU64 < 2 ^ 64) :
    Ends readInstructions .needMoreData {}
      (headerAck streamId).marshal [.headerAck streamId] {} :=
  ends_of_starts h (fun b => (starts_cases b).1) fun hread => by
    rw [readInt, hread]

/-- **An increment is read back.** -/
theorem ends_insertCountIncrement {increment : ℕ} (h : increment < 2 ^ 64) :
    Ends readInstructions .needMoreData {}
      (insertCountIncrement increment).marshal
      [.insertCountIncrement increment] {} :=
  ends_of_starts h (fun b => (starts_cases b).2) fun hread => by
    rw [readInt, hread]

end DecoderInstructionReader

/-- **How the bytes of a stream arrive makes no difference to the instructions.**  Any chunks, even
of single bytes or none, give the instructions of the whole, and the same error ends them. -/
theorem readInstructions_deliver (chunks : List Bytes) :
    (deliver .needMoreData EncoderInstructionReader.readInstructions {} chunks =
        readAll EncoderInstructionReader.readInstructions (chunks.flatten.length + 2) {}
          chunks.flatten ∧
      ∃ e, (deliver .needMoreData EncoderInstructionReader.readInstructions {} chunks).2.2 =
        some e) ∧
    (deliver .needMoreData DecoderInstructionReader.readInstructions {} chunks =
        readAll DecoderInstructionReader.readInstructions (chunks.flatten.length + 2) {}
          chunks.flatten ∧
      ∃ e, (deliver .needMoreData DecoderInstructionReader.readInstructions {} chunks).2.2 =
        some e) := by
  constructor
  · exact deliver_eq_readAll EncoderInstructionReader.resumable chunks rfl
  · exact deliver_eq_readAll DecoderInstructionReader.resumable chunks rfl

end Neqo.Qpack
