import Neqo.Qpack.Session

/-!
# Cancelled streams at the decoder

A cancelled stream gives up its place among the blocked streams, and the encoder is told, but only
if the table has a capacity at that time (`cancelStream_complete`). A header block may be blocked
before the encoder's first instruction, which sets the capacity, has arrived; cancelling its stream
then does nothing.
-/

namespace Neqo.Qpack

namespace Decoder

variable (d : Decoder)

lemma blockedStreams_executeInstruction (instruction : DecodedEncoderInstruction) :
    (d.executeInstruction instruction).1.blockedStreams = d.blockedStreams := by
  cases instruction with
  | capacity =>
    unfold executeInstruction setCapacity
    dsimp only
    split_ifs <;> rfl
  | insertWithNameRefStatic => rfl
  | insertWithNameRefDynamic => rfl
  | insertWithNameLiteral => rfl
  | duplicate => rfl
  | noInstruction => rfl

lemma blockedStreams_receive (bytes : Bytes) :
    (d.receive bytes).1.blockedStreams ⊆ d.blockedStreams := by
  have hread : (d.readInstructions bytes).1.blockedStreams = d.blockedStreams := by
    unfold readInstructions processInstructions
    split_ifs
    · rfl
    · exact @Reader.loop_keeps _ _ _ _ _ .needMoreData _ EncoderInstructionReader.readInstructions
        executeInstruction (fun d' : Decoder => d'.blockedStreams = d.blockedStreams)
        (fun d' instruction hd' =>
          (blockedStreams_executeInstruction d' instruction).trans hd') _ d.instructionReader d
            bytes rfl
  unfold receive
  generalize d.readInstructions bytes = result at hread
  obtain ⟨d', err | _⟩ := result
  · rw [hread]
    exact List.Subset.refl _
  · dsimp only at hread ⊢
    rw [← hread]
    split_ifs
    · exact List.Subset.refl _
    · exact List.filter_sublist.subset

lemma blockedStreams_decodeHeaderBlock {d : Decoder} {buf : Bytes} {streamId id : StreamId}
    {req : ℕ} (h : (id, req) ∈ (d.decodeHeaderBlock buf streamId).1.blockedStreams) :
    (id, req) ∈ d.blockedStreams ∨ id = streamId := by
  unfold decodeHeaderBlock at h
  generalize HeaderDecoder.decodeHeaderBlock { buf := buf } d.table d.maxEntries d.table.base =
    result at h
  obtain err | ⟨decoder, req' | headers⟩ := result
  · exact .inl h
  · split_ifs at h
    · exact .inl h
    · exact .inl h
    · rcases List.mem_append.mp h with h | h
      · exact .inl h
      · exact .inr (congrArg Prod.fst (List.mem_singleton.mp h))
  · dsimp only at h
    split_ifs at h
    · exact .inl h
    · exact .inl h

lemma blockedStreams_send (conn : OutStream) :
    (d.send conn).1.blockedStreams = d.blockedStreams := by
  unfold send
  dsimp only
  split_ifs <;> rfl

lemma blockedStreams_cancelStream (streamId : StreamId) :
    (d.cancelStream streamId).blockedStreams ⊆ d.blockedStreams := by
  unfold cancelStream
  split_ifs
  · exact List.filter_sublist.subset
  · exact List.Subset.refl _

end Decoder

namespace DecoderRun

variable {r : DecoderRun} {streamId : StreamId}

/-- The stream is blocked. -/
def Blocked (r : DecoderRun) (streamId : StreamId) : Prop :=
  ∃ req, (streamId, req) ∈ r.decoder.blockedStreams

lemma blocked_of_apply {op : DecoderOp} (h : (r.apply op).Blocked streamId) :
    r.Blocked streamId ∨ ∃ buf, op = .decodeHeaderBlock buf streamId := by
  obtain ⟨req, hreq⟩ := h
  cases op with
  | addSendStream =>
    unfold apply Decoder.addSendStream at hreq
    split_ifs at hreq <;> exact .inl ⟨req, hreq⟩
  | addRecvStream =>
    unfold apply Decoder.addRecvStream at hreq
    split_ifs at hreq <;> exact .inl ⟨req, hreq⟩
  | receive bytes => exact .inl ⟨req, r.decoder.blockedStreams_receive bytes hreq⟩
  | decodeHeaderBlock buf =>
    rcases Decoder.blockedStreams_decodeHeaderBlock hreq with hreq | rfl
    · exact .inl ⟨req, hreq⟩
    · exact .inr ⟨buf, rfl⟩
  | cancelStream id => exact .inl ⟨req, r.decoder.blockedStreams_cancelStream id hreq⟩
  | send space =>
    have hsend := r.decoder.blockedStreams_send { r.conn with space := space }
    exact .inl ⟨req, hsend ▸ hreq⟩

lemma not_blocked_run {ops : List DecoderOp} (h : ¬ r.Blocked streamId)
    (hops : ∀ buf, .decodeHeaderBlock buf streamId ∉ ops) : ¬ (r.run ops).Blocked streamId := by
  refine List.foldlRecOn (motive := fun r => ¬ Blocked r streamId) ops _ h fun r h op hop => ?_
  unfold step
  split_ifs
  · exact h
  · intro hblocked
    rcases blocked_of_apply hblocked with hblocked | ⟨buf, rfl⟩
    · exact h hblocked
    · exact hops buf hop

/-- The stream is cancelled. -/
def cancelled (r : DecoderRun) (streamId : StreamId) : DecoderRun :=
  { r with decoder := r.decoder.cancelStream streamId }

/-- **Cancelling a stream is complete if and only if the table has a capacity.**  Then the encoder
is told, and the stream is not blocked until there is another header block on it; otherwise nothing
happens. -/
theorem cancelStream_complete (settings : Settings) (ops : List DecoderOp) (streamId : StreamId) :
    let r := (start settings).run ops
    (0 < r.decoder.table.capacity →
      (r.cancelled streamId).decoder.sendBuf =
          r.decoder.sendBuf ++ (DecoderInstruction.streamCancellation streamId).marshal ∧
        ∀ rest, (∀ buf, .decodeHeaderBlock buf streamId ∉ rest) →
          ¬ ((r.cancelled streamId).run rest).Blocked streamId) ∧
    (r.decoder.table.capacity = 0 → r.cancelled streamId = r) := by
  intro r
  unfold cancelled Decoder.cancelStream
  refine ⟨fun hcap => ?_, fun hcap => ?_⟩
  · rw [if_pos hcap]
    refine ⟨rfl, fun rest hrest => not_blocked_run ?_ hrest⟩
    rintro ⟨req, hreq⟩
    exact of_decide_eq_true (List.mem_filter.mp hreq).2 rfl
  · rw [if_neg (by rw [hcap]; exact lt_irrefl 0)]

/-- The decoder accepts two entries; a header block that requires one insert comes before the
capacity. -/
def overtakenOps : List DecoderOp :=
  [.addSendStream ⟨3⟩, .addRecvStream ⟨2⟩, .decodeHeaderBlock [0x02, 0x00] ⟨0⟩, .cancelStream ⟨0⟩]

/-- A cancelled stream keeps its place among the blocked streams, and the encoder is not told. -/
theorem cancelStream_overtaken :
    let r := (start { maxTableSizeDecoder := 64 }).run overtakenOps
    r.stopped = none ∧ r.decoder.blockedStreams = [(⟨0⟩, 1)] ∧
      r.decoder.sendBuf = [qpackUniStreamTypeDecoder] := by
  decide +kernel

/-- The same header block after the capacity. -/
theorem cancelStream_complete_capacity :
    let r := (start { maxTableSizeDecoder := 64 }).run
      [.addSendStream ⟨3⟩, .addRecvStream ⟨2⟩, .receive [0x3f, 0x21],
        .decodeHeaderBlock [0x02, 0x00] ⟨0⟩]
    r.decoder.table.capacity = 64 ∧ r.decoder.blockedStreams = [(⟨0⟩, 1)] ∧
      (r.cancelled ⟨0⟩).decoder.sendBuf = [qpackUniStreamTypeDecoder, 0x40] ∧
      ¬ (r.cancelled ⟨0⟩).Blocked ⟨0⟩ :=
  ⟨by decide +kernel, by decide +kernel,
    ((cancelStream_complete _ _ _).1 (by decide +kernel)).1.trans (by decide +kernel),
    ((cancelStream_complete _ _ _).1 (by decide +kernel)).2 [] nofun⟩

end DecoderRun

end Neqo.Qpack
