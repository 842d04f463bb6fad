import Neqo.Qpack.Equiv.Written

/-!
# The decoder stream

The decoder acknowledges inserts and header blocks, and the encoder learns of that later. The
instructions that it has not read lead from what it knows to what the decoder has acknowledged
(`Answers`); none is an error, since a header block is only acknowledged after it was sent.
-/

namespace Neqo.Qpack

open DecoderInstructionReader Function List

/-- The number of acknowledged inserts, and the references of the header blocks that are not, from
the oldest. -/
structure Ledger where
  acked : ℕ
  blocks : StreamId → List (List ℕ)

namespace Ledger

/-- What an instruction of the decoder acknowledges. -/
inductive Acks (l : Ledger) : DecoderInstruction → Ledger → Prop
  | increment {increment : ℕ} (h : increment ≠ 0) :
      Acks l (.insertCountIncrement increment) { l with acked := l.acked + increment }
  | headerAck {streamId : StreamId} {refs : List ℕ} {blocks : List (List ℕ)}
      (h : l.blocks streamId = refs :: blocks) :
      Acks l (.headerAck streamId)
        ⟨max l.acked (requiredInserts refs), update l.blocks streamId blocks⟩

/-- What instructions of the decoder acknowledge. -/
inductive Run : Ledger → List DecoderInstruction → Ledger → Prop
  | nil (l : Ledger) : Run l [] l
  | cons {l l₁ l' : Ledger} {instruction : DecoderInstruction}
      {instructions : List DecoderInstruction} (h : l.Acks instruction l₁)
      (hrun : Run l₁ instructions l') : Run l (instruction :: instructions) l'

/-- A header block with references is sent. -/
def push (l : Ledger) (streamId : StreamId) (refs : List ℕ) : Ledger :=
  { l with blocks := Session.push l.blocks streamId refs }

variable {l l' : Ledger} {instructions instructions' : List DecoderInstruction}

lemma run_append : l.Run (instructions ++ instructions') l' ↔
    ∃ l₁, l.Run instructions l₁ ∧ l₁.Run instructions' l' := by
  induction instructions generalizing l with
  | nil => exact ⟨fun h => ⟨l, .nil l, h⟩, fun ⟨_, .nil _, h⟩ => h⟩
  | cons instruction instructions ih =>
    constructor
    · rintro (_ | ⟨hacks, hrun⟩)
      obtain ⟨l₁, hrun₁, hrun₂⟩ := ih.mp hrun
      exact ⟨l₁, .cons hacks hrun₁, hrun₂⟩
    · rintro ⟨l₁, _ | ⟨hacks, hrun₁⟩, hrun₂⟩
      exact .cons hacks (ih.mpr ⟨l₁, hrun₁, hrun₂⟩)

lemma Run.acked_le (h : l.Run instructions l') : l.acked ≤ l'.acked := by
  induction h with
  | nil => omega
  | cons h _ ih =>
    cases h with
    | increment => exact (Nat.le_add_right _ _).trans ih
    | headerAck => exact (le_max_left _ _).trans ih

lemma Run.suffix (h : l.Run instructions l') (streamId : StreamId) :
    l'.blocks streamId <:+ l.blocks streamId := by
  induction h with
  | nil => exact suffix_rfl
  | cons h _ ih =>
    cases h with
    | increment => exact ih
    | @headerAck id _ _ hblocks =>
      refine ih.trans ?_
      by_cases hid : streamId = id
      · rw [hid, hblocks]
        dsimp only
        rw [update_self]
        exact suffix_cons _ _
      · dsimp only
        rw [update_of_ne hid]

lemma Run.push (h : l.Run instructions l') (streamId : StreamId) (refs : List ℕ) :
    (l.push streamId refs).Run instructions (l'.push streamId refs) := by
  induction h with
  | nil => exact .nil _
  | @cons l _ _ _ _ h _ ih =>
    refine .cons ?_ ih
    cases h with
    | increment hzero => exact .increment hzero
    | @headerAck id refs' blocks hblocks =>
      unfold Ledger.push Session.push
      by_cases hid : id = streamId
      · subst hid
        have hpushed : (l.push id refs).blocks id = refs' :: (blocks ++ [refs]) := by
          show update l.blocks id (l.blocks id ++ [refs]) id = _
          rw [update_self, hblocks, cons_append]
        have hacks := Acks.headerAck hpushed
        unfold Ledger.push Session.push at hacks
        dsimp only at hacks ⊢
        rw [update_idem] at hacks ⊢
        rwa [update_self]
      · have hpushed : (l.push streamId refs).blocks id = refs' :: blocks := by
          show update l.blocks streamId (l.blocks streamId ++ [refs]) id = _
          rw [update_of_ne hid, hblocks]
        have hacks := Acks.headerAck hpushed
        unfold Ledger.push Session.push at hacks
        dsimp only at hacks ⊢
        rwa [update_comm hid, update_of_ne (Ne.symm hid)]

end Ledger

/-! ### What the encoder knows -/

namespace Encoder

/-- What the encoder knows to be acknowledged. -/
def ledger (e : Encoder) : Ledger where
  acked := e.table.ackedInsertsCnt
  blocks := fun streamId => ((e.unackedHeaderBlocks.get? streamId).getD []).reverse

/-- What an acknowledgement does not change. -/
structure Stays (e e' : Encoder) : Prop where
  fifo : e'.table.toFifo = e.table.toFifo
  localStream : e'.localStream = e.localStream
  nextCapacity : e'.nextCapacity = e.nextCapacity
  maxEntries : e'.maxEntries = e.maxEntries
  useHuffman : e'.useHuffman = e.useHuffman
  recvStreamId : e'.recvStreamId = e.recvStreamId

lemma Stays.refl (e : Encoder) : e.Stays e := ⟨rfl, rfl, rfl, rfl, rfl, rfl⟩

lemma Stays.trans {e e' e'' : Encoder} (h : e.Stays e') (h' : e'.Stays e'') : e.Stays e'' :=
  ⟨h'.fifo.trans h.fifo, h'.localStream.trans h.localStream, h'.nextCapacity.trans h.nextCapacity,
    h'.maxEntries.trans h.maxEntries, h'.useHuffman.trans h.useHuffman,
    h'.recvStreamId.trans h.recvStreamId⟩

variable {e : Encoder}

lemma getD_setHeaderBlocks (e : Encoder) (streamId : StreamId) (hbList : List (List ℕ))
    (id : StreamId) :
    ((e.setHeaderBlocks streamId hbList).unackedHeaderBlocks.get? id).getD [] =
      update (fun id => (e.unackedHeaderBlocks.get? id).getD []) streamId hbList id := by
  unfold setHeaderBlocks
  rw [update_apply]
  split_ifs with hempty hid hid
  · simp [IndexMap.get?_remove, hid, isEmpty_iff.mp hempty]
  all_goals simp [IndexMap.get?_remove, IndexMap.get?_insert, hid]

lemma insertCountInstruction_eq {increment : ℕ}
    (hle : e.table.ackedInsertsCnt + increment ≤ e.table.base) (hbase : e.table.base < 2 ^ 64) :
    ∃ e', e.insertCountInstruction increment = (e', .ok ()) ∧
      e'.ledger = { e.ledger with acked := e.table.ackedInsertsCnt + increment } ∧ e.Stays e' := by
  unfold insertCountInstruction HeaderTable.incrementAcked
  rw [if_neg (not_le.mpr (hle.trans_lt hbase)), if_neg (not_lt.mpr hle)]
  exact ⟨_, rfl, rfl, rfl, rfl, rfl, rfl, rfl, rfl⟩

lemma Inv.headerAck_eq (h : e.Inv) {streamId : StreamId} {refs : List ℕ} {blocks : List (List ℕ)}
    (hblocks : e.ledger.blocks streamId = refs :: blocks)
    (hle : max e.table.ackedInsertsCnt (requiredInserts refs) ≤ e.table.base)
    (hbase : e.table.base < 2 ^ 64) :
    ∃ e', e.headerAck streamId = (e', .ok ()) ∧
      e'.ledger = ⟨max e.table.ackedInsertsCnt (requiredInserts refs),
        update e.ledger.blocks streamId blocks⟩ ∧ e.Stays e' := by
  change ((e.unackedHeaderBlocks.get? streamId).getD []).reverse = refs :: blocks at hblocks
  have hget : e.unackedHeaderBlocks.get? streamId = some (blocks.reverse ++ [refs]) := by
    rcases hsome : e.unackedHeaderBlocks.get? streamId with _ | hbList
    · rw [hsome] at hblocks
      exact nomatch hblocks
    · rw [hsome] at hblocks
      have hreverse := congrArg List.reverse hblocks
      rw [reverse_reverse, reverse_cons] at hreverse
      exact congrArg some hreverse
  obtain ⟨refs', hremove, -⟩ := h.toCounted.setHeaderBlocks (IndexMap.get?_eq_some_iff.mp hget)
  rw [flatten_singleton] at hremove
  -- The block is removed, and then its inserts are acknowledged.
  set e₁ := setHeaderBlocks { e with table := e.table.setRefs refs' } streamId blocks.reverse
    with he₁
  have hledger : e₁.ledger =
      ⟨e.table.ackedInsertsCnt, update e.ledger.blocks streamId blocks⟩ := by
    unfold ledger
    congr 1
    funext id
    rw [he₁, getD_setHeaderBlocks]
    by_cases hid : id = streamId
    · rw [hid, update_self, update_self, reverse_reverse]
    · rw [update_of_ne hid, update_of_ne hid]
  have hstays : e.Stays e₁ := ⟨HeaderTable.toFifo_setRefs _ _, rfl, rfl, rfl, rfl, rfl⟩
  have hack : e.headerAck streamId =
      if max e.table.ackedInsertsCnt (requiredInserts refs) > e.table.ackedInsertsCnt then
        e₁.insertCountInstruction
          (max e.table.ackedInsertsCnt (requiredInserts refs) - e.table.ackedInsertsCnt)
      else (e₁, .ok ()) := by
    unfold Encoder.headerAck
    rw [hget]
    dsimp only
    rw [List.getLast?_concat, dropLast_concat]
    dsimp only
    rw [hremove, ← ackedBy_eq]
    rfl
  rw [hack]
  split_ifs with hnew
  · have hsum : e₁.table.ackedInsertsCnt + (max e.table.ackedInsertsCnt (requiredInserts refs) -
        e.table.ackedInsertsCnt) = max e.table.ackedInsertsCnt (requiredInserts refs) :=
      Nat.add_sub_cancel' hnew.le
    obtain ⟨e', hinsert, hledger', hstays'⟩ :=
      insertCountInstruction_eq (hsum.trans_le hle) (show e₁.table.base < 2 ^ 64 from hbase)
    rw [hsum, hledger] at hledger'
    exact ⟨e', hinsert, hledger', hstays.trans hstays'⟩
  · refine ⟨_, rfl, ?_, hstays⟩
    rw [hledger, le_antisymm (not_lt.mp hnew) (le_max_left _ _)]

/-- **The encoder can execute what the decoder acknowledges.** -/
theorem Inv.executes (h : e.Inv) {instructions : List DecoderInstruction} {l : Ledger}
    (hrun : e.ledger.Run instructions l) (hle : l.acked ≤ e.table.base)
    (hbase : e.table.base < 2 ^ 64) :
    ∃ e', Reader.Executes Encoder.callInstruction instructions e e' ∧ e'.Inv ∧ e.Shrinks e' ∧
      e'.ledger = l ∧ e.Stays e' := by
  induction instructions generalizing e with
  | nil =>
    cases hrun
    exact ⟨e, rfl, h, .refl e, rfl, .refl e⟩
  | cons instruction instructions ih =>
    obtain _ | @⟨_, l₁, _, _, _, hacks, hrest⟩ := hrun
    have hle₁ : l₁.acked ≤ e.table.base := hrest.acked_le.trans hle
    obtain ⟨e₁, hcall, hledger, hstays⟩ : ∃ e₁, e.callInstruction instruction = (e₁, .ok ()) ∧
        e₁.ledger = l₁ ∧ e.Stays e₁ := by
      cases hacks with
      | increment hzero =>
        obtain ⟨e₁, hinsert, hledger, hstays⟩ := insertCountInstruction_eq hle₁ hbase
        exact ⟨e₁, (if_neg hzero).trans hinsert, hledger, hstays⟩
      | headerAck hblocks => exact h.headerAck_eq hblocks hle₁ hbase
    have hinv := (h.callInstruction instruction).1 (by rw [hcall])
    rw [hcall] at hinv
    have hbase₁ : e₁.table.base = e.table.base := congrArg Fifo.inserted hstays.fifo
    obtain ⟨e', hexecutes, hinv', hshrinks, hledger', hstays'⟩ :=
      ih hinv.1 (hledger.symm ▸ hrest) (hbase₁.symm ▸ hle) (hbase₁.symm ▸ hbase)
    exact ⟨e', ⟨e₁, hcall, hexecutes⟩, hinv', hinv.2.trans hshrinks, hledger', hstays.trans hstays'⟩

lemma Inv.receive_of_ends (h : e.Inv) (hstream : e.recvStreamId.isSome = true) {bytes : Bytes}
    {instructions : List DecoderInstruction} {reader : DecoderInstructionReader}
    (hends : Reader.Ends DecoderInstructionReader.readInstructions .needMoreData e.instructionReader
      bytes instructions reader)
    {l : Ledger} (hrun : e.ledger.Run instructions l) (hle : l.acked ≤ e.table.base)
    (hbase : e.table.base < 2 ^ 64) :
    ∃ e', e.receive bytes = (e', .ok ()) ∧ e'.instructionReader = reader ∧ e'.Inv ∧ e.Shrinks e' ∧
      e'.ledger = l ∧ e.Stays e' := by
  obtain ⟨e', hexecutes, -, -, hledger, hstays⟩ := h.executes hrun hle hbase
  have hlength := hends.length_le resumable
  have hloop := Reader.loop_of_ends hends hexecutes (Nat.lt_succ_of_le hlength)
  have hreceive : e.receive bytes = ({ e' with instructionReader := reader }, .ok ()) := by
    unfold Encoder.receive Encoder.readInstructions
    rw [if_neg (by rw [Option.isNone_eq_false_iff.mpr hstream]; exact Bool.false_ne_true), hloop]
    rfl
  have hinv := (h.receive bytes).1 (by rw [hreceive])
  rw [hreceive] at hinv
  exact ⟨_, hreceive, rfl, hinv.1, hinv.2, hledger, hstays.fifo, hstays.localStream,
    hstays.nextCapacity, hstays.maxEntries, hstays.useHuffman, hstays.recvStreamId⟩

end Encoder

/-! ### What the decoder has acknowledged -/

/-- **The encoder can learn what the decoder has acknowledged**, by what it has not read of the
decoder stream. -/
structure Answers (e : Encoder) (d : Decoder) (conn : OutStream) (read : ℕ)
    (blocks : StreamId → List (List ℕ)) : Prop where
  read_le : 1 + read ≤ (conn.sent ++ d.sendBuf).length
  unread : ∃ instructions,
    Reader.Ends readInstructions .needMoreData e.instructionReader
      ((conn.sent ++ d.sendBuf).drop (1 + read)) instructions {} ∧
    e.ledger.Run instructions ⟨d.ackedInserts, blocks⟩

namespace Answers

variable {e e' : Encoder} {d d' : Decoder} {conn conn' : OutStream} {read : ℕ}
  {blocks : StreamId → List (List ℕ)}

section

variable (h : Answers e d conn read blocks)

include h

lemma acked_le : e.table.ackedInsertsCnt ≤ d.ackedInserts := by
  obtain ⟨instructions, -, hrun⟩ := h.unread
  exact hrun.acked_le

lemma congr (hreader : e'.instructionReader = e.instructionReader)
    (hledger : e'.ledger = e.ledger) (hbytes : conn'.sent ++ d'.sendBuf = conn.sent ++ d.sendBuf)
    (hacked : d'.ackedInserts = d.ackedInserts) : Answers e' d' conn' read blocks := by
  refine ⟨hbytes ▸ h.read_le, ?_⟩
  rw [hreader, hledger, hbytes, hacked]
  exact h.unread

lemma answer {instruction : DecoderInstruction} {blocks' : StreamId → List (List ℕ)}
    (hends : Reader.Ends readInstructions .needMoreData {} instruction.marshal [instruction] {})
    (hacks : Ledger.Acks ⟨d.ackedInserts, blocks⟩ instruction ⟨d'.ackedInserts, blocks'⟩)
    (hbuf : d'.sendBuf = d.sendBuf ++ instruction.marshal) : Answers e d' conn read blocks' := by
  obtain ⟨instructions, hends', hrun⟩ := h.unread
  have hbytes : conn.sent ++ d'.sendBuf = conn.sent ++ d.sendBuf ++ instruction.marshal := by
    rw [hbuf, append_assoc]
  refine ⟨?_, instructions ++ [instruction], ?_, ?_⟩
  · rw [hbytes, length_append]
    exact h.read_le.trans (Nat.le_add_right _ _)
  · rw [hbytes, drop_append_of_le_length h.read_le]
    exact hends'.append resumable hends
  · exact Ledger.run_append.mpr ⟨_, hrun, .cons hacks (.nil _)⟩

lemma push {streamId : StreamId} {refs : List ℕ}
    (hreader : e'.instructionReader = e.instructionReader)
    (hledger : e'.ledger = e.ledger.push streamId refs) :
    Answers e' d conn read (Session.push blocks streamId refs) := by
  obtain ⟨instructions, hends, hrun⟩ := h.unread
  refine ⟨h.read_le, instructions, hreader.symm ▸ hends, ?_⟩
  rw [hledger]
  exact hrun.push streamId refs

/-- **The decoder sends its instructions.** -/
theorem send (hle : d.ackedInserts ≤ d.table.base) (hbase : d.table.base < 2 ^ 64) :
    ∃ sendBuf ackedInserts conn',
      d.send conn = ({ d with sendBuf := sendBuf, ackedInserts := ackedInserts }, conn', .ok ()) ∧
      ackedInserts ≤ d.table.base ∧
      Answers e { d with sendBuf := sendBuf, ackedInserts := ackedInserts } conn' read blocks := by
  unfold Decoder.send
  rw [if_neg (not_lt.mpr hle)]
  dsimp only
  -- An increment acknowledges all inserts.
  obtain ⟨sendBuf, acked, hd, hacked, hanswers⟩ : ∃ sendBuf acked,
      (if d.table.base - d.ackedInserts > 0 then
        { d with
          sendBuf := d.sendBuf ++
            (DecoderInstruction.insertCountIncrement (d.table.base - d.ackedInserts)).marshal
          ackedInserts := d.table.base }
      else d) = { d with sendBuf := sendBuf, ackedInserts := acked } ∧
      acked ≤ d.table.base ∧
      Answers e { d with sendBuf := sendBuf, ackedInserts := acked } conn read blocks := by
    split_ifs with hnew
    · refine ⟨_, _, rfl, le_refl _, ?_⟩
      apply h.answer (ends_insertCountIncrement
        ((Nat.sub_le _ _).trans_lt hbase))
      · have hacks := @Ledger.Acks.increment ⟨d.ackedInserts, blocks⟩ _ hnew.ne'
        dsimp only at hacks
        rwa [Nat.add_sub_cancel' hle] at hacks
      · rfl
    · exact ⟨_, _, rfl, hle, h⟩
  rw [hd]
  split_ifs with hsend
  · refine ⟨_, _, _, rfl, hacked, hanswers.congr rfl rfl ?_ rfl⟩
    unfold OutStream.streamSend
    rw [append_assoc, take_append_drop]
  · exact ⟨_, _, _, rfl, hacked, hanswers⟩

/-- **A part of the stream arrives.** -/
theorem receive (hinv : e.Inv)
    (hstream : e.recvStreamId.isSome = true) (hle : d.ackedInserts ≤ e.table.base)
    (hbase : e.table.base < 2 ^ 64) {bytes : Bytes} (hbytes : bytes <+: Session.unread conn read) :
    ∃ e', e.receive bytes = (e', .ok ()) ∧ e'.Inv ∧ e.Shrinks e' ∧ e.Stays e' ∧
      Answers e' d conn (read + bytes.length) blocks := by
  obtain ⟨instructions, hends, hrun⟩ := h.unread
  have hpart : bytes <+: (conn.sent ++ d.sendBuf).drop (1 + read) := by
    rw [drop_append]
    exact hbytes.trans (prefix_append _ _)
  obtain ⟨rest, hrest⟩ := hpart
  rw [← hrest] at hends
  obtain ⟨instructions₁, instructions₂, reader, rfl, hends₁, hends₂⟩ :=
    hends.split resumable
  obtain ⟨l, hrun₁, hrun₂⟩ := Ledger.run_append.mp hrun
  obtain ⟨e', hreceive, hreader, hinv', hshrinks, hledger, hstays⟩ :=
    hinv.receive_of_ends hstream hends₁ hrun₁ (hrun₂.acked_le.trans hle) hbase
  refine ⟨e', hreceive, hinv', hshrinks, hstays, ?_, instructions₂, ?_, hledger.symm ▸ hrun₂⟩
  · have hlength := congrArg List.length hrest
    have hread := h.read_le
    rw [length_append, length_drop] at hlength
    omega
  · rw [hreader, ← add_assoc, ← drop_drop, ← hrest, drop_left]
    exact hends₂

end

end Answers

end Neqo.Qpack
