import Neqo.Qpack.Equiv.Written

/-!
# The encoder stream

The instructions sent and not read lead from the decoder's table to the encoder's, both as bounded
queues (`Follows`). An instruction that is sent changes the encoder's table and is the last of
those not read; the decoder executes the first ones, in whichever parts their bytes arrive.
-/

namespace Neqo.Qpack

open EncoderInstruction EncoderInstructionReader Fifo List Relation Session

/-- The type of the stream is sent first. Until then the table has no capacity. -/
def Encoder.Opened (e : Encoder) (conn : OutStream) : Prop :=
  (∃ streamId, e.localStream = .initialized streamId ∧ conn.sent ≠ []) ∨
    ((∀ streamId, e.localStream ≠ .initialized streamId) ∧ conn.sent = [] ∧ e.table.capacity = 0)

/-- **The decoder can follow the encoder**, by what it has not read of the encoder stream. -/
structure Follows (e : Encoder) (conn : OutStream) (read : ℕ) (d : Decoder) : Prop where
  opened : e.Opened conn
  read_le : 0 < read → 1 + read ≤ conn.sent.length
  base_le : e.table.base ≤ conn.sent.length
  length_le : conn.sent.length + conn.space ≤ maxStreamLength
  capacity_le : e.table.capacity ≤ d.maxTableSize
  nextCapacity_le : ∀ cap, e.nextCapacity = some cap → cap ≤ d.maxTableSize
  limit : d.maxTableSize ≤ tableSizeLimit
  passive : d.table.Passive
  acked : d.table.ackedInsertsCnt = 2 ^ 64 - 1
  unread : ∃ instructions : List EncoderInstruction,
    Reader.Ends readInstructions .needMoreData d.instructionReader
      (unread conn read) (instructions.map decoded) {} ∧
    (∀ instruction ∈ instructions, d.Accepts instruction) ∧
    d.table.toFifo.run pairSize (instructions.map op) = some e.table.toFifo

namespace Follows

variable {e e' : Encoder} {conn conn' : OutStream} {read : ℕ} {d : Decoder}
  {Inserts : Bytes → Bytes → Prop}

section

variable (h : Follows e conn read d)

include h

lemma base_lt : e.table.base < 2 ^ 62 := by
  have hbase := h.base_le
  have hlength := h.length_le
  unfold maxStreamLength at hlength
  omega

lemma base_le_base : d.table.base ≤ e.table.base := by
  obtain ⟨instructions, -, -, hrun⟩ := h.unread
  exact inserted_le_of_run hrun

/-! ### Sending -/

lemma congr (hstream : e'.localStream = e.localStream)
    (hnext : e'.nextCapacity = e.nextCapacity) (hfifo : e'.table.toFifo = e.table.toFifo) :
    Follows e' conn read d := by
  have hbase : e'.table.base = e.table.base := congrArg inserted hfifo
  have hcapacity : e'.table.capacity = e.table.capacity := congrArg Fifo.capacity hfifo
  refine ⟨?_, h.read_le, hbase ▸ h.base_le, h.length_le, hcapacity ▸ h.capacity_le,
    hnext ▸ h.nextCapacity_le, h.limit, h.passive, h.acked, hfifo ▸ h.unread⟩
  have hopened := h.opened
  unfold Encoder.Opened at hopened ⊢
  rw [hstream, hcapacity]
  exact hopened

lemma congr_decoder {d' : Decoder}
    (hreader : d'.instructionReader = d.instructionReader) (htable : d'.table = d.table)
    (hmax : d'.maxTableSize = d.maxTableSize) : Follows e conn read d' := by
  obtain ⟨instructions, hends, haccepts, hrun⟩ := h.unread
  refine ⟨h.opened, h.read_le, h.base_le, h.length_le, hmax ▸ h.capacity_le,
    hmax ▸ h.nextCapacity_le,
    hmax ▸ h.limit, htable ▸ h.passive, htable ▸ h.acked, instructions, hreader ▸ hends, ?_,
    htable ▸ hrun⟩
  intro instruction hinstruction
  have haccepts' := haccepts instruction hinstruction
  cases instruction with
  | capacity => exact haccepts'.trans hmax.symm.le
  | insertWithNameLiteral => exact trivial

lemma setSpace (space : ℕ) : Follows e (setSpace conn space) read d := by
  refine ⟨h.opened, h.read_le, h.base_le, ?_, h.capacity_le, h.nextCapacity_le, h.limit, h.passive,
    h.acked, h.unread⟩
  have hlength := h.length_le
  show conn.sent.length + min space (maxStreamLength - conn.sent.length) ≤ _
  omega

lemma send {instruction : EncoderInstruction} (hne : conn.sent ≠ [])
    (hreadable : instruction.Readable e.useHuffman) (haccepts : d.Accepts instruction)
    (hsend : conn.streamSendAtomic (instruction.marshal e.useHuffman) = (conn', true))
    (hexec : e.table.toFifo.exec pairSize instruction.op = some e'.table.toFifo)
    (hstream : e'.localStream = e.localStream)
    (hnext : ∀ cap, e'.nextCapacity = some cap → cap ≤ d.maxTableSize) :
    Follows e' conn' read d := by
  obtain ⟨hspace, rfl⟩ := OutStream.sent_of_streamSendAtomic hsend
  obtain ⟨streamId, hinit, -⟩ : ∃ streamId, e.localStream = .initialized streamId ∧
      conn.sent ≠ [] :=
    h.opened.resolve_right fun hclosed => hne hclosed.2.1
  have hread : 1 + read ≤ conn.sent.length := by
    rcases Nat.eq_zero_or_pos read with rfl | hpos
    · exact length_pos_of_ne_nil hne
    · exact h.read_le hpos
  have hbytes : 0 < (instruction.marshal e.useHuffman).length := by
    have hlt := resumable.length_rest_lt
      (readInstructions_marshal hreadable [])
    rwa [append_nil] at hlt
  have htable : e'.table.base ≤ e.table.base + 1 ∧ e'.table.capacity ≤ d.maxTableSize := by
    cases instruction with
    | capacity =>
      have hfifo := Option.some.inj hexec
      exact ⟨(congrArg inserted hfifo).symm.le.trans (Nat.le_succ _),
        (congrArg Fifo.capacity hfifo).symm.le.trans haccepts⟩
    | insertWithNameLiteral name value =>
      change (if pairSize (name, value) ≤ e.table.capacity then _ else none) = _ at hexec
      split_ifs at hexec
      have hfifo := Option.some.inj hexec
      exact ⟨(congrArg inserted hfifo).symm.le,
        (congrArg Fifo.capacity hfifo).symm.le.trans h.capacity_le⟩
  obtain ⟨instructions, hends, haccepted, hrun⟩ := h.unread
  have hlength := h.length_le
  have hbase := h.base_le
  refine ⟨.inl ⟨streamId, hstream.trans hinit, ?_⟩, ?_, ?_, ?_, htable.2, hnext, h.limit, h.passive,
    h.acked, instructions ++ [instruction], ?_, ?_, ?_⟩
  · exact append_ne_nil_of_left_ne_nil hne _
  · intro _
    rw [length_append]
    omega
  · rw [length_append]
    omega
  · rw [length_append]
    dsimp only
    omega
  · rw [map_append]
    unfold Session.unread
    rw [drop_append_of_le_length hread]
    have hmarshal := readInstructions_marshal hreadable []
    rw [append_nil] at hmarshal
    exact hends.append resumable (.single hmarshal rfl)
  · intro i hi
    rcases mem_append.mp hi with hi | hi
    · exact haccepted i hi
    · rw [mem_singleton.mp hi]
      exact haccepts
  · rw [map_append, run_append, hrun]
    show (e.table.toFifo.exec pairSize instruction.op).bind _ = _
    rw [hexec]
    rfl

end

/-- **The decoder can still follow when something is sent.** -/
theorem sent {p q : Encoder × OutStream} (h : Follows p.1 p.2 read d) (hwf : p.1.table.Wf)
    (hsent : Encoder.Sent Inserts p q)
    (hshort : ∀ name value, Inserts name value →
      (insertWithNameLiteral name value).Readable p.1.useHuffman) :
    Follows q.1 q.2 read d := by
  cases hsent with
  | @streamType e conn conn' streamId hstream hsend =>
    obtain ⟨hspace, rfl⟩ := OutStream.sent_of_streamSendAtomic hsend
    obtain ⟨-, hnil, hcapacity⟩ := h.opened.resolve_left (by
      rintro ⟨streamId', hinit, -⟩
      exact nomatch hstream.symm.trans hinit)
    have hlength := h.length_le
    have hbase := h.base_le
    have hread := h.read_le
    have hunread := h.unread
    dsimp only at hlength hbase hread hunread ⊢
    unfold Session.unread at hunread
    rw [hnil] at hlength hbase hread hunread
    obtain rfl : read = 0 := by
      by_contra hpos
      have hle := hread (Nat.pos_of_ne_zero hpos)
      rw [length_nil] at hle
      omega
    rw [length_singleton] at hspace
    refine ⟨.inl ⟨streamId, rfl, ?_⟩, ?_, ?_, ?_, h.capacity_le, h.nextCapacity_le, h.limit,
      h.passive, h.acked, ?_⟩
    · exact append_ne_nil_of_right_ne_nil _ (cons_ne_nil _ _)
    · exact fun hpos => absurd hpos (lt_irrefl 0)
    · exact hbase.trans (Nat.zero_le _)
    · dsimp only
      rw [hnil, nil_append, length_singleton]
      omega
    · rw [hnil]
      exact hunread
  | @capacity e conn conn' streamId cap table hstream hcap hset hsend =>
    have hcap_le := h.nextCapacity_le cap hcap
    have hne : conn.sent ≠ [] := by
      rcases h.opened with ⟨-, -, hne⟩ | ⟨hnot, -, -⟩
      · exact hne
      · exact absurd hstream (hnot streamId)
    have hlimit := h.limit
    have hreadable : (capacity cap).Readable e.useHuffman := by
      show cap < 2 ^ 64
      have hle : tableSizeLimit < 2 ^ 64 := by decide
      omega
    exact h.send hne hreadable hcap_le hsend (hwf.toFifo_setCapacity hset) rfl nofun
  | @insert e conn conn' streamId name value table hstream hinsert hsend hinserts =>
    have hexec := hwf.toFifo_insert hinsert
    have hne : conn.sent ≠ [] := by
      rcases h.opened with ⟨-, -, hne⟩ | ⟨-, -, hcapacity⟩
      · exact hne
      · -- There is no room for an entry without a capacity.
        change (if pairSize (name, value) ≤ e.table.capacity then _ else none) = _ at hexec
        change e.table.capacity = 0 at hcapacity
        have hsize : ¬ pairSize (name, value) ≤ e.table.capacity := by
          unfold pairSize additionalTableEntrySize
          omega
        rw [if_neg hsize] at hexec
        exact nomatch hexec
    exact h.send hne (hshort name value hinserts) trivial hsend hexec rfl h.nextCapacity_le

lemma sents {p q : Encoder × OutStream} (h : Follows p.1 p.2 read d) {refs : ℕ → ℕ}
    (ht : p.1.table.Tracked refs) (hsent : ReflTransGen (Encoder.Sent Inserts) p q)
    (hshort : ∀ name value, Inserts name value →
      (insertWithNameLiteral name value).Readable p.1.useHuffman) :
    Follows q.1 q.2 read d := by
  induction hsent with
  | refl => exact h
  | tail hsents hstep ih =>
    have hextends := Encoder.extends_of_sent hsents ht
    exact ih.sent hextends.tracked.wf hstep (hextends.useHuffman.symm ▸ hshort)

/-! ### Encoding -/

section Encoding

open Encoder.Encoding

variable {start : Encoder} {refs : ℕ → ℕ} {canBlock : Bool} {s s' : Encoder.Encoding}

lemma encodes {header : Header} (h : Follows s.encoder s.conn read d)
    (ht : Tracks start refs canBlock s) (hencodes : Encodes canBlock header s s')
    (hshort : Short start.useHuffman header) : Follows s'.encoder s'.conn read d := by
  cases hencodes with
  | static | known | literal => exact h
  | @dynamic e conn entry found table hsent hmem hfinds hacked hnew hadd =>
    have hsents := @sents read d _ (s.encoder, s.conn) (e, conn) h _ ht.keeps.tracked hsent (by
      rintro name value ⟨rfl, rfl⟩
      rw [ht.keeps.useHuffman]
      exact hshort)
    have htracked := (Encoder.extends_of_sent hsent ht.keeps.tracked).tracked
    exact hsents.congr rfl rfl (htracked.toFifo_addRef ⟨entry, hmem, rfl⟩ hadd)

/-- **The decoder can still follow when headers are encoded.** -/
theorem encodesAll {headers : List Header} (h : Follows s.encoder s.conn read d)
    (ht : Tracks start refs canBlock s) (hencodes : EncodesAll canBlock headers s s')
    (hshort : ∀ header ∈ headers, Short start.useHuffman header) :
    Follows s'.encoder s'.conn read d := by
  induction hencodes with
  | nil => exact h
  | @cons header headers s s₁ s' hhead _ ih =>
    exact ih (h.encodes ht hhead (hshort header mem_cons_self)) (hhead.tracks ht)
      fun header' hmem => hshort header' (mem_cons_of_mem _ hmem)

end Encoding

end Follows

/-! ### Receiving -/

lemma Decoder.receive_of_ends {d : Decoder} (hstream : d.recvStreamId.isSome = true)
    (hpassive : d.table.Passive) {bytes : Bytes} {instructions : List EncoderInstruction}
    {reader : EncoderInstructionReader}
    (hends : Reader.Ends EncoderInstructionReader.readInstructions .needMoreData d.instructionReader
      bytes (instructions.map decoded) reader)
    (haccepts : ∀ instruction ∈ instructions, d.Accepts instruction) {f : Fifo (Bytes × Bytes)}
    (hrun : d.table.toFifo.run pairSize (instructions.map op) = some f)
    (hinserted : f.inserted ≤ d.table.ackedInsertsCnt)
    (hblocked : ∀ entry ∈ d.blockedStreams, d.table.base < entry.2) :
    ∃ table unblocked,
      d.receive bytes =
        ({ d with
            instructionReader := reader
            table := table
            blockedStreams := d.blockedStreams.filter fun (_, req) => ¬ req ≤ table.base },
          .ok unblocked) ∧
      table.Passive ∧ table.ackedInsertsCnt = d.table.ackedInsertsCnt ∧ table.toFifo = f := by
  obtain ⟨table, hexecutes, hpassive', hacked, hfifo⟩ :=
    executes_decoded hpassive haccepts hrun hinserted
  have hlength := hends.length_le resumable
  have hloop := Reader.loop_of_ends hends hexecutes (Nat.lt_succ_of_le hlength)
  have hread : d.readInstructions bytes =
      ({ d with table := table, instructionReader := reader }, .ok ()) := by
    unfold readInstructions processInstructions
    rw [if_neg (by rw [Option.isNone_eq_false_iff.mpr hstream]; exact Bool.false_ne_true), hloop]
  unfold receive
  rw [hread]
  dsimp only
  split_ifs with hbase
  · refine ⟨table, [], ?_, hpassive', hacked, hfifo⟩
    -- No stream waits for inserts that are there.
    have hfilter : (d.blockedStreams.filter fun (_, req) => ¬ req ≤ table.base) =
        d.blockedStreams := by
      apply filter_eq_self.mpr
      intro entry hentry
      have hlt := hblocked entry hentry
      exact decide_eq_true (by omega)
    rw [hfilter]
  · exact ⟨table, _, rfl, hpassive', hacked, hfifo⟩

namespace Follows

variable {e : Encoder} {conn : OutStream} {read : ℕ} {d : Decoder}

lemma inserted_le (h : Follows e conn read d) : e.table.base ≤ d.table.ackedInsertsCnt := by
  have hlt := h.base_lt
  rw [h.acked]
  omega

/-- **A part of the stream arrives.** -/
theorem receive (h : Follows e conn read d) (hstream : d.recvStreamId.isSome = true)
    (hblocked : ∀ entry ∈ d.blockedStreams, d.table.base < entry.2) {bytes : Bytes}
    (hbytes : bytes <+: Session.unread conn read) :
    ∃ reader table unblocked,
      d.receive bytes =
        ({ d with
            instructionReader := reader
            table := table
            blockedStreams := d.blockedStreams.filter fun (_, req) => ¬ req ≤ table.base },
          .ok unblocked) ∧
      d.table.base ≤ table.base ∧
      Follows e conn (read + bytes.length)
        { d with
          instructionReader := reader
          table := table
          blockedStreams := d.blockedStreams.filter fun (_, req) => ¬ req ≤ table.base } := by
  obtain ⟨instructions, hends, haccepts, hrun⟩ := h.unread
  obtain ⟨rest, hrest⟩ := hbytes
  rw [← hrest] at hends
  obtain ⟨as₁, as₂, reader, hsplit, hends₁, hends₂⟩ :=
    hends.split resumable
  obtain ⟨instructions₁, instructions₂, rfl, rfl, rfl⟩ := map_eq_append_iff.mp hsplit
  rw [map_append, run_append] at hrun
  obtain ⟨f, hrun₁, hrun₂⟩ := Option.bind_eq_some_iff.mp hrun
  obtain ⟨table, unblocked, hreceive, hpassive, hacked, rfl⟩ :=
    Decoder.receive_of_ends hstream h.passive hends₁
      (fun i hi => haccepts i (mem_append_left _ hi)) hrun₁
      ((inserted_le_of_run hrun₂).trans h.inserted_le) hblocked
  refine ⟨reader, table, unblocked, hreceive, inserted_le_of_run hrun₁, h.opened, ?_, h.base_le,
    h.length_le, h.capacity_le, h.nextCapacity_le, h.limit, hpassive, hacked.trans h.acked,
    instructions₂, ?_, fun i hi => haccepts i (mem_append_right _ hi), hrun₂⟩
  · intro hpos
    rcases Nat.eq_zero_or_pos bytes.length with hzero | hbytes
    · rw [hzero] at hpos ⊢
      exact h.read_le hpos
    · have hlength := congrArg List.length hrest
      unfold Session.unread at hlength
      rw [length_append, length_drop] at hlength
      omega
  · have hunread : Session.unread conn (read + bytes.length) = rest := by
      unfold Session.unread at hrest ⊢
      rw [← add_assoc, ← drop_drop, ← hrest, drop_left]
    rw [hunread]
    exact hends₂

/-- When all of the stream arrives, the decoder has the table of the encoder. -/
lemma receiveAll (h : Follows e conn read d) (hstream : d.recvStreamId.isSome = true)
    (hblocked : ∀ entry ∈ d.blockedStreams, d.table.base < entry.2) :
    (d.receive (Session.unread conn read)).1.table.Passive ∧
      (d.receive (Session.unread conn read)).1.maxEntries = d.maxEntries ∧
      (d.receive (Session.unread conn read)).1.table.toFifo = e.table.toFifo := by
  obtain ⟨instructions, hends, haccepts, hrun⟩ := h.unread
  obtain ⟨table, unblocked, hreceive, hpassive, -, hfifo⟩ :=
    Decoder.receive_of_ends hstream h.passive hends haccepts hrun h.inserted_le hblocked
  rw [hreceive]
  exact ⟨hpassive, rfl, hfifo⟩

end Follows

end Neqo.Qpack
