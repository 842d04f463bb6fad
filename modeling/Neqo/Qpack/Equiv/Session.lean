import Neqo.Qpack.Equiv.EncoderStream
import Neqo.Qpack.Equiv.DecoderStream

/-!
# An encoder and a decoder agree

Header blocks encoded and not decoded are in flight (`InFlight`). The encoder's table has all
entries to which they refer, because these are not acknowledged. So the decoder's table has them as
soon as it has seen as many inserts as a block requires, and as it is never further behind or ahead
than the number of entries that fit, it knows which number of inserts is meant (`Delivers.decodes`).
-/

namespace Neqo.Qpack

open Block Function List Prod Relation Session

/-! ### Sending a header block -/

namespace Encoder

variable {e e' : Encoder}

lemma ledger_trackHeaderBlock (e : Encoder) (streamId : StreamId) (refs : List ℕ) :
    (e.trackHeaderBlock streamId refs).ledger =
      if refs = [] then e.ledger else e.ledger.push streamId refs := by
  unfold trackHeaderBlock
  by_cases hrefs : refs = []
  · rw [if_pos (isEmpty_iff.mpr hrefs), if_pos hrefs]
  rw [if_neg (fun hempty => hrefs (isEmpty_iff.mp hempty)), if_neg hrefs]
  unfold ledger Ledger.push push
  congr 1
  funext id
  rw [IndexMap.get?_insert]
  by_cases hid : id = streamId <;> simp [hid]

lemma Inv.length_le {conn : OutStream} {read : ℕ} {d : Decoder} (h : e.Inv)
    (hfollows : Follows e conn read d) :
    e.table.dynamic.length ≤ d.maxTableSize / additionalTableEntrySize :=
  h.tracked.wf.length_le.trans (Nat.div_le_div_right hfollows.capacity_le)

/-- **A header block can be sent**, and a decoder whose table has the entries can decode it. -/
theorem Inv.sends (h : e.Inv) {conn : OutStream} {read : ℕ} {d : Decoder}
    (hfollows : Follows e conn read d)
    (hmax : e.maxEntries = d.maxTableSize / additionalTableEntrySize)
    {headers : List Header} (hsize : (headers.map Header.size).sum ≤ LiteralReader.maxLen)
    (hshort : ∀ header ∈ headers, Encoding.Short e.useHuffman header) (streamId : StreamId) :
    ∃ e' conn' encodedH entries,
      e.encodeHeaderBlock conn headers streamId = .ok (e', conn', encodedH) ∧
      Follows e' conn' read d ∧
      Block.Sound ⟨encodedH.buf, headers, entries⟩ e.maxEntries ∧
      e'.table.HasEntries entries ∧
      e'.ledger = (if entries.map fst = [] then e.ledger
        else e.ledger.push streamId (entries.map fst)) ∧
      e'.instructionReader = e.instructionReader ∧ e'.maxEntries = e.maxEntries ∧
      e'.useHuffman = e.useHuffman ∧ e'.recvStreamId = e.recvStreamId := by
  obtain ⟨s, hsent, hall, htracks, heq⟩ := h.encodeHeaderBlock_eq conn headers streamId
  have hstart := h.startEncoding_tracks conn ((e.startEncoding conn).encoder.canBlock streamId)
  have hextends := extends_of_sent hsent h.tracked
  have hfollows₁ : Follows (e.startEncoding conn).encoder (e.startEncoding conn).conn read d :=
    @Follows.sents read d _ (e, conn) _ hfollows _ h.tracked hsent nofun
  have hwrites : Encoding.Writes (e.startEncoding conn).encoder.table.base [] []
      (e.startEncoding conn) := ⟨rfl, rfl, nofun, rfl, [], rfl, .nil⟩
  have hencoder :
      (e.startEncoding conn).encodedH.useHuffman = (e.startEncoding conn).encoder.useHuffman ∧
      (e.startEncoding conn).encodedH.maxEntries = (e.startEncoding conn).encoder.maxEntries :=
    ⟨rfl, rfl⟩
  generalize e.startEncoding conn = start at *
  obtain ⟨huffman, hmaxEntries⟩ := hencoder
  have hsame := hextends.toSameBlocks.trans htracks.keeps.toSameBlocks
  rw [← show start.encoder.useHuffman = e.useHuffman from hextends.useHuffman] at hshort
  have hfollows₂ := hfollows₁.encodesAll hstart hall hshort
  obtain ⟨entries, hwritten, hmaxEntries'⟩ := hall.writes hstart (huffman.symm ▸ hshort) hwrites
  have hmax' : s.encodedH.maxEntries = e.maxEntries :=
    (hmaxEntries'.trans hmaxEntries).trans hextends.maxEntries
  -- The entries to which the block refers are in the table.
  have hlive : ∀ index ∈ s.refEntries, s.encoder.table.Live index := by
    intro index hindex
    exact htracks.keeps.tracked.live index
      (.inl (Nat.add_pos_right _ (count_pos_iff.mpr hindex)))
  have hwf := htracks.keeps.tracked.wf
  have hrequired : s.encodedH.required < 2 ^ 62 := by
    rw [hwritten.required]
    rcases Nat.eq_zero_or_pos (requiredInserts s.refEntries) with hzero | hpos
    · rw [hzero]
      decide
    · obtain ⟨index, hindex, hreq⟩ := exists_requiredInserts hpos
      have hlt := (hwf.live_iff.mp (hlive index hindex)).1
      have hbase := hfollows₂.base_lt
      omega
  obtain ⟨encodedH, hprefix⟩ : ∃ encodedH, s.encodedH.encodeHeaderBlockPrefix = .ok encodedH := by
    unfold HeaderEncoder.encodeHeaderBlockPrefix
    rcases hr : s.encodedH.maxDynamicIndexRef with _ | r
    · exact ⟨_, rfl⟩
    have hpos : 0 < requiredInserts s.refEntries := by
      rw [← hwritten.required]
      unfold HeaderEncoder.required
      rw [hr]
      exact Nat.succ_pos r
    obtain ⟨index, hindex, -⟩ := exists_requiredInserts hpos
    have hlive' := hwf.live_iff.mp (hlive index hindex)
    have hlength := hwf.length_le.trans (Nat.div_le_div_right hfollows₂.capacity_le)
    dsimp only
    rw [if_neg (by omega)]
    split_ifs <;> exact ⟨_, rfl⟩
  obtain ⟨e', hcount⟩ : ∃ e', s.encoder.countBlocked (start.encoder.isStreamBlocker streamId)
      s.refEntries = .ok e' := by
    unfold countBlocked
    split_ifs with hnew hmany
    · rw [htracks.keeps.acked] at hnew
      have hlt := htracks.lt_of_newBlocker hnew
      rw [htracks.keeps.blockedCnt, htracks.keeps.maxBlocked] at hmany
      omega
    · exact ⟨_, rfl⟩
    · exact ⟨_, rfl⟩
  have hencode : e.encodeHeaderBlock conn headers streamId =
      .ok (e'.trackHeaderBlock streamId s.refEntries, s.conn, encodedH) := by
    rw [heq]
    simp only [bind, Except.bind, hprefix, hcount]
    rfl
  have hledger : (e'.trackHeaderBlock streamId s.refEntries).ledger =
      if entries.map fst = [] then e.ledger
      else e.ledger.push streamId (entries.map fst) := by
    rw [ledger_trackHeaderBlock, hwritten.refs, eq_of_countBlocked hcount]
    unfold ledger
    rw [hsame.acked, hsame.blocks]
  -- What is left changes neither the table nor what is on the stream.
  rw [trackHeaderBlock_eq, eq_of_countBlocked hcount] at hencode hledger
  refine ⟨_, _, encodedH, entries, hencode, hfollows₂.congr rfl rfl rfl, ?_, hwritten.has, hledger,
    hsame.reader, hsame.maxEntries, hsame.useHuffman, hsame.recvStreamId⟩
  rw [← hmax']
  refine sound_of_readsAs hprefix ?_ ?_ ?_ hrequired hsize
  · rw [hwritten.base_eq]
    exact hwritten.reads
  · rw [hwritten.refs]
    exact hwritten.required
  · rw [hwritten.base_eq]
    exact hfollows₁.base_lt

end Encoder

/-! ### In flight -/

variable (flights : StreamId → List Block)

/-- The references of the header blocks in flight, without those that have none. -/
def unacked (streamId : StreamId) : List (List ℕ) :=
  ((flights streamId).map refs).filter (· ≠ [])

lemma unacked_update (streamId : StreamId) (l : List Block) :
    unacked (update flights streamId l) =
      update (unacked flights) streamId ((l.map refs).filter (· ≠ [])) :=
  funext (apply_update (fun _ l => (l.map refs).filter (· ≠ [])) flights streamId l)

lemma unacked_push (streamId : StreamId) (b : Block) :
    unacked (push flights streamId b) =
      if b.refs = [] then unacked flights else push (unacked flights) streamId b.refs := by
  rw [push, unacked_update, map_append, filter_append]
  split_ifs with hrefs
  · simp [hrefs, unacked]
  · simp [hrefs, unacked, push]

lemma unacked_pop {flights : StreamId → List Block} {streamId : StreamId} {b : Block}
    {rest : List Block} (h : flights streamId = b :: rest) :
    (b.refs = [] ∧ unacked (update flights streamId rest) = unacked flights) ∨
      ∃ blocks, unacked flights streamId = b.refs :: blocks ∧
        unacked (update flights streamId rest) =
          update (unacked flights) streamId blocks := by
  rw [unacked_update]
  by_cases hrefs : b.refs = []
  · refine .inl ⟨hrefs, update_eq_self_iff.mpr ?_⟩
    simp [unacked, h, hrefs]
  · refine .inr ⟨_, ?_, rfl⟩
    simp [unacked, h, hrefs]

lemma Block.req_eq_zero {b : Block} : b.req = 0 ↔ b.refs = [] := by
  constructor
  · intro hzero
    rw [eq_nil_iff_forall_not_mem]
    intro index hindex
    have hlt := lt_requiredInserts hindex
    unfold req at hzero
    omega
  · intro hnil
    unfold req
    rw [hnil]
    rfl

namespace Session

/-- The two sides use the same limits. -/
structure Agree (useHuffman : Bool) (e : Encoder) (d : Decoder) : Prop where
  maxBlockedStreams : e.maxBlockedStreams = d.maxBlockedStreams
  maxEntries : e.maxEntries = d.maxEntries
  maxEntries_eq : d.maxEntries = d.maxTableSize / additionalTableEntrySize
  encoderStream : d.recvStreamId.isSome = true
  decoderStream : e.recvStreamId.isSome = true
  useHuffman_eq : e.useHuffman = useHuffman

/-- The header blocks of a stream: those not decoded are in flight, and the encoder has the entries
to which they refer. -/
structure InFlight (t : HeaderTable) (maxEntries : ℕ) (id : StreamId) (blocks : List Bytes)
    (encoded decoded : List (List Header)) (flight : List Block) : Prop where
  blocks : blocks = flight.map buf
  encoded : encoded = decoded ++ flight.map headers
  sound : ∀ b ∈ flight, id.asU64 < 2 ^ 64 ∧ b.Sound maxEntries ∧ t.HasEntries b.entries

/-- **What holds at any time**, with the header blocks that are in flight. -/
structure Delivers (useHuffman : Bool) (s : Session) (flights : StreamId → List Block) : Prop where
  errors : s.errors = []
  agree : Agree useHuffman s.encoder s.decoder
  inv : s.encoder.Inv
  blocked_le : s.encoder.blockedStreamCnt ≤ s.encoder.maxBlockedStreams
  follows : Follows s.encoder s.encoderStream s.encoderStreamRead s.decoder
  answers : Answers s.encoder s.decoder s.decoderStream s.decoderStreamRead (unacked flights)
  acked_le : s.decoder.ackedInserts ≤ s.decoder.table.base
  streams : ∀ id, InFlight s.encoder.table s.encoder.maxEntries id (s.blocks id) (s.encoded id)
    (s.decoded id) (flights id)
  nodup : (s.decoder.blockedStreams.map fst).Nodup
  waits : ∀ entry ∈ s.decoder.blockedStreams, s.decoder.table.base < entry.2 ∧
    ∃ b rest, flights entry.1 = b :: rest ∧ b.req = entry.2

namespace Delivers

variable {useHuffman : Bool} {s : Session} {flights : StreamId → List Block}

/-! ### Blocks in flight -/

variable {id : StreamId} {b : Block}

section

variable (h : Delivers useHuffman s flights)

include h

lemma mem_unackedHeaderBlocks (hb : b ∈ flights id) (hrefs : b.refs ≠ []) :
    ∃ hbList, s.encoder.unackedHeaderBlocks.Mem id hbList ∧ b.refs ∈ hbList := by
  obtain ⟨instructions, -, hrun⟩ := h.answers.unread
  have hmem : b.refs ∈ unacked flights id :=
    mem_filter.mpr ⟨mem_map_of_mem hb, decide_eq_true hrefs⟩
  have hmem' := (hrun.suffix id).subset hmem
  change b.refs ∈ ((s.encoder.unackedHeaderBlocks.get? id).getD []).reverse at hmem'
  rw [mem_reverse] at hmem'
  rcases hget : s.encoder.unackedHeaderBlocks.get? id with _ | hbList
  · rw [hget] at hmem'
    exact absurd hmem' not_mem_nil
  · rw [hget] at hmem'
    exact ⟨hbList, IndexMap.get?_eq_some_iff.mp hget, hmem'⟩

lemma refCount_pos (hb : b ∈ flights id) {index : ℕ}
    (hindex : index ∈ b.refs) : 0 < Encoder.refCount s.encoder.unackedHeaderBlocks index := by
  obtain ⟨hbList, hmem, hrefs⟩ := h.mem_unackedHeaderBlocks hb (ne_nil_of_mem hindex)
  have hle := IndexMap.le_sum_of_mem hmem fun hbList =>
    hbList.countP fun refList => refList.contains index
  refine lt_of_lt_of_le ?_ hle
  exact countP_pos_iff.mpr ⟨b.refs, hrefs, contains_iff_mem.mpr hindex⟩

lemma base_le_add :
    s.encoder.table.base ≤ s.encoder.table.ackedInsertsCnt + s.encoder.maxEntries := by
  by_contra hnot
  have hlive := h.inv.tracked.live _ (.inr ⟨le_refl _, by omega⟩)
  have hle := (h.inv.tracked.wf.live_iff.mp hlive).2
  have hlength := h.inv.length_le h.follows
  rw [← h.agree.maxEntries_eq, ← h.agree.maxEntries] at hlength
  omega

lemma req_window (hb : b ∈ flights id) (hpos : 0 < b.req) :
    b.req ≤ s.encoder.table.base ∧ s.encoder.table.base < b.req + s.encoder.maxEntries := by
  obtain ⟨index, hindex, hreq⟩ := exists_requiredInserts hpos
  obtain ⟨entry, hentry, rfl⟩ := mem_map.mp hindex
  have hget := ((h.streams id).sound b hb).2.2 entry hentry
  obtain ⟨e, he, hbase, -⟩ := h.inv.tracked.wf.get?_toFifo.mp hget
  have hlive := h.inv.tracked.wf.live_iff.mp ⟨e, he, hbase⟩
  have hlength := h.inv.length_le h.follows
  rw [← h.agree.maxEntries_eq, ← h.agree.maxEntries] at hlength
  unfold req
  omega

/-- **A decoder that follows the encoder decodes a header block in flight, or waits for
inserts.** -/
theorem decodes (hb : b ∈ flights id) {t : HeaderTable}
    (hwf : t.Wf) (hacked : s.encoder.table.ackedInsertsCnt ≤ t.base)
    (hbase : t.base ≤ s.encoder.table.base)
    (hget : ∀ index p, s.encoder.table.toFifo.get? index = some p → index < t.base →
      t.toFifo.get? index = some p) :
    (t.base < b.req → ∃ decoder, HeaderDecoder.decodeHeaderBlock { buf := b.buf } t
      s.decoder.maxEntries t.base = .ok (decoder, .blocked b.req)) ∧
    (b.req ≤ t.base → ∃ decoder, HeaderDecoder.decodeHeaderBlock { buf := b.buf } t
      s.decoder.maxEntries t.base = .ok (decoder, .headers b.headers) ∧
        decoder.reqInsertCnt = b.req) := by
  obtain ⟨-, hsound, hhas⟩ := (h.streams id).sound b hb
  rw [← h.agree.maxEntries]
  have hlt := h.follows.base_lt
  have hadd := h.base_le_add
  have hwindow := h.req_window hb
  constructor
  · intro hreq
    exact hsound.blocked t (by omega) (by omega) (by omega) hreq
  · intro hreq
    refine hsound.decoded t hwf (by omega) (fun hpos => ?_) hreq ?_
    · omega
    · intro entry hentry
      have hindex : entry.1 < b.req := lt_requiredInserts (mem_map_of_mem hentry)
      exact hget _ _ (hhas entry hentry) (hindex.trans_le hreq)

lemma acked_le_base :
    s.encoder.table.ackedInsertsCnt ≤ s.decoder.table.base := h.answers.acked_le.trans h.acked_le

end

variable {rest : List Block}

section

variable (h : Delivers useHuffman s flights)

include h

lemma isBlocker_of_waits (hflights : flights id = b :: rest)
    (hwaits : s.decoder.table.base < b.req) :
    ∃ hbList, s.encoder.unackedHeaderBlocks.Mem id hbList ∧
      Encoder.isBlocker s.encoder.table.ackedInsertsCnt hbList = true := by
  obtain ⟨index, hindex, hreq⟩ := exists_requiredInserts (Nat.zero_lt_of_lt hwaits)
  have hb : b ∈ flights id := hflights ▸ mem_cons_self
  obtain ⟨hbList, hmem, hrefs⟩ := h.mem_unackedHeaderBlocks hb (ne_nil_of_mem hindex)
  refine ⟨hbList, hmem, any_eq_true.mpr ⟨index, mem_flatten.mpr ⟨_, hrefs, hindex⟩, ?_⟩⟩
  have hacked := h.acked_le_base
  unfold req at hwaits
  exact decide_eq_true (by omega)

lemma length_blockedStreams_lt (hflights : flights id = b :: rest)
    (hwaits : s.decoder.table.base < b.req) (hnew : id ∉ s.decoder.blockedStreams.map fst) :
    s.decoder.blockedStreams.length < s.decoder.maxBlockedStreams := by
  have hle : (id :: s.decoder.blockedStreams.map fst).length ≤ s.encoder.blockers := by
    apply IndexMap.length_le_count (nodup_cons.mpr ⟨hnew, h.nodup⟩)
    intro k hk
    rcases mem_cons.mp hk with rfl | hk
    · exact h.isBlocker_of_waits hflights hwaits
    · obtain ⟨entry, hentry, rfl⟩ := mem_map.mp hk
      obtain ⟨hlt, b', rest', hflights', hreq⟩ := h.waits entry hentry
      exact h.isBlocker_of_waits hflights' (hreq.symm ▸ hlt)
  rw [length_cons, length_map] at hle
  have hblocked := h.blocked_le
  rw [h.inv.blocked, h.agree.maxBlockedStreams] at hblocked
  exact hle.trans hblocked

/-- The next header block of a stream waits, or is decoded as the headers that were encoded. -/
lemma decodeHeaderBlock_cases (hflights : flights id = b :: rest) :
    (s.decoder.table.base < b.req ∧
      (s.decoder.decodeHeaderBlock b.buf id = (s.decoder, .ok none) ∨
        (id ∉ s.decoder.blockedStreams.map fst ∧
          s.decoder.decodeHeaderBlock b.buf id =
            ({ s.decoder with blockedStreams := s.decoder.blockedStreams ++ [(id, b.req)] },
              .ok none)))) ∨
    (b.req ≤ s.decoder.table.base ∧
      s.decoder.decodeHeaderBlock b.buf id =
        (if b.req ≠ 0 then s.decoder.headerAck id b.req else s.decoder, .ok (some b.headers))) := by
  have hb : b ∈ flights id := hflights ▸ mem_cons_self
  obtain ⟨_, -, -, hrun⟩ := h.follows.unread
  obtain ⟨hwait, hready⟩ := h.decodes hb h.follows.passive.wf h.acked_le_base h.follows.base_le_base
    fun _ _ => Fifo.get?_of_run hrun
  unfold Decoder.decodeHeaderBlock
  by_cases hreq : s.decoder.table.base < b.req
  · refine .inl ⟨hreq, ?_⟩
    obtain ⟨decoder, hdecode⟩ := hwait hreq
    rw [hdecode]
    dsimp only
    split_ifs with hknown hfull
    · exact .inl rfl
    all_goals
      have hnew : id ∉ s.decoder.blockedStreams.map fst := by
        intro hmem
        obtain ⟨entry, hentry, hid⟩ := mem_map.mp hmem
        exact hknown (any_eq_true.mpr ⟨entry, hentry, decide_eq_true hid⟩)
    · exact absurd hfull (not_le.mpr (h.length_blockedStreams_lt hflights hreq hnew))
    · exact .inr ⟨hnew, rfl⟩
  · refine .inr ⟨Nat.le_of_not_lt hreq, ?_⟩
    obtain ⟨decoder, hdecode, hcnt⟩ := hready (Nat.le_of_not_lt hreq)
    rw [hdecode]
    dsimp only
    rw [hcnt]
    split_ifs <;> rfl

/-! ### Steps -/

variable (streamId : StreamId)

lemma addEncoderStream : Delivers useHuffman (s.step (.addEncoderStream streamId)) flights := by
  unfold step
  dsimp only
  by_cases hnone : s.encoder.localStream = .noStream
  · have hadd : s.encoder.addSendStream streamId =
        ({ s.encoder with localStream := .uninitialized streamId }, .ok ()) := by
      unfold Encoder.addSendStream
      rw [if_neg (not_not.mpr hnone)]
    rw [if_pos hnone, hadd]
    refine { h with agree := ?_, inv := ?_, follows := ?_, answers := ?_ }
    · exact { h.agree with }
    · exact ⟨{ h.inv with }, h.inv.blocked⟩
    · have hopened := h.follows.opened.resolve_left (by
        rintro ⟨streamId', hinit, -⟩
        exact nomatch hnone.symm.trans hinit)
      exact { h.follows with opened := .inr ⟨nofun, hopened.2⟩ }
    · exact h.answers.congr rfl rfl rfl rfl
  · rw [if_neg hnone]
    exact h

lemma addDecoderStream : Delivers useHuffman (s.step (.addDecoderStream streamId)) flights := by
  unfold step
  dsimp only
  by_cases hnone : s.decoder.localStreamId = none
  · have hadd : s.decoder.addSendStream streamId =
        ({ s.decoder with localStreamId := some streamId }, .ok ()) := by
      unfold Decoder.addSendStream
      rw [hnone, if_neg (by exact nofun)]
    rw [if_pos hnone, hadd]
    refine { h with agree := ?_, follows := ?_, answers := ?_ }
    · exact { h.agree with }
    · exact h.follows.congr_decoder rfl rfl rfl
    · exact h.answers.congr rfl rfl rfl rfl
  · rw [if_neg hnone]
    exact h

/-- **A header block is sent.** -/
theorem encode {streamId : StreamId} {headers : List Header}
    (hid : streamId.asU64 < 2 ^ 64) (hsize : (headers.map Header.size).sum ≤ LiteralReader.maxLen)
    (hshort : ∀ header ∈ headers, Encoder.Encoding.Short useHuffman header) :
    ∃ flights', Delivers useHuffman (s.encode streamId headers) flights' := by
  have hmax := h.agree.maxEntries.trans h.agree.maxEntries_eq
  rw [← h.agree.useHuffman_eq] at hshort
  obtain ⟨e', conn', encodedH, entries, hencode, hfollows, hsound, hhas, hledger, hreader, hmax',
    huffman, hrecv⟩ := h.inv.sends h.follows hmax hsize hshort streamId
  obtain ⟨hinv, hretains, hmaxBlocked, hblocked⟩ := h.inv.encodeHeaderBlock hencode
  unfold Session.encode
  rw [hencode]
  refine ⟨push flights streamId ⟨encodedH.buf, headers, entries⟩, ?_⟩
  -- The entries of the older blocks are counted, so they stay.
  have hold (id : StreamId) :
      InFlight e'.table e'.maxEntries id (s.blocks id) (s.encoded id) (s.decoded id)
      (flights id) := by
    refine { h.streams id with sound := fun b hb => ?_ }
    obtain ⟨hid', hsound', hhas'⟩ := (h.streams id).sound b hb
    refine ⟨hid', hmax'.symm ▸ hsound', ?_⟩
    apply Encoder.Encoding.hasEntries_of_retains hhas' h.inv.tracked hinv.tracked.wf hretains
    intro entry hentry
    exact h.refCount_pos hb (mem_map_of_mem hentry)
  refine
    { h with
      agree := ?_, inv := hinv, blocked_le := ?_, follows := hfollows, answers := ?_, streams := ?_
      waits := ?_ }
  · exact ⟨hmaxBlocked.trans h.agree.maxBlockedStreams, hmax'.trans h.agree.maxEntries,
      h.agree.maxEntries_eq, h.agree.encoderStream, hrecv.symm ▸ h.agree.decoderStream,
      huffman.trans h.agree.useHuffman_eq⟩
  · exact (hblocked h.blocked_le).trans hmaxBlocked.symm.le
  · rw [unacked_push]
    split_ifs at hledger with hrefs
    · rw [if_pos (show refs ⟨encodedH.buf, headers, entries⟩ = [] from hrefs)]
      exact h.answers.congr hreader hledger rfl rfl
    · rw [if_neg (show refs ⟨encodedH.buf, headers, entries⟩ ≠ [] from hrefs)]
      exact h.answers.push hreader hledger
  · intro id
    unfold push
    by_cases hstream : id = streamId
    · subst hstream
      obtain ⟨hblocks, hencoded, hsounds⟩ := hold id
      simp only [update_self]
      refine ⟨?_, ?_, ?_⟩
      · rw [hblocks, map_append]
        rfl
      · rw [hencoded, map_append, append_assoc]
        rfl
      · exact forall_mem_append.mpr
          ⟨hsounds, forall_mem_singleton.mpr ⟨hid, hmax'.symm ▸ hsound, hhas⟩⟩
    · simp only [update_of_ne hstream]
      exact hold id
  · intro entry hentry
    obtain ⟨hlt, b, rest, hflights, hreq⟩ := h.waits entry hentry
    refine ⟨hlt, ?_⟩
    rw [push, update_apply]
    split_ifs with hstream
    · rw [← hstream, hflights]
      exact ⟨b, rest ++ [_], cons_append, hreq⟩
    · exact ⟨b, rest, hflights, hreq⟩

/-- **A part of the encoder stream arrives.** -/
theorem receiveEncoderStream (amount : ℕ) :
    Delivers useHuffman (s.receiveEncoderStream amount) flights := by
  obtain ⟨reader, table, unblocked, hreceive, hle, hfollows⟩ :=
    h.follows.receive h.agree.encoderStream (fun entry hentry => (h.waits entry hentry).1)
    (List.take_prefix amount (unread s.encoderStream s.encoderStreamRead))
  unfold Session.receiveEncoderStream
  dsimp only
  rw [hreceive]
  refine { h with
    agree := { h.agree with }, follows := hfollows, answers := ?_, acked_le := ?_, nodup := ?_
    waits := ?_ }
  · exact h.answers.congr rfl rfl rfl rfl
  · exact h.acked_le.trans hle
  · exact h.nodup.sublist (filter_sublist.map fst)
  · intro entry hentry
    obtain ⟨hmem, hreq⟩ := mem_filter.mp hentry
    exact ⟨Nat.lt_of_not_le (of_decide_eq_true hreq), (h.waits entry hmem).2⟩

/-- **A header block is decoded, or waits.** -/
theorem decode : ∃ flights', Delivers useHuffman (s.decode streamId) flights' := by
  unfold Session.decode
  have hblocks := (h.streams streamId).blocks
  rcases hflights : flights streamId with _ | ⟨b, rest⟩
  · rw [hflights] at hblocks
    rw [hblocks]
    exact ⟨flights, h⟩
  rw [hflights, map_cons] at hblocks
  rw [hblocks]
  dsimp only
  rcases h.decodeHeaderBlock_cases hflights with
    ⟨hreq, hdecode | ⟨hnew, hdecode⟩⟩ | ⟨hreq, hdecode⟩
  · rw [hdecode]
    exact ⟨flights, h⟩
  · rw [hdecode]
    refine ⟨flights, { h with
      agree := { h.agree with }, follows := ?_, answers := ?_, nodup := ?_, waits := ?_ }⟩
    · exact h.follows.congr_decoder rfl rfl rfl
    · exact h.answers.congr rfl rfl rfl rfl
    · rw [map_append]
      exact nodup_append.mpr ⟨h.nodup, nodup_singleton _, by
        rintro id hid _ hself rfl
        obtain rfl : id = streamId := mem_singleton.mp hself
        exact hnew hid⟩
    · intro entry hentry
      rcases mem_append.mp hentry with hentry | hentry
      · exact h.waits entry hentry
      · rw [mem_singleton.mp hentry]
        exact ⟨hreq, b, rest, hflights, rfl⟩
  · have hb : b ∈ flights streamId := hflights ▸ mem_cons_self
    rw [hdecode]
    refine ⟨update flights streamId rest, ?_⟩
    -- The decoder acknowledges the block if it refers to the table.
    obtain ⟨sendBuf, acked, hd, hanswers, hacked⟩ : ∃ sendBuf acked,
        (if b.req ≠ 0 then s.decoder.headerAck streamId b.req else s.decoder) =
          { s.decoder with sendBuf := sendBuf, ackedInserts := acked } ∧
        Answers s.encoder { s.decoder with sendBuf := sendBuf, ackedInserts := acked }
          s.decoderStream s.decoderStreamRead (unacked (update flights streamId rest)) ∧
        acked ≤ s.decoder.table.base := by
      rcases unacked_pop hflights with ⟨hrefs, hunacked⟩ | ⟨blocks, hfront, hunacked⟩
      · rw [if_neg (not_not.mpr (req_eq_zero.mpr hrefs)), hunacked]
        exact ⟨_, _, rfl, h.answers, h.acked_le⟩
      · have hrefs : b.refs ≠ [] := by
          have hmem : b.refs ∈ unacked flights streamId := hfront ▸ mem_cons_self
          exact of_decide_eq_true (mem_filter.mp hmem).2
        rw [if_pos (fun hzero => hrefs (req_eq_zero.mp hzero)), hunacked]
        have hmax : (if b.req > s.decoder.ackedInserts then b.req else s.decoder.ackedInserts) =
            max s.decoder.ackedInserts b.req := by
          split_ifs <;> omega
        refine ⟨_, _, rfl, ?_, ?_⟩
        · apply h.answers.answer
            (DecoderInstructionReader.ends_headerAck ((h.streams streamId).sound b hb).1)
          · rw [hmax]
            exact .headerAck hfront
          · rfl
        · rw [hmax]
          exact Nat.max_le.mpr ⟨h.acked_le, hreq⟩
    rw [hd]
    refine
      { h with
        agree := { h.agree with }, follows := ?_, answers := hanswers, acked_le := hacked,
        streams := ?_
        waits := ?_ }
    · exact h.follows.congr_decoder rfl rfl rfl
    · intro id
      unfold push
      by_cases hid : id = streamId
      · subst hid
        obtain ⟨-, hencoded, hsounds⟩ := h.streams id
        rw [hflights] at hencoded hsounds
        simp only [update_self]
        refine ⟨rfl, ?_, (forall_mem_cons.mp hsounds).2⟩
        rw [hencoded, map_cons, append_assoc, singleton_append]
      · simp only [update_of_ne hid]
        exact h.streams id
    · intro entry hentry
      obtain ⟨hlt, b', rest', hflights', hreq'⟩ := h.waits entry hentry
      -- The stream does not wait, since the block does not.
      have hid : entry.1 ≠ streamId := by
        intro hid
        rw [hid, hflights] at hflights'
        obtain ⟨rfl, -⟩ := cons.inj hflights'
        omega
      rw [update_of_ne hid]
      exact ⟨hlt, b', rest', hflights', hreq'⟩

lemma send : Delivers useHuffman (s.step .send) flights := by
  have hbase := h.follows.base_le_base
  have hlt := h.follows.base_lt
  obtain ⟨sendBuf, ackedInserts, conn', hsend, hacked, hanswers⟩ :=
    h.answers.send h.acked_le (by omega)
  unfold step
  rw [hsend]
  refine
    { h with agree := { h.agree with }, follows := ?_, answers := hanswers, acked_le := hacked }
  exact h.follows.congr_decoder rfl rfl rfl

/-- **A part of the decoder stream arrives.** -/
theorem receiveDecoderStream (amount : ℕ) :
    Delivers useHuffman (s.receiveDecoderStream amount) flights := by
  have hlt := h.follows.base_lt
  obtain ⟨e', hreceive, hinv, hshrinks, hstays, hanswers⟩ := h.answers.receive h.inv
    h.agree.decoderStream (h.acked_le.trans h.follows.base_le_base) (by omega)
    (List.take_prefix amount (unread s.decoderStream s.decoderStreamRead))
  unfold Session.receiveDecoderStream
  dsimp only
  rw [hreceive]
  refine
    { h with
      agree := ?_, inv := hinv, blocked_le := ?_, follows := ?_, answers := hanswers,
      streams := ?_ }
  · exact ⟨hshrinks.maxBlocked.trans h.agree.maxBlockedStreams,
      hstays.maxEntries.trans h.agree.maxEntries, h.agree.maxEntries_eq, h.agree.encoderStream,
      hstays.recvStreamId.symm ▸ h.agree.decoderStream,
        hstays.useHuffman.trans h.agree.useHuffman_eq⟩
  · exact (hshrinks.blockedCnt.trans h.blocked_le).trans hshrinks.maxBlocked.symm.le
  · exact h.follows.congr hstays.localStream hstays.nextCapacity hstays.fifo
  · refine fun id => { h.streams id with sound := fun b hb => ?_ }
    obtain ⟨hid, hsound, hhas⟩ := (h.streams id).sound b hb
    refine ⟨hid, hstays.maxEntries.symm ▸ hsound, ?_⟩
    intro entry hentry
    show e'.table.toFifo.get? entry.1 = some entry.2
    rw [hstays.fifo]
    exact hhas entry hentry

end

end Delivers

/-! ### Runs -/

/-- What is encoded is within the limits for literals and for the size of a header list. -/
def Op.Admissible (useHuffman : Bool) : Op → Prop
  | .encode streamId headers =>
    streamId.asU64 < 2 ^ 64 ∧ (headers.map Header.size).sum ≤ LiteralReader.maxLen ∧
      ∀ header ∈ headers, Encoder.Encoding.Short useHuffman header
  | _ => True

lemma Delivers.step {useHuffman : Bool} {s : Session} {flights : StreamId → List Block}
    (h : Delivers useHuffman s flights) {op : Op} (hop : op.Admissible useHuffman) :
    ∃ flights', Delivers useHuffman (s.step op) flights' := by
  cases op with
  | addEncoderStream streamId => exact ⟨flights, h.addEncoderStream streamId⟩
  | addDecoderStream streamId => exact ⟨flights, h.addDecoderStream streamId⟩
  | encoderSpace space => exact ⟨flights, { h with follows := h.follows.setSpace space }⟩
  | decoderSpace =>
    exact ⟨flights, { h with answers := h.answers.congr rfl rfl rfl rfl }⟩
  | encode => exact h.encode hop.1 hop.2.1 hop.2.2
  | receiveEncoderStream amount => exact ⟨flights, h.receiveEncoderStream amount⟩
  | decode streamId => exact h.decode streamId
  | send => exact ⟨flights, h.send⟩
  | receiveDecoderStream amount => exact ⟨flights, h.receiveDecoderStream amount⟩

lemma Delivers.run {useHuffman : Bool} {s : Session} {flights : StreamId → List Block}
    (h : Delivers useHuffman s flights) {ops : List Op}
    (hops : ∀ op ∈ ops, op.Admissible useHuffman) :
    ∃ flights', Delivers useHuffman (s.run ops) flights' :=
  List.foldlRecOn (motive := fun s => ∃ flights, Delivers useHuffman s flights) ops _ ⟨flights, h⟩
    fun _ ⟨_, h⟩ op hop => h.step (hops op hop)

lemma setMaxCapacity_eq {e : Encoder} {cap : ℕ} (hcap : cap ≤ tableSizeLimit)
    (hnone : e.nextCapacity = none) :
    ∃ nextCapacity, (∀ value, nextCapacity = some value → value ≤ cap) ∧
      e.setMaxCapacity cap =
        ({ e with maxEntries := cap / additionalTableEntrySize, nextCapacity := nextCapacity },
          .ok ()) := by
  unfold tableSizeLimit at hcap
  unfold Encoder.setMaxCapacity
  rw [if_neg (not_lt.mpr hcap)]
  dsimp only
  split_ifs
  · exact ⟨none, nofun, by rw [← hnone]⟩
  · refine ⟨some (min e.maxTableSize cap), ?_, rfl⟩
    intro value hvalue
    obtain rfl := Option.some.inj hvalue
    omega

/-- **The two sides agree at the start.** -/
theorem delivers_start (config : Config) :
    Delivers config.useHuffman (start config) fun _ => [] := by
  obtain ⟨nextCapacity, hnext, hcapacity⟩ := @setMaxCapacity_eq
    { Encoder.new config.encoderSettings config.useHuffman with
      recvStreamId := some config.decoderStreamId } _ config.decoderSettings.maxTableSizeDecoder_le
        rfl
  have hstart : start config =
      { encoder :=
          { Encoder.new config.encoderSettings config.useHuffman with
            recvStreamId := some config.decoderStreamId
            maxEntries := config.decoderSettings.maxTableSizeDecoder / additionalTableEntrySize
            nextCapacity := nextCapacity
            maxBlockedStreams := config.decoderSettings.maxBlockedStreams }
        decoder :=
          { Decoder.new config.decoderSettings with
            recvStreamId := some config.encoderStreamId } } := by
    have hadd : (Encoder.new config.encoderSettings config.useHuffman).addRecvStream
        config.decoderStreamId =
          ({ Encoder.new config.encoderSettings config.useHuffman with
            recvStreamId := some config.decoderStreamId }, .ok ()) := rfl
    unfold start
    rw [hadd]
    dsimp only
    rw [hcapacity]
    unfold Encoder.setMaxBlockedStreams
    rw [if_neg (not_le.mpr config.decoderSettings.maxBlockedStreams_lt)]
    rfl
  have hinv := Encoder.inv_new config.encoderSettings config.useHuffman
  rw [hstart]
  refine ⟨rfl, ⟨rfl, ?_, ?_, rfl, rfl, rfl⟩, ?_, Nat.zero_le _, ?_, ?_, Nat.le_refl _,
    fun _ => ⟨rfl, rfl, nofun⟩, nodup_nil, nofun⟩
  · exact (Nat.shiftRight_eq_div_pow _ 5).symm
  · exact Nat.shiftRight_eq_div_pow _ 5
  · exact ⟨{ hinv with }, hinv.blocked⟩
  · refine ⟨.inr ⟨nofun, rfl, rfl⟩, nofun, Nat.le_refl _, Nat.zero_le _, Nat.zero_le _, hnext,
      config.decoderSettings.maxTableSizeDecoder_le, ?_, rfl, [], ?_, nofun, rfl⟩
    · exact ⟨⟨nofun, rfl, Nat.le_refl _⟩, nofun, Nat.zero_le _⟩
    · exact .stop rfl
  · exact ⟨le_refl _, [], .stop rfl, .nil _⟩

/-- **What is decoded is what was encoded.**  For any settings, whatever is encoded on whichever
streams, and however late the bytes of either side and the header blocks arrive, no side reports an
error. The next header block of a stream is decoded as the header list that was encoded, or waits
for inserts; and it is decoded as soon as the encoder stream has arrived. -/
theorem decoded_eq_encoded (config : Config) (ops : List Op)
    (hops : ∀ op ∈ ops, op.Admissible config.useHuffman) :
    let s := (start config).run ops
    s.errors = [] ∧
      ∀ streamId, ∃ pending, s.encoded streamId = s.decoded streamId ++ pending ∧
        pending.length = (s.blocks streamId).length ∧
        ∀ block blocks, s.blocks streamId = block :: blocks →
          ∃ headers, pending.head? = some headers ∧
            ((s.decoder.decodeHeaderBlock block streamId).2 = .ok none ∨
              (s.decoder.decodeHeaderBlock block streamId).2 = .ok (some headers)) ∧
            ((s.decoder.receive (unread s.encoderStream s.encoderStreamRead)).1.decodeHeaderBlock
              block streamId).2 = .ok (some headers) := by
  intro s
  obtain ⟨flights, h⟩ : ∃ flights, Delivers config.useHuffman s flights :=
    (delivers_start config).run hops
  refine ⟨h.errors, fun streamId => ⟨_, (h.streams streamId).encoded, ?_, ?_⟩⟩
  · rw [(h.streams streamId).blocks, length_map, length_map]
  intro block blocks hblocks
  rw [(h.streams streamId).blocks] at hblocks
  obtain ⟨b, rest, hflights, rfl, rfl⟩ := map_eq_cons_iff.mp hblocks
  have hb : b ∈ flights streamId := hflights ▸ mem_cons_self
  refine ⟨b.headers, by rw [hflights]; rfl, ?_, ?_⟩
  · rcases h.decodeHeaderBlock_cases hflights with ⟨-, hdecode | ⟨-, hdecode⟩⟩ | ⟨-, hdecode⟩
    · exact .inl (congrArg snd hdecode)
    · exact .inl (congrArg snd hdecode)
    · exact .inr (congrArg snd hdecode)
  · obtain ⟨hpassive, hmax, hfifo⟩ := h.follows.receiveAll h.agree.encoderStream
      fun entry hentry => (h.waits entry hentry).1
    generalize (s.decoder.receive (unread s.encoderStream s.encoderStreamRead)).1 = d at *
    have hbase : d.table.base = s.encoder.table.base := congrArg Fifo.inserted hfifo
    have hacked := h.inv.tracked.acked_le
    have hready := (h.decodes hb hpassive.wf (hbase.symm ▸ hacked) hbase.le fun index p hget _ =>
      hfifo.symm ▸ hget).2
    -- The encoder does not refer to inserts that it has not made.
    have hreq : b.req ≤ d.table.base := by
      have hwindow := h.req_window hb
      omega
    obtain ⟨decoder, hdecode, -⟩ := hready hreq
    rw [← hmax] at hdecode
    unfold Decoder.decodeHeaderBlock
    rw [hdecode]
    dsimp only
    split_ifs <;> rfl

/-- A header block refers to an insert that has not arrived. -/
def insertOps : List Op :=
  [.addEncoderStream ⟨2⟩, .encoderSpace 100, .encode ⟨0⟩ [⟨"a", [98]⟩]]

theorem decoded_eq_encoded_insert :
    let s := (start ⟨{}, {}, false, ⟨2⟩, ⟨3⟩⟩).run insertOps
    s.errors = [] ∧
      (s.decoder.decodeHeaderBlock [2, 128, 16] ⟨0⟩).2 = .ok none ∧
      ((s.decoder.receive (unread s.encoderStream s.encoderStreamRead)).1.decodeHeaderBlock
        [2, 128, 16] ⟨0⟩).2 = .ok (some [⟨"a", [98]⟩]) := by
  have hops : ∀ op ∈ insertOps, op.Admissible false := by
    intro op hop
    simp only [insertOps, mem_cons, not_mem_nil, or_false] at hop
    rcases hop with rfl | rfl | rfl
    · exact trivial
    · exact trivial
    · refine ⟨by decide, by decide +kernel, ?_⟩
      intro header hheader
      rw [mem_singleton.mp hheader]
      exact ⟨by decide +kernel, by decide +kernel⟩
  have h := decoded_eq_encoded ⟨{}, {}, false, ⟨2⟩, ⟨3⟩⟩ insertOps hops
  have hblocks : ((start ⟨{}, {}, false, ⟨2⟩, ⟨3⟩⟩).run insertOps).blocks ⟨0⟩ = [[2, 128, 16]] := by
    decide +kernel
  have hencoded : ((start ⟨{}, {}, false, ⟨2⟩, ⟨3⟩⟩).run insertOps).encoded ⟨0⟩ =
      [[⟨"a", [98]⟩]] := by decide +kernel
  have hdecoded : ((start ⟨{}, {}, false, ⟨2⟩, ⟨3⟩⟩).run insertOps).decoded ⟨0⟩ = [] := by
    decide +kernel
  have hwaits : (((start ⟨{}, {}, false, ⟨2⟩, ⟨3⟩⟩).run insertOps).decoder.decodeHeaderBlock
      [2, 128, 16] ⟨0⟩).2 = .ok none := by decide +kernel
  generalize (start ⟨{}, {}, false, ⟨2⟩, ⟨3⟩⟩).run insertOps = s
    at h hblocks hencoded hdecoded hwaits ⊢
  obtain ⟨herrors, hstreams⟩ := h
  obtain ⟨pending, hpending, -, hnext⟩ := hstreams ⟨0⟩
  rw [hencoded, hdecoded, nil_append] at hpending
  obtain ⟨headers, hhead, -, hlater⟩ := hnext _ _ hblocks
  rw [← hpending] at hhead
  obtain rfl := Option.some.inj hhead
  exact ⟨herrors, hwaits, hlater⟩

end Session

end Neqo.Qpack
