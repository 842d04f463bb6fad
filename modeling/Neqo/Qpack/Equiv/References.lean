import Neqo.Qpack.Equiv.Encoding
import Neqo.Qpack.Equiv.Instructions

/-!
# The references of the encoder

The encoder counts how many header blocks refer to each entry of its table. The counts go up while
a block is encoded and down when the decoder acknowledges the oldest block of a stream or cancels
all of them. They are exact, whatever the decoder sends (`references_exact`), so an entry is in the
table as long as a block refers to it. So is the count of the streams whose blocks refer to inserts
that are not acknowledged, which never exceeds the limit of the peer (`blockedStreams_exact`).
-/

namespace Neqo.Qpack

open DecoderInstructionReader IndexMap Qpack.Encoder Relation

namespace Encoder

/-- The number of header blocks that refer to an entry. -/
def refCount (blocks : IndexMap StreamId (List (List ℕ))) (index : ℕ) : ℕ :=
  blocks.sum fun hbList => hbList.countP fun refList => refList.contains index

/-! ### The header blocks of a stream -/

lemma count_eq_contains {refList : List ℕ} (h : refList.Nodup) (index : ℕ) :
    refList.count index = if refList.contains index then 1 else 0 := by
  by_cases hmem : index ∈ refList
  · rw [List.count_eq_one_of_mem h hmem, if_pos (List.contains_iff_mem.mpr hmem)]
  · rw [List.count_eq_zero_of_not_mem hmem, if_neg (mt List.contains_iff_mem.mp hmem)]

lemma count_flatten {hbList : List (List ℕ)} (h : ∀ refList ∈ hbList, refList.Nodup) (index : ℕ) :
    hbList.flatten.count index = hbList.countP fun refList => refList.contains index := by
  induction hbList with
  | nil => rfl
  | cons refList hbList ih =>
    rw [List.flatten_cons, List.count_append, List.countP_cons, add_comm,
      count_eq_contains (h refList List.mem_cons_self),
      ih fun refList' hmem => h refList' (List.mem_cons_of_mem _ hmem)]

lemma isBlocker_cons (acked : ℕ) (refList : List ℕ) (hbList : List (List ℕ)) :
    isBlocker acked (refList :: hbList) =
      ((refList.any fun index => index ≥ acked) || isBlocker acked hbList) := by
  unfold isBlocker
  rw [List.flatten_cons, List.any_append]

lemma isBlocker_of_subset {acked acked' : ℕ} (hacked : acked ≤ acked')
    {hbList hbList' : List (List ℕ)}
    (hsub : hbList' ⊆ hbList) (h : isBlocker acked' hbList' = true) :
    isBlocker acked hbList = true := by
  unfold isBlocker at h ⊢
  rw [List.any_eq_true] at h ⊢
  obtain ⟨index, hindex, hge⟩ := h
  obtain ⟨refList, hrefList, hmem⟩ := List.mem_flatten.mp hindex
  refine ⟨index, List.mem_flatten.mpr ⟨refList, hsub hrefList, hmem⟩, ?_⟩
  exact decide_eq_true (hacked.trans (of_decide_eq_true hge))

lemma blocked_add (was now : Bool) :
    ((if (!was && now) = true then 1 else 0) + if was = true then 1 else 0) =
      if (now || was) = true then 1 else 0 := by
  cases was <;> cases now <;> rfl

/-! ### Sums over streams -/

section Sums

variable {m : IndexMap StreamId (List (List ℕ))} {streamId : StreamId} {f : List (List ℕ) → ℕ}

lemma part_eq (hf : f [] = 0) : m.part streamId f = f ((m.get? streamId).getD []) := by
  unfold part
  rcases m.get? streamId with _ | hbList
  · exact hf.symm
  · rfl

lemma sum_track (hf : f [] = 0) (refList : List ℕ) :
    (m.insert streamId (refList :: (m.get? streamId).getD [])).sum f +
        f ((m.get? streamId).getD []) =
      m.sum f + f (refList :: (m.get? streamId).getD []) := by
  rw [← part_eq hf]
  exact m.sum_insert _ _ f

lemma sum_setHeaderBlocks {e : Encoder} (hf : f [] = 0) {hbList : List (List ℕ)}
    (hmem : e.unackedHeaderBlocks.Mem streamId hbList) (hbList' : List (List ℕ)) :
    (e.setHeaderBlocks streamId hbList').unackedHeaderBlocks.sum f + f hbList =
      e.unackedHeaderBlocks.sum f + f hbList' := by
  rw [← part_of_mem hmem f]
  cases hbList' with
  | nil =>
    rw [hf]
    exact e.unackedHeaderBlocks.sum_remove streamId f
  | cons => exact e.unackedHeaderBlocks.sum_insert _ _ f

end Sums

lemma mem_setHeaderBlocks {e : Encoder} {streamId id : StreamId} {hbList hbList' : List (List ℕ)}
    (h : (e.setHeaderBlocks streamId hbList).unackedHeaderBlocks.Mem id hbList') :
    (hbList' = hbList ∧ hbList ≠ []) ∨ e.unackedHeaderBlocks.Mem id hbList' := by
  cases hbList with
  | nil =>
    change (e.unackedHeaderBlocks.remove streamId).Mem id hbList' at h
    exact .inr (mem_retain.mp h).1
  | cons =>
    rcases mem_insert.mp h with ⟨-, rfl⟩ | ⟨-, hmem⟩
    · exact .inl ⟨rfl, nofun⟩
    · exact .inr hmem

/-! ### The invariant -/

/-- The reference counts of the table are those of the header blocks. -/
structure Counted (e : Encoder) : Prop where
  tracked : e.table.Tracked (refCount e.unackedHeaderBlocks)
  blocks : ∀ streamId hbList, e.unackedHeaderBlocks.Mem streamId hbList →
    hbList ≠ [] ∧ ∀ refList ∈ hbList, refList.Nodup
  started : e.instructionReader.Started

/-- The number of streams that may be blocked at the decoder. -/
def blockers (e : Encoder) : ℕ := e.unackedHeaderBlocks.count (isBlocker e.table.ackedInsertsCnt)

/-- The blocked streams are counted as well. -/
structure Inv (e : Encoder) : Prop extends Counted e where
  blocked : e.blockedStreamCnt = e.blockers

variable {e e' : Encoder} {streamId : StreamId}

lemma inv_new (settings : Settings) (useHuffman : Bool) : (new settings useHuffman).Inv where
  tracked := ⟨⟨nofun, rfl, le_refl _⟩, le_refl _, nofun,
    fun _ hstays => hstays.elim nofun fun hacked => absurd hacked.2 (Nat.not_lt_zero _)⟩
  blocks := fun _ _ hmem => absurd hmem (not_mem_empty _ _)
  started := nofun
  blocked := rfl

lemma blockers_le {acked : ℕ} (hacked : e.table.ackedInsertsCnt ≤ acked) :
    e.unackedHeaderBlocks.count (isBlocker acked) ≤ e.blockers := by
  unfold blockers
  apply sum_le_sum
  intro id hbList _
  split_ifs with hnew hold hold
  · omega
  · exact absurd (isBlocker_of_subset hacked (List.Subset.refl _) hnew) hold
  · omega
  · omega

lemma Inv.of_extends (h : e.Inv) (hx : e.Extends e' (refCount e.unackedHeaderBlocks)) : e'.Inv where
  tracked := hx.blocks.symm ▸ hx.tracked
  blocks := hx.blocks.symm ▸ h.blocks
  started := hx.reader.symm ▸ h.started
  blocked := by
    unfold blockers
    rw [hx.blocks, hx.acked, hx.blockedCnt]
    exact h.blocked

/-! ### Header blocks are encoded -/

lemma isStreamBlocker_eq (e : Encoder) (streamId : StreamId) :
    e.isStreamBlocker streamId =
      isBlocker e.table.ackedInsertsCnt ((e.unackedHeaderBlocks.get? streamId).getD []) := by
  unfold isStreamBlocker
  rcases e.unackedHeaderBlocks.get? streamId with _ | hbList <;> rfl

lemma eq_of_countBlocked {was : Bool} {refEntries : List ℕ}
    (h : e.countBlocked was refEntries = .ok e') :
    e' = { e with
      blockedStreamCnt := e.blockedStreamCnt +
        if (!was && refEntries.any fun index => index ≥ e.table.ackedInsertsCnt) = true then 1
        else 0 } := by
  unfold countBlocked at h
  split_ifs at h ⊢
  · exact (Except.ok.inj h).symm
  · exact (Except.ok.inj h).symm

lemma trackHeaderBlock_eq (e : Encoder) (streamId : StreamId) (refEntries : List ℕ) :
    (e.trackHeaderBlock streamId refEntries) =
      { e with
        unackedHeaderBlocks := (e.trackHeaderBlock streamId refEntries).unackedHeaderBlocks } := by
  unfold trackHeaderBlock
  split_ifs <;> rfl

lemma Inv.trackHeaderBlock {s : Encoding} {canBlock : Bool} (h : e.Inv)
    (ht : Encoding.Tracks e (refCount e.unackedHeaderBlocks) canBlock s)
    (hcount : s.encoder.countBlocked (e.isStreamBlocker streamId) s.refEntries = .ok e') :
    (e'.trackHeaderBlock streamId s.refEntries).Inv := by
  have hsame := ht.keeps.toSameBlocks
  obtain rfl := eq_of_countBlocked hcount
  unfold trackHeaderBlock
  by_cases hempty : s.refEntries.isEmpty = true
  · rw [if_pos hempty]
    have hnil := List.isEmpty_iff.mp hempty
    have hkeeps := ht.keeps
    simp only [hnil, List.count_nil, add_zero] at hkeeps
    simpa [hnil] using h.of_extends hkeeps
  rw [if_neg hempty]
  rw [hsame.blocks]
  refine ⟨⟨?_, ?_, hsame.reader.symm ▸ h.started⟩, ?_⟩
  · show s.encoder.table.Tracked (refCount (e.unackedHeaderBlocks.insert _ _))
    convert ht.keeps.tracked using 1
    funext index
    have hsum := @sum_track e.unackedHeaderBlocks streamId
      (fun hbList => hbList.countP fun refList => refList.contains index) rfl s.refEntries
    rw [List.countP_cons, ← count_eq_contains ht.nodup] at hsum
    unfold refCount
    omega
  · intro id hbList hmem
    rcases mem_insert.mp hmem with ⟨-, rfl⟩ | ⟨-, hmem⟩
    · refine ⟨nofun, ?_⟩
      intro refList hrefList
      rcases List.mem_cons.mp hrefList with rfl | hrefList
      · exact ht.nodup
      · rcases hget : e.unackedHeaderBlocks.get? streamId with _ | hbList
        · rw [hget] at hrefList
          exact absurd hrefList List.not_mem_nil
        · rw [hget] at hrefList
          exact (h.blocks _ _ (get?_eq_some_iff.mp hget)).2 refList hrefList
    · exact h.blocks id hbList hmem
  · have hblocked := h.blocked
    have hsum := @sum_track e.unackedHeaderBlocks streamId
      (fun hbList => if isBlocker e.table.ackedInsertsCnt hbList then 1 else 0) rfl s.refEntries
    rw [isBlocker_cons, ← isStreamBlocker_eq, ← blocked_add] at hsum
    unfold blockers at hblocked ⊢
    dsimp only
    rw [hsame.acked, hsame.blockedCnt]
    unfold count at hblocked ⊢
    omega

/-- Before the first header, at most the type of the stream and a capacity are sent. -/
lemma Inv.startEncoding_sent (h : e.Inv) (conn : OutStream) :
    ReflTransGen (Sent fun _ _ => False) (e, conn)
      ((e.startEncoding conn).encoder, (e.startEncoding conn).conn) := by
  obtain ⟨e₁, conn₁, res, hupdates, hsent⟩ := sendEncoderUpdates_sent h.tracked.wf conn
  unfold startEncoding
  rw [hupdates]
  exact hsent

lemma Inv.startEncoding_tracks (h : e.Inv) (conn : OutStream) (canBlock : Bool) :
    Encoding.Tracks (e.startEncoding conn).encoder (refCount e.unackedHeaderBlocks) canBlock
      (e.startEncoding conn) := by
  have htracked := (extends_of_sent (h.startEncoding_sent conn) h.tracked).tracked
  exact ⟨⟨.refl _, htracked, .refl _⟩, List.nodup_nil, nofun⟩

lemma Inv.encodeHeaderBlock_eq (h : e.Inv) (conn : OutStream) (headers : List Header)
    (streamId : StreamId) :
    ∃ s : Encoding,
      ReflTransGen (Sent fun _ _ => False) (e, conn)
        ((e.startEncoding conn).encoder, (e.startEncoding conn).conn) ∧
      Encoding.EncodesAll ((e.startEncoding conn).encoder.canBlock streamId) headers
        (e.startEncoding conn) s ∧
      Encoding.Tracks (e.startEncoding conn).encoder (refCount e.unackedHeaderBlocks)
        ((e.startEncoding conn).encoder.canBlock streamId) s ∧
      e.encodeHeaderBlock conn headers streamId = do
        let encodedH ← s.encodedH.encodeHeaderBlockPrefix
        let e' ← s.encoder.countBlocked
          ((e.startEncoding conn).encoder.isStreamBlocker streamId) s.refEntries
        return (e'.trackHeaderBlock streamId s.refEntries, s.conn, encodedH) := by
  have hstart := h.startEncoding_sent conn
  have htracks := h.startEncoding_tracks conn ((e.startEncoding conn).encoder.canBlock streamId)
  obtain ⟨s, hheaders, hall⟩ := Encoding.encodeHeaders_encodes
    ((e.startEncoding conn).encoder.canTrack streamId) headers htracks
  refine ⟨s, hstart, hall, hall.tracks htracks, ?_⟩
  unfold encodeHeaderBlock Encoding.encodeHeaders
  dsimp only
  rw [hheaders]
  rfl

/-- A stream only becomes a blocker if there is space for another one. -/
lemma Encoding.Tracks.lt_of_newBlocker {s : Encoding} {refs : ℕ → ℕ}
    (ht : Encoding.Tracks e refs (e.canBlock streamId) s)
    (hnew : (!e.isStreamBlocker streamId &&
      s.refEntries.any fun index => index ≥ e.table.ackedInsertsCnt) = true) :
    e.blockedStreamCnt < e.maxBlockedStreams := by
  obtain ⟨hwas, hany⟩ := Bool.and_eq_true_iff.mp hnew
  obtain ⟨index, hindex, hge⟩ := List.any_eq_true.mp hany
  cases hcan : e.canBlock streamId with
  | false =>
    have hlt := ht.acked hcan index hindex
    have hle := of_decide_eq_true hge
    omega
  | true =>
    unfold canBlock at hcan
    rw [Bool.not_eq_true'] at hwas
    rw [hwas, Bool.false_or, Bool.and_eq_true] at hcan
    exact of_decide_eq_true hcan.2

lemma Inv.encodeHeaderBlock {conn conn' : OutStream} {headers : List Header}
    {encodedH : HeaderEncoder} (h : e.Inv)
    (hencode : e.encodeHeaderBlock conn headers streamId = .ok (e', conn', encodedH)) :
    e'.Inv ∧ e.table.Retains e'.table ∧ e'.maxBlockedStreams = e.maxBlockedStreams ∧
      (e.blockedStreamCnt ≤ e.maxBlockedStreams → e'.blockedStreamCnt ≤ e.maxBlockedStreams) := by
  obtain ⟨s, hsent, -, htracks, heq⟩ := h.encodeHeaderBlock_eq conn headers streamId
  have hextends := extends_of_sent hsent h.tracked
  have hstart := h.of_extends hextends
  generalize e.startEncoding conn = start at hsent htracks heq hextends hstart
  rw [← hextends.blocks] at htracks
  have hsame := htracks.keeps.toSameBlocks
  rw [heq] at hencode
  obtain ⟨encodedH', -, hencode⟩ := bind_eq_ok.mp hencode
  obtain ⟨e₂, hcount, hencode⟩ := bind_eq_ok.mp hencode
  obtain rfl : e₂.trackHeaderBlock streamId s.refEntries = e' :=
    congrArg Prod.fst (Except.ok.inj hencode)
  have hinv := hstart.trackHeaderBlock htracks hcount
  have heq₂ := eq_of_countBlocked hcount
  rw [trackHeaderBlock_eq] at hinv ⊢
  subst heq₂
  refine ⟨hinv, hextends.retains.trans htracks.keeps.retains, ?_, ?_⟩
  · exact hsame.maxBlocked.trans hextends.maxBlocked
  · intro hle
    show s.encoder.blockedStreamCnt + (if _ then 1 else 0) ≤ e.maxBlockedStreams
    rw [hsame.blockedCnt, hextends.blockedCnt, hsame.acked, ← hextends.maxBlocked]
    split_ifs with hnew
    · have hlt := htracks.lt_of_newBlocker hnew
      rwa [hextends.blockedCnt] at hlt
    · rw [hextends.maxBlocked]
      exact hle

/-! ### Instructions of the decoder -/

/-- Instructions of the decoder do not evict entries and do not block streams. -/
structure Shrinks (e e' : Encoder) : Prop where
  keeps : e.table.Keeps e'.table
  maxBlocked : e'.maxBlockedStreams = e.maxBlockedStreams
  blockedCnt : e'.blockedStreamCnt ≤ e.blockedStreamCnt

lemma Shrinks.refl (e : Encoder) : e.Shrinks e := ⟨.refl _, rfl, le_refl _⟩

lemma Shrinks.trans {e'' : Encoder} (h : e.Shrinks e') (h' : e'.Shrinks e'') : e.Shrinks e'' :=
  ⟨h.keeps.trans h'.keeps, h'.maxBlocked.trans h.maxBlocked, h'.blockedCnt.trans h.blockedCnt⟩

/-- The counts stay exact unless there is an error, and no assertion fails. -/
def Answered (e : Encoder) (r : Encoder × Res Unit) : Prop :=
  (r.2 = .ok () → r.1.Inv ∧ e.Shrinks r.1) ∧ r.2 ≠ .error .assertion

lemma Counted.insertCountInstruction (h : e.Counted) (hle : e.blockers ≤ e.blockedStreamCnt)
    (increment : ℕ) : e.Answered (e.insertCountInstruction increment) := by
  have hincrement := @HeaderTable.Tracked.incrementAcked e.table _ h.tracked increment
  unfold Encoder.insertCountInstruction
  generalize e.table.incrementAcked increment = result at hincrement
  obtain ⟨table, _ | _⟩ := result
  · exact ⟨nofun, nofun⟩
  · obtain ⟨htracked, htable⟩ := hincrement rfl
    dsimp only at htracked htable
    have hcount := e.unackedHeaderBlocks.count_eq_countP (isBlocker table.ackedInsertsCnt)
    refine ⟨fun _ => ⟨⟨⟨htracked, h.blocks, h.started⟩, hcount.symm⟩, ?_, rfl, ?_⟩, nofun⟩
    · show e.table.Keeps table
      rw [htable]
      exact .refl _
    · refine (hcount.symm.le.trans (blockers_le ?_)).trans hle
      rw [htable]
      exact Nat.le_add_right _ _

lemma ackedBy_eq (acked : ℕ) (refs : List ℕ) :
    ackedBy acked refs = max acked (requiredInserts refs) := by
  induction refs generalizing acked with
  | nil => exact (Nat.max_zero _).symm
  | cons index refs ih =>
    show ackedBy (if index ≥ acked then index + 1 else acked) refs = _
    rw [ih, requiredInserts_cons, ← Nat.max_assoc]
    congr 1
    split_ifs with hle
    · omega
    · omega

lemma Counted.setHeaderBlocks (h : e.Counted) {rest gone : List (List ℕ)}
    (hmem : e.unackedHeaderBlocks.Mem streamId (rest ++ gone)) :
    ∃ refs, gone.flatten.foldlM HeaderTable.removeRef e.table = .ok (e.table.setRefs refs) ∧
      (setHeaderBlocks { e with table := e.table.setRefs refs } streamId rest).Counted ∧
      (setHeaderBlocks { e with table := e.table.setRefs refs } streamId rest).blockers +
          (if isBlocker e.table.ackedInsertsCnt (rest ++ gone) then 1 else 0) =
        e.blockers + if isBlocker e.table.ackedInsertsCnt rest then 1 else 0 := by
  have hnodup := (h.blocks _ _ hmem).2
  have hgone := @count_flatten gone fun refList hrefList =>
    hnodup refList (List.mem_append_right _ hrefList)
  have hsum : ∀ index, refCount (Encoder.setHeaderBlocks e streamId rest).unackedHeaderBlocks
      index + gone.flatten.count index = refCount e.unackedHeaderBlocks index := by
    intro index
    have hsum := @sum_setHeaderBlocks streamId
      (fun hbList => hbList.countP fun refList => refList.contains index) e rfl
      (rest ++ gone) hmem rest
    rw [List.countP_append] at hsum
    rw [hgone index]
    unfold refCount
    omega
  have hcount : ∀ index, gone.flatten.count index ≤ refCount e.unackedHeaderBlocks index :=
    fun index => Nat.le.intro ((add_comm _ _).trans (hsum index))
  obtain ⟨refs, hremove, htracked⟩ := h.tracked.removeRefs hcount
  refine ⟨refs, hremove, ⟨?_, ?_, h.started⟩, ?_⟩
  · show HeaderTable.Tracked _ (refCount
      (Encoder.setHeaderBlocks e streamId rest).unackedHeaderBlocks)
    have hrefs : refCount (Encoder.setHeaderBlocks e streamId rest).unackedHeaderBlocks =
        fun index => refCount e.unackedHeaderBlocks index - gone.flatten.count index := by
      funext index
      exact Nat.eq_sub_of_add_eq (hsum index)
    rw [hrefs]
    exact htracked
  · intro id hbList hmem'
    rcases mem_setHeaderBlocks hmem' with ⟨rfl, hne⟩ | hmem'
    · exact ⟨hne, fun refList hrefList => hnodup refList (List.mem_append_left _ hrefList)⟩
    · exact h.blocks id hbList hmem'
  · exact @sum_setHeaderBlocks streamId
      (fun hbList => if isBlocker e.table.ackedInsertsCnt hbList then 1 else 0) e rfl _ hmem rest

lemma Inv.headerAck (h : e.Inv) (streamId : StreamId) : e.Answered (e.headerAck streamId) := by
  unfold Encoder.headerAck
  rcases hget : e.unackedHeaderBlocks.get? streamId with _ | hbList
  · exact ⟨nofun, nofun⟩
  have hmem := get?_eq_some_iff.mp hget
  obtain ⟨rest, refList, rfl⟩ : ∃ rest refList, hbList = rest ++ [refList] :=
    ⟨_, _, (List.dropLast_append_getLast (h.blocks _ _ hmem).1).symm⟩
  obtain ⟨refs, hremove, hcounted, hblockers⟩ := h.toCounted.setHeaderBlocks hmem
  have hkeeps := HeaderTable.keeps_setRefs e.table refs
  rw [List.flatten_singleton] at hremove
  dsimp only
  rw [List.getLast?_concat, List.dropLast_concat]
  dsimp only
  rw [hremove]
  dsimp only
  split_ifs with hnew
  · have hmono := @isBlocker_of_subset e.table.ackedInsertsCnt _ (le_refl _)
      (rest ++ [refList]) rest (List.subset_append_left _ _)
    have hle : (setHeaderBlocks { e with table := e.table.setRefs refs } streamId rest).blockers ≤
        e.blockedStreamCnt := by
      refine le_trans ?_ h.blocked.symm.le
      split_ifs at hblockers with hwas his his
      · omega
      · omega
      · exact absurd (hmono his) hwas
      · omega
    obtain ⟨hok, herror⟩ := hcounted.insertCountInstruction hle _
    refine ⟨fun hres => ?_, herror⟩
    obtain ⟨hinv, hshrinks⟩ := hok hres
    exact ⟨hinv, hkeeps.trans hshrinks.keeps, hshrinks.maxBlocked, hshrinks.blockedCnt⟩
  · -- All references of the block are to acked inserts.
    have hnone : (refList.any fun index => decide (index ≥ e.table.ackedInsertsCnt)) = false := by
      rw [List.any_eq_false]
      intro index hindex hge
      have hlt := lt_requiredInserts hindex
      have hle := of_decide_eq_true hge
      rw [ackedBy_eq] at hnew
      exact hnew ((hle.trans_lt hlt).trans_le (le_max_right _ _))
    rw [isBlocker, List.flatten_append, List.any_append, List.flatten_singleton, hnone,
      Bool.or_false] at hblockers
    refine ⟨fun _ => ⟨⟨hcounted, ?_⟩, hkeeps, rfl, le_refl _⟩, nofun⟩
    exact h.blocked.trans (add_right_cancel hblockers).symm

lemma Inv.streamCancellation (h : e.Inv) (streamId : StreamId) :
    e.Answered (e.streamCancellation streamId) := by
  unfold Encoder.streamCancellation
  rcases hget : e.unackedHeaderBlocks.get? streamId with _ | hbList
  · exact ⟨fun _ => ⟨h, .refl e⟩, nofun⟩
  obtain ⟨refs, hremove, hcounted, hblockers⟩ :=
    @Counted.setHeaderBlocks e streamId h.toCounted [] hbList (get?_eq_some_iff.mp hget)
  have hkeeps := HeaderTable.keeps_setRefs e.table refs
  dsimp only
  rw [hremove]
  dsimp only
  rw [List.nil_append] at hblockers
  have hblocked := h.blocked
  have hnil : (if isBlocker e.table.ackedInsertsCnt [] = true then 1 else 0) = 0 := rfl
  cases hwas : isBlocker e.table.ackedInsertsCnt hbList with
  | false =>
    rw [hwas, if_neg (by exact nofun)] at hblockers
    refine ⟨fun _ => ⟨⟨hcounted, ?_⟩, hkeeps, rfl, le_refl _⟩, nofun⟩
    exact hblocked.trans hblockers.symm
  | true =>
    rw [hwas, if_pos rfl] at hblockers
    have hpos : e.blockedStreamCnt ≠ 0 := by omega
    rw [if_neg hpos]
    refine ⟨fun _ => ⟨⟨{ hcounted with }, ?_⟩, hkeeps, rfl, Nat.sub_le _ _⟩, nofun⟩
    refine Nat.sub_eq_of_eq_add (hblocked.trans ?_)
    exact hblockers.symm

/-- **An instruction of the decoder keeps the counts exact, and no assertion fails.** -/
theorem Inv.callInstruction (h : e.Inv) (instruction : DecoderInstruction) :
    e.Answered (e.callInstruction instruction) := by
  cases instruction with
  | noInstruction => exact ⟨fun _ => ⟨h, .refl e⟩, nofun⟩
  | headerAck streamId => exact h.headerAck streamId
  | streamCancellation streamId => exact h.streamCancellation streamId
  | insertCountIncrement increment =>
    unfold Encoder.callInstruction
    dsimp only
    by_cases hzero : increment = 0
    · rw [if_pos hzero]
      exact ⟨nofun, nofun⟩
    rw [if_neg hzero]
    exact h.insertCountInstruction h.blocked.symm.le increment

/-- **So do all the instructions in any bytes.** -/
theorem Inv.receive (h : e.Inv) (bytes : Bytes) : e.Answered (e.receive bytes) := by
  have hmap : ∀ {err}, mapError err = .assertion → err = .assertion := by
    intro err herr
    unfold mapError at herr
    split_ifs at herr
    exact herr
  unfold Encoder.receive readInstructions
  by_cases hstream : e.recvStreamId.isNone = true
  · rw [if_pos hstream]
    exact ⟨nofun, nofun⟩
  rw [if_neg hstream]
  have hloop := @Reader.loop_invariant DecoderInstructionReader Encoder UInt8 Error
    DecoderInstruction .needMoreData _ DecoderInstructionReader.readInstructions
    Encoder.callInstruction DecoderInstructionReader.Started (fun e' => e'.Inv ∧ e.Shrinks e')
    (· ≠ .assertion) ?_ ?_ ?_ ?_ (bytes.length + 2) e.instructionReader e bytes h.started
    ⟨h, .refl e⟩
  · generalize Reader.loop .needMoreData DecoderInstructionReader.readInstructions
      Encoder.callInstruction (bytes.length + 2) e.instructionReader e bytes = result at hloop ⊢
    obtain ⟨reader, e', err | _⟩ := result
    · refine ⟨nofun, ?_⟩
      intro herr
      exact hloop.1 err rfl (hmap (Except.error.inj herr))
    · obtain ⟨hstarted, hinv, hshrinks⟩ := hloop.2 rfl
      refine ⟨fun _ => ⟨⟨⟨hinv.tracked, hinv.blocks, hstarted⟩, hinv.blocked⟩, ?_⟩, nofun⟩
      exact { hshrinks with }
  · intro r xs hr
    exact (readInstructions_spec hr xs).1
  · intro r xs err hr herr _ hassert
    rw [hassert] at herr
    exact (readInstructions_spec hr xs).2 herr
  · intro e' instruction he' hok
    obtain ⟨hinv, hshrinks⟩ := (he'.1.callInstruction instruction).1 hok
    exact ⟨hinv, he'.2.trans hshrinks⟩
  · intro e' instruction err he' herr hassert
    rw [hassert] at herr
    exact (he'.1.callInstruction instruction).2 herr

end Encoder

/-! ### Runs -/

namespace EncoderRun

variable {r : EncoderRun} {op : EncoderOp}

/-- The limit on blocked streams is set. -/
def setsMaxBlockedStreams : EncoderOp → Bool
  | .setMaxBlockedStreams _ => true
  | _ => false

/-- What a step keeps. -/
structure Steps (e e' : Encoder) (op : EncoderOp) : Prop where
  inv : e'.Inv
  retains : ∀ entry ∈ e.table.dynamic, 0 < entry.refs →
    ∃ entry' ∈ e'.table.dynamic,
      entry'.base = entry.base ∧ entry'.name = entry.name ∧ entry'.value = entry.value
  maxBlocked : setsMaxBlockedStreams op = false →
    e'.maxBlockedStreams = e.maxBlockedStreams ∧
      (e.blockedStreamCnt ≤ e.maxBlockedStreams → e'.blockedStreamCnt ≤ e.maxBlockedStreams)
  blockedCnt : setsMaxBlockedStreams op = true → e'.blockedStreamCnt = e.blockedStreamCnt

lemma steps_of_same {e e' : Encoder} (h : e'.Inv) (htable : e'.table = e.table)
    (hblocked : e'.blockedStreamCnt = e.blockedStreamCnt)
    (hmax : setsMaxBlockedStreams op = false → e'.maxBlockedStreams = e.maxBlockedStreams) :
    Steps e e' op :=
  ⟨h, fun entry hentry _ => ⟨entry, htable ▸ hentry, rfl, rfl, rfl⟩,
    fun hop => ⟨hmax hop, fun hle => hblocked.trans_le hle⟩, fun _ => hblocked⟩

lemma retains_of {t t' : HeaderTable} (h : t.Retains t') :
    ∀ entry ∈ t.dynamic, 0 < entry.refs → ∃ entry' ∈ t'.dynamic,
      entry'.base = entry.base ∧ entry'.name = entry.name ∧ entry'.value = entry.value := by
  intro entry hentry hpos
  obtain ⟨entry', hentry', hbase, hname, hvalue, -⟩ := h entry hentry hpos
  exact ⟨entry', hentry', hbase, hname, hvalue⟩

lemma steps_apply (h : r.encoder.Inv) (hstopped : (r.apply op).stopped = none) :
    Steps r.encoder (r.apply op).encoder op := by
  cases op with
  | addSendStream | addRecvStream | setMaxCapacity =>
    simp only [apply, addSendStream, addRecvStream, setMaxCapacity]
    split_ifs <;> exact steps_of_same ⟨{ h with }, h.blocked⟩ rfl rfl fun _ => rfl
  | setMaxBlockedStreams =>
    unfold apply setMaxBlockedStreams
    dsimp only
    split_ifs <;> exact steps_of_same ⟨{ h with }, h.blocked⟩ rfl rfl nofun
  | space => exact steps_of_same ⟨{ h with }, h.blocked⟩ rfl rfl fun _ => rfl
  | sendEncoderUpdates =>
    obtain ⟨e', conn', res, hupdates, hsent⟩ :=
      sendEncoderUpdates_sent h.tracked.wf r.conn
    have hextends := extends_of_sent hsent h.tracked
    unfold apply
    rw [hupdates]
    exact ⟨h.of_extends hextends, retains_of hextends.retains,
      fun _ => ⟨hextends.maxBlocked, hextends.blockedCnt.trans_le⟩, nofun⟩
  | encodeHeaderBlock headers streamId =>
    unfold apply at hstopped ⊢
    dsimp only at hstopped ⊢
    rcases hencode : r.encoder.encodeHeaderBlock r.conn headers streamId with
      err | ⟨e', conn', encodedH⟩
    · rw [hencode] at hstopped
      exact nomatch hstopped
    obtain ⟨hinv, hretains, hmax, hle⟩ := h.encodeHeaderBlock hencode
    exact ⟨hinv, retains_of hretains, fun _ => ⟨hmax, hle⟩, nofun⟩
  | receive bytes =>
    have hreceive := (h.receive bytes).1
    unfold apply at hstopped ⊢
    dsimp only at hstopped ⊢
    generalize r.encoder.receive bytes = result at hreceive hstopped
    obtain ⟨e', err | _⟩ := result
    · exact nomatch hstopped
    obtain ⟨hinv, hshrinks⟩ := hreceive rfl
    exact ⟨hinv, fun entry hentry _ => hshrinks.keeps entry hentry,
      fun _ => ⟨hshrinks.maxBlocked, hshrinks.blockedCnt.trans⟩, nofun⟩

lemma steps_step (h : r.encoder.Inv) (hstopped : (r.step op).stopped = none) :
    Steps r.encoder (r.step op).encoder op ∧ r.stopped = none := by
  unfold step at hstopped ⊢
  by_cases hsome : r.stopped.isSome = true
  · rw [if_pos hsome] at hstopped
    rw [hstopped] at hsome
    exact nomatch hsome
  · rw [if_neg hsome] at hstopped ⊢
    exact ⟨steps_apply h hstopped, Option.not_isSome_iff_eq_none.mp hsome⟩

lemma stopped_of_run {ops : List EncoderOp} (h : (r.run ops).stopped = none) :
    r.stopped = none := by
  induction ops generalizing r with
  | nil => exact h
  | cons op ops ih =>
    have hstep := ih h
    unfold step at hstep
    split_ifs at hstep with hsome
    · exact hstep
    · exact Option.not_isSome_iff_eq_none.mp hsome

lemma inv_run {ops : List EncoderOp} (h : r.encoder.Inv) (hstopped : (r.run ops).stopped = none) :
    (r.run ops).encoder.Inv := by
  induction ops generalizing r with
  | nil => exact h
  | cons op ops ih => exact ih (steps_step h (stopped_of_run hstopped)).1.inv hstopped

/-- **The references of the encoder are exact.**  Whatever the peer sends, until the first error the
reference count of an entry is the number of header blocks that refer to it, the entries that they
refer to are in the table, an entry that has references is not evicted by what comes next, and the
assertions on the removal of references do not fail. -/
theorem references_exact (settings : Settings) (useHuffman : Bool) (ops : List EncoderOp)
    (h : ((start settings useHuffman).run ops).stopped = none) :
    let r := (start settings useHuffman).run ops
    (∀ entry ∈ r.encoder.table.dynamic,
      entry.refs = refCount r.encoder.unackedHeaderBlocks entry.base) ∧
    (∀ streamId hbList, r.encoder.unackedHeaderBlocks.Mem streamId hbList →
      ∀ refList ∈ hbList, ∀ index ∈ refList,
        ∃ entry ∈ r.encoder.table.dynamic, entry.base = index) ∧
    (∀ op, (r.step op).stopped = none → ∀ entry ∈ r.encoder.table.dynamic, 0 < entry.refs →
      ∃ entry' ∈ (r.step op).encoder.table.dynamic,
        entry'.base = entry.base ∧ entry'.name = entry.name ∧ entry'.value = entry.value) ∧
    ∀ bytes, (r.encoder.receive bytes).2 ≠ .error .assertion := by
  have hinv := inv_run (inv_new settings useHuffman) h
  refine ⟨hinv.tracked.hasRefs, ?_, ?_, ?_⟩
  · intro streamId hbList hmem refList hrefList index hindex
    refine hinv.tracked.live index (.inl ?_)
    have hone : 0 < hbList.countP fun refList => refList.contains index :=
      List.countP_pos_iff.mpr ⟨refList, hrefList, List.contains_iff_mem.mpr hindex⟩
    exact hone.trans_le (le_sum_of_mem hmem fun hbList =>
      hbList.countP fun refList => refList.contains index)
  · intro op hstopped
    exact (steps_step hinv hstopped).1.retains
  · intro bytes
    exact (hinv.receive bytes).2

/-- A header is inserted on a stream that may block. -/
def insertOps : List EncoderOp :=
  [.addSendStream ⟨2⟩, .addRecvStream ⟨3⟩, .setMaxCapacity 100, .setMaxBlockedStreams 1, .space 100,
    .encodeHeaderBlock [⟨"a", [98]⟩] ⟨0⟩]

theorem references_exact_insert :
    ((start {} false).run insertOps).encoder.table.dynamic = [⟨0, [97], [98], 1⟩] ∧
      (((start {} false).run insertOps).encoder.receive [0x80]).2 ≠ .error .assertion :=
  ⟨by decide +kernel, (references_exact {} false insertOps (by decide +kernel)).2.2.2 [0x80]⟩

/-- What the count of blocked streams has to be after a limit is set at most once. -/
lemma blocked_run {ops : List EncoderOp} (h : r.encoder.Inv)
    (hle : r.encoder.blockedStreamCnt ≤ r.encoder.maxBlockedStreams)
    (hset : 0 < ops.countP setsMaxBlockedStreams → r.encoder.maxBlockedStreams = 0)
    (honce : ops.countP setsMaxBlockedStreams ≤ 1) (hstopped : (r.run ops).stopped = none) :
    (r.run ops).encoder.blockedStreamCnt ≤ (r.run ops).encoder.maxBlockedStreams := by
  induction ops generalizing r with
  | nil => exact hle
  | cons op ops ih =>
    have hsteps := (steps_step h (stopped_of_run hstopped)).1
    rw [List.countP_cons] at hset honce
    cases hop : setsMaxBlockedStreams op with
    | false =>
      rw [hop, if_neg (by exact nofun)] at hset honce
      obtain ⟨hmax, hblocked⟩ := hsteps.maxBlocked hop
      apply ih hsteps.inv _ _ honce hstopped
      · rw [hmax]
        exact hblocked hle
      · rw [hmax]
        exact hset
    | true =>
      -- No stream is blocked before the limit is set.
      rw [hop, if_pos rfl] at hset honce
      have hblocked := hsteps.blockedCnt hop
      apply ih hsteps.inv _ _ (Nat.le_of_succ_le honce) hstopped
      · omega
      · intro hpos
        omega

/-- **The limit on blocked streams is kept.**  If the limit is set at most once, then until the
first error the count of blocked streams is the number of streams with a header block that refers to
an insert which the decoder has not acknowledged, and it does not exceed the limit. -/
theorem blockedStreams_exact (settings : Settings) (useHuffman : Bool) (ops : List EncoderOp)
    (honce : ops.countP setsMaxBlockedStreams ≤ 1)
    (h : ((start settings useHuffman).run ops).stopped = none) :
    let e := ((start settings useHuffman).run ops).encoder
    (e.blockedStreamCnt = e.unackedHeaderBlocks.entries.countP fun (_, hbList) =>
      hbList.any fun refList => refList.any fun index => index ≥ e.table.ackedInsertsCnt) ∧
    e.blockedStreamCnt ≤ e.maxBlockedStreams := by
  have hnew := inv_new settings useHuffman
  have hinv := inv_run hnew h
  refine ⟨?_, blocked_run hnew (le_refl _) (fun _ => rfl) honce h⟩
  rw [hinv.blocked]
  unfold blockers
  rw [count_eq_countP]
  unfold isBlocker
  simp only [List.any_flatten]

theorem blockedStreams_exact_insert :
    ((start {} false).run insertOps).encoder.blockedStreamCnt = 1 ∧
      ((start {} false).run insertOps).encoder.blockedStreamCnt ≤
        ((start {} false).run insertOps).encoder.maxBlockedStreams :=
  ⟨by decide +kernel, (blockedStreams_exact {} false insertOps (by decide) (by decide +kernel)).2⟩

end EncoderRun

end Neqo.Qpack
