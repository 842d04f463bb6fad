import Neqo.Qpack.Equiv.HeaderBlock
import Neqo.Qpack.Equiv.References

/-!
# What is encoded is read back

While headers are encoded, the field lines so far can be read by any decoder whose table has the
entries to which they refer. These are still in the encoder's table, since they are counted as
references.
-/

namespace Neqo.Qpack

open List Prefix Relation

namespace HeaderEncoder

/-- Bytes are appended that require a number of inserts. -/
structure Appends (e e' : HeaderEncoder) (bytes : Bytes) (req : ℕ) : Prop where
  base : e'.base = e.base
  useHuffman : e'.useHuffman = e.useHuffman
  maxEntries : e'.maxEntries = e.maxEntries
  buf : e'.buf = e.buf ++ bytes
  required : e'.required = max req e.required

variable (e : HeaderEncoder) (bytes : Bytes)

lemma appends_append : e.Appends (e.append bytes) bytes 0 :=
  ⟨rfl, rfl, rfl, rfl, (Nat.zero_max _).symm⟩

lemma appends_newRef (index : ℕ) : e.Appends (e.newRef index) [] (index + 1) := by
  have hreq : (e.newRef index).required = max (index + 1) e.required := by
    unfold newRef required
    rcases hmax : e.maxDynamicIndexRef with _ | r
    · exact (Nat.max_zero _).symm
    · dsimp only
      split_ifs with hlt
      · exact (max_eq_left (Nat.succ_le_of_lt (Nat.lt_succ_of_lt hlt))).symm
      · rw [hmax]
        exact (Nat.max_eq_right (Nat.succ_le_succ (Nat.le_of_not_lt hlt))).symm
  have hrest : (e.newRef index).base = e.base ∧ (e.newRef index).useHuffman = e.useHuffman ∧
      (e.newRef index).maxEntries = e.maxEntries ∧ (e.newRef index).buf = e.buf := by
    unfold newRef
    rcases e.maxDynamicIndexRef with _ | r
    · exact ⟨rfl, rfl, rfl, rfl⟩
    · dsimp only
      split_ifs <;> exact ⟨rfl, rfl, rfl, rfl⟩
  obtain ⟨hbase, huffman, hmax, hbuf⟩ := hrest
  exact ⟨hbase, huffman, hmax, by rw [hbuf, append_nil], hreq⟩

lemma Appends.trans {e e' e'' : HeaderEncoder} {bytes bytes' : Bytes} {req req' : ℕ}
    (h : e.Appends e' bytes req) (h' : e'.Appends e'' bytes' req') :
    e.Appends e'' (bytes ++ bytes') (max req' req) where
  base := h'.base.trans h.base
  useHuffman := h'.useHuffman.trans h.useHuffman
  maxEntries := h'.maxEntries.trans h.maxEntries
  buf := by rw [h'.buf, h.buf, append_assoc]
  required := by rw [h'.required, h.required, Nat.max_assoc]

lemma appends_index (index : ℕ) : e.Appends ((e.append bytes).newRef index) bytes (index + 1) := by
  have h := (e.appends_append bytes).trans (appends_newRef _ index)
  rwa [append_nil] at h

lemma appends_index_value (index : ℕ) (value : Bytes) :
    e.Appends
      (((e.append bytes).newRef index).append
        (encodeLiteral ((e.append bytes).newRef index).useHuffman noPrefix value))
      (bytes ++ encodeLiteral e.useHuffman noPrefix value) (index + 1) := by
  have hindex := e.appends_index bytes index
  rw [hindex.useHuffman]
  have h := hindex.trans
    (appends_append _ (encodeLiteral e.useHuffman noPrefix value))
  rwa [Nat.zero_max] at h

end HeaderEncoder

namespace Encoder

lemma appends_encodeReference_static {found : LookupResult} (h : found.staticTable = true)
    (e : HeaderEncoder) (value : Bytes) :
    e.Appends (encodeReference e found value) (referenceBytes e.base e.useHuffman found value)
      0 := by
  unfold encodeReference referenceBytes indexBytes
  split_ifs
  · exact e.appends_append _
  · unfold HeaderEncoder.encodeLiteralWithNameRef
    rw [h]
    exact (e.appends_append _).trans (HeaderEncoder.appends_append _ _)

lemma appends_encodeReference_dynamic {found : LookupResult} (h : found.staticTable = false)
    (e : HeaderEncoder) (value : Bytes) :
    e.Appends (encodeReference e found value) (referenceBytes e.base e.useHuffman found value)
      (found.index + 1) := by
  unfold encodeReference referenceBytes indexBytes
  rw [h, if_neg Bool.false_ne_true, if_neg Bool.false_ne_true, if_neg Bool.false_ne_true]
  by_cases hvalue : found.valueMatches = true
  · unfold HeaderEncoder.encodeIndexedDynamic
    split_ifs
    · exact e.appends_index _ _
    · exact e.appends_index _ _
  · unfold HeaderEncoder.encodeLiteralWithNameRef
    rw [if_neg Bool.false_ne_true]
    split_ifs
    · exact e.appends_index_value _ _ _
    · exact e.appends_index_value _ _ _

namespace Encoding

/-- The field lines that have been written can be read. -/
structure Writes (base : ℕ) (headers : List Header) (entries : List (ℕ × Bytes × Bytes))
    (s : Encoding) : Prop where
  base_eq : s.encodedH.base = base
  refs : entries.map Prod.fst = s.refEntries
  has : s.encoder.table.HasEntries entries
  required : s.encodedH.required = requiredInserts s.refEntries
  reads : ReadsAs base entries s.encodedH.buf headers

/-- Literals of the header are not too long. -/
def Short (useHuffman : Bool) (header : Header) : Prop :=
  (encodedLiteral useHuffman (asBytes header.name)).length ≤ LiteralReader.maxLen ∧
    (encodedLiteral useHuffman header.value).length ≤ LiteralReader.maxLen

lemma hasEntries_of_retains {t t' : HeaderTable} {refs : ℕ → ℕ}
    {entries : List (ℕ × Bytes × Bytes)} (h : t.HasEntries entries) (ht : t.Tracked refs)
    (ht' : t'.Wf) (hretains : t.Retains t') (hpos : ∀ entry ∈ entries, 0 < refs entry.1) :
    t'.HasEntries entries := by
  intro entry hentry
  obtain ⟨e, he, hbase, hpair⟩ := ht.wf.get?_toFifo.mp (h entry hentry)
  have hrefs : 0 < e.refs := by
    rw [ht.hasRefs e he, hbase]
    exact hpos entry hentry
  obtain ⟨e', he', hbase', hname, hvalue, -⟩ := hretains e he hrefs
  refine ht'.get?_toFifo.mpr ⟨e', he', hbase'.trans hbase, ?_⟩
  rw [← hpair]
  exact Prod.ext hname hvalue

variable {start : Encoder} {refs : ℕ → ℕ} {canBlock : Bool} {header : Header} {s s' : Encoding}
  {base : ℕ} {headers : List Header} {entries : List (ℕ × Bytes × Bytes)}

lemma lineReadsAs_reference {entry : DynamicTableEntry} {found : LookupResult} {useHuffman : Bool}
    (hfinds : HeaderTable.Finds found entry.base false (asBytes header.name) header.value entry.name
    entry.value)
    (hshort : Short useHuffman header) (hin : (entry.base, entry.pair) ∈ entries) :
    LineReadsAs base entries (referenceBytes base useHuffman found header.value) header := by
  intro t req hwf hbound hreq hhas
  obtain ⟨e, he, hbase, hpair⟩ := hwf.get?_toFifo.mp (hhas _ hin)
  obtain ⟨hname, hvalue⟩ : e.name = entry.name ∧ e.value = entry.value := Prod.mk.inj hpair
  change e.base = entry.base at hbase
  rw [← hbase, ← hname, ← hvalue] at hfinds
  apply yields_dynamic hshort.2 hwf hbound he _ hfinds
  rw [hbase]
  exact hreq _ hin

lemma Writes.append (hw : Writes base headers entries s) {encodedH : HeaderEncoder}
    {line : Bytes} {req : ℕ} {blocked : Bool} (h : s.encodedH.Appends encodedH line req)
    (hreq : req ≤ s.encodedH.required) (hline : LineReadsAs base entries line header) :
    Writes base (headers ++ [header]) entries
      { s with encodedH := encodedH, encoderBlocked := blocked } where
  base_eq := h.base.trans hw.base_eq
  refs := hw.refs
  has := hw.has
  required := (h.required.trans (max_eq_right hreq)).trans hw.required
  reads := by
    rw [h.buf]
    exact hw.reads.append (List.Subset.refl _) hline

/-- **A field line can be read.** -/
theorem Encodes.writes (h : Encodes canBlock header s s') (ht : Tracks start refs canBlock s)
    (hshort : Short s.encodedH.useHuffman header) (hw : Writes base headers entries s) :
    ∃ entries', Writes base (headers ++ [header]) entries' s' ∧
      s'.encodedH.useHuffman = s.encodedH.useHuffman ∧
      s'.encodedH.maxEntries = s.encodedH.maxEntries := by
  obtain rfl := hw.base_eq
  cases h with
  | static hmem hfinds =>
    have happends := appends_encodeReference_static hfinds.static s.encodedH header.value
    exact ⟨entries, hw.append happends (Nat.zero_le _)
      fun _ _ _ _ _ _ => yields_static hshort.2 hmem hfinds, happends.useHuffman,
      happends.maxEntries⟩
  | literal =>
    exact ⟨entries, hw.append ((s.encodedH.appends_append _).trans
      (HeaderEncoder.appends_append _ _))
      (Nat.zero_le _) fun _ _ _ _ _ _ => yields_literal hshort.1 hshort.2, rfl, rfl⟩
  | @known entry found hmem hfinds hold =>
    have happends := appends_encodeReference_dynamic hfinds.static s.encodedH header.value
    have hin : (entry.base, entry.pair) ∈ entries := by
      obtain ⟨⟨index, p⟩, hp, hfst⟩ := mem_map.mp (hw.refs.symm ▸ hold)
      obtain rfl : index = entry.base := hfst
      have hget := ht.keeps.tracked.wf.get?_toFifo.mpr ⟨entry, hmem, rfl, rfl⟩
      obtain rfl := Option.some.inj ((hw.has _ hp).symm.trans hget)
      exact hp
    refine ⟨entries, hw.append happends ?_ (lineReadsAs_reference hfinds hshort hin),
      happends.useHuffman, happends.maxEntries⟩
    rw [hw.required, hfinds.index]
    exact lt_requiredInserts hold
  | @dynamic e conn entry found table hsent hmem hfinds hacked hnew hadd =>
    have happends := appends_encodeReference_dynamic hfinds.static s.encodedH header.value
    have hkeeps := extends_of_sent hsent ht.keeps.tracked
    have hfifo := hkeeps.tracked.toFifo_addRef ⟨entry, hmem, rfl⟩ hadd
    have hhas : e.table.HasEntries entries := by
      apply hasEntries_of_retains hw.has ht.keeps.tracked hkeeps.tracked.wf hkeeps.retains
      intro entry hentry
      apply Nat.add_pos_right
      rw [count_pos_iff, ← hw.refs]
      exact mem_map_of_mem hentry
    refine ⟨(entry.base, entry.pair) :: entries, ⟨happends.base, ?_, ?_, ?_, ?_⟩,
      happends.useHuffman, happends.maxEntries⟩
    · rw [map_cons, hw.refs]
    · intro entry' hentry'
      show table.toFifo.get? entry'.1 = some entry'.2
      rw [hfifo]
      rcases mem_cons.mp hentry' with rfl | hentry'
      · exact hkeeps.tracked.wf.get?_toFifo.mpr ⟨entry, hmem, rfl, rfl⟩
      · exact hhas entry' hentry'
    · rw [requiredInserts_cons, ← hw.required, ← hfinds.index]
      exact happends.required
    · show ReadsAs _ _ (encodeReference s.encodedH found header.value).buf _
      rw [happends.buf]
      exact hw.reads.append (subset_cons_self _ _)
        (lineReadsAs_reference hfinds hshort mem_cons_self)

/-- **All field lines can be read.** -/
theorem EncodesAll.writes {headers' : List Header} (h : EncodesAll canBlock headers' s s')
    (ht : Tracks start refs canBlock s)
    (hshort : ∀ header ∈ headers', Short s.encodedH.useHuffman header)
    (hw : Writes base headers entries s) :
    ∃ entries', Writes base (headers ++ headers') entries' s' ∧
      s'.encodedH.maxEntries = s.encodedH.maxEntries := by
  induction h generalizing headers entries with
  | nil =>
    rw [append_nil]
    exact ⟨entries, hw, rfl⟩
  | @cons header headers' s s₁ s' hhead _ ih =>
    obtain ⟨entries₁, hw₁, huffman, hmax⟩ :=
      hhead.writes ht (hshort header mem_cons_self) hw
    obtain ⟨entries', hw', hmax'⟩ := ih (hhead.tracks ht)
      (fun header' hmem => huffman ▸ hshort header' (mem_cons_of_mem _ hmem)) hw₁
    rw [append_assoc] at hw'
    exact ⟨entries', hw', hmax'.trans hmax⟩

end Encoding

end Encoder

end Neqo.Qpack
