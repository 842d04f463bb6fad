import Neqo.Qpack.Session
import Neqo.Qpack.Equiv.Table

/-!
# What encoding does

While headers are encoded, the type of the stream, a capacity or an insert is sent on the encoder
stream, one after the other. The table changes when the instruction is sent, and as the instruction
says, since it was checked before that it can. A header becomes a field line that refers to the
static table, to an entry of the dynamic table, or to none (`Encodes`).
-/

namespace Neqo.Qpack

open EncoderInstruction List Relation

namespace OutStream

variable {s s' : OutStream} {buf : Bytes}

lemma eq_of_streamSendAtomic (h : s.streamSendAtomic buf = (s', false)) : s' = s := by
  unfold streamSendAtomic at h
  split_ifs at h
  · exact absurd (congrArg Prod.snd h) nofun
  · exact (congrArg Prod.fst h).symm

lemma sent_of_streamSendAtomic (h : s.streamSendAtomic buf = (s', true)) :
    buf.length ≤ s.space ∧ s' = { sent := s.sent ++ buf, space := s.space - buf.length } := by
  unfold streamSendAtomic at h
  split_ifs at h with hspace
  · exact ⟨hspace, (congrArg Prod.fst h).symm⟩
  · exact absurd (congrArg Prod.snd h) nofun

end OutStream

namespace Encoder

/-! ### What is sent -/

/-- Something is sent on the encoder stream; `Inserts` says which headers may be inserted. -/
inductive Sent (Inserts : Bytes → Bytes → Prop) :
    Encoder × OutStream → Encoder × OutStream → Prop
  | streamType {e : Encoder} {conn conn' : OutStream} {streamId : StreamId}
    (hstream : e.localStream = .uninitialized streamId)
    (hsend : conn.streamSendAtomic [qpackUniStreamTypeEncoder] = (conn', true)) :
    Sent Inserts (e, conn) ({ e with localStream := .initialized streamId }, conn')
  | capacity {e : Encoder} {conn conn' : OutStream} {streamId : StreamId} {cap : ℕ}
    {table : HeaderTable} (hstream : e.localStream = .initialized streamId)
    (hcap : e.nextCapacity = some cap) (hset : e.table.setCapacity cap = (table, .ok ()))
    (hsend : conn.streamSendAtomic ((capacity cap).marshal e.useHuffman) =
      (conn', true)) :
    Sent Inserts (e, conn) ({ e with table := table, nextCapacity := none }, conn')
  | insert {e : Encoder} {conn conn' : OutStream} {streamId : StreamId} {name value : Bytes}
    {table : HeaderTable} (hstream : e.localStream.streamId = some streamId)
    (hinsert : e.table.insert name value = (table, .ok e.table.base))
    (hsend : conn.streamSendAtomic
      ((insertWithNameLiteral name value).marshal e.useHuffman) = (conn', true))
    (hinserts : Inserts name value) :
    Sent Inserts (e, conn) ({ e with table := table }, conn')

variable {e e' : Encoder} {conn conn' : OutStream} {Inserts : Bytes → Bytes → Prop}

lemma sendAndInsert_cases (h : e.table.Wf) (conn : OutStream) (name value : Bytes) :
    (∃ err, e.sendAndInsert conn name value = (e, conn, .error err)) ∨
      ∃ table conn', e.table.insert name value = (table, .ok e.table.base) ∧
        e.sendAndInsert conn name value = ({ e with table := table }, conn', .ok e.table.base) ∧
        Sent (fun n v => n = name ∧ v = value) (e, conn) ({ e with table := table }, conn') := by
  unfold sendAndInsert
  dsimp only
  cases hpossible : e.table.insertPossible
      (name.length + value.length + additionalTableEntrySize) with
  | false => exact .inl ⟨_, rfl⟩
  | true =>
    rw [if_neg (by exact nofun)]
    rcases hstream : e.localStream.streamId with _ | streamId
    · exact .inl ⟨_, rfl⟩
    rw [if_neg (by exact nofun)]
    rcases hsend : conn.streamSendAtomic
      ((insertWithNameLiteral name value).marshal e.useHuffman) with
      ⟨conn', _ | _⟩
    · rw [OutStream.eq_of_streamSendAtomic hsend]
      exact .inl ⟨_, rfl⟩
    · obtain ⟨kept, -, -, -, hinsert, -⟩ := h.insert_spec name value
      replace hinsert := hinsert.trans (if_pos hpossible)
      refine .inr ⟨_, conn', hinsert, ?_, .insert hstream hinsert hsend ⟨rfl, rfl⟩⟩
      rw [hinsert]

lemma maybeSendChangeCapacity_cases (h : e.table.Wf) {streamId : StreamId}
    (hstream : e.localStream = .initialized streamId) (conn : OutStream) :
    (∃ res, e.maybeSendChangeCapacity conn = (e, conn, res)) ∨
      ∃ e' conn', e.maybeSendChangeCapacity conn = (e', conn', .ok ()) ∧
        Sent (fun _ _ => False) (e, conn) (e', conn') := by
  unfold maybeSendChangeCapacity
  rcases hcap : e.nextCapacity with _ | cap
  · exact .inl ⟨_, rfl⟩
  dsimp only
  by_cases hfull : cap < e.table.capacity ∧ (!e.table.canEvictTo cap) = true
  · rw [if_pos hfull]
    exact .inl ⟨_, rfl⟩
  rw [if_neg hfull]
  rcases hsend : conn.streamSendAtomic ((capacity cap).marshal e.useHuffman) with
    ⟨conn', _ | _⟩
  · rw [OutStream.eq_of_streamSendAtomic hsend]
    exact .inl ⟨_, rfl⟩
  · -- Nothing has to be evicted unless the capacity is reduced.
    have hcan : e.table.canEvictTo cap = true := by
      by_cases hlt : cap < e.table.capacity
      · simpa [hlt] using hfull
      · have hle := h.used_le
        exact decide_eq_true (by omega)
    obtain ⟨_, kept, -, -, -, -, hset⟩ := h.setCapacity_spec cap
    rw [if_pos hcan] at hset
    refine .inr ⟨_, conn', ?_, .capacity hstream hcap hset hsend⟩
    rw [hset]

lemma sendEncoderUpdates_sent (h : e.table.Wf) (conn : OutStream) :
    ∃ e' conn' res, e.sendEncoderUpdates conn = (e', conn', res) ∧
      ReflTransGen (Sent fun _ _ => False) (e, conn) (e', conn') := by
  -- Once the stream has its type, the capacity is all that is left.
  have hcapacity : ∀ {e₁ : Encoder} {streamId : StreamId}, e₁.table.Wf →
      e₁.localStream = .initialized streamId → ∀ conn₁, ∃ e' conn' res,
        e₁.maybeSendChangeCapacity conn₁ = (e', conn', res) ∧
          ReflTransGen (Sent fun _ _ => False) (e₁, conn₁) (e', conn') := by
    intro e₁ streamId h₁ hstream conn₁
    rcases maybeSendChangeCapacity_cases h₁ hstream conn₁ with ⟨res, hres⟩
      | ⟨e', conn', hres, hsent⟩
    · exact ⟨e₁, conn₁, res, hres, .refl⟩
    · exact ⟨e', conn', _, hres, .single hsent⟩
  unfold sendEncoderUpdates
  cases hstream : e.localStream with
  | noStream => exact ⟨e, conn, _, rfl, .refl⟩
  | initialized => exact hcapacity h hstream conn
  | uninitialized streamId =>
    rcases hsend : conn.streamSendAtomic [qpackUniStreamTypeEncoder] with ⟨conn₁, _ | _⟩
    · rw [OutStream.eq_of_streamSendAtomic hsend]
      exact ⟨e, conn, _, rfl, .refl⟩
    · obtain ⟨e', conn', res, hres, hsent⟩ :=
        @hcapacity { e with localStream := .initialized streamId } streamId h rfl conn₁
      exact ⟨e', conn', res, hres, .head (.streamType hstream hsend) hsent⟩

/-- The state of the header blocks is the same. -/
structure SameBlocks (e e' : Encoder) : Prop where
  blocks : e'.unackedHeaderBlocks = e.unackedHeaderBlocks
  blockedCnt : e'.blockedStreamCnt = e.blockedStreamCnt
  maxBlocked : e'.maxBlockedStreams = e.maxBlockedStreams
  acked : e'.table.ackedInsertsCnt = e.table.ackedInsertsCnt
  reader : e'.instructionReader = e.instructionReader
  maxEntries : e'.maxEntries = e.maxEntries
  useHuffman : e'.useHuffman = e.useHuffman
  recvStreamId : e'.recvStreamId = e.recvStreamId

lemma SameBlocks.refl (e : Encoder) : e.SameBlocks e :=
  ⟨rfl, rfl, rfl, rfl, rfl, rfl, rfl, rfl⟩

lemma SameBlocks.trans {e'' : Encoder} (h : e.SameBlocks e') (h' : e'.SameBlocks e'') :
    e.SameBlocks e'' :=
  ⟨h'.blocks.trans h.blocks, h'.blockedCnt.trans h.blockedCnt, h'.maxBlocked.trans h.maxBlocked,
    h'.acked.trans h.acked, h'.reader.trans h.reader, h'.maxEntries.trans h.maxEntries,
    h'.useHuffman.trans h.useHuffman, h'.recvStreamId.trans h.recvStreamId⟩

/-- What encoding keeps. -/
structure Extends (e e' : Encoder) (refs : ℕ → ℕ) : Prop extends SameBlocks e e' where
  tracked : e'.table.Tracked refs
  retains : e.table.Retains e'.table

lemma Sent.extends {p q : Encoder × OutStream} (h : Sent Inserts p q) {refs : ℕ → ℕ}
    (ht : p.1.table.Tracked refs) : p.1.Extends q.1 refs := by
  cases h with
  | streamType => exact ⟨⟨rfl, rfl, rfl, rfl, rfl, rfl, rfl, rfl⟩, ht, .refl _⟩
  | @capacity e conn conn' streamId cap table hstream hcap hset hsend =>
    have hcapacity := ht.setCapacity cap
    rw [hset] at hcapacity
    exact ⟨⟨rfl, rfl, rfl, hcapacity.2.2, rfl, rfl, rfl, rfl⟩, hcapacity.1, hcapacity.2.1⟩
  | @insert e conn conn' streamId name value table hstream hinsert hsend hinserts =>
    have hinserted := ht.insert name value
    rw [hinsert] at hinserted
    exact ⟨⟨rfl, rfl, rfl, hinserted.2.2.1, rfl, rfl, rfl, rfl⟩, hinserted.1, hinserted.2.1⟩

lemma extends_of_sent {p q : Encoder × OutStream} (h : ReflTransGen (Sent Inserts) p q)
    {refs : ℕ → ℕ} (ht : p.1.table.Tracked refs) : p.1.Extends q.1 refs := by
  induction h with
  | refl => exact ⟨.refl _, ht, .refl _⟩
  | tail _ hstep ih =>
    have hnext := hstep.extends ih.tracked
    exact ⟨ih.toSameBlocks.trans hnext.toSameBlocks, hnext.tracked, ih.retains.trans hnext.retains⟩

/-! ### Field lines -/

namespace Encoding

/-- The header may be inserted. -/
def Inserting (header : Header) (name value : Bytes) : Prop :=
  name = asBytes header.name ∧ value = header.value

/-- A header becomes a field line. -/
inductive Encodes (canBlock : Bool) (header : Header) (s : Encoding) : Encoding → Prop
  /-- The header or its name is in the static table. -/
  | static {entry : StaticTableEntry} {found : LookupResult} (hmem : entry ∈ headerStaticTable)
    (hfinds : HeaderTable.Finds found entry.index true (asBytes header.name) header.value entry.name
      entry.value) :
    Encodes canBlock header s
      { s with encodedH := encodeReference s.encodedH found header.value }
  /-- The header or its name is in an entry to which the block refers already. -/
  | known {entry : DynamicTableEntry} {found : LookupResult}
      (hmem : entry ∈ s.encoder.table.dynamic)
    (hfinds : HeaderTable.Finds found entry.base false (asBytes header.name) header.value entry.name
      entry.value) (hold : entry.base ∈ s.refEntries) :
    Encodes canBlock header s
      { s with encodedH := encodeReference s.encodedH found header.value }
  /-- The header or its name is in another entry; the header may have been inserted for that. -/
  | dynamic {e : Encoder} {conn : OutStream} {entry : DynamicTableEntry} {found : LookupResult}
    {table : HeaderTable}
    (hsent : ReflTransGen (Sent (Inserting header)) (s.encoder, s.conn) (e, conn))
    (hmem : entry ∈ e.table.dynamic)
    (hfinds : HeaderTable.Finds found entry.base false (asBytes header.name) header.value entry.name
      entry.value)
    (hacked : canBlock = false → entry.base < e.table.ackedInsertsCnt)
    (hnew : entry.base ∉ s.refEntries) (hadd : e.table.addRef entry.base = .ok table) :
    Encodes canBlock header s
      { s with
        encoder := { e with table := table }
        conn := conn
        encodedH := encodeReference s.encodedH found header.value
        refEntries := entry.base :: s.refEntries }
  | literal {blocked : Bool} :
    Encodes canBlock header s
      { s with
        encodedH := s.encodedH.encodeLiteralWithNameLiteral (asBytes header.name) header.value
        encoderBlocked := blocked }

variable {start : Encoder} {refs : ℕ → ℕ} {canBlock : Bool} {header : Header} {s s' : Encoding}

/-- The references of a header block are counted while it is encoded. -/
structure Tracks (start : Encoder) (refs : ℕ → ℕ) (canBlock : Bool) (s : Encoding) : Prop where
  keeps : start.Extends s.encoder fun index => refs index + s.refEntries.count index
  nodup : s.refEntries.Nodup
  acked : canBlock = false → ∀ index ∈ s.refEntries, index < start.table.ackedInsertsCnt

lemma encodeFound_encodes {found : LookupResult} {entry : DynamicTableEntry}
    (ht : s.encoder.table.Tracked fun index => refs index + s.refEntries.count index)
    (hmem : entry ∈ s.encoder.table.dynamic)
    (hfinds : HeaderTable.Finds found entry.base false (asBytes header.name) header.value entry.name
      entry.value)
    (hacked : canBlock = false → entry.base < s.encoder.table.ackedInsertsCnt) :
    ∃ s', s.encodeFound found header.value = .ok s' ∧ Encodes canBlock header s s' := by
  unfold encodeFound
  rw [hfinds.static, hfinds.index]
  by_cases hold : entry.base ∈ s.refEntries
  · rw [contains_eq_mem, decide_eq_true hold]
    exact ⟨_, rfl, .known hmem hfinds hold⟩
  · obtain ⟨table, hadd, -⟩ := ht.addRef ⟨entry, hmem, rfl⟩
    rw [contains_eq_mem, decide_eq_false hold, hadd]
    exact ⟨_, rfl, .dynamic .refl hmem hfinds hacked hold hadd⟩

lemma encodeNotFound_encodes (canBlock : Bool)
    (ht : s.encoder.table.Tracked fun index => refs index + s.refEntries.count index) :
    ∃ s', s.encodeNotFound canBlock (asBytes header.name) header.value = .ok s' ∧
      Encodes canBlock header s s' := by
  unfold encodeNotFound
  by_cases hcan : (canBlock && !s.encoderBlocked) = true
  swap
  · rw [if_neg hcan]
    exact ⟨_, rfl, .literal⟩
  rw [if_pos hcan]
  rcases sendAndInsert_cases ht.wf s.conn (asBytes header.name) header.value with
    ⟨err, hsend⟩ | ⟨table, conn, hinsert, hsend, hsent⟩
  · rw [hsend]
    exact ⟨_, rfl, .literal⟩
  rw [hsend]
  have htracked := (hsent.extends ht).tracked
  have hmem := (ht.insert (asBytes header.name) header.value).2.2.2
  rw [hinsert] at hmem
  have hfinds : HeaderTable.Finds ⟨s.encoder.table.base, false, true⟩ s.encoder.table.base false
      (asBytes header.name) header.value (asBytes header.name) header.value :=
    ⟨rfl, rfl, rfl, fun _ => rfl⟩
  have hblock : canBlock = false → s.encoder.table.base < table.ackedInsertsCnt := by
    rintro rfl
    exact absurd hcan nofun
  -- References of this block are to older entries.
  have hnew : s.encoder.table.base ∉ s.refEntries := fun hold =>
    lt_irrefl _ (ht.lt_base (Nat.add_pos_right _ (count_pos_iff.mpr hold)))
  obtain ⟨table', hadd, -⟩ := htracked.addRef ⟨_, hmem _ rfl, rfl⟩
  change table.addRef s.encoder.table.base = .ok table' at hadd
  dsimp only
  rw [hadd, contains_eq_mem, decide_eq_false hnew]
  exact ⟨_, rfl, .dynamic (.single hsent) (hmem _ rfl) hfinds hblock hnew hadd⟩

/-- **A header can be encoded.** -/
theorem encodeHeader_encodes (canTrack canBlock : Bool) (header : Header)
    (ht : s.encoder.table.Tracked fun index => refs index + s.refEntries.count index) :
    ∃ s', s.encodeHeader canTrack canBlock header = .ok s' ∧ Encodes canBlock header s s' := by
  have hstatic : ∀ {entry : StaticTableEntry} {found : LookupResult}, entry ∈ headerStaticTable →
      HeaderTable.Finds found entry.index true (asBytes header.name) header.value entry.name
        entry.value →
      ∃ s', s.encodeFound found header.value = .ok s' ∧ Encodes canBlock header s s' := by
    intro entry found hmem hfinds
    unfold encodeFound
    rw [hfinds.static]
    exact ⟨_, rfl, .static hmem hfinds⟩
  unfold encodeHeader
  dsimp only
  cases canTrack with
  | false =>
    rcases hlookup : HeaderTable.staticLookup (asBytes header.name) header.value with _ | found
    · exact encodeNotFound_encodes canBlock ht
    · obtain ⟨entry, hmem, hfinds⟩ := HeaderTable.staticLookup_cases hlookup
      exact hstatic hmem hfinds
  | true =>
    rcases hlookup : s.encoder.table.lookup (asBytes header.name) header.value canBlock with
      _ | found
    · exact encodeNotFound_encodes canBlock ht
    · rcases HeaderTable.lookup_cases hlookup with ⟨entry, hmem, hfinds⟩
        | ⟨entry, hmem, hfinds, hacked⟩
      · exact hstatic hmem hfinds
      · exact encodeFound_encodes ht hmem hfinds hacked

lemma Encodes.tracks (h : Encodes canBlock header s s') (ht : Tracks start refs canBlock s) :
    Tracks start refs canBlock s' := by
  cases h with
  | static | known | literal => exact { ht with }
  | @dynamic e conn entry found table hsent hmem hfinds hacked hnew hadd =>
    have hkeeps := extends_of_sent hsent ht.keeps.tracked
    have hsame := ht.keeps.toSameBlocks.trans hkeeps.toSameBlocks
    have hretains := ht.keeps.retains.trans hkeeps.retains
    obtain ⟨table', hadd', htracked, hretains', -, hacked'⟩ :=
      hkeeps.tracked.addRef ⟨entry, hmem, rfl⟩
    obtain rfl := Except.ok.inj (hadd'.symm.trans hadd)
    refine ⟨⟨{ hsame with acked := hacked'.trans hsame.acked }, ?_, hretains.trans hretains'⟩,
      nodup_cons.mpr ⟨hnew, ht.nodup⟩, ?_⟩
    · convert htracked using 1
      funext index
      by_cases hindex : index = entry.base
      · rw [hindex, Function.update_self, count_cons_self, add_assoc]
      · rw [Function.update_of_ne hindex, count_cons_of_ne (Ne.symm hindex)]
    · intro hblock index hindex
      rcases mem_cons.mp hindex with rfl | hindex
      · rw [← hsame.acked]
        exact hacked hblock
      · exact ht.acked hblock index hindex

/-- Headers become field lines one after the other. -/
inductive EncodesAll (canBlock : Bool) : List Header → Encoding → Encoding → Prop
  | nil {s : Encoding} : EncodesAll canBlock [] s s
  | cons {header : Header} {headers : List Header} {s s' s'' : Encoding}
    (hhead : Encodes canBlock header s s') (htail : EncodesAll canBlock headers s' s'') :
    EncodesAll canBlock (header :: headers) s s''

lemma EncodesAll.tracks {headers : List Header} (h : EncodesAll canBlock headers s s')
    (ht : Tracks start refs canBlock s) : Tracks start refs canBlock s' := by
  induction h with
  | nil => exact ht
  | cons hhead _ ih => exact ih (hhead.tracks ht)

/-- **Headers can be encoded.** -/
theorem encodeHeaders_encodes (canTrack : Bool) (headers : List Header)
    (ht : Tracks start refs canBlock s) :
    ∃ s', headers.foldlM (encodeHeader canTrack canBlock) s = .ok s' ∧
      EncodesAll canBlock headers s s' := by
  induction headers generalizing s with
  | nil => exact ⟨s, rfl, .nil⟩
  | cons header headers ih =>
    obtain ⟨s₁, hheader, hencodes⟩ :=
      encodeHeader_encodes canTrack canBlock header ht.keeps.tracked
    obtain ⟨s', hheaders, hall⟩ := ih (hencodes.tracks ht)
    refine ⟨s', ?_, .cons hencodes hall⟩
    rw [foldlM_cons, hheader]
    exact hheaders

end Encoding

end Encoder

end Neqo.Qpack
