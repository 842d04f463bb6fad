import Neqo.Qpack.Equiv.Queue

/-!
# Header blocks are read back

A header block is a prefix and a field line for each header. The required insert count is sent
modulo twice the number of entries that fit into the table, and is found again if the decoder has
seen less than that number of inserts more or less (`calcReqInsertCnt_window`). A field line that
refers to an entry is read back by a decoder whose table has that entry under the same number
(`Yields`).
-/

namespace Neqo.Qpack

open HeaderTable List LiteralReader Prefix ReceiverBufferWrapper

namespace HeaderDecoder

/-! ### The required insert count -/

/-- **The required insert count is found again.** -/
theorem calcReqInsertCnt_encoded {req maxEntries total : ℕ} (hreq : 0 < req)
    (hlow : total < req + maxEntries) (hhigh : req ≤ total + maxEntries) :
    calcReqInsertCnt (req % (2 * maxEntries) + 1) maxEntries total = .ok req := by
  by_cases hmax : maxEntries = 0
  · omega
  have hpos : 0 < 2 * maxEntries := by omega
  -- Between the two there is no full range, so the quotients differ by at most one.
  have hdiv := Nat.div_add_mod req (2 * maxEntries)
  have hmod := Nat.mod_lt req hpos
  have hwrapped := Nat.div_add_mod (total + maxEntries) (2 * maxEntries)
  have hle : req / (2 * maxEntries) ≤ (total + maxEntries) / (2 * maxEntries) :=
    Nat.div_le_div_right hhigh
  have hge : (total + maxEntries) / (2 * maxEntries) ≤ req / (2 * maxEntries) + 1 := by
    rw [← Nat.add_div_right _ hpos]
    exact Nat.div_le_div_right (by omega)
  unfold calcReqInsertCnt
  rw [if_neg (Nat.succ_ne_zero _), if_neg hmax]
  dsimp only
  rw [if_neg (by omega), mul_comm ((total + maxEntries) / (2 * maxEntries)),
    ← Nat.add_assoc, Nat.add_sub_cancel]
  rcases eq_or_lt_of_le hle with heq | hlt
  · rw [heq] at hdiv
    rw [hdiv, if_neg (by omega), if_neg (not_lt.mpr hhigh), if_neg (by omega)]
  · have hsucc : (total + maxEntries) / (2 * maxEntries) = req / (2 * maxEntries) + 1 := by omega
    rw [hsucc, Nat.mul_add_one] at hwrapped ⊢
    have hsum : 2 * maxEntries * (req / (2 * maxEntries)) + 2 * maxEntries + req %
        (2 * maxEntries) = req + 2 * maxEntries := by omega
    have hgt : req + 2 * maxEntries > total + maxEntries := by omega
    rw [hsum, if_neg (by omega), if_pos hgt, Nat.add_sub_cancel, if_neg (Nat.ne_of_gt hreq)]

/-- **Required insert counts**: one in the window around the number of inserts is found again, a
value beyond the full range is rejected, and whatever else is returned is in the window. -/
theorem calcReqInsertCnt_window (maxEntries total : ℕ) :
    (∀ req, 1 ≤ req → total < req + maxEntries → req ≤ total + maxEntries →
      calcReqInsertCnt (req % (2 * maxEntries) + 1) maxEntries total = .ok req) ∧
    (∀ encoded, 2 * maxEntries < encoded →
      calcReqInsertCnt encoded maxEntries total = .error .decompression) ∧
    ∀ encoded req, encoded ≠ 0 → calcReqInsertCnt encoded maxEntries total = .ok req →
      1 ≤ req ∧ total < req + maxEntries ∧ req ≤ total + maxEntries := by
  refine ⟨fun req => calcReqInsertCnt_encoded, fun encoded hlt => ?_, fun encoded req hne hok => ?_⟩
  · unfold calcReqInsertCnt
    rw [if_neg (by omega)]
    dsimp only
    rw [if_pos hlt, ite_self]
  · -- The last full range starts less than a full range before the largest value.
    have hdiv := Nat.div_add_mod' (total + maxEntries) (2 * maxEntries)
    unfold calcReqInsertCnt at hok
    dsimp only at hok
    split_ifs at hok with hmax <;> cases hok
    all_goals
      have hmod := Nat.mod_lt (total + maxEntries) (show 0 < 2 * maxEntries by omega)
      omega

lemma and_basePrefix : ∀ b : UInt8,
    (basePrefixPositive.Starts b → b.toNat &&& 0x80 = 0) ∧
      (basePrefixNegative.Starts b → b.toNat &&& 0x80 ≠ 0) := by
  decide +kernel

section

variable {p : Prefix} {encoded req delta maxEntries total : ℕ} {rest : Bytes}
  (hencoded : encoded < 2 ^ 64) (hreq : calcReqInsertCnt encoded maxEntries total = .ok req)

include hencoded hreq

/-- The two integers before the field lines are read. The first bit of the second says whether the
base is before the required insert count. -/
lemma readBase_encode (hdelta : delta < 2 ^ 64) : let input (p : Prefix) : HeaderDecoder :=
      { buf := noPrefix.encodePrefixedEncodedInt encoded ++
        (p.encodePrefixedEncodedInt delta ++ rest) }
    (req + delta < 2 ^ 64 →
      readBase (input basePrefixPositive) maxEntries total = .ok ⟨rest, req + delta, req⟩) ∧
    (delta < req →
      readBase (input basePrefixNegative) maxEntries total = .ok ⟨rest, req - delta - 1, req⟩) := by
  intro input
  have hread {p : Prefix} (hp : p.len = 1) : ∃ b, p.Starts b ∧ readBase (input p) maxEntries total =
      if b.toNat &&& 0x80 ≠ 0 then
        if req ≤ delta then .error .decompression else .ok ⟨rest, req - delta - 1, req⟩
      else if req + delta ≥ 2 ^ 64 then .error .decompression
        else .ok ⟨rest, req + delta, req⟩ := by
    obtain ⟨b, hb, hstarts, -⟩ := IntReader.read_encodePrefixedEncodedInt .decompression p hdelta
    have hfirst := readPrefixedInt_encode noPrefix hencoded
      (p.encodePrefixedEncodedInt delta ++ rest)
    have hsecond := readPrefixedInt_encode p hdelta rest
    rw [hp] at hsecond
    change readPrefixedInt _ 0 = _ at hfirst
    have hpeek : peek (p.encodePrefixedEncodedInt delta ++ rest) = .ok b := by
      rw [hb]
      rfl
    refine ⟨b, hstarts, ?_⟩
    unfold readBase
    simp only [input, bind, Except.bind, hfirst, hreq, hpeek, hsecond]
    split_ifs <;> rfl
  refine ⟨fun hbase => ?_, fun hlt => ?_⟩
  · obtain ⟨b, hb, hread⟩ := @hread basePrefixPositive rfl
    rw [hread, if_neg (not_not.mpr ((and_basePrefix b).1 hb)), if_neg (by omega)]
  · obtain ⟨b, hb, hread⟩ := @hread basePrefixNegative rfl
    rw [hread, if_pos ((and_basePrefix b).2 hb), if_neg (by omega)]

end

/-! ### Field lines -/

/-- The kinds of field lines, in the order in which they are told apart. -/
def fieldPrefixes : List Prefix :=
  [headerFieldIndexStatic, headerFieldIndexDynamic, headerFieldIndexDynamicPost,
    headerFieldLiteralNameRefStatic, headerFieldLiteralNameRefDynamic,
    headerFieldLiteralNameLiteral,
    headerFieldLiteralNameRefDynamicPost]

/-- The kind of a field line. -/
def fieldKind (b : UInt8) : ℕ := fieldPrefixes.findIdx (·.cmpPrefix b)

/-- What is read of a kind. -/
def readKind (d : HeaderDecoder) (t : HeaderTable) : ℕ → Res (Header × HeaderDecoder)
  | 0 => d.readIndexedStatic
  | 1 => d.readIndexedDynamic t
  | 2 => d.readIndexedDynamicPost t
  | 3 => d.readLiteralWithNameRefStatic
  | 4 => d.readLiteralWithNameRefDynamic t
  | 5 => d.readLiteralWithNameLiteral
  | 6 => d.readLiteralWithNameRefDynamicPost t
  | _ => .error .assertion

lemma readField_eq (d : HeaderDecoder) (t : HeaderTable) (b : UInt8) :
    d.readField t b = d.readKind t (fieldKind b) := by
  simp only [readField, fieldKind, fieldPrefixes, findIdx_cons, cond_eq_ite]
  split_ifs <;> rfl

lemma fieldKind_starts :
    ∀ (b : UInt8) (i : Fin 7), (fieldPrefixes.getD i noPrefix).Starts b → fieldKind b = i := by
  decide +kernel

/-- A decoder with the base and the required insert count reads the header from the bytes. -/
def Yields (t : HeaderTable) (base req : ℕ) (bytes : Bytes) (header : Header) : Prop :=
  ∃ b tail, bytes = b :: tail ∧ ∀ rest,
    readField { buf := bytes ++ rest, base := base, reqInsertCnt := req } t b =
      .ok (header, { buf := rest, base := base, reqInsertCnt := req })

variable {t : HeaderTable} {base req index : ℕ} {header : Header} {rest : Bytes}

lemma getStatic_of_mem {e : StaticTableEntry} (he : e ∈ headerStaticTable) :
    getStatic e.index = .ok e ∧ e.index < 2 ^ 64 := by
  have hget := headerStaticTable_get? he
  have hlt := (List.getElem?_eq_some_iff.mp hget).1
  have hlength : headerStaticTable.length = 99 := rfl
  refine ⟨?_, by omega⟩
  unfold getStatic
  rw [hget]

lemma dynamicEntry_of_getDynamic {e : DynamicTableEntry} {post : Bool}
    (h : t.getDynamic index base post = .ok e) (hreq : e.base < req) (buf : Bytes) :
    dynamicEntry { buf := buf, base := base, reqInsertCnt := req } t index post = .ok e := by
  unfold dynamicEntry
  simp only [bind, Except.bind, h]
  rw [if_neg (not_le.mpr hreq)]
  rfl

lemma getDynamic_of_mem (hwf : t.Wf) (hbound : t.base + base < 2 ^ 64) {e : DynamicTableEntry}
    (he : e ∈ t.dynamic) :
    (e.base < base → t.getDynamic (base - e.base - 1) base false = .ok e) ∧
      (base ≤ e.base → t.getDynamic (e.base - base) base true = .ok e) := by
  obtain ⟨hlt, hget⟩ := hwf.getElem?_of_mem he
  unfold getDynamic getDynamicWithRelativeIndex
  constructor <;> intro hbase
  · rw [if_neg (by exact nofun), if_neg (by omega), if_neg (by omega),
      show t.base + (base - e.base - 1) - base = t.base - e.base - 1 by omega, hget]
  · rw [if_pos rfl, if_neg (by omega), if_neg (by omega),
      show t.base - (base + (e.base - base) + 1) = t.base - e.base - 1 by omega, hget]

lemma yields_index (p : Prefix) (hindex : index < 2 ^ 64) {tail : Bytes}
    (h : ∀ b, p.Starts b → ∀ rest,
      readField ⟨p.encodePrefixedEncodedInt index ++ (tail ++ rest), base, req⟩ t b =
        .ok (header, ⟨rest, base, req⟩)) :
    Yields t base req (p.encodePrefixedEncodedInt index ++ tail) header := by
  obtain ⟨b, hb, hstarts, -⟩ := IntReader.read_encodePrefixedEncodedInt .decompression p hindex
  refine ⟨b, p.groups index ++ tail, ?_, ?_⟩
  · rw [hb, cons_append]
  · intro rest
    rw [append_assoc]
    exact h b hstarts rest

end HeaderDecoder

/-! ### References -/

open HeaderDecoder

namespace Encoder

/-- The index of an entry of the static table, or of one of the dynamic table relative to a base. -/
def indexBytes (static pre post : Prefix) (base : ℕ) (found : LookupResult) : Bytes :=
  if found.staticTable then static.encodePrefixedEncodedInt found.index
  else if found.index < base then pre.encodePrefixedEncodedInt (base - found.index - 1)
  else post.encodePrefixedEncodedInt (found.index - base)

/-- The field line for a header that was found in one of the tables. -/
def referenceBytes (base : ℕ) (useHuffman : Bool) (found : LookupResult) (value : Bytes) : Bytes :=
  if found.valueMatches then
    indexBytes headerFieldIndexStatic headerFieldIndexDynamic
      headerFieldIndexDynamicPost base found
  else
    indexBytes headerFieldLiteralNameRefStatic headerFieldLiteralNameRefDynamic
        headerFieldLiteralNameRefDynamicPost base found ++
      encodeLiteral useHuffman noPrefix value noPrefix_len_le

variable {t : HeaderTable} {base req : ℕ} {header : Header} {useHuffman : Bool}
    {found : LookupResult}

lemma yields_entry {E : Type} {name value : E → Bytes} {e : E} {p q : Prefix} {index k : ℕ}
    {isStatic : Bool} (get : HeaderDecoder → ℕ → Res E) {i j : ℕ}
    (hp : ∀ b, p.Starts b → fieldKind b = i) (hq : ∀ b, q.Starts b → fieldKind b = j)
    (hi : ∀ d : HeaderDecoder, d.readKind t i = d.readIndexed p fun index =>
      (get d index).map fun e => (name e, value e))
    (hj : ∀ d : HeaderDecoder, d.readKind t j = d.readLiteralWithNameRef q fun index =>
      (get d index).map name)
    (hindex : index < 2 ^ 64) (hget : ∀ buf, get ⟨buf, base, req⟩ index = .ok e)
    (hfinds : HeaderTable.Finds found k isStatic (asBytes header.name) header.value (name e)
      (value e))
    (hlen : (encodedLiteral useHuffman header.value).length ≤ maxLen) :
    Yields t base req (if found.valueMatches then p.encodePrefixedEncodedInt index
      else q.encodePrefixedEncodedInt index ++ encodeLiteral useHuffman noPrefix header.value)
      header := by
  split_ifs with hvalue
  · rw [← append_nil (encodePrefixedEncodedInt _ _)]
    apply yields_index _ hindex
    intro b hstarts rest
    rw [readField_eq, hp b hstarts, hi]
    unfold readIndexed
    simp only [bind, Except.bind, readPrefixedInt_encode p hindex, hget,
      Except.map, hfinds.name, hfinds.value hvalue, parseUtf8_asBytes]
    rfl
  · apply yields_index _ hindex
    intro b hstarts rest
    rw [readField_eq, hq b hstarts, hj]
    have hvalue := readLiteralFromBuffer_encode noPrefix (by decide) hlen rest
    change readLiteralFromBuffer _ 0 = _ at hvalue
    unfold readLiteralWithNameRef
    simp only [bind, Except.bind, readPrefixedInt_encode q hindex, hget,
      Except.map, hfinds.name, parseUtf8_asBytes, hvalue]
    rfl

section

variable (hlen : (encodedLiteral useHuffman header.value).length ≤ maxLen)

include hlen

lemma yields_static {e : StaticTableEntry} (he : e ∈ headerStaticTable)
    (hfinds : HeaderTable.Finds found e.index true (asBytes header.name) header.value e.name
      e.value) :
    Yields t base req (referenceBytes base useHuffman found header.value) header := by
  obtain ⟨hget, hlt⟩ := getStatic_of_mem he
  unfold referenceBytes indexBytes
  rw [hfinds.static, hfinds.index]
  exact yields_entry (fun _ => getStatic) (fieldKind_starts · 0)
    (fieldKind_starts · 3) (fun _ => rfl) (fun _ => rfl) hlt (fun _ => hget) hfinds hlen

lemma yields_dynamic (hwf : t.Wf) (hbound : t.base + base < 2 ^ 64) {e : DynamicTableEntry}
    (he : e ∈ t.dynamic) (hreq : e.base < req)
    (hfinds : HeaderTable.Finds found e.base false (asBytes header.name) header.value e.name
      e.value) :
    Yields t base req (referenceBytes base useHuffman found header.value) header := by
  have hlt := (hwf.getElem?_of_mem he).1
  obtain ⟨hpre, hpost⟩ := getDynamic_of_mem hwf hbound he
  unfold referenceBytes indexBytes
  rw [hfinds.static, hfinds.index, if_neg Bool.false_ne_true, if_neg Bool.false_ne_true]
  by_cases hbase : e.base < base
  · rw [if_pos hbase, if_pos hbase]
    exact yields_entry (fun d index => d.dynamicEntry t index false) (fieldKind_starts · 1)
      (fieldKind_starts · 4) (fun _ => rfl) (fun _ => rfl) (by omega)
      (dynamicEntry_of_getDynamic (hpre hbase) hreq) hfinds hlen
  · rw [if_neg hbase, if_neg hbase]
    exact yields_entry (fun d index => d.dynamicEntry t index true) (fieldKind_starts · 2)
      (fieldKind_starts · 6) (fun _ => rfl) (fun _ => rfl) (by omega)
      (dynamicEntry_of_getDynamic (hpost (not_lt.mp hbase)) hreq) hfinds hlen

end

lemma yields_literal (hname : (encodedLiteral useHuffman (asBytes header.name)).length ≤ maxLen)
    (hvalue : (encodedLiteral useHuffman header.value).length ≤ maxLen) :
    Yields t base req
      (encodeLiteral useHuffman headerFieldLiteralNameLiteral (asBytes header.name) ++
        encodeLiteral useHuffman noPrefix header.value) header := by
  obtain ⟨b, groups, hb, hstarts, -⟩ := encodeLiteral_cases .decompression
    headerFieldLiteralNameLiteral (by decide) hname
  refine ⟨b, groups ++ encodedLiteral useHuffman (asBytes header.name) ++
    encodeLiteral useHuffman noPrefix header.value, ?_, ?_⟩
  · rw [hb, cons_append]
  · intro rest
    have hfirst := readLiteralFromBuffer_encode
      headerFieldLiteralNameLiteral (by decide) hname
      (encodeLiteral useHuffman noPrefix header.value ++ rest)
    have hsecond := readLiteralFromBuffer_encode noPrefix (by decide)
      hvalue rest
    change readLiteralFromBuffer _ 0 = _ at hsecond
    rw [readField_eq, fieldKind_starts b 5 hstarts, append_assoc]
    show readLiteralWithNameLiteral _ = _
    unfold readLiteralWithNameLiteral
    simp only [bind, Except.bind, hfirst, parseUtf8_asBytes, hsecond]
    rfl

end Encoder

/-! ### Blocks -/

/-- The table has entries with these numbers, names and values. -/
def HeaderTable.HasEntries (t : HeaderTable) (entries : List (ℕ × Bytes × Bytes)) : Prop :=
  ∀ entry ∈ entries, t.toFifo.get? entry.1 = some entry.2

/-- A decoder whose table has the entries reads the header from the field line. -/
def LineReadsAs (base : ℕ) (entries : List (ℕ × Bytes × Bytes)) (line : Bytes)
    (header : Header) : Prop :=
  ∀ t req, t.Wf → t.base + base < 2 ^ 64 → (∀ entry ∈ entries, entry.1 < req) →
    t.HasEntries entries → Yields t base req line header

/-- A decoder whose table has the entries reads the headers from the bytes. -/
def ReadsAs (base : ℕ) (entries : List (ℕ × Bytes × Bytes)) (bytes : Bytes)
    (headers : List Header) : Prop :=
  ∃ lines, bytes = lines.flatten ∧ List.Forall₂ (LineReadsAs base entries) lines headers

section Blocks

variable {base : ℕ} {entries entries' : List (ℕ × Bytes × Bytes)}
  {bytes line : Bytes} {headers : List Header} {header : Header}

lemma ReadsAs.append (h : ReadsAs base entries bytes headers) (hsub : entries ⊆ entries')
    (hline : LineReadsAs base entries' line header) :
    ReadsAs base entries' (bytes ++ line) (headers ++ [header]) := by
  obtain ⟨lines, rfl, hlines⟩ := h
  have hlines' : List.Forall₂ (LineReadsAs base entries') lines headers :=
    hlines.imp fun _ _ h t req hwf hbound hreq hhas =>
      h t req hwf hbound (fun entry hentry => hreq entry (hsub hentry)) fun entry hentry =>
        hhas entry (hsub hentry)
  refine ⟨lines ++ [line], ?_, rel_append hlines' (.cons hline .nil)⟩
  rw [flatten_append, flatten_singleton]

lemma readFields_of_yields {t : HeaderTable} {req : ℕ} {lines : List Bytes}
    (h : List.Forall₂ (Yields t base req) lines headers) {fuel remaining : ℕ}
    (hfuel : lines.flatten.length ≤ fuel) (hsize : (headers.map Header.size).sum ≤ remaining)
    (acc : List Header) :
    readFields t fuel ⟨lines.flatten, base, req⟩ remaining acc = .ok (acc ++ headers) := by
  induction h generalizing fuel remaining acc with
  | nil =>
    rw [append_nil]
    cases fuel <;> rfl
  | @cons line header lines headers hline _ ih =>
    obtain ⟨b, tail, rfl, hread⟩ := hline
    rw [flatten_cons, cons_append, length_cons] at hfuel
    obtain ⟨fuel, rfl⟩ := Nat.exists_eq_add_one_of_ne_zero (show fuel ≠ 0 by omega)
    rw [map_cons, sum_cons] at hsize
    have hfield := hread lines.flatten
    rw [flatten_cons]
    unfold readFields
    rw [cons_append] at hfield ⊢
    simp only [bind, Except.bind, hfield, Error.mapError]
    rw [if_neg (by omega)]
    show readFields t fuel ⟨lines.flatten, base, req⟩ (remaining - header.size)
      (acc ++ [header]) = _
    rw [ih (by rw [length_append] at hfuel; omega) (by omega), append_assoc]
    rfl

end Blocks

/-- A header block, what it stands for, and the entries to which it refers. -/
structure Block where
  buf : Bytes
  headers : List Header
  entries : List (ℕ × Bytes × Bytes)

namespace Block

/-- The entries that a block refers to. -/
def refs (b : Block) : List ℕ := b.entries.map Prod.fst

/-- The inserts that a block requires. -/
def req (b : Block) : ℕ := requiredInserts b.refs

/-- A decoder that has seen about as many inserts either waits for more, or decodes the block. -/
structure Sound (b : Block) (maxEntries : ℕ) : Prop where
  blocked : ∀ t : HeaderTable, t.base < 2 ^ 62 → t.base < b.req + maxEntries →
    b.req ≤ t.base + maxEntries → t.base < b.req →
    ∃ d, decodeHeaderBlock { buf := b.buf } t maxEntries t.base = .ok (d, .blocked b.req)
  decoded : ∀ t : HeaderTable, t.Wf → t.base < 2 ^ 62 → (0 < b.req → t.base < b.req + maxEntries) →
    b.req ≤ t.base → t.HasEntries b.entries →
    ∃ d, decodeHeaderBlock { buf := b.buf } t maxEntries t.base = .ok (d, .headers b.headers) ∧
      d.reqInsertCnt = b.req

end Block

/-- The number of inserts that the largest reference requires. -/
def HeaderEncoder.required (e : HeaderEncoder) : ℕ :=
  match e.maxDynamicIndexRef with
  | none => 0
  | some r => r + 1

lemma readBase_of_encodeHeaderBlockPrefix {e e' : HeaderEncoder} {total : ℕ}
    (h : e.encodeHeaderBlockPrefix = .ok e') (hbase : e.base < 2 ^ 62) (hreq : e.required < 2 ^ 62)
    (hlow : 0 < e.required → total < e.required + e.maxEntries)
    (hhigh : e.required ≤ total + e.maxEntries) :
    readBase { buf := e'.buf } e.maxEntries total = .ok ⟨e.buf, e.base, e.required⟩ := by
  unfold HeaderEncoder.encodeHeaderBlockPrefix at h
  unfold HeaderEncoder.required at hreq hlow hhigh ⊢
  rcases hmax : e.maxDynamicIndexRef with _ | r
  · rw [hmax] at h
    obtain rfl := Except.ok.inj h
    have hread := (@readBase_encode 0 0 e.base e.maxEntries total e.buf (by decide) rfl
      (by omega)).1 (by omega)
    rw [zero_add] at hread
    exact hread
  · rw [hmax] at h hreq hlow hhigh
    dsimp only at h hreq hlow hhigh ⊢
    have hcalc := calcReqInsertCnt_encoded (Nat.succ_pos r) (hlow (Nat.succ_pos r)) hhigh
    have hencoded : (r + 1) % (2 * e.maxEntries) + 1 < 2 ^ 64 := by
      have hle := Nat.mod_le (r + 1) (2 * e.maxEntries)
      omega
    split_ifs at h with hzero hpositive
    · obtain rfl := Except.ok.inj h
      have hread := (@readBase_encode _ _ (e.base - (r + 1)) _ total e.buf hencoded hcalc
        (by omega)).1 (by omega)
      rw [Nat.add_sub_cancel' hpositive] at hread
      exact hread
    · obtain rfl := Except.ok.inj h
      have hread := (@readBase_encode _ _ (r + 1 - e.base - 1) _ total e.buf hencoded hcalc
        (by omega)).2 (by omega)
      rw [show r + 1 - (r + 1 - e.base - 1) - 1 = e.base by omega] at hread
      exact hread

/-- **A header block is decoded as the headers that were encoded.** -/
theorem Block.sound_of_readsAs {e e' : HeaderEncoder} {headers : List Header}
    {entries : List (ℕ × Bytes × Bytes)} (h : e.encodeHeaderBlockPrefix = .ok e')
    (hreads : ReadsAs e.base entries e.buf headers)
    (hrequired : e.required = requiredInserts (entries.map Prod.fst)) (hbase : e.base < 2 ^ 62)
    (hreq : e.required < 2 ^ 62) (hsize : (headers.map Header.size).sum ≤ maxLen) :
    Block.Sound ⟨e'.buf, headers, entries⟩ e.maxEntries := by
  have heq : Block.req ⟨e'.buf, headers, entries⟩ = e.required := hrequired.symm
  refine ⟨?_, ?_⟩
  · intro t hbound hlow hhigh hlt
    rw [heq] at hlow hhigh hlt ⊢
    refine ⟨⟨e.buf, e.base, e.required⟩, ?_⟩
    unfold decodeHeaderBlock
    simp only [bind, Except.bind, readBase_of_encodeHeaderBlockPrefix h hbase hreq
      (fun _ => hlow) hhigh, Error.mapError]
    rw [if_pos hlt]
    rfl
  · intro t hwf hbound hlow hle hhas
    rw [heq] at hlow hle ⊢
    obtain ⟨lines, hlines, hreads⟩ := hreads
    have hyields : List.Forall₂ (Yields t e.base e.required) lines headers :=
      hreads.imp fun _ _ h => h t e.required hwf (by omega) (fun entry hentry => by
        rw [hrequired]
        exact lt_requiredInserts (mem_map_of_mem hentry)) hhas
    refine ⟨⟨e.buf, e.base, e.required⟩, ?_, rfl⟩
    unfold decodeHeaderBlock
    simp only [bind, Except.bind, readBase_of_encodeHeaderBlockPrefix h hbase hreq hlow (by omega),
      Error.mapError]
    rw [if_neg (not_lt.mpr hle)]
    have hfields := readFields_of_yields hyields (le_refl _) hsize []
    rw [← hlines] at hfields
    show (readFields t e.buf.length ⟨e.buf, e.base, e.required⟩ maxLen []).bind _ = _
    rw [hfields]
    rfl

end Neqo.Qpack
