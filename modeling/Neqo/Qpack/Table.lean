import Neqo.Qpack.Basic

/-!
# The static and the dynamic table
-/

namespace Neqo.Qpack

/-- An entry of the static table. -/
structure StaticTableEntry where
  index : ℕ
  name : Bytes
  value : Bytes
  deriving DecidableEq, Repr

def staticTableEntries (entries : List (ℕ × String × String)) : List StaticTableEntry :=
  entries.map fun (i, n, v) => { index := i, name := asBytes n, value := asBytes v }

def headerStaticTable : List StaticTableEntry := staticTableEntries [
  (0, ":authority", ""),
  (1, ":path", "/"),
  (2, "age", "0"),
  (3, "content-disposition", ""),
  (4, "content-length", "0"),
  (5, "cookie", ""),
  (6, "date", ""),
  (7, "etag", ""),
  (8, "if-modified-since", ""),
  (9, "if-none-match", ""),
  (10, "last-modified", ""),
  (11, "link", ""),
  (12, "location", ""),
  (13, "referer", ""),
  (14, "set-cookie", ""),
  (15, ":method", "CONNECT"),
  (16, ":method", "DELETE"),
  (17, ":method", "GET"),
  (18, ":method", "HEAD"),
  (19, ":method", "OPTIONS"),
  (20, ":method", "POST"),
  (21, ":method", "PUT"),
  (22, ":scheme", "http"),
  (23, ":scheme", "https"),
  (24, ":status", "103"),
  (25, ":status", "200"),
  (26, ":status", "304"),
  (27, ":status", "404"),
  (28, ":status", "503"),
  (29, "accept", "*/*"),
  (30, "accept", "application/dns-message"),
  (31, "accept-encoding", "gzip, deflate, br"),
  (32, "accept-ranges", "bytes"),
  (33, "access-control-allow-headers", "cache-control"),
  (34, "access-control-allow-headers", "content-type"),
  (35, "access-control-allow-origin", "*"),
  (36, "cache-control", "max-age=0"),
  (37, "cache-control", "max-age=2592000"),
  (38, "cache-control", "max-age=604800"),
  (39, "cache-control", "no-cache"),
  (40, "cache-control", "no-store"),
  (41, "cache-control", "public, max-age=31536000"),
  (42, "content-encoding", "br"),
  (43, "content-encoding", "gzip"),
  (44, "content-type", "application/dns-message"),
  (45, "content-type", "application/javascript"),
  (46, "content-type", "application/json"),
  (47, "content-type", "application/x-www-form-urlencoded"),
  (48, "content-type", "image/gif"),
  (49, "content-type", "image/jpeg"),
  (50, "content-type", "image/png"),
  (51, "content-type", "text/css"),
  (52, "content-type", "text/html; charset=utf-8"),
  (53, "content-type", "text/plain"),
  (54, "content-type", "text/plain;charset=utf-8"),
  (55, "range", "bytes=0-"),
  (56, "strict-transport-security", "max-age=31536000"),
  (57, "strict-transport-security", "max-age=31536000; includesubdomains"),
  (58, "strict-transport-security", "max-age=31536000; includesubdomains; preload"),
  (59, "vary", "accept-encoding"),
  (60, "vary", "origin"),
  (61, "x-content-type-options", "nosniff"),
  (62, "x-xss-protection", "1; mode=block"),
  (63, ":status", "100"),
  (64, ":status", "204"),
  (65, ":status", "206"),
  (66, ":status", "302"),
  (67, ":status", "400"),
  (68, ":status", "403"),
  (69, ":status", "421"),
  (70, ":status", "425"),
  (71, ":status", "500"),
  (72, "accept-language", ""),
  (73, "access-control-allow-credentials", "FALSE"),
  (74, "access-control-allow-credentials", "TRUE"),
  (75, "access-control-allow-headers", "*"),
  (76, "access-control-allow-methods", "get"),
  (77, "access-control-allow-methods", "get, post, options"),
  (78, "access-control-allow-methods", "options"),
  (79, "access-control-expose-headers", "content-length"),
  (80, "access-control-request-headers", "content-type"),
  (81, "access-control-request-method", "get"),
  (82, "access-control-request-method", "post"),
  (83, "alt-svc", "clear"),
  (84, "authorization", ""),
  (85, "content-security-policy",
    "script-src 'none'; object-src 'none'; base-uri 'none'"),
  (86, "early-data", "1"),
  (87, "expect-ct", ""),
  (88, "forwarded", ""),
  (89, "if-range", ""),
  (90, "origin", ""),
  (91, "purpose", "prefetch"),
  (92, "server", ""),
  (93, "timing-allow-origin", "*"),
  (94, "upgrade-insecure-requests", "1"),
  (95, "user-agent", ""),
  (96, "x-forwarded-for", ""),
  (97, "x-frame-options", "deny"),
  (98, "x-frame-options", "sameorigin")]

lemma headerStaticTable_get? {e : StaticTableEntry} (he : e ∈ headerStaticTable) :
    headerStaticTable[e.index]? = some e := by
  obtain ⟨i, hi⟩ := List.getElem?_of_mem he
  have hindex : headerStaticTable.map (·.index) = List.range 99 := rfl
  have h := congrArg (·[i]?) hindex
  simp only [List.getElem?_map, hi, Option.map_some] at h
  obtain ⟨hlt, hj⟩ := List.getElem?_eq_some_iff.mp h.symm
  rw [List.getElem_range] at hj
  rw [← hj, hi]

/-! ### The dynamic table

The encoder and the decoder each have one; the decoder's follows the encoder's. Entries are
identified by the number of inserts before them. -/

def additionalTableEntrySize : ℕ := 32

/-- An entry that was found. -/
structure LookupResult where
  index : ℕ
  staticTable : Bool
  valueMatches : Bool
  deriving DecidableEq, Repr

/-- An entry of the dynamic table. -/
structure DynamicTableEntry where
  base : ℕ
  name : Bytes
  value : Bytes
  /-- The number of header blocks that refer to this entry. This is only used by the encoder. -/
  refs : ℕ := 0
  deriving DecidableEq, Repr

namespace DynamicTableEntry

variable (e : DynamicTableEntry)

def canReduce (firstNotAcked : ℕ) : Bool :=
  e.refs = 0 && e.base < firstNotAcked

def size : ℕ :=
  e.name.length + e.value.length + additionalTableEntrySize

def addRef : DynamicTableEntry := { e with refs := e.refs + 1 }

def removeRef : Res DynamicTableEntry :=
  if e.refs > 0 then .ok { e with refs := e.refs - 1 } else .error .assertion

end DynamicTableEntry

/-- The dynamic table. -/
structure HeaderTable where
  /-- The entries, from the newest to the oldest. -/
  dynamic : List DynamicTableEntry := []
  capacity : ℕ := 0
  used : ℕ := 0
  /-- The number of inserts thus far. -/
  base : ℕ := 0
  /-- The number of inserts that are acked. This is only used by the encoder. -/
  ackedInsertsCnt : ℕ
  deriving DecidableEq, Repr

namespace HeaderTable

def new (encoder : Bool) : HeaderTable :=
  { ackedInsertsCnt := if encoder then 0 else 2 ^ 64 - 1 }

/-! ### Eviction -/

/-- Evict entries, from the oldest, until `reduce` is enough for the others or one has to stay. -/
def evictOldest (ackedInsertsCnt reduce : ℕ) :
    List DynamicTableEntry → ℕ → List DynamicTableEntry × ℕ × Bool
  | [], used => ([], used, true)
  | e :: newer, used =>
    if used ≤ reduce then (e :: newer, used, true)
    else if !e.canReduce ackedInsertsCnt then (e :: newer, used, false)
    else evictOldest ackedInsertsCnt reduce newer (used - e.size)

variable (t : HeaderTable)

def evictTo (reduce : ℕ) : HeaderTable × Bool :=
  let (kept, used, evicted) := evictOldest t.ackedInsertsCnt reduce t.dynamic.reverse t.used
  ({ t with dynamic := kept.reverse, used := used }, evicted)

def canEvictTo (reduce : ℕ) : Bool :=
  let evictable := t.dynamic.reverse.takeWhile fun e => e.canReduce t.ackedInsertsCnt
  t.used - (evictable.map DynamicTableEntry.size).sum ≤ reduce

/-- Change the capacity, unless entries have to stay that are referred to or whose inserts are
unacked. -/
def setCapacity (cap : ℕ) : HeaderTable × Res Unit :=
  match t.evictTo cap with
  | (t, false) => (t, .error .changeCapacity)
  | (t, true) => ({ t with capacity := cap }, .ok ())

/-! ### Entries -/

variable (index : ℕ)

def getStatic : Res StaticTableEntry :=
  match headerStaticTable[index]? with
  | some e => .ok e
  | none => .error .headerLookup

def getDynamicWithRelativeIndex : Res DynamicTableEntry :=
  match t.dynamic[index]? with
  | some e => .ok e
  | none => .error .headerLookup

/-- Get an entry relative to the base of a header block. -/
def getDynamic (base : ℕ) (post : Bool) : Res DynamicTableEntry :=
  if post then
    if base + index + 1 ≥ 2 ^ 64 then .error .integerOverflow
    else if t.base < base + index + 1 then .error .headerLookup
    else t.getDynamicWithRelativeIndex (t.base - (base + index + 1))
  else
    if t.base + index ≥ 2 ^ 64 then .error .integerOverflow
    else if t.base + index < base then .error .headerLookup
    else t.getDynamicWithRelativeIndex (t.base + index - base)

/-- Change the entry at an absolute index; there has to be one. -/
def modifyDynamicWithAbsIndex (f : DynamicTableEntry → Res DynamicTableEntry) : Res HeaderTable :=
  if t.base ≤ index then .error .assertion
  else
    let inx := t.base - index - 1
    match t.dynamic[inx]? with
    | none => .error .assertion
    | some e => do
      let e ← f e
      return { t with dynamic := t.dynamic.set inx e }

/-- Remove a reference to a dynamic table entry. -/
def removeRef : Res HeaderTable :=
  t.modifyDynamicWithAbsIndex index DynamicTableEntry.removeRef

/-- Add a reference to a dynamic table entry. -/
def addRef : Res HeaderTable :=
  t.modifyDynamicWithAbsIndex index fun e => .ok e.addRef

/-! ### Lookup -/

/-- Look in the rest of the static table; the first match of a name is kept. -/
def staticLookupFrom (name value : Bytes) :
    List StaticTableEntry → Option LookupResult → Option LookupResult
  | [], nameMatch => nameMatch
  | e :: entries, nameMatch =>
    if e.name = name then
      if e.value = value then some ⟨e.index, true, true⟩
      else staticLookupFrom name value entries (nameMatch.or (some ⟨e.index, true, false⟩))
    else staticLookupFrom name value entries nameMatch

variable (name value : Bytes)

/-- Look for a header pair in the static table only. -/
def staticLookup : Option LookupResult :=
  staticLookupFrom name value headerStaticTable none

/-- Look in the rest of the dynamic table; entries whose inserts are unacked only count if the
stream can block. -/
def dynamicLookupFrom (name value : Bytes) (canBlock : Bool) (ackedInsertsCnt : ℕ) :
    List DynamicTableEntry → Option LookupResult → Option LookupResult
  | [], nameMatch => nameMatch
  | e :: entries, nameMatch =>
    if !canBlock && e.base ≥ ackedInsertsCnt then
      dynamicLookupFrom name value canBlock ackedInsertsCnt entries nameMatch
    else if e.name = name then
      if e.value = value then some ⟨e.base, false, true⟩
      else dynamicLookupFrom name value canBlock ackedInsertsCnt entries
        (nameMatch.or (some ⟨e.base, false, false⟩))
    else dynamicLookupFrom name value canBlock ackedInsertsCnt entries nameMatch

/-- Look for a header pair in the static and dynamic tables. A static value match wins; otherwise a
static name match is kept as a fallback that a dynamic name match does not displace. -/
def lookup (canBlock : Bool) : Option LookupResult :=
  let staticMatch := staticLookup name value
  if staticMatch.any (·.valueMatches) then staticMatch
  else dynamicLookupFrom name value canBlock t.ackedInsertsCnt t.dynamic staticMatch

/-! ### Inserts -/

def insertPossible (size : ℕ) : Bool :=
  size ≤ t.capacity && t.canEvictTo (t.capacity - size)

def newEntry : DynamicTableEntry :=
  { base := t.base, name := name, value := value }

/-- Insert a new entry. -/
def insert : HeaderTable × Res ℕ :=
  let entry := t.newEntry name value
  if entry.size > t.capacity then (t, .error .dynamicTableFull)
  else
    match t.evictTo (t.capacity - entry.size) with
    | (t, false) => (t, .error .dynamicTableFull)
    | (t, true) =>
      ({ t with base := t.base + 1, used := t.used + entry.size, dynamic := entry :: t.dynamic },
        .ok entry.base)

/-- Insert a new entry whose name is that of another one. -/
def insertWithNameRef (nameStaticTable : Bool) (nameIndex : ℕ)
    (value : Bytes) : HeaderTable × Res ℕ :=
  let name :=
    if nameStaticTable then (getStatic nameIndex).map (·.name)
    else (t.getDynamic nameIndex t.base false).map (·.name)
  match name with
  | .error e => (t, .error e)
  | .ok name => t.insert name value

/-- Duplicate an entry. -/
def duplicate : HeaderTable × Res ℕ :=
  match t.getDynamic index t.base false with
  | .error e => (t, .error e)
  | .ok entry => t.insert entry.name entry.value

/-- Increment the number of acknowledged entries. -/
def incrementAcked (increment : ℕ) : HeaderTable × Res Unit :=
  let acked := t.ackedInsertsCnt + increment
  if acked ≥ 2 ^ 64 then (t, .error .incrementAck)
  else if t.base < acked then (t, .error .incrementAck)
  else ({ t with ackedInsertsCnt := acked }, .ok ())

end HeaderTable

/-!
## Header blocks

A header block starts with the number of inserts that it requires and the base that indices are
relative to. Then there is a field line for each header.
-/

open Prefix

/-- A header field. -/
structure Header where
  name : String
  value : Bytes
  deriving DecidableEq, Repr

def Header.size (h : Header) : ℕ :=
  (asBytes h.name).length + h.value.length + additionalTableEntrySize

/-! ### Encoding -/

/-- A header block that is being encoded. -/
structure HeaderEncoder where
  buf : Bytes := []
  base : ℕ
  useHuffman : Bool
  maxEntries : ℕ
  maxDynamicIndexRef : Option ℕ := none
  deriving DecidableEq, Repr

namespace HeaderEncoder

def new (base : ℕ) (useHuffman : Bool) (maxEntries : ℕ) : HeaderEncoder :=
  { base := base, useHuffman := useHuffman, maxEntries := maxEntries }

variable (e : HeaderEncoder)

def append (bytes : Bytes) : HeaderEncoder :=
  { e with buf := e.buf ++ bytes }

def encodeIndexedStatic (index : ℕ) : HeaderEncoder :=
  e.append (headerFieldIndexStatic.encodePrefixedEncodedInt index)

def newRef (index : ℕ) : HeaderEncoder :=
  match e.maxDynamicIndexRef with
  | some r => if r < index then { e with maxDynamicIndexRef := some index } else e
  | none => { e with maxDynamicIndexRef := some index }

def encodeIndexedDynamic (index : ℕ) : HeaderEncoder :=
  (if index < e.base then
    e.append (headerFieldIndexDynamic.encodePrefixedEncodedInt (e.base - index - 1))
  else
    e.append (headerFieldIndexDynamicPost.encodePrefixedEncodedInt (index - e.base))).newRef
      index

def encodeLiteralWithNameRef (isStatic : Bool) (index : ℕ) (value : Bytes) : HeaderEncoder :=
  let e :=
    if isStatic then
      e.append (headerFieldLiteralNameRefStatic.encodePrefixedEncodedInt index)
    else if index < e.base then
      (e.append (headerFieldLiteralNameRefDynamic.encodePrefixedEncodedInt
        (e.base - index - 1))).newRef index
    else
      (e.append (headerFieldLiteralNameRefDynamicPost.encodePrefixedEncodedInt
        (index - e.base))).newRef index
  e.append (encodeLiteral e.useHuffman noPrefix value noPrefix_len_le)

def encodeLiteralWithNameLiteral (name value : Bytes) : HeaderEncoder :=
  (e.append (encodeLiteral e.useHuffman headerFieldLiteralNameLiteral name)).append
    (encodeLiteral e.useHuffman noPrefix value noPrefix_len_le)

/-- Put the required insert count and the base in front. -/
def withPrefix (encInsertCnt delta : ℕ) (p : Prefix) : HeaderEncoder :=
  { e with
    buf := noPrefix.encodePrefixedEncodedInt encInsertCnt ++
      (p.encodePrefixedEncodedInt delta ++ e.buf) }

/-- The required insert count is sent modulo twice the maximum number of entries, which must not be
zero if the block refers to an entry. -/
def encodeHeaderBlockPrefix : Res HeaderEncoder :=
  match e.maxDynamicIndexRef with
  | none => .ok (e.withPrefix 0 e.base basePrefixPositive)
  | some r =>
    let reqInsertCnt := r + 1
    if 2 * e.maxEntries = 0 then .error .assertion
    else if reqInsertCnt ≤ e.base then
      .ok (e.withPrefix (reqInsertCnt % (2 * e.maxEntries) + 1) (e.base - reqInsertCnt)
        basePrefixPositive)
    else
      .ok (e.withPrefix (reqInsertCnt % (2 * e.maxEntries) + 1) (reqInsertCnt - e.base - 1)
        basePrefixNegative)

end HeaderEncoder

/-! ### Decoding -/

/-- A header block that is being decoded. -/
structure HeaderDecoder where
  buf : ReceiverBufferWrapper
  base : ℕ := 0
  reqInsertCnt : ℕ := 0
  deriving DecidableEq, Repr

/-- The headers, or what they wait for. -/
inductive HeaderDecoderResult where
  | blocked (reqInsertCnt : ℕ)
  | headers (h : List Header)
  deriving DecidableEq, Repr

namespace HeaderDecoder

open ReceiverBufferWrapper

/-- Find the required insert count that was sent as `encoded`: the one that is close to the number
of inserts. -/
def calcReqInsertCnt (encoded maxEntries totalNumOfInserts : ℕ) : Res ℕ :=
  if encoded = 0 then .ok 0
  else if maxEntries = 0 then .error .decompression
  else
    let fullRange := 2 * maxEntries
    if encoded > fullRange then .error .decompression
    else
      let maxValue := totalNumOfInserts + maxEntries
      let maxWrapped := maxValue / fullRange * fullRange
      let reqInsertCnt := maxWrapped + encoded - 1
      if reqInsertCnt > maxValue ∧ reqInsertCnt < fullRange then .error .decompression
      else
        let reqInsertCnt := if reqInsertCnt > maxValue then reqInsertCnt - fullRange
          else reqInsertCnt
        if reqInsertCnt = 0 then .error .decompression else .ok reqInsertCnt

def peek (buf : ReceiverBufferWrapper) : Res UInt8 :=
  match buf with
  | [] => .error .decompression
  | b :: _ => .ok b

variable (d : HeaderDecoder)

def readBase (maxEntries totalNumOfInserts : ℕ) : Res HeaderDecoder := do
  let (insertCnt, buf) ← readPrefixedInt d.buf 0
  let reqInsertCnt ← calcReqInsertCnt insertCnt maxEntries totalNumOfInserts
  let s ← peek buf
  let (baseDelta, buf) ← readPrefixedInt buf 1
  if s.toNat &&& 0x80 ≠ 0 then
    if reqInsertCnt ≤ baseDelta then throw .decompression
    return { buf := buf, base := reqInsertCnt - baseDelta - 1, reqInsertCnt := reqInsertCnt }
  else
    if reqInsertCnt + baseDelta ≥ 2 ^ 64 then throw .decompression
    return { buf := buf, base := reqInsertCnt + baseDelta, reqInsertCnt := reqInsertCnt }

variable (table : HeaderTable)

/-- Resolve a reference to the dynamic table. One at or above the required insert count is an
error, even if the entry is there. -/
def dynamicEntry (index : ℕ) (post : Bool) : Res DynamicTableEntry := do
  let entry ← table.getDynamic index d.base post
  if entry.base ≥ d.reqInsertCnt then throw .decompression
  return entry

/-- A field line that is an index of an entry. -/
def readIndexed (p : Prefix) (get : ℕ → Res (Bytes × Bytes)) : Res (Header × HeaderDecoder) := do
  let (index, buf) ← readPrefixedInt d.buf p.len
  let (name, value) ← get index
  let name ← parseUtf8 name
  return (⟨name, value⟩, { d with buf := buf })

def readIndexedStatic : Res (Header × HeaderDecoder) :=
  d.readIndexed headerFieldIndexStatic fun index =>
    (HeaderTable.getStatic index).map fun e => (e.name, e.value)

def readIndexedDynamic : Res (Header × HeaderDecoder) :=
  d.readIndexed headerFieldIndexDynamic fun index =>
    (d.dynamicEntry table index false).map fun e => (e.name, e.value)

def readIndexedDynamicPost : Res (Header × HeaderDecoder) :=
  d.readIndexed headerFieldIndexDynamicPost fun index =>
    (d.dynamicEntry table index true).map fun e => (e.name, e.value)

/-- A field line that is an index of an entry with the name, and a literal value. -/
def readLiteralWithNameRef (p : Prefix) (get : ℕ → Res Bytes) : Res (Header × HeaderDecoder) := do
  let (index, buf) ← readPrefixedInt d.buf p.len
  let name ← get index
  let name ← parseUtf8 name
  let (value, buf) ← readLiteralFromBuffer buf 0
  return (⟨name, value⟩, { d with buf := buf })

def readLiteralWithNameRefStatic : Res (Header × HeaderDecoder) :=
  d.readLiteralWithNameRef headerFieldLiteralNameRefStatic fun index =>
    (HeaderTable.getStatic index).map (·.name)

def readLiteralWithNameRefDynamic : Res (Header × HeaderDecoder) :=
  d.readLiteralWithNameRef headerFieldLiteralNameRefDynamic fun index =>
    (d.dynamicEntry table index false).map (·.name)

def readLiteralWithNameRefDynamicPost : Res (Header × HeaderDecoder) :=
  d.readLiteralWithNameRef headerFieldLiteralNameRefDynamicPost fun index =>
    (d.dynamicEntry table index true).map (·.name)

def readLiteralWithNameLiteral : Res (Header × HeaderDecoder) := do
  let (nameBytes, buf) ← readLiteralFromBuffer d.buf headerFieldLiteralNameLiteral.len
  let name ← parseUtf8 nameBytes
  let (value, buf) ← readLiteralFromBuffer buf 0
  return (⟨name, value⟩, { d with buf := buf })

/-- Read a field line; its first byte says of which kind it is. -/
def readField (b : UInt8) : Res (Header × HeaderDecoder) :=
  if headerFieldIndexStatic.cmpPrefix b then d.readIndexedStatic
  else if headerFieldIndexDynamic.cmpPrefix b then d.readIndexedDynamic table
  else if headerFieldIndexDynamicPost.cmpPrefix b then d.readIndexedDynamicPost table
  else if headerFieldLiteralNameRefStatic.cmpPrefix b then d.readLiteralWithNameRefStatic
  else if headerFieldLiteralNameRefDynamic.cmpPrefix b then
    d.readLiteralWithNameRefDynamic table
  else if headerFieldLiteralNameLiteral.cmpPrefix b then d.readLiteralWithNameLiteral
  else if headerFieldLiteralNameRefDynamicPost.cmpPrefix b then
    d.readLiteralWithNameRefDynamicPost table
  -- Unreachable: all prefixes are covered.
  else .error .assertion

/-- Read field lines until the block is done; each takes at least a byte. -/
def readFields (table : HeaderTable) : ℕ → HeaderDecoder → ℕ → List Header → Res (List Header)
  | 0, _, _, h => .ok h
  | fuel + 1, d, remaining, h =>
    match d.buf with
    | [] => .ok h
    | b :: _ => do
      let (header, d) ← Error.mapError (d.readField table b) .decompression
      if header.size > remaining then throw .decompression
      readFields table fuel d (remaining - header.size) (h ++ [header])

/-- Decode a header block, or report that it is blocked. -/
def decodeHeaderBlock (maxEntries totalNumOfInserts : ℕ) :
    Res (HeaderDecoder × HeaderDecoderResult) := do
  let d ← Error.mapError (d.readBase maxEntries totalNumOfInserts) .decompression
  if table.base < d.reqInsertCnt then return (d, .blocked d.reqInsertCnt)
  let h ← readFields table d.buf.length d LiteralReader.maxLen []
  return (d, .headers h)

end HeaderDecoder

end Neqo.Qpack
