import Neqo.RecvStream.Equiv.Orderer.InboundFrame

/-!
# Correctness of `RxStreamOrderer.bytesReady` and `RxStreamOrderer.read`

Both walk the ranges from the first one on while these are contiguous. `Ahead` says what is left
of the walk: the ranges that end after the current offset.
-/

namespace Neqo

namespace RxStreamOrderer

open List OrdMap

/-- The list `l` holds, in order, the ranges of `m` that end after `pos`. -/
structure Ahead (m : OrdMap ℕ Bytes) (pos : ℕ) (l : List (ℕ × Bytes)) : Prop where
  apart : l.Pairwise (fun a b => a.1 + a.2.length ≤ b.1)
  mem : ∀ e ∈ l, m.Mem e.1 e.2 ∧ 0 < e.2.length ∧ pos < e.1 + e.2.length
  rest : ∀ k v, m.Mem k v → (k, v) ∈ l ∨ k + v.length ≤ pos ∧ ∀ e ∈ l, k < e.1

lemma WF.ahead {o : RxStreamOrderer} (h : o.WF) :
    Ahead o.dataRanges o.retired o.dataRanges.entries where
  apart := o.dataRanges.sorted.imp_of_mem fun ha hb hlt => h.sep _ _ _ _ ha hb hlt
  mem e he := ⟨he, h.pos e.1 e.2 he, h.above e.1 e.2 he⟩
  rest _ _ hk := Or.inl hk

section Ahead

variable {m : OrdMap ℕ Bytes} {pos start : ℕ} {data : Bytes}
  {l : List (ℕ × Bytes)}

lemma Ahead.not_covers (h : Ahead m pos l) (hlt : ∀ e ∈ l, pos < e.1) : ¬ m.Covers pos := by
  rintro ⟨k, v, hm, hk, hx⟩
  rcases h.rest k v hm with hin | ⟨hend, -⟩
  · exact not_lt.mpr hk (hlt _ hin)
  · omega

section

variable (h : Ahead m pos ((start, data) :: l))

include h

lemma Ahead.head : m.Mem start data ∧ 0 < data.length ∧ pos < start + data.length :=
  h.mem _ mem_cons_self

lemma Ahead.end_le {e : ℕ × Bytes} (he : e ∈ l) : start + data.length ≤ e.1 :=
  (pairwise_cons.mp h.apart).1 e he

lemma Ahead.not_covers_of_lt (hlt : pos < start) : ¬ m.Covers pos := by
  refine h.not_covers (forall_mem_cons.mpr ⟨hlt, fun e he => ?_⟩)
  have := h.end_le he
  omega

lemma Ahead.tail : Ahead m (start + data.length) l := by
  have hhead := h.head
  refine ⟨(pairwise_cons.mp h.apart).2, fun e he => ?_, fun k v hk => ?_⟩
  · obtain ⟨hm, hpos, -⟩ := h.mem e (mem_cons_of_mem _ he)
    have := h.end_le he
    exact ⟨hm, hpos, by omega⟩
  · rcases h.rest k v hk with hin | ⟨hend, hlt⟩
    · rcases mem_cons.mp hin with heq | hin
      · cases heq
        refine .inr ⟨le_rfl, fun e he => ?_⟩
        have := h.end_le he
        omega
      · exact .inl hin
    · exact .inr ⟨by omega, fun e he => hlt e (mem_cons_of_mem _ he)⟩

lemma Ahead.advance {pos' : ℕ} (hle : pos ≤ pos') (hlt : pos' < start + data.length) :
    Ahead m pos' ((start, data) :: l) := by
  refine ⟨h.apart, fun e he => ⟨(h.mem e he).1, (h.mem e he).2.1, ?_⟩, fun k v hk =>
    (h.rest k v hk).imp_right fun hrest => ⟨hrest.1.trans hle, hrest.2⟩⟩
  rcases mem_cons.mp he with rfl | he
  · exact hlt
  · have := h.end_le he
    omega

/-- Keeping the ranges from the first one ahead on keeps those that are ahead. -/
lemma Ahead.mem_splitFrom {k : ℕ} {v : Bytes} :
    (m.splitFrom start).Mem k v ↔ m.Mem k v ∧ pos < k + v.length := by
  rw [OrdMap.mem_splitFrom, and_comm]
  refine and_congr_right fun hk => ?_
  rcases h.rest k v hk with hin | ⟨hend, hlt⟩
  · refine iff_of_true ?_ (h.mem _ hin).2.2
    rcases mem_cons.mp hin with heq | hin
    · cases heq
      exact le_rfl
    · exact (Nat.le_add_right _ _).trans (h.end_le hin)
  · exact iff_of_false (not_le.mpr (hlt _ mem_cons_self)) (not_lt.mpr hend)

end

end Ahead

/-! ### `bytesReady` -/

lemma readyLoop_spec {m : OrdMap ℕ Bytes} (retired : ℕ) (l : List (ℕ × Bytes)) (prevEnd : ℕ)
    (h : Ahead m prevEnd l) (hret : ∀ e ∈ l, prevEnd = retired ∨ (retired ≤ e.1 ∧ prevEnd ≤ e.1)) :
    (∀ x, prevEnd ≤ x → x < prevEnd + readyLoop retired prevEnd l → m.Covers x) ∧
      ¬ m.Covers (prevEnd + readyLoop retired prevEnd l) := by
  induction l generalizing prevEnd with
  | nil =>
    refine ⟨fun x h1 h2 => ?_, h.not_covers nofun⟩
    simp only [readyLoop] at h2
    omega
  | cons e rest ih =>
    obtain ⟨start, data⟩ := e
    obtain ⟨hm, hpos, hlt⟩ := h.head
    have hfst := hret _ (mem_cons_self ..)
    dsimp only at hfst
    unfold readyLoop
    dsimp only
    split_ifs with hle
    · -- the range is contiguous with what precedes it
      have hend : prevEnd + (data.length - (retired - start)) = start + data.length := by omega
      obtain ⟨ih1, ih2⟩ := ih _ (hend ▸ h.tail) (fun e he => by
        have := h.end_le he
        right
        omega)
      rw [← add_assoc]
      refine ⟨fun x h1 h2 => ?_, ih2⟩
      by_cases hx : x < start + data.length
      · exact ⟨start, data, hm, by omega, hx⟩
      · exact ih1 x (by omega) h2
    · refine ⟨fun x h1 h2 => by omega, ?_⟩
      exact h.not_covers_of_lt (by omega)

variable {o : RxStreamOrderer}

/-- **`bytesReady`** is the length of the maximal run of bytes that starts at `retired`. -/
theorem bytesReady_spec (h : o.WF) :
    (∀ x, o.retired ≤ x → x < o.retired + o.bytesReady → o.dataRanges.Covers x) ∧
      ¬ o.dataRanges.Covers (o.retired + o.bytesReady) :=
  readyLoop_spec o.retired o.dataRanges.entries o.retired h.ahead fun _ _ => Or.inl rfl

lemma not_covers_of_buffered_eq_zero (h : o.WF) (hzero : o.buffered = 0) (x : ℕ) :
    ¬ o.dataRanges.Covers x := by
  rintro ⟨k, v, hm, _⟩
  have hlen : v.length - (o.retired - k) = 0 :=
    List.sum_eq_zero_iff_forall_eq_nat.mp hzero _ (List.mem_map_of_mem hm)
  have habove := h.above k v hm
  omega

/-! ### `read` -/

/-- What reading does: it returns the bytes `out` from `retired` on and forgets nothing beyond
them. -/
structure ReadFrom (o o' : RxStreamOrderer) (space : ℕ) (out : Bytes) : Prop where
  wf : o'.WF
  retired : o'.retired = o.retired + out.length
  bytes : ∀ (i : ℕ) b, out[i]? = some b → o.dataRanges.Holds (o.retired + i) b
  subset : ∀ k v, o'.dataRanges.Mem k v → o.dataRanges.Mem k v
  covers : ∀ x, o'.retired ≤ x → (o'.dataRanges.Covers x ↔ o.dataRanges.Covers x)
  le_space : out.length ≤ space
  full : out.length < space → ¬ o.dataRanges.Covers o'.retired

/-- What the loop of `read` relies on; `WF` without the demand that every range ends after
`retired`, as those that are read are removed at the end only. -/
structure Reading (o : RxStreamOrderer) (l : List (ℕ × Bytes)) : Prop where
  sep : o.dataRanges.Separate
  pos : ∀ k v, o.dataRanges.Mem k v → 0 < v.length
  ahead : Ahead o.dataRanges o.retired l
  le_endOff : ∀ k v, o.dataRanges.Mem k v → k + v.length ≤ o.endOff
  endOff : o.endOff = o.retired ∨ ∃ k v, o.dataRanges.Mem k v ∧ k + v.length = o.endOff

lemma WF.reading (h : o.WF) : Reading o o.dataRanges.entries :=
  ⟨h.sep, h.pos, h.ahead, h.le_endOff, h.endOff⟩

section Reading

variable {o : RxStreamOrderer} {start : ℕ} {data : Bytes} {l : List (ℕ × Bytes)}

lemma Reading.done (h : Reading o []) (space : ℕ) :
    ReadFrom o { o with dataRanges := OrdMap.empty, endOff := o.retired } space [] := by
  refine ⟨wf_of_empty not_mem_empty rfl, rfl, nofun, fun k v hk => absurd hk (not_mem_empty k v),
    fun x hx => iff_of_false (not_covers_empty x) ?_, Nat.zero_le _,
    fun _ => h.ahead.not_covers nofun⟩
  rintro ⟨k, v, hk, -, hlt⟩
  exact not_lt.mpr (((h.ahead.rest k v hk).resolve_left nofun).1.trans hx) hlt

/-- Stopping at the first range ahead, which is kept: `retired` moves by what was copied of it. -/
lemma Reading.stop (h : Reading o ((start, data) :: l)) (space : ℕ) (out : Bytes)
    (hlt : o.retired + out.length < start + data.length)
    (hbytes : ∀ (i : ℕ) b, out[i]? = some b → o.dataRanges.Holds (o.retired + i) b)
    (hle : out.length ≤ space)
    (hfull : out.length < space → ¬ o.dataRanges.Covers (o.retired + out.length)) :
    ReadFrom o { o with
      retired := o.retired + out.length, dataRanges := o.dataRanges.splitFrom start } space
        out := by
  have hahead := h.ahead.advance (Nat.le_add_right o.retired out.length) hlt
  have hmem : ∀ k v, (o.dataRanges.splitFrom start).Mem k v ↔
      o.dataRanges.Mem k v ∧ o.retired + out.length < k + v.length :=
    fun k v => hahead.mem_splitFrom
  obtain ⟨hm, -⟩ := h.ahead.head
  refine ⟨⟨?_, ?_, ?_, ?_, Or.inr ?_⟩, rfl, hbytes, ?_, ?_, hle, hfull⟩
  · exact h.sep.of_subset fun k v hk => ((hmem k v).mp hk).1
  · exact fun k v hk => h.pos k v ((hmem k v).mp hk).1
  · exact fun k v hk => ((hmem k v).mp hk).2
  · exact fun k v hk => h.le_endOff k v ((hmem k v).mp hk).1
  · -- the range that ends last ends after everything that has been read
    have hend := h.le_endOff start data hm
    rcases h.endOff with h1 | ⟨k, v, hk, hkv⟩
    · omega
    · exact ⟨k, v, (hmem k v).mpr ⟨hk, by omega⟩, hkv⟩
  · exact fun k v hk => ((hmem k v).mp hk).1
  · intro x hx
    dsimp only at hx ⊢
    constructor
    · rintro ⟨k, v, hk, h1, h2⟩
      exact ⟨k, v, ((hmem k v).mp hk).1, h1, h2⟩
    · rintro ⟨k, v, hk, h1, h2⟩
      exact ⟨k, v, (hmem k v).mpr ⟨hk, by omega⟩, h1, h2⟩

lemma Reading.piece (h : Reading o ((start, data) :: l)) (hle : start ≤ o.retired) (n : ℕ) :
    ∀ (i : ℕ) b, ((data.drop (o.retired - start)).take n)[i]? = some b →
      o.dataRanges.Holds (o.retired + i) b := by
  intro i b hb
  obtain ⟨hm, -⟩ := h.ahead.head
  have hlt := (List.getElem?_eq_some_iff.mp hb).1
  rw [length_take] at hlt
  rw [List.getElem?_take_of_lt (by omega), List.getElem?_drop] at hb
  refine ⟨start, data, hm, by omega, ?_⟩
  rw [← hb]
  congr 1
  omega

lemma Reading.next (h : Reading o ((start, data) :: l)) (hle : start ≤ o.retired) :
    Reading { o with retired := o.retired + (data.length - (o.retired - start)) } l := by
  obtain ⟨hm, -, hlt⟩ := h.ahead.head
  have hend : o.retired + (data.length - (o.retired - start)) = start + data.length := by omega
  rw [hend]
  refine ⟨h.sep, h.pos, h.ahead.tail, h.le_endOff, ?_⟩
  have h1 := h.le_endOff start data hm
  rcases h.endOff with h2 | h2
  · omega
  · exact Or.inr h2

end Reading

/-- **The loop of `read`**, by induction on the ranges ahead. -/
theorem readLoop_spec (bufLen : ℕ) (l : List (ℕ × Bytes)) (o : RxStreamOrderer)
    (copied : Bytes) (h : Reading o l) (hcopied : copied.length ≤ bufLen) :
    ∃ out, (readLoop bufLen l o copied).2 = copied ++ out ∧
      ReadFrom o (readLoop bufLen l o copied).1 (bufLen - copied.length) out := by
  induction l generalizing o copied with
  | nil => exact ⟨[], (append_nil copied).symm, h.done _⟩
  | cons e rest ih =>
    obtain ⟨start, data⟩ := e
    obtain ⟨hm, -, hlt⟩ := h.ahead.head
    unfold readLoop
    dsimp only
    split_ifs with hle hkeep
    · -- the buffer is full before the end of the range
      set out := (data.drop (o.retired - start)).take (bufLen - copied.length) with hout
      have hlen : out.length = bufLen - copied.length := by
        rw [length_take, length_drop]
        omega
      refine ⟨out, rfl, ?_⟩
      have hstop := h.stop (bufLen - copied.length) out (by omega)
        (h.piece hle _) (by omega) (fun hlt => by omega)
      rw [hlen] at hstop
      exact hstop
    · -- the rest of the range fits
      set piece := (data.drop (o.retired - start)).take (data.length - (o.retired - start))
        with hpiece
      have hlen : piece.length = data.length - (o.retired - start) := by
        rw [length_take, length_drop]
        omega
      have hnext := h.next hle
      obtain ⟨out, hout, hread⟩ := ih _ (copied ++ piece) hnext
        (by rw [length_append]; omega)
      refine ⟨piece ++ out, ?_, ?_⟩
      · rw [hout, append_assoc]
      · refine ⟨hread.wf, ?_, fun i b hb => ?_, hread.subset, hread.covers, ?_, ?_⟩
        · rw [hread.retired, length_append]
          dsimp only
          omega
        · by_cases hi : i < piece.length
          · rw [getElem?_append_left hi] at hb
            exact h.piece hle _ i b hb
          · rw [getElem?_append_right (by omega)] at hb
            have := hread.bytes _ b hb
            have heq : o.retired + (data.length - (o.retired - start)) + (i - piece.length) =
                o.retired + i := by omega
            rw [heq] at this
            exact this
        · have := hread.le_space
          rw [length_append] at this ⊢
          omega
        · intro hfull
          apply hread.full
          rw [length_append] at hfull ⊢
          omega
    · -- the range is not contiguous
      refine ⟨[], (append_nil copied).symm, ?_⟩
      exact h.stop _ [] (by omega)
        nofun (Nat.zero_le _) (fun _ => h.ahead.not_covers_of_lt (by omega))

/-- **`read`** returns the bytes from `retired` on, as many as are contiguous and fit. -/
theorem read_spec (h : o.WF) (bufLen : ℕ) :
    ReadFrom o (o.read bufLen).1 bufLen (o.read bufLen).2 := by
  obtain ⟨out, hout, hread⟩ := readLoop_spec bufLen o.dataRanges.entries o [] h.reading
    (Nat.zero_le _)
  unfold read
  rw [hout]
  exact hread

/-!
## `RxStreamOrderer` reassembles a byte string

`Run S` is the history of an orderer that is fed pieces of one byte string `S`, in any order, and
read from in between. In every such run the bytes that were read are the beginning of `S`, what is
stored is `S` where some frame has brought it, and `bytesReady` is the length of the run of bytes
that can be read next (`Run.agrees`).
-/

/-- The `len` bytes of `S` from offset `off` on. -/
def slice (S : ℕ → UInt8) (off len : ℕ) : Bytes := (range len).map fun i => S (off + i)

@[simp] lemma length_slice (S : ℕ → UInt8) (off len : ℕ) : (slice S off len).length = len := by
  simp [slice]

lemma getElem?_slice {S : ℕ → UInt8} {off len i : ℕ} {b : UInt8}
    (h : (slice S off len)[i]? = some b) : b = S (off + i) := by
  have hlt := (List.getElem?_eq_some_iff.mp h).1
  rw [length_slice] at hlt
  simp only [slice, List.getElem?_map, List.getElem?_range hlt, Option.map_some,
    Option.some.injEq] at h
  exact h.symm

lemma slice_append (S : ℕ → UInt8) (off m n : ℕ) :
    slice S off m ++ slice S (off + m) n = slice S off (m + n) := by
  simp only [slice, range_add, map_append, map_map, append_cancel_left_eq]
  apply map_congr_left
  intro i _
  simp only [Function.comp, add_assoc]

lemma eq_slice {S : ℕ → UInt8} {off : ℕ} {l : Bytes}
    (h : ∀ (i : ℕ) b, l[i]? = some b → b = S (off + i)) : l = slice S off l.length := by
  apply ext_getElem?
  intro i
  by_cases hi : i < l.length
  · have h1 := h i l[i] (getElem?_eq_getElem hi)
    have hi' : i < (slice S off l.length).length := by rw [length_slice]; exact hi
    have h2 := getElem?_slice (getElem?_eq_getElem hi')
    rw [getElem?_eq_getElem hi, getElem?_eq_getElem hi', h1, h2]
  · rw [getElem?_eq_none (by omega), getElem?_eq_none (by rw [length_slice]; omega)]

/-- The runs of an orderer on pieces of `S`: the orderer, the bytes returned by reads so far, and
the frames received so far as pairs of offset and length. -/
inductive Run (S : ℕ → UInt8) : RxStreamOrderer → Bytes → List (ℕ × ℕ) → Prop
  | new : Run S {} [] []
  | inboundFrame {o : RxStreamOrderer} {out : Bytes} {frames : List (ℕ × ℕ)} (off len : ℕ)
      (h : Run S o out frames) (hok : (o.inboundFrame off (slice S off len)).2 = .ok ()) :
      Run S (o.inboundFrame off (slice S off len)).1 out (frames ++ [(off, len)])
  | read {o : RxStreamOrderer} {out : Bytes} {frames : List (ℕ × ℕ)} (bufLen : ℕ)
      (h : Run S o out frames) : Run S (o.read bufLen).1 (out ++ (o.read bufLen).2) frames
  | readToEnd {o : RxStreamOrderer} {out : Bytes} {frames : List (ℕ × ℕ)}
      (h : Run S o out frames) : Run S o.readToEnd.1 (out ++ o.readToEnd.2) frames

/-- Some frame covers offset `x`. -/
def FrameCovers (frames : List (ℕ × ℕ)) (x : ℕ) : Prop := ∃ f ∈ frames, f.1 ≤ x ∧ x < f.1 + f.2

/-- From `retired` on, what is stored is what the frames have brought. -/
structure Follows (o : RxStreamOrderer) (frames : List (ℕ × ℕ)) : Prop where
  wf : o.WF
  covers : ∀ x, o.retired ≤ x → (o.dataRanges.Covers x ↔ FrameCovers frames x)

/-- The state of a run: what has been read and what is stored agree with `S` and the frames. -/
structure Agrees (S : ℕ → UInt8) (o : RxStreamOrderer) (out : Bytes)
    (frames : List (ℕ × ℕ)) : Prop extends Follows o frames where
  out : out = slice S 0 o.retired
  holds : ∀ x b, o.dataRanges.Holds x b → b = S x

lemma wf_new : WF {} := wf_of_empty not_mem_empty rfl

variable {S : ℕ → UInt8} {o : RxStreamOrderer} {out : Bytes} {frames : List (ℕ × ℕ)}

lemma follows_new : Follows {} [] := by
  refine ⟨wf_new, fun x _ => iff_of_false (not_covers_empty x) ?_⟩
  rintro ⟨f, hf, _⟩
  cases hf

lemma Follows.inboundFrame (h : Follows o frames) (off : ℕ) (data : Bytes) :
    Follows (o.inboundFrame off data).1 (frames ++ [(off, data.length)]) := by
  have hspec := inboundFrame_spec h.wf off data
  refine ⟨hspec.wf, fun x hx => ?_⟩
  rw [hspec.retired] at hx
  rw [hspec.covers, h.covers x hx]
  constructor
  · rintro (⟨f, hf, h1⟩ | ⟨_, h1⟩)
    · exact ⟨f, mem_append_left _ hf, h1⟩
    · exact ⟨(off, data.length), mem_append_right _ (mem_singleton_self _), h1⟩
  · rintro ⟨f, hf, h1⟩
    rcases mem_append.mp hf with h2 | h2
    · exact Or.inl ⟨f, h2, h1⟩
    · rw [mem_singleton.mp h2] at h1
      exact Or.inr ⟨hx, h1⟩

lemma Follows.read (h : Follows o frames) (bufLen : ℕ) : Follows (o.read bufLen).1 frames := by
  have hspec := read_spec h.wf bufLen
  refine ⟨hspec.wf, fun x hx => ?_⟩
  rw [hspec.covers x hx]
  have := hspec.retired
  exact h.covers x (by omega)

lemma Agrees.inboundFrame (h : Agrees S o out frames) (off len : ℕ) :
    Agrees S (o.inboundFrame off (slice S off len)).1 out (frames ++ [(off, len)]) := by
  have hspec := inboundFrame_spec h.wf off (slice S off len)
  have hfollows := h.toFollows.inboundFrame off (slice S off len)
  rw [length_slice] at hfollows
  refine ⟨hfollows, ?_, fun x b hb => ?_⟩
  · rw [hspec.retired]
    exact h.out
  · rcases hspec.holds x b hb with h1 | ⟨h1, h2⟩
    · exact h.holds x b h1
    · rw [getElem?_slice h2]
      congr 1
      omega

lemma Agrees.read (h : Agrees S o out frames) (bufLen : ℕ) :
    Agrees S (o.read bufLen).1 (out ++ (o.read bufLen).2) frames := by
  have hspec := read_spec h.wf bufLen
  have hslice : (o.read bufLen).2 = slice S o.retired (o.read bufLen).2.length :=
    eq_slice fun i b hb => h.holds _ b (hspec.bytes i b hb)
  refine ⟨h.toFollows.read bufLen, ?_, fun x b hb => ?_⟩
  · rw [hspec.retired, hslice, h.out, length_slice]
    have hcat := slice_append S 0 o.retired (o.read bufLen).2.length
    rw [zero_add] at hcat
    exact hcat
  · obtain ⟨k, v, hm, h1, h2⟩ := hb
    exact h.holds x b ⟨k, v, hspec.subset k v hm, h1, h2⟩

lemma Run.agrees (h : Run S o out frames) : Agrees S o out frames := by
  induction h with
  | new => exact ⟨follows_new, rfl, fun x b hb => absurd hb.covers (not_covers_empty x)⟩
  | inboundFrame off len _ _ ih => exact ih.inboundFrame off len
  | read bufLen _ ih => exact ih.read bufLen
  | readToEnd _ ih => exact ih.read _

/-- **Reassembly**: in every run on pieces of `S`,

* the bytes returned by reads are the first `retired` bytes of `S`;
* the stored ranges are pairwise disjoint and non-empty, and each byte of a range is the byte of
  `S` at its offset;
* a byte at or after `retired` is stored exactly when some frame has covered it;
* `bytesReady` is the length of the maximal run of received bytes from `retired` on. -/
theorem Run.reassembles (h : Run S o out frames) :
    out = slice S 0 o.retired ∧
    (∀ k v k' v', o.dataRanges.Mem k v → o.dataRanges.Mem k' v' → k < k' → k + v.length ≤ k') ∧
    (∀ k v, o.dataRanges.Mem k v → v ≠ [] ∧ v = slice S k v.length) ∧
    (∀ x, o.retired ≤ x →
      ((∃ k v, o.dataRanges.Mem k v ∧ k ≤ x ∧ x < k + v.length) ↔ FrameCovers frames x)) ∧
    (∀ x, o.retired ≤ x → x < o.retired + o.bytesReady → FrameCovers frames x) ∧
    ¬ FrameCovers frames (o.retired + o.bytesReady) := by
  have ha := h.agrees
  obtain ⟨hready, hmax⟩ := bytesReady_spec ha.wf
  refine ⟨ha.out, ha.wf.sep, fun k v hk => ⟨?_, ?_⟩, ha.covers, fun x h1 h2 => ?_, ?_⟩
  · exact length_pos_iff.mp (ha.wf.pos k v hk)
  · apply eq_slice
    intro i b hb
    apply ha.holds
    refine ⟨k, v, hk, by omega, ?_⟩
    rwa [Nat.add_sub_cancel_left]
  · exact (ha.covers x h1).mp (hready x h1 h2)
  · rw [← ha.covers _ (by omega)]
    exact hmax

/-- Two frames out of order, the second one overlapping the first, and a read in between. -/
theorem reassembles_overlap :
    (((({} : RxStreamOrderer).inboundFrame 3 (slice UInt8.ofNat 3 4)).1.inboundFrame 0
      (slice UInt8.ofNat 0 5)).1.read 6).2 = [0, 1, 2, 3, 4, 5] ∧
    ¬ FrameCovers [(3, 4), (0, 5)] (6 + 1) := by
  have hrun : Run UInt8.ofNat _ _ _ :=
    ((Run.new.inboundFrame 3 4 (by decide)).inboundFrame 0 5 (by decide)).read 6
  refine ⟨by decide, ?_⟩
  exact hrun.reassembles.2.2.2.2.2

/-- **Reads depend on what has arrived**, not on how. A run that has read as much, and in whatever
frames has received at least the same bytes, reads on with the same bytes or more. -/
theorem Run.read_monotone {o' : RxStreamOrderer} {out' : Bytes} {frames' : List (ℕ × ℕ)}
    (h : Run S o out frames) (h' : Run S o' out' frames') (hretired : o.retired = o'.retired)
    (hframes : ∀ x, FrameCovers frames x → FrameCovers frames' x) (bufLen : ℕ) :
    (o.read bufLen).2 <+: (o'.read bufLen).2 := by
  have ha := h.agrees
  have ha' := h'.agrees
  have hread := read_spec ha.wf bufLen
  have hread' := read_spec ha'.wf bufLen
  have hle : (o.read bufLen).2.length ≤ (o'.read bufLen).2.length := by
    by_contra hlt
    -- The other read stops before a byte that has arrived.
    have hbyte := (hread.bytes _ _ (getElem?_eq_getElem (not_le.mp hlt))).covers
    apply hread'.full ((not_le.mp hlt).trans_le hread.le_space)
    rw [hread'.retired, ← hretired, ha'.covers _ (by omega)]
    exact hframes _ ((ha.covers _ (by omega)).mp hbyte)
  rw [eq_slice fun i b hb => ha.holds _ b (hread.bytes i b hb),
    eq_slice fun i b hb => ha'.holds _ b (hread'.bytes i b hb), ← hretired,
    ← Nat.add_sub_of_le hle, ← slice_append]
  exact prefix_append _ _

/-- Two frames that overlap, in the wrong order, instead of one. -/
theorem read_monotone_overlap :
    ((({} : RxStreamOrderer).inboundFrame 0 (slice UInt8.ofNat 0 3)).1.read 9).2 <+:
      (((({} : RxStreamOrderer).inboundFrame 1 (slice UInt8.ofNat 1 3)).1.inboundFrame 0
        (slice UInt8.ofNat 0 2)).1.read 9).2 :=
  (Run.new.inboundFrame 0 3 (by decide)).read_monotone
    ((Run.new.inboundFrame 1 3 (by decide)).inboundFrame 0 2 (by decide)) rfl
    (fun x => by simp [FrameCovers]; omega) 9

end RxStreamOrderer

end Neqo
