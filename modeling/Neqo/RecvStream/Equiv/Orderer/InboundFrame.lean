import Neqo.RecvStream.Basic

/-!
# The invariant of `RxStreamOrderer`

Under the invariant `WF` (disjoint, non-empty ranges that end after `retired`, and an `endOff` that
is the end of the last of them) the orderer is a partial map from offsets to bytes. Discarding what
lies at or beyond an offset that has not been read yet keeps it and leaves nothing there.
-/

namespace Neqo

namespace RxStreamOrderer

open OrdMap

/-- **Well-formedness** of an orderer. -/
structure WF (o : RxStreamOrderer) : Prop where
  sep : o.dataRanges.Separate
  pos : ∀ k v, o.dataRanges.Mem k v → 0 < v.length
  above : ∀ k v, o.dataRanges.Mem k v → o.retired < k + v.length
  le_endOff : ∀ k v, o.dataRanges.Mem k v → k + v.length ≤ o.endOff
  endOff : o.endOff = o.retired ∨ ∃ k v, o.dataRanges.Mem k v ∧ k + v.length = o.endOff

variable {o : RxStreamOrderer}

lemma wf_of_empty (hnone : ∀ k v, ¬ o.dataRanges.Mem k v) (hend : o.endOff = o.retired) : o.WF where
  sep k v _ _ hk := absurd hk (hnone k v)
  pos k v hk := absurd hk (hnone k v)
  above k v hk := absurd hk (hnone k v)
  le_endOff k v hk := absurd hk (hnone k v)
  endOff := .inl hend

lemma WF.lt_endOff (h : o.WF) {x : ℕ} (hx : o.dataRanges.Covers x) : x < o.endOff := by
  obtain ⟨k, v, hm, _, hlt⟩ := hx
  have := h.le_endOff k v hm
  omega

/-! ### `discardAfter` -/

lemma discardAfter_retired (o : RxStreamOrderer) (offset : ℕ) :
    (o.discardAfter offset).retired = o.retired := by
  unfold discardAfter
  dsimp only
  cases (o.dataRanges.splitBelow offset).last? <;> rfl

/-- Below the offset, the last range is cut and the others end before it. -/
lemma WF.cut (h : o.WF) {offset start : ℕ} {data : Bytes} (hlt : o.retired < offset)
    (hlast : (o.dataRanges.splitBelow offset).last? = some (start, data)) {k : ℕ} {v : Bytes}
    (hm : ((o.dataRanges.splitBelow offset).insert start (data.take (offset - start))).Mem k v) :
    0 < v.length ∧ o.retired < k + v.length ∧ k + v.length ≤ offset ∧
      k + v.length ≤ start + (data.take (offset - start)).length := by
  obtain ⟨hstart, hmem⟩ := mem_splitBelow.mp (last?_mem hlast)
  have hpos := h.pos start data hmem
  have habove := h.above start data hmem
  rcases mem_insert.mp hm with ⟨rfl, rfl⟩ | ⟨hne, hk⟩
  · rw [List.length_take]
    omega
  · have hle := le_last? hlast hk
    obtain ⟨_, hk'⟩ := mem_splitBelow.mp hk
    have hend : k + v.length ≤ start := h.sep k v start data hk' hmem (by omega)
    have := h.pos k v hk'
    have := h.above k v hk'
    omega

lemma discardAfter_spec (h : o.WF) {offset : ℕ} (hlt : o.retired < offset) :
    (o.discardAfter offset).WF ∧ ∀ x, (o.discardAfter offset).dataRanges.Covers x → x < offset := by
  have hsub : ∀ k v, (o.dataRanges.splitBelow offset).Mem k v → o.dataRanges.Mem k v :=
    fun k v hk => (mem_splitBelow.mp hk).2
  unfold discardAfter
  dsimp only
  cases hlast : (o.dataRanges.splitBelow offset).last? with
  | none =>
    have hnone := last?_eq_none_iff.mp hlast
    refine ⟨wf_of_empty hnone rfl, ?_⟩
    rintro x ⟨k, v, hk, _⟩
    exact absurd hk (hnone k v)
  | some e =>
    obtain ⟨start, data⟩ := e
    refine ⟨⟨?_, fun k v hk => (h.cut hlt hlast hk).1, fun k v hk => (h.cut hlt hlast hk).2.1,
      fun k v hk => (h.cut hlt hlast hk).2.2.2,
      Or.inr ⟨start, _, mem_insert.mpr (Or.inl ⟨rfl, rfl⟩),
      rfl⟩⟩, ?_⟩
    · -- Every range is the beginning of an old one.
      have hpart : ∀ k v, ((o.dataRanges.splitBelow offset).insert start
          (data.take (offset - start))).Mem k v →
            ∃ u, o.dataRanges.Mem k u ∧ v.length ≤ u.length := by
        intro k v hk
        rcases mem_insert.mp hk with ⟨rfl, rfl⟩ | ⟨-, hk⟩
        · exact ⟨data, hsub _ _ (last?_mem hlast), List.length_take_le' ..⟩
        · exact ⟨v, hsub k v hk, le_rfl⟩
      intro k v k' v' hk hk' hlt'
      obtain ⟨u, hu, hle⟩ := hpart k v hk
      obtain ⟨u', hu', -⟩ := hpart k' v' hk'
      have := h.sep k u k' u' hu hu' hlt'
      omega
    · rintro x ⟨k, v, hk, _, hx⟩
      have := (h.cut hlt hlast hk).2.2.1
      omega

/-!
## Correctness of `RxStreamOrderer.inboundFrame`

A frame is trimmed at the front until it starts in a gap (`placeFrame_spec`), the ranges that it
spans are removed (`Scanned`), and what is left of it is put into the gap, as a range of its own or
as part of a neighbour (`storeFrame_spec`). Each way replaces some ranges by one (`Replaced`) and
adds exactly the bytes of the frame that have not been read (`Received`).
-/

open List OrdMap

variable {o o' : RxStreamOrderer} {start : ℕ} {data : Bytes}

/-! ### Adding data to a gap -/

/-- What a frame adds to an orderer: its bytes that have not been read yet. -/
structure Received (o o' : RxStreamOrderer) (start : ℕ) (data : Bytes) : Prop where
  wf : o'.WF
  retired : o'.retired = o.retired
  holds : ∀ x b, o'.dataRanges.Holds x b →
    o.dataRanges.Holds x b ∨ (start ≤ x ∧ data[x - start]? = some b)
  covers : ∀ x, o'.dataRanges.Covers x ↔
    o.dataRanges.Covers x ∨ (o.retired ≤ x ∧ start ≤ x ∧ x < start + data.length)

lemma Received.of_same (h : o.WF) (hcov : ∀ x, o.retired ≤ x → start ≤ x →
    x < start + data.length → o.dataRanges.Covers x) : Received o o start data where
  wf := h
  retired := rfl
  holds _ _ hb := Or.inl hb
  covers x := ⟨Or.inl, fun hx => hx.elim id fun ⟨h1, h2, h3⟩ => hcov x h1 h2 h3⟩

/-- Ranges are replaced by a range `w`. It holds bytes of the frame and of the ranges it replaces,
and what it leaves out of the frame is held by other ranges. -/
lemma Received.of_replaced {k : ℕ} {w : Bytes} (h : o.WF) (hstart : o.retired ≤ start)
    (hr : Replaced o.dataRanges o'.dataRanges k w) (hw : 0 < w.length) (hdata : 0 < data.length)
    (habove : o.retired < k + w.length)
    (hbytes : ∀ x b, k ≤ x → w[x - k]? = some b →
      o.dataRanges.Holds x b ∨ (start ≤ x ∧ data[x - start]? = some b))
    (hcov : ∀ x, start ≤ x → x < start + data.length →
      o.dataRanges.Covers x ∨ (k ≤ x ∧ x < k + w.length))
    (hret : o'.retired = o.retired)
    (hend : o'.endOff = max o.endOff (start + data.length)) : Received o o' start data := by
  have hcovers : ∀ x, o'.dataRanges.Covers x ↔
      o.dataRanges.Covers x ∨ (o.retired ≤ x ∧ start ≤ x ∧ x < start + data.length) := by
    intro x
    rw [hr.covers]
    constructor
    · rintro (hold | ⟨h1, h2⟩)
      · exact .inl hold
      · obtain ⟨b, hb⟩ := exists_getElem? h1 h2
        exact (hbytes x b h1 hb).imp Holds.covers fun ⟨h3, h4⟩ =>
          ⟨hstart.trans h3, h3, lt_of_getElem? h3 h4⟩
    · rintro (hold | ⟨-, h1, h2⟩)
      · exact .inl hold
      · exact hcov x h1 h2
  have hpos : ∀ j v, o'.dataRanges.Mem j v → 0 < v.length := by
    intro j v hj
    rcases (hr.mem j v).mp hj with ⟨-, rfl⟩ | ⟨hj, -⟩
    · exact hw
    · exact h.pos j v hj
  -- The last byte of a range is in an old range or in the frame.
  have hle : ∀ j v, o'.dataRanges.Mem j v → j + v.length ≤ o'.endOff := by
    intro j v hj
    have := hpos j v hj
    rcases (hcovers (j + v.length - 1)).mp ⟨j, v, hj, by omega, by omega⟩ with hold | hnew
    · have := h.lt_endOff hold
      omega
    · omega
  have hlast : o'.endOff = o'.retired ∨ o'.dataRanges.Covers (o'.endOff - 1) := by
    rw [hcovers]
    by_cases hnew : o.endOff ≤ start + data.length
    · exact .inr (.inr (by omega))
    · rcases h.endOff with heq | ⟨j, v, hj, hjv⟩
      · exact .inl (by omega)
      · have := h.pos j v hj
        exact .inr (.inl ⟨j, v, hj, by omega, by omega⟩)
  refine ⟨⟨hr.separate h.sep hw, hpos, ?_, hle, ?_⟩, hret, ?_, hcovers⟩
  · intro j v hj
    rw [hret]
    rcases (hr.mem j v).mp hj with ⟨rfl, rfl⟩ | ⟨hj, -⟩
    · exact habove
    · exact h.above j v hj
  · refine hlast.imp_right ?_
    rintro ⟨j, v, hj, h1, h2⟩
    have := hle j v hj
    exact ⟨j, v, hj, by omega⟩
  · intro x b hb
    rcases hr.holds hb with hold | ⟨h1, h2⟩
    · exact .inl hold
    · exact hbytes x b h1 h2

/-! ### The ranges that follow -/

/-- What the scan of the ranges `l` finds: the new data is kept up to `E`, where an old range takes
over, and it replaces the ranges that start below `E`. -/
structure Scanned (l : List (ℕ × Bytes)) (lo newEnd E : ℕ) (removed : List ℕ) : Prop where
  lo_le : lo ≤ E
  le_newEnd : E ≤ newEnd
  removed : ∀ k, k ∈ removed ↔ ∃ e ∈ l, e.1 = k ∧ k < E
  ends : ∀ e ∈ l, e.1 < E → e.1 + e.2.length ≤ E
  covered : ∀ x, E ≤ x → x < newEnd → ∃ e ∈ l, e.1 ≤ x ∧ x < e.1 + e.2.length

lemma Scanned.stop {l : List (ℕ × Bytes)} {lo newEnd E : ℕ} (hlo : lo ≤ E) (hle : E ≤ newEnd)
    (hl : ∀ e ∈ l, E ≤ e.1)
    (hcov : ∀ x, E ≤ x → x < newEnd → ∃ e ∈ l, e.1 ≤ x ∧ x < e.1 + e.2.length) :
    Scanned l lo newEnd E [] := by
  refine ⟨hlo, hle, fun k => iff_of_false not_mem_nil ?_, fun e he hlt => ?_, hcov⟩
  · rintro ⟨e, he, rfl, hlt⟩
    exact not_lt.mpr (hl e he) hlt
  · exact absurd hlt (not_lt.mpr (hl e he))

lemma scanFollowing_spec {newEnd : ℕ} (hend : newEnd = start + data.length)
    (l : List (ℕ × Bytes)) (acc : List ℕ)
    (hl : l.Pairwise fun a b => a.1 + a.2.length ≤ b.1) (hpos : ∀ e ∈ l, 0 < e.2.length) {lo : ℕ}
    (hlo : ∀ e ∈ l, lo ≤ e.1) (hstart : start ≤ lo) (hle : lo ≤ newEnd) :
    ∃ E removed, scanFollowing data newEnd l acc = (data.take (E - start), acc ++ removed) ∧
      Scanned l lo newEnd E removed := by
  have htake : data.take (newEnd - start) = data := take_of_length_le (by omega)
  induction l generalizing acc lo with
  | nil =>
    exact ⟨newEnd, [], by rw [htake, append_nil]; rfl, .stop hle le_rfl nofun (by omega)⟩
  | cons e rest ih =>
    obtain ⟨next, nd⟩ := e
    obtain ⟨hfirst, hrest⟩ := pairwise_cons.mp hl
    obtain ⟨hnd, hpos⟩ := forall_mem_cons.mp hpos
    obtain ⟨hnext, -⟩ := forall_mem_cons.mp hlo
    dsimp only at hfirst hnd hnext
    have hstop : ∀ e ∈ (next, nd) :: rest, next ≤ e.1 :=
      forall_mem_cons.mpr ⟨le_rfl, fun e he => by have := hfirst e he; omega⟩
    unfold scanFollowing
    dsimp only
    split_ifs with hov hcov
    · -- The next range starts after the new data.
      exact ⟨newEnd, [], by rw [htake, append_nil],
        .stop hle le_rfl (fun e he => (by omega : newEnd ≤ next).trans (hstop e he)) (by omega)⟩
    · -- The next range reaches the end of the new data, which stops where it starts.
      have hlen : data.length - (newEnd - next) = next - start := by omega
      exact ⟨next, [], by rw [hlen, append_nil], .stop hnext (by omega) hstop
        fun x h1 h2 => ⟨_, mem_cons_self, h1, by dsimp only; omega⟩⟩
    · -- The new data spans the next range.
      obtain ⟨E, removed, heq, hscan⟩ := ih (acc ++ [next]) hrest hpos hfirst (by omega) (by omega)
      have hE := hscan.lo_le
      rw [heq, append_assoc]
      refine ⟨E, next :: removed, rfl, by omega, hscan.le_newEnd, fun k => ?_, ?_, ?_⟩
      · rw [mem_cons, hscan.removed, exists_mem_cons_iff]
        refine or_congr_left ⟨fun hk => ⟨hk.symm, by omega⟩, fun hk => hk.1.symm⟩
      · exact forall_mem_cons.mpr ⟨fun _ => hE, hscan.ends⟩
      · intro x h1 h2
        obtain ⟨e, he, hx⟩ := hscan.covered x h1 h2
        exact ⟨e, mem_cons_of_mem _ he, hx⟩

lemma Scanned.cleared {newEnd E : ℕ} {removed : List ℕ} (h : o.WF)
    (hs : Scanned (o.dataRanges.rangeFrom start) start newEnd E removed)
    (hbefore : ∀ k v, o.dataRanges.Mem k v → k < start → k + v.length ≤ start) :
    Cleared o.dataRanges (o.dataRanges.removeAll removed) start E := by
  have hmem : ∀ k v, o.dataRanges.Mem k v → (k ∈ removed ↔ start ≤ k ∧ k < E) := by
    intro k v hk
    rw [hs.removed]
    constructor
    · rintro ⟨e, he, rfl, hlt⟩
      exact ⟨(mem_rangeFrom.mp he).2, hlt⟩
    · exact fun ⟨hle, hlt⟩ => ⟨(k, v), mem_rangeFrom.mpr ⟨hk, hle⟩, rfl, hlt⟩
  refine ⟨fun k v => ?_, fun k v hk => ?_⟩
  · rw [mem_removeAll, and_comm]
    refine and_congr_right fun hk => ?_
    have := h.pos k v hk
    have := hbefore k v hk
    rw [hmem k v hk]
    omega
  · by_cases hin : start ≤ k ∧ k < E
    · have := hs.ends (k, v) (mem_rangeFrom.mpr ⟨hk, hin.1⟩) hin.2
      exact .inr (.inr ⟨hin.1, this⟩)
    · have := hbefore k v hk
      omega

/-! ### `inboundFrame` -/

lemma WF.last_end (h : o.WF) {k : ℕ} {v : Bytes}
    (hl : o.dataRanges.last? = some (k, v)) : k + v.length = o.endOff := by
  have hm := last?_mem hl
  have habove := h.above k v hm
  have hle := h.le_endOff k v hm
  rcases h.endOff with heq | ⟨k', v', hm', heq⟩
  · omega
  · have := le_last? hl hm'
    rcases h.sep.cases hm hm' with ⟨rfl, rfl⟩ | hcase | hcase <;> omega

lemma appendFrame_spec (h : o.WF) (hret : o.retired ≤ start) (hdata : 0 < data.length)
    (hend : o.endOff ≤ start) : Received o (o.appendFrame start data).1 start data := by
  have hcleared : Cleared o.dataRanges o.dataRanges start (start + data.length) := by
    refine Cleared.of_gap fun k v hk => ?_
    have := h.le_endOff k v hk
    omega
  have hmax : start + data.length = max o.endOff (start + data.length) := by omega
  have hinsert : Received o { o with
      dataRanges := o.dataRanges.insert start data,
      received := o.received + data.length, endOff := start + data.length } start data :=
    .of_replaced h hret (hcleared.insert h.pos rfl (by omega)) hdata hdata (by omega)
      (fun _ _ hx hb => .inr ⟨hx, hb⟩) (fun _ h1 h2 => .inr ⟨h1, h2⟩) rfl hmax
  unfold appendFrame
  cases hl : o.dataRanges.last? with
  | none => exact hinsert
  | some e =>
    obtain ⟨k, v⟩ := e
    dsimp only
    split_ifs with hc
    · have hk := last?_mem hl
      have hkv := h.last_end hl
      have hlen : (v ++ data).length = v.length + data.length := length_append
      refine .of_replaced h hret (hcleared.extend h.sep h.pos rfl hk (by omega)) (by omega) hdata
        (by omega) (fun x b hx hb => ?_) (fun x h1 h2 => .inr (by omega)) rfl hmax
      refine ((getElem?_append_sub hx).mp hb).imp (fun hold => ⟨k, v, hk, hx, hold⟩) ?_
      rw [hkv, hc.1]
      exact id
    · exact hinsert

/-- **`storeFrame`** puts the part of the new data that is kept into its gap. -/
theorem storeFrame_spec {o₁ : RxStreamOrderer} {E : ℕ} (h : o.WF) (hret : o.retired ≤ start)
    (hc : Cleared o.dataRanges o₁.dataRanges start E) (hlt : start < E)
    (hE : E ≤ start + data.length)
    (hcov : ∀ x, E ≤ x → x < start + data.length → o.dataRanges.Covers x)
    (hsame : o₁.retired = o.retired ∧ o₁.endOff = o.endOff) {extend : Option (ℕ × ℕ)}
    (hext : ∀ p n, extend = some (p, n) → ∃ buf, o.dataRanges.Mem p buf ∧ p + buf.length = start) :
    Received o (o₁.storeFrame start (start + data.length) (data.take (E - start)) extend).1
      start data := by
  generalize htoAdd : data.take (E - start) = toAdd
  have hlen : start + toAdd.length = E := by
    rw [← htoAdd, length_take]
    omega
  have hbytes : ∀ x b, start ≤ x → toAdd[x - start]? = some b → data[x - start]? = some b := by
    intro x b hx hb
    have := lt_of_getElem? hx hb
    rwa [← htoAdd, List.getElem?_take_of_lt (by omega)] at hb
  have hend : max o₁.endOff (start + data.length) = max o.endOff (start + data.length) := by
    rw [hsame.2]
  have hkept (x : ℕ) (hx : x < start + data.length) : o.dataRanges.Covers x ∨ x < E :=
    (lt_or_ge x E).symm.imp_left fun hE => hcov x hE hx
  unfold storeFrame
  rw [if_neg (by rw [isEmpty_iff_length_eq_zero]; omega)]
  cases extend with
  | none =>
    exact .of_replaced h hret (hc.insert h.pos hlen hlt) (by omega) (by omega) (by omega)
      (fun x b hx hb => .inr ⟨hx, hbytes x b hx hb⟩)
      (fun x h1 h2 => (hkept x h2).imp_right fun hx => by omega) hsame.1 hend
  | some pe =>
    obtain ⟨p, n⟩ := pe
    obtain ⟨buf, hp, hpend⟩ := hext p n rfl
    have hp₁ : o₁.dataRanges.Mem p buf := (hc.mem p buf).mpr ⟨hp, .inl (by omega)⟩
    -- The range before the gap is extended over the new data and over `next`, which may be empty.
    have hextend : ∀ (o' : RxStreamOrderer) (ranges : OrdMap ℕ Bytes) (next : Bytes),
        Cleared o.dataRanges ranges start (E + next.length) →
        (∀ x b, E ≤ x → next[x - E]? = some b → o.dataRanges.Holds x b) →
        o'.dataRanges = ranges.insert p (buf ++ toAdd ++ next) → o'.retired = o₁.retired →
        o'.endOff = max o₁.endOff (start + data.length) → Received o o' start data := by
      intro o' ranges next hcleared hnext hranges hret' hend'
      have hw : (toAdd ++ next).length = toAdd.length + next.length := length_append
      have hall : (buf ++ (toAdd ++ next)).length = buf.length + (toAdd ++ next).length :=
        length_append
      have hr := hcleared.extend h.sep h.pos (w := toAdd ++ next) (by omega) hp hpend
      rw [← append_assoc, ← hranges, append_assoc] at hr
      refine .of_replaced h hret hr (by omega) (by omega) (by omega) (fun x b hx hb => ?_)
        (fun x h1 h2 => (hkept x h2).imp_right fun hx => by omega) (hret'.trans hsame.1)
        (hend'.trans hend)
      rcases (getElem?_append_sub hx).mp hb with hold | ⟨hx, hb⟩
      · exact .inl ⟨p, buf, hp, hx, hold⟩
      rw [hpend] at hx hb
      rcases (getElem?_append_sub hx).mp hb with hnew | ⟨hx, hb⟩
      · exact .inr ⟨hx, hbytes x b hx hnew⟩
      · rw [hlen] at hx hb
        exact .inl (hnext x b hx hb)
    dsimp only
    rw [hlen]
    rcases hnext : o₁.dataRanges.get? E with _ | next
    · rw [get?_eq_some_iff.mpr hp₁]
      exact hextend _ _ [] hc (by simp) rfl rfl rfl
    · have hnext := ((hc.mem E next).mp (get?_eq_some_iff.mp hnext)).1
      dsimp only
      split_ifs with habsorb
      · have hp₂ : (o₁.dataRanges.remove E).Mem p buf := mem_remove.mpr ⟨by omega, hp₁⟩
        rw [get?_eq_some_iff.mpr hp₂]
        exact hextend _ _ next (hc.remove h.sep h.pos hnext (by omega))
          (fun x b hx hb => ⟨E, next, hnext, hx, hb⟩) rfl rfl rfl
      · rw [get?_eq_some_iff.mpr hp₁]
        exact hextend _ _ [] hc (by simp) rfl rfl rfl

/-- **`overlapFrame`** adds a frame before which nothing sticks out over its start. -/
theorem overlapFrame_spec (h : o.WF) (hstart : o.retired ≤ start)
    (hbefore : ∀ k v, o.dataRanges.Mem k v → k < start → k + v.length ≤ start)
    {extend : Option (ℕ × ℕ)}
    (hext : ∀ p n, extend = some (p, n) → ∃ buf, o.dataRanges.Mem p buf ∧ p + buf.length = start) :
    Received o (o.overlapFrame start data extend).1 start data := by
  obtain ⟨E, removed, heq, hscan⟩ := scanFollowing_spec rfl
    (o.dataRanges.rangeFrom start) []
    ((o.dataRanges.rangeFrom_sorted start).imp_of_mem fun ha hb hlt =>
      h.sep _ _ _ _ (mem_rangeFrom.mp ha).1 (mem_rangeFrom.mp hb).1 hlt)
    (fun e he => h.pos e.1 e.2 (mem_rangeFrom.mp he).1) (fun e he => (mem_rangeFrom.mp he).2)
    le_rfl (Nat.le_add_right start data.length)
  -- Without a range at or above `start` there is nothing to scan.
  have hnone : (∀ k v, o.dataRanges.Mem k v → k < start) →
      data = data.take (E - start) ∧ [] = removed := by
    intro hlt
    have hnil : o.dataRanges.rangeFrom start = [] := by
      refine eq_nil_iff_forall_not_mem.mpr fun e he => ?_
      have := hlt e.1 e.2 (mem_rangeFrom.mp he).1
      have := (mem_rangeFrom.mp he).2
      omega
    rw [hnil] at heq
    exact Prod.mk.inj heq
  have hoverlap : o.overlapFrame start data extend =
      { o with dataRanges := o.dataRanges.removeAll removed }.storeFrame start
        (start + data.length) (data.take (E - start)) extend := by
    unfold overlapFrame
    rcases hl : o.dataRanges.last? with _ | ⟨last, lv⟩
    · obtain ⟨hdata, hremoved⟩ := hnone fun k v hk => absurd hk (last?_eq_none_iff.mp hl k v)
      rw [← hdata, ← hremoved]
    · dsimp only
      split_ifs with hge
      · rw [heq]
        rfl
      · obtain ⟨hdata, hremoved⟩ := hnone fun k v hk => by
          have := le_last? hl hk
          omega
        rw [← hdata, ← hremoved]
  have hcov : ∀ x, E ≤ x → x < start + data.length → o.dataRanges.Covers x := by
    intro x h1 h2
    obtain ⟨e, he, hx⟩ := hscan.covered x h1 h2
    exact ⟨e.1, e.2, (mem_rangeFrom.mp he).1, hx⟩
  rw [hoverlap]
  rcases hscan.lo_le.eq_or_lt with rfl | hlt
  · -- Nothing of the new data is kept, and nothing was removed for it.
    have hnil : removed = [] := by
      refine eq_nil_iff_forall_not_mem.mpr fun k hk => ?_
      obtain ⟨e, he, rfl, hlt⟩ := (hscan.removed k).mp hk
      have := (mem_rangeFrom.mp he).2
      omega
    rw [hnil, Nat.sub_self]
    exact .of_same h fun x _ => hcov x
  · refine storeFrame_spec h hstart ?_ hlt hscan.le_newEnd hcov ?_ hext
    · exact hscan.cleared h hbefore
    · exact ⟨rfl, rfl⟩

/-- A frame that is trimmed at the front adds the same bytes when what is trimmed is held or has
been read already. -/
lemma Received.of_drop {n : ℕ} (hn : n ≤ data.length) (h : Received o o' (start + n) (data.drop n))
    (hcov : ∀ x, o.retired ≤ x → start ≤ x → x < start + n → o.dataRanges.Covers x) :
    Received o o' start data where
  wf := h.wf
  retired := h.retired
  holds x b hb := by
    rcases h.holds x b hb with h1 | ⟨h1, h2⟩
    · exact Or.inl h1
    · refine Or.inr ⟨by omega, ?_⟩
      rw [List.getElem?_drop] at h2
      rw [← h2]
      congr 1
      omega
  covers x := by
    rw [h.covers, length_drop]
    constructor
    · rintro (h1 | ⟨h1, h2, h3⟩)
      · exact Or.inl h1
      · exact Or.inr ⟨h1, by omega, by omega⟩
    · rintro (h1 | ⟨h1, h2, h3⟩)
      · exact Or.inl h1
      · by_cases hx : x < start + n
        · exact Or.inl (hcov x h1 h2 hx)
        · exact Or.inr ⟨h1, by omega, by omega⟩

lemma placeFrame_spec (h : o.WF) (data : Bytes) (hstart : o.retired ≤ start) :
    Received o (o.placeFrame start data).1 start data := by
  unfold placeFrame
  split_ifs with hemp hend
  · rw [List.isEmpty_iff] at hemp
    subst hemp
    exact .of_same h fun x _ h1 h2 => by simp only [length_nil] at h2; omega
  · rw [List.isEmpty_iff] at hemp
    exact appendFrame_spec h hstart (length_pos_iff.mpr hemp) hend
  · cases hprev : o.dataRanges.lastAtMost start with
    | none =>
      refine overlapFrame_spec h hstart (fun k v hk hlt => ?_) (fun p n hpn => by cases hpn)
      have := lastAtMost_eq_none_iff.mp hprev k v hk
      omega
    | some e =>
      obtain ⟨p, pv⟩ := e
      obtain ⟨hp, hple⟩ := lastAtMost_mem hprev
      have hlast : ∀ k v, o.dataRanges.Mem k v → k ≤ start → k ≤ p :=
        fun k v hk hle => le_lastAtMost hprev hk hle
      dsimp only
      split_ifs with hover hext
      all_goals try
        refine Received.of_drop (by omega)
          (overlapFrame_spec h (by omega) (fun k v hk hlt => ?_) (fun q n hqn => ?_)) ?_
        · -- the ranges before the trimmed frame end where it starts
          by_cases hkp : k = p
          · subst hkp
            rw [hk.unique hp]
            omega
          · by_cases hks : k ≤ start
            · have h1 := hlast k v hk hks
              have h2 : k + v.length ≤ p := h.sep k v p pv hk hp (by omega)
              omega
            · have h2 : p + pv.length ≤ k := h.sep p pv k v hp hk (by omega)
              omega
      · obtain ⟨rfl, rfl⟩ := Prod.mk.inj (Option.some.inj hqn)
        exact ⟨pv, hp, hext.2⟩
      · exact fun x _ h1 h2 => ⟨p, pv, hp, by omega, by omega⟩
      · cases hqn
      · exact fun x _ h1 h2 => ⟨p, pv, hp, by omega, by omega⟩
      · exact .of_same h fun x _ h1 h2 => ⟨p, pv, hp, by omega, by omega⟩

/-- **`inboundFrame`** adds the bytes of the frame at or above `retired`, whether or not it then
finds that there are too many gaps. -/
theorem inboundFrame_spec (h : o.WF) (start : ℕ) (data : Bytes) :
    Received o (o.inboundFrame start data).1 start data := by
  unfold inboundFrame
  dsimp only
  split_ifs with hlate hlt
  · exact .of_same h fun x _ _ _ => by omega
  · have hstart : start + (o.retired - start) = o.retired := by omega
    refine Received.of_drop (n := o.retired - start) (by omega) ?_ fun x _ _ _ => by omega
    rw [hstart]
    exact placeFrame_spec h _ le_rfl
  · exact placeFrame_spec h data (Nat.le_of_not_lt hlt)

end RxStreamOrderer

end Neqo
