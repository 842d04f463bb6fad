import Neqo.SendStream.Equiv.RangeTracker

/-!
# What a `TxBuffer` holds

A buffer `Carries` the bytes that the application has handed over when it stores all of them from
`retired` on and has only marked offsets below their number. Every operation keeps this up, and
what `nextBytes` returns is a piece of those bytes: unsent ones, from the least unsent offset on
(`Reachable.nextBytes_exact`).
-/

namespace Neqo

open List RangeTracker

namespace RangeTracker

open OrdMap

/-! ### The acknowledged prefix -/

variable (t : RangeTracker)

lemma firstUnmarkedRange_acked : t.firstUnmarkedRange.1.acked = t.acked := by
  unfold firstUnmarkedRange
  cases t.firstUnmarked <;> rfl

lemma markSent_acked (off len : ℕ) : (t.markSent off len).acked = t.acked := by
  unfold markSent
  dsimp only
  split_ifs
  · rfl
  · cases ((mergeNext t.used (off + len) (off + len - max t.acked off)).1).lastBelow
        (max t.acked off) with
    | none => rfl
    | some _ =>
      dsimp only
      split_ifs <;> rfl

lemma unmarkRange_acked (off len : ℕ) : (t.unmarkRange off len).1.acked = t.acked := by
  unfold unmarkRange
  split_ifs <;> rfl

lemma le_coalesceLoop_acked (l : List (ℕ × (ℕ × RangeState))) (t : RangeTracker) :
    t.acked ≤ (coalesceLoop l t).acked := by
  induction l generalizing t with
  | nil => exact le_rfl
  | cons e rest ih =>
    unfold coalesceLoop
    dsimp only
    split_ifs
    · exact Nat.le_add_right _ _
    · exact le_rfl
    · exact ih { t with used := t.used.remove e.1 }
    · exact Nat.le_add_right _ _
    · exact le_rfl
    · exact le_rfl

lemma le_markAcked_acked (off len : ℕ) : t.acked ≤ (t.markAcked off len).acked := by
  unfold markAcked
  dsimp only
  split_ifs
  · exact le_rfl
  · apply le_trans (Nat.le_add_right t.acked (off + len - max t.acked off))
    exact le_coalesceLoop_acked t.used.entries
      { t with acked := t.acked + (off + len - max t.acked off), firstUnmarked := none }
  · exact le_rfl

end RangeTracker

/-! ### Pieces of a byte string -/

/-- The bytes `data` are those of `bytes` from `offset` on. -/
def Piece (bytes : Bytes) (offset : ℕ) (data : Bytes) : Prop :=
  offset ≤ bytes.length ∧ data <+: bytes.drop offset

namespace Piece

variable {bytes data : Bytes} {offset : ℕ}

lemma end_le (h : Piece bytes offset data) : offset + data.length ≤ bytes.length := by
  have h1 := h.2.length_le
  rw [length_drop] at h1
  have h2 := h.1
  omega

lemma take (h : Piece bytes offset data) (n : ℕ) : Piece bytes offset (data.take n) :=
  ⟨h.1, (List.take_prefix n data).trans h.2⟩

lemma append (h : Piece bytes offset data) (more : Bytes) : Piece (bytes ++ more) offset data := by
  refine ⟨by rw [length_append]; have := h.1; omega, h.2.trans ?_⟩
  rw [drop_append_of_le_length h.1]
  exact prefix_append _ _

lemma getElem? (h : Piece bytes offset data) {i : ℕ} {b : UInt8} (hb : data[i]? = some b) :
    bytes[offset + i]? = some b := by
  obtain ⟨rest, hrest⟩ := h.2
  have hi := (List.getElem?_eq_some_iff.mp hb).1
  rw [← List.getElem?_drop, ← hrest, List.getElem?_append_left hi]
  exact hb

lemma of_getElem? (hle : offset ≤ bytes.length)
    (h : ∀ (i : ℕ) b, data[i]? = some b → bytes[offset + i]? = some b) :
    Piece bytes offset data := by
  refine ⟨hle, prefix_iff_getElem?.mpr fun i hi => ?_⟩
  rw [List.getElem?_drop]
  exact h i _ (List.getElem?_eq_getElem hi)

end Piece

namespace TxBuffer

/-- The buffer holds the bytes `accepted` of the application from `retired` on. -/
structure Carries (b : TxBuffer) (accepted : Bytes) : Prop where
  wf : b.ranges.WF
  buf : b.sendBuf = accepted.drop b.retired
  marked : ∀ x, b.ranges.stateAt x ≠ .unsent → x < accepted.length

variable {b : TxBuffer} {accepted : Bytes}

lemma carries_new : Carries {} [] where
  wf := wf_default
  buf := rfl
  marked _ hx := absurd rfl hx

lemma Carries.retired_le (h : b.Carries accepted) : b.retired ≤ accepted.length := by
  by_contra hlt
  have hacked : accepted.length < b.ranges.acked := by
    show accepted.length < b.retired
    omega
  have := h.marked accepted.length (by rw [stateAt_of_lt hacked]; decide)
  omega

lemma Carries.used (h : b.Carries accepted) : b.used = accepted.length := by
  have hle := h.retired_le
  unfold TxBuffer.used buffered
  rw [h.buf, length_drop]
  omega

lemma Carries.send (h : b.Carries accepted) (buf : Bytes) :
    (b.send buf).1.Carries (accepted ++ buf.take (b.send buf).2) := by
  refine ⟨h.wf, ?_, fun x hx => ?_⟩
  · show b.sendBuf ++ _ = _
    rw [h.buf]
    exact (drop_append_of_le_length h.retired_le).symm
  · have := h.marked x hx
    rw [length_append]
    omega

lemma Carries.firstUnmarkedRange (h : b.Carries accepted) :
    b.firstUnmarkedRange.1.Carries accepted := by
  obtain ⟨hwf, hstate, _⟩ := firstUnmarkedRange_spec h.wf
  refine ⟨hwf, ?_, fun x hx => h.marked x ?_⟩
  · show b.sendBuf = accepted.drop b.ranges.firstUnmarkedRange.1.acked
    rw [firstUnmarkedRange_acked]
    exact h.buf
  · rw [← hstate x]
    exact hx

lemma nextBytes_fst (b : TxBuffer) (split : ℕ) :
    (b.nextBytes split).1 = b.firstUnmarkedRange.1 := by
  unfold TxBuffer.nextBytes
  obtain ⟨b', _ | r⟩ := b.firstUnmarkedRange <;> rfl

lemma nextBytes_retired (b : TxBuffer) (split : ℕ) : (b.nextBytes split).1.retired = b.retired := by
  rw [nextBytes_fst]
  exact firstUnmarkedRange_acked b.ranges

/-- Either part of the ring buffer from the offset on is a beginning of what the whole buffer has
from the offset on. -/
lemma ringSlice_prefix (l : Bytes) (split off : ℕ) :
    (if off < (l.take split).length then (l.take split).drop off
      else (l.drop split).drop (off - (l.take split).length)) <+: l.drop off := by
  rw [length_take]
  split_ifs with h
  · rw [drop_take]
    exact take_prefix _ _
  · rw [drop_drop]
    by_cases hs : split ≤ l.length
    · have heq : split + (off - min split l.length) = off := by omega
      exact ⟨[], by rw [heq, append_nil]⟩
    · have heq : l.drop (split + (off - min split l.length)) = [] :=
        drop_eq_nil_of_le (by omega)
      rw [heq]
      exact nil_prefix

lemma ringSlice_ne_nil {l : Bytes} {off : ℕ} (hoff : off < l.length) (split : ℕ) :
    (if off < (l.take split).length then (l.take split).drop off
      else (l.drop split).drop (off - (l.take split).length)) ≠ [] := by
  rw [length_take]
  split_ifs with h
  · exact drop_eq_nil_iff.not.mpr (by rw [length_take]; omega)
  · rw [drop_drop]
    exact drop_eq_nil_iff.not.mpr (by omega)

/-- The bytes `data` at `offset` are to be sent next: some of those that are unsent from the least
unsent offset on. -/
structure Next (b : TxBuffer) (accepted : Bytes) (offset : ℕ) (data : Bytes) : Prop where
  piece : Piece accepted offset data
  ne_nil : data ≠ []
  marked_before : ∀ x < offset, b.ranges.stateAt x ≠ .unsent
  unsent : ∀ x, offset ≤ x → x < offset + data.length → b.ranges.stateAt x = .unsent

lemma Next.first {offset : ℕ} {data : Bytes} (h : b.Next accepted offset data) :
    b.ranges.stateAt offset = .unsent :=
  h.unsent offset le_rfl (Nat.lt_add_of_pos_right (length_pos_iff.mpr h.ne_nil))

section

variable (h : b.Carries accepted)

include h

/-- Either everything is marked, or the first unmarked range starts in the buffer. -/
lemma Carries.firstUnmarkedRange_cases :
    (b.firstUnmarkedRange.2 = none ∧ ∀ x < accepted.length, b.ranges.stateAt x ≠ .unsent) ∨
      b.firstUnmarkedRange.2 = some b.ranges.firstUnmarkedRange.2 ∧
        b.retired ≤ b.ranges.firstUnmarkedRange.2.1 ∧
        b.ranges.firstUnmarkedRange.2.1 < accepted.length := by
  obtain ⟨hge, hle⟩ := firstUnmarkedRange_start h.wf h.marked
  have hend : b.ranges.firstUnmarkedRange.1.acked + b.sendBuf.length = accepted.length := by
    rw [firstUnmarkedRange_acked]
    exact h.used
  have hr : b.firstUnmarkedRange.2 =
      if b.ranges.firstUnmarkedRange.2.1 ≠ accepted.length then some b.ranges.firstUnmarkedRange.2
      else none := by
    rw [← hend]
    rfl
  by_cases hstart : b.ranges.firstUnmarkedRange.2.1 = accepted.length
  · rw [if_neg (not_not.mpr hstart)] at hr
    rw [← hstart]
    exact .inl ⟨hr, (firstUnmarkedRange_exact h.wf).1⟩
  · rw [if_pos hstart] at hr
    exact .inr ⟨hr, hge, lt_of_le_of_ne hle hstart⟩

lemma Carries.nextBytes (split : ℕ) : (b.nextBytes split).1.Carries accepted := by
  rw [nextBytes_fst]
  exact h.firstUnmarkedRange

/-- **What is sent next.**  `nextBytes` returns nothing when everything is marked, and otherwise
some of the first unsent bytes. -/
theorem Carries.nextBytes_cases (split : ℕ) :
    ((b.nextBytes split).2 = none ∧ ∀ x < accepted.length, b.ranges.stateAt x ≠ .unsent) ∨
      ∃ offset data, (b.nextBytes split).2 = some (offset, data) ∧
        b.Next accepted offset data := by
  have hcases := h.firstUnmarkedRange_cases
  obtain ⟨hbefore, hpos, hunsent⟩ := firstUnmarkedRange_exact h.wf
  have hretired : b.firstUnmarkedRange.1.retired = b.retired :=
    firstUnmarkedRange_acked b.ranges
  have hbuf : b.firstUnmarkedRange.1.sendBuf = b.sendBuf := rfl
  unfold TxBuffer.nextBytes
  generalize b.ranges.firstUnmarkedRange.2 = range at hcases hbefore hpos hunsent
  generalize b.firstUnmarkedRange = r at hcases hretired hbuf
  obtain ⟨b', r⟩ := r
  obtain ⟨start, maybeLen⟩ := range
  rcases hcases with ⟨rfl, hmarked⟩ | ⟨rfl, hge, hlt⟩
  · exact .inl ⟨rfl, hmarked⟩
  · refine .inr ⟨start, _, rfl, ?_⟩
    have hdrop : b'.sendBuf.drop (start - b'.retired) = accepted.drop start := by
      rw [hretired, hbuf, h.buf, drop_drop, Nat.add_sub_cancel' hge]
    have hin : start - b'.retired < b'.sendBuf.length := by
      rw [hretired, hbuf, h.buf, length_drop]
      omega
    have hslice := hdrop ▸ ringSlice_prefix b'.sendBuf split (start - b'.retired)
    have hne := length_pos_iff.mpr (ringSlice_ne_nil hin split)
    generalize (if start - b'.retired < (b'.sendBuf.take split).length then
      (b'.sendBuf.take split).drop (start - b'.retired)
      else (b'.sendBuf.drop split).drop (start - b'.retired - (b'.sendBuf.take split).length)) = slc
      at hslice hne ⊢
    cases maybeLen with
    | none =>
      rw [take_length]
      exact ⟨⟨hlt.le, hslice⟩, length_pos_iff.mp hne, hbefore,
        fun x hx _ => hunsent x hx nofun⟩
    | some rangeLen =>
      have hrange := hpos rangeLen rfl
      refine ⟨⟨hlt.le, (List.take_prefix _ _).trans hslice⟩, ?_, hbefore, fun x hx hx' => ?_⟩
      · rw [← length_pos_iff, length_take]
        show 0 < min (min rangeLen slc.length) slc.length
        omega
      · refine hunsent x hx fun n hn => ?_
        obtain rfl := Option.some.inj hn
        rw [length_take] at hx'
        dsimp only at hx'
        omega

lemma Carries.markAsSent {offset len : ℕ}
    (hle : offset + len ≤ accepted.length) : (b.markAsSent offset len).Carries accepted := by
  obtain ⟨hwf, hstate⟩ := markSent_spec h.wf offset len
  refine ⟨hwf, ?_, fun x hx => ?_⟩
  · show b.sendBuf = accepted.drop (b.ranges.markSent offset len).acked
    rw [markSent_acked]
    exact h.buf
  · by_cases hin : offset ≤ x ∧ x < offset + len
    · omega
    · have hsame := hstate x
      rw [if_neg (fun hc => hin ⟨hc.1, hc.2.1⟩)] at hsame
      exact h.marked x (hsame ▸ hx)

lemma Carries.markAsAcked {offset len : ℕ}
    (hle : offset + len ≤ accepted.length) : (b.markAsAcked offset len).Carries accepted := by
  obtain ⟨hwf, hstate⟩ := markAcked_spec h.wf offset len
  refine ⟨hwf, ?_, fun x hx => ?_⟩
  · have hmono := le_markAcked_acked b.ranges offset len
    show b.sendBuf.drop ((b.ranges.markAcked offset len).acked - b.ranges.acked) =
      accepted.drop (b.ranges.markAcked offset len).acked
    rw [h.buf, drop_drop]
    congr 1
    show b.ranges.acked + _ = _
    omega
  · by_cases hin : offset ≤ x ∧ x < offset + len
    · omega
    · have hsame := hstate x
      rw [if_neg hin] at hsame
      exact h.marked x (hsame ▸ hx)

lemma Carries.markAsLost (offset len : ℕ) : (b.markAsLost offset len).Carries accepted := by
  obtain ⟨hwf, hstate⟩ := unmarkRange_spec h.wf offset len
  refine ⟨hwf, ?_, fun x hx => h.marked x fun hu => hx ?_⟩
  · show b.sendBuf = accepted.drop (b.ranges.unmarkRange offset len).1.acked
    rw [unmarkRange_acked]
    exact h.buf
  · show (b.ranges.unmarkRange offset len).1.stateAt x = .unsent
    rw [hstate x, hu, if_neg (fun hc => by cases hc.2.2)]

end

/-! ### Runs -/

/-- The buffers that can come about, and what was accepted. Acknowledged and lost ranges need not
have been sent. -/
inductive Reachable : TxBuffer → Bytes → Prop
  | new : Reachable {} []
  | send {b : TxBuffer} {accepted : Bytes} (buf : Bytes) (h : Reachable b accepted) :
      Reachable (b.send buf).1 (accepted ++ buf.take (b.send buf).2)
  | nextBytes {b : TxBuffer} {accepted : Bytes} (split : ℕ) (h : Reachable b accepted) :
      Reachable (b.nextBytes split).1 accepted
  | markAsSent {b : TxBuffer} {accepted : Bytes} (offset len : ℕ) (h : Reachable b accepted)
      (hle : offset + len ≤ accepted.length) : Reachable (b.markAsSent offset len) accepted
  | markAsAcked {b : TxBuffer} {accepted : Bytes} (offset len : ℕ) (h : Reachable b accepted)
      (hle : offset + len ≤ accepted.length) : Reachable (b.markAsAcked offset len) accepted
  | markAsLost {b : TxBuffer} {accepted : Bytes} (offset len : ℕ) (h : Reachable b accepted)
      (hle : offset + len ≤ accepted.length) : Reachable (b.markAsLost offset len) accepted

lemma Reachable.carries (h : Reachable b accepted) : b.Carries accepted := by
  induction h with
  | new => exact carries_new
  | send buf _ ih => exact ih.send buf
  | nextBytes split _ ih => exact ih.nextBytes split
  | markAsSent offset len _ hle ih => exact ih.markAsSent hle
  | markAsAcked offset len _ hle ih => exact ih.markAsAcked hle
  | markAsLost offset len _ _ ih => exact ih.markAsLost offset len

/-- **Nothing is lost or duplicated.**  What was accepted is retired or buffered. `nextBytes`
returns nothing exactly when every accepted byte is sent or acknowledged; otherwise it returns
accepted bytes from the least unsent offset on, at least one and only unsent ones. An
acknowledgment does not drain more than what is buffered. -/
theorem Reachable.nextBytes_exact (h : Reachable b accepted) (split : ℕ) :
    b.retired + b.buffered = accepted.length ∧
    ((b.nextBytes split).2 = none ↔ ∀ x < accepted.length, b.ranges.stateAt x ≠ .unsent) ∧
    (∀ offset data, (b.nextBytes split).2 = some (offset, data) →
      data ≠ [] ∧ IsLeast {x | b.ranges.stateAt x = .unsent} offset ∧
        offset + data.length ≤ accepted.length ∧ data <+: accepted.drop offset ∧
        ∀ x, offset ≤ x → x < offset + data.length → b.ranges.stateAt x = .unsent) ∧
    ∀ offset len, offset + len ≤ accepted.length →
      b.retired ≤ (b.markAsAcked offset len).retired ∧
        (b.markAsAcked offset len).retired - b.retired ≤ b.buffered := by
  have hcarries := h.carries
  have hused : b.retired + b.buffered = accepted.length := hcarries.used
  refine ⟨hused, ?_, fun offset data hr => ?_, fun offset len hle => ?_⟩
  · rcases hcarries.nextBytes_cases split with ⟨hr, hmarked⟩ | ⟨offset, data, hr, hnext⟩
    · rw [hr]
      exact ⟨fun _ => hmarked, fun _ => rfl⟩
    · rw [hr]
      have hpos := length_pos_iff.mpr hnext.ne_nil
      have hend := hnext.piece.end_le
      exact ⟨nofun, fun hmarked => absurd hnext.first (hmarked offset (by omega))⟩
  · rcases hcarries.nextBytes_cases split with ⟨hr', -⟩ | ⟨offset', data', hr', hnext⟩
    · rw [hr'] at hr
      cases hr
    · rw [hr'] at hr
      cases hr
      refine ⟨hnext.ne_nil, ⟨hnext.first, fun x hx => ?_⟩, hnext.piece.end_le, hnext.piece.2,
        hnext.unsent⟩
      by_contra hlt
      exact hnext.marked_before x (not_le.mp hlt) hx
  · have hretired := (hcarries.markAsAcked hle).retired_le
    refine ⟨le_markAcked_acked b.ranges offset len, ?_⟩
    omega

/-- Four bytes, of which the second is sent, in a buffer that wraps after the third. What comes
before the second byte is sent first. -/
theorem nextBytes_exact_of_gap :
    (((({} : TxBuffer).send [1, 2, 3, 4]).1.markAsSent 1 1).nextBytes 3).2 = some (0, [1]) ∧
    IsLeast {x | ((({} : TxBuffer).send [1, 2, 3, 4]).1.markAsSent 1 1).ranges.stateAt x = .unsent}
      0 := by
  have hreach := (Reachable.new.send [1, 2, 3, 4]).markAsSent 1 1 (by decide)
  have hnext : (((({} : TxBuffer).send [1, 2, 3, 4]).1.markAsSent 1 1).nextBytes 3).2 =
    some (0, [1]) := by decide
  exact ⟨hnext, ((hreach.nextBytes_exact 3).2.2.1 0 [1] hnext).2.1⟩

end TxBuffer

end Neqo
