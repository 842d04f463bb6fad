import Neqo.SendStream.Equiv.RangeTracker.MarkSent
import Mathlib.Order.Bounds.Defs

/-!
# `RangeTracker` refines a map from offsets to byte states

The operations of the tracker, from a fresh one on and with ranges that fit in 64 bits, keep it
well-formed (`Reachable.wf`) and within 64 bits (`Reachable.fits`), and act on the map that it
denotes byte by byte (`Reachable.stateAt_refines`). Its entries stay in a canonical form
(`Reachable.used_canonical`), and the first unmarked range is that of the map, cached or not
(`Reachable.firstUnmarkedRange_least`).
-/

namespace Neqo

namespace RangeTracker

open List OrdMap

/-- The trackers that can come about. -/
inductive Reachable : RangeTracker → Prop
  | default : Reachable {}
  | markAcked {t : RangeTracker} (off len : ℕ) (h : Reachable t) (hfit : off + len < 2 ^ 64) :
      Reachable (t.markAcked off len)
  | markSent {t : RangeTracker} (off len : ℕ) (h : Reachable t) (hfit : off + len < 2 ^ 64) :
      Reachable (t.markSent off len)
  | unmarkRange {t : RangeTracker} (off len : ℕ) (h : Reachable t) (hfit : off + len < 2 ^ 64) :
      Reachable (t.unmarkRange off len).1
  | unmarkSent {t : RangeTracker} (h : Reachable t) : Reachable t.unmarkSent.1
  | firstUnmarkedRange {t : RangeTracker} (h : Reachable t) : Reachable t.firstUnmarkedRange.1

lemma wf_default : WF {} where
  tidy := ⟨fun h => absurd h (not_mem_empty _ _), fun h => absurd h (not_mem_empty _ _)⟩
  ge k v h := absurd h (not_mem_empty k v)
  acked n := not_mem_empty _ _
  cache r h := by cases h

variable {t t' : RangeTracker}

/-- The answer of `firstUnmarkedRange` is that of the scan, cached or not. -/
lemma firstUnmarkedRange_spec (h : t.WF) :
    t.firstUnmarkedRange.1.WF ∧ (∀ x, t.firstUnmarkedRange.1.stateAt x = t.stateAt x) ∧
      t.firstUnmarkedRange.2 = scanUnmarked t.acked t.used.entries := by
  unfold firstUnmarkedRange
  cases hc : t.firstUnmarked with
  | some r => exact ⟨h, fun _ => rfl, h.cache r hc⟩
  | none =>
    refine ⟨⟨h.tidy, h.ge, h.acked, ?_⟩, fun _ => rfl, rfl⟩
    intro r hr
    exact (Option.some.inj hr).symm

lemma Reachable.wf (h : Reachable t) : t.WF := by
  induction h with
  | default => exact wf_default
  | markAcked off len _ _ ih => exact (markAcked_spec ih off len).1
  | markSent off len _ _ ih => exact (markSent_spec ih off len).1
  | unmarkRange off len _ _ ih => exact (unmarkRange_spec ih off len).1
  | unmarkSent _ ih => exact (unmarkRange_spec ih 0 _).1
  | firstUnmarkedRange _ ih => exact (firstUnmarkedRange_spec ih).1

/-! ### Everything fits in 64 bits -/

/-- Every marked byte lies below the largest offset. -/
def Fits (t : RangeTracker) : Prop := ∀ x, t.stateAt x ≠ .unsent → x + 1 < 2 ^ 64

lemma Fits.of_range (h : t.Fits) {off len : ℕ} (hfit : off + len < 2 ^ 64)
    (hout : ∀ x, ¬ (off ≤ x ∧ x < off + len) → t'.stateAt x = t.stateAt x) : t'.Fits := by
  intro x hx
  by_cases hin : off ≤ x ∧ x < off + len
  · omega
  · rw [hout x hin] at hx
    exact h x hx

lemma Fits.of_le (h : t.Fits) (hle : ∀ x, t.stateAt x = .unsent → t'.stateAt x = .unsent) :
    t'.Fits :=
  fun x hx => h x fun hu => hx (hle x hu)

lemma fits_default : Fits {} := by
  intro x hx
  exact absurd rfl hx

lemma unmarkRange_fits (hwf : t.WF) (h : t.Fits) (off len : ℕ) :
    (t.unmarkRange off len).1.Fits := by
  apply h.of_le
  intro x hx
  rw [(unmarkRange_spec hwf off len).2 x, hx, if_neg (fun hc => by cases hc.2.2)]

lemma Reachable.fits (h : Reachable t) : t.Fits := by
  induction h with
  | default => exact fits_default
  | markAcked off len h hfit ih =>
    apply ih.of_range hfit
    intro x hx
    rw [(markAcked_spec h.wf off len).2 x, if_neg hx]
  | markSent off len h hfit ih =>
    apply ih.of_range hfit
    intro x hx
    rw [(markSent_spec h.wf off len).2 x, if_neg (fun hc => hx ⟨hc.1, hc.2.1⟩)]
  | unmarkRange off len h hfit ih => exact unmarkRange_fits h.wf ih off len
  | unmarkSent h ih => exact unmarkRange_fits h.wf ih 0 _
  | firstUnmarkedRange h ih =>
    apply ih.of_le
    intro x hx
    rw [(firstUnmarkedRange_spec h.wf).2.1 x, hx]

/-! ### The refinement -/

/-- **Refinement**: on the map from offsets to byte states, `markAcked` makes the bytes of its
range acked, `markSent` turns the unsent ones into sent ones, `unmarkRange` turns the sent ones
into unsent ones and reports whether there was any, and no other byte changes its state; all three
stay within 64 bits. -/
theorem Reachable.stateAt_refines {t : RangeTracker} (h : Reachable t) (off len : ℕ)
    (hfit : off + len < 2 ^ 64) :
    (∀ x, (t.markAcked off len).stateAt x =
      if off ≤ x ∧ x < off + len then .acked else t.stateAt x) ∧
    (∀ x, (t.markSent off len).stateAt x =
      if off ≤ x ∧ x < off + len ∧ t.stateAt x = .unsent then .sent else t.stateAt x) ∧
    (∀ x, (t.unmarkRange off len).1.stateAt x =
      if off ≤ x ∧ x < off + len ∧ t.stateAt x = .sent then .unsent else t.stateAt x) ∧
    ((t.unmarkRange off len).2 = true ↔ ∃ x, off ≤ x ∧ x < off + len ∧ t.stateAt x = .sent) ∧
    (t.markAcked off len).Fits ∧ (t.markSent off len).Fits ∧ (t.unmarkRange off len).1.Fits := by
  refine ⟨(markAcked_spec h.wf off len).2, (markSent_spec h.wf off len).2,
    (unmarkRange_spec h.wf off len).2, unmarkRange_snd h.wf off len,
    (h.markAcked off len hfit).fits,
    (h.markSent off len hfit).fits, (h.unmarkRange off len hfit).fits⟩

/-- An overlap of every kind: bytes 0–9 sent, 4–5 acknowledged, and 2–6 unmarked again. -/
theorem stateAt_refines_overlap :
    ((((({} : RangeTracker).markSent 0 10).markAcked 4 2).unmarkRange 2 5).2 = true ↔
      ∃ x, 2 ≤ x ∧ x < 2 + 5 ∧ ((({} : RangeTracker).markSent 0 10).markAcked 4 2).stateAt x =
        .sent)
      ∧ ((({} : RangeTracker).markSent 0 10).markAcked 4 2).stateAt 3 = .sent :=
  ⟨(((Reachable.default.markSent 0 10 (by omega)).markAcked 4 2 (by omega)).stateAt_refines 2 5
    (by omega)).2.2.2.1, by decide⟩

/-- **Canonical form**: the entries are not empty, in order and disjoint, none starts below the
acknowledged prefix, none that goes on where it ends is acked, and none touches one in the same
state. -/
theorem Reachable.used_canonical {t : RangeTracker} (h : Reachable t) :
    (∀ e ∈ t.used.entries, 0 < e.2.1) ∧
    (t.used.entries.Pairwise fun a b => a.1 < b.1 ∧ a.1 + a.2.1 ≤ b.1) ∧
    (∀ e ∈ t.used.entries, t.acked ≤ e.1 ∧ (e.1 = t.acked → e.2.2 ≠ .acked)) ∧
    ∀ a ∈ t.used.entries, ∀ b ∈ t.used.entries, a.1 + a.2.1 = b.1 → a.2.2 ≠ b.2.2 := by
  obtain ⟨⟨hpos, hapart⟩, hge, hacked, -⟩ := h.wf
  refine ⟨fun e he => hpos he, t.used.sorted.imp_of_mem fun ha hb hlt => ⟨hlt, ?_⟩, fun e he =>
    ⟨hge e.1 e.2 he, ?_⟩, fun a ha b hb heq => ?_⟩
  · exact (hapart ha hb hlt).elim le_of_lt fun heq => heq.1.le
  · rintro heq hs
    obtain ⟨k, n, s⟩ := e
    subst heq hs
    exact hacked n he
  · have : 0 < a.2.1 := hpos ha
    exact ((hapart ha hb (by omega)).resolve_left heq.not_lt).2

/-- Two acked ranges that touch become one entry, next to a sent one. -/
theorem used_canonical_merged :
    ((((({} : RangeTracker).markSent 0 10).markAcked 4 2).markAcked 6 2).used.entries =
      [(0, (4, .sent)), (4, (4, .acked)), (8, (2, .sent))]) ∧
    ∀ e ∈ (((({} : RangeTracker).markSent 0 10).markAcked 4 2).markAcked 6 2).used.entries,
      0 < e.2.1 :=
  ⟨by decide, (((Reachable.default.markSent 0 10 (by omega)).markAcked 4 2 (by omega)).markAcked 6 2
    (by omega)).used_canonical.1⟩

/-! ### The first unmarked range -/

/-- The scan passes over offsets that lie in some entry. Every entry ends where it stops or before,
or starts after the gap that it has found there, which one of them ends. -/
lemma scanUnmarked_spec (l : List (ℕ × (ℕ × RangeState))) (prevEnd : ℕ)
    (hsep : l.Pairwise fun a b => a.1 + a.2.1 ≤ b.1) (hge : ∀ e ∈ l, prevEnd ≤ e.1) :
    prevEnd ≤ (scanUnmarked prevEnd l).1 ∧
      (∀ x, prevEnd ≤ x → x < (scanUnmarked prevEnd l).1 → ∃ e ∈ l, e.1 ≤ x ∧ x < e.1 + e.2.1) ∧
      (∀ n, (scanUnmarked prevEnd l).2 = some n →
        0 < n ∧ ∃ e ∈ l, e.1 = (scanUnmarked prevEnd l).1 + n) ∧
      ∀ e ∈ l, e.1 + e.2.1 ≤ (scanUnmarked prevEnd l).1 ∨
        ∃ n, (scanUnmarked prevEnd l).2 = some n ∧ (scanUnmarked prevEnd l).1 + n ≤ e.1 := by
  induction l generalizing prevEnd with
  | nil => exact ⟨le_rfl, fun x h1 h2 => absurd h2 (not_lt.mpr h1), nofun, nofun⟩
  | cons e rest ih =>
    obtain ⟨curOff, curLen, curState⟩ := e
    obtain ⟨hfirst, hrest⟩ := pairwise_cons.mp hsep
    have hcur : prevEnd ≤ curOff := hge _ mem_cons_self
    unfold scanUnmarked
    split_ifs with heq
    · obtain ⟨hle, hcov, hgap, hout⟩ := ih (curOff + curLen) hrest hfirst
      refine ⟨by omega, fun x h1 h2 => ?_, fun n hn => ?_, fun e he => ?_⟩
      · by_cases hx : x < curOff + curLen
        · exact ⟨_, mem_cons_self .., by dsimp only; omega⟩
        · obtain ⟨e, he, hin⟩ := hcov x (by omega) h2
          exact ⟨e, mem_cons_of_mem _ he, hin⟩
      · obtain ⟨hpos, e, he, hend⟩ := hgap n hn
        exact ⟨hpos, e, mem_cons_of_mem _ he, hend⟩
      · rcases mem_cons.mp he with rfl | he
        · exact .inl hle
        · exact hout e he
    · refine ⟨le_rfl, fun x h1 h2 => absurd h2 (not_lt.mpr h1), fun n hn => ?_, fun e he =>
        .inr ⟨curOff - prevEnd, rfl, ?_⟩⟩
      · have hn' : curOff - prevEnd = n := Option.some.inj hn
        exact ⟨by omega, _, mem_cons_self .., by omega⟩
      · have hle : curOff ≤ e.1 := by
          rcases mem_cons.mp he with rfl | he
          · exact le_rfl
          · exact (Nat.le_add_right _ _).trans (hfirst e he)
        omega

/-- **The first unmarked range.**  Everything before it is marked, it is not empty and ends at a
marked byte, and nothing in it is marked. -/
theorem firstUnmarkedRange_exact (h : t.WF) :
    (∀ x < t.firstUnmarkedRange.2.1, t.stateAt x ≠ .unsent) ∧
      (∀ n, t.firstUnmarkedRange.2.2 = some n →
        0 < n ∧ t.stateAt (t.firstUnmarkedRange.2.1 + n) ≠ .unsent) ∧
      ∀ x, t.firstUnmarkedRange.2.1 ≤ x →
        (∀ n, t.firstUnmarkedRange.2.2 = some n → x < t.firstUnmarkedRange.2.1 + n) →
        t.stateAt x = .unsent := by
  rw [(firstUnmarkedRange_spec h).2.2]
  have hsep : t.used.entries.Pairwise fun a b => a.1 + a.2.1 ≤ b.1 :=
    t.used.sorted.imp_of_mem fun ha hb hlt => (h.tidy.apart ha hb hlt).elim le_of_lt fun heq =>
      heq.1.le
  obtain ⟨hle, hcov, hgap, hout⟩ := scanUnmarked_spec _ t.acked hsep fun e he => h.ge e.1 e.2 he
  have hat {e : ℕ × (ℕ × RangeState)} {x : ℕ} (he : e ∈ t.used.entries) (h1 : e.1 ≤ x)
      (h2 : x < e.1 + e.2.1) : t.stateAt x ≠ .unsent :=
    h.stateAt_ne_unsent.mpr (.inr ⟨e.2.2, e.1, e.2.1, he, h1, h2⟩)
  refine ⟨fun x hx => ?_, fun n hn => ?_, fun x hx hend => ?_⟩
  · by_cases hacked : x < t.acked
    · exact h.stateAt_ne_unsent.mpr (.inl hacked)
    · obtain ⟨e, he, h1, h2⟩ := hcov x (not_lt.mp hacked) hx
      exact hat he h1 h2
  · obtain ⟨hpos, e, he, heq⟩ := hgap n hn
    have : 0 < e.2.1 := h.tidy.pos he
    exact ⟨hpos, hat he heq.le (by omega)⟩
  · refine stateAt_of_not_at (hle.trans hx) fun s ⟨k, m, hm, hk, hlt⟩ => ?_
    rcases hout _ hm with hbefore | ⟨n, hn, hafter⟩
    · dsimp only at hbefore
      omega
    · have := hend n hn
      omega

/-- The first unmarked range starts after the acknowledged prefix, and no later than all marks
end. -/
lemma firstUnmarkedRange_start (h : t.WF) {n : ℕ} (hmarks : ∀ x, t.stateAt x ≠ .unsent → x < n) :
    t.acked ≤ t.firstUnmarkedRange.2.1 ∧ t.firstUnmarkedRange.2.1 ≤ n := by
  obtain ⟨hbefore, hgap, hunsent⟩ := firstUnmarkedRange_exact h
  have hfirst := hunsent _ le_rfl fun n hn => Nat.lt_add_of_pos_right (hgap n hn).1
  constructor
  · by_contra hlt
    exact nomatch hfirst.symm.trans (stateAt_of_lt (not_le.mp hlt))
  · by_contra hlt
    exact lt_irrefl n (hmarks n (hbefore n (not_le.mp hlt)))

/-- **The cache is never stale**: with and without it, the answer starts at the least unsent offset,
and gives the length of the run of unsent bytes there exactly if a marked byte lies above. -/
theorem Reachable.firstUnmarkedRange_least {t : RangeTracker} (h : Reachable t) :
    IsLeast { x | t.stateAt x = .unsent } t.firstUnmarkedRange.2.1 ∧
    (∀ n, t.firstUnmarkedRange.2.2 = some n ↔
      (∀ x, t.firstUnmarkedRange.2.1 ≤ x → x < t.firstUnmarkedRange.2.1 + n →
        t.stateAt x = .unsent) ∧ t.stateAt (t.firstUnmarkedRange.2.1 + n) ≠ .unsent) ∧
    (t.firstUnmarkedRange.2.2 = none ↔
      ¬ ∃ x, t.firstUnmarkedRange.2.1 < x ∧ t.stateAt x ≠ .unsent) ∧
    t.firstUnmarkedRange.2 = { t with firstUnmarked := none }.firstUnmarkedRange.2 := by
  obtain ⟨hbefore, hgap, hunsent⟩ := firstUnmarkedRange_exact h.wf
  have hscan := (firstUnmarkedRange_spec h.wf).2.2
  have hfirst := hunsent _ le_rfl fun n hn => Nat.lt_add_of_pos_right (hgap n hn).1
  refine ⟨⟨hfirst, fun x hx => not_lt.mp fun hlt => hbefore x hlt hx⟩, fun n => ⟨fun hn => ?_, ?_⟩,
    ⟨fun hnone => ?_, fun hno => ?_⟩, hscan⟩
  · refine ⟨fun x h1 h2 => hunsent x h1 fun m hm => ?_, (hgap n hn).2⟩
    rwa [← Option.some.inj (hn.symm.trans hm)]
  · -- the run is the one that was found, as both end at a marked byte
    rintro ⟨hrun, hend⟩
    cases hr : t.firstUnmarkedRange.2.2 with
    | none =>
      exact absurd (hunsent _ (Nat.le_add_right _ n) fun m hm => nomatch hr.symm.trans hm) hend
    | some m =>
      obtain ⟨hpos, hm⟩ := hgap m hr
      rcases lt_trichotomy n m with hlt | rfl | hlt
      · refine absurd (hunsent _ (Nat.le_add_right _ n) fun m' hm' => ?_) hend
        obtain rfl := Option.some.inj (hr.symm.trans hm')
        omega
      · rfl
      · exact absurd (hrun _ (Nat.le_add_right _ m) (by omega)) hm
  · rintro ⟨x, hlt, hx⟩
    exact hx (hunsent x hlt.le fun n hn => nomatch hnone.symm.trans hn)
  · cases hr : t.firstUnmarkedRange.2.2 with
    | none => rfl
    | some n =>
      obtain ⟨hpos, hn⟩ := hgap n hr
      exact absurd ⟨_, Nat.lt_add_of_pos_right hpos, hn⟩ hno

/-- The first four bytes are unmarked again and sent in part, after the answer had been cached. -/
theorem firstUnmarkedRange_least_cached :
    let t := ((({} : RangeTracker).markSent 0 10).firstUnmarkedRange.1.unmarkRange 0 4).1
    (t.firstUnmarkedRange.1.markSent 0 1).firstUnmarkedRange.2 = (1, some 3) ∧
      IsLeast { x | (t.firstUnmarkedRange.1.markSent 0 1).stateAt x = .unsent }
        (t.firstUnmarkedRange.1.markSent 0 1).firstUnmarkedRange.2.1 :=
  ⟨by decide, (((Reachable.default.markSent 0 10 (by omega)).firstUnmarkedRange.unmarkRange 0 4
    (by omega)).firstUnmarkedRange.markSent 0 1 (by omega)).firstUnmarkedRange_least.1⟩

end RangeTracker

end Neqo
