import Neqo.SendStream.Equiv.RangeTracker.Basic

/-!
# Correctness of `RangeTracker.markAcked`

Beyond the acknowledged prefix, `absorbFollowing` clears the way up to a new end (`Absorbed`) and
`mergePreceding` then puts the acknowledged range in place, together with the acked entries that it
touches (`Acknowledged`). At the prefix, the prefix just grows and `coalesceAcked` cuts the entries
that it ran over (`Coalesced`).
-/

namespace Neqo

namespace RangeTracker

open OrdMap

variable {U M : RangeMap} {lo hi E : ℕ}

/-! ### Acknowledging beyond the prefix -/

/-- What `absorbFollowing` leaves: the entries that start in `[lo, E)` are gone, but for the rest of
one that goes beyond `E`, and `E` is beyond `hi` only over an acked entry. -/
structure Absorbed (U M : RangeMap) (lo hi E : ℕ) : Prop where
  le : hi ≤ E
  mem : ∀ k n s, M.Mem k (n, s) ↔ (U.Mem k (n, s) ∧ ¬ (lo ≤ k ∧ k < E)) ∨
    (k = E ∧ ∃ a m, U.Mem a (m, s) ∧ lo ≤ a ∧ a < E ∧ E < a + m ∧ E + n = a + m)
  gained : ∀ x, hi ≤ x → x < E → U.At x .acked
  after : ∀ a n, U.Mem a (n, .acked) → lo ≤ a → E < a + n → E < a

lemma Absorbed.of_removed (hE : hi ≤ E) (hM : ∀ k v, M.Mem k v ↔ U.Mem k v ∧ ¬ (lo ≤ k ∧ k < E))
    (hend : ∀ k n s, U.Mem k (n, s) → lo ≤ k → k < E → k + n ≤ E)
    (hgain : ∀ x, hi ≤ x → x < E → U.At x .acked) (hfree : ∀ n, ¬ U.Mem E (n, .acked)) :
    Absorbed U M lo hi E where
  le := hE
  mem k n s := (hM k _).trans ⟨.inl, fun h => h.elim id fun ⟨_, a, m, ha, h1, h2, h3, _⟩ =>
    absurd (hend a m s ha h1 h2) (by omega)⟩
  gained := hgain
  after a n ha h1 h2 := by
    rcases lt_trichotomy a E with h | rfl | h
    · exact absurd (hend a n _ ha h1 h) (by omega)
    · exact absurd ha (hfree n)
    · exact h

variable {k off : ℕ}

lemma mem_covered : k ∈ (U.range lo hi).map Prod.fst ↔ (∃ v, U.Mem k v) ∧ lo ≤ k ∧ k < hi := by
  simp [mem_range]

variable {v w : ℕ × RangeState}

lemma mem_removeAll_covered :
    (U.removeAll ((U.range lo hi).map Prod.fst)).Mem k v ↔ U.Mem k v ∧ ¬ (lo ≤ k ∧ k < hi) := by
  rw [mem_removeAll, mem_covered]
  exact ⟨fun ⟨hno, hk⟩ => ⟨hk, fun hin => hno ⟨⟨v, hk⟩, hin⟩⟩,
    fun ⟨hk, hno⟩ => ⟨fun h => hno h.2, hk⟩⟩

lemma mem_removeAll_dropLast (hlast : (U.range lo hi).getLast? = some (off, w)) :
    ((U.remove off).removeAll ((U.range lo hi).map Prod.fst).dropLast).Mem k v ↔
      U.Mem k v ∧ ¬ (lo ≤ k ∧ k < hi) := by
  rw [← mem_removeAll_covered, mem_removeAll, mem_removeAll, mem_remove]
  obtain ⟨init, hinit⟩ := List.getLast?_eq_some_iff.mp hlast
  simp only [hinit, List.map_append, List.map_singleton, List.dropLast_concat, List.mem_append,
    List.mem_singleton]
  tauto

/-- **`absorbFollowing`** clears the way up to a new end. -/
theorem absorbFollowing_spec (h : U.Tidy) (hlt : lo < hi) :
    Absorbed U (absorbFollowing U lo hi).1 lo hi (absorbFollowing U lo hi).2 := by
  unfold absorbFollowing
  cases hnext : U.get? hi with
  | some v =>
    obtain ⟨n, s⟩ := v
    have hm : U.Mem hi (n, s) := get?_eq_some_iff.mp hnext
    cases s with
    | sent =>
      dsimp only
      refine .of_removed le_rfl (fun k v => mem_removeAll_covered) (fun k l s hk _ hlt => ?_)
        (fun x h1 h2 => by omega) fun l hl => by cases hm.unique hl
      have := h.apart hk hm hlt
      omega
    | acked =>
      dsimp only
      refine .of_removed (Nat.le_add_right _ _) (fun k v => ?_) (fun k l s hk _ hlt => ?_)
        (fun x h1 h2 => ⟨hi, n, hm, h1, h2⟩) fun l hl => ?_
      · obtain ⟨l, s⟩ := v
        rw [mem_removeAll, mem_covered, mem_remove]
        refine ⟨fun ⟨hno, hne, hk⟩ => ⟨hk, fun hin => ?_⟩, fun ⟨hk, hno⟩ => ?_⟩
        · have := h.cases hk hm
          exact hno ⟨⟨_, hk⟩, by omega⟩
        · exact ⟨fun hin => hno (by omega), fun hne => hno (by have := h.pos hm; omega), hk⟩
      · have := h.cases hk hm
        omega
      · exact h.not_mem_end hm hl
  | none =>
    have hfree : ∀ v, ¬ U.Mem hi v := get?_eq_none_iff.mp hnext
    cases hlast : (U.range lo hi).getLast? with
    | none =>
      dsimp only
      refine .of_removed le_rfl (fun k v => mem_removeAll_covered) (fun k l s hk h1 h2 => ?_)
        (fun x h1 h2 => by omega) fun l => hfree _
      have hmem : (k, l, s) ∈ U.range lo hi := mem_range.mpr ⟨hk, h1, h2⟩
      simp [List.getLast?_eq_none_iff.mp hlast] at hmem
    | some e =>
      obtain ⟨off, n, s⟩ := e
      obtain ⟨hoff, hlo, hhi⟩ := mem_range.mp (List.mem_of_getLast? hlast)
      dsimp only at hoff hlo hhi ⊢
      have hle : ∀ k l s', U.Mem k (l, s') → lo ≤ k → k < hi → k + l ≤ off ∨ (k = off ∧ l = n) := by
        intro k l s' hk h1 h2
        have hmem : (k, (l, s')) ∈ U.range lo hi := mem_range.mpr ⟨hk, h1, h2⟩
        have := le_of_getLast? (U.range_sorted lo hi) hlast hmem
        have := h.cases hk hoff
        omega
      split_ifs with hrem hst
      · subst hst
        refine .of_removed (by omega) (fun k v => ?_) (fun k l s hk h1 h2 => ?_)
          (fun x h1 h2 => ⟨off, n, hoff, by omega, by omega⟩) fun l hl => ?_
        · obtain ⟨l, s⟩ := v
          rw [mem_removeAll_dropLast hlast]
          refine and_congr_right fun hk => ?_
          have := h.cases hk hoff
          omega
        · have := h.cases hk hoff
          omega
        · rw [show hi + (off + n - hi) = off + n by omega] at hl
          exact h.not_mem_end hoff hl
      · obtain rfl : s = .sent := by cases s <;> trivial
        refine ⟨le_rfl, fun k l s => ?_, fun x h1 h2 => by omega, fun a m ha h1 h2 => ?_⟩
        · have hhi' : hi ∉ ((U.range lo hi).map Prod.fst).dropLast := fun hin =>
            lt_irrefl hi (mem_covered.mp (List.dropLast_subset _ hin)).2.2
          rw [mem_removeAll, mem_insert, Prod.mk.injEq]
          constructor
          · rintro ⟨hno, ⟨rfl, rfl, rfl⟩ | ⟨hne, hk⟩⟩
            · exact .inr ⟨rfl, off, n, hoff, hlo, hhi, by omega, by omega⟩
            · exact .inl ((mem_removeAll_dropLast hlast).mp (mem_removeAll.mpr ⟨hno, hk⟩))
          · rintro (hk | ⟨rfl, a, m, ha, h1, h2, h3, h4⟩)
            · obtain ⟨hno, hk'⟩ := mem_removeAll.mp ((mem_removeAll_dropLast hlast).mpr hk)
              exact ⟨hno, .inr ⟨fun hne => hfree _ (hne ▸ hk.1), hk'⟩⟩
            · rcases h.cases ha hoff with ⟨rfl, rfl, rfl⟩ | hc | hc
              · exact ⟨hhi', .inl ⟨rfl, by omega, rfl⟩⟩
              · omega
              · omega
        · rcases h.cases ha hoff with ⟨_, _, hs⟩ | hc | hc
          · cases hs
          · omega
          · omega
      · refine .of_removed le_rfl (fun k v => mem_removeAll_dropLast hlast)
          (fun k l s hk h1 h2 => ?_) (fun x h1 h2 => by omega) fun l => hfree _
        have := hle k l s hk h1 h2
        omega

/-- `[lo, hi)` is acknowledged: a run is put in place that covers it and otherwise only what was
acked, and that touches no acked run. -/
def Acknowledged (U R : RangeMap) (lo hi : ℕ) : Prop :=
  ∃ lo' hi', lo' ≤ lo ∧ hi ≤ hi' ∧ PutOf U lo' hi' .acked R ∧
    (∀ x, lo' ≤ x → x < hi' → ¬ (lo ≤ x ∧ x < hi) → U.At x .acked) ∧
    (∀ a n, U.Mem a (n, .acked) → a < lo' → a + n < lo') ∧
    ∀ a n, U.Mem a (n, .acked) → hi' < a + n → hi' < a

section

variable {R : RangeMap}

lemma Acknowledged.tidy (h : U.Tidy) (hR : Acknowledged U R lo hi) (hlt : lo < hi) : R.Tidy := by
  obtain ⟨lo', hi', hlo, hhi, hput, -, hbefore, hafter⟩ := hR
  exact h.put (by omega) hput hbefore hafter

lemma Acknowledged.at_iff (h : U.Tidy) (hR : Acknowledged U R lo hi) (hlt : lo < hi) (x : ℕ)
    (s : RangeState) :
    R.At x s ↔ (lo ≤ x ∧ x < hi ∧ s = .acked) ∨ (¬ (lo ≤ x ∧ x < hi) ∧ U.At x s) := by
  obtain ⟨lo', hi', hlo, hhi, hput, hgain, -, -⟩ := hR
  rw [at_put (by omega) hput]
  by_cases hin : lo ≤ x ∧ x < hi
  · simp [hin, show lo' ≤ x ∧ x < hi' by omega]
  · by_cases hin' : lo' ≤ x ∧ x < hi'
    · have hx := hgain x hin'.1 hin'.2 hin
      have hs : U.At x s ↔ s = .acked := ⟨fun hs => h.at_unique hs hx, fun hs => hs ▸ hx⟩
      tauto
    · tauto

/-- The new run does not start before `lo`: nothing reaches `lo`, or a sent entry that is cut
there. -/
lemma Acknowledged.of_put (hab : Absorbed U M lo hi E) (hlt : lo < hi)
    (hput : PutOf U lo E .acked R)
    (hpre : ∀ a n, U.Mem a (n, .acked) → a < lo → a + n < lo) : Acknowledged U R lo hi := by
  refine ⟨lo, E, le_rfl, hab.le, hput, fun x h1 h2 hno => hab.gained x (by omega) h2, hpre,
    fun a n ha h1 => ?_⟩
  have hlo : lo ≤ a := by
    by_contra hlt
    have := hpre a n ha (by omega)
    have := hab.le
    omega
  exact hab.after a n ha hlo h1

section

variable (h : U.Tidy) (hab : Absorbed U M lo hi E) (hlt : lo < hi)

include h hab hlt

lemma Absorbed.insert (hpre : ∀ a n s, U.Mem a (n, s) → a < lo → a + n < lo) :
    Acknowledged U (M.insert lo (E - lo, .acked)) lo hi := by
  have hle := hab.le
  refine .of_put hab hlt (fun k m s => ?_) fun a n ha => hpre a n _ ha
  rw [mem_insert, hab.mem, Prod.mk.injEq]
  constructor
  · rintro (⟨rfl, rfl, rfl⟩ | ⟨hne, ⟨hk, hout⟩ | ⟨rfl, a, n, ha, h1, h2, h3, h4⟩⟩)
    · exact .inl ⟨rfl, by omega, rfl⟩
    · have := hpre k m s hk
      have := h.pos hk
      exact .inr ⟨k, m, hk, by unfold Piece; omega⟩
    · exact .inr ⟨a, n, ha, by unfold Piece; omega⟩
  · rintro (⟨rfl, h1, rfl⟩ | ⟨a, n, ha, ⟨rfl, h1, h2⟩ | ⟨h1, h2, h3⟩⟩)
    · exact .inl ⟨rfl, by omega, rfl⟩
    · have := hpre k n s ha h1
      obtain rfl : m = n := by omega
      exact .inr ⟨by omega, .inl ⟨ha, by omega⟩⟩
    · have := hpre a n s ha
      by_cases haE : a < E
      · exact .inr ⟨by omega, .inr ⟨by omega, a, n, ha, by omega, haE, h2, by omega⟩⟩
      · obtain ⟨rfl, rfl⟩ : k = a ∧ m = n := by omega
        exact .inr ⟨by omega, .inl ⟨ha, by omega⟩⟩

/-- A sent entry that reaches the new range is cut, and what goes beyond it is put back. -/
lemma Absorbed.cut {off n : ℕ} (hoff : U.Mem off (n, .sent)) (hlo : off < lo)
    (hend : lo ≤ off + n) (hlast : ∀ k v, U.Mem k v → k < lo → k ≤ off) :
    let M₁ := M.insert off (lo - off, .sent)
    let M₂ := if off + n > E then M₁.insert E (off + n - E, .sent) else M₁
    Acknowledged U (M₂.insert lo (E - lo, .acked)) lo hi := by
  intro M₁ M₂
  have hle := hab.le
  have hmem (k m : ℕ) (s : RangeState) : M₂.Mem k (m, s) ↔
      (k = E ∧ E < off + n ∧ E + m = off + n ∧ s = .sent) ∨ (k = off ∧ off + m = lo ∧ s = .sent) ∨
        (k ≠ off ∧ (E < off + n → k ≠ E) ∧ M.Mem k (m, s)) := by
    by_cases htail : off + n > E
    · simp only [M₂, M₁, if_pos htail, mem_insert, Prod.mk.injEq]
      grind
    · simp only [M₂, M₁, if_neg htail, mem_insert, Prod.mk.injEq]
      grind
  refine .of_put hab hlt (fun k m s => ?_) fun a l ha h1 => ?_
  · rw [mem_insert, hmem, hab.mem, Prod.mk.injEq]
    constructor
    · rintro (⟨rfl, rfl, rfl⟩ | ⟨hne, ⟨rfl, h1, h2, rfl⟩ | ⟨rfl, h1, rfl⟩ | ⟨h1, h2, ⟨hk, hout⟩ |
        ⟨rfl, a, l, ha, h3, h4, h5, h6⟩⟩⟩)
      · exact .inl ⟨rfl, by omega, rfl⟩
      · exact .inr ⟨off, n, hoff, by unfold Piece; omega⟩
      · exact .inr ⟨k, n, hoff, by unfold Piece; omega⟩
      · have := h.cases hk hoff
        have := h.pos hk
        exact .inr ⟨k, m, hk, by unfold Piece; omega⟩
      · exact .inr ⟨a, l, ha, by unfold Piece; omega⟩
    · rintro (⟨rfl, h1, rfl⟩ | ⟨a, l, ha, hp⟩)
      · exact .inl ⟨rfl, by omega, rfl⟩
      · refine .inr ?_
        unfold Piece at hp
        rcases h.cases ha hoff with ⟨rfl, rfl, rfl⟩ | hc | hc
        · refine ⟨by omega, ?_⟩
          rcases hp with hp | hp
          · exact .inr (.inl ⟨hp.1, by omega, rfl⟩)
          · exact .inl ⟨by omega, by omega, by omega, rfl⟩
        · obtain ⟨rfl, rfl⟩ : k = a ∧ m = l := by omega
          exact ⟨by omega, .inr (.inr ⟨by omega, by omega, .inl ⟨ha, by omega⟩⟩)⟩
        · by_cases haE : a < E
          · exact ⟨by omega, .inr (.inr ⟨by omega, by omega,
              .inr ⟨by omega, a, l, ha, by omega, haE, by omega, by omega⟩⟩)⟩
          · obtain ⟨rfl, rfl⟩ : k = a ∧ m = l := by omega
            exact ⟨by omega, .inr (.inr ⟨by omega, by omega, .inl ⟨ha, by omega⟩⟩)⟩
  · rcases h.cases ha hoff with ⟨_, _, hs⟩ | hc | hc
    · cases hs
    · omega
    · omega

lemma Absorbed.extend {off n : ℕ} (hoff : U.Mem off (n, .acked)) (hlo : off < lo)
    (hend : lo ≤ off + n) (hlast : ∀ k v, U.Mem k v → k < lo → k ≤ off) :
    Acknowledged U (M.insert off (max (off + n) E - off, .acked)) lo hi := by
  have hle := hab.le
  refine ⟨off, max (off + n) E, hlo.le, by omega, fun k m s => ?_, fun x h1 h2 hno => ?_,
    fun a l ha h1 => ?_, fun a l ha h1 => ?_⟩
  · rw [mem_insert, hab.mem, Prod.mk.injEq]
    constructor
    · rintro (⟨rfl, rfl, rfl⟩ | ⟨hne, ⟨hk, hout⟩ | ⟨rfl, a, l, ha, h1, h2, h3, h4⟩⟩)
      · exact .inl ⟨rfl, by omega, rfl⟩
      · have := h.cases hk hoff
        have := h.pos hk
        exact .inr ⟨k, m, hk, by unfold Piece; omega⟩
      · have := h.cases ha hoff
        exact .inr ⟨a, l, ha, by unfold Piece; omega⟩
    · rintro (⟨rfl, h1, rfl⟩ | ⟨a, l, ha, hp⟩)
      · exact .inl ⟨rfl, by omega, rfl⟩
      · refine .inr ?_
        have := h.cases ha hoff
        unfold Piece at hp
        by_cases haE : lo ≤ a ∧ a < E
        · exact ⟨by omega, .inr ⟨by omega, a, l, ha, by omega, haE.2, by omega, by omega⟩⟩
        · obtain ⟨rfl, rfl⟩ : k = a ∧ m = l := by omega
          exact ⟨by omega, .inl ⟨ha, haE⟩⟩
  · by_cases hx : x < off + n
    · exact ⟨off, n, hoff, h1, hx⟩
    · exact hab.gained x (by omega) (by omega)
  · rcases h.apart ha hoff h1 with hc | ⟨_, hs⟩
    · exact hc
    · exact absurd rfl hs
  · have := hab.after a l ha
    rcases h.cases ha hoff with hc | hc | ⟨hc, hc' | ⟨_, hs⟩⟩
    · omega
    · omega
    · omega
    · exact absurd rfl hs

/-- **`mergePreceding`** puts the acknowledged range in place. -/
theorem mergePreceding_spec : Acknowledged U (mergePreceding M lo E) lo hi := by
  have hmem (k : ℕ) (v : ℕ × RangeState) (hk : k < lo) : M.Mem k v ↔ U.Mem k v := by
    rw [hab.mem]
    refine ⟨fun hm => hm.elim And.left fun hm => ?_, fun hm => .inl ⟨hm, by omega⟩⟩
    omega
  unfold mergePreceding
  cases hprev : M.lastBelow lo with
  | none =>
    refine hab.insert h hlt fun a n s ha hlo => ?_
    have := lastBelow_eq_none_iff.mp hprev a _ ((hmem a _ hlo).mpr ha)
    omega
  | some e =>
    obtain ⟨off, n, s⟩ := e
    obtain ⟨hoff, hlo⟩ := lastBelow_mem hprev
    have hlast (k : ℕ) (v : ℕ × RangeState) (hk : U.Mem k v) (hlt : k < lo) : k ≤ off :=
      le_lastBelow hprev ((hmem k v hlt).mpr hk) hlt
    rw [hmem off _ hlo] at hoff
    dsimp only
    by_cases hend : off + n ≥ lo
    · rw [if_pos hend]
      cases s with
      | sent => exact hab.cut h hlt hoff hlo hend hlast
      | acked => exact hab.extend h hlt hoff hlo hend hlast
    · rw [if_neg hend]
      refine hab.insert h hlt fun a l s ha h1 => ?_
      have := hlast a _ ha h1
      have := h.cases ha hoff
      omega

end

end

/-! ### Acknowledging at the prefix -/

/-- What `coalesceAcked` makes of a tracker whose prefix may have run over entries: they are cut,
and the prefix goes on over an acked entry. -/
structure Coalesced (t t' : RangeTracker) : Prop where
  le : t.acked ≤ t'.acked
  cut : CutOf t.used 0 t'.acked (fun _ => True) t'.used
  gained : ∀ x, t.acked ≤ x → x < t'.acked → t.used.At x .acked
  acked : ∀ n, ¬ t'.used.Mem t'.acked (n, .acked)
  firstUnmarked : t'.firstUnmarked = t.firstUnmarked

lemma cutOf_zero {A : ℕ} : CutOf U 0 A (fun _ => True) M ↔ ∀ k m s, M.Mem k (m, s) ↔
    ∃ a n, U.Mem a (n, s) ∧ k = max a A ∧ A < a + n ∧ k + m = a + n := by
  simp [CutOf, Piece]

lemma Coalesced.of_acked {t : RangeTracker} (h : t.used.Tidy) {n : ℕ}
    (hoff : t.used.Mem off (n, .acked)) (hfirst : ∀ k v, t.used.Mem k v → off ≤ k)
    (hle : off ≤ t.acked) (hend : t.acked ≤ off + n) :
    Coalesced t { t with used := t.used.remove off, acked := off + n } := by
  refine ⟨hend, cutOf_zero.mpr fun k m s => ?_, fun x h1 h2 => ⟨off, n, hoff, hle.trans h1, h2⟩,
    fun l hl => h.not_mem_end hoff (mem_remove.mp hl).2, rfl⟩
  dsimp only
  rw [mem_remove]
  constructor
  · rintro ⟨hne, hk⟩
    have := h.pos hk
    have := h.apart hoff hk (lt_of_le_of_ne (hfirst k _ hk) (Ne.symm hne))
    exact ⟨k, m, hk, by omega⟩
  · rintro ⟨a, l, ha, h1, h2, h3⟩
    have := h.cases ha hoff
    obtain ⟨rfl, rfl⟩ : k = a ∧ m = l := by omega
    exact ⟨by omega, ha⟩

lemma coalesceLoop_spec (l : List (ℕ × (ℕ × RangeState))) (t : RangeTracker) (h : t.used.Tidy)
    (hl : l.Pairwise (fun a b => a.1 < b.1)) (hmem : ∀ k v, t.used.Mem k v ↔ (k, v) ∈ l) :
    Coalesced t (coalesceLoop l t) := by
  induction l generalizing t with
  | nil =>
    refine ⟨le_rfl, cutOf_zero.mpr ?_, fun x h1 h2 => absurd h1 (not_le.mpr h2), ?_, rfl⟩ <;>
      simp [coalesceLoop, hmem]
  | cons e rest ih =>
    obtain ⟨off, n, s⟩ := e
    have hoff : t.used.Mem off (n, s) := (hmem _ _).mpr (List.mem_cons_self ..)
    obtain ⟨hlt', hrest⟩ := List.pairwise_cons.mp hl
    have hfirst (k : ℕ) (v : ℕ × RangeState) (hk : t.used.Mem k v) : off ≤ k := by
      rcases List.mem_cons.mp ((hmem k v).mp hk) with heq | hin
      · exact (Prod.mk.inj heq).1.ge
      · exact (hlt' _ hin).le
    unfold coalesceLoop
    dsimp only
    split_ifs with hlt hover hst heq hst
    · -- an acked entry overlaps the end of the prefix
      subst hst
      rw [show t.acked + (off + n - t.acked) = off + n by omega]
      exact .of_acked h hoff hfirst hlt.le (by omega)
    · -- a sent entry overlaps: it is cut to start at the prefix
      refine ⟨le_rfl, cutOf_zero.mpr fun k m s' => ?_, fun x h1 h2 => absurd h1 (not_le.mpr h2),
        fun l hl => ?_, rfl⟩
      · dsimp only
        rw [mem_insert, mem_remove, Prod.mk.injEq]
        constructor
        · rintro (⟨rfl, rfl, rfl⟩ | ⟨hne, hne', hk⟩)
          · exact ⟨off, n, hoff, by omega⟩
          · have := hfirst k _ hk
            have := h.cases hk hoff
            exact ⟨k, m, hk, by omega⟩
        · rintro ⟨a, l, ha, h1, h2, h3⟩
          rcases h.cases ha hoff with ⟨rfl, rfl, rfl⟩ | hc | hc
          · exact .inl ⟨by omega, by omega, rfl⟩
          · omega
          · obtain ⟨rfl, rfl⟩ : k = a ∧ m = l := by omega
            exact .inr ⟨by omega, by omega, ha⟩
      · rw [mem_insert, Prod.mk.injEq] at hl
        exact hst (hl.elim (fun hl => hl.2.2.symm) fun hl => absurd rfl hl.1)
    · -- the entry lies within the prefix
      have hmem' (k : ℕ) (v : ℕ × RangeState) : (t.used.remove off).Mem k v ↔ (k, v) ∈ rest := by
        rw [mem_remove, hmem, List.mem_cons, Prod.mk.injEq]
        exact ⟨fun hk => hk.2.resolve_left fun heq => hk.1 heq.1,
          fun hk => ⟨(hlt' _ hk).ne', .inr hk⟩⟩
      obtain ⟨hle, hcut, hgain, hacked, hfu⟩ := ih { t with used := t.used.remove off }
        (h.of_subset fun k v hk => (mem_remove.mp hk).2) hrest hmem'
      dsimp only at hle
      refine ⟨hle, cutOf_zero.mpr fun k m s' => (cutOf_zero.mp hcut k m s').trans ?_,
        fun x h1 h2 => ?_, hacked, hfu⟩
      · refine exists_congr fun a => exists_congr fun l => and_congr_left fun ⟨_, hp, _⟩ => ?_
        rw [mem_remove]
        refine ⟨And.right, fun ha => ⟨?_, ha⟩⟩
        rintro rfl
        have := (Prod.mk.inj (ha.unique hoff)).1
        omega
      · obtain ⟨k, l, hk, hx⟩ := hgain x h1 h2
        exact ⟨k, l, (mem_remove.mp hk).2, hx⟩
    · -- an acked entry starts at the end of the prefix
      subst hst heq
      exact .of_acked h hoff hfirst le_rfl (Nat.le_add_right _ _)
    all_goals
      refine ⟨le_rfl, cutOf_zero.mpr fun k m s' => ?_, fun x h1 h2 => absurd h1 (not_le.mpr h2),
        fun l hm => ?_, rfl⟩
      · constructor
        · intro hk
          have := hfirst k _ hk
          have := h.pos hk
          exact ⟨k, m, hk, by omega⟩
        · rintro ⟨a, l, ha, h1, h2, h3⟩
          have := hfirst a _ ha
          obtain ⟨rfl, rfl⟩ : k = a ∧ m = l := by omega
          exact ha
    · subst heq
      exact hst (Prod.mk.inj (hoff.unique hm)).2
    · have := hfirst _ _ hm
      omega

/-! ### The effect on the tracker -/

section

variable {t t' : RangeTracker} {off stop : ℕ}

lemma stateAt_acknowledged (h : t.WF) (h' : t'.WF)
    (hacked : ∀ x, (x < t'.acked ∨ t'.used.At x .acked) ↔ (off ≤ x ∧ x < stop) ∨ x < t.acked ∨
    t.used.At x .acked)
    (hsent : ∀ x, t'.used.At x .sent ↔ ¬ (off ≤ x ∧ x < stop) ∧ t.used.At x .sent) (x : ℕ) :
    t'.stateAt x = if off ≤ x ∧ x < stop then .acked else t.stateAt x := by
  apply h'.stateAt_eq
  · rw [hacked]
    split_ifs with hx <;> simp [hx, h.stateAt_eq_acked]
  · rw [hsent]
    split_ifs with hx <;> simp [hx, h.stateAt_eq_sent]

lemma Coalesced.spec (h : t.WF) (hoff : off ≤ t.acked) (hlt : t.acked < stop)
    (hco : Coalesced { t with firstUnmarked := none, acked := stop } t') :
    t'.WF ∧ ∀ x, t'.stateAt x = if off ≤ x ∧ x < stop then .acked else t.stateAt x := by
  obtain ⟨hle, hcut, hgain, hacked, hfu⟩ := hco
  dsimp only at hle hcut hgain
  have hwf : t'.WF := by
    refine ⟨h.tidy.cut (by omega) hcut, fun k v hk => ?_, hacked,
      fun r hr => nomatch hfu.symm.trans hr⟩
    obtain ⟨a, n, -, hp, -⟩ := (cutOf_zero.mp hcut k v.1 v.2).mp hk
    omega
  have hat (x : ℕ) (s : RangeState) : t'.used.At x s ↔ t'.acked ≤ x ∧ t.used.At x s := by
    rw [at_cut hcut]
    simp [and_comm]
  refine ⟨hwf, stateAt_acknowledged h hwf (fun x => ?_) fun x => ?_⟩
  · grind
  · -- what the prefix has gained was not sent
    rw [hat]
    refine and_congr_left fun hs => ⟨fun hx => by omega, fun hx => ?_⟩
    by_contra hA
    have := h.le_of_at hs
    cases h.tidy.at_unique hs (hgain x (by omega) (by omega))

lemma Acknowledged.spec (h : t.WF) {R : RangeMap} (hoff : t.acked < off)
    (hlt : off < stop) (hR : Acknowledged t.used R off stop) :
    WF { t with firstUnmarked := none, used := R } ∧
      ∀ x, stateAt { t with firstUnmarked := none, used := R } x =
        if off ≤ x ∧ x < stop then .acked else t.stateAt x := by
  have hat := hR.at_iff h.tidy hlt
  have hwf : WF { t with firstUnmarked := none, used := R } := by
    refine h.of_used (hR.tidy h.tidy hlt) (fun x s hs => ?_) fun hs => ?_
    · rcases (hat x s).mp hs with hx | ⟨-, hs⟩
      · omega
      · exact h.le_of_at hs
    · exact ((hat _ _).mp hs).elim (fun hx => absurd hx.1 (not_le.mpr hoff)) And.right
  refine ⟨hwf, stateAt_acknowledged h hwf (fun x => ?_) fun x => ?_⟩
  · simp only [hat]
    tauto
  · simp only [hat]
    simp

end

/-- **`markAcked`** keeps the tracker well-formed and acknowledges exactly the bytes of its
range. -/
theorem markAcked_spec {t : RangeTracker} (h : t.WF) (off len : ℕ) :
    (t.markAcked off len).WF ∧ ∀ x, (t.markAcked off len).stateAt x =
      if off ≤ x ∧ x < off + len then .acked else t.stateAt x := by
  unfold markAcked
  dsimp only
  split_ifs with h0 hpre
  · -- nothing of the range lies beyond the prefix
    refine ⟨h, fun x => ?_⟩
    split_ifs with hx
    · exact stateAt_of_lt (by omega)
    · rfl
  · rw [show t.acked + (off + len - max t.acked off) = off + len by omega]
    exact (coalesceLoop_spec _ { t with firstUnmarked := none, acked := off + len } h.tidy
      t.used.sorted fun _ _ => Iff.rfl).spec h (by omega) (by omega)
  · obtain ⟨hlt, hmax⟩ : t.acked < off ∧ max t.acked off = off := by omega
    rw [hmax, show off + (off + len - off) = off + len by omega]
    have hlen : off < off + len := by omega
    exact (mergePreceding_spec h.tidy (absorbFollowing_spec h.tidy hlen) hlen).spec h hlt hlen

end RangeTracker

end Neqo
