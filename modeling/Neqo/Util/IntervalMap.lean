import Neqo.Util.OrdMap

/-!
# Segment maps

An ordered map from start offsets to lists, each of which holds the values of consecutive offsets.
`Holds` reads such a map as a relation between offsets and values, and `Separate` says that no two
lists overlap. In a separate map, a list may take the place of those that it spans (`Replaced`).
-/

namespace Neqo

namespace OrdMap

variable {A : Type} {m m' : OrdMap ℕ (List A)} {k k' x : ℕ} {v v' w : List A}

/-- Offset `x` holds `a`. -/
def Holds (m : OrdMap ℕ (List A)) (x : ℕ) (a : A) : Prop :=
  ∃ k v, m.Mem k v ∧ k ≤ x ∧ v[x - k]? = some a

/-- Some list covers offset `x`. -/
def Covers (m : OrdMap ℕ (List A)) (x : ℕ) : Prop := ∃ k v, m.Mem k v ∧ k ≤ x ∧ x < k + v.length

/-- No two lists overlap. -/
def Separate (m : OrdMap ℕ (List A)) : Prop :=
  ∀ k v k' v', m.Mem k v → m.Mem k' v' → k < k' → k + v.length ≤ k'

lemma lt_of_getElem? {a : A} (hk : k ≤ x) (h : v[x - k]? = some a) : x < k + v.length := by
  have := (List.getElem?_eq_some_iff.mp h).1
  omega

lemma exists_getElem? (hk : k ≤ x) (hx : x < k + v.length) : ∃ a, v[x - k]? = some a :=
  ⟨_, List.getElem?_eq_getElem (show x - k < v.length by omega)⟩

lemma getElem?_append_sub {a : A} (hk : k ≤ x) : (v ++ w)[x - k]? = some a ↔
    v[x - k]? = some a ∨ (k + v.length ≤ x ∧ w[x - (k + v.length)]? = some a) := by
  by_cases hlt : x - k < v.length
  · rw [List.getElem?_append_left hlt, iff_comm]
    exact or_iff_left fun hge => by omega
  · have hnone : v[x - k]? = none := List.getElem?_eq_none (by omega)
    rw [List.getElem?_append_right (by omega), hnone, Nat.sub_sub]
    simp [show k + v.length ≤ x by omega]

lemma Holds.covers {a : A} (h : m.Holds x a) : m.Covers x := by
  obtain ⟨k, v, hm, hk, ha⟩ := h
  exact ⟨k, v, hm, hk, lt_of_getElem? hk ha⟩

lemma Separate.of_subset (hs : m.Separate) (h : ∀ k v, m'.Mem k v → m.Mem k v) : m'.Separate :=
  fun k v k' v' hm hm' hlt => hs k v k' v' (h k v hm) (h k' v' hm') hlt

/-- Two lists of a separate map: they are one, or one is before the other. -/
lemma Separate.cases (hs : m.Separate) (hm : m.Mem k v) (hm' : m.Mem k' v') :
    (k = k' ∧ v = v') ∨ (k < k' ∧ k + v.length ≤ k') ∨ (k' < k ∧ k' + v'.length ≤ k) := by
  rcases lt_trichotomy k k' with hlt | rfl | hlt
  · exact .inr (.inl ⟨hlt, hs k v k' v' hm hm' hlt⟩)
  · exact .inl ⟨rfl, hm.unique hm'⟩
  · exact .inr (.inr ⟨hlt, hs k' v' k v hm' hm hlt⟩)

lemma not_covers_empty (x : ℕ) : ¬ (empty : OrdMap ℕ (List A)).Covers x :=
  fun ⟨_, _, h, _⟩ => not_mem_empty _ _ h

/-! ### Replacing lists -/

/-- The list `w` at `k` takes the place of the lists that it spans; no list sticks out of it. -/
structure Replaced (m m' : OrdMap ℕ (List A)) (k : ℕ) (w : List A) : Prop where
  mem : ∀ j v, m'.Mem j v ↔
    (j = k ∧ v = w) ∨ (m.Mem j v ∧ (j + v.length ≤ k ∨ k + w.length ≤ j))
  spans : ∀ j v, m.Mem j v →
    j + v.length ≤ k ∨ k + w.length ≤ j ∨ (k ≤ j ∧ j + v.length ≤ k + w.length)

lemma Replaced.separate (h : Replaced m m' k w) (hs : m.Separate) (hw : 0 < w.length) :
    m'.Separate := by
  intro a va b vb ha hb hlt
  rcases (h.mem a va).mp ha with ⟨rfl, rfl⟩ | ⟨ha, houta⟩ <;>
    rcases (h.mem b vb).mp hb with ⟨rfl, rfl⟩ | ⟨hb, houtb⟩
  · omega
  · omega
  · omega
  · exact hs a va b vb ha hb hlt

lemma Replaced.holds (h : Replaced m m' k w) {a : A} (hx : m'.Holds x a) :
    m.Holds x a ∨ (k ≤ x ∧ w[x - k]? = some a) := by
  obtain ⟨j, v, hm, hj, ha⟩ := hx
  rcases (h.mem j v).mp hm with ⟨rfl, rfl⟩ | ⟨hm, -⟩
  · exact .inr ⟨hj, ha⟩
  · exact .inl ⟨j, v, hm, hj, ha⟩

lemma Replaced.covers (h : Replaced m m' k w) :
    m'.Covers x ↔ m.Covers x ∨ (k ≤ x ∧ x < k + w.length) := by
  constructor
  · rintro ⟨j, v, hm, hj, hx⟩
    rcases (h.mem j v).mp hm with ⟨rfl, rfl⟩ | ⟨hm, -⟩
    · exact .inr ⟨hj, hx⟩
    · exact .inl ⟨j, v, hm, hj, hx⟩
  · have hw : k ≤ x → x < k + w.length → m'.Covers x :=
      fun h1 h2 => ⟨k, w, (h.mem k w).mpr (.inl ⟨rfl, rfl⟩), h1, h2⟩
    rintro (⟨j, v, hm, hj, hx⟩ | ⟨h1, h2⟩)
    · rcases h.spans j v hm with hout | hout | hin
      · exact ⟨j, v, (h.mem j v).mpr (.inr ⟨hm, .inl hout⟩), hj, hx⟩
      · exact ⟨j, v, (h.mem j v).mpr (.inr ⟨hm, .inr hout⟩), hj, hx⟩
      · exact hw (by omega) (by omega)
    · exact hw h1 h2

/-- The lists between `lo` and `hi` have been removed; none sticks out of the gap. -/
structure Cleared (m m' : OrdMap ℕ (List A)) (lo hi : ℕ) : Prop where
  mem : ∀ j v, m'.Mem j v ↔ m.Mem j v ∧ (j + v.length ≤ lo ∨ hi ≤ j)
  spans : ∀ j v, m.Mem j v → j + v.length ≤ lo ∨ hi ≤ j ∨ (lo ≤ j ∧ j + v.length ≤ hi)

lemma Cleared.of_gap {lo hi : ℕ} (h : ∀ j v, m.Mem j v → j + v.length ≤ lo ∨ hi ≤ j) :
    Cleared m m lo hi :=
  ⟨fun j v => (and_iff_left_of_imp (h j v)).symm, fun j v hm => (h j v hm).imp_right .inl⟩

section Cleared

variable {lo hi : ℕ} (h : Cleared m m' lo hi) (hs : m.Separate)
  (hpos : ∀ j v, m.Mem j v → 0 < v.length)
include h hpos

lemma Cleared.insert (hw : lo + w.length = hi) (hlt : lo < hi) :
    Replaced m (m'.insert lo w) lo w := by
  subst hw
  refine ⟨fun j v => ?_, h.spans⟩
  rw [mem_insert, h.mem]
  refine or_congr_right ⟨And.right, fun hm => ⟨?_, hm⟩⟩
  rintro rfl
  have := hpos j v hm.1
  omega

include hs

lemma Cleared.extend (hw : lo + w.length = hi) (hk : m.Mem k v) (hlo : k + v.length = lo) :
    Replaced m (m'.insert k (v ++ w)) k (v ++ w) := by
  have hv := hpos k v hk
  refine ⟨fun j u => ?_, fun j u hj => ?_⟩
  · rw [mem_insert, h.mem, List.length_append]
    refine or_congr_right ⟨fun ⟨hne, hj, hout⟩ => ⟨hj, ?_⟩, fun ⟨hj, hout⟩ => ⟨?_, hj, by omega⟩⟩
    · have := hs.cases hj hk
      have := hpos j u hj
      omega
    · rintro rfl
      have := hpos j u hj
      omega
  · have := h.spans j u hj
    rw [List.length_append]
    rcases hs.cases hj hk with ⟨rfl, rfl⟩ | h1 | h1 <;> omega

lemma Cleared.remove (hv : m.Mem hi v) (hle : lo ≤ hi) :
    Cleared m (m'.remove hi) lo (hi + v.length) := by
  have hlen := hpos hi v hv
  refine ⟨fun j u => ?_, fun j u hj => ?_⟩
  · rw [mem_remove, h.mem]
    refine ⟨fun ⟨hne, hj, hout⟩ => ⟨hj, ?_⟩, fun ⟨hj, hout⟩ => ⟨?_, hj, by omega⟩⟩
    · have := hs.cases hj hv
      omega
    · rintro rfl
      rw [hj.unique hv] at hout
      omega
  · have := h.spans j u hj
    rcases hs.cases hj hv with ⟨rfl, rfl⟩ | h1 | h1 <;> omega

end Cleared

/-!
## Run maps

An ordered map from start offsets to runs, which have a length and a state, gives states to offsets
(`At`). A map is `Tidy` when its runs are not empty and are as long as they can be: they do not
overlap, and those that touch differ in their states. There are two ways to change one:

* `CutOf`: some states are taken out of an interval, which leaves pieces of the runs (`Piece`);
* `PutOf`: an interval is overwritten by a new run.

Both are stated by the runs that the new map has, and both keep a map tidy (`Tidy.cut`, `Tidy.put`)
and change states in the interval only (`at_cut`, `at_put`).
-/

variable {S : Type} {U M : OrdMap ℕ (ℕ × S)}

/-- Offset `x` is in state `s`. -/
def At (m : OrdMap ℕ (ℕ × S)) (x : ℕ) (s : S) : Prop := ∃ k n, m.Mem k (n, s) ∧ k ≤ x ∧ x < k + n

/-- Runs are not empty, do not overlap, and do not touch a run of the same state. -/
structure Tidy (m : OrdMap ℕ (ℕ × S)) : Prop where
  pos : ∀ {k n s}, m.Mem k (n, s) → 0 < n
  apart : ∀ {k n s k' n' s'}, m.Mem k (n, s) → m.Mem k' (n', s') → k < k' →
    k + n < k' ∨ (k + n = k' ∧ s ≠ s')

lemma Tidy.cases (h : U.Tidy) {k n k' n' : ℕ} {s s' : S} (hm : U.Mem k (n, s))
    (hm' : U.Mem k' (n', s')) : (k = k' ∧ n = n' ∧ s = s') ∨
      (k < k' ∧ (k + n < k' ∨ (k + n = k' ∧ s ≠ s'))) ∨
      (k' < k ∧ (k' + n' < k ∨ (k' + n' = k ∧ s' ≠ s))) := by
  rcases lt_trichotomy k k' with hlt | rfl | hlt
  · exact .inr (.inl ⟨hlt, h.apart hm hm' hlt⟩)
  · exact .inl ⟨rfl, Prod.mk.inj (hm.unique hm')⟩
  · exact .inr (.inr ⟨hlt, h.apart hm' hm hlt⟩)

lemma Tidy.not_mem_end (h : U.Tidy) {k n n' : ℕ} {s : S} (hm : U.Mem k (n, s)) :
    ¬ U.Mem (k + n) (n', s) := by
  intro hm'
  have := h.apart hm hm' (Nat.lt_add_of_pos_right (h.pos hm))
  simp at this

lemma Tidy.of_subset (h : U.Tidy) (hsub : ∀ k v, M.Mem k v → U.Mem k v) : M.Tidy :=
  ⟨fun hm => h.pos (hsub _ _ hm), fun hm hm' => h.apart (hsub _ _ hm) (hsub _ _ hm')⟩

lemma Tidy.at_unique (h : U.Tidy) {x : ℕ} {s s' : S} (hs : U.At x s) (hs' : U.At x s') :
    s = s' := by
  obtain ⟨k, n, hm, hk, hx⟩ := hs
  obtain ⟨k', n', hm', hk', hx'⟩ := hs'
  rcases h.cases hm hm' with h | h | h
  · exact h.2.2
  · omega
  · omega

/-- A piece of the run `[a, a + n)` that is outside of `[lo, hi)`. -/
def Piece (lo hi a n k m : ℕ) : Prop :=
  (k = a ∧ a < lo ∧ k + m = min (a + n) lo) ∨ (k = max a hi ∧ hi < a + n ∧ k + m = a + n)

/-- `M` is `U` with the states that satisfy `p` taken out of `[lo, hi)`. -/
def CutOf (U : OrdMap ℕ (ℕ × S)) (lo hi : ℕ) (p : S → Prop) (M : OrdMap ℕ (ℕ × S)) : Prop :=
  ∀ k m s, M.Mem k (m, s) ↔
    ∃ a n, U.Mem a (n, s) ∧ ((p s ∧ Piece lo hi a n k m) ∨ (¬ p s ∧ k = a ∧ m = n))

/-- `M` is `U` with `[lo, hi)` overwritten by a run in state `t`. -/
def PutOf (U : OrdMap ℕ (ℕ × S)) (lo hi : ℕ) (t : S) (M : OrdMap ℕ (ℕ × S)) : Prop :=
  ∀ k m s, M.Mem k (m, s) ↔
    (k = lo ∧ lo + m = hi ∧ s = t) ∨ ∃ a n, U.Mem a (n, s) ∧ Piece lo hi a n k m

variable {lo hi : ℕ} {p : S → Prop} {t : S}

lemma Tidy.cut (h : U.Tidy) (_ : lo < hi) (hM : CutOf U lo hi p M) : M.Tidy := by
  refine ⟨fun {k m s} hm => ?_, fun {k m s k' m' s'} hm hm' hk => ?_⟩
  · obtain ⟨a, n, ha, hc⟩ := (hM _ _ _).mp hm
    grind [Piece, h.pos ha]
  · obtain ⟨a, n, ha, hc⟩ := (hM _ _ _).mp hm
    obtain ⟨a', n', ha', hc'⟩ := (hM _ _ _).mp hm'
    grind [Piece, h.cases ha ha']

lemma at_cut (hM : CutOf U lo hi p M) (x : ℕ) (s : S) :
    M.At x s ↔ U.At x s ∧ ¬ (p s ∧ lo ≤ x ∧ x < hi) := by
  constructor
  · rintro ⟨k, m, hm, hk, hx⟩
    obtain ⟨a, n, ha, hc⟩ := (hM _ _ _).mp hm
    exact ⟨⟨a, n, ha, by grind [Piece]⟩, by grind [Piece]⟩
  · rintro ⟨⟨a, n, ha, hk, hx⟩, hout⟩
    by_cases hp : p s
    · by_cases hlo : x < lo
      · exact ⟨a, min (a + n) lo - a, (hM _ _ _).mpr ⟨a, n, ha, by grind [Piece]⟩, by omega⟩
      · exact ⟨max a hi, a + n - max a hi, (hM _ _ _).mpr ⟨a, n, ha, by grind [Piece]⟩, by grind⟩
    · exact ⟨a, n, (hM _ _ _).mpr ⟨a, n, ha, .inr ⟨hp, rfl, rfl⟩⟩, hk, hx⟩

lemma Tidy.put (h : U.Tidy) (hlt : lo < hi) (hM : PutOf U lo hi t M)
    (hbefore : ∀ a n, U.Mem a (n, t) → a < lo → a + n < lo)
    (hafter : ∀ a n, U.Mem a (n, t) → hi < a + n → hi < a) : M.Tidy := by
  refine ⟨fun {k m s} hm => ?_, fun {k m s k' m' s'} hm hm' hk => ?_⟩
  · rcases (hM _ _ _).mp hm with hc | ⟨a, n, ha, hc⟩
    · omega
    · grind [Piece, h.pos ha]
  · rcases (hM _ _ _).mp hm with hc | ⟨a, n, ha, hc⟩ <;>
      rcases (hM _ _ _).mp hm' with hc' | ⟨a', n', ha', hc'⟩
    · omega
    · grind [Piece]
    · grind [Piece]
    · grind [Piece, h.cases ha ha']

lemma at_put (hlt : lo < hi) (hM : PutOf U lo hi t M) (x : ℕ) (s : S) :
    M.At x s ↔ (lo ≤ x ∧ x < hi ∧ s = t) ∨ (¬ (lo ≤ x ∧ x < hi) ∧ U.At x s) := by
  constructor
  · rintro ⟨k, m, hm, hk, hx⟩
    rcases (hM _ _ _).mp hm with hc | ⟨a, n, ha, hc⟩
    · exact .inl (by grind)
    · exact .inr ⟨by grind [Piece], a, n, ha, by grind [Piece]⟩
  · rintro (⟨h1, h2, rfl⟩ | ⟨hout, a, n, ha, hk, hx⟩)
    · exact ⟨lo, hi - lo, (hM _ _ _).mpr (.inl ⟨rfl, by omega, rfl⟩), h1, by omega⟩
    · by_cases hlo : x < lo
      · exact ⟨a, min (a + n) lo - a, (hM _ _ _).mpr (.inr ⟨a, n, ha, by grind [Piece]⟩), by omega⟩
      · exact ⟨max a hi, a + n - max a hi,
          (hM _ _ _).mpr (.inr ⟨a, n, ha, by grind [Piece]⟩), by grind⟩

end OrdMap

end Neqo
