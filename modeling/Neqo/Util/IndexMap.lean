import Mathlib.Algebra.Order.BigOperators.Group.List
import Mathlib.Algebra.Order.Ring.Nat
import Mathlib.Data.List.Nodup
import Mathlib.Data.List.Perm.Subperm

/-!
# Insertion-ordered maps

`IndexMap K V` is a list of entries whose keys are pairwise distinct, in the order in which the keys
were first inserted. Lookups and updates are described by what they do to `Mem`, the relation of
the entries, so that proofs about a map never look at its list.
-/

namespace Neqo

open List Option Prod

/-- A map that iterates in the order of insertion. -/
structure IndexMap (K V : Type) where
  entries : List (K × V)
  nodup : (entries.map fst).Nodup

namespace IndexMap

variable {K V : Type}

/-- `k` is mapped to `v`. -/
def Mem (m : IndexMap K V) (k : K) (v : V) : Prop := (k, v) ∈ m.entries

/-- The map with no entries. -/
def empty : IndexMap K V := ⟨[], nodup_nil⟩

lemma not_mem_empty (k : K) (v : V) : ¬ (empty : IndexMap K V).Mem k v := not_mem_nil

variable {m : IndexMap K V} {k k' : K} {v : V}

lemma Mem.unique {w : V} (h : m.Mem k v) (h' : m.Mem k w) : v = w := by
  have hinj := inj_on_of_nodup_map m.nodup h h' rfl
  exact congrArg snd hinj

/-! ### Updates -/

/-- The number of entries. -/
def len (m : IndexMap K V) : ℕ := m.entries.length

/-- Apply `f` to every value. -/
def mapValues (m : IndexMap K V) (f : K → V → V) : IndexMap K V where
  entries := m.entries.map fun e => (e.1, f e.1 e.2)
  nodup := by
    rw [List.map_map]
    exact m.nodup

/-- Keep the entries that satisfy `p`. -/
def retain (m : IndexMap K V) (p : K → V → Bool) : IndexMap K V where
  entries := m.entries.filter fun e => p e.1 e.2
  nodup := m.nodup.sublist (filter_sublist.map fst)

lemma mem_mapValues {f : K → V → V} : (m.mapValues f).Mem k v ↔ ∃ w, m.Mem k w ∧ f k w = v := by
  constructor
  · intro h
    obtain ⟨⟨k', w⟩, hw, heq⟩ := mem_map.mp h
    obtain ⟨rfl, rfl⟩ := Prod.mk.inj heq
    exact ⟨w, hw, rfl⟩
  · rintro ⟨w, hw, rfl⟩
    exact mem_map.mpr ⟨(k, w), hw, rfl⟩

lemma mem_retain {p : K → V → Bool} : (m.retain p).Mem k v ↔ m.Mem k v ∧ p k v = true := mem_filter

/-! ### Sums -/

/-- The sum of a quantity over all values. -/
def sum (m : IndexMap K V) (f : V → ℕ) : ℕ := (m.entries.map fun e => f e.2).sum

/-- The number of values that satisfy `p`. -/
def count (m : IndexMap K V) (p : V → Bool) : ℕ := m.sum fun v => if p v then 1 else 0

lemma count_eq_countP (m : IndexMap K V) (p : V → Bool) :
    m.count p = m.entries.countP fun e => p e.2 := by
  unfold count sum
  induction m.entries with
  | nil => rfl
  | cons e rest ih =>
    rw [map_cons, sum_cons, countP_cons, ih, add_comm]

/-- Distinct keys whose values count are at most as many as are counted. -/
lemma length_le_count {p : V → Bool} {keys : List K} (hnodup : keys.Nodup)
    (h : ∀ k ∈ keys, ∃ v, m.Mem k v ∧ p v = true) : keys.length ≤ m.count p := by
  have hsub : keys ⊆ (m.entries.filter fun e => p e.2).map fst := by
    intro k hk
    obtain ⟨v, hv, hp⟩ := h k hk
    exact mem_map.mpr ⟨(k, v), mem_filter.mpr ⟨hv, hp⟩, rfl⟩
  have hle := (hnodup.subperm hsub).length_le
  rwa [length_map, ← countP_eq_length_filter, ← count_eq_countP] at hle

lemma le_sum_of_mem (h : m.Mem k v) (f : V → ℕ) : f v ≤ m.sum f :=
  single_le_sum (fun _ _ => Nat.zero_le _) _ (mem_map.mpr ⟨(k, v), h, rfl⟩)

lemma sum_le_sum {f g : V → ℕ} (h : ∀ k v, m.Mem k v → f v ≤ g v) : m.sum f ≤ m.sum g :=
  List.sum_le_sum fun e he => h e.1 e.2 he

/-! ### Lookups and insertions -/

variable [DecidableEq K]

/-- The value of a key. -/
def get? (m : IndexMap K V) (k : K) : Option V :=
  (m.entries.find? fun e => e.1 = k).map snd

/-- Remove a key. -/
def remove (m : IndexMap K V) (k : K) : IndexMap K V := m.retain fun k' _ => k' ≠ k

def containsKey (m : IndexMap K V) (k : K) : Bool := (m.get? k).isSome

lemma get?_eq_some_iff : m.get? k = some v ↔ m.Mem k v := by
  unfold get?
  constructor
  · intro h
    obtain ⟨⟨k', w⟩, hfind, rfl⟩ := map_eq_some_iff.mp h
    obtain rfl : k' = k := by simpa using find?_some hfind
    exact mem_of_find?_eq_some hfind
  · intro h
    cases hfind : m.entries.find? fun e => e.1 = k with
    | none => simpa using find?_eq_none.mp hfind (k, v) h
    | some e =>
      obtain ⟨k', w⟩ := e
      obtain rfl : k' = k := by simpa using find?_some hfind
      have hw : m.Mem k' w := mem_of_find?_eq_some hfind
      rw [map_some, hw.unique h]

lemma containsKey_iff : m.containsKey k = true ↔ ∃ v, m.Mem k v := by
  unfold containsKey
  rw [isSome_iff_exists]
  simp only [get?_eq_some_iff]

lemma containsKey_of_mem {m' : IndexMap K V} (h : ∀ v, m.Mem k v → ∃ w, m'.Mem k w)
    (hk : m.containsKey k = true) : m'.containsKey k = true := by
  obtain ⟨v, hv⟩ := containsKey_iff.mp hk
  exact containsKey_iff.mpr (h v hv)

/-- The entries after a key is mapped to a value: in place if the key is there, else at the end. -/
def insertList (k : K) (v : V) : List (K × V) → List (K × V)
  | [] => [(k, v)]
  | e :: rest => if e.1 = k then (k, v) :: rest else e :: insertList k v rest

lemma keys_insertList (k : K) (v : V) (l : List (K × V)) :
    (insertList k v l).map fst =
      if k ∈ l.map fst then l.map fst else l.map fst ++ [k] := by
  induction l with
  | nil => rfl
  | cons e rest ih =>
    unfold insertList
    by_cases he : e.1 = k
    · simp [he]
    · rw [if_neg he, map_cons, ih]
      by_cases hk : k ∈ rest.map fst
      · rw [if_pos hk, map_cons, if_pos (mem_cons_of_mem _ hk)]
      · have hk' : k ∉ e.1 :: rest.map fst := by
          simp only [mem_cons, not_or]
          exact ⟨fun h => he h.symm, hk⟩
        rw [if_neg hk, map_cons, if_neg hk', cons_append]

lemma mem_insertList (k : K) (v : V) (l : List (K × V)) (hl : (l.map fst).Nodup) (k' : K) (v' : V) :
    (k', v') ∈ insertList k v l ↔ (k' = k ∧ v' = v) ∨ (k' ≠ k ∧ (k', v') ∈ l) := by
  induction l with
  | nil => simp [insertList]
  | cons e rest ih =>
    obtain ⟨hnot, hrest⟩ := nodup_cons.mp hl
    unfold insertList
    by_cases he : e.1 = k
    · -- The keys after this one are all different from `k`.
      have hne : (k', v') ∈ rest → k' ≠ k := by
        rintro hm rfl
        exact hnot (he ▸ mem_map_of_mem hm)
      rw [if_pos he, mem_cons, mem_cons, Prod.mk.injEq]
      constructor
      · rintro (h | h)
        · exact .inl h
        · exact .inr ⟨hne h, .inr h⟩
      · rintro (h | ⟨hk, rfl | h⟩)
        · exact .inl h
        · exact absurd he hk
        · exact .inr h
    · rw [if_neg he, mem_cons, mem_cons, ih hrest]
      constructor
      · rintro (rfl | h | ⟨hk, h⟩)
        · exact .inr ⟨he, .inl rfl⟩
        · exact .inl h
        · exact .inr ⟨hk, .inr h⟩
      · rintro (h | ⟨hk, h | h⟩)
        · exact .inr (.inl h)
        · exact .inl h
        · exact .inr (.inr ⟨hk, h⟩)

/-- Map a key to a value. -/
def insert (m : IndexMap K V) (k : K) (v : V) : IndexMap K V where
  entries := insertList k v m.entries
  nodup := by
    rw [keys_insertList]
    split_ifs with hk
    · exact m.nodup
    · exact m.nodup.append (nodup_singleton k) (by simpa using hk)

lemma mem_insert {v' : V} : (m.insert k v).Mem k' v' ↔ (k' = k ∧ v' = v) ∨ (k' ≠ k ∧ m.Mem k' v') :=
  mem_insertList k v m.entries m.nodup k' v'

lemma containsKey_insert_of_containsKey (h : m.containsKey k' = true) :
    (m.insert k v).containsKey k' = true := by
  refine containsKey_of_mem (fun w hw => ?_) h
  by_cases hk : k' = k
  · exact ⟨v, mem_insert.mpr (.inl ⟨hk, rfl⟩)⟩
  · exact ⟨w, mem_insert.mpr (.inr ⟨hk, hw⟩)⟩

lemma get?_insert (m : IndexMap K V) (k k' : K) (v : V) :
    (m.insert k v).get? k' = if k' = k then some v else m.get? k' := by
  ext w
  rw [get?_eq_some_iff, mem_insert]
  split_ifs with h
  · simp [h, eq_comm]
  · simp [h, get?_eq_some_iff]

lemma get?_remove (m : IndexMap K V) (k k' : K) :
    (m.remove k).get? k' = if k' = k then none else m.get? k' := by
  ext w
  rw [get?_eq_some_iff, remove, mem_retain]
  split_ifs with h
  · simp [h]
  · simp [h, get?_eq_some_iff]

/-! ### Sums after updates -/

/-- What a key contributes to a sum. -/
def part (m : IndexMap K V) (k : K) (f : V → ℕ) : ℕ := ((m.get? k).map f).getD 0

lemma part_of_mem (h : m.Mem k v) (f : V → ℕ) : m.part k f = f v := by
  unfold part
  rw [get?_eq_some_iff.mpr h]
  rfl

lemma sum_insert (m : IndexMap K V) (k : K) (v : V) (f : V → ℕ) :
    (m.insert k v).sum f + m.part k f = m.sum f + f v := by
  unfold sum part get? insert
  dsimp only
  induction m.entries with
  | nil => simp [insertList]
  | cons e =>
    unfold insertList
    by_cases he : e.1 = k
    · simp only [he, if_true, map_cons, sum_cons, find?_cons, decide_true,
        map_some, getD_some]
      omega
    · simp only [he, if_false, map_cons, sum_cons, find?_cons, decide_false]
      omega

lemma sum_remove (m : IndexMap K V) (k : K) (f : V → ℕ) :
    (m.remove k).sum f + m.part k f = m.sum f := by
  have hnodup := m.nodup
  unfold sum part get? remove retain
  dsimp only
  generalize m.entries = l at hnodup
  induction l with
  | nil => rfl
  | cons e rest ih =>
    obtain ⟨hnot, hrest⟩ := nodup_cons.mp hnodup
    by_cases he : e.1 = k
    · -- No other entry has this key.
      have hother : rest.filter (fun e => decide (e.1 ≠ k)) = rest := by
        rw [filter_eq_self]
        intro e' he'
        apply decide_eq_true
        intro heq
        exact hnot (he ▸ heq ▸ mem_map_of_mem he')
      rw [filter_cons_of_neg (by simpa using he), hother]
      simp only [he, map_cons, sum_cons, find?_cons, decide_true, map_some,
        getD_some]
      omega
    · have hsum := ih hrest
      rw [filter_cons_of_pos (by simpa using he)]
      simp only [he, map_cons, sum_cons, find?_cons, decide_false]
      omega

end IndexMap

lemma sum_map_set {α : Type} (f : α → ℕ) {l : List α} {i : ℕ} {a : α} (h : l[i]? = some a)
    (a' : α) : ((l.set i a').map f).sum + f a = (l.map f).sum + f a' := by
  induction l generalizing i with
  | nil => cases h
  | cons b t ih =>
    cases i with
    | zero =>
      obtain rfl := Option.some.inj h
      simp only [set_cons_zero, map_cons, sum_cons]
      omega
    | succ =>
      have := ih h
      simp only [set_cons_succ, map_cons, sum_cons]
      omega

end Neqo
