import Mathlib.Algebra.Order.Ring.Nat
import Mathlib.Data.List.Nodup
import Mathlib.Data.List.Perm.Basic

/-!
# Ordered maps

An ordered map is kept as its list of bindings, strictly ascending in the key, which is what
iterating over a B-tree map yields. The invariant is a field, so every map is sorted by
construction. Lookups, insertions and removals are specified by membership of bindings
(`mem_insert`, `mem_remove`, `get?_eq_some_iff`), and the neighbour queries by the extremal
binding that they return (`lastBelow_eq_some_iff`, `lastBelow_eq_none_iff`).
-/

namespace Neqo

open List

/-- A finite map with strictly ascending keys. -/
structure OrdMap (K V : Type) [LinearOrder K] where
  /-- The bindings, in key order. -/
  entries : List (K × V)
  /-- Keys are strictly ascending. -/
  sorted : entries.Pairwise (fun a b => a.1 < b.1)

namespace OrdMap

variable {K V : Type} [LinearOrder K]

instance [DecidableEq V] : DecidableEq (OrdMap K V) := fun a b =>
  decidable_of_iff (a.entries = b.entries) (by cases a; cases b; simp)

variable {m : OrdMap K V}

lemma ext {n : OrdMap K V} (h : m.entries = n.entries) : m = n := by
  cases m; cases n; simp_all

/-- The binding `k ↦ v` is in the map. -/
def Mem (m : OrdMap K V) (k : K) (v : V) : Prop := (k, v) ∈ m.entries

/-- The empty map. -/
def empty : OrdMap K V := ⟨[], List.Pairwise.nil⟩

/-- Number of bindings. -/
def len (m : OrdMap K V) : ℕ := m.entries.length

/-- The keys, ascending. -/
def keys (m : OrdMap K V) : List K := m.entries.map Prod.fst

/-- The value bound to `k`, if any. -/
def get? (m : OrdMap K V) (k : K) : Option V :=
  (m.entries.find? (fun e => e.1 = k)).map Prod.snd

/-- Insert into a sorted list of bindings, replacing the binding of `k` if there is one. -/
def insertList (k : K) (v : V) : List (K × V) → List (K × V)
  | [] => [(k, v)]
  | e :: t =>
    if k < e.1 then (k, v) :: e :: t
    else if k = e.1 then (k, v) :: t
    else e :: insertList k v t

lemma insertList_perm (k : K) (v : V) {l : List (K × V)} (hl : l.Pairwise fun a b => a.1 < b.1) :
    (insertList k v l).Perm ((k, v) :: l.filter fun e => e.1 ≠ k) := by
  induction l with
  | nil => exact List.Perm.refl _
  | cons e t ih =>
    obtain ⟨hfirst, ht⟩ := pairwise_cons.mp hl
    have hkeep (h : k ≤ e.1) : (t.filter fun e => e.1 ≠ k) = t :=
      filter_eq_self.mpr fun d hd => by simpa using ((h.trans_lt (hfirst d hd)).ne')
    unfold insertList
    split_ifs with hlt heq
    · rw [filter_cons_of_pos (by simpa using hlt.ne'), hkeep hlt.le]
    · rw [filter_cons_of_neg (by simpa using heq.symm), hkeep heq.le]
    · rw [filter_cons_of_pos (by simpa using fun h => heq h.symm)]
      exact ((ih ht).cons e).trans (List.Perm.swap _ _ _)

lemma mem_insertList (k : K) (v : V) (l : List (K × V))
    (hl : l.Pairwise (fun a b => a.1 < b.1)) (e : K × V) :
    e ∈ insertList k v l ↔ e = (k, v) ∨ (e.1 ≠ k ∧ e ∈ l) := by
  rw [(insertList_perm k v hl).mem_iff, mem_cons, mem_filter, decide_eq_true_iff, and_comm]

lemma insertList_sorted (k : K) (v : V) (l : List (K × V))
    (hl : l.Pairwise (fun a b => a.1 < b.1)) :
    (insertList k v l).Pairwise (fun a b => a.1 < b.1) := by
  induction l with
  | nil => simp [insertList]
  | cons d t ih =>
    have hdt := pairwise_cons.mp hl
    unfold insertList
    split_ifs with hlt heq
    · refine pairwise_cons.mpr ⟨fun e he => ?_, hl⟩
      rcases mem_cons.mp he with rfl | ht
      · exact hlt
      · exact hlt.trans (hdt.1 e ht)
    · subst heq
      exact pairwise_cons.mpr ⟨hdt.1, hdt.2⟩
    · refine pairwise_cons.mpr ⟨fun e he => ?_, ih hdt.2⟩
      rcases (mem_insertList k v t hdt.2 e).mp he with rfl | ⟨_, ht⟩
      · exact lt_of_le_of_ne (not_lt.mp hlt) (fun h => heq h.symm)
      · exact hdt.1 e ht

/-- Bind `k` to `v`, replacing any earlier binding of `k`. -/
def insert (m : OrdMap K V) (k : K) (v : V) : OrdMap K V :=
  ⟨insertList k v m.entries, insertList_sorted k v m.entries m.sorted⟩

/-- Keep the bindings that satisfy `p`. -/
def retain (m : OrdMap K V) (p : K → V → Bool) : OrdMap K V :=
  ⟨m.entries.filter (fun e => p e.1 e.2), m.sorted.filter _⟩

/-- Remove the binding of `k`. -/
def remove (m : OrdMap K V) (k : K) : OrdMap K V := m.retain (fun k' _ => k' ≠ k)

/-- Remove the bindings of all the keys of a list. -/
def removeAll (m : OrdMap K V) (ks : List K) : OrdMap K V := ks.foldl remove m

/-- The bindings with `k ≤ key`. -/
def splitFrom (m : OrdMap K V) (k : K) : OrdMap K V := m.retain (fun k' _ => k ≤ k')

/-- The bindings with `key < k`. -/
def splitBelow (m : OrdMap K V) (k : K) : OrdMap K V := m.retain (fun k' _ => k' < k)

/-- The first binding. -/
def first? (m : OrdMap K V) : Option (K × V) := m.entries.head?

/-- The last binding. -/
def last? (m : OrdMap K V) : Option (K × V) := m.entries.getLast?

/-- The bindings with `lo ≤ key < hi`, ascending. -/
def range (m : OrdMap K V) (lo hi : K) : List (K × V) :=
  m.entries.filter (fun e => lo ≤ e.1 ∧ e.1 < hi)

/-- The bindings with `lo ≤ key`, ascending. -/
def rangeFrom (m : OrdMap K V) (lo : K) : List (K × V) :=
  m.entries.filter (fun e => lo ≤ e.1)

/-- The bindings with `key < hi`, ascending. -/
def rangeBelow (m : OrdMap K V) (hi : K) : List (K × V) :=
  m.entries.filter (fun e => e.1 < hi)

/-- The last binding with `key < k`. -/
def lastBelow (m : OrdMap K V) (k : K) : Option (K × V) := (m.rangeBelow k).getLast?

/-- The last binding with `key ≤ k`. -/
def lastAtMost (m : OrdMap K V) (k : K) : Option (K × V) :=
  (m.entries.filter (fun e => e.1 ≤ k)).getLast?

/-! ### Bindings -/

variable {k k' lo hi b : K} {v v' : V}

lemma nodup_keys (m : OrdMap K V) : m.keys.Nodup :=
  pairwise_map.mpr (m.sorted.imp ne_of_lt)

lemma Mem.unique {w : V} (h : m.Mem k v) (h' : m.Mem k w) : v = w :=
  congrArg Prod.snd (inj_on_of_nodup_map m.nodup_keys h h' rfl)

lemma get?_eq_some_iff : m.get? k = some v ↔ m.Mem k v := by
  unfold get?
  rw [Option.map_eq_some_iff]
  constructor
  · rintro ⟨e, he, rfl⟩
    have hk : e.1 = k := by simpa using find?_some he
    have hmem := mem_of_find?_eq_some he
    rwa [← hk]
  · intro h
    have hsome : (m.entries.find? (fun e => e.1 = k)).isSome := by
      rw [find?_isSome]
      exact ⟨(k, v), h, by simp⟩
    obtain ⟨e, he⟩ := Option.isSome_iff_exists.mp hsome
    have hk : e.1 = k := by simpa using find?_some he
    refine ⟨e, he, ?_⟩
    have hmem : m.Mem k e.2 := by
      rw [← hk]
      exact mem_of_find?_eq_some he
    exact hmem.unique h

lemma get?_eq_none_iff : m.get? k = none ↔ ∀ v, ¬ m.Mem k v := by
  rw [Option.eq_none_iff_forall_ne_some]
  exact forall_congr' fun v => not_congr get?_eq_some_iff

lemma mem_keys_iff : k ∈ m.keys ↔ (m.get? k).isSome = true := by
  rw [Option.isSome_iff_exists]
  simp only [get?_eq_some_iff]
  constructor
  · intro hk
    obtain ⟨e, he, rfl⟩ := mem_map.mp hk
    exact ⟨e.2, he⟩
  · rintro ⟨v, hmem⟩
    exact mem_map.mpr ⟨(k, v), hmem, rfl⟩

@[simp] lemma not_mem_empty (k : K) (v : V) : ¬ (empty : OrdMap K V).Mem k v := by
  simp [Mem, empty]

@[simp] lemma mem_insert :
    (m.insert k v).Mem k' v' ↔ (k' = k ∧ v' = v) ∨ (k' ≠ k ∧ m.Mem k' v') := by
  unfold Mem insert
  rw [mem_insertList k v m.entries m.sorted, Prod.mk.injEq]

lemma get?_insert (m : OrdMap K V) (k k' : K) (v : V) [Decidable (k' = k)] :
    (m.insert k v).get? k' = if k' = k then some v else m.get? k' := by
  ext w
  rw [get?_eq_some_iff]
  split_ifs with h
  · simp [h, eq_comm]
  · simp [h, get?_eq_some_iff]

@[simp] lemma mem_retain {p : K → V → Bool} : (m.retain p).Mem k v ↔ m.Mem k v ∧ p k v = true := by
  simp [Mem, retain]

@[simp] lemma mem_remove : (m.remove k).Mem k' v' ↔ k' ≠ k ∧ m.Mem k' v' := by
  simp [remove, and_comm]

lemma get?_remove (m : OrdMap K V) (k k' : K) [Decidable (k' = k)] :
    (m.remove k).get? k' = if k' = k then none else m.get? k' := by
  ext w
  split_ifs with h <;> simp [get?_eq_some_iff, h]

@[simp] lemma mem_splitFrom : (m.splitFrom k).Mem k' v' ↔ k ≤ k' ∧ m.Mem k' v' := by
  simp [splitFrom, and_comm]

@[simp] lemma mem_splitBelow : (m.splitBelow k).Mem k' v' ↔ k' < k ∧ m.Mem k' v' := by
  simp [splitBelow, and_comm]

@[simp] lemma mem_removeAll {ks : List K} : (m.removeAll ks).Mem k v ↔ k ∉ ks ∧ m.Mem k v := by
  induction ks generalizing m with
  | nil => simp [removeAll]
  | cons a t ih =>
    have hstep : (m.removeAll (a :: t)) = (m.remove a).removeAll t := rfl
    rw [hstep, ih, mem_remove, mem_cons]
    tauto

variable {e d : K × V}

lemma mem_range : e ∈ m.range lo hi ↔ m.Mem e.1 e.2 ∧ lo ≤ e.1 ∧ e.1 < hi := by
  simp [range, Mem]

lemma mem_rangeFrom : e ∈ m.rangeFrom lo ↔ m.Mem e.1 e.2 ∧ lo ≤ e.1 := by
  simp [rangeFrom, Mem]

lemma mem_rangeBelow : e ∈ m.rangeBelow hi ↔ m.Mem e.1 e.2 ∧ e.1 < hi := by
  simp [rangeBelow, Mem]

lemma range_sorted (m : OrdMap K V) (lo hi : K) :
    (m.range lo hi).Pairwise (fun a b => a.1 < b.1) := m.sorted.filter _

lemma rangeFrom_sorted (m : OrdMap K V) (lo : K) :
    (m.rangeFrom lo).Pairwise (fun a b => a.1 < b.1) := m.sorted.filter _

lemma rangeBelow_sorted (m : OrdMap K V) (hi : K) :
    (m.rangeBelow hi).Pairwise (fun a b => a.1 < b.1) := m.sorted.filter _

/-! ### Extremal bindings -/

/-- The last element of a list with ascending keys bounds all of them. -/
lemma le_of_getLast? {l : List (K × V)} (hl : l.Pairwise (fun a b => a.1 < b.1))
    (he : l.getLast? = some e) (hd : d ∈ l) : d.1 ≤ e.1 := by
  obtain ⟨init, rfl⟩ := getLast?_eq_some_iff.mp he
  rw [pairwise_append] at hl
  rcases mem_append.mp hd with h | h
  · exact (hl.2.2 d h e (mem_singleton_self e)).le
  · rw [mem_singleton.mp h]

lemma head?_le {l : List (K × V)} (hl : l.Pairwise (fun a b => a.1 < b.1)) (he : l.head? = some e)
    (hd : d ∈ l) : e.1 ≤ d.1 := by
  cases l with
  | nil => cases he
  | cons a =>
    obtain rfl : a = e := by simpa using he
    rcases mem_cons.mp hd with rfl | h
    · exact le_rfl
    · exact ((pairwise_cons.mp hl).1 d h).le

lemma first?_mem (h : m.first? = some (k, v)) : m.Mem k v := mem_of_head? h

lemma first?_le (h : m.first? = some (k, v)) (h' : m.Mem k' v') : k ≤ k' := head?_le m.sorted h h'

lemma last?_eq_none_iff : m.last? = none ↔ ∀ k v, ¬ m.Mem k v := by
  unfold last?
  rw [getLast?_eq_none_iff, eq_nil_iff_forall_not_mem]
  exact ⟨fun h k v => h (k, v), fun h e => h e.1 e.2⟩

lemma last?_mem (h : m.last? = some (k, v)) : m.Mem k v := mem_of_getLast? h

lemma le_last? (h : m.last? = some (k, v)) (h' : m.Mem k' v') :
    k' ≤ k := le_of_getLast? m.sorted h h'

lemma lastBelow_mem (h : m.lastBelow b = some (k, v)) :
    m.Mem k v ∧ k < b := mem_rangeBelow.mp (mem_of_getLast? h)

lemma le_lastBelow (h : m.lastBelow b = some (k, v)) (h' : m.Mem k' v') (hlt : k' < b) : k' ≤ k :=
  le_of_getLast? (m.rangeBelow_sorted b) h (mem_rangeBelow.mpr ⟨h', hlt⟩ : (k', v') ∈ _)

lemma lastBelow_eq_none_iff : m.lastBelow b = none ↔ ∀ k v, m.Mem k v → b ≤ k := by
  unfold lastBelow
  rw [getLast?_eq_none_iff, eq_nil_iff_forall_not_mem]
  constructor
  · intro h k v hm
    by_contra hlt
    exact h (k, v) (mem_rangeBelow.mpr ⟨hm, not_le.mp hlt⟩)
  · intro h e he
    obtain ⟨hm, hlt⟩ := mem_rangeBelow.mp he
    exact absurd hlt (not_lt.mpr (h _ _ hm))

lemma lastAtMost_mem (h : m.lastAtMost b = some (k, v)) : m.Mem k v ∧ k ≤ b := by
  have := mem_of_getLast? h
  simpa [Mem] using this

lemma le_lastAtMost (h : m.lastAtMost b = some (k, v)) (h' : m.Mem k' v') (hle : k' ≤ b) :
    k' ≤ k := by
  have hmem : (k', v') ∈ m.entries.filter (fun e => e.1 ≤ b) := by
    simpa [Mem] using And.intro h' hle
  exact le_of_getLast? (m.sorted.filter _) h hmem

lemma lastAtMost_eq_none_iff : m.lastAtMost b = none ↔ ∀ k v, m.Mem k v → b < k := by
  unfold lastAtMost Mem
  simp

end OrdMap

/-!
## Gathering what the values of an ordered map hold

`gather f m` lists what `f` finds in each binding of a map. Inserting and removing a binding
changes it, up to the order, by what `f` finds in that binding (`gather_insert`, `gather_of_get?`);
a map whose values are changed, and from which those with nothing left in them are removed, holds
what is found in the changed values (`gather_update`). Where a value stands for no binding, as an
empty collection does, the map can be read as if every key had a value (`getD_put`, `getD_update`).
-/

namespace OrdMap

variable {K V A : Type} [LinearOrder K]

/-- What `f` finds in the bindings, in key order. -/
def gather (f : K → V → List A) (m : OrdMap K V) : List A := m.entries.flatMap fun e => f e.1 e.2

/-- Change every value and keep the bindings whose new value satisfies `p`. -/
def update (g : V → V) (p : V → Bool) (m : OrdMap K V) : OrdMap K V where
  entries := (m.entries.map fun e => (e.1, g e.2)).filter fun e => p e.2
  sorted := by
    refine List.Pairwise.filter _ ?_
    rw [pairwise_map]
    exact m.sorted

variable {f : K → V → List A} {m : OrdMap K V} {k : K} {v : V}

lemma mem_gather {a : A} : a ∈ m.gather f ↔ ∃ k v, m.Mem k v ∧ a ∈ f k v := by
  unfold gather
  rw [mem_flatMap]
  exact ⟨fun ⟨e, he, ha⟩ => ⟨e.1, e.2, he, ha⟩, fun ⟨k, v, he, ha⟩ => ⟨(k, v), he, ha⟩⟩

lemma mem_update {g : V → V} {p : V → Bool} :
    (m.update g p).Mem k v ↔ ∃ v₀, m.Mem k v₀ ∧ v = g v₀ ∧ p v = true := by
  unfold update Mem
  simp only [mem_filter, mem_map, Prod.mk.injEq]
  constructor
  · rintro ⟨⟨e, he, rfl, rfl⟩, hp⟩
    exact ⟨e.2, he, rfl, hp⟩
  · rintro ⟨v₀, he, rfl, hp⟩
    exact ⟨⟨(k, v₀), he, rfl, rfl⟩, hp⟩

lemma perm_cons_filter {l : List (K × V)} (hl : l.Pairwise fun a b => a.1 < b.1)
    (h : (k, v) ∈ l) : l.Perm ((k, v) :: l.filter fun e => e.1 ≠ k) := by
  induction l with
  | nil => exact absurd h not_mem_nil
  | cons e t ih =>
    obtain ⟨hfirst, ht⟩ := pairwise_cons.mp hl
    rcases mem_cons.mp h with rfl | h
    · rw [filter_cons_of_neg (by simp),
        filter_eq_self.mpr fun d hd => by simpa using (hfirst d hd).ne']
    · rw [filter_cons_of_pos (by simpa using (hfirst _ h).ne)]
      exact ((ih ht h).cons e).trans (List.Perm.swap _ _ _)

lemma gather_insert (f : K → V → List A) (m : OrdMap K V) (k : K) (v : V) :
    ((m.insert k v).gather f).Perm (f k v ++ (m.remove k).gather f) := by
  have h := (insertList_perm k v m.sorted).flatMap_right fun e => f e.1 e.2
  rwa [flatMap_cons] at h

lemma gather_of_get? (h : m.get? k = some v) :
    (m.gather f).Perm (f k v ++ (m.remove k).gather f) := by
  have h := (perm_cons_filter m.sorted (get?_eq_some_iff.mp h)).flatMap_right fun e => f e.1 e.2
  rwa [flatMap_cons] at h

lemma get?_update (g : V → V) (p : V → Bool) (m : OrdMap K V) (k : K) :
    (m.update g p).get? k = ((m.get? k).map g).filter p := by
  ext w
  rw [get?_eq_some_iff, mem_update, Option.filter_eq_some_iff, Option.map_eq_some_iff]
  simp only [get?_eq_some_iff]
  constructor
  · rintro ⟨v₀, hmem, rfl, hp⟩
    exact ⟨⟨v₀, hmem, rfl⟩, hp⟩
  · rintro ⟨⟨v₀, hmem, rfl⟩, hp⟩
    exact ⟨v₀, hmem, rfl, hp⟩

lemma remove_of_get? (h : m.get? k = none) : m.remove k = m := by
  refine ext (filter_eq_self.mpr fun e he => ?_)
  have hne : e.1 ≠ k := fun hk => get?_eq_none_iff.mp h e.2 (hk ▸ he)
  simpa using hne

/-- What is found in the binding of `k`, if nothing is found in the value `v₀` that stands for no
binding, and what is found elsewhere. -/
lemma gather_getD {v₀ : V} (hv₀ : f k v₀ = []) :
    (m.gather f).Perm (f k ((m.get? k).getD v₀) ++ (m.remove k).gather f) := by
  cases h : m.get? k with
  | none =>
    show (m.gather f).Perm (f k v₀ ++ _)
    rw [hv₀, nil_append, remove_of_get? h]
  | some => exact gather_of_get? h

lemma mem_gather_getD {v₀ : V} {a : A} (hv₀ : f k v₀ = []) (hkey : ∀ k' v, a ∈ f k' v → k' = k) :
    a ∈ m.gather f ↔ a ∈ f k ((m.get? k).getD v₀) := by
  rw [(gather_getD hv₀).mem_iff, mem_append]
  refine or_iff_left fun ha => ?_
  obtain ⟨k', v, hmem, ha⟩ := mem_gather.mp ha
  exact (mem_remove.mp hmem).1 (hkey k' v ha)

/-! ### Values that stand for no binding -/

/-- Bind `k` to a value, or remove its binding if the value is empty. -/
def put (isEmpty : V → Bool) (m : OrdMap K V) (k : K) (v : V) : OrdMap K V :=
  if isEmpty v then m.remove k else m.insert k v

section Put

variable {isEmpty : V → Bool} {v₀ : V}

lemma forall_mem_put {P : V → Prop} (h : ∀ k v, m.Mem k v → P v) (hv : isEmpty v = false → P v) :
    ∀ k' v', (m.put isEmpty k v).Mem k' v' → P v' := by
  intro k' v' hmem
  unfold put at hmem
  split_ifs at hmem with hempty
  · exact h k' v' (mem_remove.mp hmem).2
  · rcases mem_insert.mp hmem with ⟨-, rfl⟩ | ⟨-, hmem⟩
    · exact hv (Bool.eq_false_iff.mpr hempty)
    · exact h k' v' hmem

variable (hempty : ∀ v, isEmpty v = true → v = v₀)

include hempty

lemma getD_put (k k' : K) (v : V) :
    ((m.put isEmpty k v).get? k').getD v₀ = if k' = k then v else (m.get? k').getD v₀ := by
  unfold put
  split_ifs with h hk hk
  · rw [get?_remove, if_pos hk, hempty v h]
    rfl
  all_goals simp [get?_remove, get?_insert, hk]

lemma gather_put (hv₀ : f k v₀ = []) {l l' : List A}
    (h : (l ++ f k ((m.get? k).getD v₀)).Perm (l' ++ f k v)) :
    (l ++ m.gather f).Perm (l' ++ (m.put isEmpty k v).gather f) := by
  have hnew : ((m.put isEmpty k v).gather f).Perm (f k v ++ (m.remove k).gather f) := by
    unfold put
    split_ifs with hv
    · rw [hempty v hv, hv₀, nil_append]
    · exact gather_insert f m k v
  refine ((gather_getD hv₀).append_left l).trans (List.Perm.trans ?_ (hnew.symm.append_left l'))
  rw [← append_assoc, ← append_assoc]
  exact h.append_right _

end Put

lemma getD_update {v₀ : V} {g : V → V} {p : V → Bool} (hg : g v₀ = v₀)
    (hp : ∀ v, p v = false → v = v₀) :
    ((m.update g p).get? k).getD v₀ = g ((m.get? k).getD v₀) := by
  rw [get?_update]
  cases m.get? k with
  | none => exact hg.symm
  | some v =>
    rw [Option.map_some, Option.filter_some]
    split_ifs with h
    · rfl
    · exact (hp _ (Bool.eq_false_iff.mpr h)).symm

lemma gather_update {g : V → V} {p : V → Bool}
    (h : ∀ k v, m.Mem k v → p (g v) = false → f k (g v) = []) :
    (m.update g p).gather f = m.gather fun k v => f k (g v) := by
  have hentries (l : List (K × V)) (hl : ∀ e ∈ l, p (g e.2) = false → f e.1 (g e.2) = []) :
      (((l.map fun e => (e.1, g e.2)).filter fun e => p e.2).flatMap fun e => f e.1 e.2) =
        l.flatMap fun e => f e.1 (g e.2) := by
    induction l with
    | nil => rfl
    | cons e t ih =>
      have ht := ih fun d hd => hl d (mem_cons_of_mem _ hd)
      rw [map_cons]
      cases hp : p (g e.2) with
      | true => rw [filter_cons_of_pos (by exact hp), flatMap_cons, ht, flatMap_cons]
      | false =>
        rw [filter_cons_of_neg (by simp [hp]), ht, flatMap_cons,
          hl e (mem_cons_self ..) hp, nil_append]
  exact hentries m.entries fun e he => h e.1 e.2 he

/-- If each value is what it loses and what it changes to, so is what is found in the map. -/
lemma gather_perm_update {lost : K → V → List A} {g : V → V} {p : V → Bool}
    (hperm : ∀ k v, m.Mem k v → (f k v).Perm (lost k v ++ f k (g v)))
    (h : ∀ k v, m.Mem k v → p (g v) = false → f k (g v) = []) :
    (m.gather f).Perm (m.gather lost ++ (m.update g p).gather f) := by
  rw [gather_update h]
  refine List.Perm.trans ?_ (flatMap_append_perm m.entries _ _).symm
  exact List.Perm.flatMap_left _ fun e he => hperm e.1 e.2 he

end OrdMap

end Neqo
