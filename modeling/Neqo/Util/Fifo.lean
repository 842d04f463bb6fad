import Mathlib.Algebra.Order.BigOperators.Group.List
import Mathlib.Algebra.Order.Ring.Nat
import Mathlib.Data.List.Infix

/-!
# Bounded FIFO stores

A store has the elements that were put in last, as many as its capacity allows. Each element is
identified by the number of elements that were put in before it, so it can be found in any copy of
the store that has followed the same operations, for as long as it is there.
-/

namespace Neqo

open List Option

/-- The elements of a store, from the newest to the oldest. -/
structure Fifo (α : Type) where
  elements : List α
  inserted : ℕ
  capacity : ℕ

namespace Fifo

variable {α β : Type}

/-! ### Making room -/

section Keep

variable (size : α → ℕ)

/-- The newest elements, as long as their sizes add up to at most `limit`. -/
def keep : ℕ → List α → List α
  | _, [] => []
  | limit, a :: l => if size a ≤ limit then a :: keep (limit - size a) l else []

lemma keep_prefix (limit : ℕ) (l : List α) : keep size limit l <+: l := by
  induction l generalizing limit with
  | nil => exact prefix_rfl
  | cons a l ih =>
    rw [keep]
    split_ifs
    · exact (cons_prefix_cons).mpr ⟨rfl, ih _⟩
    · exact nil_prefix

lemma keep_eq {limit : ℕ} {kept gone : List α} (hfits : (kept.map size).sum ≤ limit)
    (hfull : ∀ a ∈ gone.head?, limit < (kept.map size).sum + size a) :
    keep size limit (kept ++ gone) = kept := by
  induction kept generalizing limit with
  | nil =>
    cases gone with
    | nil => rfl
    | cons a =>
      have hlt := hfull a rfl
      rw [map_nil, sum_nil, zero_add] at hlt
      rw [nil_append, keep, if_neg (not_le.mpr hlt)]
  | cons b kept ih =>
    rw [map_cons, sum_cons] at hfits
    rw [cons_append, keep, if_pos (by omega)]
    congr 1
    apply ih (by omega)
    intro a ha
    have hlt := hfull a ha
    rw [map_cons, sum_cons] at hlt
    omega

lemma keep_map (f : β → α) (limit : ℕ) (l : List β) :
    keep size limit (l.map f) = (keep (fun b => size (f b)) limit l).map f := by
  induction l generalizing limit with
  | nil => rfl
  | cons b l ih =>
    rw [map_cons, keep, keep]
    split_ifs
    · rw [ih, map_cons]
    · rfl

end Keep

/-! ### Operations -/

/-- An operation on a store. -/
inductive Op (α : Type) where
  | setCapacity (capacity : ℕ)
  | insert (a : α)

/-- Execute an operation; an element that is larger than the store cannot be inserted. -/
def exec (size : α → ℕ) (f : Fifo α) : Op α → Option (Fifo α)
  | .setCapacity capacity =>
    some { f with elements := keep size capacity f.elements, capacity := capacity }
  | .insert a =>
    if size a ≤ f.capacity then
      some { f with
        elements := a :: keep size (f.capacity - size a) f.elements
        inserted := f.inserted + 1 }
    else none

/-- The element that was inserted after `i` others, if it is still there. -/
def get? (f : Fifo α) (i : ℕ) : Option α :=
  if i < f.inserted then f.elements[f.inserted - 1 - i]? else none

variable {size : α → ℕ} {f f' : Fifo α}

lemma inserted_le_of_exec {op : Op α} (h : f.exec size op = some f') :
    f.inserted ≤ f'.inserted := by
  cases op with
  | setCapacity =>
    obtain rfl := some.inj h
    exact le_refl _
  | insert =>
    rw [exec] at h
    split_ifs at h
    obtain rfl := some.inj h
    exact Nat.le_succ _

/-- An operation does not change the elements that it leaves in the store. -/
lemma get?_of_exec {op : Op α} (h : f.exec size op = some f') {i : ℕ} {a : α}
    (hget : f'.get? i = some a) (hi : i < f.inserted) : f.get? i = some a := by
  have hkeep : ∀ {limit j : ℕ}, (keep size limit f.elements)[j]? = some a →
      f.elements[j]? = some a := by
    intro limit j hj
    obtain ⟨gone, hgone⟩ := keep_prefix size limit f.elements
    rw [← hgone, List.getElem?_append_left (List.getElem?_eq_some_iff.mp hj).1, hj]
  unfold get? at hget ⊢
  rw [if_pos hi]
  cases op with
  | setCapacity =>
    obtain rfl := some.inj h
    rw [if_pos hi] at hget
    exact hkeep hget
  | insert =>
    rw [exec] at h
    split_ifs at h
    obtain rfl := some.inj h
    -- The new element moves the others by one.
    simp only [if_pos (Nat.lt_succ_of_lt hi)] at hget
    rw [show f.inserted + 1 - 1 - i = f.inserted - 1 - i + 1 by omega] at hget
    exact hkeep hget

/-- Execute operations one after the other. -/
def run (size : α → ℕ) (f : Fifo α) (ops : List (Op α)) : Option (Fifo α) :=
  ops.foldlM (exec size) f

lemma run_cons_eq_some {op : Op α} {ops : List (Op α)} (h : f.run size (op :: ops) = some f') :
    ∃ g, f.exec size op = some g ∧ g.run size ops = some f' := by
  exact bind_eq_some_iff.mp h

lemma run_append {ops ops' : List (Op α)} :
    f.run size (ops ++ ops') = (f.run size ops).bind fun g => g.run size ops' :=
  foldlM_append

lemma inserted_le_of_run {ops : List (Op α)} (h : f.run size ops = some f') :
    f.inserted ≤ f'.inserted := by
  induction ops generalizing f with
  | nil =>
    obtain rfl := some.inj h
    omega
  | cons op ops ih =>
    obtain ⟨g, hg, hrest⟩ := run_cons_eq_some h
    exact (inserted_le_of_exec hg).trans (ih hrest)

/-- **An element that is in the store now was there after it was inserted.**  So a copy that lags
behind has it, if it is not too far behind. -/
theorem get?_of_run {ops : List (Op α)} (h : f.run size ops = some f') {i : ℕ} {a : α}
    (hget : f'.get? i = some a) (hi : i < f.inserted) : f.get? i = some a := by
  induction ops generalizing f with
  | nil =>
    obtain rfl := some.inj h
    exact hget
  | cons op ops ih =>
    obtain ⟨g, hg, hrest⟩ := run_cons_eq_some h
    exact get?_of_exec hg (ih hrest (hi.trans_le (inserted_le_of_exec hg))) hi

end Fifo

end Neqo
