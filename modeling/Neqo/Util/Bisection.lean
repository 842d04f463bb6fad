import Mathlib.Algebra.Order.Ring.Nat
import Mathlib.Data.List.Nodup

/-!
# Bisection

`partitionPoint p l` looks for the place in `l` where the elements that satisfy `p` end, by
bisection. Nothing is assumed about `l`: if it does not start with the elements that satisfy `p`,
the result is still a place where such an element is followed by one that does not satisfy `p`.
-/

namespace Neqo.PartitionPoint

open List

variable {α : Type} (p : α → Bool) (l : List α)

/-- Narrow down the interval from `lo` to `hi`, in at most `fuel` steps. -/
def bisect : ℕ → ℕ → ℕ → ℕ
  | 0, lo, _ => lo
  | fuel + 1, lo, hi =>
    if lo < hi then
      let mid := (lo + hi) / 2
      if (l[mid]?).any p then bisect fuel (mid + 1) hi else bisect fuel lo mid
    else lo

/-- Where the elements that satisfy `p` end. -/
def partitionPoint : ℕ := bisect p l l.length 0 l.length

/-- The element before the bound satisfies `p` and the one at the bound does not. -/
structure Bounds (lo hi : ℕ) : Prop where
  le : lo ≤ hi
  le_length : hi ≤ l.length
  before : 0 < lo → (l[lo - 1]?).any p = true
  after : hi < l.length → (l[hi]?).any p = false

variable {p l}

lemma Bounds.bisect {fuel lo hi : ℕ} (h : Bounds p l lo hi) (hfuel : hi - lo ≤ fuel) :
    Bounds p l (bisect p l fuel lo hi) (bisect p l fuel lo hi) := by
  induction fuel generalizing lo hi with
  | zero =>
    obtain rfl : lo = hi := by have := h.le; omega
    exact h
  | succ fuel ih =>
    unfold PartitionPoint.bisect
    have hlength := h.le_length
    split_ifs with hlt
    · dsimp only
      cases hmid : (l[(lo + hi) / 2]?).any p with
      | true =>
        refine ih ⟨by omega, hlength, fun _ => ?_, h.after⟩ (by omega)
        rwa [Nat.add_sub_cancel]
      | false => exact ih ⟨by omega, by omega, h.before, fun _ => hmid⟩ (by omega)
    · obtain rfl : lo = hi := by have := h.le; omega
      exact h

lemma partitionPoint_bounds (p : α → Bool) (l : List α) :
    Bounds p l (partitionPoint p l) (partitionPoint p l) :=
  Bounds.bisect ⟨Nat.zero_le _, Nat.le_refl _, fun h => absurd h (Nat.lt_irrefl 0),
    fun h => absurd h (lt_irrefl _)⟩ (by omega)

/-- If something is before the partition point, then the last element before it satisfies `p`. -/
lemma exists_last_of_partitionPoint_pos (h : 0 < partitionPoint p l) :
    ∃ a l₁, l.take (partitionPoint p l) = l₁ ++ [a] ∧ p a = true := by
  have hb := partitionPoint_bounds p l
  have hle := hb.le_length
  have hbefore := hb.before h
  generalize partitionPoint p l = k at h hle hbefore ⊢
  obtain ⟨k, rfl⟩ : ∃ n, k = n + 1 := ⟨k - 1, by omega⟩
  rw [List.getElem?_eq_getElem (by omega)] at hbefore
  exact ⟨l[k], l.take k, take_succ_eq_append_getElem (by omega), hbefore⟩

lemma of_mem_take_partitionPoint (hl : l.Pairwise fun a b => p b = true → p a = true) {a : α}
    (ha : a ∈ l.take (partitionPoint p l)) : p a = true := by
  have hpos : 0 < partitionPoint p l := by
    rcases Nat.eq_zero_or_pos (partitionPoint p l) with h | h
    · rw [h] at ha
      exact absurd ha not_mem_nil
    · exact h
  obtain ⟨b, l₁, htake, hb⟩ := exists_last_of_partitionPoint_pos hpos
  have hsorted := hl.sublist (take_sublist (partitionPoint p l) l)
  rw [htake] at ha hsorted
  rcases mem_append.mp ha with ha | ha
  · exact (pairwise_append.mp hsorted).2.2 a ha b (mem_singleton_self b) hb
  · rw [mem_singleton.mp ha]
    exact hb

lemma of_mem_drop_partitionPoint (hl : l.Pairwise fun a b => p b = true → p a = true) {a : α}
    (ha : a ∈ l.drop (partitionPoint p l)) : p a = false := by
  have hafter := (partitionPoint_bounds p l).after
  have hsorted := hl.sublist (drop_sublist (partitionPoint p l) l)
  generalize partitionPoint p l = k at ha hafter hsorted
  cases hdrop : l.drop k with
  | nil =>
    rw [hdrop] at ha
    exact absurd ha not_mem_nil
  | cons b =>
    have hk : k < l.length := by
      have hlength := congrArg List.length hdrop
      rw [length_drop, length_cons] at hlength
      omega
    have hget : l[k]? = some b := by
      rw [← List.head?_drop, hdrop, List.head?_cons]
    have hb : p b = false := by
      have hb := hafter hk
      rwa [hget] at hb
    rw [hdrop] at ha hsorted
    rcases mem_cons.mp ha with rfl | ha
    · exact hb
    · -- A later element that satisfies `p` would make `b` satisfy it.
      have hfirst := (pairwise_cons.mp hsorted).1 a ha
      rw [hb] at hfirst
      rw [← Bool.not_eq_true]
      intro hpa
      exact Bool.false_ne_true (hfirst hpa)

end Neqo.PartitionPoint

/-!
## Binary search in sorted vectors

`binarySearch l a` is the position of `a` in `l`, or else the position at which `a` can be inserted.
In a strictly increasing list it finds every element, and insertion and removal at the position keep
the list strictly increasing.
-/

namespace Neqo.BinarySearch

open List PartitionPoint

variable {α : Type}

/-- The list with an element at a position before which nothing changes. -/
def insertAt (l : List α) (pos : ℕ) (a : α) : List α := l.take pos ++ a :: l.drop pos

lemma mem_insertAt {l : List α} {pos : ℕ} {a b : α} : b ∈ insertAt l pos a ↔ b = a ∨ b ∈ l := by
  have hsplit : b ∈ l ↔ b ∈ l.take pos ∨ b ∈ l.drop pos := by
    rw [← mem_append, take_append_drop]
  unfold insertAt
  rw [hsplit, mem_append, mem_cons, or_left_comm]

variable [LinearOrder α]

/-- The position of an element, or else where it could be inserted. -/
def binarySearch (l : List α) (a : α) : Except ℕ ℕ :=
  let pos := partitionPoint (fun b => b < a) l
  if l[pos]? = some a then .ok pos else .error pos

variable {l : List α} {a : α} {pos : ℕ}

/-- The position splits the list into what is less than the element and what is not. -/
lemma split (hl : l.Pairwise (· < ·)) (a : α) :
    (∀ b ∈ l.take (partitionPoint (fun b => b < a) l), b < a) ∧
      ∀ b ∈ l.drop (partitionPoint (fun b => b < a) l), a ≤ b := by
  have hfirst : l.Pairwise fun b c => decide (c < a) = true → decide (b < a) = true := by
    refine hl.imp ?_
    intro b c hbc hc
    exact decide_eq_true (lt_trans hbc (of_decide_eq_true hc))
  refine ⟨?_, ?_⟩
  · intro b hb
    exact of_decide_eq_true (of_mem_take_partitionPoint hfirst hb)
  · intro b hb
    exact not_lt.mp (of_decide_eq_false (of_mem_drop_partitionPoint hfirst hb))

lemma pos_of_error (h : binarySearch l a = .error pos) :
    pos = partitionPoint (fun b => b < a) l ∧ l[pos]? ≠ some a := by
  unfold binarySearch at h
  dsimp only at h
  split_ifs at h with hget
  cases h
  exact ⟨rfl, hget⟩

lemma getElem?_of_ok (h : binarySearch l a = .ok pos) : l[pos]? = some a := by
  unfold binarySearch at h
  dsimp only at h
  split_ifs at h with hget
  cases h
  exact hget

section

variable (hl : l.Pairwise (· < ·)) (h : binarySearch l a = .error pos)

include hl h

lemma split_of_error : (∀ b ∈ l.take pos, b < a) ∧ ∀ b ∈ l.drop pos, a < b := by
  obtain ⟨rfl, hget⟩ := pos_of_error h
  obtain ⟨hbefore, hafter⟩ := split hl a
  have hsorted := hl.sublist (drop_sublist (partitionPoint (fun b => b < a) l) l)
  refine ⟨hbefore, ?_⟩
  rw [← List.head?_drop] at hget
  generalize l.drop (partitionPoint (fun b => b < a) l) = rest at hafter hget hsorted
  cases rest with
  | nil => exact nofun
  | cons c =>
    have hc : a < c := by
      apply lt_of_le_of_ne (hafter c mem_cons_self)
      rintro rfl
      exact hget rfl
    intro b hb
    rcases mem_cons.mp hb with rfl | hb
    · exact hc
    · exact lt_trans hc ((pairwise_cons.mp hsorted).1 b hb)

lemma not_mem_of_error : a ∉ l := by
  obtain ⟨hbefore, hafter⟩ := split_of_error hl h
  intro ha
  rw [← take_append_drop pos l] at ha
  rcases mem_append.mp ha with ha | ha
  · exact lt_irrefl a (hbefore a ha)
  · exact lt_irrefl a (hafter a ha)

/-- Insertion at the position that was found keeps the list strictly increasing. -/
lemma pairwise_insertAt : (insertAt l pos a).Pairwise (· < ·) := by
  obtain ⟨hbefore, hafter⟩ := split_of_error hl h
  have hsplit := hl
  rw [← take_append_drop pos l] at hsplit
  obtain ⟨htake, hdrop, hcross⟩ := pairwise_append.mp hsplit
  refine pairwise_append.mpr ⟨htake, pairwise_cons.mpr ⟨hafter, hdrop⟩, ?_⟩
  intro b hb c hc
  rcases mem_cons.mp hc with rfl | hc
  · exact hbefore b hb
  · exact hcross b hb c hc

end

lemma mem_eraseIdx (hl : l.Pairwise (· < ·)) (h : l[pos]? = some a) {b : α} :
    b ∈ l.eraseIdx pos ↔ b ∈ l ∧ b ≠ a := by
  obtain ⟨hlt, rfl⟩ := List.getElem?_eq_some_iff.mp h
  have hnodup : l.Nodup := hl.imp ne_of_lt
  rw [← hnodup.erase_getElem pos hlt, hnodup.mem_erase_iff, and_comm]

end Neqo.BinarySearch
