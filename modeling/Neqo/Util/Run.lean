import Mathlib.Algebra.Order.Ring.Nat

/-!
# Runs and weakest preconditions

A run folds a step function over a list of operations. `Along` says that each operation is allowed
in the state in which it is taken; `Along.invariant` is the induction over such runs.
-/

namespace Neqo.Run

variable {σ α : Type} (step : σ → α → σ) (allowed : σ → α → Prop)

/-- Every operation is allowed in the state in which it is taken. -/
def Along : σ → List α → Prop
  | _, [] => True
  | s, a :: as => allowed s a ∧ Along (step s a) as

instance decidableAlong [∀ s a, Decidable (allowed s a)] :
    (s : σ) → (as : List α) → Decidable (Along step allowed s as)
  | _, [] => isTrue trivial
  | s, a :: as =>
    have := decidableAlong (step s a) as
    inferInstanceAs (Decidable (allowed s a ∧ Along step allowed (step s a) as))

variable {step allowed}

/-- What holds at first and is kept by each step that is allowed holds after the run. -/
lemma Along.invariant {inv : σ → Prop} (hstep : ∀ s a, inv s → allowed s a → inv (step s a))
    {s : σ} {as : List α} (hs : inv s) (h : Along step allowed s as) : inv (as.foldl step s) := by
  induction as generalizing s with
  | nil => exact hs
  | cons a as ih => exact ih (hstep s a hs h.1) h.2

lemma Along.of_append {s : σ} {as bs : List α} {a : α} (h : Along step allowed s (as ++ a :: bs)) :
    allowed (as.foldl step s) a := by
  induction as generalizing s with
  | nil => exact h.1
  | cons a as ih => exact ih h.2

lemma Along.and {allowed' : σ → α → Prop} {s : σ} {as : List α} (h : Along step allowed s as)
    (h' : Along step allowed' s as) : Along step (fun s a => allowed s a ∧ allowed' s a) s as := by
  induction as generalizing s with
  | nil => trivial
  | cons a as ih => exact ⟨⟨h.1, h'.1⟩, ih h.2 h'.2⟩

end Neqo.Run

/-!
## Weakest preconditions

For computations that pass a state on or fail, `wp` says that a result satisfies a postcondition and
that a failure is one of those that are allowed. It is computed along the structure of the
computation (`wp_bind`).
-/

namespace Neqo

variable {σ ε α β : Type} {allowed : ε → Prop} {m : StateT σ (Except ε) α} {s : σ}

/-- From `s`, the computation ends with `post` or with a failure that is allowed. -/
def wp (allowed : ε → Prop) (m : StateT σ (Except ε) α) (post : α → σ → Prop) (s : σ) : Prop :=
  match m s with
  | .ok (a, s') => post a s'
  | .error e => allowed e

variable {post : α → σ → Prop}

lemma wp_bind {f : α → StateT σ (Except ε) β} {post : β → σ → Prop} :
    wp allowed (m >>= f) post s ↔ wp allowed m (fun a s' => wp allowed (f a) post s') s := by
  have hbind : (m >>= f) s = (m s).bind fun p => f p.1 p.2 := rfl
  unfold wp
  rw [hbind]
  cases m s <;> rfl

lemma wp_get {post : σ → σ → Prop} :
    wp allowed (get : StateT σ (Except ε) σ) post s ↔ post s s := Iff.rfl

lemma wp_mono {post' : α → σ → Prop} (h : wp allowed m post s)
    (hpost : ∀ a s', post a s' → post' a s') : wp allowed m post' s := by
  unfold wp at h ⊢
  split at h
  · exact hpost _ _ h
  · exact h

end Neqo
