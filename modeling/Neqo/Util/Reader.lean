import Mathlib.Algebra.Order.Ring.Nat
import Mathlib.Data.List.Infix

/-!
# Resumable readers

A reader is given the part of its input that has arrived. It either returns a value, or fails, or
keeps what it has read in its state and asks for `more`. A reader `Resumes` if it makes no
difference to it how its input is cut into parts.
-/

namespace Neqo

open List

/-- A reader takes a state and the input that is there; it returns its next state, the input that it
leaves, and its result. -/
abbrev Reader (σ β ε α : Type) := σ → List β → σ × List β × Except ε α

namespace Reader

variable {σ τ β ε α γ : Type} {more : ε}

/-! ### Reading in parts -/

/-- What `g` makes of a part `xs` of the input, after which `read` goes on: it needs more, or what
follows makes no difference. A value is complete in a `final` state. -/
inductive Part (more : ε) (final : σ → Prop) (read : Reader σ β ε α)
    (g : List β → σ × List β × Except ε α) (xs : List β) : σ × List β × Except ε α → Prop
  | pending {s : σ} (hgo : ∀ ys, g (xs ++ ys) = read s ys) :
      Part more final read g xs (s, [], .error more)
  | done {s : σ} {rest : List β} {r : Except ε α} (hr : r ≠ .error more)
      (hfinal : ∀ a, r = .ok a → final s) (hsuffix : rest <:+ xs)
      (hgo : ∀ ys, g (xs ++ ys) = (s, rest ++ ys, r)) : Part more final read g xs (s, rest, r)

lemma Part.cons {final : σ → Prop} {read : Reader σ β ε α} {g : List β → σ × List β × Except ε α}
    {b : β} {xs : List β} {res : σ × List β × Except ε α}
    (h : Part more final read (fun xs => g (b :: xs)) xs res) :
    Part more final read g (b :: xs) res := by
  cases h with
  | pending hgo => exact .pending hgo
  | done hr hfinal hsuffix hgo =>
    exact .done hr hfinal (hsuffix.trans (suffix_cons b xs)) hgo

/-- `g` reads a part of the input after which `read` goes on. -/
def Resumes (more : ε) (final : σ → Prop) (read : Reader σ β ε α)
    (g : List β → σ × List β × Except ε α) : Prop :=
  ∀ xs, Part more final read g xs (g xs)

namespace Resumes

variable {final : σ → Prop} {read : Reader σ β ε α} {g : List β → σ × List β × Except ε α}
  {xs rest : List β} {s : σ}

lemma resume (h : Resumes more final read g) (hxs : g xs = (s, rest, .error more)) :
    rest = [] ∧ ∀ ys, g (xs ++ ys) = read s ys := by
  have hpart := h xs
  rw [hxs] at hpart
  cases hpart with
  | pending hgo => exact ⟨rfl, hgo⟩
  | done hr => exact absurd rfl hr

lemma extend {r : Except ε α} (h : Resumes more final read g) (hxs : g xs = (s, rest, r))
    (hr : r ≠ .error more) (ys : List β) : g (xs ++ ys) = (s, rest ++ ys, r) := by
  have hpart := h xs
  rw [hxs] at hpart
  cases hpart with
  | pending => exact absurd rfl hr
  | done _ _ _ hgo => exact hgo ys

lemma complete {a : α} (h : Resumes more final read g) (hxs : g xs = (s, rest, .ok a)) :
    final s ∧ rest.length ≤ xs.length := by
  have hpart := h xs
  rw [hxs] at hpart
  cases hpart with
  | done _ hfinal hsuffix => exact ⟨hfinal a rfl, hsuffix.length_le⟩

lemma finish {a : α} (hs : final s) : Resumes more final read fun xs => (s, xs, .ok a) :=
  fun _ => .done nofun (fun _ _ => hs) suffix_rfl fun _ => rfl

lemma error (s : σ) {e : ε} (he : e ≠ more) : Resumes more final read fun xs => (s, xs, .error e) :=
  fun _ => .done (fun h => he (Except.error.inj h)) nofun suffix_rfl fun _ => rfl

lemma uncons (hnil : g [] = (s, [], .error more)) (hread : read s = g)
    (hcons : ∀ b, Resumes more final read fun xs => g (b :: xs)) : Resumes more final read g := by
  intro xs
  cases xs with
  | nil =>
    rw [hnil]
    exact .pending fun ys => by rw [hread, nil_append]
  | cons b xs => exact (hcons b xs).cons

/-- One reader after the other: `g` reads with `inner`, and goes on with what that returns. -/
lemma andThen {inner : Reader τ β ε γ} {final' : τ → Prop}
    (g : τ → List β → σ × List β × Except ε α) (wrap : τ → σ)
    (hinner : ∀ t, Resumes more final' inner (inner t)) (hread : ∀ t, read (wrap t) = g t)
    (herror : ∀ {t xs t' rest e}, inner t xs = (t', rest, .error e) →
      g t xs = (wrap t', rest, .error e))
    (hok : ∀ t' v, ∃ next, Resumes more final read next ∧ ∀ {t xs rest},
      inner t xs = (t', rest, .ok v) → g t xs = next rest)
    (t : τ) :
    Resumes more final read (g t) := by
  intro xs
  have hpart := hinner t xs
  rcases hxs : inner t xs with ⟨t', rest, e | v⟩ <;> rw [hxs] at hpart
  · rw [herror hxs]
    cases hpart with
    | pending hgo =>
      refine .pending fun ys => ?_
      rw [hread]
      rcases hys : inner t' ys with ⟨t'', rest, e | v⟩
      · rw [herror hys, herror ((hgo ys).trans hys)]
      · obtain ⟨next, -, hnext⟩ := hok t'' v
        rw [hnext hys, hnext ((hgo ys).trans hys)]
    | done hr _ hsuffix hgo =>
      exact .done (fun he => hr (congrArg _ (Except.error.inj he))) nofun hsuffix
        fun ys => herror (hgo ys)
  · cases hpart with
    | done _ _ hsuffix hgo =>
      obtain ⟨next, hresumes, hnext⟩ := hok t' v
      have hpart := hresumes rest
      rw [hnext hxs]
      generalize next rest = res at hpart
      cases hpart with
      | pending hgo' => exact .pending fun ys => (hnext (hgo ys)).trans (hgo' ys)
      | done hr' hfinal hsuffix' hgo' =>
        exact .done hr' hfinal (hsuffix'.trans hsuffix) fun ys => (hnext (hgo ys)).trans (hgo' ys)

end Resumes

/-- Read one value from parts of the input that arrive one after the other. -/
def feed [DecidableEq ε] (more : ε) (read : Reader σ β ε α) :
    σ → List (List β) → σ × List β × Except ε α
  | s, [] => read s []
  | s, part :: parts =>
    match read s part with
    | (s, rest, .ok a) => (s, rest ++ parts.flatten, .ok a)
    | (s, rest, .error e) =>
      if e = more then feed more read s parts else (s, rest ++ parts.flatten, .error e)

lemma feed_eq [DecidableEq ε] {final : σ → Prop} {read : Reader σ β ε α}
    (h : ∀ s, Resumes more final read (read s)) (s : σ) (parts : List (List β)) :
    feed more read s parts = read s parts.flatten := by
  induction parts generalizing s with
  | nil => rfl
  | cons part parts ih =>
    have hpart := h s part
    rw [feed, flatten_cons]
    generalize read s part = res at hpart
    cases hpart with
    | pending hgo =>
      rw [hgo, ← ih]
      exact if_pos rfl
    | @done s' rest r hr _ _ hgo =>
      rw [hgo]
      cases r with
      | ok => rfl
      | error e => exact if_neg fun he => hr (congrArg _ he)

/-- The input of the reader can be cut anywhere, and a value takes at least one element of it. -/
structure Resumable (more : ε) (init : σ) (read : Reader σ β ε α) : Prop where
  resumes : ∀ s, Resumes more (· = init) read (read s)
  nil : read init [] = (init, [], .error more)
  cons : ∀ b, Resumes more (· = init) read fun xs => read init (b :: xs)

lemma Resumable.length_rest_lt {init s : σ} {read : Reader σ β ε α} {xs rest : List β} {a : α}
    (h : Resumable more init read) (hread : read init xs = (s, rest, .ok a)) :
    rest.length < xs.length := by
  cases xs with
  | nil => exact nomatch congrArg (fun res => res.2.2) (h.nil.symm.trans hread)
  | cons b xs => exact Nat.lt_succ_of_le ((h.cons b).complete hread).2

/-! ### Reading until an error -/

/-- Read values until an error. There is none if the fuel does not last. -/
def readAll (read : Reader σ β ε α) : ℕ → σ → List β → σ × List α × Option ε
  | 0, s, _ => (s, [], none)
  | fuel + 1, s, xs =>
    match read s xs with
    | (s, _, .error e) => (s, [], some e)
    | (s, rest, .ok a) =>
      let (s, as, e) := readAll read fuel s rest
      (s, a :: as, e)

/-- Read values from parts of the input that arrive one after the other, until an error other than
that more is needed. -/
def deliver [DecidableEq ε] (more : ε) (read : Reader σ β ε α) :
    σ → List (List β) → σ × List α × Option ε
  | s, [] => (s, [], some more)
  | s, part :: parts =>
    let (s, as, e) := readAll read (part.length + 2) s part
    if e = some more then
      let (s, bs, e) := deliver more read s parts
      (s, as ++ bs, e)
    else (s, as, e)

/-- From `s`, the values `as` are read, and then the error `e`; the state is then `s'`. -/
inductive Ends (read : Reader σ β ε α) (e : ε) : σ → List β → List α → σ → Prop
  | stop {s s' : σ} {xs rest : List β} :
      read s xs = (s', rest, .error e) → Ends read e s xs [] s'
  | next {s s' s'' : σ} {xs rest : List β} {a : α} {as : List α} :
      read s xs = (s', rest, .ok a) → Ends read e s' rest as s'' → Ends read e s xs (a :: as) s''

namespace Ends

variable {read : Reader σ β ε α} {init s s' s'' : σ} {xs ys : List β} {as bs : List α} {e : ε}

lemma congr {t : σ} (h : Ends read e s xs as s'') (heq : read s xs = read t ys) :
    Ends read e t ys as s'' := by
  cases h with
  | stop hs => exact .stop (heq ▸ hs)
  | next hs hend => exact .next (heq ▸ hs) hend

lemma single {a : α} (h : read s xs = (s', [], .ok a)) (hs' : read s' [] = (s'', [], .error e)) :
    Ends read e s xs [a] s'' :=
  .next h (.stop hs')

lemma readAll_eq (h : Ends read e s xs as s') {fuel : ℕ} (hfuel : as.length < fuel) :
    readAll read fuel s xs = (s', as, some e) := by
  induction h generalizing fuel with
  | stop hs =>
    obtain ⟨fuel, rfl⟩ := Nat.exists_eq_add_one_of_ne_zero (Nat.ne_zero_of_lt hfuel)
    rw [readAll, hs]
  | next hs _ ih =>
    obtain ⟨fuel, rfl⟩ := Nat.exists_eq_add_one_of_ne_zero (Nat.ne_zero_of_lt hfuel)
    rw [readAll, hs]
    simp only [ih (Nat.lt_of_succ_lt_succ hfuel)]

section

variable (hr : Resumable more init read)

include hr

lemma append (h₁ : Ends read more s xs as s') (h₂ : Ends read e s' ys bs s'') :
    Ends read e s (xs ++ ys) (as ++ bs) s'' := by
  induction h₁ with
  | @stop s s' xs rest hs => exact h₂.congr (((hr.resumes s).resume hs).2 ys).symm
  | @next s t s' xs rest a as hs _ ih => exact .next ((hr.resumes s).extend hs (by simp) ys) (ih h₂)

lemma split (h : Ends read more s (xs ++ ys) as s'') :
    ∃ as₁ as₂ s', as = as₁ ++ as₂ ∧ Ends read more s xs as₁ s' ∧ Ends read more s' ys as₂ s'' := by
  -- How the first part is read decides: a value complete in it is the next one of the whole.
  generalize hzs : xs ++ ys = zs at h
  induction h generalizing xs with
  | @stop s s' zs rest' hs =>
    subst hzs
    rcases hxs : read s xs with ⟨t, rest, r⟩
    by_cases hmore : r = .error more
    · subst hmore
      exact ⟨[], [], t, rfl, .stop hxs, .stop ((((hr.resumes s).resume hxs).2 ys).symm.trans hs)⟩
    · rw [(hr.resumes s).extend hxs hmore ys, Prod.mk.injEq, Prod.mk.injEq] at hs
      exact absurd hs.2.2 hmore
  | @next s s' s'' zs rest' a as hs hd ih =>
    subst hzs
    rcases hxs : read s xs with ⟨t, rest, r⟩
    by_cases hmore : r = .error more
    · subst hmore
      have hresume := ((hr.resumes s).resume hxs).2 ys
      exact ⟨[], a :: as, t, rfl, .stop hxs, .next (hresume.symm.trans hs) hd⟩
    · rw [(hr.resumes s).extend hxs hmore ys] at hs
      obtain ⟨rfl, rfl, rfl⟩ := hs
      obtain ⟨as₁, as₂, u, rfl, h₁, h₂⟩ := ih rfl
      exact ⟨a :: as₁, as₂, u, rfl, .next hxs h₁, h₂⟩

lemma extend (h : Ends read e s xs as s') (he : e ≠ more)
    (ys : List β) : Ends read e s (xs ++ ys) as s' := by
  induction h with
  | @stop s s' xs rest hs =>
    exact .stop ((hr.resumes s).extend hs (fun herror => he (Except.error.inj herror)) ys)
  | @next s t s' xs rest a as hs _ ih => exact .next ((hr.resumes s).extend hs (by simp) ys) ih

/-- If a value takes at least one element of the input, there are not more values than elements; a
value that has been started may be an exception. -/
lemma length_le (h : Ends read e s xs as s') : as.length ≤ xs.length + 1 := by
  have hfrom : ∀ {s xs as s'}, Ends read e s xs as s' → s = init → as.length ≤ xs.length := by
    intro s xs as s' h
    induction h with
    | stop => exact fun _ => Nat.zero_le _
    | next hs _ ih =>
      rintro rfl
      have hlt := hr.length_rest_lt hs
      have hle := ih (((hr.resumes _).complete hs).1)
      rw [length_cons]
      omega
  cases h with
  | stop => exact Nat.zero_le _
  | next hs hd =>
    obtain ⟨hinit, hle⟩ := (hr.resumes s).complete hs
    exact Nat.succ_le_succ ((hfrom hd hinit).trans hle)

lemma exists_of_resumable (s : σ) (xs : List β) : ∃ as s' e, Ends read e s xs as s' := by
  have hfrom : ∀ n, ∀ xs : List β, xs.length < n → ∃ as s' e, Ends read e init xs as s' := by
    intro n
    induction n with
    | zero => exact fun xs hxs => absurd hxs (Nat.not_lt_zero _)
    | succ n ih =>
      intro xs hxs
      rcases hread : read init xs with ⟨s', rest, e | a⟩
      · exact ⟨[], s', e, .stop hread⟩
      · have hlt := hr.length_rest_lt hread
        obtain rfl := ((hr.resumes _).complete hread).1
        obtain ⟨as, s'', e, hends⟩ := ih rest (by omega)
        exact ⟨a :: as, s'', e, .next hread hends⟩
  rcases hread : read s xs with ⟨s', rest, e | a⟩
  · exact ⟨[], s', e, .stop hread⟩
  · obtain rfl := ((hr.resumes _).complete hread).1
    obtain ⟨as, s'', e, hends⟩ := hfrom _ rest (Nat.lt_succ_self _)
    exact ⟨a :: as, s'', e, .next hread hends⟩

lemma read_nil (h : Ends read more s xs as s') : read s' [] = (s', [], .error more) := by
  induction h with
  | @stop s s' xs rest hs =>
    obtain ⟨rfl, hresume⟩ := (hr.resumes s).resume hs
    rw [← hresume [], append_nil, hs]
  | next _ _ ih => exact ih

end

end Ends

/-- **How the input is cut into parts makes no difference**: the same values are read, and the same
error ends them. -/
theorem deliver_eq_readAll [DecidableEq ε] {read : Reader σ β ε α} {init : σ}
    (hr : Resumable more init read) (parts : List (List β)) {s : σ}
    (hs : read s [] = (s, [], .error more)) :
    deliver more read s parts = readAll read (parts.flatten.length + 2) s parts.flatten ∧
      ∃ e, (deliver more read s parts).2.2 = some e := by
  induction parts generalizing s with
  | nil =>
    refine ⟨?_, more, rfl⟩
    rw [flatten_nil, (Ends.stop hs).readAll_eq (Nat.succ_pos _)]
    rfl
  | cons part parts ih =>
    obtain ⟨as, s', e, hends⟩ := Ends.exists_of_resumable hr s part
    have hpart := hends.readAll_eq (Nat.lt_succ_of_le (hends.length_le hr))
    rw [deliver, hpart, flatten_cons]
    dsimp only
    by_cases he : e = more
    · subst he
      -- The parts after this one are read from the state in which it leaves the reader.
      obtain ⟨bs, s'', e', hends'⟩ := Ends.exists_of_resumable hr s' parts.flatten
      have hrest := (ih (hends.read_nil hr)).1
      rw [hends'.readAll_eq (Nat.lt_succ_of_le (hends'.length_le hr))] at hrest
      have hall := hends.append hr hends'
      rw [if_pos rfl, hrest,
        hall.readAll_eq (Nat.lt_succ_of_le (hall.length_le hr))]
      exact ⟨rfl, e', rfl⟩
    · have hall := hends.extend hr he parts.flatten
      rw [if_neg (fun hsome => he (Option.some.inj hsome)),
        hall.readAll_eq (Nat.lt_succ_of_le (hall.length_le hr))]
      exact ⟨rfl, e, rfl⟩

/-! ### Executing what is read -/

/-- Read values and execute them until more input is needed. -/
def loop [DecidableEq ε] (more : ε) (read : Reader σ β ε α) (exec : τ → α → τ × Except ε Unit) :
    ℕ → σ → τ → List β → σ × τ × Except ε Unit
  | 0, s, t, _ => (s, t, .ok ())
  | fuel + 1, s, t, xs =>
    match read s xs with
    | (s, _, .error e) => (s, t, if e = more then .ok () else .error e)
    | (s, xs, .ok a) =>
      match exec t a with
      | (t, .error e) => (s, t, .error e)
      | (t, .ok ()) => loop more read exec fuel s t xs

/-- Executing the values one after the other succeeds and leads from `t` to `t'`. -/
def Executes (exec : τ → α → τ × Except ε Unit) : List α → τ → τ → Prop
  | [], t, t' => t = t'
  | a :: as, t, t' => ∃ u, exec t a = (u, .ok ()) ∧ Executes exec as u t'

lemma loop_of_ends [DecidableEq ε] {read : Reader σ β ε α} {exec : τ → α → τ × Except ε Unit}
    {s s' : σ} {xs : List β} {as : List α} {t t' : τ} {fuel : ℕ} (h : Ends read more s xs as s')
    (hexec : Executes exec as t t') (hfuel : as.length < fuel) :
    loop more read exec fuel s t xs = (s', t', .ok ()) := by
  induction h generalizing t fuel with
  | stop hs =>
    obtain ⟨fuel, rfl⟩ := Nat.exists_eq_add_one_of_ne_zero (Nat.ne_zero_of_lt hfuel)
    rw [loop, hs]
    simp only [if_true, show t = t' from hexec]
  | next hs _ ih =>
    obtain ⟨fuel, rfl⟩ := Nat.exists_eq_add_one_of_ne_zero (Nat.ne_zero_of_lt hfuel)
    obtain ⟨u, hu, hrest⟩ := hexec
    rw [loop, hs]
    simp only [hu]
    exact ih hrest (Nat.lt_of_succ_lt_succ hfuel)

/-- What reading and executing keep holds after the loop, and only errors that either can have
occur. -/
lemma loop_invariant [DecidableEq ε] {read : Reader σ β ε α} {exec : τ → α → τ × Except ε Unit}
    {ready : σ → Prop} {inv : τ → Prop} {allowed : ε → Prop}
    (hready : ∀ s xs, ready s → ready (read s xs).1)
    (hread : ∀ s xs e, ready s → (read s xs).2.2 = .error e → e ≠ more → allowed e)
    (hexec : ∀ t a, inv t → (exec t a).2 = .ok () → inv (exec t a).1)
    (herror : ∀ t a e, inv t → (exec t a).2 = .error e → allowed e) {fuel : ℕ} {s : σ} {t : τ}
    {xs : List β} (hs : ready s) (ht : inv t) :
    (∀ e, (loop more read exec fuel s t xs).2.2 = .error e → allowed e) ∧
      ((loop more read exec fuel s t xs).2.2 = .ok () →
        ready (loop more read exec fuel s t xs).1 ∧ inv (loop more read exec fuel s t xs).2.1) := by
  induction fuel generalizing s t xs with
  | zero => exact ⟨nofun, fun _ => ⟨hs, ht⟩⟩
  | succ fuel ih =>
    have hs' := hready s xs hs
    have hread' := hread s xs
    unfold loop
    rcases hres : read s xs with ⟨s', rest, e | a⟩
    · rw [hres] at hs' hread'
      dsimp only at hs' hread' ⊢
      split_ifs with hmore
      · exact ⟨nofun, fun _ => ⟨hs', ht⟩⟩
      · refine ⟨?_, nofun⟩
        intro e' he'
        cases he'
        exact hread' e hs rfl hmore
    · rw [hres] at hs'
      have hexec' := hexec t a ht
      have herror' := fun e => herror t a e ht
      dsimp only at hs' ⊢
      generalize exec t a = result at hexec' herror'
      obtain ⟨t', e | _⟩ := result
      · refine ⟨?_, nofun⟩
        intro e' he'
        cases he'
        exact herror' e rfl
      · exact ih hs' (hexec' rfl)

/-- What executing a value keeps, even if that is an error, holds after the loop. -/
lemma loop_keeps [DecidableEq ε] {read : Reader σ β ε α} {exec : τ → α → τ × Except ε Unit}
    {inv : τ → Prop} (hexec : ∀ t a, inv t → inv (exec t a).1) {fuel : ℕ} {s : σ} {t : τ}
    {xs : List β}
    (ht : inv t) : inv (loop more read exec fuel s t xs).2.1 := by
  induction fuel generalizing s t xs with
  | zero => exact ht
  | succ fuel ih =>
    unfold loop
    rcases read s xs with ⟨s', rest, e | a⟩
    · exact ht
    · have hexec' := hexec t a ht
      dsimp only
      generalize exec t a = result at hexec'
      obtain ⟨t', e | _⟩ := result
      · exact hexec'
      · exact ih hexec'

end Reader

end Neqo
