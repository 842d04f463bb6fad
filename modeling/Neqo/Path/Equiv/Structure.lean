import Neqo.Path.Equiv.Basic

/-!
# The structure of the paths of a connection

The primary path is in slot 0 and no other path is marked as primary (`Paths.Placed`). A path that
leaves the list also stops being the target of a migration, with one exception: if it fails when
time elapses, `processTimeout` drops it and the migration target stays. Which paths are dropped is
decided by their state before (`mem_timeouts`).
-/

namespace Neqo

variable {S T : Type}

lemma Path.processTimeout_viable (p : Path S T) (now pto : ℕ) :
    (p.processTimeout now pto).2 = p.lasts now pto := by
  unfold Path.processTimeout Path.lasts
  cases hstate : p.state with
  | probing probeCount _ _ sent =>
    dsimp only
    split_ifs with hnow
    · unfold Path.probe
      rw [hstate]
      dsimp only
      split_ifs with hcount hmarking <;> simp_all
    · simp [hstate, not_le.mp hnow]
  | valid => simp [hstate, maxProbes, mul_comm]
  | probeNeeded | failed => simp [hstate]

namespace Paths

open List Option

/-! ### Where the primary path is -/

/-- The paths are different permanent paths, with the primary path first. -/
structure Placed (s : Paths S T) : Prop where
  nodup : s.paths.Nodup
  permanent : ∀ p ∈ s.paths, (s.heap p).remoteCid.isSome = true
  first : ∀ p, s.primary = some p → ∃ rest, s.paths = p :: rest
  marked : ∀ p ∈ s.paths, (s.heap p).primary = true → s.primary = some p
  primary_marked : ∀ p, s.primary = some p → (s.heap p).primary = true

lemma placed_new (heap : PathRef → Path S T) (pmtud : Bool) : (new heap pmtud).Placed :=
  ⟨nodup_nil, fun _ h => absurd h not_mem_nil, nofun,
    fun _ h => absurd h not_mem_nil, nofun⟩

variable {s s' : Paths S T}

lemma Placed.primary_mem (h : s.Placed) {p : PathRef} (hp : s.primary = some p) : p ∈ s.paths := by
  obtain ⟨rest, hpaths⟩ := h.first p hp
  rw [hpaths]
  exact mem_cons_self

variable {path : PathRef}

lemma Placed.select (h : s.Placed) (hselects : Selects s s' path) : s'.Placed := by
  refine ⟨hselects.perm.nodup_iff.mpr h.nodup, fun p hp => ?_, fun p hp => ?_, fun p hp hmark => ?_,
    fun p hp => ?_⟩
  · rw [hselects.remoteCid_eq]
    exact h.permanent p (hselects.perm.mem_iff.mp hp)
  · obtain rfl : path = p := some.inj (hselects.primary_eq.symm.trans hp)
    exact hselects.first
  · by_cases hpath : p = path
    · rw [hpath]
      exact hselects.primary_eq
    · obtain ⟨hold, hne⟩ := hselects.marked p hpath hmark
      exact absurd (h.marked p (hselects.perm.mem_iff.mp hp) hold) hne
  · obtain rfl : path = p := some.inj (hselects.primary_eq.symm.trans hp)
    exact hselects.marked_self

lemma Placed.of_sublist (h : s.Placed) (hsublist : s'.paths.Sublist s.paths)
    (hprimary : s'.primary = s.primary) (hmarks : ∀ p, (s'.heap p).primary = (s.heap p).primary)
    (hpermanent : ∀ p ∈ s'.paths, (s'.heap p).remoteCid.isSome = true)
    (hstays : ∀ p, s.primary = some p → p ∈ s'.paths) : s'.Placed := by
  refine ⟨hsublist.nodup h.nodup, hpermanent, fun p hp => ?_, fun p hp hmark => ?_, fun p hp => ?_⟩
  · -- The first path can only stay first.
    have hp := hprimary ▸ hp
    obtain ⟨rest, hpaths⟩ := h.first p hp
    have hnodup := h.nodup
    rw [hpaths] at hsublist hnodup
    rcases sublist_cons_iff.mp hsublist with hrest | ⟨rest', hpaths', -⟩
    · exact absurd (hrest.subset (hstays p hp)) (nodup_cons.mp hnodup).1
    · exact ⟨rest', hpaths'⟩
  · rw [hprimary]
    exact h.marked p (hsublist.subset hp) (hmarks p ▸ hmark)
  · rw [hmarks]
    exact h.primary_marked p (hprimary ▸ hp)

lemma Placed.touch (h : s.Placed) (ht : Touches s s') : s'.Placed := by
  obtain ⟨hkeeps, hpaths, hprimary, -⟩ := ht
  refine h.of_sublist (hpaths ▸ List.Sublist.refl _) hprimary (fun p => (hkeeps p).primary)
    (fun p hp => ?_) fun p hp => hpaths ▸ h.primary_mem hp
  rw [(hkeeps p).remoteCid]
  exact h.permanent p (hpaths ▸ hp)

/-- The whole structure: the migration target is one of the paths. -/
structure Inv (s : Paths S T) : Prop extends Placed s where
  target_mem : ∀ p, s.migrationTarget = some p → p ∈ s.paths

lemma Inv.touch (h : s.Inv) (ht : Touches s s') : s'.Inv :=
  ⟨h.toPlaced.touch ht, fun p hp => ht.paths ▸ h.target_mem p (ht.target ▸ hp)⟩

lemma Inv.select (h : s.Inv) (hselects : Selects s s' path) : s'.Inv :=
  ⟨h.toPlaced.select hselects, fun p hp =>
    hselects.perm.mem_iff.mpr (h.target_mem p (hselects.target_eq ▸ hp))⟩

lemma Inv.migrates (h : s.Inv) (hm : Migrates s s') : s'.Inv := by
  induction hm with
  | refl => exact h
  | touch _ ht ih => exact ih.touch ht
  | select _ hs ih => exact ih.select hs
  | aim _ hmem ih => exact ⟨{ ih with }, hmem⟩

/-! ### New paths -/

lemma Inv.evict (h : s.Inv) (hevict : s.evict = .ok s') : s'.Inv := by
  rcases evict_cases hevict with rfl | ⟨removed, hremoved, rfl⟩
  · exact h
  -- The path at index 1 is not the primary path, and no longer the migration target.
  have hmem : ∀ p, p ∈ s.paths → p ≠ removed → p ∈ s.paths.eraseIdx 1 := by
    intro p hp hne
    obtain ⟨i, hi⟩ := mem_iff_getElem?.mp hp
    refine mem_eraseIdx_iff_getElem?.mpr ⟨i, ?_, hi⟩
    rintro rfl
    exact hne (some.inj (hi.symm.trans hremoved))
  have hsublist : (s.paths.eraseIdx 1).Sublist s.paths := eraseIdx_sublist _ _
  refine ⟨h.toPlaced.of_sublist hsublist rfl (fun p => rfl)
    (fun p hp => h.permanent p (hsublist.subset hp)) fun p hp => ?_, fun p hp => ?_⟩
  · obtain ⟨rest, hpaths⟩ := h.first p hp
    show p ∈ s.paths.eraseIdx 1
    rw [hpaths]
    exact mem_cons_self
  · dsimp only at hp
    by_cases htarget : s.migrationTarget = some removed
    · rw [if_pos htarget] at hp
      exact nomatch hp
    · rw [if_neg htarget] at hp
      exact hmem p (h.target_mem p hp) fun heq => htarget (heq ▸ hp)

lemma Inv.adopt (h : s.Inv) (hnew : path ∉ s.paths) (hmark : (s.heap path).primary = false)
    (localCid : Option ConnectionId) (remoteCid : RemoteConnectionIdEntry) :
    (s.adopt path localCid remoteCid).Inv := by
  have hne : ∀ p ∈ s.paths, p ≠ path := fun p hp heq => hnew (heq ▸ hp)
  have hother : ∀ p ∈ s.paths, (s.adopt path localCid remoteCid).heap p = s.heap p :=
    fun p hp => heap_adopt_of_ne s (hne p hp) localCid remoteCid
  have hself := heap_adopt_self s path localCid remoteCid
  refine ⟨⟨?_, fun p hp => ?_, fun p hp => ?_, fun p hp hpmark => ?_, fun p hp => ?_⟩,
    fun p hp => mem_append_left _ (h.target_mem p hp)⟩
  · refine nodup_append.mpr ⟨h.nodup, by simp, fun p hp q hq => ?_⟩
    rw [mem_singleton.mp hq]
    exact hne p hp
  · rcases mem_append.mp hp with hp | hp
    · rw [hother p hp]
      exact h.permanent p hp
    · rw [mem_singleton.mp hp, hself]
      rfl
  · obtain ⟨rest, hrest⟩ := h.first p hp
    exact ⟨rest ++ [path], congrArg (· ++ [path]) hrest⟩
  · rcases mem_append.mp hp with hp | hp
    · rw [hother p hp] at hpmark
      exact h.marked p hp hpmark
    · rw [mem_singleton.mp hp, hself] at hpmark
      exact absurd (hmark.symm.trans hpmark) Bool.false_ne_true
  · rw [hother p (h.primary_mem hp)]
    exact h.primary_marked p hp

lemma Placed.not_mem_of_isTemporary (h : s.Placed) (htemporary : s.isTemporary path = true) :
    path ∉ s.paths := by
  intro hmem
  have hpermanent := h.permanent path hmem
  rw [isTemporary, Bool.or_eq_true, decide_eq_true_eq] at htemporary
  rcases htemporary with hnone | hnot
  · rw [Path.isTemporary, isNone_iff_eq_none] at hnone
    rw [hnone] at hpermanent
    exact absurd hpermanent Bool.false_ne_true
  · exact hnot hmem

lemma Inv.makePermanent (h : s.Inv) {localCid : Option ConnectionId}
    {remoteCid : RemoteConnectionIdEntry} (hpath : (s.heap path).primary = false)
    (hmake : s.makePermanent path localCid remoteCid = .ok s') : s'.Inv := by
  unfold Paths.makePermanent at hmake
  by_cases htemporary : s.isTemporary path = true
  · rw [if_pos htemporary] at hmake
    obtain ⟨s₁, hevict, hmake⟩ := bind_eq_ok.mp hmake
    have h₁ := h.evict hevict
    obtain ⟨hheap, hsublist⟩ := evict_sublist hevict
    have hnew : path ∉ s₁.paths :=
      fun hmem => h.not_mem_of_isTemporary htemporary (hsublist.subset hmem)
    have h₂ := h₁.adopt hnew (hheap ▸ hpath) localCid remoteCid
    rcases ensurePrimary_cases hmake (s₁.mem_adopt path localCid remoteCid) with rfl | hselects
    · exact h₂
    · exact h₂.select hselects
  · rw [if_neg htemporary] at hmake
    exact nomatch hmake

/-! ### Time that elapses -/

lemma mem_timeouts {now pto : ℕ} {l : List PathRef} {heap : PathRef → Path S T} (hl : l.Nodup)
    {p : PathRef} :
    p ∈ (timeouts now pto l heap).paths ↔ p ∈ l ∧ (heap p).lasts now pto = true := by
  induction l generalizing heap with
  | nil => simp [timeouts]
  | cons q l ih =>
    obtain ⟨hq, hl⟩ := nodup_cons.mp hl
    -- The paths after the first one are not changed by its timeout.
    have hother : p ∈ l → ∀ path, Function.update heap q path p = heap p := by
      intro hp path
      exact Function.update_of_ne (ne_of_mem_of_not_mem hp hq) path heap
    have hviable := (heap q).processTimeout_viable now pto
    rw [timeouts]
    generalize (heap q).processTimeout now pto = result at hviable
    obtain ⟨path, viable⟩ := result
    dsimp only at hviable ⊢
    have hrest : p ∈ (timeouts now pto l (Function.update heap q path)).paths ↔
        p ∈ l ∧ (heap p).lasts now pto = true :=
      (ih hl).trans (and_congr_right fun hp => by rw [hother hp])
    subst hviable
    split_ifs with hlasts
    · rw [mem_cons, hrest, mem_cons]
      constructor
      · rintro (rfl | ⟨hp, hp'⟩)
        · exact ⟨.inl rfl, hlasts⟩
        · exact ⟨.inr hp, hp'⟩
      · rintro ⟨hp, hp'⟩
        exact hp.imp_right (⟨·, hp'⟩)
    · rw [hrest, mem_cons]
      refine ⟨And.imp_left .inr, ?_⟩
      rintro ⟨hp, hp'⟩
      refine ⟨hp.resolve_left ?_, hp'⟩
      rintro rfl
      exact hlasts hp'

/-- The primary path is kept, or no path is primary before another one is selected. The migration
target stays what it is, whether or not it is kept. -/
lemma Placed.processTimeout (h : s.Placed) {now pto : ℕ} {viable : Bool}
    (hprocess : s.processTimeout now pto = .ok (s', viable)) :
    s'.Placed ∧ s'.migrationTarget = s.migrationTarget ∧
      ∀ p, p ∈ s'.paths ↔ p ∈ s.paths ∧ (s.heap p).lasts now pto = true := by
  unfold Paths.processTimeout at hprocess
  have helapsed := timeouts_elapsed now pto s.paths s.heap
  have hmem : ∀ p, p ∈ (timeouts now pto s.paths s.heap).paths ↔ _ :=
    fun p => mem_timeouts h.nodup
  generalize timeouts now pto s.paths s.heap = t at helapsed hmem hprocess
  have hpermanent : ∀ p ∈ t.paths, (t.heap p).remoteCid.isSome = true := by
    intro p hp
    rw [(helapsed.keeps p).remoteCid]
    exact h.permanent p (helapsed.sublist.subset hp)
  dsimp only at hprocess
  cases hfailed : t.primaryFailed with
  | true =>
    rw [hfailed] at hprocess
    obtain ⟨p, hp, hmark, hgone⟩ := helapsed.failed h.nodup hfailed
    -- Only the path that failed was marked.
    have hunmarked : ∀ q ∈ t.paths, ¬ (t.heap q).primary = true := by
      intro q hq hqmark
      have hprimary := h.marked q (helapsed.sublist.subset hq) ((helapsed.keeps q).primary ▸ hqmark)
      obtain rfl := some.inj ((h.marked p hp hmark).symm.trans hprimary)
      exact hgone hq
    have hcleared : Placed { s with
        heap := t.heap, paths := t.paths, primary := none, toRetire := s.toRetire ++ t.toRetire } :=
      ⟨helapsed.sublist.nodup h.nodup, hpermanent, (fun _ hp => nomatch hp),
        fun q hq hqmark => absurd hqmark (hunmarked q hq), (fun _ hp => nomatch hp)⟩
    rcases failOver_cases hprocess with rfl | ⟨fallback, hselects⟩
    · exact ⟨hcleared, rfl, hmem⟩
    · exact ⟨hcleared.select hselects, hselects.target_eq,
        fun p => hselects.perm.mem_iff.trans (hmem p)⟩
  | false =>
    rw [hfailed] at hprocess
    obtain ⟨rfl, -⟩ := Prod.mk.inj (Except.ok.inj hprocess)
    have hfire := touches_fireRaiseTimer { s with
      heap := t.heap, paths := t.paths, toRetire := s.toRetire ++ t.toRetire } now
    refine ⟨Placed.touch ?_ hfire, hfire.target, fun p => hfire.paths ▸ hmem p⟩
    exact h.of_sublist helapsed.sublist rfl (fun p => (helapsed.keeps p).primary) hpermanent
      fun p hp => helapsed.stays hfailed p (h.primary_mem hp) (h.primary_marked p hp)

/-- The migration target is kept exactly if it has a probe left or was validated recently. -/
lemma Inv.processTimeout_iff (h : s.Inv) {now pto : ℕ}
    (happly : s.apply (.processTimeout now pto) = .ok s') :
    s'.Placed ∧ ((∀ target, s'.migrationTarget = some target → target ∈ s'.paths) ↔
      s.KeepsTarget (.processTimeout now pto)) := by
  obtain ⟨⟨s₁, viable⟩, hprocess, rfl⟩ := map_eq_ok.mp happly
  obtain ⟨hplaced, htarget, hmem⟩ := h.toPlaced.processTimeout hprocess
  refine ⟨hplaced, ?_⟩
  dsimp only
  rw [htarget]
  refine forall₂_congr fun target hs => (hmem target).trans (and_iff_right (h.target_mem target hs))

/-! ### Connection IDs that are retired -/

/-- What is left of a list of paths after connection IDs are retired: the paths that have another
connection ID. -/
structure Replaced (l : List PathRef) (heap : PathRef → Path S T) (target : Option PathRef)
    (r : Retirement S T) : Prop where
  sublist : r.paths.Sublist l
  primary_eq : ∀ q, (r.heap q).primary = (heap q).primary
  permanent : ∀ q ∈ r.paths, (r.heap q).remoteCid.isSome = true
  stays : ∀ q ∈ l, (heap q).primary = true → q ∈ r.paths
  target : ∀ q, r.migrationTarget = some q → target = some q ∧ (q ∈ l → q ∈ r.paths)
  frame : ∀ q, q ∉ l → r.heap q = heap q

lemma replaceCids_replaced {retirePrior : ℕ} {l : List PathRef} {heap : PathRef → Path S T}
    {store : ConnectionIdStore Srt} {target : Option PathRef} {r : Retirement S T}
    (hnodup : l.Nodup) (hpermanent : ∀ p ∈ l, (heap p).remoteCid.isSome = true)
    (h : replaceCids retirePrior l heap store target = .ok r) : Replaced l heap target r := by
  induction l generalizing heap store target r with
  | nil =>
    obtain rfl := Except.ok.inj h
    exact ⟨List.Sublist.refl _, fun _ => rfl, fun _ hq => absurd hq not_mem_nil,
      fun _ hq => absurd hq not_mem_nil, fun _ hq => ⟨hq, fun h => absurd h not_mem_nil⟩,
      fun _ _ => rfl⟩
  | cons p l ih =>
    obtain ⟨hp, hnodup⟩ := nodup_cons.mp hnodup
    obtain ⟨heap', store', target', rest, hrest, hheap, -, htarget, hstep⟩ := replaceCids_cons h
    -- What this step does to the path, which the rest of the list leaves alone.
    obtain ⟨hother, hmark, hfirst⟩ : (∀ q, q ≠ p → heap' q = heap q) ∧
        (heap' p).primary = (heap p).primary ∧
        ((heap' p).remoteCid.isSome = true ∧ target' = target ∧ r.paths = p :: rest.paths ∨
          (heap p).primary = false ∧ r.paths = rest.paths ∧
            target' = if target = some p then none else target) := by
      rcases hstep with ⟨rfl, -, rfl, hpaths, -⟩ | ⟨newCid, rfl, -, hstep⟩
      · exact ⟨fun _ _ => rfl, rfl, .inl ⟨hpermanent p mem_cons_self, rfl, hpaths⟩⟩
      · rw [Function.update_self]
        exact ⟨fun q hq => Function.update_of_ne hq _ _, rfl, hstep.imp_right And.right⟩
    have hmarks : ∀ q, (heap' q).primary = (heap q).primary := by
      intro q
      by_cases hq : q = p
      · rw [hq, hmark]
      · rw [hother q hq]
    have hne : ∀ q ∈ l, q ≠ p := fun q hq heq => hp (heq ▸ hq)
    have hreplaced := ih hnodup (fun q hq => by
      rw [hother q (hne q hq)]
      exact hpermanent q (mem_cons_of_mem _ hq)) hrest
    have hmarked : ∀ q, (r.heap q).primary = (heap q).primary := fun q => by
      rw [hheap, hreplaced.primary_eq, hmarks]
    have hframe : ∀ q, q ∉ p :: l → r.heap q = heap q := fun q hq => by
      rw [hheap, hreplaced.frame q (not_mem_of_not_mem_cons hq),
        hother q (ne_of_not_mem_cons hq)]
    rcases hfirst with ⟨hsome, rfl, hpaths⟩ | ⟨hunmarked, hpaths, htarget'⟩
    · refine ⟨hpaths ▸ hreplaced.sublist.cons_cons p, hmarked, fun q hq => ?_,
        fun q hq hqmark => ?_, fun q hq => ?_, hframe⟩
      · rw [hheap]
        rcases mem_cons.mp (hpaths ▸ hq) with rfl | hq
        · rw [hreplaced.frame q hp]
          exact hsome
        · exact hreplaced.permanent q hq
      · rw [hpaths, mem_cons]
        exact (mem_cons.mp hq).imp_right fun hq => hreplaced.stays q hq ((hmarks q).trans hqmark)
      · obtain ⟨htarget, hmem⟩ := hreplaced.target q (htarget ▸ hq)
        rw [hpaths, mem_cons, mem_cons]
        exact ⟨htarget, Or.imp_right hmem⟩
    · refine ⟨hpaths ▸ hreplaced.sublist.cons p, hmarked, fun q hq => ?_, fun q hq hqmark => ?_,
        fun q hq => ?_, hframe⟩
      · rw [hheap]
        exact hreplaced.permanent q (hpaths ▸ hq)
      · rw [hpaths]
        rcases mem_cons.mp hq with rfl | hq
        · exact absurd (hunmarked.symm.trans hqmark) Bool.false_ne_true
        · exact hreplaced.stays q hq ((hmarks q).trans hqmark)
      · obtain ⟨hrest, hmem⟩ := hreplaced.target q (htarget ▸ hq)
        rw [htarget'] at hrest
        split_ifs at hrest with hgone
        refine ⟨hrest, fun hq => ?_⟩
        rw [hpaths]
        rcases mem_cons.mp hq with rfl | hq
        · exact absurd hrest hgone
        · exact hmem hq

lemma Inv.retireCids (h : s.Inv) {retirePrior : ℕ} {store store' : ConnectionIdStore Srt}
    (hretire : s.retireCids retirePrior store = .ok (s', store')) : s'.Inv := by
  obtain ⟨r, hreplace, hretire⟩ := bind_eq_ok.mp hretire
  obtain ⟨rfl, -⟩ := Prod.mk.inj (Except.ok.inj hretire)
  have hreplaced := replaceCids_replaced h.nodup h.permanent hreplace
  refine ⟨h.toPlaced.of_sublist hreplaced.sublist rfl hreplaced.primary_eq hreplaced.permanent
    fun p hp => hreplaced.stays p (h.primary_mem hp) (h.primary_marked p hp), fun p hp => ?_⟩
  obtain ⟨htarget, hmem⟩ := hreplaced.target p hp
  exact hmem (h.target_mem p htarget)

/-! ### Runs -/

lemma Inv.apply (h : s.Inv) {op : PathsOp} (hop : s.KeepsTarget op) (happly : s.apply op = .ok s')
    : s'.Inv := by
  cases op with
  | makePermanent => exact h.makePermanent hop happly
  | processTimeout now pto =>
    obtain ⟨hplaced, htarget⟩ := h.processTimeout_iff happly
    exact ⟨hplaced, htarget.mpr hop⟩
  | retireCids =>
    obtain ⟨⟨s₁, store'⟩, hretire, rfl⟩ := map_eq_ok.mp happly
    exact h.retireCids hretire
  | _ => exact h.migrates (apply_migrates rfl happly)

lemma Inv.step (h : s.Inv) {op : PathsOp} (hop : s.KeepsTarget op) : (s.step op).Inv := by
  unfold Paths.step
  cases happly : s.apply op with
  | ok => exact h.apply hop happly
  | error => exact h

/-- **The structure of the paths**: the migration target is one of the paths, and the primary path
is the first and the only one that is marked, if the migration target has a probe left or was
validated recently whenever time elapses, and no path that was dropped while primary is adopted
again. The condition on the migration target is needed each time. -/
theorem structure_of_keepsTarget (heap : PathRef → Path S T) (pmtud : Bool) (ops : List PathsOp)
    (h : Run.Along step KeepsTarget (new heap pmtud) ops) :
    let s := (new heap pmtud).run ops
    (∀ target, s.migrationTarget = some target → target ∈ s.paths) ∧
      (∀ primary, s.primary = some primary →
        s.paths[0]? = some primary ∧ (s.heap primary).primary = true ∧
          ∀ p ∈ s.paths, (s.heap p).primary = true → p = primary) ∧
      ∀ now pto s', s.apply (.processTimeout now pto) = .ok s' →
        ((∀ target, s'.migrationTarget = some target → target ∈ s'.paths) ↔
          ∀ target ∈ s.migrationTarget, (s.heap target).lasts now pto = true) := by
  intro s
  have hinv : s.Inv :=
    h.invariant (fun _ _ hinv hop => hinv.step hop) ⟨placed_new heap pmtud, fun _ hp => nomatch hp⟩
  refine ⟨hinv.target_mem, fun primary hprimary => ⟨?_, hinv.primary_marked primary hprimary, ?_⟩,
    fun _ _ _ happly => (hinv.processTimeout_iff happly).2⟩
  · obtain ⟨rest, hpaths⟩ := hinv.first primary hprimary
    rw [hpaths]
    rfl
  · intro p hp hmark
    exact some.inj ((hinv.marked p hp hmark).symm.trans hprimary)

/-- Two paths, with a migration to the second one under way. -/
theorem structure_of_pending :
    let sender : PacketSender ClassicSlowStart NewReno := .new {} {} false false (.new .v4 none) 0
    let cid (n : ℕ) : RemoteConnectionIdEntry := ⟨n, ⟨[1], by decide⟩, ⟨List.replicate 16 0, rfl⟩⟩
    let ops : List PathsOp :=
      [.makePermanent 0 none (cid 0), .makePermanent 1 none (cid 1), .migrate 1 false 0,
        .processTimeout 10 10]
    let s := (new (fun _ => Path.temporary sender 100) false).run ops
    s.migrationTarget = some 1 ∧ 1 ∈ s.paths ∧ s.primary = some 0 ∧ s.paths[0]? = some 0 := by
  intro sender cid ops s
  obtain ⟨htarget, hprimary, -⟩ := structure_of_keepsTarget
    (fun _ => Path.temporary sender 100) false ops (by decide)
  have h₁ : s.migrationTarget = some 1 := by decide
  have h₀ : s.primary = some 0 := by decide
  exact ⟨h₁, htarget 1 h₁, h₀, (hprimary 0 h₀).1⟩

/-- A migration to a path whose probes are not answered: after three probes with ECN marks and three
without, the path is dropped, and is still the migration target. -/
theorem target_dangles :
    let sender : PacketSender ClassicSlowStart NewReno := .new {} {} false false (.new .v4 none) 0
    let cid (n : ℕ) : RemoteConnectionIdEntry := ⟨n, ⟨[1], by decide⟩, ⟨List.replicate 16 0, rfl⟩⟩
    let probe (now : ℕ) : List PathsOp :=
      [.writeFrames 1 { limit := 100 } [0, 0, 0, 0, 0, 0, 0, 0] true now,
        .processTimeout (now + 10) 10]
    let ops : List PathsOp :=
      [.makePermanent 0 none (cid 0), .makePermanent 1 none (cid 1), .migrate 1 false 0] ++
        [0, 10, 20, 30, 40, 50].flatMap probe
    let start := new (fun _ => Path.temporary sender 100) false
    Run.Along step (fun s op => (s.apply op).isOk = true) start ops ∧
      (start.run ops).migrationTarget = some 1 ∧ (start.run ops).paths = [0] := by
  decide

end Paths

end Neqo
