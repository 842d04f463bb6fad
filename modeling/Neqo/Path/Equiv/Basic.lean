import Neqo.Path.Basic

/-!
# What the operations on paths do

Only few operations change which path is primary and which connection ID a path uses; for all others
there is a `Keeps` lemma. A migration selects another primary path and has a target on the way
there (`Migrates`).
-/

namespace Neqo

open Except Function List Option

variable {S T : Type}

namespace Path

/-- The path stays primary, or not, and keeps its connection ID. -/
structure Keeps (p p' : Path S T) : Prop where
  primary : p'.primary = p.primary
  remoteCid : p'.remoteCid = p.remoteCid

lemma Keeps.refl (p : Path S T) : p.Keeps p := ⟨rfl, rfl⟩

lemma Keeps.trans {p p' p'' : Path S T} (h : p.Keeps p') (h' : p'.Keeps p'') : p.Keeps p'' :=
  ⟨h'.primary.trans h.primary, h'.remoteCid.trans h.remoteCid⟩

section

variable (p : Path S T)

lemma keeps_setValid (now : ℕ) : p.Keeps (p.setValid now) := ⟨rfl, rfl⟩

lemma keeps_updatePort (port : ℕ) : p.Keeps (p.updatePort port) := ⟨rfl, rfl⟩

lemma keeps_update (now : ℕ) : p.Keeps (p.update now) := by
  unfold update
  split_ifs
  · exact ⟨rfl, rfl⟩
  · exact .refl p

lemma keeps_probe : p.Keeps p.probe := by
  unfold probe
  dsimp only
  split_ifs <;> exact ⟨rfl, rfl⟩

lemma keeps_pathResponse (response : Bytes) (now : ℕ) :
    p.Keeps (p.pathResponse response now).1 := by
  unfold pathResponse
  cases p.state with
  | probing =>
    dsimp only
    split_ifs
    · exact (p.keeps_setValid now).trans (keeps_probe _)
    · exact p.keeps_setValid now
    · exact .refl p
  | valid | probeNeeded | failed => exact .refl p

lemma keeps_writeFrames (builder : Builder) (data : Bytes) (mtu : Bool)
    (now : ℕ) : p.Keeps (p.writeFrames builder data mtu now).1 := by
  unfold writeFrames
  split_ifs
  · exact .refl p
  rcases writeResponses p.challenges builder with ⟨challenges, builder, respSent⟩
  dsimp only
  split_ifs
  · exact ⟨rfl, rfl⟩
  · cases p.state <;> exact ⟨rfl, rfl⟩

lemma keeps_processTimeout (now pto : ℕ) : p.Keeps (p.processTimeout now pto).1 := by
  unfold processTimeout
  dsimp only
  -- A probe is the only change, and comes first.
  split <;> dsimp only <;> split <;> try split_ifs
  all_goals first | exact p.keeps_probe | exact .refl p

end

end Path

namespace Paths

/-- All paths stay primary, or not, and keep their connection IDs. -/
def Keeps (heap heap' : PathRef → Path S T) : Prop := ∀ p, (heap p).Keeps (heap' p)

lemma Keeps.refl (heap : PathRef → Path S T) : Keeps heap heap := fun p => .refl (heap p)

variable {heap heap' : PathRef → Path S T}

lemma Keeps.trans {heap'' : PathRef → Path S T} (h : Keeps heap heap') (h' : Keeps heap' heap'') :
    Keeps heap heap'' := fun p => (h p).trans (h' p)

variable {p path : PathRef}

lemma keeps_update {path : Path S T} (h : (heap p).Keeps path) :
    Keeps heap (update heap p path) := by
  intro q
  by_cases hq : q = p
  · rw [hq, update_self]
    exact h
  · rw [update_of_ne hq]
    exact .refl _

@[simp]
lemma heap_modify_self (s : Paths S T) (p : PathRef) (f : Path S T → Path S T) :
    (s.modify p f).heap p = f (s.heap p) := update_self ..

lemma heap_modify_of_ne (s : Paths S T) {q : PathRef} (h : q ≠ p) (f : Path S T → Path S T) :
    (s.modify p f).heap q = s.heap q := update_of_ne h ..

/-! ### Loops over the paths -/

/-- What is left of a list of paths after time has elapsed. -/
structure Elapsed (l : List PathRef) (heap : PathRef → Path S T) (t : Timeouts S T) : Prop where
  keeps : Keeps heap t.heap
  sublist : t.paths.Sublist l
  stays : t.primaryFailed = false → ∀ p ∈ l, (heap p).primary = true → p ∈ t.paths
  failed : l.Nodup → t.primaryFailed = true → ∃ p ∈ l, (heap p).primary = true ∧ p ∉ t.paths

lemma timeouts_elapsed (now pto : ℕ) (l : List PathRef) (heap : PathRef → Path S T) :
    Elapsed l heap (timeouts now pto l heap) := by
  induction l generalizing heap with
  | nil =>
    exact ⟨.refl heap, List.Sublist.refl _, fun _ p hp => absurd hp not_mem_nil,
      fun _ h => absurd h Bool.false_ne_true⟩
  | cons p l ih =>
    have hkept := (heap p).keeps_processTimeout now pto
    rw [timeouts]
    rcases hprocess : (heap p).processTimeout now pto with ⟨path, viable⟩
    rw [hprocess] at hkept
    dsimp only at hkept ⊢
    have hrest := ih (update heap p path)
    generalize timeouts now pto l (update heap p path) = rest at hrest ⊢
    have hupdate : Keeps heap (update heap p path) := keeps_update hkept
    have hprimary : ∀ q, (update heap p path q).primary = (heap q).primary :=
      fun q => (hupdate q).primary
    cases viable with
    | true =>
      refine ⟨hupdate.trans hrest.keeps, hrest.sublist.cons_cons p, fun hfailed q hq hqp => ?_,
        fun hnodup hfailed => ?_⟩
      · rcases mem_cons.mp hq with rfl | hq
        · exact mem_cons_self
        · exact mem_cons_of_mem _ (hrest.stays hfailed q hq ((hprimary q).trans hqp))
      · have hnodup := nodup_cons.mp hnodup
        obtain ⟨q, hq, hqp, hgone⟩ := hrest.failed hnodup.2 hfailed
        refine ⟨q, mem_cons_of_mem _ hq, (hprimary q).symm.trans hqp, fun hmem => ?_⟩
        rcases mem_cons.mp hmem with rfl | hmem
        · exact hnodup.1 hq
        · exact hgone hmem
    | false =>
      refine ⟨hupdate.trans hrest.keeps, hrest.sublist.cons p, fun hfailed q hq hqp => ?_,
        fun hnodup hfailed => ?_⟩
      · obtain ⟨hpath, hfailed⟩ := Bool.or_eq_false_iff.mp hfailed
        rcases mem_cons.mp hq with rfl | hq
        · rw [hkept.primary, hqp] at hpath
          exact absurd hpath.symm Bool.false_ne_true
        · exact hrest.stays hfailed q hq ((hprimary q).trans hqp)
      · have hnodup := nodup_cons.mp hnodup
        rcases Bool.or_eq_true_iff.mp hfailed with hpath | hfailed
        · exact ⟨p, mem_cons_self, hkept.primary.symm.trans hpath,
            fun hmem => hnodup.1 (hrest.sublist.subset hmem)⟩
        · obtain ⟨q, hq, hqp, hgone⟩ := hrest.failed hnodup.2 hfailed
          exact ⟨q, mem_cons_of_mem _ hq, (hprimary q).symm.trans hqp, hgone⟩

lemma acceptResponse_spec {response : Bytes} {now : ℕ} {l : List PathRef}
    {accepted : Option PathRef} (h : acceptResponse response now l heap = (heap', accepted)) :
    Keeps heap heap' ∧ ∀ p, accepted = some p → p ∈ l := by
  induction l generalizing heap with
  | nil =>
    obtain ⟨rfl, rfl⟩ := h
    exact ⟨.refl _, nofun⟩
  | cons p l ih =>
    have hkept := keeps_update ((heap p).keeps_pathResponse response now)
    rw [acceptResponse] at h
    rcases hresponse : (heap p).pathResponse response now with ⟨path, accept⟩
    rw [hresponse] at h hkept
    dsimp only at h hkept
    cases accept with
    | true =>
      obtain ⟨rfl, rfl⟩ := h
      refine ⟨hkept, fun q hq => ?_⟩
      obtain rfl := some.inj hq
      exact mem_cons_self
    | false =>
      obtain ⟨hkeeps, hmem⟩ := ih h
      exact ⟨hkept.trans hkeeps, fun q hq => mem_cons_of_mem _ (hmem q hq)⟩

/-! ### Selecting the primary path -/

/-- What is swapped into slot 0 is then first, and the list has the same elements. -/
lemma swap_spec {α : Type} {l : List α} {i : ℕ} {a : α} (h : l[i]? = some a) :
    (swap l 0 i).Perm l ∧ ∃ rest, swap l 0 i = a :: rest := by
  obtain ⟨hi, ha⟩ := List.getElem?_eq_some_iff.mp h
  cases l with
  | nil => exact absurd hi (Nat.not_lt_zero i)
  | cons first rest =>
    have h0 : 0 < (first :: rest).length := Nat.zero_lt_succ _
    have hswap : swap (first :: rest) 0 i = ((first :: rest).set 0 a).set i first := by
      unfold swap
      rw [h]
      rfl
    constructor
    · rw [hswap, ← ha]
      exact set_set_perm h0 hi
    · rw [hswap, set_cons_zero]
      cases i with
      | zero =>
        rw [getElem_cons_zero] at ha
        exact ⟨rest, by rw [set_cons_zero, ha]⟩
      | succ i => exact ⟨rest.set i first, set_cons_succ⟩

variable {s s' : Paths S T}

lemma setPrimary_ok {primary : Bool} (h : s.setPrimary p primary = .ok s') :
    s' = s.modify p fun path => path.setPrimary primary := by
  unfold setPrimary at h
  split_ifs at h
  exact (ok.inj h).symm

lemma remoteCid_modify_setPrimary (s : Paths S T) (p q : PathRef) (primary : Bool) :
    ((s.modify p fun path => path.setPrimary primary).heap q).remoteCid =
      (s.heap q).remoteCid := by
  by_cases hq : q = p
  · rw [hq, heap_modify_self]
    cases primary <;> rfl
  · rw [heap_modify_of_ne _ hq]

/-- What selecting a path as the primary does. -/
structure Selects (s s' : Paths S T) (path : PathRef) : Prop where
  primary_eq : s'.primary = some path
  perm : s'.paths.Perm s.paths
  first : ∃ rest, s'.paths = path :: rest
  target_eq : s'.migrationTarget = s.migrationTarget
  remoteCid_eq : ∀ q, (s'.heap q).remoteCid = (s.heap q).remoteCid
  marked_self : (s'.heap path).primary = true
  /-- No other path becomes primary, and the old one no longer is. -/
  marked : ∀ q, q ≠ path → (s'.heap q).primary = true →
    (s.heap q).primary = true ∧ s.primary ≠ some q

lemma selectPrimary_selects {oldPath : Option PathRef}
    (h : s.selectPrimary path = .ok (s', oldPath)) (hpath : path ∈ s.paths) :
    Selects s s' path := by
  obtain ⟨s₁, hdemote, h⟩ := bind_eq_ok.mp h
  -- First, the old primary path is no longer marked.
  have hs₁ : s₁.paths = s.paths ∧ s₁.primary = some path ∧
      s₁.migrationTarget = s.migrationTarget ∧
      (∀ q, (s₁.heap q).remoteCid = (s.heap q).remoteCid) ∧
      ∀ q, (s₁.heap q).primary = true → (s.heap q).primary = true ∧ s.primary ≠ some q := by
    cases hold : s.primary with
    | none =>
      rw [hold] at hdemote
      obtain rfl := ok.inj hdemote
      exact ⟨rfl, rfl, rfl, fun q => rfl, fun q hq => ⟨hq, nofun⟩⟩
    | some old =>
      rw [hold] at hdemote
      rw [setPrimary_ok hdemote]
      refine ⟨rfl, rfl, rfl, fun q => remoteCid_modify_setPrimary _ old q false, fun q hq => ?_⟩
      by_cases hqo : q = old
      · rw [hqo, heap_modify_self] at hq
        exact absurd hq Bool.false_ne_true
      · rw [heap_modify_of_ne _ hqo] at hq
        exact ⟨hq, fun heq => hqo (some.inj heq).symm⟩
  obtain ⟨hpaths, hprimary, htarget, hcids, hmarked⟩ := hs₁
  -- Then the path is moved to the front and marked.
  unfold promote at h
  obtain ⟨idx, hidx⟩ : ∃ idx, s₁.paths.idxOf? path = some idx := by
    rw [← isSome_iff_exists, isSome_idxOf?, hpaths]
    exact hpath
  rw [hidx] at h
  obtain ⟨s₂, hset, h⟩ := bind_eq_ok.mp h
  obtain ⟨rfl, rfl⟩ := Prod.mk.inj (ok.inj h)
  have hget : s₁.paths[idx]? = some path := by
    obtain ⟨hlt, hget, -⟩ := List.idxOf?_eq_some_iff.mp hidx
    rw [List.getElem?_eq_getElem hlt, hget]
  obtain ⟨hperm, hfirst⟩ := swap_spec hget
  rw [setPrimary_ok hset]
  refine ⟨hprimary, hpaths ▸ hperm, hfirst, htarget, fun q => ?_, ?_, fun q hq hqp => ?_⟩
  · rw [remoteCid_modify_setPrimary]
    exact hcids q
  · rw [heap_modify_self]
    rfl
  · rw [heap_modify_of_ne _ hq] at hqp
    exact hmarked q hqp

/-! ### New paths -/

/-- What making space for a path can do: nothing, or drop the path at index 1. -/
lemma evict_cases (h : s.evict = .ok s') :
    s' = s ∨ ∃ removed, s.paths[1]? = some removed ∧
      s' = { s with
        paths := s.paths.eraseIdx 1
        toRetire := s.toRetire ++ retire (s.heap removed)
        migrationTarget :=
          if s.migrationTarget = some removed then none else s.migrationTarget } := by
  unfold evict at h
  by_cases hlength : s.paths.length ≥ maxPaths
  · rw [if_pos hlength] at h
    by_cases hmax : s.paths.length ≠ maxPaths
    · rw [if_pos hmax] at h
      exact nomatch h
    rw [if_neg hmax] at h
    cases hremoved : s.paths[1]? with
    | none =>
      rw [hremoved] at h
      exact .inl (ok.inj h).symm
    | some removed =>
      rw [hremoved] at h
      exact .inr ⟨removed, rfl, (ok.inj h).symm⟩
  · rw [if_neg hlength] at h
    exact .inl (ok.inj h).symm

lemma evict_sublist (h : s.evict = .ok s') : s'.heap = s.heap ∧ s'.paths.Sublist s.paths := by
  rcases evict_cases h with rfl | ⟨removed, -, rfl⟩
  · exact ⟨rfl, List.Sublist.refl _⟩
  · exact ⟨rfl, eraseIdx_sublist _ _⟩

lemma mem_adopt (s : Paths S T) (path : PathRef) (localCid : Option ConnectionId)
    (remoteCid : RemoteConnectionIdEntry) : path ∈ (s.adopt path localCid remoteCid).paths :=
  mem_append_right _ (mem_singleton_self path)

lemma heap_adopt_self (s : Paths S T) (path : PathRef) (localCid : Option ConnectionId)
    (remoteCid : RemoteConnectionIdEntry) :
    (s.adopt path localCid remoteCid).heap path =
      (s.heap path).makePermanent localCid remoteCid :=
  s.heap_modify_self path fun p => p.makePermanent localCid remoteCid

lemma heap_adopt_of_ne (s : Paths S T) (h : p ≠ path) (localCid : Option ConnectionId)
    (remoteCid : RemoteConnectionIdEntry) : (s.adopt path localCid remoteCid).heap p = s.heap p :=
  s.heap_modify_of_ne h fun p => p.makePermanent localCid remoteCid

lemma ensurePrimary_cases (h : s.ensurePrimary path = .ok s') (hpath : path ∈ s.paths) :
    s' = s ∨ Selects s s' path := by
  unfold ensurePrimary at h
  split_ifs at h with hnone
  · obtain ⟨⟨s₁, oldPath⟩, hselect, h⟩ := bind_eq_ok.mp h
    dsimp only at h
    split_ifs at h
    obtain rfl := ok.inj h
    exact .inr (selectPrimary_selects hselect hpath)
  · exact .inl (ok.inj h).symm

lemma mem_of_not_isTemporary (h : ¬ s.isTemporary path = true) : path ∈ s.paths := by
  unfold isTemporary at h
  simp only [Bool.or_eq_true, decide_eq_true_eq, not_or, not_not] at h
  exact h.2

/-! ### Migration -/

/-- The paths change, but neither the list of them nor what `Keeps` is about. -/
structure Touches (s s' : Paths S T) : Prop where
  keeps : Keeps s.heap s'.heap
  paths : s'.paths = s.paths
  primary : s'.primary = s.primary
  target : s'.migrationTarget = s.migrationTarget

/-- What a migration can do: touch paths, select a path, or make one of them the migration
target. -/
inductive Migrates (s : Paths S T) : Paths S T → Prop
  | refl : Migrates s s
  | touch {s' s'' : Paths S T} (h : Migrates s s') (ht : Touches s' s'') : Migrates s s''
  | select {s' s'' : Paths S T} {path : PathRef} (h : Migrates s s') (hs : Selects s' s'' path) :
      Migrates s s''
  | aim {s' : Paths S T} {target : Option PathRef} (h : Migrates s s')
      (hmem : ∀ p, target = some p → p ∈ s'.paths) :
      Migrates s { s' with migrationTarget := target }

variable {s s' s₁ : Paths S T} {path : PathRef} {now : ℕ}

lemma touches_modify (s : Paths S T) (p : PathRef) {f : Path S T → Path S T}
    (hf : ∀ path, Path.Keeps path (f path)) : Touches s (s.modify p f) :=
  ⟨keeps_update (hf _), rfl, rfl, rfl⟩

lemma touches_startPmtud (s : Paths S T) (path : PathRef) (now : ℕ) :
    Touches s (s.startPmtud path now) := by
  unfold startPmtud
  split_ifs
  · exact s.touches_modify path fun _ => ⟨rfl, rfl⟩
  · exact ⟨.refl _, rfl, rfl, rfl⟩

lemma touches_probeOld (s : Paths S T) (oldPath : Option PathRef) :
    Touches s (s.probeOld oldPath) := by
  cases oldPath with
  | none => exact ⟨.refl _, rfl, rfl, rfl⟩
  | some old => exact s.touches_modify old Path.keeps_probe

lemma touches_fireRaiseTimer (s : Paths S T) (now : ℕ) : Touches s (s.fireRaiseTimer now) := by
  unfold fireRaiseTimer
  cases s.primary with
  | none => exact ⟨.refl _, rfl, rfl, rfl⟩
  | some path => exact s.touches_modify path fun _ => ⟨rfl, rfl⟩

lemma Migrates.retarget {force : Bool} (h : Migrates s s₁) (hpath : path ∈ s₁.paths)
    (hretarget : s₁.retarget path force now = .ok s') : Migrates s s' := by
  unfold Paths.retarget at hretarget
  split_ifs at hretarget
  · obtain ⟨⟨s₂, oldPath⟩, hselect, hretarget⟩ := bind_eq_ok.mp hretarget
    obtain rfl := ok.inj hretarget
    have hvalid := h.touch (s₁.touches_modify path fun p => p.keeps_setValid now)
    exact (hvalid.select (selectPrimary_selects hselect hpath)).aim nofun
  · obtain rfl := ok.inj hretarget
    refine h.aim fun p hp => ?_
    obtain rfl := some.inj hp
    exact hpath

lemma migrate_migrates {force migrated : Bool}
    (h : s.migrate path force now = .ok (s', migrated)) : Migrates s s' := by
  unfold migrate at h
  by_cases htemporary : s.isTemporary path = true
  · rw [if_pos htemporary] at h
    exact nomatch h
  rw [if_neg htemporary] at h
  have hpath := mem_of_not_isTemporary htemporary
  obtain ⟨s₁, hretarget, h⟩ := bind_eq_ok.mp h
  obtain ⟨rfl, -⟩ := Prod.mk.inj (ok.inj h)
  have hecn : Migrates s (s.modify path fun p =>
      { p with ecnInfo := (p.ecnInfo.setBaseline s.ecnBaseline).start }) :=
    Migrates.refl.touch (s.touches_modify path fun p => ⟨rfl, rfl⟩)
  exact (hecn.retarget hpath hretarget).touch (s₁.touches_modify path Path.keeps_probe)

lemma handleMigration_migrates {remote : SocketAddr} (hpath : path ∈ s.paths)
    (h : s.handleMigration path remote now = .ok s') : Migrates s s' := by
  unfold handleMigration at h
  have hport := Migrates.refl.touch (s.touches_modify path fun p => p.keeps_updatePort remote.port)
  dsimp only at h
  split_ifs at h
  · obtain rfl := ok.inj h
    exact hport.touch (touches_modify _ path fun p => p.keeps_update now)
  · obtain ⟨⟨s₁, oldPath⟩, hselect, h⟩ := bind_eq_ok.mp h
    obtain rfl := ok.inj h
    have hselected := hport.select (selectPrimary_selects hselect hpath)
    exact (hselected.touch (s₁.touches_probeOld oldPath)).touch (touches_startPmtud _ path now)

lemma pathResponse_migrates {response : Bytes} {migrated : Option PathRef}
    (h : s.pathResponse response now = .ok (s', migrated)) : Migrates s s' := by
  unfold pathResponse at h
  rcases haccept : acceptResponse response now s.paths s.heap with ⟨heap, accepted⟩
  rw [haccept] at h
  obtain ⟨hkeeps, hmem⟩ := acceptResponse_spec haccept
  have hheap : Migrates s { s with heap := heap } := Migrates.refl.touch ⟨hkeeps, rfl, rfl, rfl⟩
  cases accepted with
  | none =>
    obtain ⟨rfl, -⟩ := Prod.mk.inj (ok.inj h)
    exact hheap
  | some p =>
    dsimp only at h
    unfold reachTarget at h
    split_ifs at h
    · obtain ⟨⟨s₁, oldPath⟩, hselect, h⟩ := bind_eq_ok.mp h
      obtain ⟨rfl, -⟩ := Prod.mk.inj (ok.inj h)
      -- The path is no longer the migration target, but the primary path.
      have hnone : Migrates s { s with heap := heap, migrationTarget := none } := hheap.aim nofun
      have hselected := hnone.select (selectPrimary_selects hselect (hmem p rfl))
      exact hselected.touch (s₁.touches_startPmtud p now)
    · obtain ⟨rfl, -⟩ := Prod.mk.inj (ok.inj h)
      exact hheap

/-- The operations that do not change which paths there are and what connection IDs they have. -/
def keepsCids : PathsOp → Bool
  | .makePermanent .. | .processTimeout .. | .retireCids .. => false
  | _ => true

lemma apply_migrates {op : PathsOp} (hop : keepsCids op = true) (h : s.apply op = .ok s') :
    Migrates s s' := by
  cases op with
  | makePermanent | processTimeout | retireCids => exact nomatch hop
  | migrate =>
    obtain ⟨⟨s₁, migrated⟩, hmigrate, rfl⟩ := map_eq_ok.mp h
    exact migrate_migrates hmigrate
  | handleMigration path =>
    simp only [apply] at h
    split_ifs at h with htemporary
    exact handleMigration_migrates (mem_of_not_isTemporary htemporary) h
  | pathResponse =>
    obtain ⟨⟨s₁, migrated⟩, hresponse, rfl⟩ := map_eq_ok.mp h
    exact pathResponse_migrates hresponse
  | writeFrames path builder data mtu now =>
    obtain rfl := ok.inj h
    exact Migrates.refl.touch
      (s.touches_modify path fun p => p.keeps_writeFrames builder data mtu now)
  | challenged | setValid =>
    obtain rfl := ok.inj h
    exact Migrates.refl.touch (s.touches_modify _ fun _ => ⟨rfl, rfl⟩)

lemma failOver_cases {viable : Bool} (h : s.failOver = .ok (s', viable)) :
    s' = s ∨ ∃ fallback, Selects s s' fallback := by
  unfold failOver at h
  cases hfind : s.paths.reverse.find? fun p => (s.heap p).isValid with
  | none =>
    rw [hfind] at h
    exact .inl (Prod.mk.inj (ok.inj h)).1.symm
  | some fallback =>
    rw [hfind] at h
    obtain ⟨⟨s₁, oldPath⟩, hselect, h⟩ := bind_eq_ok.mp h
    obtain ⟨rfl, -⟩ := Prod.mk.inj (ok.inj h)
    have hmem := mem_reverse.mp (mem_of_find?_eq_some hfind)
    exact .inr ⟨fallback, selectPrimary_selects hselect hmem⟩

/-! ### Connection IDs that are retired -/

/-- A path keeps its connection ID, is given the next one from the store, or is dropped if there is
none, and then is no longer the migration target; the rest of the list is treated with what this
leaves. -/
lemma replaceCids_cons {retirePrior : ℕ} {l : List PathRef} {store : ConnectionIdStore Srt}
    {target : Option PathRef} {r : Retirement S T}
    (h : replaceCids retirePrior (p :: l) heap store target = .ok r) :
    ∃ heap' store' target' rest, replaceCids retirePrior l heap' store' target' = .ok rest ∧
      r.heap = rest.heap ∧ r.store = rest.store ∧ r.migrationTarget = rest.migrationTarget ∧
      ((heap' = heap ∧ store' = store ∧ target' = target ∧ r.paths = p :: rest.paths ∧
          ∀ e, (heap p).remoteCid = some e → e.cid.isEmpty = false → retirePrior ≤ e.seqno) ∨
        ∃ newCid, heap' = update heap p { heap p with remoteCid := newCid } ∧
          store.next = (store', newCid) ∧
          ((newCid.isSome = true ∧ target' = target ∧ r.paths = p :: rest.paths) ∨
            (newCid = none ∧ (heap p).primary = false ∧ r.paths = rest.paths ∧
              target' = if target = some p then none else target))) := by
  rw [replaceCids] at h
  cases hcid : (heap p).remoteCid with
  | none =>
    rw [hcid] at h
    obtain ⟨rest, hrest, h⟩ := bind_eq_ok.mp h
    obtain rfl := ok.inj h
    exact ⟨_, _, _, rest, hrest, rfl, rfl, rfl, .inl ⟨rfl, rfl, rfl, rfl, nofun⟩⟩
  | some current =>
    rw [hcid] at h
    dsimp only at h
    by_cases hprior : current.seqno < retirePrior ∧ (!current.cid.isEmpty) = true
    · rw [if_pos hprior] at h
      rcases hnext : store.next with ⟨store', newCid⟩
      rw [hnext] at h
      by_cases hassert : (heap p).primary = true ∧ newCid.isNone = true
      · rw [if_pos hassert] at h
        exact nomatch h
      rw [if_neg hassert] at h
      obtain ⟨rest, hrest, h⟩ := bind_eq_ok.mp h
      obtain rfl := ok.inj h
      refine ⟨_, _, _, rest, hrest, rfl, rfl, rfl, .inr ⟨newCid, rfl, rfl, ?_⟩⟩
      cases newCid with
      | some => exact .inl ⟨rfl, if_neg (fun hand => nomatch hand.1), rfl⟩
      | none => exact .inr ⟨rfl, by simpa using hassert, rfl, by simp⟩
    · rw [if_neg hprior] at h
      obtain ⟨rest, hrest, h⟩ := bind_eq_ok.mp h
      obtain rfl := ok.inj h
      refine ⟨_, _, _, rest, hrest, rfl, rfl, rfl, .inl ⟨rfl, rfl, rfl, rfl, fun e he hne => ?_⟩⟩
      obtain rfl := some.inj he
      exact not_lt.mp fun hlt => hprior ⟨hlt, by rw [hne]; rfl⟩

end Paths

end Neqo
