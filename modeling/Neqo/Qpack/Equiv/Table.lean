import Neqo.Qpack.Table
import Neqo.Util.Fifo

/-!
# The dynamic table as a store

In a well-formed table entries are numbered without gaps and take up what `used` says. Then entries
are found by their number, eviction keeps the newest entries that fit, and only entries that nothing
refers to and whose inserts are acked are evicted.
-/

namespace Neqo.Qpack

open DynamicTableEntry Function HeaderTable List

/-- The size of some entries. -/
def sizes (l : List DynamicTableEntry) : ℕ := (l.map DynamicTableEntry.size).sum

lemma sizes_cons (e : DynamicTableEntry) (l : List DynamicTableEntry) :
    sizes (e :: l) = e.size + sizes l := by
  unfold sizes
  rw [map_cons, sum_cons]

lemma sizes_append (l l' : List DynamicTableEntry) : sizes (l ++ l') = sizes l + sizes l' := by
  unfold sizes
  rw [map_append, sum_append]

lemma sizes_reverse (l : List DynamicTableEntry) : sizes l.reverse = sizes l := by
  unfold sizes
  rw [map_reverse, sum_reverse]

namespace HeaderTable

/-! ### Eviction -/

/-- What is evicted is the oldest part: as much as has to be, unless an entry has to stay. -/
structure Evicts (acked reduce : ℕ) (l kept gone : List DynamicTableEntry) (all : Bool) : Prop where
  split : l = kept ++ gone
  reducible : ∀ e ∈ gone, e.canReduce acked = true
  needed : ∀ e ∈ gone.head?, reduce < sizes kept + e.size
  enough : all = true → sizes kept ≤ reduce
  stays : all = false → reduce < sizes kept ∧ ∀ e ∈ kept.getLast?, e.canReduce acked = false

lemma evictOldest_spec (acked reduce : ℕ) (l : List DynamicTableEntry) :
    ∃ kept gone all,
      evictOldest acked reduce l.reverse (sizes l) = (kept.reverse, sizes kept, all) ∧
        Evicts acked reduce l kept gone all := by
  induction l using reverseRecOn with
  | nil => exact ⟨[], [], true, rfl, rfl, nofun, nofun, fun _ => Nat.zero_le _, nofun⟩
  | append_singleton newer e ih =>
    rw [reverse_concat, evictOldest]
    by_cases hfits : sizes (newer ++ [e]) ≤ reduce
    · rw [if_pos hfits, ← reverse_concat]
      exact ⟨_, [], true, rfl, (append_nil _).symm, nofun, nofun, fun _ => hfits, nofun⟩
    rw [if_neg hfits]
    have hsizes : sizes (newer ++ [e]) = sizes newer + e.size := sizes_append newer [e]
    cases hreduce : e.canReduce acked with
    | false =>
      rw [← reverse_concat]
      refine ⟨_, [], false, rfl, (append_nil _).symm, nofun, nofun, nofun,
        fun _ => ⟨Nat.lt_of_not_le hfits, ?_⟩⟩
      rw [getLast?_concat]
      rintro _ ⟨⟩
      exact hreduce
    | true =>
      obtain ⟨kept, gone, all, hevict, hspec⟩ := ih
      refine ⟨kept, gone ++ [e], all, ?_, ?_, ?_, ?_, hspec.enough, hspec.stays⟩
      · rw [hsizes, Nat.add_sub_cancel]
        exact hevict
      · rw [hspec.split, append_assoc]
      · exact forall_mem_append.mpr ⟨hspec.reducible, forall_mem_singleton.mpr hreduce⟩
      · -- The newest entry that was evicted is this one if it was the only one.
        cases gone with
        | nil =>
          rintro _ ⟨⟩
          rw [hsizes, hspec.split, append_nil] at hfits
          omega
        | cons => exact hspec.needed

variable {t t' : HeaderTable}

/-- Entries are numbered without gaps, and take up what `used` says. -/
structure Wf (t : HeaderTable) : Prop where
  base_eq : ∀ i e, t.dynamic[i]? = some e → e.base + i + 1 = t.base
  used_eq : t.used = sizes t.dynamic
  used_le : t.used ≤ t.capacity

variable {reduce acked cap index : ℕ} {all canBlock : Bool}

/-- The table with the entries that were kept. -/
def evicted (t : HeaderTable) (kept : List DynamicTableEntry) : HeaderTable :=
  { t with dynamic := kept, used := sizes kept }

variable {kept gone : List DynamicTableEntry}

/-- **The check before an eviction is exact.** -/
theorem evictTo_spec (h : t.used = sizes t.dynamic) (reduce : ℕ) :
    ∃ kept gone, t.evictTo reduce = (t.evicted kept, t.canEvictTo reduce) ∧
      Evicts t.ackedInsertsCnt reduce t.dynamic kept gone (t.canEvictTo reduce) := by
  obtain ⟨kept, gone, all, hevict, hspec⟩ := evictOldest_spec t.ackedInsertsCnt reduce t.dynamic
  have heq : t.evictTo reduce = (t.evicted kept, all) := by
    rw [evictTo, h, hevict]
    simp only [reverse_reverse]
    rfl
  -- What can be evicted is what was, and more if that was enough.
  have hevictable : t.dynamic.reverse.takeWhile (fun e => e.canReduce t.ackedInsertsCnt) =
      gone.reverse ++ kept.reverse.takeWhile fun e => e.canReduce t.ackedInsertsCnt := by
    rw [hspec.split, reverse_append, takeWhile_append_of_pos]
    exact fun e he => hspec.reducible e (mem_reverse.mp he)
  suffices hall : t.canEvictTo reduce = all by
    rw [hall]
    exact ⟨kept, gone, heq, hspec⟩
  unfold canEvictTo
  rw [hevictable]
  show decide (t.used - sizes (_ ++ _) ≤ reduce) = _
  rw [h, hspec.split, sizes_append, sizes_append, sizes_reverse]
  cases all with
  | true =>
    have henough := hspec.enough rfl
    exact decide_eq_true (by omega)
  | false =>
    obtain ⟨hmore, hlast⟩ := hspec.stays rfl
    have hnone : kept.reverse.takeWhile (fun e => e.canReduce t.ackedInsertsCnt) = [] := by
      rcases hkept : kept.reverse with _ | ⟨e, rest⟩
      · rfl
      · have hstays := hlast e (by rw [← head?_reverse, hkept]; rfl)
        exact takeWhile_cons_of_neg (by rw [hstays]; exact nofun)
    have hzero : sizes [] = 0 := rfl
    rw [hnone, hzero]
    exact decide_eq_false (by omega)

lemma Wf.evict (h : t.Wf) (hsplit : t.dynamic = kept ++ gone) : (t.evicted kept).Wf := by
  refine ⟨?_, rfl, ?_⟩
  · intro i e (hget : kept[i]? = some e)
    apply h.base_eq i e
    rw [hsplit, List.getElem?_append_left (List.getElem?_eq_some_iff.mp hget).1]
    exact hget
  · have hused := h.used_eq
    have hle := h.used_le
    rw [hsplit, sizes_append] at hused
    show sizes kept ≤ t.capacity
    omega

/-- The capacity is changed if the entries that have to go can be evicted; otherwise some of them
may have been. -/
lemma Wf.setCapacity_spec (h : t.Wf) (cap : ℕ) :
    ∃ t' kept gone, Evicts t.ackedInsertsCnt cap t.dynamic kept gone (t.canEvictTo cap) ∧
      t' = { t.evicted kept with capacity := if t.canEvictTo cap then cap else t.capacity } ∧
      t'.Wf ∧
      t.setCapacity cap = (t', if t.canEvictTo cap then .ok () else .error .changeCapacity) := by
  obtain ⟨kept, gone, heq, hspec⟩ := evictTo_spec h.used_eq cap
  have hwf := h.evict hspec.split
  refine ⟨_, kept, gone, hspec, rfl, ?_⟩
  rw [setCapacity, heq]
  cases hall : t.canEvictTo cap with
  | true => exact ⟨⟨hwf.base_eq, rfl, hspec.enough hall⟩, rfl⟩
  | false => exact ⟨hwf, rfl⟩

/-- The table after an insert, with the entries that were kept. -/
def inserted (t : HeaderTable) (name value : Bytes) (kept : List DynamicTableEntry) : HeaderTable :=
  { t with
    base := t.base + 1
    dynamic := t.newEntry name value :: kept
    used := sizes kept + (t.newEntry name value).size }

variable {name value : Bytes}

/-- An entry is inserted if it fits and what has to go can be evicted; otherwise some entries may
have been evicted. -/
lemma Wf.insert_spec (h : t.Wf) (name value : Bytes) :
    ∃ kept gone, t.dynamic = kept ++ gone ∧ (∀ e ∈ gone, e.canReduce t.ackedInsertsCnt = true) ∧
      t.insert name value =
        (if t.insertPossible (t.newEntry name value).size then
          (t.inserted name value kept, .ok t.base)
        else (t.evicted kept, .error .dynamicTableFull)) ∧
      (t.insertPossible (t.newEntry name value).size = true →
        Evicts t.ackedInsertsCnt (t.capacity - (t.newEntry name value).size) t.dynamic kept gone
          true ∧ (t.inserted name value kept).Wf) := by
  unfold insert insertPossible
  by_cases hbig : (t.newEntry name value).size > t.capacity
  · have hfits := decide_eq_false (Nat.not_le.mpr hbig)
    rw [hfits, if_pos hbig]
    refine ⟨t.dynamic, [], (append_nil _).symm, nofun, ?_, nofun⟩
    rw [evicted, ← h.used_eq]
    rfl
  obtain ⟨kept, gone, heq, hspec⟩ := evictTo_spec h.used_eq
    (t.capacity - (t.newEntry name value).size)
  have hsize := Nat.le_of_not_lt hbig
  have hwf := h.evict hspec.split
  rw [if_neg hbig, heq, decide_eq_true hsize, Bool.true_and]
  refine ⟨kept, gone, hspec.split, hspec.reducible, ?_, fun hall => ⟨hall ▸ hspec, ?_, ?_, ?_⟩⟩
  · cases t.canEvictTo (t.capacity - (t.newEntry name value).size) <;> rfl
  · rintro (_ | i) e hget
    · cases hget
      rfl
    · exact congrArg (· + 1) (hwf.base_eq i e hget)
  · show sizes kept + (t.newEntry name value).size = sizes (t.newEntry name value :: kept)
    rw [sizes_cons, Nat.add_comm]
  · have hfits := hspec.enough hall
    show sizes kept + (t.newEntry name value).size ≤ t.capacity
    omega

/-! ### Entries -/

variable {e : DynamicTableEntry}

lemma Wf.getElem?_of_mem (h : t.Wf) (he : e ∈ t.dynamic) :
    e.base < t.base ∧ t.dynamic[t.base - e.base - 1]? = some e := by
  obtain ⟨i, hi⟩ := mem_iff_getElem?.mp he
  have hbase := h.base_eq i e hi
  refine ⟨by omega, ?_⟩
  rw [show t.base - e.base - 1 = i by omega]
  exact hi

/-- The table with other reference counts. -/
def setRefs (t : HeaderTable) (refs : ℕ → ℕ) : HeaderTable :=
  { t with dynamic := t.dynamic.map fun e => { e with refs := refs e.base } }

/-- The reference counts are given by a function. -/
def HasRefs (t : HeaderTable) (refs : ℕ → ℕ) : Prop := ∀ e ∈ t.dynamic, e.refs = refs e.base

/-- There is an entry with the number. -/
def Live (t : HeaderTable) (index : ℕ) : Prop := ∃ e ∈ t.dynamic, e.base = index

lemma hasRefs_setRefs (t : HeaderTable) (refs : ℕ → ℕ) : (t.setRefs refs).HasRefs refs := by
  intro e he
  obtain ⟨e', -, rfl⟩ := mem_map.mp he
  rfl

variable {refs refs' : ℕ → ℕ}

lemma live_setRefs : (t.setRefs refs).Live index ↔ t.Live index := by
  unfold Live setRefs
  simp only [mem_map]
  constructor
  · rintro ⟨-, ⟨e, he, rfl⟩, rfl⟩
    exact ⟨e, he, rfl⟩
  · rintro ⟨e, he, rfl⟩
    exact ⟨_, ⟨e, he, rfl⟩, rfl⟩

lemma Wf.setRefs (h : t.Wf) (refs : ℕ → ℕ) : (t.setRefs refs).Wf := by
  refine ⟨?_, ?_, h.used_le⟩
  · intro i e hget
    obtain ⟨e', hget', rfl⟩ := Option.map_eq_some_iff.mp
      ((getElem?_map ..).symm.trans hget)
    exact h.base_eq i e' hget'
  · show t.used = sizes (t.dynamic.map _)
    rw [sizes, map_map]
    exact h.used_eq

lemma HasRefs.setRefs_self (h : t.HasRefs refs) : t.setRefs refs = t := by
  have hmap : (t.dynamic.map fun e => { e with refs := refs e.base }) = t.dynamic.map id := by
    apply map_congr_left
    intro e he
    rw [← h e he]
    rfl
  rw [map_id] at hmap
  unfold setRefs
  rw [hmap]

lemma setRefs_setRefs (t : HeaderTable) (refs refs' : ℕ → ℕ) :
    (t.setRefs refs).setRefs refs' = t.setRefs refs' := by
  unfold setRefs
  simp only [map_map]
  rfl

section

variable (h : t.Wf) (hrefs : t.HasRefs refs)

include h hrefs

lemma Wf.modifyDynamicWithAbsIndex (he : e ∈ t.dynamic)
    {f : DynamicTableEntry → Res DynamicTableEntry} {n : ℕ} (hf : f e = .ok { e with refs := n }) :
    t.modifyDynamicWithAbsIndex e.base f = .ok (t.setRefs (update refs e.base n)) := by
  obtain ⟨hlt, hget⟩ := h.getElem?_of_mem he
  unfold HeaderTable.modifyDynamicWithAbsIndex
  rw [if_neg (not_le.mpr hlt)]
  simp only [hget, hf]
  refine congrArg (fun l => Except.ok { t with dynamic := l }) (ext_getElem? fun i => ?_)
  rw [getElem?_set, getElem?_map]
  split_ifs with hi hlength
  · rw [← hi, hget, Option.map_some, update_self]
  · exact absurd (List.getElem?_eq_some_iff.mp hget).1 hlength
  · rcases hx : t.dynamic[i]? with _ | x
    · rfl
    · have hbase := h.base_eq i x hx
      rw [Option.map_some, update_of_ne (by omega), ← hrefs x (mem_of_getElem? hx)]

lemma Wf.addRef (hlive : t.Live index) :
    t.addRef index = .ok (t.setRefs (update refs index (refs index + 1))) := by
  obtain ⟨e, he, rfl⟩ := hlive
  apply h.modifyDynamicWithAbsIndex hrefs he
  rw [← hrefs e he]
  rfl

end

/-! ### Reference counts -/

/-- The reference counts are given by a function, and the entries to which there are references or
whose inserts are unacked are in the table. -/
structure Tracked (t : HeaderTable) (refs : ℕ → ℕ) : Prop where
  wf : t.Wf
  acked_le : t.ackedInsertsCnt ≤ t.base
  hasRefs : t.HasRefs refs
  live : ∀ index, 0 < refs index ∨ t.ackedInsertsCnt ≤ index ∧ index < t.base → t.Live index

/-- Entries to which there are references stay as they are, with at least as many references. -/
def Retains (t t' : HeaderTable) : Prop :=
  ∀ e ∈ t.dynamic, 0 < e.refs →
    ∃ e' ∈ t'.dynamic, e'.base = e.base ∧ e'.name = e.name ∧ e'.value = e.value ∧ e.refs ≤ e'.refs

lemma Retains.refl (t : HeaderTable) : t.Retains t :=
  fun e he _ => ⟨e, he, rfl, rfl, rfl, le_refl _⟩

lemma Retains.trans {t'' : HeaderTable} (h : t.Retains t') (h' : t'.Retains t'') :
    t.Retains t'' := by
  intro e he hpos
  obtain ⟨e', he', hbase, hname, hvalue, hle⟩ := h e he hpos
  obtain ⟨e'', he'', hbase', hname', hvalue', hle'⟩ := h' e' he' (hpos.trans_le hle)
  exact ⟨e'', he'', hbase'.trans hbase, hname'.trans hname, hvalue'.trans hvalue, hle.trans hle'⟩

/-- All entries stay, except for their references. -/
def Keeps (t t' : HeaderTable) : Prop :=
  ∀ e ∈ t.dynamic, ∃ e' ∈ t'.dynamic, e'.base = e.base ∧ e'.name = e.name ∧ e'.value = e.value

lemma Keeps.refl (t : HeaderTable) : t.Keeps t := fun e he => ⟨e, he, rfl, rfl, rfl⟩

lemma Keeps.trans {t'' : HeaderTable} (h : t.Keeps t') (h' : t'.Keeps t'') : t.Keeps t'' := by
  intro e he
  obtain ⟨e', he', hbase, hname, hvalue⟩ := h e he
  obtain ⟨e'', he'', hbase', hname', hvalue'⟩ := h' e' he'
  exact ⟨e'', he'', hbase'.trans hbase, hname'.trans hname, hvalue'.trans hvalue⟩

lemma keeps_setRefs (t : HeaderTable) (refs : ℕ → ℕ) : t.Keeps (t.setRefs refs) :=
  fun e he => ⟨_, mem_map.mpr ⟨e, he, rfl⟩, rfl, rfl, rfl⟩

variable {refs : ℕ → ℕ}

lemma Tracked.lt_base (h : t.Tracked refs) (hpos : 0 < refs index) : index < t.base := by
  obtain ⟨e, he, rfl⟩ := h.live index (.inl hpos)
  exact (h.wf.getElem?_of_mem he).1

lemma mem_kept (hsplit : t.dynamic = kept ++ gone)
    (hgone : ∀ e ∈ gone, e.canReduce t.ackedInsertsCnt = true) (he : e ∈ t.dynamic)
    (hstays : 0 < e.refs ∨ t.ackedInsertsCnt ≤ e.base) : e ∈ kept := by
  rw [hsplit] at he
  refine (mem_append.mp he).resolve_right fun he => ?_
  obtain ⟨hrefs, hacked⟩ := Bool.and_eq_true_iff.mp (hgone e he)
  have hzero := of_decide_eq_true hrefs
  have hlt := of_decide_eq_true hacked
  omega

lemma Tracked.evict (h : t.Tracked refs) (hsplit : t.dynamic = kept ++ gone)
    (hgone : ∀ e ∈ gone, e.canReduce t.ackedInsertsCnt = true) :
    (t.evicted kept).Tracked refs := by
  refine ⟨h.wf.evict hsplit, h.acked_le, ?_, ?_⟩
  · intro e he
    apply h.hasRefs e
    rw [hsplit]
    exact mem_append_left _ he
  · intro index hstays
    obtain ⟨e, he, rfl⟩ := h.live index hstays
    rw [← h.hasRefs e he] at hstays
    exact ⟨e, mem_kept hsplit hgone he (hstays.imp_right And.left), rfl⟩

lemma retains_evict (hsplit : t.dynamic = kept ++ gone)
    (hgone : ∀ e ∈ gone, e.canReduce t.ackedInsertsCnt = true) (hsub : ∀ e ∈ kept, e ∈ t'.dynamic) :
    t.Retains t' := fun e he hpos =>
  ⟨e, hsub e (mem_kept hsplit hgone he (.inl hpos)), rfl, rfl, rfl, le_refl _⟩

section

variable (h : t.Tracked refs)

include h

lemma Tracked.setCapacity (cap : ℕ) :
    (t.setCapacity cap).1.Tracked refs ∧ t.Retains (t.setCapacity cap).1 ∧
      (t.setCapacity cap).1.ackedInsertsCnt = t.ackedInsertsCnt := by
  obtain ⟨_, kept, gone, hspec, rfl, hwf, hset⟩ := h.wf.setCapacity_spec cap
  have htracked := h.evict hspec.split hspec.reducible
  rw [hset]
  exact ⟨⟨hwf, htracked.acked_le, htracked.hasRefs, htracked.live⟩,
    retains_evict hspec.split hspec.reducible fun _ he => he, rfl⟩

lemma Tracked.insert (name value : Bytes) :
    (t.insert name value).1.Tracked refs ∧ t.Retains (t.insert name value).1 ∧
      (t.insert name value).1.ackedInsertsCnt = t.ackedInsertsCnt ∧
      ∀ index, (t.insert name value).2 = .ok index →
        t.newEntry name value ∈ (t.insert name value).1.dynamic := by
  obtain ⟨kept, gone, hsplit, hgone, hinsert, hok⟩ := h.wf.insert_spec name value
  have htracked := h.evict hsplit hgone
  rw [hinsert]
  split_ifs with hpossible
  · refine ⟨⟨(hok hpossible).2, Nat.le_succ_of_le h.acked_le, ?_, ?_⟩, ?_, rfl, ?_⟩
    · intro e he
      rcases mem_cons.mp he with rfl | he
      · have hzero : refs t.base = 0 := by
          by_contra hne
          exact lt_irrefl _ (h.lt_base (Nat.pos_of_ne_zero hne))
        exact hzero.symm
      · exact htracked.hasRefs e he
    · intro index hstays
      by_cases hnew : index = t.base
      · exact ⟨_, mem_cons_self, hnew.symm⟩
      · obtain ⟨e, he, hbase⟩ := htracked.live index
          (hstays.imp_right fun hacked =>
          ⟨hacked.1, Nat.lt_of_le_of_ne (Nat.le_of_lt_succ hacked.2) hnew⟩)
        exact ⟨e, mem_cons_of_mem _ he, hbase⟩
    · exact retains_evict hsplit hgone fun _ he => mem_cons_of_mem _ he
    · exact fun _ _ => mem_cons_self
  · exact ⟨htracked, retains_evict hsplit hgone fun _ he => he, rfl, nofun⟩

lemma Tracked.setRefs (hlive : ∀ index, 0 < refs' index → t.Live index) :
    (t.setRefs refs').Tracked refs' :=
  ⟨h.wf.setRefs refs', h.acked_le, hasRefs_setRefs t refs',
    fun index hstays => live_setRefs.mpr (hstays.elim (hlive index) fun hacked => h.live index
    (.inr hacked))⟩

lemma Tracked.addRef (hlive : t.Live index) :
    ∃ t', t.addRef index = .ok t' ∧ t'.Tracked (update refs index (refs index + 1)) ∧
      t.Retains t' ∧ t'.base = t.base ∧ t'.ackedInsertsCnt = t.ackedInsertsCnt := by
  refine ⟨_, h.wf.addRef h.hasRefs hlive, ?_, ?_, rfl, rfl⟩
  · apply h.setRefs
    intro i hpos
    by_cases hi : i = index
    · rw [hi]
      exact hlive
    · rw [update_of_ne hi] at hpos
      exact h.live i (.inl hpos)
  · intro e he _
    refine ⟨_, mem_map.mpr ⟨e, he, rfl⟩, rfl, rfl, rfl, ?_⟩
    show e.refs ≤ update refs index (refs index + 1) e.base
    rw [h.hasRefs e he]
    by_cases hi : e.base = index
    · rw [hi, update_self]
      omega
    · rw [update_of_ne hi]

/-- **References are removed without a failed assertion**, if there are as many as are removed. -/
theorem Tracked.removeRefs {refList : List ℕ} (hcount : ∀ index, refList.count index ≤ refs index) :
    ∃ refs', refList.foldlM removeRef t = .ok (t.setRefs refs') ∧
      (t.setRefs refs').Tracked fun index => refs index - refList.count index := by
  induction refList generalizing t refs with
  | nil =>
    have hself := h.hasRefs.setRefs_self
    exact ⟨refs, congrArg Except.ok hself.symm, hself.symm ▸ h⟩
  | cons index refList ih =>
    have hstep (i : ℕ) : refList.count i ≤ update refs index (refs index - 1) i ∧
        update refs index (refs index - 1) i ≤ refs i ∧
        refs i - (index :: refList).count i =
          update refs index (refs index - 1) i - refList.count i := by
      have hle := hcount i
      by_cases hi : i = index
      · rw [hi, count_cons_self] at hle ⊢
        rw [update_self]
        omega
      · rw [count_cons_of_ne (Ne.symm hi)] at hle ⊢
        rw [update_of_ne hi]
        omega
    have hpos : 0 < refs index := (count_pos_iff.mpr mem_cons_self).trans_le (hcount index)
    have hremove : t.removeRef index =
        .ok (t.setRefs (update refs index (refs index - 1))) := by
      obtain ⟨e, he, rfl⟩ := h.live index (.inl hpos)
      apply h.wf.modifyDynamicWithAbsIndex h.hasRefs he
      rw [← h.hasRefs e he] at hpos ⊢
      exact if_pos hpos
    obtain ⟨refs', hfold, htracked⟩ := ih (h.setRefs fun i hpos =>
      h.live i (.inl (hpos.trans_le (hstep i).2.1))) fun i => (hstep i).1
    rw [setRefs_setRefs] at hfold htracked
    refine ⟨refs', ?_, (funext fun i => (hstep i).2.2) ▸ htracked⟩
    rw [foldlM_cons, hremove]
    exact hfold

lemma Tracked.incrementAcked {increment : ℕ} (hok : (t.incrementAcked increment).2 = .ok ()) :
    (t.incrementAcked increment).1.Tracked refs ∧
      (t.incrementAcked increment).1 =
        { t with ackedInsertsCnt := t.ackedInsertsCnt + increment } := by
  unfold HeaderTable.incrementAcked at hok ⊢
  dsimp only at hok ⊢
  split_ifs at hok ⊢ with hmax hbase
  refine ⟨⟨{ h.wf with }, Nat.le_of_not_lt hbase, h.hasRefs, ?_⟩, rfl⟩
  intro index hstays
  exact h.live index (hstays.imp_right (And.imp_left (Nat.le_add_right _ _).trans))

end

/-! ### Lookup -/

/-- What is found matches the header. -/
structure Finds (found : LookupResult) (index : ℕ) (static : Bool)
    (name value name' value' : Bytes) : Prop where
  index : found.index = index
  static : found.staticTable = static
  name : name' = name
  value : found.valueMatches = true → value' = value

variable {nameMatch : Option LookupResult} {found : LookupResult}

/-- The next entry is found, or else what is found after it: the first match of a name is kept. -/
lemma finds_step {name' value' : Bytes} {static : Bool}
    {next : Option LookupResult → Option LookupResult} {later : Prop}
    (h : (if name' = name then if value' = value then some ⟨index, static, true⟩ else next
      (nameMatch.or (some ⟨index, static, false⟩)) else next nameMatch) = some found)
    (hnext : ∀ {m}, next m = some found → m = some found ∨ later) :
    nameMatch = some found ∨ Finds found index static name value name' value' ∨ later := by
  by_cases hname : name' = name
  · rw [if_pos hname] at h
    split_ifs at h with hvalue
    · obtain rfl := Option.some.inj h
      exact .inr (.inl ⟨rfl, rfl, hname, fun _ => hvalue⟩)
    · rcases hnext h with hm | hlater
      · rcases nameMatch with _ | m
        · obtain rfl := Option.some.inj hm
          exact .inr (.inl ⟨rfl, rfl, hname, nofun⟩)
        · exact .inl hm
      · exact .inr (.inr hlater)
  · rw [if_neg hname] at h
    exact (hnext h).imp_right .inr

lemma staticLookupFrom_cases {entries : List StaticTableEntry}
    (h : staticLookupFrom name value entries nameMatch = some found) :
    nameMatch = some found ∨
      ∃ e ∈ entries, Finds found e.index true name value e.name e.value := by
  induction entries generalizing nameMatch with
  | nil => exact .inl h
  | cons e entries ih =>
    simp only [exists_mem_cons_iff]
    exact finds_step h ih

lemma dynamicLookupFrom_cases {entries : List DynamicTableEntry}
    (h : dynamicLookupFrom name value canBlock acked entries nameMatch = some found) :
    nameMatch = some found ∨
      ∃ e ∈ entries, Finds found e.base false name value e.name e.value ∧
        (canBlock = false → e.base < acked) := by
  induction entries generalizing nameMatch with
  | nil => exact .inl h
  | cons e entries ih =>
    simp only [exists_mem_cons_iff]
    unfold dynamicLookupFrom at h
    by_cases hskip : (!canBlock && decide (e.base ≥ acked)) = true
    · rw [if_pos hskip] at h
      exact (ih h).imp_right .inr
    rw [if_neg hskip] at h
    have hacked : canBlock = false → e.base < acked := by
      rintro rfl
      simpa using hskip
    exact (finds_step h ih).imp_right fun hfound => hfound.imp_left fun hfinds => ⟨hfinds, hacked⟩

lemma staticLookup_cases (h : staticLookup name value = some found) :
    ∃ e ∈ headerStaticTable, Finds found e.index true name value e.name e.value :=
  (staticLookupFrom_cases h).resolve_left nofun

lemma lookup_cases (h : t.lookup name value canBlock = some found) :
    (∃ e ∈ headerStaticTable, Finds found e.index true name value e.name e.value) ∨
      ∃ e ∈ t.dynamic, Finds found e.base false name value e.name e.value ∧
        (canBlock = false → e.base < t.ackedInsertsCnt) := by
  unfold lookup at h
  dsimp only at h
  split_ifs at h
  · exact .inl (staticLookup_cases h)
  · rcases dynamicLookupFrom_cases h with hstatic | hdynamic
    · exact .inl (staticLookup_cases hstatic)
    · exact .inr hdynamic

end HeaderTable

/-! ### The inserts that references require -/

/-- The number of inserts that references require. -/
def requiredInserts (refs : List ℕ) : ℕ := refs.foldr (fun index req => max (index + 1) req) 0

lemma requiredInserts_cons (index : ℕ) (refs : List ℕ) :
    requiredInserts (index :: refs) = max (index + 1) (requiredInserts refs) := rfl

lemma lt_requiredInserts {refs : List ℕ} {index : ℕ} (h : index ∈ refs) :
    index < requiredInserts refs := by
  induction refs with
  | nil => exact absurd h not_mem_nil
  | cons i refs ih =>
    rw [requiredInserts_cons]
    rcases mem_cons.mp h with rfl | h
    · omega
    · exact (ih h).trans_le (le_max_right _ _)

lemma exists_requiredInserts {refs : List ℕ} (h : 0 < requiredInserts refs) :
    ∃ index ∈ refs, requiredInserts refs = index + 1 := by
  induction refs with
  | nil => exact absurd h (lt_irrefl 0)
  | cons i refs ih =>
    rw [requiredInserts_cons]
    rcases le_total (requiredInserts refs) (i + 1) with hle | hle
    · exact ⟨i, mem_cons_self, max_eq_left hle⟩
    · obtain ⟨index, hindex, heq⟩ := ih (by omega)
      exact ⟨index, mem_cons_of_mem _ hindex, (max_eq_right hle).trans heq⟩

end Neqo.Qpack

/-!
## The dynamic table in a run

Whatever is done to a table, its entries are numbered without gaps and fit into it. The checks
before an eviction are exact, and no more entries are evicted than necessary (`run_evicts`).
-/

namespace Neqo.Qpack.HeaderTable

/-- What is done to a table. -/
inductive Op where
  | setCapacity (cap : ℕ)
  | insert (name value : Bytes)
  | insertWithNameRef (nameStaticTable : Bool) (nameIndex : ℕ) (value : Bytes)
  | duplicate (index : ℕ)
  | addRef (index : ℕ)
  | removeRef (index : ℕ)
  | incrementAcked (increment : ℕ)

/-- An operation that panics leaves the table as it is. -/
def step (t : HeaderTable) : Op → HeaderTable
  | .setCapacity cap => (t.setCapacity cap).1
  | .insert name value => (t.insert name value).1
  | .insertWithNameRef nameStaticTable nameIndex value =>
    (t.insertWithNameRef nameStaticTable nameIndex value).1
  | .duplicate index => (t.duplicate index).1
  | .addRef index => (t.addRef index).toOption.getD t
  | .removeRef index => (t.removeRef index).toOption.getD t
  | .incrementAcked increment => (t.incrementAcked increment).1

def run (t : HeaderTable) (ops : List Op) : HeaderTable := ops.foldl step t

/-- What is evicted is the shortest suffix without which the entries fit. -/
def EvictsShortest (reduce : ℕ) (l kept : List DynamicTableEntry) : Prop :=
  ∃ gone, l = kept ++ gone ∧ sizes kept ≤ reduce ∧ ∀ e ∈ gone.head?, reduce < sizes kept + e.size

variable {t : HeaderTable}

lemma Wf.setCapacity_cases (h : t.Wf) (cap : ℕ) :
    (t.setCapacity cap).1.Wf ∧
      ((t.setCapacity cap).2 = .ok () ↔ t.canEvictTo cap = true) ∧
      ((t.setCapacity cap).2 = .ok () → EvictsShortest cap t.dynamic
        (t.setCapacity cap).1.dynamic) := by
  obtain ⟨_, kept, gone, hspec, rfl, hwf, heq⟩ := h.setCapacity_spec cap
  rw [heq]
  refine ⟨hwf, ?_, fun hok => ?_⟩
  · cases t.canEvictTo cap
    · exact iff_of_false nofun nofun
    · exact iff_of_true rfl rfl
  · split_ifs at hok with hcan
    exact ⟨gone, hspec.split, hspec.enough hcan, hspec.needed⟩

lemma Wf.insert_cases (h : t.Wf) (name value : Bytes) :
    (t.insert name value).1.Wf ∧
      ((∃ index, (t.insert name value).2 = .ok index) ↔
        t.insertPossible (t.newEntry name value).size = true) ∧
      ∀ index, (t.insert name value).2 = .ok index →
        ∃ kept, (t.insert name value).1.dynamic = t.newEntry name value :: kept ∧
          EvictsShortest (t.capacity - (t.newEntry name value).size) t.dynamic kept := by
  obtain ⟨kept, gone, hsplit, -, heq, hok⟩ := h.insert_spec name value
  rw [heq]
  split_ifs with hpossible
  · obtain ⟨hspec, hwf⟩ := hok hpossible
    exact ⟨hwf, iff_of_true ⟨_, rfl⟩ hpossible,
      fun _ _ => ⟨kept, rfl, gone, hsplit, hspec.enough rfl, hspec.needed⟩⟩
  · exact ⟨h.evict hsplit, iff_of_false nofun hpossible, nofun⟩

lemma Wf.modify (h : t.Wf) (index : ℕ) {f : DynamicTableEntry → Res DynamicTableEntry}
    (hf : ∀ e e', f e = .ok e' → e'.base = e.base ∧ e'.size = e.size) :
    ((t.modifyDynamicWithAbsIndex index f).toOption.getD t).Wf := by
  unfold HeaderTable.modifyDynamicWithAbsIndex
  split_ifs
  · exact h
  dsimp only
  cases hget : t.dynamic[t.base - index - 1]? with
  | none => exact h
  | some e =>
    dsimp only
    cases he : f e with
    | error => exact h
    | ok e' =>
      obtain ⟨hbase, hsize⟩ := hf e e' he
      obtain ⟨hlt, rfl⟩ := getElem?_eq_some_iff.mp hget
      refine ⟨fun i e₀ (hi : (t.dynamic.set _ e')[i]? = some e₀) => ?_, ?_, h.used_le⟩
      · rw [List.getElem?_set] at hi
        split_ifs at hi with heq
        · cases hi
          rw [hbase, ← heq]
          exact h.base_eq _ _ hget
        · exact h.base_eq i e₀ hi
      · show t.used = ((t.dynamic.set _ e').map _).sum
        have hlt' : t.base - index - 1 < (t.dynamic.map DynamicTableEntry.size).length := by
          rwa [List.length_map]
        rw [List.map_set, hsize, ← List.getElem_map _ (h := hlt'), List.set_getElem_self]
        exact h.used_eq

lemma Wf.step (h : t.Wf) (op : Op) : (t.step op).Wf := by
  cases op with
  | setCapacity cap => exact (h.setCapacity_cases cap).1
  | insert name value => exact (h.insert_cases name value).1
  | insertWithNameRef nameStaticTable nameIndex value =>
    unfold HeaderTable.step insertWithNameRef
    dsimp only
    split
    · exact h
    · exact (h.insert_cases _ value).1
  | duplicate index =>
    unfold HeaderTable.step HeaderTable.duplicate
    dsimp only
    split
    · exact h
    · exact (h.insert_cases _ _).1
  | addRef index => exact h.modify index (by rintro e _ ⟨⟩; exact ⟨rfl, rfl⟩)
  | removeRef index =>
    refine h.modify index fun e e' he => ?_
    unfold DynamicTableEntry.removeRef at he
    split_ifs at he
    cases he
    exact ⟨rfl, rfl⟩
  | incrementAcked increment =>
    unfold HeaderTable.step HeaderTable.incrementAcked
    dsimp only
    split_ifs <;> exact { h with }

/-- **The dynamic table**, after any run: the entries are numbered without gaps, up to the number of
inserts; `used` is their size, and within the capacity; the capacity is changed, and an entry
inserted, if and only if the check says so; and then the shortest suffix of the oldest entries is
evicted without which the others fit. -/
theorem run_evicts (encoder : Bool) (ops : List Op) :
    let t := (new encoder).run ops
    (∀ i e, t.dynamic[i]? = some e → e.base + i + 1 = t.base) ∧
    t.used = (t.dynamic.map fun e => e.name.length + e.value.length + 32).sum ∧
    t.used ≤ t.capacity ∧
    (∀ cap, ((t.setCapacity cap).2 = .ok () ↔ t.canEvictTo cap = true) ∧
      ((t.setCapacity cap).2 = .ok () →
        EvictsShortest cap t.dynamic (t.setCapacity cap).1.dynamic)) ∧
    ∀ name value, ((∃ index, (t.insert name value).2 = .ok index) ↔
        t.insertPossible (name.length + value.length + 32) = true) ∧
      ∀ index, (t.insert name value).2 = .ok index →
        ∃ kept, (t.insert name value).1.dynamic = t.newEntry name value :: kept ∧
          EvictsShortest (t.capacity - (name.length + value.length + 32)) t.dynamic kept := by
  intro t
  have h : t.Wf := List.foldlRecOn ops _ ⟨nofun, rfl, le_rfl⟩ fun _ h op _ => h.step op
  exact ⟨h.base_eq, h.used_eq, h.used_le, fun cap => (h.setCapacity_cases cap).2,
    fun name value => (h.insert_cases name value).2⟩

end Neqo.Qpack.HeaderTable
