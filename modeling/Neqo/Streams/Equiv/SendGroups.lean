import Neqo.Streams.SendGroups
import Neqo.Util.Run

/-!
# Queues of send groups

`Queued` says in which queues a stream is. Each operation on the queues adds to this relation or
removes from it, and keeps queues sorted and, up to the groups that are cleaned up later, not empty.
The invariant relates it to what the streams have recorded: a fair stream is in the queue of its
send group and send order and in no other one.

Without what is recorded about their scheduling, the streams are `SendStreams` (`Schedules.apply`).
-/

namespace Neqo

open BinarySearch IndexMap List OrderGroup PerGroupQueues ScheduledStreams

/-! ### Queues -/

namespace OrderGroup

variable {g : OrderGroup} {id : StreamId}

/-- A function that adds a stream to a sorted queue. -/
def Adds (f : OrderGroup → Except Failure OrderGroup) (id : StreamId) : Prop :=
  ∀ g : OrderGroup, g.vec.Pairwise (· < ·) → id ∉ g.vec →
    ∃ g', f g = .ok g' ∧ g'.vec.Pairwise (· < ·) ∧ ∀ x, x ∈ g'.vec ↔ x ∈ g.vec ∨ x = id

lemma adds_insert (id : StreamId) : Adds (fun g => g.insert id) id := by
  intro g hsorted hnot
  dsimp only
  unfold insert
  rcases hsearch : binarySearch g.vec id with pos | pos
  · refine ⟨_, rfl, pairwise_insertAt hsorted hsearch, ?_⟩
    intro x
    rw [mem_insertAt, or_comm]
  · have hget := getElem?_of_ok hsearch
    exact absurd (mem_of_getElem? hget) hnot

lemma lt_of_last_lt (hsorted : g.vec.Pairwise (· < ·))
    (hlast : (g.vec.getLast?.any fun last => last < id) = true) : ∀ a ∈ g.vec, a < id := by
  obtain ⟨last, hget, hlt⟩ := (Option.any_eq_true _ _).mp hlast
  obtain ⟨before, hvec⟩ := List.getLast?_eq_some_iff.mp hget
  rw [hvec] at hsorted ⊢
  have hlt : last < id := of_decide_eq_true hlt
  have hbefore := (pairwise_append.mp hsorted).2.2
  refine forall_mem_append.mpr ⟨fun a ha => ?_, forall_mem_singleton.mpr hlt⟩
  exact (hbefore a ha last mem_cons_self).trans hlt

lemma adds_append (id : StreamId) : Adds (fun g => g.append id) id := by
  intro g hsorted hnot
  dsimp only
  unfold append
  split_ifs with hlast
  · refine ⟨_, rfl, pairwise_append.mpr ⟨hsorted, pairwise_singleton _ _, ?_⟩, fun x => ?_⟩
    · simpa using lt_of_last_lt hsorted hlast
    · simp [push]
  · exact adds_insert id g hsorted hnot

lemma remove_spec (hsorted : g.vec.Pairwise (· < ·)) (hmem : id ∈ g.vec) :
    ∃ g', g.remove id = .ok g' ∧ g'.vec.Pairwise (· < ·) ∧ ∀ x, x ∈ g'.vec ↔ x ∈ g.vec ∧
    x ≠ id := by
  unfold remove
  rcases hsearch : binarySearch g.vec id with pos | pos
  · exact absurd hmem (not_mem_of_error hsorted hsearch)
  · refine ⟨_, rfl, hsorted.sublist (eraseIdx_sublist _ _), ?_⟩
    intro x
    exact mem_eraseIdx hsorted (getElem?_of_ok hsearch)

end OrderGroup

namespace PerGroupQueues

variable {q q' : PerGroupQueues} {id x : StreamId} {order : Option SendOrder}

/-- Queues are sorted, and those for a send order are not empty. -/
structure Wf (q : PerGroupQueues) : Prop where
  sorted : ∀ order, (q.group order).vec.Pairwise (· < ·)
  nonempty : ∀ order grp, q.sendordered.Mem order grp → grp.vec ≠ []

lemma wf_empty : ({} : PerGroupQueues).Wf where
  sorted := by rintro (_ | order) <;> exact List.Pairwise.nil
  nonempty := fun order grp h => absurd h (OrdMap.not_mem_empty order grp)

lemma mem_group_some {order : SendOrder} :
    x ∈ (q.group (some order)).vec ↔ ∃ grp, q.sendordered.get? order = some grp ∧ x ∈ grp.vec := by
  show x ∈ ((q.sendordered.get? order).getD {}).vec ↔ _
  cases q.sendordered.get? order <;> simp

lemma not_isEmpty_of_mem (h : x ∈ (q.group order).vec) : q.isEmpty = false := by
  rw [← Bool.not_eq_true]
  intro hempty
  obtain ⟨hregular, hordered⟩ := Bool.and_eq_true_iff.mp hempty
  cases order with
  | none =>
    change x ∈ q.regular.vec at h
    rw [isEmpty_iff.mp hregular] at h
    exact not_mem_nil h
  | some =>
    obtain ⟨grp, hgrp, -⟩ := mem_group_some.mp h
    have hmem := OrdMap.get?_eq_some_iff.mp hgrp
    unfold OrdMap.Mem at hmem
    rw [isEmpty_iff.mp hordered] at hmem
    exact not_mem_nil hmem

/-- Replace one queue. For a send order it is only kept if it is not empty. -/
def setGroup (q : PerGroupQueues) : Option SendOrder → OrderGroup → PerGroupQueues
  | none, grp => { q with regular := grp }
  | some order, grp => { q with sendordered := q.sendordered.put (·.vec.isEmpty) order grp }

lemma group_setGroup (q : PerGroupQueues) (order o : Option SendOrder) (grp : OrderGroup) :
    (q.setGroup order grp).group o = if o = order then grp else q.group o := by
  cases order with
  | none => cases o <;> rfl
  | some order =>
    cases o with
    | none => rfl
    | some o =>
      have hempty (g : OrderGroup) (h : g.vec.isEmpty = true) : g = {} :=
        congrArg OrderGroup.mk (isEmpty_iff.mp h)
      refine (OrdMap.getD_put hempty order o grp).trans ?_
      simp [group]

lemma Wf.setGroup (hq : q.Wf) (order : Option SendOrder) {grp : OrderGroup}
    (hsorted : grp.vec.Pairwise (· < ·)) : (q.setGroup order grp).Wf := by
  refine ⟨fun o => ?_, ?_⟩
  · rw [group_setGroup]
    split_ifs
    · exact hsorted
    · exact hq.sorted o
  · cases order with
    | none => exact hq.nonempty
    | some => exact OrdMap.forall_mem_put hq.nonempty isEmpty_eq_false_iff.mp

lemma modifyGroup_spec {f : OrderGroup → Except Failure OrderGroup} (hf : OrderGroup.Adds f id)
    (hq : q.Wf) (hnot : id ∉ (q.group order).vec) :
    ∃ q', q.modifyGroup order f = .ok q' ∧ q'.Wf ∧
      ∀ x o, x ∈ (q'.group o).vec ↔ x ∈ (q.group o).vec ∨ x = id ∧ o = order := by
  obtain ⟨grp, hgrp, hsorted, hmem⟩ := hf (q.group order) (hq.sorted order) hnot
  refine ⟨q.setGroup order grp, ?_, hq.setGroup order hsorted, fun x o => ?_⟩
  · unfold modifyGroup
    rw [hgrp]
    cases order with
    | none => rfl
    | some order =>
      have hne : grp.vec.isEmpty = false :=
        isEmpty_eq_false_iff_exists_mem.mpr ⟨id, (hmem id).mpr (.inr rfl)⟩
      rw [setGroup, OrdMap.put, hne]
      rfl
  · rw [group_setGroup]
    split_ifs with ho
    · rw [hmem, ho]
      simp
    · simp [ho]

lemma removeStream_spec (hq : q.Wf) (hin : id ∈ (q.group order).vec) :
    ∃ q', q.removeStream id order = .ok q' ∧ q'.Wf ∧
      ∀ x o, x ∈ (q'.group o).vec ↔ x ∈ (q.group o).vec ∧ ¬ (x = id ∧ o = order) := by
  obtain ⟨grp, hgrp, hsorted, hmem⟩ := remove_spec (hq.sorted order) hin
  refine ⟨q.setGroup order grp, ?_, hq.setGroup order hsorted, fun x o => ?_⟩
  · unfold removeStream
    cases order with
    | none =>
      change q.regular.remove id = .ok grp at hgrp
      rw [hgrp]
      rfl
    | some order =>
      obtain ⟨old, hold, -⟩ := mem_group_some.mp hin
      have hgroup : q.group (some order) = old := by simp [group, hold]
      rw [hgroup] at hgrp
      dsimp only
      rw [hold]
      dsimp only
      rw [hgrp, setGroup, OrdMap.put]
      show (if _ then _ else _) = _
      split_ifs <;> rfl
  · rw [group_setGroup]
    split_ifs with ho
    · rw [hmem, ho]
      simp
    · simp [ho]

end PerGroupQueues

/-! ### Groups -/

/-- A stream is in the queue of a group for a send order. -/
def Queued (groups : IndexMap SendGroupId PerGroupQueues) (x : StreamId) (gid : SendGroupId)
    (order : Option SendOrder) : Prop :=
  ∃ queues, groups.Mem gid queues ∧ x ∈ (queues.group order).vec

/-- The queues of all groups are well-formed, and there are some, except perhaps for groups that
will be cleaned up. -/
structure Tidy (groups : IndexMap SendGroupId PerGroupQueues) (emptied : SendGroupId → Prop) :
    Prop where
  wf : ∀ gid queues, groups.Mem gid queues → queues.Wf
  nonempty : ∀ gid queues, groups.Mem gid queues → ¬ emptied gid → queues.isEmpty = false

section Groups

variable {groups : IndexMap SendGroupId PerGroupQueues} {emptied : SendGroupId → Prop}
  {gid : SendGroupId} {queues : PerGroupQueues}

variable {order : Option SendOrder}

lemma queued_iff_getD {x : StreamId} :
    Queued groups x gid order ↔ x ∈ (((groups.get? gid).getD {}).group order).vec := by
  constructor
  · rintro ⟨queues, hmem, hx⟩
    rwa [get?_eq_some_iff.mpr hmem]
  · intro hx
    rcases hget : groups.get? gid with _ | queues <;> rw [hget] at hx
    · cases order <;> exact absurd hx not_mem_nil
    · exact ⟨queues, get?_eq_some_iff.mp hget, hx⟩

lemma Tidy.wf_getD (h : Tidy groups emptied) (gid : SendGroupId) :
    ((groups.get? gid).getD {}).Wf := by
  rcases hget : groups.get? gid with _ | queues
  · exact wf_empty
  · exact h.wf gid queues (get?_eq_some_iff.mp hget)

lemma Tidy.mono (h : Tidy groups emptied) {emptied' : SendGroupId → Prop}
    (hle : ∀ gid, emptied gid → emptied' gid) : Tidy groups emptied' :=
  ⟨h.wf, fun gid queues hmem hnot => h.nonempty gid queues hmem fun hgid => hnot (hle gid hgid)⟩

lemma queued_insert {x : StreamId} {g : SendGroupId} :
    Queued (groups.insert gid queues) x g order ↔
      if g = gid then x ∈ (queues.group order).vec else Queued groups x g order := by
  rw [queued_iff_getD, queued_iff_getD, get?_insert]
  split_ifs <;> rfl

lemma Tidy.insert (h : Tidy groups emptied) (hq : queues.Wf)
    {emptied' : SendGroupId → Prop} (hle : ∀ g, g ≠ gid → emptied g → emptied' g)
    (hempty : ¬ emptied' gid → queues.isEmpty = false) :
    Tidy (groups.insert gid queues) emptied' := by
  refine ⟨?_, ?_⟩
  · intro g queues' hmem
    rcases mem_insert.mp hmem with ⟨-, rfl⟩ | ⟨-, hold⟩
    · exact hq
    · exact h.wf g queues' hold
  · intro g queues' hmem hnot
    rcases mem_insert.mp hmem with ⟨rfl, rfl⟩ | ⟨hne, hold⟩
    · exact hempty hnot
    · exact h.nonempty g queues' hold fun hg => hnot (hle g hne hg)

lemma Tidy.retain (h : Tidy groups emptied) {p : SendGroupId → PerGroupQueues → Bool}
    (hp : ∀ g queues, groups.Mem g queues → p g queues = !queues.isEmpty) :
    Tidy (groups.retain p) (fun _ => False) ∧
      ∀ x g o, Queued (groups.retain p) x g o ↔ Queued groups x g o := by
  refine ⟨⟨?_, ?_⟩, ?_⟩
  · intro g queues hmem
    exact h.wf g queues (mem_retain.mp hmem).1
  · intro g queues hmem _
    obtain ⟨hold, hkept⟩ := mem_retain.mp hmem
    simpa [hp g queues hold] using hkept
  · intro x g o
    constructor
    · rintro ⟨queues, hmem, hx⟩
      exact ⟨queues, (mem_retain.mp hmem).1, hx⟩
    · rintro ⟨queues, hmem, hx⟩
      refine ⟨queues, mem_retain.mpr ⟨hmem, ?_⟩, hx⟩
      rw [hp g queues hmem, not_isEmpty_of_mem hx]
      rfl

end Groups

namespace ScheduledStreams

variable {ss : ScheduledStreams} {id : StreamId} {gid : SendGroupId} {order : Option SendOrder}
  {emptied : SendGroupId → Prop}

variable {f : OrderGroup → Except Failure OrderGroup}

lemma modifyGroup_spec (hf : OrderGroup.Adds f id) (htidy : Tidy ss.perGroup (· = gid))
    (hnot : ¬ Queued ss.perGroup id gid order) :
    ∃ groups, ss.modifyGroup gid order f = .ok { ss with perGroup := groups } ∧
      Tidy groups (fun _ => False) ∧
      ∀ x g o, Queued groups x g o ↔
        Queued ss.perGroup x g o ∨ x = id ∧ g = gid ∧ o = order := by
  rw [queued_iff_getD] at hnot
  obtain ⟨queues, hqueues, hwf, hmem⟩ :=
    PerGroupQueues.modifyGroup_spec hf (htidy.wf_getD gid) hnot
  unfold modifyGroup
  rw [hqueues]
  refine ⟨_, rfl, ?_, ?_⟩
  · refine htidy.insert hwf (fun g hne hg => hne hg) fun _ => ?_
    exact not_isEmpty_of_mem ((hmem id order).mpr (.inr ⟨rfl, rfl⟩))
  · intro x g o
    rw [queued_insert]
    split_ifs with hg
    · rw [hmem, hg, queued_iff_getD]
      simp
    · simp [hg]

lemma removeStream_spec (htidy : Tidy ss.perGroup emptied)
    (hqueued : Queued ss.perGroup id gid order) :
    ∃ groups, ss.removeStream gid id order = .ok { ss with perGroup := groups } ∧
      Tidy groups (fun g => emptied g ∨ g = gid) ∧
      ∀ x g o, Queued groups x g o ↔
        Queued ss.perGroup x g o ∧ ¬ (x = id ∧ g = gid ∧ o = order) := by
  obtain ⟨old, hold, hin⟩ := hqueued
  obtain ⟨queues, hqueues, hwf, hmem⟩ :=
    PerGroupQueues.removeStream_spec (htidy.wf gid old hold) hin
  have hget := get?_eq_some_iff.mpr hold
  unfold removeStream
  rw [hget]
  dsimp only
  rw [hqueues]
  refine ⟨_, rfl, ?_, ?_⟩
  · exact htidy.insert hwf (fun g _ hg => .inl hg) fun hnot => absurd (.inr rfl) hnot
  · intro x g o
    rw [queued_insert]
    split_ifs with hg
    · rw [hmem, hg, queued_iff_getD, hget]
      simp
    · simp [hg]

lemma dropIfEmpty_spec (htidy : Tidy ss.perGroup (· = gid)) :
    ∃ groups next,
      ss.dropIfEmpty gid = { ss with perGroup := groups, perGroupNext := next } ∧
      Tidy groups (fun _ => False) ∧
      ∀ x g o, Queued groups x g o ↔ Queued ss.perGroup x g o := by
  -- Unless the group is dropped, it is not there or it is not empty.
  have hstays (hgroup : ∀ queues, ss.perGroup.Mem gid queues → queues.isEmpty = false) :
      Tidy ss.perGroup fun _ => False := by
    refine ⟨htidy.wf, fun g queues hmem _ => ?_⟩
    by_cases hg : g = gid
    · exact hgroup queues (hg ▸ hmem)
    · exact htidy.nonempty g queues hmem hg
  unfold dropIfEmpty
  rcases hget : ss.perGroup.get? gid with _ | queues
  · refine ⟨ss.perGroup, ss.perGroupNext, rfl, hstays fun queues hmem => ?_, fun _ _ _ => Iff.rfl⟩
    rw [get?_eq_some_iff.mpr hmem] at hget
    exact nomatch hget
  have hgroup := get?_eq_some_iff.mp hget
  dsimp only
  by_cases hempty : queues.isEmpty = true
  · rw [if_pos hempty]
    obtain ⟨htidy', hqueued⟩ := htidy.retain (p := fun g _ => g ≠ gid) fun g queues hmem => by
      by_cases hg : g = gid
      · subst hg
        simp [hmem.unique hgroup, hempty]
      · simp [hg, htidy.nonempty g queues hmem hg]
    exact ⟨_, _, rfl, htidy', hqueued⟩
  · rw [if_neg hempty]
    refine ⟨ss.perGroup, ss.perGroupNext, rfl, hstays fun queues' hmem => ?_, fun _ _ _ => Iff.rfl⟩
    rw [hmem.unique hgroup]
    exact Bool.not_eq_true _ ▸ hempty

lemma removeFromGroup_spec (htidy : Tidy ss.perGroup (fun _ => False))
    (hqueued : Queued ss.perGroup id gid order) :
    ∃ groups next,
      ss.removeFromGroup gid id order =
        .ok { ss with perGroup := groups, perGroupNext := next } ∧
      Tidy groups (fun _ => False) ∧
      ∀ x g o, Queued groups x g o ↔
        Queued ss.perGroup x g o ∧ ¬ (x = id ∧ g = gid ∧ o = order) := by
  obtain ⟨groups, hremove, htidy', hqueued'⟩ := removeStream_spec htidy hqueued
  have hthis : Tidy groups (· = gid) := htidy'.mono fun g hg => hg.resolve_left not_false
  obtain ⟨groups', next, hdrop, htidy'', hsame⟩ :=
    @dropIfEmpty_spec { ss with perGroup := groups } gid hthis
  unfold removeFromGroup
  rw [hremove]
  refine ⟨groups', next, congrArg Except.ok hdrop, htidy'', ?_⟩
  intro x g o
  rw [hsame, hqueued']

/-! ### Streams and their queues -/

/-- A fair stream is in the queue of its send group and send order and in no other one; other
streams are in no queue, and have no send group. -/
structure Inv (ss : ScheduledStreams) : Prop where
  tidy : Tidy ss.perGroup fun _ => False
  queued : ∀ x gid order, Queued ss.perGroup x gid order ↔
    ∃ s, ss.map.Mem x s ∧ s.fair = true ∧ s.groupId = gid ∧ s.sendorder = order
  ungrouped : ∀ x s, ss.map.Mem x s → s.fair = false → s.sendGroup = none

variable {s t : ScheduledStream} {groups : IndexMap SendGroupId PerGroupQueues}

lemma Inv.queued_iff (h : ss.Inv) (hs : ss.map.Mem id s) :
    Queued ss.perGroup id gid order ↔ s.fair = true ∧ s.groupId = gid ∧ s.sendorder = order := by
  rw [h.queued]
  constructor
  · rintro ⟨s', hs', hqueue⟩
    rwa [hs.unique hs']
  · exact fun hqueue => ⟨s, hs, hqueue⟩

/-- All streams other than `id` are in their queues, and `id` is in none. -/
def Without (ss : ScheduledStreams) (id : StreamId)
    (groups : IndexMap SendGroupId PerGroupQueues) : Prop :=
  ∀ x g o, Queued groups x g o ↔ x ≠ id ∧ Queued ss.perGroup x g o

lemma Inv.without_of_not_queued (hnot : ∀ g o, ¬ Queued ss.perGroup id g o) :
    ss.Without id ss.perGroup := by
  intro x g o
  by_cases hx : x = id
  · simp [hx, hnot]
  · simp [hx]

section

variable (h : ss.Inv)

include h

lemma Inv.without_of_removed (hs : ss.map.Mem id s)
    (hremoved : ∀ x g o, Queued groups x g o ↔ Queued ss.perGroup x g o ∧
      ¬ (x = id ∧ g = s.groupId ∧ o = s.sendorder)) : ss.Without id groups := by
  intro x g o
  rw [hremoved]
  by_cases hx : x = id
  · rw [hx, h.queued_iff hs]
    simp +contextual
  · simp [hx]

lemma Inv.replace {ss' : ScheduledStreams}
    (hmap : ∀ x v, ss'.map.Mem x v ↔ (x = id ∧ v = t) ∨ (x ≠ id ∧ ss.map.Mem x v))
    (htidy : Tidy ss'.perGroup fun _ => False)
    (hqueued : ∀ x g o, Queued ss'.perGroup x g o ↔ (x ≠ id ∧ Queued ss.perGroup x g o) ∨ x = id ∧
      t.fair = true ∧ t.groupId = g ∧ t.sendorder = o)
    (hungrouped : t.fair = false → t.sendGroup = none) : ss'.Inv := by
  refine ⟨htidy, ?_, ?_⟩
  · intro x g o
    simp only [hmap, hqueued, h.queued]
    by_cases hx : x = id <;> simp [hx]
  · intro x v hv
    rcases (hmap x v).mp hv with ⟨-, rfl⟩ | ⟨-, hold⟩
    · exact hungrouped
    · exact h.ungrouped x v hold

lemma Inv.replaceUnfair {ss' : ScheduledStreams}
    (hmap : ∀ x v, ss'.map.Mem x v ↔ (x = id ∧ v = t) ∨ (x ≠ id ∧ ss.map.Mem x v))
    (htidy : Tidy ss'.perGroup fun _ => False) (hwithout : ss.Without id ss'.perGroup)
    (hfair : t.fair = false) (hgroup : t.sendGroup = none) : ss'.Inv := by
  refine h.replace hmap htidy ?_ fun _ => hgroup
  intro x g o
  rw [hwithout]
  simp [hfair]

lemma Inv.enqueue (hwithout : ss.Without id groups) (htidy : Tidy groups (· = t.groupId))
    (hfair : t.fair = true) (next : ℕ) (hf : OrderGroup.Adds f id) :
    ∃ ss', ({ ss with
        map := ss.map.insert id t, perGroup := groups, perGroupNext := next } :
          ScheduledStreams).modifyGroup t.groupId t.sendorder f = .ok ss' ∧
      ss'.Inv ∧ ss'.map.Mem id t := by
  have hnot : ¬ Queued groups id t.groupId t.sendorder := fun hin => ((hwithout ..).mp hin).1 rfl
  obtain ⟨groups', hadd, htidy', hadded⟩ := @modifyGroup_spec
    { ss with map := ss.map.insert id t, perGroup := groups, perGroupNext := next }
    id t.groupId t.sendorder f hf htidy hnot
  refine ⟨_, hadd, h.replace (fun _ _ => mem_insert) htidy' ?_ ?_,
    mem_insert.mpr (.inl ⟨rfl, rfl⟩)⟩
  · intro x g o
    rw [hadded, hwithout]
    simp [hfair, eq_comm]
  · intro hunfair
    rw [hfair] at hunfair
    exact nomatch hunfair

lemma Inv.setStream (hs : ss.map.Mem id s) (stream : SendStream) (ended : Bool) :
    ({ ss with map := ss.map.insert id { s with stream := stream }, hasEnded := ended } :
      ScheduledStreams).Inv := by
  refine h.replace (fun _ _ => mem_insert) h.tidy ?_ (h.ungrouped id s hs)
  intro x g o
  by_cases hx : x = id
  · simp only [hx, ne_eq, not_true_eq_false, false_and, false_or, true_and]
    exact @Inv.queued_iff ss id g o s h hs
  · simp [hx]

lemma Inv.modifyNoting (id : StreamId) (f : SendStream → SendStream) :
    (ss.modifyNoting id f).Inv := by
  unfold ScheduledStreams.modifyNoting
  rcases hget : ss.map.get? id with _ | s
  · exact h
  · exact h.setStream (get?_eq_some_iff.mp hget) _ _

lemma Inv.update (id : StreamId) (stream : SendStream) :
    (ss.modify id fun s => { s with stream := stream }).Inv := by
  unfold modify
  rcases hget : ss.map.get? id with _ | s
  · exact h
  · exact h.setStream (get?_eq_some_iff.mp hget) stream ss.hasEnded

lemma Inv.not_queued_of_new (hnew : ss.map.containsKey id = false)
    (gid : SendGroupId) (order : Option SendOrder) : ¬ Queued ss.perGroup id gid order := by
  intro hqueued
  obtain ⟨s, hs, -⟩ := (h.queued id gid order).mp hqueued
  rw [containsKey_iff.mpr ⟨s, hs⟩] at hnew
  exact nomatch hnew

lemma Inv.insert (hnew : ss.map.containsKey id = false) (stream : SendStream) :
    (ss.insert id stream).Inv :=
  h.replaceUnfair (fun _ _ => mem_insert) h.tidy
    (without_of_not_queued (h.not_queued_of_new hnew)) rfl rfl

end

lemma modify_of_mem (hs : ss.map.Mem id s) (f : ScheduledStream → ScheduledStream) :
    ss.modify id f = { ss with map := ss.map.insert id (f s) } := by
  unfold modify
  rw [get?_eq_some_iff.mpr hs]

lemma Inv.makeFair (h : ss.Inv) (hs : ss.map.Mem id s) (hfair : s.fair = false) :
    ∃ ss', ss.setFairness id true = .ok ss' ∧ ss'.Inv ∧
      ∃ s', ss'.map.Mem id s' ∧ s'.fair = true := by
  have hnone := h.ungrouped id s hs hfair
  have hgroup : ({ s with fair := true } : ScheduledStream).groupId = nullGroupId := by
    simp [ScheduledStream.groupId, hnone]
  have hwithout : ss.Without id ss.perGroup := without_of_not_queued fun g o => by
    rw [h.queued_iff hs]
    simp [hfair]
  obtain ⟨ss', hadd, hinv, hmem⟩ := h.enqueue (t := { s with fair := true }) hwithout
    (h.tidy.mono fun _ hf => hf.elim) rfl ss.perGroupNext (adds_append id)
  refine ⟨ss', ?_, hinv, _, hmem, rfl⟩
  unfold setFairness
  rw [get?_eq_some_iff.mpr hs]
  dsimp only
  rw [modify_of_mem hs, if_pos (by rw [hfair]; rfl), if_pos (by rw [hnone]; rfl), ← hgroup]
  exact hadd

lemma Inv.makeUnfair (h : ss.Inv) (hs : ss.map.Mem id s) (hfair : s.fair = true) :
    ∃ ss', ss.setFairness id false = .ok ss' ∧ ss'.Inv := by
  have hin : Queued ss.perGroup id s.groupId s.sendorder :=
    (h.queued_iff hs).mpr ⟨hfair, rfl, rfl⟩
  obtain ⟨groups, next, hremove, htidy, hremoved⟩ := @removeFromGroup_spec
    { ss with map := ss.map.insert id { s with fair := false } } id s.groupId s.sendorder h.tidy hin
  have hmem : (ss.map.insert id { s with fair := false }).Mem id { s with fair := false } :=
    mem_insert.mpr (.inl ⟨rfl, rfl⟩)
  have hmodify := @modify_of_mem
    { ss with
      map := ss.map.insert id { s with fair := false }, perGroup := groups, perGroupNext := next }
    id _ hmem fun s => { s with sendGroup := none }
  unfold setFairness
  rw [get?_eq_some_iff.mpr hs]
  dsimp only
  rw [modify_of_mem hs, if_neg (by rw [hfair]; exact nofun), if_pos (by rw [hfair]; rfl), hremove]
  refine ⟨_, congrArg Except.ok hmodify, h.replaceUnfair
    (t := { s with fair := false, sendGroup := none }) ?_ htidy
    (h.without_of_removed hs hremoved) rfl rfl⟩
  intro x v
  rw [mem_insert, mem_insert]
  by_cases hx : x = id <;> simp [hx]

lemma Inv.setFairness (h : ss.Inv) (hs : ss.map.Mem id s) (makeFair : Bool) :
    ∃ ss', ss.setFairness id makeFair = .ok ss' ∧ ss'.Inv ∧
      (makeFair = true → ∃ s', ss'.map.Mem id s' ∧ s'.fair = true) := by
  by_cases hsame : s.fair = makeFair
  · -- Nothing changes.
    have hset : ss.setFairness id makeFair =
        .ok { ss with map := ss.map.insert id { s with fair := makeFair } } := by
      unfold ScheduledStreams.setFairness
      rw [get?_eq_some_iff.mpr hs]
      dsimp only
      rw [modify_of_mem hs, hsame]
      cases makeFair <;> rfl
    refine ⟨_, hset, ?_, fun htrue => ⟨_, mem_insert.mpr (.inl ⟨rfl, rfl⟩), htrue⟩⟩
    rw [← hsame]
    exact h.setStream hs s.stream ss.hasEnded
  · cases makeFair with
    | true =>
      obtain ⟨ss', hok, hinv, hfair⟩ := h.makeFair hs (Bool.not_eq_true _ ▸ hsame)
      exact ⟨ss', hok, hinv, fun _ => hfair⟩
    | false =>
      obtain ⟨ss', hok, hinv⟩ := h.makeUnfair hs (Bool.not_eq_false _ ▸ hsame)
      exact ⟨ss', hok, hinv, nofun⟩

lemma setFairness_of_none (h : ss.map.get? id = none) (makeFair : Bool) :
    ss.setFairness id makeFair = .error (.error .invalidStreamId) := by
  unfold setFairness
  rw [h]

lemma Inv.changeGroup (h : ss.Inv) (hs : ss.map.Mem id s) (hfair : s.fair = true)
    (groupId : Option SendGroupId) : ∃ ss', ss.changeGroup id s groupId = .ok ss' ∧ ss'.Inv := by
  have hqueueOf (g : Option SendGroupId) : queueOf s.fair g = some (g.getD nullGroupId) := by
    cases g <;> simp [queueOf, hfair]
  obtain ⟨groups, next, hremove, htidy, hremoved⟩ :=
    removeFromGroup_spec h.tidy ((h.queued_iff hs).mpr ⟨hfair, rfl, rfl⟩)
  obtain ⟨ss', hadd, hinv, -⟩ := h.enqueue (t := { s with sendGroup := groupId })
    (h.without_of_removed hs hremoved) (htidy.mono fun _ hf => hf.elim) hfair next
    (adds_insert id)
  refine ⟨ss', ?_, hinv⟩
  unfold ScheduledStreams.changeGroup leaveGroup
  rw [hqueueOf]
  dsimp only
  rw [show s.sendGroup.getD nullGroupId = s.groupId from rfl, hremove]
  show joinGroup _ id s groupId = _
  rw [@modify_of_mem { ss with perGroup := groups, perGroupNext := next } id s hs]
  unfold joinGroup
  rw [hqueueOf]
  exact hadd

lemma Inv.changeOrder (h : ss.Inv) (hs : ss.map.Mem id s) (hfair : s.fair = true)
    (sendorder : Option SendOrder) :
    ∃ ss', ss.changeOrder id s sendorder = .ok ss' ∧ ss'.Inv := by
  obtain ⟨groups, hremove, htidy, hremoved⟩ :=
    removeStream_spec h.tidy ((h.queued_iff hs).mpr ⟨hfair, rfl, rfl⟩)
  obtain ⟨ss', hadd, hinv, -⟩ := h.enqueue (t := { s with sendorder := sendorder })
    (h.without_of_removed hs hremoved) (htidy.mono fun _ hg => hg.resolve_left not_false) hfair
    ss.perGroupNext (adds_insert id)
  refine ⟨ss', ?_, hinv⟩
  unfold ScheduledStreams.changeOrder
  rw [hremove]
  show insertIntoGroup _ s.groupId id sendorder = _
  rw [@modify_of_mem { ss with perGroup := groups } id s hs]
  exact hadd

lemma takeOutAll_spec {ended : List (StreamId × ScheduledStream)}
    (hnodup : (ended.map Prod.fst).Nodup) (htidy : Tidy ss.perGroup fun _ => True)
    (hin : ∀ e ∈ ended, e.2.fair = true → Queued ss.perGroup e.1 e.2.groupId e.2.sendorder) :
    ∃ groups, ss.takeOutAll ended = .ok { ss with perGroup := groups } ∧
      Tidy groups (fun _ => True) ∧
      ∀ x g o, Queued groups x g o ↔ Queued ss.perGroup x g o ∧
        ¬ ∃ e ∈ ended, e.2.fair = true ∧ e.1 = x ∧ e.2.groupId = g ∧ e.2.sendorder = o := by
  induction ended generalizing ss with
  | nil => exact ⟨ss.perGroup, rfl, htidy, by simp⟩
  | cons e ended ih =>
    obtain ⟨id, s⟩ := e
    obtain ⟨hfirst, hrest⟩ := nodup_cons.mp hnodup
    unfold takeOutAll takeOut
    split_ifs with hfair
    · obtain ⟨groups, hremove, htidy', hremoved⟩ :=
        removeStream_spec htidy (hin (id, s) mem_cons_self hfair)
      have hstill : ∀ e ∈ ended, e.2.fair = true →
          Queued groups e.1 e.2.groupId e.2.sendorder := by
        intro e he hefair
        refine (hremoved _ _ _).mpr ⟨hin e (mem_cons_of_mem _ he) hefair, ?_⟩
        rintro ⟨heq, -⟩
        exact hfirst (heq ▸ mem_map_of_mem he)
      obtain ⟨groups', hall, htidy'', hqueued⟩ :=
        @ih { ss with perGroup := groups } hrest (htidy'.mono fun _ _ => trivial) hstill
      rw [hremove]
      refine ⟨groups', hall, htidy'', ?_⟩
      intro x g o
      rw [hqueued, hremoved]
      simp only [mem_cons, exists_eq_or_imp, hfair, true_and, not_or, and_assoc]
      simp only [eq_comm]
    · obtain ⟨groups', hall, htidy'', hqueued⟩ :=
        ih hrest htidy fun e he => hin e (mem_cons_of_mem _ he)
      refine ⟨groups', hall, htidy'', ?_⟩
      intro x g o
      rw [hqueued]
      simp [hfair]

/-- Streams that have ended are removed with their places in the queues, and groups that have become
empty with them. -/
lemma Inv.removeEnded (h : ss.Inv) :
    ∃ ss' removed, ss.removeEnded = .ok (ss', removed) ∧ ss'.Inv := by
  fun_cases ScheduledStreams.removeEnded ss with
  | case1 => exact ⟨ss, false, rfl, h⟩
  | case2 hended ended map =>
    have hnodup : (ended.map Prod.fst).Nodup :=
      ss.map.nodup.sublist (filter_sublist.map Prod.fst)
    have hin : ∀ e ∈ ended, e.2.fair = true → Queued ss.perGroup e.1 e.2.groupId e.2.sendorder :=
      fun e he hfair => (h.queued_iff (mem_filter.mp he).1).mpr ⟨hfair, rfl, rfl⟩
    obtain ⟨groups, hall, htidy, hqueued⟩ := @takeOutAll_spec
      { ss with map := map, hasEnded := false } _ hnodup (h.tidy.mono fun _ _ => trivial) hin
    obtain ⟨htidy', hkept⟩ := htidy.retain fun _ queues _ => (rfl : (!queues.isEmpty) = _)
    rw [hall]
    refine ⟨_, _, rfl, htidy', ?_, fun x s hs => h.ungrouped x s (IndexMap.mem_retain.mp hs).1⟩
    intro x g o
    rw [hkept, hqueued]
    constructor
    · rintro ⟨hold, hnot⟩
      obtain ⟨s, hs, hfair, hgroup, horder⟩ := (h.queued x g o).mp hold
      refine ⟨s, IndexMap.mem_retain.mpr ⟨hs, ?_⟩, hfair, hgroup, horder⟩
      rw [Bool.not_eq_true', ← Bool.not_eq_true]
      intro hsended
      exact hnot ⟨(x, s), mem_filter.mpr ⟨hs, hsended⟩, hfair, rfl, hgroup, horder⟩
    · rintro ⟨s, hs, hqueue⟩
      obtain ⟨hold, hnot⟩ := IndexMap.mem_retain.mp hs
      refine ⟨(h.queued x g o).mpr ⟨s, hold, hqueue⟩, ?_⟩
      rintro ⟨⟨x', s'⟩, he, -, rfl, -⟩
      obtain ⟨hs', hended'⟩ := mem_filter.mp he
      rw [hold.unique hs', hended'] at hnot
      exact nomatch hnot

/-- The operation succeeds and keeps the invariant, or it returns an error. -/
def Keeps (result : Except Failure ScheduledStreams) : Prop :=
  (∃ ss', result = .ok ss' ∧ ss'.Inv) ∨ ∃ e, result = .error (.error e)

lemma Inv.setSendgroup (h : ss.Inv) (id : StreamId) (groupId : Option SendGroupId) :
    Keeps (ss.setSendgroup id groupId) := by
  fun_cases ScheduledStreams.setSendgroup ss id groupId with
  | case3 => exact .inl ⟨ss, rfl, h⟩
  | case5 s hget _ hsame hallowed =>
    have hs := IndexMap.get?_eq_some_iff.mp hget
    cases hfair : s.fair with
    | true => exact .inl (h.changeGroup hs hfair groupId)
    | false =>
      -- A stream without fairness has no group, so that this would be a change to some group.
      have hnone := h.ungrouped id s hs hfair
      rcases groupId with _ | gid
      · exact absurd hnone hsame
      · exact absurd (by simp [hfair]) hallowed
  | _ => exact .inr ⟨_, rfl⟩

lemma Inv.setSendorder (h : ss.Inv) (id : StreamId) (sendorder : Option SendOrder) :
    Keeps (ss.setSendorder id sendorder) := by
  unfold ScheduledStreams.setSendorder
  rcases hget : ss.map.get? id with _ | s
  · rw [setFairness_of_none hget]
    exact .inr ⟨_, rfl⟩
  obtain ⟨ss', hok, hinv, hfair⟩ := h.setFairness (get?_eq_some_iff.mp hget) true
  obtain ⟨s', hs', hfair'⟩ := hfair rfl
  rw [hok]
  dsimp only [bind, Except.bind]
  rw [get?_eq_some_iff.mpr hs']
  dsimp only
  split_ifs
  · exact .inl (hinv.changeOrder hs' hfair' sendorder)
  · exact .inl ⟨ss', rfl, hinv⟩

/-! ### The streams without their schedule -/

/-- The streams of the result are the same, whatever is recorded about their scheduling. -/
def Leaves (ss : ScheduledStreams) (result : Except Failure ScheduledStreams) : Prop :=
  ∀ ss', result = .ok ss' → ss'.hasEnded = ss.hasEnded ∧
    ∀ x, (ss'.map.get? x).map ScheduledStream.stream = (ss.map.get? x).map ScheduledStream.stream

lemma leaves_ok {ss' : ScheduledStreams} (hended : ss'.hasEnded = ss.hasEnded)
    (hmap : ss'.map = ss.map) : ss.Leaves (.ok ss') := by
  rintro _ ⟨⟩
  exact ⟨hended, fun _ => by rw [hmap]⟩

variable {r : Except Failure ScheduledStreams}

lemma Leaves.trans {ss' : ScheduledStreams} (h : ss.Leaves (.ok ss')) (h' : ss'.Leaves r) :
    ss.Leaves r := by
  intro ss'' hok
  obtain ⟨hended, hget⟩ := h ss' rfl
  obtain ⟨hended', hget'⟩ := h' ss'' hok
  exact ⟨hended'.trans hended, fun x => (hget' x).trans (hget x)⟩

lemma Leaves.bind {g : ScheduledStreams → Except Failure ScheduledStreams} (h : ss.Leaves r)
    (hg : ∀ ss' : ScheduledStreams, ss'.Leaves (g ss')) : ss.Leaves (r >>= g) := by
  intro ss'' hok
  obtain ⟨ss', rfl, hss'⟩ := bind_eq_ok.mp hok
  exact h.trans (hg ss') ss'' hss'

lemma leaves_modify {g : ScheduledStream → ScheduledStream} (hg : ∀ s, (g s).stream = s.stream) :
    ss.Leaves (.ok (ss.modify id g)) := by
  rintro _ ⟨⟩
  unfold modify
  cases hs : ss.map.get? id with
  | none => exact ⟨rfl, fun _ => rfl⟩
  | some s =>
    refine ⟨rfl, fun x => ?_⟩
    rw [get?_insert]
    split_ifs with hx
    · rw [hx, hs, Option.map_some, Option.map_some, hg]
    · rfl

lemma Leaves.of_modify {g : ScheduledStream → ScheduledStream} (h : (ss.modify id g).Leaves r)
    (hg : ∀ s, (g s).stream = s.stream) : ss.Leaves r :=
  (leaves_modify hg).trans h

lemma leaves_queues {α : Type} {queues : Except Failure α} {g : α → ScheduledStreams}
    (hended : ∀ a, (g a).hasEnded = ss.hasEnded) (hmap : ∀ a, (g a).map = ss.map) :
    ss.Leaves (queues >>= fun a => .ok (g a)) := by
  intro ss' hok
  obtain ⟨a, -, heq⟩ := bind_eq_ok.mp hok
  exact leaves_ok (hended a) (hmap a) ss' heq

lemma leaves_modifyGroup : ss.Leaves (ss.modifyGroup gid order f) :=
  leaves_queues (fun _ => rfl) fun _ => rfl

lemma leaves_removeStream : ss.Leaves (ss.removeStream gid id order) := by
  unfold ScheduledStreams.removeStream
  cases ss.perGroup.get? gid with
  | none => exact leaves_ok rfl rfl
  | some => exact leaves_queues (fun _ => rfl) fun _ => rfl

lemma leaves_removeFromGroup : ss.Leaves (ss.removeFromGroup gid id order) := by
  refine leaves_removeStream.bind fun ss' => ?_
  unfold dropIfEmpty
  split
  · exact leaves_ok rfl rfl
  · split_ifs <;> exact leaves_ok rfl rfl

lemma leaves_joinGroup {groupId : Option SendGroupId} :
    ss.Leaves (ss.joinGroup id s groupId) := by
  unfold joinGroup
  split
  · exact leaves_modifyGroup
  · exact leaves_ok rfl rfl

lemma leaves_setSendgroup (groupId : Option SendGroupId) :
    ss.Leaves (ss.setSendgroup id groupId) := by
  fun_cases ScheduledStreams.setSendgroup ss id groupId with
  | case3 => exact leaves_ok rfl rfl
  | case5 =>
    refine .bind ?_ fun _ => leaves_joinGroup.of_modify fun _ => rfl
    unfold leaveGroup
    split
    · exact leaves_removeFromGroup
    · exact leaves_ok rfl rfl
  | _ => exact nofun

lemma leaves_setFairness (makeFair : Bool) : ss.Leaves (ss.setFairness id makeFair) := by
  fun_cases ScheduledStreams.setFairness ss id makeFair with
  | case1 => exact nofun
  | case2 => exact leaves_modifyGroup.of_modify fun _ => rfl
  | case4 =>
    refine .of_modify (leaves_removeFromGroup.bind fun _ => ?_) fun _ => rfl
    exact leaves_modify fun _ => rfl
  | _ => exact leaves_modify fun _ => rfl

lemma leaves_setSendorder (sendorder : Option SendOrder) :
    ss.Leaves (ss.setSendorder id sendorder) := by
  refine (leaves_setFairness true).bind fun ss' => ?_
  split
  · exact nofun
  · split_ifs
    · exact leaves_removeStream.bind fun _ => leaves_modifyGroup.of_modify fun _ => rfl
    · exact leaves_ok rfl rfl

lemma leaves_takeOutAll (ended : List (StreamId × ScheduledStream)) :
    ss.Leaves (ss.takeOutAll ended) := by
  induction ended generalizing ss with
  | nil => exact leaves_ok rfl rfl
  | cons e ended ih =>
    refine .bind ?_ fun _ => ih
    unfold takeOut
    split_ifs
    · exact leaves_removeStream
    · exact leaves_ok rfl rfl

/-- The streams are those of `sent`, which has no queues. -/
structure Schedules (ss : ScheduledStreams) (sent : SendStreams) : Prop where
  hasEnded : ss.hasEnded = sent.hasEnded
  streams : ∀ x, (ss.map.get? x).map ScheduledStream.stream = sent.get? x

/-- What an operation does to the streams. -/
def applied (sent : SendStreams) : ScheduleOp → SendStreams
  | .insert id stream => sent.insert id stream
  | .update id stream => sent.modify id fun _ => stream
  | .acked token => sent.acked token
  | .resetAcked id => sent.resetAcked id
  | .removeEnded => sent.removeEnded.1
  | .setFairness _ _ | .setSendorder _ _ | .setSendgroup _ _ => sent

variable {sent : SendStreams}

lemma Schedules.of_leaves {ss' : ScheduledStreams} (h : Schedules ss sent) (hleaves : ss.Leaves r)
    (hok : r = .ok ss') : Schedules ss' sent :=
  have ⟨hended, hget⟩ := hleaves ss' hok
  ⟨hended.trans h.hasEnded, fun x => (hget x).trans (h.streams x)⟩

lemma Schedules.of_insert {ss' : ScheduledStreams} {sent' : SendStreams} (h : Schedules ss sent)
    (hmap : ss'.map = ss.map.insert id s) (hmap' : sent'.map = sent.map.insert id s.stream)
    (hended : ss'.hasEnded = sent'.hasEnded) : Schedules ss' sent' := by
  refine ⟨hended, fun x => ?_⟩
  rw [SendStreams.get?, hmap, hmap', get?_insert, get?_insert]
  split_ifs with hx
  · rfl
  · exact h.streams x

lemma Schedules.modifyNoting (h : Schedules ss sent) (id : StreamId) (g : SendStream → SendStream) :
    Schedules (ss.modifyNoting id g) (sent.modifyNoting id g) := by
  unfold ScheduledStreams.modifyNoting SendStreams.modifyNoting
  rw [← h.streams id, ← h.hasEnded]
  cases ss.map.get? id with
  | none => exact h
  | some s => exact h.of_insert rfl rfl rfl

lemma Schedules.removeEnded {ss' : ScheduledStreams} {removed : Bool} (h : Schedules ss sent)
    (hok : ss.removeEnded = .ok (ss', removed)) : Schedules ss' sent.removeEnded.1 := by
  unfold ScheduledStreams.removeEnded at hok
  unfold SendStreams.removeEnded
  rw [← h.hasEnded]
  split_ifs at hok ⊢ with hended
  · cases hok
    exact h
  · obtain ⟨ss₁, htake, heq⟩ := bind_eq_ok.mp hok
    obtain ⟨rfl, -⟩ := Prod.mk.inj (Except.ok.inj heq)
    obtain ⟨hended₁, hget⟩ := leaves_takeOutAll _ ss₁ htake
    refine ⟨hended₁, fun x => (hget x).trans ?_⟩
    ext v
    have hx : ∀ v, (∃ s, ss.map.Mem x s ∧ s.stream = v) ↔ sent.map.Mem x v := fun v => by
      rw [← get?_eq_some_iff, ← SendStreams.get?, ← h.streams, Option.map_eq_some_iff]
      simp only [get?_eq_some_iff]
    rw [Option.map_eq_some_iff, SendStreams.get?, get?_eq_some_iff, mem_retain, ← hx]
    simp only [get?_eq_some_iff, mem_retain]
    constructor
    · rintro ⟨s, ⟨hs, hnot⟩, rfl⟩
      exact ⟨⟨s, hs, rfl⟩, hnot⟩
    · rintro ⟨⟨s, hs, rfl⟩, hnot⟩
      exact ⟨s, ⟨hs, hnot⟩, rfl⟩

/-- **Scheduling refines `SendStreams`**: an operation does to the streams what it does without
queues. -/
theorem Schedules.apply {ss' : ScheduledStreams} {op : ScheduleOp} (h : Schedules ss sent)
    (hok : ss.apply op = .ok ss') : Schedules ss' (applied sent op) := by
  cases op with
  | insert id stream =>
    cases hok
    exact h.of_insert rfl rfl h.hasEnded
  | update id stream =>
    cases hok
    show Schedules _ (sent.modify id _)
    unfold ScheduledStreams.modify SendStreams.modify
    rw [← h.streams id]
    cases ss.map.get? id with
    | none => exact h
    | some s => exact h.of_insert rfl rfl h.hasEnded
  | setFairness id makeFair => exact h.of_leaves (leaves_setFairness makeFair) hok
  | setSendorder id sendorder => exact h.of_leaves (leaves_setSendorder sendorder) hok
  | setSendgroup id groupId => exact h.of_leaves (leaves_setSendgroup groupId) hok
  | acked token =>
    cases hok
    exact h.modifyNoting token.id _
  | resetAcked id =>
    cases hok
    exact h.modifyNoting id _
  | removeEnded =>
    obtain ⟨⟨ss', removed⟩, hremove, rfl⟩ := map_eq_ok.mp hok
    exact h.removeEnded hremove

end ScheduledStreams

/-! ### Runs -/

namespace ScheduleRun

open ScheduledStreams

/-- No panic was reached, and the streams are where they should be. -/
structure Inv (r : ScheduleRun) : Prop where
  panicked : r.panicked = false
  streams : r.streams.Inv

lemma Inv.step {r : ScheduleRun} (h : r.Inv) {op : ScheduleOp} (hop : r.NewId op) :
    (r.step op).Inv := by
  have hkeeps : Keeps (r.streams.apply op) := by
    cases op with
    | insert id stream => exact .inl ⟨_, rfl, h.streams.insert hop stream⟩
    | update id stream => exact .inl ⟨_, rfl, h.streams.update id stream⟩
    | setFairness id makeFair =>
      show Keeps (r.streams.setFairness id makeFair)
      rcases hget : r.streams.map.get? id with _ | s
      · exact .inr ⟨.invalidStreamId, setFairness_of_none hget makeFair⟩
      · obtain ⟨ss', hok, hinv, -⟩ :=
          h.streams.setFairness (get?_eq_some_iff.mp hget) makeFair
        exact .inl ⟨ss', hok, hinv⟩
    | setSendorder id sendorder => exact h.streams.setSendorder id sendorder
    | setSendgroup id groupId => exact h.streams.setSendgroup id groupId
    | acked token => exact .inl ⟨_, rfl, h.streams.modifyNoting token.id _⟩
    | resetAcked id => exact .inl ⟨_, rfl, h.streams.modifyNoting id _⟩
    | removeEnded =>
      obtain ⟨ss', removed, hok, hinv⟩ := h.streams.removeEnded
      refine .inl ⟨ss', ?_, hinv⟩
      unfold apply
      rw [hok]
      rfl
  unfold ScheduleRun.step
  rw [if_neg (by rw [h.panicked]; exact nofun)]
  rcases hkeeps with ⟨ss', hok, hinv⟩ | ⟨e, herror⟩
  · rw [hok]
    exact ⟨rfl, hinv⟩
  · rw [herror]
    exact h

lemma inv_start : ({} : ScheduleRun).Inv := by
  refine ⟨rfl, ⟨?_, ?_⟩, ?_, ?_⟩
  · exact fun gid queues hmem => absurd hmem (not_mem_empty gid queues)
  · exact fun gid queues hmem => absurd hmem (not_mem_empty gid queues)
  · intro x gid order
    refine iff_of_false ?_ ?_
    · rintro ⟨queues, hmem, -⟩
      exact not_mem_empty gid queues hmem
    · rintro ⟨s, hs, -⟩
      exact not_mem_empty x s hs
  · exact fun x s hs => absurd hs (not_mem_empty x s)

/-- **Queues of send groups stay consistent.**  Whatever is done with streams, no panic is reached.
A fair stream is in the queue of its send group and its send order, and in no other one; streams
that are not fair and streams that were removed are in no queue. Queues are strictly increasing,
and no group or queue for a send order is empty. -/
theorem queues_consistent (ops : List ScheduleOp) (h : Run.Along step NewId {} ops) :
    (({} : ScheduleRun).run ops).panicked = false ∧
      (∀ id s, (({} : ScheduleRun).run ops).streams.map.Mem id s → s.fair = true → ∀ gid order,
        Queued (({} : ScheduleRun).run ops).streams.perGroup id gid order ↔
          gid = s.sendGroup.getD nullGroupId ∧ order = s.sendorder) ∧
      (∀ id s, (({} : ScheduleRun).run ops).streams.map.Mem id s → s.fair = false → ∀ gid order,
        ¬ Queued (({} : ScheduleRun).run ops).streams.perGroup id gid order) ∧
      (∀ id, (({} : ScheduleRun).run ops).streams.map.containsKey id = false → ∀ gid order,
        ¬ Queued (({} : ScheduleRun).run ops).streams.perGroup id gid order) ∧
      ∀ gid queues, (({} : ScheduleRun).run ops).streams.perGroup.Mem gid queues →
        queues.isEmpty = false ∧
        (∀ order, (queues.group order).vec.Pairwise (· < ·)) ∧
        ∀ order grp, queues.sendordered.Mem order grp → grp.vec ≠ [] := by
  have hinv : (({} : ScheduleRun).run ops).Inv :=
    h.invariant (fun _ _ hinv hop => hinv.step hop) inv_start
  generalize ({} : ScheduleRun).run ops = r at hinv ⊢
  have hstreams := hinv.streams
  refine ⟨hinv.panicked, ?_, ?_, ?_, ?_⟩
  · intro id s hs hfair gid order
    rw [hstreams.queued_iff hs, hfair]
    show true = true ∧ s.sendGroup.getD nullGroupId = gid ∧ s.sendorder = order ↔ _
    simp only [true_and, eq_comm]
  · intro id s hs hfair gid order
    rw [hstreams.queued_iff hs, hfair]
    exact fun hqueue => nomatch hqueue.1
  · exact fun id => hstreams.not_queued_of_new
  · intro gid queues hmem
    have hwf := hstreams.tidy.wf gid queues hmem
    exact ⟨hstreams.tidy.nonempty gid queues hmem not_false, hwf.sorted, hwf.nonempty⟩

/-- Two streams with a send order, one of which is then assigned to a send group. -/
def groupOps : List ScheduleOp :=
  [.insert ⟨0⟩ (.new ⟨0⟩ 0), .insert ⟨4⟩ (.new ⟨4⟩ 0), .setSendorder ⟨4⟩ (some 3),
    .setSendorder ⟨0⟩ (some 3), .setSendgroup ⟨0⟩ (some ⟨7⟩)]

/-- The stream that was assigned to a send group is in its queue only. -/
theorem queues_consistent_group :
    (({} : ScheduleRun).run groupOps).panicked = false ∧ ∀ gid order,
      Queued (({} : ScheduleRun).run groupOps).streams.perGroup ⟨0⟩ gid order ↔
        gid = ⟨7⟩ ∧ order = some 3 := by
  obtain ⟨hpanicked, hqueued, -⟩ := queues_consistent groupOps (by decide)
  refine ⟨hpanicked, ?_⟩
  exact hqueued ⟨0⟩
    { stream := .new ⟨0⟩ 0, sendorder := some 3, fair := true, sendGroup := some ⟨7⟩ }
    (get?_eq_some_iff.mp rfl) rfl

end ScheduleRun

end Neqo
