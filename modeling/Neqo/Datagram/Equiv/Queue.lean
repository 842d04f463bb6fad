import Neqo.Datagram

/-!
# What the operations on a queue of datagrams do

`entries` lists what is queued, with its group and send order, and `bucket` gives one bucket. `Inv`
says that no group and no bucket is empty and that the cached totals are the sums over the entries.

Every removal is an instance of `Sheds`: the entries are, up to the order, those that left and those
that are left, and each bucket lost datagrams only at its front. `enqueue_cases` says what queueing
a datagram can do: it is refused because everything queued outranks it, or datagrams that nothing
left is outranked by are shed and it goes to the end of its bucket.
-/

namespace Neqo

open GroupQueue List OrdMap

/-! ### One group -/

namespace GroupQueue

/-- The datagrams of a send order. -/
def bucket (g : GroupQueue) (o : SendOrder) : List QueuedDatagram := (g.byOrder.get? o).getD []

/-- The datagrams of the group with their send orders. -/
def entries (g : GroupQueue) : List (SendOrder × QueuedDatagram) :=
  g.byOrder.gather fun o queue => queue.map (o, ·)

/-- No bucket is empty. -/
def Inv (g : GroupQueue) : Prop := ∀ o queue, g.byOrder.Mem o queue → queue ≠ []

variable {g : GroupQueue} {o : SendOrder} {queue : List QueuedDatagram} {d : QueuedDatagram}

lemma mem_entries_iff : (o, d) ∈ g.entries ↔ d ∈ g.bucket o := by
  refine (@mem_gather_getD _ _ _ _ _ _ o [] _ rfl fun o' queue h => ?_).trans ?_
  · obtain ⟨_, -, heq⟩ := mem_map.mp h
    exact congrArg Prod.fst heq
  · simp [bucket]

lemma eq_of_isEmpty (g : GroupQueue) (h : g.isEmpty = true) : g = {} :=
  congrArg GroupQueue.mk (OrdMap.ext (isEmpty_iff.mp h))

lemma entries_ne_nil (h : g.Inv) (hne : g.isEmpty = false) : g.entries ≠ [] := by
  unfold isEmpty at hne
  unfold entries gather
  cases hl : g.byOrder.entries with
  | nil =>
    rw [hl] at hne
    cases hne
  | cons e =>
    have hne : e.2 ≠ [] := h e.1 e.2 (by rw [OrdMap.Mem, hl]; exact mem_cons_self ..)
    simp [hne]

lemma setBucket_byOrder (g : GroupQueue) (o : SendOrder) (queue : List QueuedDatagram) :
    (g.setBucket o queue).byOrder = g.byOrder.put List.isEmpty o queue := by
  unfold setBucket put
  split_ifs <;> rfl

lemma entries_setBucket {l l' : List (SendOrder × QueuedDatagram)}
    (h : (l ++ (g.bucket o).map (o, ·)).Perm (l' ++ queue.map (o, ·))) :
    (l ++ g.entries).Perm (l' ++ (g.setBucket o queue).entries) := by
  unfold entries
  rw [setBucket_byOrder]
  exact gather_put (fun _ => isEmpty_iff.mp) rfl h

lemma bucket_setBucket (g : GroupQueue) (o o' : SendOrder) (queue : List QueuedDatagram) :
    (g.setBucket o queue).bucket o' = if o' = o then queue else g.bucket o' := by
  unfold bucket
  rw [setBucket_byOrder]
  exact getD_put (fun _ => isEmpty_iff.mp) o o' queue

lemma Inv.setBucket (h : g.Inv) (o : SendOrder) (queue : List QueuedDatagram) :
    (g.setBucket o queue).Inv := by
  unfold Inv
  rw [setBucket_byOrder]
  refine forall_mem_put h fun hne hnil => ?_
  rw [hnil] at hne
  cases hne

lemma push_eq (g : GroupQueue) (o : SendOrder) (d : QueuedDatagram) :
    g.push o d = g.setBucket o (g.bucket o ++ [d]) := by
  unfold setBucket
  rw [if_neg (by simp)]
  rfl

lemma Inv.empty : ({} : GroupQueue).Inv := fun _ _ h => absurd h (not_mem_empty _ _)

lemma entries_push (g : GroupQueue) (o : SendOrder) (d : QueuedDatagram) :
    ([(o, d)] ++ g.entries).Perm (g.push o d).entries := by
  rw [push_eq]
  refine @entries_setBucket g o _ _ [] ?_
  rw [map_append]
  exact perm_append_comm

lemma isEmpty_push (g : GroupQueue) (o : SendOrder) (d : QueuedDatagram) :
    (g.push o d).isEmpty = false := by
  rw [Bool.eq_false_iff]
  intro h
  have hpush := entries_push g o d
  rw [eq_of_isEmpty _ h] at hpush
  exact nomatch hpush.eq_nil

lemma popFront_eq_none_iff : g.popFront o = none ↔ g.bucket o = [] := by
  unfold popFront bucket
  rcases g.byOrder.get? o with _ | _ | ⟨d, queue⟩ <;> simp

lemma popFront_eq_some_iff {g' : GroupQueue} :
    g.popFront o = some (d, g') ↔ ∃ queue, g.bucket o = d :: queue ∧ g' = g.setBucket o queue := by
  unfold popFront bucket
  rcases g.byOrder.get? o with _ | _ | ⟨d', queue⟩
  · simp
  · simp
  · simp only [Option.some.injEq, Prod.mk.injEq, Option.getD_some, cons.injEq]
    exact ⟨fun ⟨hd, hg⟩ => ⟨queue, ⟨hd, rfl⟩, hg.symm⟩,
      fun ⟨_, ⟨hd, hqueue⟩, hg⟩ => ⟨hd, by rw [hg, hqueue]⟩⟩

lemma lowestOrder_spec (h : g.Inv) (ho : g.lowestOrder = some o) :
    g.bucket o ≠ [] ∧ ∀ e ∈ g.entries, o ≤ e.1 := by
  have hfirst : ∃ queue, g.byOrder.first? = some (o, queue) := by
    unfold lowestOrder OrdMap.keys at ho
    rw [List.head?_map, Option.map_eq_some_iff] at ho
    obtain ⟨e, he, rfl⟩ := ho
    exact ⟨e.2, he⟩
  obtain ⟨queue, hfirst⟩ := hfirst
  have hmem := first?_mem hfirst
  constructor
  · unfold bucket
    rw [get?_eq_some_iff.mpr hmem]
    exact h o queue hmem
  · intro e he
    obtain ⟨o', queue', hmem', he'⟩ := mem_gather.mp he
    obtain ⟨_, -, rfl⟩ := mem_map.mp he'
    exact first?_le hfirst hmem'

lemma lowestOrder_isSome (h : g.isEmpty = false) : ∃ o, g.lowestOrder = some o := by
  unfold isEmpty at h
  unfold lowestOrder OrdMap.keys
  cases hl : g.byOrder.entries with
  | nil =>
    rw [hl] at h
    cases h
  | cons e => exact ⟨e.1, rfl⟩

lemma popHighest_eq_some {g' : GroupQueue} (hpop : g.popHighest = some (o, d, g')) :
    (∃ queue, g.bucket o = d :: queue ∧ g' = g.setBucket o queue) ∧
      ∀ e ∈ g.entries, e.1 ≤ o := by
  unfold popHighest at hpop
  rcases hlast : g.byOrder.last? with _ | ⟨o', _ | ⟨d', queue⟩⟩
  · rw [hlast] at hpop
    cases hpop
  · rw [hlast] at hpop
    cases hpop
  · rw [hlast] at hpop
    cases hpop
    refine ⟨⟨queue, ?_, rfl⟩, fun e he => ?_⟩
    · unfold bucket
      rw [get?_eq_some_iff.mpr (last?_mem hlast)]
      rfl
    · obtain ⟨o', queue', hmem', he'⟩ := mem_gather.mp he
      obtain ⟨_, -, rfl⟩ := mem_map.mp he'
      exact le_last? hlast hmem'

/-- A group with a datagram has a next one, which is what a look at the highest bucket shows. -/
lemma exists_popHighest (h : g.Inv) (hne : g.isEmpty = false) :
    ∃ o d g', g.popHighest = some (o, d, g') ∧
      ∃ queue, g.byOrder.last? = some (o, d :: queue) := by
  unfold popHighest
  rcases hlast : g.byOrder.last? with _ | ⟨o, queue⟩
  · have hnil : g.byOrder.entries = [] := by
      rwa [last?, List.getLast?_eq_none_iff] at hlast
    rw [isEmpty, hnil] at hne
    cases hne
  · rcases queue with _ | ⟨d, queue⟩
    · exact absurd rfl (h o [] (last?_mem hlast))
    · exact ⟨o, d, _, rfl, queue, rfl⟩

/-! #### Expiry -/

/-- The datagrams that expire, with their send orders. -/
def expiring (g : GroupQueue) (now maxAge : ℕ) : List (SendOrder × QueuedDatagram) :=
  g.byOrder.gather fun o queue => (queue.take (cut now maxAge queue)).map (o, ·)

section

variable (g : GroupQueue) (now maxAge : ℕ)

lemma bucket_expireOld (o : SendOrder) :
    (g.expireOld now maxAge).1.bucket o = (g.bucket o).drop (cut now maxAge (g.bucket o)) :=
  getD_update drop_nil (by simp)

lemma Inv.expireOld : (g.expireOld now maxAge).1.Inv := by
  intro o queue hmem
  obtain ⟨_, -, -, hne⟩ := mem_update.mp hmem
  rintro rfl
  cases hne

lemma entries_expireOld :
    g.entries.Perm (g.expiring now maxAge ++ (g.expireOld now maxAge).1.entries) := by
  refine gather_perm_update (fun o queue _ => ?_) fun o queue _ hempty => ?_
  · rw [← map_append, take_append_drop]
  · have hnil : queue.drop (cut now maxAge queue) = [] := by simpa using hempty
    rw [hnil, map_nil]

lemma count_expireOld : (g.expireOld now maxAge).2.1 = (g.expiring now maxAge).length := by
  unfold expiring gather
  rw [length_flatMap]
  refine congrArg List.sum (map_congr_left fun e _ => ?_)
  rw [length_map, length_take]
  exact (min_eq_left (PartitionPoint.partitionPoint_bounds _ _).le_length).symm

lemma freed_expireOld :
    (g.expireOld now maxAge).2.2 =
      ((g.expiring now maxAge).map fun e => e.2.charge).sum := by
  unfold expiring gather
  rw [map_flatMap, flatMap_def, sum_flatten, map_map]
  refine congrArg List.sum (map_congr_left fun e _ => ?_)
  rw [Function.comp_apply, map_map]
  rfl

end

end GroupQueue

/-! ### The queue -/

namespace DatagramQueue

/-- A queued datagram with its group and send order. -/
structure Entry where
  group : SendGroupId
  order : SendOrder
  dgram : QueuedDatagram

/-- The entries of a group. -/
def groupEntries (id : SendGroupId) (g : GroupQueue) : List Entry :=
  g.entries.map fun e => ⟨id, e.1, e.2⟩

/-- Everything that is queued. -/
def entries (q : DatagramQueue) : List Entry := q.groups.gather groupEntries

/-- The datagrams of a group. -/
def group (q : DatagramQueue) (id : SendGroupId) : GroupQueue := (q.groups.get? id).getD {}

/-- The datagrams of a group and a send order. -/
def bucket (q : DatagramQueue) (id : SendGroupId) (o : SendOrder) : List QueuedDatagram :=
  (q.group id).bucket o

/-- The charges of entries. -/
def charges (l : List Entry) : ℕ := (l.map fun e => e.dgram.charge).sum

/-- Nothing that is kept is empty, and the cached totals are right. -/
structure Inv (q : DatagramQueue) : Prop where
  kept : ∀ id g, q.groups.Mem id g → g.isEmpty = false ∧ g.Inv
  count : q.totalCount = q.entries.length
  bytes : q.totalBytes = charges q.entries
  underflow : q.underflow = false

variable {q q' q'' : DatagramQueue} {id : SendGroupId} {o : SendOrder} {d : QueuedDatagram}
  {gone gone' : List Entry}

@[simp] lemma charges_cons (e : Entry) (l : List Entry) :
    charges (e :: l) = e.dgram.charge + charges l := rfl

@[simp] lemma charges_append (l l' : List Entry) : charges (l ++ l') = charges l + charges l' := by
  unfold charges
  rw [map_append, sum_append]

lemma charges_perm {l l' : List Entry} (h : l.Perm l') : charges l = charges l' :=
  (h.map _).sum_eq

lemma groupEntries_empty (id : SendGroupId) : groupEntries id {} = [] := rfl

lemma length_datagrams (q : DatagramQueue) : q.datagrams.length = q.entries.length := by
  unfold datagrams entries groupEntries GroupQueue.entries gather
  simp only [length_flatMap, length_map]

lemma group_inv (h : q.Inv) (id : SendGroupId) : (q.group id).Inv := by
  unfold group
  cases hget : q.groups.get? id with
  | none => exact GroupQueue.Inv.empty
  | some g => exact (h.kept id g (get?_eq_some_iff.mp hget)).2

lemma mem_entries_iff {e : Entry} : e ∈ q.entries ↔ e.dgram ∈ q.bucket e.group e.order := by
  refine (mem_gather_getD (groupEntries_empty e.group) fun id g h => ?_).trans ?_
  · obtain ⟨_, -, rfl⟩ := mem_map.mp h
    rfl
  · rw [bucket, ← GroupQueue.mem_entries_iff]
    constructor
    · intro h
      obtain ⟨e', he, heq⟩ := mem_map.mp h
      rwa [← heq]
    · exact fun he => mem_map.mpr ⟨(e.order, e.dgram), he, rfl⟩

/-! #### Changing one group -/

lemma entries_put {g : GroupQueue} {l l' : List (SendOrder × QueuedDatagram)}
    (hg : (l ++ (q.group id).entries).Perm (l' ++ g.entries))
    (hgroups : q'.groups = q.groups.put GroupQueue.isEmpty id g) :
    (l.map (fun e => Entry.mk id e.1 e.2) ++ q.entries).Perm
      (l'.map (fun e => Entry.mk id e.1 e.2) ++ q'.entries) := by
  unfold entries
  rw [hgroups]
  refine gather_put eq_of_isEmpty (groupEntries_empty id) ?_
  unfold groupEntries
  rw [← map_append, ← map_append]
  exact hg.map _

lemma bucket_put (id id' : SendGroupId) (g : GroupQueue) (o : SendOrder)
    (hgroups : q'.groups = q.groups.put GroupQueue.isEmpty id g) :
    q'.bucket id' o = if id' = id then g.bucket o else q.bucket id' o := by
  unfold bucket group
  rw [hgroups, getD_put eq_of_isEmpty]
  split_ifs <;> rfl

lemma push_groups (q : DatagramQueue) (d : QueuedDatagram) (id : SendGroupId) (o : SendOrder) :
    (q.push d id o).groups = q.groups.put GroupQueue.isEmpty id ((q.group id).push o d) := by
  unfold put
  rw [isEmpty_push]
  rfl

lemma entries_queue_push (q : DatagramQueue) (d : QueuedDatagram) (id : SendGroupId)
    (o : SendOrder) : (q.push d id o).entries.Perm (⟨id, o, d⟩ :: q.entries) :=
  (@entries_put q _ id _ _ [] (entries_push (q.group id) o d) (push_groups q d id o)).symm

/-! #### Removals -/

/-- Datagrams have left the queue: each bucket lost some at its front. -/
structure Sheds (q q' : DatagramQueue) (gone : List Entry) : Prop where
  perm : q.entries.Perm (gone ++ q'.entries)
  suffix : ∀ id o, q'.bucket id o <:+ q.bucket id o
  inv : q'.Inv
  maxQueuedBytes : q'.maxQueuedBytes = q.maxQueuedBytes
  blocked : q'.blocked = q.blocked
  sent : q'.sent = q.sent
  tooBig : q'.tooBig = q.tooBig

lemma Sheds.refl (h : q.Inv) : Sheds q q [] :=
  ⟨List.Perm.refl _, fun _ _ => suffix_refl _, h, rfl, rfl, rfl, rfl⟩

lemma Sheds.trans (h : Sheds q q' gone) (h' : Sheds q' q'' gone') :
    Sheds q q'' (gone ++ gone') where
  perm := by
    rw [append_assoc]
    exact h.perm.trans (h'.perm.append_left gone)
  suffix id o := (h'.suffix id o).trans (h.suffix id o)
  inv := h'.inv
  maxQueuedBytes := h'.maxQueuedBytes.trans h.maxQueuedBytes
  blocked := h'.blocked.trans h.blocked
  sent := h'.sent.trans h.sent
  tooBig := h'.tooBig.trans h.tooBig

lemma Sheds.totalBytes (h : Sheds q q' gone) (hq : q.Inv) :
    q.totalBytes = charges gone + q'.totalBytes := by
  rw [hq.bytes, h.inv.bytes, charges_perm h.perm, charges_append]

lemma account_inv (gone : List Entry) (hq : q.Inv) {groups : OrdMap SendGroupId GroupQueue}
    {r : DatagramQueue} (hr : r = { q with groups := groups })
    (hperm : q.entries.Perm (gone ++ r.entries))
    (hkept : ∀ id g, groups.Mem id g → g.isEmpty = false ∧ g.Inv) :
    (r.account gone.length (charges gone)).Inv := by
  have hcount : q.totalCount = gone.length + r.entries.length := by
    rw [hq.count, hperm.length_eq, length_append]
  have hbytes : q.totalBytes = charges gone + charges r.entries := by
    rw [hq.bytes, charges_perm hperm, charges_append]
  subst hr
  refine ⟨hkept, ?_, ?_, ?_⟩
  · show q.totalCount - _ = _
    rw [hcount, Nat.add_sub_cancel_left]
    rfl
  · show q.totalBytes - _ = _
    rw [hbytes, Nat.add_sub_cancel_left]
    rfl
  · show (q.underflow || decide (q.totalCount < _) || decide (q.totalBytes < _)) = false
    rw [hq.underflow, hcount, hbytes]
    simp

lemma Sheds.finishRemoval (hq : q.Inv) {queue : List QueuedDatagram}
    (hbucket : q.bucket id o = d :: queue) (r : SendGroupId) :
    Sheds q ({ q with rrNext := r }.finishRemoval id ((q.group id).setBucket o queue) d)
      [⟨id, o, d⟩] := by
  have hg : ([] ++ (q.group id).entries).Perm
      ([(o, d)] ++ ((q.group id).setBucket o queue).entries) :=
    entries_setBucket (by rw [show (q.group id).bucket o = _ from hbucket]; rfl)
  have hperm : q.entries.Perm ([⟨id, o, d⟩] ++ DatagramQueue.entries
      { q with
        rrNext := r
        groups := q.groups.put GroupQueue.isEmpty id ((q.group id).setBucket o queue) }) :=
    entries_put hg rfl
  refine ⟨hperm, fun id' o' => ?_, ?_, rfl, rfl, rfl, rfl⟩
  · rw [bucket_put id id' ((q.group id).setBucket o queue) o' rfl]
    split_ifs with hid
    · rw [hid, bucket_setBucket]
      split_ifs with ho
      · rw [ho, hbucket]
        exact suffix_cons d queue
      · exact suffix_refl _
    · exact suffix_refl _
  · exact account_inv (q := { q with rrNext := r }) [⟨id, o, d⟩] { hq with } rfl hperm
      (forall_mem_put hq.kept fun hne => ⟨hne, (group_inv hq id).setBucket o queue⟩)

lemma evictAt_eq (q : DatagramQueue) (id : SendGroupId) (o : SendOrder) :
    q.evictAt id o =
      ((q.group id).popFront o).map fun p => (p.1, q.finishRemoval id p.2 p.1) := by
  unfold evictAt group
  cases q.groups.get? id with
  | none => rfl
  | some g =>
    dsimp only [Option.getD_some]
    cases g.popFront o <;> rfl

lemma evictAt_eq_none_iff : q.evictAt id o = none ↔ q.bucket id o = [] := by
  rw [evictAt_eq, Option.map_eq_none_iff]
  exact popFront_eq_none_iff

lemma evictAt_eq_some (h : q.evictAt id o = some (d, q')) :
    ∃ queue, q.bucket id o = d :: queue ∧
      q' = q.finishRemoval id ((q.group id).setBucket o queue) d := by
  rw [evictAt_eq] at h
  obtain ⟨⟨d', g'⟩, hpop, heq⟩ := Option.map_eq_some_iff.mp h
  cases heq
  obtain ⟨queue, hbucket, rfl⟩ := popFront_eq_some_iff.mp hpop
  exact ⟨queue, hbucket, rfl⟩

/-- The datagrams that expire. -/
def expiring (q : DatagramQueue) (now maxAge : ℕ) : List Entry :=
  q.groups.gather fun id g => (g.expiring now maxAge).map fun e => ⟨id, e.1, e.2⟩

lemma length_expiring (q : DatagramQueue) (now maxAge : ℕ) :
    (q.groups.entries.map fun e => (e.2.expireOld now maxAge).2.1).sum =
      (q.expiring now maxAge).length := by
  unfold expiring gather
  rw [length_flatMap]
  refine congrArg List.sum (map_congr_left fun e _ => ?_)
  rw [count_expireOld, length_map]

lemma charges_expiring (q : DatagramQueue) (now maxAge : ℕ) :
    (q.groups.entries.map fun e => (e.2.expireOld now maxAge).2.2).sum =
      charges (q.expiring now maxAge) := by
  unfold expiring charges gather
  rw [map_flatMap, flatMap_def, sum_flatten, map_map]
  refine congrArg List.sum (map_congr_left fun e _ => ?_)
  rw [freed_expireOld, Function.comp_apply, map_map]
  rfl

lemma expire_eq (q : DatagramQueue) (now defaultMaxAge : ℕ) :
    q.expire now defaultMaxAge =
      let gone := q.expiring now (q.effectiveMaxAge defaultMaxAge)
      let groups := q.groups.update
        (fun g => (g.expireOld now (q.effectiveMaxAge defaultMaxAge)).1) fun g => !g.isEmpty
      ({ DatagramQueue.account { q with groups := groups } gone.length (charges gone) with
          expired := q.expired + gone.length }, gone.length) := by
  unfold expire
  dsimp only
  rw [length_expiring, charges_expiring]
  rfl

lemma bucket_expire (q : DatagramQueue) (now defaultMaxAge : ℕ) (id : SendGroupId) (o : SendOrder) :
    (q.expire now defaultMaxAge).1.bucket id o = (q.bucket id o).drop
      (GroupQueue.cut now (q.effectiveMaxAge defaultMaxAge) (q.bucket id o)) := by
  rw [expire_eq]
  generalize q.effectiveMaxAge defaultMaxAge = maxAge
  have hgroup : ((q.groups.update (fun g => (g.expireOld now maxAge).1) fun g => !g.isEmpty).get?
      id).getD {} = ((q.group id).expireOld now maxAge).1 :=
    getD_update rfl fun g h => eq_of_isEmpty g (by simpa using h)
  show GroupQueue.bucket (((q.groups.update _ _).get? id).getD {}) o = _
  rw [hgroup]
  exact bucket_expireOld ..

lemma Sheds.expire (hq : q.Inv) (now defaultMaxAge : ℕ) :
    Sheds q (q.expire now defaultMaxAge).1
      (q.expiring now (q.effectiveMaxAge defaultMaxAge)) := by
  have hsuffix (id : SendGroupId) (o : SendOrder) :
      (q.expire now defaultMaxAge).1.bucket id o <:+ q.bucket id o := by
    rw [bucket_expire]
    exact drop_suffix _ _
  rw [expire_eq] at hsuffix ⊢
  generalize q.effectiveMaxAge defaultMaxAge = maxAge at hsuffix ⊢
  have hperm : q.entries.Perm (q.expiring now maxAge ++ DatagramQueue.entries
      { q with
        groups := q.groups.update (fun g => (g.expireOld now maxAge).1) fun g => !g.isEmpty }) := by
    refine gather_perm_update (fun id g _ => ?_) fun id g _ hempty => ?_
    · unfold groupEntries
      rw [← map_append]
      exact (entries_expireOld g now maxAge).map _
    · have hg : (g.expireOld now maxAge).1 = {} := eq_of_isEmpty _ (by simpa using hempty)
      rw [hg, groupEntries_empty]
  have hinv := account_inv (q.expiring now maxAge) hq rfl hperm fun id g hmem => by
    obtain ⟨g, -, rfl, hne⟩ := mem_update.mp hmem
    exact ⟨by simpa using hne, GroupQueue.Inv.expireOld g now maxAge⟩
  exact ⟨hperm, hsuffix, { hinv with }, rfl, rfl, rfl, rfl⟩

/-! #### Sending -/

lemma nextGroupId_mem (h : q.nextGroupId = some id) : ∃ g, q.groups.Mem id g := by
  obtain ⟨e, he, rfl⟩ := Option.map_eq_some_iff.mp h
  rcases Option.or_eq_some_iff.mp he with he | ⟨-, he⟩
  · exact ⟨e.2, (mem_rangeFrom.mp (mem_of_head? he)).1⟩
  · exact ⟨e.2, first?_mem he⟩

lemma takeNext_eq (q : DatagramQueue) :
    q.takeNext = q.nextGroupId.bind fun id => (q.group id).popHighest.map fun p =>
      (p.2.1, { q with rrNext := id.next }.finishRemoval id p.2.2 p.2.1) := by
  unfold takeNext group
  cases q.nextGroupId with
  | none => rfl
  | some id =>
    dsimp only [Option.bind_some]
    cases q.groups.get? id with
    | none => rfl
    | some g =>
      dsimp only [Option.getD_some]
      cases g.popHighest <;> rfl

/-- What is sent next: the first datagram of the highest bucket of the group whose turn it is. -/
lemma takeNext_eq_some (h : q.takeNext = some (d, q')) :
    ∃ id o queue, q.nextGroupId = some id ∧ q.bucket id o = d :: queue ∧
      (∀ e ∈ (q.group id).entries, e.1 ≤ o) ∧
      q' = { q with rrNext := id.next }.finishRemoval id ((q.group id).setBucket o queue) d := by
  rw [takeNext_eq] at h
  obtain ⟨id, hnext, h⟩ := Option.bind_eq_some_iff.mp h
  obtain ⟨⟨o, d', g'⟩, hpop, heq⟩ := Option.map_eq_some_iff.mp h
  cases heq
  obtain ⟨⟨queue, hbucket, rfl⟩, hmax⟩ := popHighest_eq_some hpop
  exact ⟨id, o, queue, hnext, hbucket, hmax, rfl⟩

/-- A queue with a datagram has a next one, and its length is what a look at the queue shows. -/
lemma exists_takeNext (hq : q.Inv) (hne : q.entries ≠ []) :
    ∃ d q', q.takeNext = some (d, q') ∧ q.peekNextLen = some d.data.bytes.length := by
  have hnext : ∃ id, q.nextGroupId = some id := by
    unfold nextGroupId first?
    unfold entries gather at hne
    cases hl : q.groups.entries with
    | nil =>
      rw [hl] at hne
      exact absurd rfl hne
    | cons e =>
      cases (q.groups.rangeFrom q.rrNext).head? with
      | none => exact ⟨e.1, rfl⟩
      | some e' => exact ⟨e'.1, rfl⟩
  obtain ⟨id, hnext⟩ := hnext
  obtain ⟨g, hmem⟩ := nextGroupId_mem hnext
  obtain ⟨o, d, g', hpop, queue, hlast⟩ :=
    exists_popHighest (hq.kept id g hmem).2 (hq.kept id g hmem).1
  have hget := get?_eq_some_iff.mpr hmem
  unfold takeNext peekNextLen
  simp only [hnext, hget, hpop, hlast]
  exact ⟨d, _, rfl, rfl⟩

/-! #### Making space -/

lemma lowestPriorityKey_eq_none (hq : q.Inv) (h : q.lowestPriorityKey = none) : q.entries = [] := by
  unfold lowestPriorityKey at h
  rw [List.min?_eq_none_iff, filterMap_eq_nil_iff] at h
  unfold entries gather
  cases hl : q.groups.entries with
  | nil => rfl
  | cons e =>
    have hmem : e ∈ q.groups.entries := by rw [hl]; exact mem_cons_self ..
    obtain ⟨o, ho⟩ := lowestOrder_isSome (hq.kept e.1 e.2 hmem).1
    have hnone := h e hmem
    rw [ho] at hnone
    cases hnone

lemma lowestPriorityKey_eq_some (hq : q.Inv) {victim : SendOrder ×ₗ SendGroupId}
    (h : q.lowestPriorityKey = some victim) :
    q.bucket (ofLex victim).2 (ofLex victim).1 ≠ [] ∧
      ∀ e ∈ q.entries, (ofLex victim).1 ≤ e.order := by
  obtain ⟨hmem, hmin⟩ := List.min?_eq_some_iff.mp h
  constructor
  · obtain ⟨e, he, hvictim⟩ := mem_filterMap.mp hmem
    obtain ⟨o, ho, rfl⟩ := Option.map_eq_some_iff.mp hvictim
    have hget : q.groups.get? e.1 = some e.2 := get?_eq_some_iff.mpr he
    show GroupQueue.bucket ((q.groups.get? e.1).getD {}) o ≠ []
    rw [hget]
    exact (lowestOrder_spec (hq.kept e.1 e.2 he).2 ho).1
  · intro e he
    obtain ⟨id, g, hg, he⟩ := mem_gather.mp he
    obtain ⟨e', he', rfl⟩ := mem_map.mp he
    obtain ⟨o, ho⟩ := lowestOrder_isSome (hq.kept id g hg).1
    have hle := hmin (toLex (o, id)) (mem_filterMap.mpr ⟨(id, g), hg, by rw [ho]; rfl⟩)
    have hfirst : (ofLex victim).1 ≤ o := Prod.Lex.monotone_fst _ _ hle
    exact hfirst.trans ((lowestOrder_spec (hq.kept id g hg).2 ho).2 e' he')

/-- Datagrams were evicted: apart from that, nothing has changed. -/
structure Evicts (q q' : DatagramQueue) (gone : List Entry) : Prop extends Sheds q q' gone where
  rrNext : q'.rrNext = q.rrNext
  maxBufferedDatagrams : q'.maxBufferedDatagrams = q.maxBufferedDatagrams
  maxAge : q'.maxAge = q.maxAge
  expired : q'.expired = q.expired

lemma Evicts.refl (h : q.Inv) : Evicts q q [] := ⟨Sheds.refl h, rfl, rfl, rfl, rfl⟩

lemma Evicts.trans (h : Evicts q q' gone) (h' : Evicts q' q'' gone') :
    Evicts q q'' (gone ++ gone') where
  toSheds := h.toSheds.trans h'.toSheds
  rrNext := h'.rrNext.trans h.rrNext
  maxBufferedDatagrams := h'.maxBufferedDatagrams.trans h.maxBufferedDatagrams
  maxAge := h'.maxAge.trans h.maxAge
  expired := h'.expired.trans h.expired

lemma Evicts.evictAt (hq : q.Inv) (h : q.evictAt id o = some (d, q')) :
    Evicts q q' [⟨id, o, d⟩] := by
  obtain ⟨queue, hbucket, rfl⟩ := evictAt_eq_some h
  exact ⟨Sheds.finishRemoval hq hbucket q.rrNext, rfl, rfl, rfl, rfl⟩

/-- Datagrams are evicted one by one to make space for one of send order `o`. Each is the oldest of
its bucket, and no send order is lower than its own. -/
inductive Evictions (o : SendOrder) : DatagramQueue → List Entry → DatagramQueue → Prop
  | nil (q : DatagramQueue) : Evictions o q [] q
  | cons {q q' r : DatagramQueue} {e : Entry} {gone : List Entry} (le : e.order ≤ o)
      (lowest : ∀ e' ∈ q.entries, e.order ≤ e'.order)
      (oldest : (q.bucket e.group e.order).head? = some e.dgram)
      (evict : q.evictAt e.group e.order = some (e.dgram, q')) (rest : Evictions o q' gone r) :
      Evictions o q (e :: gone) r

lemma Evictions.append (h : Evictions o q gone q') (h' : Evictions o q' gone' q'') :
    Evictions o q (gone ++ gone') q'' := by
  induction h with
  | nil => exact h'
  | cons le lowest oldest evict _ ih => exact .cons le lowest oldest evict (ih h')

lemma Evictions.evicts (h : Evictions o q gone q') (hq : q.Inv) : Evicts q q' gone := by
  induction h with
  | nil => exact Evicts.refl hq
  | cons _ _ _ evict _ ih =>
    have hstep := Evicts.evictAt hq evict
    exact hstep.trans (ih hstep.inv)

/-- Nothing that is left has a lower priority than what was evicted. -/
lemma Evictions.rank (h : Evictions o q gone q') (hq : q.Inv) :
    ∀ e ∈ gone, ∀ e' ∈ q'.entries, e.order ≤ e'.order := by
  induction h with
  | nil => exact nofun
  | cons le lowest oldest evict rest ih =>
    have hstep := Evicts.evictAt hq evict
    refine forall_mem_cons.mpr ⟨fun e' he' => lowest e' ?_, ih hstep.inv⟩
    exact (hstep.trans (rest.evicts hstep.inv)).perm.mem_iff.mpr (mem_append_right _ he')

/-- Draining the bucket with the lowest priority stops when the charge fits or the bucket is
empty. -/
lemma drainBucket_spec (newCharge : ℕ) (id : SendGroupId) {o o' : SendOrder} (hle : o' ≤ o)
    {fuel : ℕ}
    (hq : q.Inv) (hlowest : ∀ e ∈ q.entries, o' ≤ e.order) (evicted : List QueuedDatagram)
    (hfuel : q.entries.length < fuel) :
    ∃ r gone, drainBucket newCharge id o' fuel q evicted = (r, evicted ++ gone.map Entry.dgram) ∧
      Evictions o q gone r ∧ (q.bucket id o' ≠ [] → gone ≠ []) := by
  induction fuel generalizing q evicted with
  | zero => omega
  | succ fuel ih =>
    unfold drainBucket
    cases hevict : q.evictAt id o' with
    | none =>
      exact ⟨q, [], by simp, .nil q, fun h => absurd (evictAt_eq_none_iff.mp hevict) h⟩
    | some p =>
      obtain ⟨d, q'⟩ := p
      have hstep := Evicts.evictAt hq hevict
      have hlength := hstep.perm.length_eq
      have holdest : (q.bucket id o').head? = some d := by
        obtain ⟨queue, hbucket, -⟩ := evictAt_eq_some hevict
        rw [hbucket]
        rfl
      have hcons {gone : List Entry} {r : DatagramQueue} (h : Evictions o q' gone r) :
          Evictions o q (⟨id, o', d⟩ :: gone) r := .cons hle hlowest holdest hevict h
      dsimp only
      split_ifs with hfits
      · exact ⟨q', [⟨id, o', d⟩], rfl, hcons (.nil q'), by simp⟩
      · obtain ⟨r, gone, heq, hrun, -⟩ := ih hstep.inv
          (fun e he => hlowest e (hstep.perm.mem_iff.mpr (mem_append_right _ he)))
          (evicted ++ [d]) (by simp at hlength; omega)
        refine ⟨r, ⟨id, o', d⟩ :: gone, ?_, hcons hrun, by simp⟩
        rw [heq, append_assoc]
        rfl

/-- Eviction stops when the charge fits, or when everything that is left outranks the send order. -/
def EvictsFor (q : DatagramQueue) (newCharge : ℕ) (sendOrder : SendOrder) (r : DatagramQueue)
    (gone : List Entry) (outranked : Bool) : Prop :=
  Evictions sendOrder q gone r ∧
    (r.totalBytes + newCharge ≤ r.maxQueuedBytes ∧ outranked = false ∨
      r.totalBytes + newCharge > r.maxQueuedBytes ∧
        (∀ e ∈ r.entries, sendOrder < e.order) ∧ outranked = !r.entries.isEmpty)

lemma evict_spec {newCharge fuel : ℕ} {sendOrder : SendOrder} (hq : q.Inv)
    (evicted : List QueuedDatagram) (hfuel : q.entries.length < fuel) :
    ∃ r gone outranked, evict newCharge sendOrder fuel q evicted =
        (r, evicted ++ gone.map Entry.dgram, outranked) ∧
      EvictsFor q newCharge sendOrder r gone outranked := by
  induction fuel generalizing q evicted with
  | zero => omega
  | succ fuel ih =>
    unfold evict
    split_ifs with hover
    · cases hkey : q.lowestPriorityKey with
      | none =>
        have hempty := lowestPriorityKey_eq_none hq hkey
        refine ⟨q, [], false, by simp, .nil q, .inr ⟨hover, ?_, ?_⟩⟩
        · simp [hempty]
        · rw [hempty]
          rfl
      | some victim =>
        obtain ⟨hbucket, hlowest⟩ := lowestPriorityKey_eq_some hq hkey
        dsimp only
        split_ifs with hrank
        · refine ⟨q, [], true, by simp, .nil q, .inr ⟨hover, ?_, ?_⟩⟩
          · exact fun e he => hrank.trans_le (hlowest e he)
          · cases hentries : q.entries with
            | nil =>
              obtain ⟨d, hd⟩ := exists_mem_of_ne_nil _ hbucket
              have hmem := (mem_entries_iff (e := ⟨_, _, d⟩)).mpr hd
              rw [hentries] at hmem
              exact absurd hmem not_mem_nil
            | cons => rfl
        · obtain ⟨q', gone, heq, hdrain, hsome⟩ := drainBucket_spec newCharge (ofLex victim).2
            (not_lt.mp hrank) hq hlowest evicted (Nat.lt_succ_of_le (length_datagrams q).ge)
          have hpos := length_pos_iff.mpr (hsome hbucket)
          have hevicts := hdrain.evicts hq
          have hlength := hevicts.perm.length_eq
          rw [length_append] at hlength
          obtain ⟨r, gone', outranked, heq', hrest, hstop⟩ :=
            ih hevicts.inv (evicted ++ gone.map Entry.dgram) (by omega)
          refine ⟨r, gone ++ gone', outranked, ?_, hdrain.append hrest, hstop⟩
          rw [heq, map_append, ← append_assoc]
          exact heq'
    · exact ⟨q, [], false, by simp, .nil q, .inl ⟨Nat.le_of_not_lt hover, rfl⟩⟩

lemma makeSpace_spec (hq : q.Inv) (newCharge : ℕ) (sendOrder : SendOrder) :
    ∃ r gone outranked, q.makeSpace newCharge sendOrder = (r, gone.map Entry.dgram, outranked) ∧
      EvictsFor q newCharge sendOrder r gone outranked :=
  evict_spec hq [] (Nat.lt_succ_of_le (length_datagrams q).ge)

/-! #### Queueing -/

lemma Inv.push (hq : q.Inv) (d : QueuedDatagram) (id : SendGroupId) (o : SendOrder) :
    (q.push d id o).Inv := by
  have hperm := entries_queue_push q d id o
  have hginv : ((q.group id).push o d).Inv := by
    rw [push_eq]
    exact (group_inv hq id).setBucket o _
  refine ⟨?_, ?_, ?_, hq.underflow⟩
  · rw [push_groups]
    exact forall_mem_put hq.kept fun hne => ⟨hne, hginv⟩
  · rw [hperm.length_eq, length_cons, ← hq.count]
    rfl
  · rw [charges_perm hperm, charges_cons, ← hq.bytes, add_comm]
    rfl

lemma bucket_push (q : DatagramQueue) (d : QueuedDatagram) (id id' : SendGroupId)
    (o o' : SendOrder) :
    (q.push d id o).bucket id' o' =
      if id' = id ∧ o' = o then q.bucket id o ++ [d] else q.bucket id' o' := by
  rw [bucket_put id id' _ o' (push_groups q d id o), push_eq, bucket_setBucket]
  by_cases hid : id' = id
  · simp only [hid, if_true, true_and]
    rfl
  · rw [if_neg hid, if_neg fun h => hid h.1]

/-- What queueing a datagram can do. -/
inductive Enqueued (q : DatagramQueue) (d : QueuedDatagram) (id : SendGroupId) (o : SendOrder) :
    DatagramQueue × DatagramQueueOutcome → Prop
  /-- It is refused, as there is no space and everything queued outranks it. -/
  | rejected (exceeds : q.maxQueuedBytes < q.totalBytes + d.charge) (ne : q.entries ≠ [])
      (rank : ∀ e ∈ q.entries, o < e.order) : Enqueued q d id o (q.blockOn d.charge, .rejected)
  /-- It is admitted, after evictions. If there still is not enough space all that is left outranks
  it. -/
  | admitted {r : DatagramQueue} {gone : List Entry} {blocked : Option ℕ}
      {outcome : DatagramQueueOutcome} (evicts : Evicts q r gone) (evictions : Evictions o q gone r)
      (space : r.totalBytes + d.charge ≤ r.maxQueuedBytes ∨
        (∀ e ∈ r.entries, o < e.order) ∧ (gone = [] → r.entries = []))
      (evicted : (q.makeSpace d.charge o).2.1 = gone.map Entry.dgram)
      (signal : outcome = .ok ∧ gone = [] ∧ blocked = q.blocked ∨
        (outcome = .maxBufferedReached ∧ gone = [] ∨ outcome = .overflowed gone.length ∧
          gone ≠ []) ∧ blocked = (q.blockOn anyProgress).blocked) (ne : outcome ≠ .rejected) :
      Enqueued q d id o ({ r.push d id o with blocked := blocked }, outcome)

/-- **Queueing a datagram** refuses it or, after evictions, appends it to its bucket. -/
theorem enqueue_cases (hq : q.Inv) (data : ByteVec) (did : Option DatagramId) (now : ℕ)
    (id : SendGroupId) (o : SendOrder) :
    Enqueued q ⟨data, did, now⟩ id o (q.enqueue data did now id o) := by
  obtain ⟨r, gone, outranked, heq, hevictions, hstop⟩ := makeSpace_spec hq (charge data.capacity) o
  have hevicts := hevictions.evicts hq
  have hgone : (q.makeSpace (charge data.capacity) o).2.1 = gone.map Entry.dgram :=
    congrArg (fun p => p.2.1) heq
  have hspace (hadmitted : ¬(outranked = true ∧ gone.length = 0)) :
      r.totalBytes + charge data.capacity ≤ r.maxQueuedBytes ∨
        (∀ e ∈ r.entries, o < e.order) ∧ (gone = [] → r.entries = []) := by
    rcases hstop with ⟨hspace, -⟩ | ⟨-, houtranks, hempty⟩
    · exact .inl hspace
    · refine .inr ⟨houtranks, fun hnil => ?_⟩
      have hfalse : outranked = false :=
        Bool.eq_false_iff.mpr fun h => hadmitted ⟨h, by rw [hnil]; rfl⟩
      rw [hfalse] at hempty
      exact isEmpty_iff.mp (by simpa using hempty.symm)
  -- The signal that is armed if the datagram was admitted.
  have hsignal (d : QueuedDatagram) : ((r.push d id o).blockOn anyProgress).blocked =
      (q.blockOn anyProgress).blocked := by
    show some (Option.elim r.blocked _ _) = _
    rw [hevicts.blocked]
    rfl
  unfold enqueue
  dsimp only
  rw [heq]
  rw [length_map]
  split_ifs with hrejected hoverflowed hok
  · -- Nothing was evicted, as everything outranks the datagram.
    obtain ⟨rfl, hlength⟩ := hrejected
    cases length_eq_zero_iff.mp hlength
    cases hevictions
    rcases hstop with ⟨-, hfalse⟩ | ⟨hover, houtranks, hne⟩
    · cases hfalse
    · refine Enqueued.rejected hover (fun hnil => ?_) houtranks
      rw [hnil] at hne
      cases hne
  · exact Enqueued.admitted hevicts hevictions (hspace hrejected) hgone
      (.inr ⟨.inr ⟨rfl, length_pos_iff.mp hoverflowed⟩, hsignal _⟩) nofun
  · have hnil := length_eq_zero_iff.mp (Nat.eq_zero_of_not_pos hoverflowed)
    exact Enqueued.admitted hevicts hevictions (hspace hrejected) hgone
      (.inl ⟨rfl, hnil, hevicts.blocked⟩) nofun
  · have hnil := length_eq_zero_iff.mp (Nat.eq_zero_of_not_pos hoverflowed)
    exact Enqueued.admitted hevicts hevictions (hspace hrejected) hgone
      (.inr ⟨.inl ⟨rfl, hnil⟩, hsignal _⟩) nofun

lemma Inv.enqueued {d : QueuedDatagram} {p : DatagramQueue × DatagramQueueOutcome} (hq : q.Inv)
    (h : Enqueued q d id o p) : p.1.Inv := by
  cases h with
  | rejected => exact { hq with }
  | admitted hevicts => exact { hevicts.inv.push d id o with }

end DatagramQueue

end Neqo
