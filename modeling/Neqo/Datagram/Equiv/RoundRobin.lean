import Neqo.Datagram.Equiv.Run

/-!
# The groups take turns

The turn is a group ID, not a position, and IDs wrap around. `ahead` says how far ahead of the turn
an ID is. The group least far ahead is served (`nextGroupId_least`), and the turn moves just past
it. Then it is as far ahead as possible, so a group that waits is closer; this remains so as long
as it waits, whatever other groups appear and vanish (`Before.served`).

In its group, a datagram of the highest send order is sent, and of those the one that was queued
first: each bucket is the end of what was admitted to it (`bucket_suffix`).
-/

namespace Neqo.DatagramQueue

open List Option OrdMap

variable {q q' : DatagramQueue} {g g' : SendGroupId} {op : Op}

/-! ### The distance from the turn -/

/-- How far an ID is ahead of another one, as 64-bit numbers wrap. -/
def ahead (c g : SendGroupId) : ℕ :=
  if c.asU64 ≤ g.asU64 then g.asU64 - c.asU64 else g.asU64 + 2 ^ 64 - c.asU64

/-- The first ID is served before the second one: it is less far ahead of the turn. -/
def Before (c g' g : SendGroupId) : Prop := ahead c g' < ahead c g

lemma asU64_next_lt (g : SendGroupId) : g.next.asU64 < 2 ^ 64 := Nat.mod_lt _ (by decide)

/-- Just after its turn, every other group is before a group. -/
lemma Before.next (hg : g.asU64 < 2 ^ 64) (hg' : g'.asU64 < 2 ^ 64) (hne : g' ≠ g) :
    Before g.next g' g := by
  have hne' : g'.asU64 ≠ g.asU64 := fun h => hne (by cases g; cases g'; simp_all)
  unfold Before ahead SendGroupId.next
  dsimp only
  split_ifs <;> omega

/-- Serving a group that is less far ahead than both does not change which of two is first. -/
lemma Before.served {c s : SendGroupId} (h : Before c g' g) (hc : c.asU64 < 2 ^ 64)
    (hg : g.asU64 < 2 ^ 64) (hg' : g'.asU64 < 2 ^ 64) (hs : s.asU64 < 2 ^ 64)
    (hleast : ahead c s ≤ ahead c g') (hne : s ≠ g') : Before s.next g' g := by
  have hne' : s.asU64 ≠ g'.asU64 := fun h => hne (by cases s; cases g'; simp_all)
  unfold Before ahead SendGroupId.next at *
  dsimp only
  split_ifs at * <;> omega

/-! ### The group that is served -/

/-- Something is queued in a group. -/
def HasGroup (q : DatagramQueue) (g : SendGroupId) : Prop := ∃ e ∈ q.entries, e.group = g

lemma HasGroup.mem (h : q.HasGroup g) : ∃ gq, q.groups.Mem g gq := by
  obtain ⟨e, he, rfl⟩ := h
  obtain ⟨id, gq, hmem, he⟩ := mem_gather.mp he
  obtain ⟨_, -, rfl⟩ := mem_map.mp he
  exact ⟨gq, hmem⟩

lemma hasGroup_of_mem (hq : q.Inv) {gq : GroupQueue} (h : q.groups.Mem g gq) : q.HasGroup g := by
  have hne := GroupQueue.entries_ne_nil (hq.kept g gq h).2 (hq.kept g gq h).1
  obtain ⟨e, he⟩ := exists_mem_of_ne_nil _ hne
  exact ⟨⟨g, e.1, e.2⟩, mem_gather.mpr ⟨g, gq, h, mem_map.mpr ⟨e, he, rfl⟩⟩, rfl⟩

/-- The group IDs are 64-bit numbers. -/
structure Ids (q : DatagramQueue) : Prop where
  rrNext : q.rrNext.asU64 < 2 ^ 64
  group : ∀ e ∈ q.entries, e.group.asU64 < 2 ^ 64

lemma HasGroup.lt (h : q.HasGroup g) (hids : q.Ids) : g.asU64 < 2 ^ 64 := by
  obtain ⟨e, he, rfl⟩ := h
  exact hids.group e he

lemma nextGroupId_hasGroup (hq : q.Inv) (h : q.nextGroupId = some g) : q.HasGroup g := by
  obtain ⟨gq, hmem⟩ := nextGroupId_mem h
  exact hasGroup_of_mem hq hmem

/-- The group that is served is the one that is least far ahead of the turn. -/
lemma nextGroupId_least (hq : q.Inv) (hids : q.Ids) (h : q.nextGroupId = some g)
    (hg' : q.HasGroup g') : ahead q.rrNext g ≤ ahead q.rrNext g' := by
  have hglt := (nextGroupId_hasGroup hq h).lt hids
  obtain ⟨gq', hmem'⟩ := hg'.mem
  obtain ⟨e, he, rfl⟩ := map_eq_some_iff.mp h
  rcases or_eq_some_iff.mp he with he | ⟨hnone, he⟩
  · -- The first group at or after the turn.
    have hle : q.rrNext ≤ e.1 := (mem_rangeFrom.mp (mem_of_head? he)).2
    have hle : q.rrNext.asU64 ≤ e.1.asU64 := hle
    unfold ahead
    rw [if_pos hle]
    by_cases hturn : q.rrNext.asU64 ≤ g'.asU64
    · have hfirst : e.1 ≤ g' := head?_le (q.groups.rangeFrom_sorted q.rrNext) he
        (mem_rangeFrom.mpr ⟨hmem', hturn⟩ : (g', gq') ∈ _)
      have hfirst : e.1.asU64 ≤ g'.asU64 := hfirst
      rw [if_pos hturn]
      omega
    · rw [if_neg hturn]
      omega
  · -- There is none, and it is the first group's turn.
    have hbelow {id : SendGroupId} {gq : GroupQueue} (hmem : q.groups.Mem id gq) :
        ¬ q.rrNext.asU64 ≤ id.asU64 := by
      intro hle
      have hin : (id, gq) ∈ q.groups.rangeFrom q.rrNext := mem_rangeFrom.mpr ⟨hmem, hle⟩
      rw [List.head?_eq_none_iff.mp hnone] at hin
      exact not_mem_nil hin
    have hfirst : e.1 ≤ g' := first?_le he hmem'
    have hfirst : e.1.asU64 ≤ g'.asU64 := hfirst
    unfold ahead
    rw [if_neg (hbelow (first?_mem he)), if_neg (hbelow hmem')]
    omega

lemma takeNext_eq_none_iff (hq : q.Inv) : q.takeNext = none ↔ q.entries = [] := by
  constructor
  · intro h
    by_contra hne
    obtain ⟨d, q', htake, -⟩ := exists_takeNext hq hne
    rw [h] at htake
    cases htake
  · intro h
    cases htake : q.takeNext with
    | none => rfl
    | some =>
      obtain ⟨e, -, hsheds⟩ := Sheds.takeNext hq htake
      have hperm := hsheds.perm
      rw [h] at hperm
      exact absurd hperm.nil_eq (by simp)

/-! ### Runs -/

/-- The group IDs that are passed to an operation are 64-bit numbers. -/
def Op.Typed : Op → Prop
  | .enqueue _ _ _ id _ => id.asU64 < 2 ^ 64
  | _ => True

instance : DecidablePred Op.Typed := fun op => by
  cases op <;> unfold Op.Typed <;> infer_instance

/-- The group from which an operation takes a datagram. -/
def served (q : DatagramQueue) : Op → Option SendGroupId
  | .takeNext => q.takeNext.bind fun _ => q.nextGroupId
  | _ => none

/-- The groups from which operations take datagrams. -/
def servedBy : DatagramQueue → List Op → List SendGroupId
  | _, [] => []
  | q, op :: ops => (q.served op).toList ++ servedBy (q.step op) ops

/-- Something is queued in a group before and after each of some operations. -/
def AlwaysHas (g : SendGroupId) : DatagramQueue → List Op → Prop
  | q, [] => q.HasGroup g
  | q, op :: ops => q.HasGroup g ∧ AlwaysHas g (q.step op) ops

variable {ops : List Op}

lemma AlwaysHas.first (h : AlwaysHas g q ops) : q.HasGroup g := by
  cases ops with
  | nil => exact h
  | cons => exact h.1

lemma rrNext_step (hq : q.Inv) (op : Op) :
    (q.served op = none ∧ (q.step op).rrNext = q.rrNext) ∨
      ∃ g, q.served op = some g ∧ q.nextGroupId = some g ∧ (q.step op).rrNext = g.next := by
  cases op with
  | takeNext =>
    unfold served step
    cases htake : q.takeNext with
    | none => exact .inl ⟨rfl, rfl⟩
    | some =>
      obtain ⟨g, _, _, hnext, -, -, heq⟩ := takeNext_eq_some htake
      exact .inr ⟨g, hnext, hnext, congrArg rrNext heq⟩
  | enqueue data did now id o =>
    refine .inl ⟨rfl, ?_⟩
    have hcases := enqueue_cases hq data did now id o
    show (q.enqueue data did now id o).1.rrNext = q.rrNext
    generalize q.enqueue data did now id o = p at hcases ⊢
    cases hcases with
    | rejected => rfl
    | admitted hevicts => exact hevicts.rrNext
  | expire | setMaxAge | setMaxBufferedDatagrams => exact .inl ⟨rfl, rfl⟩
  | resumeIfUnblocked =>
    refine .inl ⟨rfl, ?_⟩
    show q.resumeIfUnblocked.2.rrNext = q.rrNext
    rcases resumeIfUnblocked_cases q with h | ⟨_, -, -, h⟩
    · rw [h]
    · rw [h]

lemma Ids.step (hids : q.Ids) (hq : q.Inv) (hop : op.Typed) : (q.step op).Ids := by
  constructor
  · rcases rrNext_step hq op with ⟨-, hturn⟩ | ⟨s, -, -, hturn⟩
    · rw [hturn]
      exact hids.rrNext
    · rw [hturn]
      exact asU64_next_lt s
  · have hstep := step_cases hq op
    generalize q.step op = q' at hstep ⊢
    intro e he
    cases hstep with
    | @enqueue data did now id o p h =>
      cases h with
      | rejected => exact hids.group e he
      | @admitted r gone _ _ hevicts =>
        have hperm := entries_queue_push r ⟨data, did, now⟩ id o
        rcases mem_cons.mp (hperm.mem_iff.mp he) with rfl | he
        · exact hop
        · exact hids.group e (hevicts.perm.mem_iff.mpr (mem_append_right _ he))
    | shed h => exact hids.group e (h.perm.mem_iff.mpr (mem_append_right _ he))
    | same h => exact hids.group e (h.entries ▸ he)

lemma Ids.foldl (hids : q.Ids) (hq : q.Inv) (hops : ∀ op ∈ ops, op.Typed) :
    (ops.foldl DatagramQueue.step q).Ids :=
  (List.foldlRecOn (motive := fun q => Inv q ∧ Ids q) ops _ ⟨hq, hids⟩
    fun _ h op hop => ⟨h.1.step op, h.2.step h.1 (hops op hop)⟩).2

variable (maxQueuedBytes : ℕ)

lemma Ids.new : DatagramQueue.Ids { maxQueuedBytes := maxQueuedBytes } :=
  ⟨Nat.two_pow_pos 64, nofun⟩

lemma Before.foldl (h : Before q.rrNext g' g) (hq : q.Inv) (hids : q.Ids) (hg : g.asU64 < 2 ^ 64)
    (hops : ∀ op ∈ ops, op.Typed) (hwaits : AlwaysHas g' q ops) (hserved : g' ∉ servedBy q ops) :
    Before (ops.foldl step q).rrNext g' g ∧ (ops.foldl step q).HasGroup g' := by
  induction ops generalizing q with
  | nil => exact ⟨h, hwaits⟩
  | cons op ops ih =>
    unfold servedBy at hserved
    rw [mem_append, not_or] at hserved
    refine ih ?_ (hq.step op) (hids.step hq (hops op (mem_cons_self ..)))
      (fun op' hop' => hops op' (mem_cons_of_mem _ hop')) hwaits.2 hserved.2
    rcases rrNext_step hq op with ⟨-, hturn⟩ | ⟨s, hs, hnext, hturn⟩
    · rw [hturn]
      exact h
    · -- Another group is served, which is not further ahead than the one that waits.
      have hne : s ≠ g' := by
        rintro rfl
        exact hserved.1 (by rw [hs]; exact mem_singleton_self s)
      rw [hturn]
      exact h.served hids.rrNext hg (hwaits.1.lt hids) ((nextGroupId_hasGroup hq hnext).lt hids)
        (nextGroupId_least hq hids hnext hwaits.1) hne

/-- Between two turns of a group, each group that waits is served. -/
lemma mem_servedBy (hq : q.Inv) (hids : q.Ids) (hops : ∀ op ∈ ops, op.Typed)
    (hfirst : q.served .takeNext = some g)
    (hlast : (ops.foldl step (q.step .takeNext)).served .takeNext = some g) (hne : g' ≠ g)
    (hwaits : AlwaysHas g' (q.step .takeNext) ops) : g' ∈ servedBy (q.step .takeNext) ops := by
  have hq' := hq.step .takeNext
  have hids' : (q.step .takeNext).Ids := hids.step hq trivial
  rcases rrNext_step hq .takeNext with ⟨hnone, -⟩ | ⟨s, hs, hnext, hturn⟩
  · rw [hnone] at hfirst
    cases hfirst
  · obtain rfl : s = g := some.inj (hs.symm.trans hfirst)
    have hg := (nextGroupId_hasGroup hq hnext).lt hids
    have hbefore : Before (q.step .takeNext).rrNext g' s := by
      rw [hturn]
      exact Before.next hg (hwaits.first.lt hids') hne
    by_contra hserved
    obtain ⟨hbefore, hhas⟩ := hbefore.foldl hq' hids' hg hops hwaits hserved
    have hq'' := hq'.foldl ops
    rcases rrNext_step hq'' .takeNext with ⟨hnone, -⟩ | ⟨s', hs', hnext', -⟩
    · rw [hnone] at hlast
      cases hlast
    · obtain rfl : s' = s := some.inj (hs'.symm.trans hlast)
      have hleast := nextGroupId_least hq'' (hids'.foldl hq' hops) hnext' hhas
      exact absurd hbefore (not_lt.mpr hleast)

/-! ### First in, first out -/

/-- What an operation admits to a bucket. -/
def arrival (g : SendGroupId) (o : SendOrder) (q : DatagramQueue) : Op → List QueuedDatagram
  | .enqueue data did now id o' =>
    if (q.enqueue data did now id o').2 ≠ .rejected ∧ id = g ∧ o' = o then [⟨data, did, now⟩]
      else []
  | _ => []

/-- What operations admit to a bucket, in order. -/
def arrivals (g : SendGroupId) (o : SendOrder) : DatagramQueue → List Op → List QueuedDatagram
  | _, [] => []
  | q, op :: ops => arrival g o q op ++ arrivals g o (q.step op) ops

lemma suffix_append_right {α : Type} {l l' : List α} (h : l <:+ l') (t : List α) :
    l ++ t <:+ l' ++ t := by
  obtain ⟨s, rfl⟩ := h
  exact ⟨s, by rw [append_assoc]⟩

lemma bucket_enqueue_suffix (hq : q.Inv) (data : ByteVec) (did : Option DatagramId) (now : ℕ)
    (id : SendGroupId) (o : SendOrder) (g : SendGroupId) (o' : SendOrder) :
    (q.step (.enqueue data did now id o)).bucket g o' <:+
      q.bucket g o' ++ arrival g o' q (.enqueue data did now id o) := by
  have hcases := enqueue_cases hq data did now id o
  unfold step arrival
  dsimp only
  generalize q.enqueue data did now id o = p at hcases ⊢
  cases hcases with
  | rejected =>
    rw [if_neg fun h => h.1 rfl, append_nil]
    exact suffix_refl _
  | @admitted r gone blocked outcome hevicts _ _ _ _ hadmitted =>
    show (r.push ⟨data, did, now⟩ id o).bucket g o' <:+ _
    rw [bucket_push]
    by_cases hbucket : g = id ∧ o' = o
    · obtain ⟨rfl, rfl⟩ := hbucket
      rw [if_pos ⟨rfl, rfl⟩, if_pos ⟨hadmitted, rfl, rfl⟩]
      exact suffix_append_right (hevicts.suffix _ _) _
    · rw [if_neg hbucket, if_neg fun h => hbucket ⟨h.2.1.symm, h.2.2.symm⟩, append_nil]
      exact hevicts.suffix g o'

lemma bucket_step_suffix (hq : q.Inv) (g : SendGroupId) (o : SendOrder) (op : Op) :
    (q.step op).bucket g o <:+ q.bucket g o ++ arrival g o q op := by
  cases op with
  | enqueue data did now id o' => exact bucket_enqueue_suffix hq data did now id o' g o
  | _ =>
    show _ <:+ q.bucket g o ++ []
    rw [append_nil]
    exact (step_cases hq _).suffix rfl g o

lemma bucket_suffix (hq : q.Inv) (g : SendGroupId) (o : SendOrder) (ops : List Op) :
    (ops.foldl step q).bucket g o <:+ q.bucket g o ++ arrivals g o q ops := by
  induction ops generalizing q with
  | nil =>
    rw [arrivals, append_nil]
    exact suffix_refl _
  | cons op ops ih =>
    rw [arrivals, ← append_assoc]
    exact (ih (hq.step op)).trans (suffix_append_right (bucket_step_suffix hq g o op) _)

/-- The next datagram: of the highest send order of its group, the one that was queued first. -/
lemma takeNext_oldest (ops : List Op) {d : QueuedDatagram}
    (h : (run maxQueuedBytes ops).takeNext = some (d, q')) :
    ∃ g o before after, (run maxQueuedBytes ops).nextGroupId = some g ∧
      (run maxQueuedBytes ops).bucket g o = d :: after ∧
      (∀ o', (run maxQueuedBytes ops).bucket g o' ≠ [] → o' ≤ o) ∧
      arrivals g o { maxQueuedBytes := maxQueuedBytes } ops = before ++ d :: after := by
  obtain ⟨g, o, after, hnext, hbucket, hhighest, -⟩ := takeNext_eq_some h
  obtain ⟨before, hbefore⟩ := bucket_suffix (Inv.new maxQueuedBytes) g o ops
  refine ⟨g, o, before, after, hnext, hbucket, fun o' hne => ?_, ?_⟩
  · obtain ⟨d', hd'⟩ := exists_mem_of_ne_nil _ hne
    exact hhighest (o', d') (GroupQueue.mem_entries_iff.mpr hd')
  · rw [← hbucket]
    exact hbefore.symm

lemma peekNextLen_eq (hq : q.Inv) :
    q.peekNextLen = q.takeNext.map fun p => p.1.data.bytes.length := by
  by_cases hempty : q.entries = []
  · rw [(takeNext_eq_none_iff hq).mpr hempty]
    have hnone : q.nextGroupId = none := by
      cases hnext : q.nextGroupId with
      | none => rfl
      | some =>
        obtain ⟨e, he, -⟩ := nextGroupId_hasGroup hq hnext
        rw [hempty] at he
        exact absurd he not_mem_nil
    unfold peekNextLen
    rw [hnone]
    rfl
  · obtain ⟨d, q', htake, hpeek⟩ := exists_takeNext hq hempty
    rw [htake, hpeek]
    rfl

/-- **The groups take turns, and the order within a group is kept.**  After any operations, a look
at the queue shows the length of what is taken next; that is, in its group, of the highest send
order and of those the one that was queued first. If the same group was served before, then every
other group in which something was queued all the time has been served in between. -/
theorem takeNext_fair {maxQueuedBytes : ℕ} {ops : List Op} (hops : ∀ op ∈ ops, op.Typed) :
    let q := run maxQueuedBytes ops
    q.peekNextLen = q.takeNext.map (fun p => p.1.data.bytes.length) ∧
    (∀ d q', q.takeNext = some (d, q') → ∃ g o before after, q.nextGroupId = some g ∧
      q.bucket g o = d :: after ∧ (∀ o', q.bucket g o' ≠ [] → o' ≤ o) ∧
      arrivals g o { maxQueuedBytes := maxQueuedBytes } ops = before ++ d :: after) ∧
    ∀ first between g g', ops = first ++ .takeNext :: between →
      (run maxQueuedBytes first).served .takeNext = some g → q.served .takeNext = some g → g' ≠ g →
      AlwaysHas g' (run maxQueuedBytes (first ++ [.takeNext])) between →
      g' ∈ servedBy (run maxQueuedBytes (first ++ [.takeNext])) between := by
  refine ⟨peekNextLen_eq (Inv.run maxQueuedBytes ops),
    fun d q' => takeNext_oldest maxQueuedBytes ops, ?_⟩
  rintro first between g g' rfl hfirst hlast hne hwaits
  have hsplit (l : List Op) : run maxQueuedBytes (first ++ .takeNext :: l) =
      l.foldl step ((run maxQueuedBytes first).step .takeNext) := by
    unfold run
    rw [foldl_append]
    rfl
  rw [hsplit] at hlast hwaits ⊢
  have hids : (run maxQueuedBytes first).Ids := (Ids.new maxQueuedBytes).foldl
    (Inv.new maxQueuedBytes) fun op hop => hops op (mem_append_left _ hop)
  exact mem_servedBy (Inv.run maxQueuedBytes first) hids
    (fun op hop => hops op (mem_append_right _ (mem_cons_of_mem _ hop))) hfirst hlast hne
    hwaits

/-- An empty datagram is queued. -/
def enqueueEmpty (g : SendGroupId) : Op := .enqueue ⟨[], 0, le_refl 0⟩ none 0 g 0

theorem takeNext_fair_two_groups :
    let first := [enqueueEmpty ⟨1⟩, enqueueEmpty ⟨1⟩, enqueueEmpty ⟨2⟩, enqueueEmpty ⟨2⟩]
    (∀ op ∈ first ++ [.takeNext, .takeNext], op.Typed) ∧
      (run 1000 first).served .takeNext = some ⟨1⟩ ∧
      (run 1000 (first ++ [.takeNext, .takeNext])).served .takeNext = some ⟨1⟩ ∧
      ⟨2⟩ ∈ servedBy (run 1000 (first ++ [.takeNext])) [.takeNext] := by
  intro first
  have hops : ∀ op ∈ first ++ [.takeNext, .takeNext], op.Typed := by decide
  have hfirst : (run 1000 first).served .takeNext = some ⟨1⟩ := by decide +kernel
  have hlast : (run 1000 (first ++ [.takeNext, .takeNext])).served .takeNext = some ⟨1⟩ := by
    decide +kernel
  let e : Entry := ⟨⟨2⟩, 0, ⟨⟨[], 0, le_refl 0⟩, none, 0⟩⟩
  have hwaits : AlwaysHas ⟨2⟩ (run 1000 (first ++ [.takeNext])) [.takeNext] :=
    ⟨⟨e, mem_entries_iff.mpr (by decide +kernel), rfl⟩,
      e, mem_entries_iff.mpr (by decide +kernel), rfl⟩
  exact ⟨hops, hfirst, hlast,
    (takeNext_fair hops).2.2 first [.takeNext] ⟨1⟩ ⟨2⟩ rfl hfirst hlast (by decide) hwaits⟩

/-!
## The signal to resume

A sender that gets another outcome than `ok` waits for a signal. `Sender` is what it knows: whether
it waits, and which writes were refused since the last signal. While it waits, the queue is blocked
on at least the charge of each refused write (`Sender.Awaits`). So when the signal is given there
is space for each of them, or the queue is empty, until something else is queued.
-/

/-- What a sender knows of its queue. -/
structure Sender where
  /-- The last outcome that was not `ok` has not been followed by a signal to resume. -/
  waiting : Bool := false
  /-- The send orders and capacities of the writes that were refused since the last signal. -/
  refused : List (SendOrder × ℕ) := []
  deriving DecidableEq

/-- What the sender learns from an operation. -/
def Sender.learn (s : Sender) (q : DatagramQueue) : Op → Sender
  | .enqueue data did now id o =>
    match (q.enqueue data did now id o).2 with
    | .ok => s
    | .rejected => { waiting := true, refused := (o, data.capacity) :: s.refused }
    | .maxBufferedReached | .overflowed _ => { s with waiting := true }
  | .resumeIfUnblocked => if q.resumeIfUnblocked.1 then {} else s
  | _ => s

/-- One operation, observed by the sender. -/
def observe (p : DatagramQueue × Sender) (op : Op) : DatagramQueue × Sender :=
  (p.1.step op, p.2.learn p.1 op)

/-- A run that is observed by the sender. -/
def observed (ops : List Op) : DatagramQueue × Sender :=
  ops.foldl observe ({ maxQueuedBytes := maxQueuedBytes }, {})

variable {q q' : DatagramQueue} {s : Sender}

/-! ### What the queue is blocked on -/

/-- A sender that waits is waited for, with the charges of its refused writes. -/
structure Sender.Awaits (s : Sender) (blocked : Option ℕ) : Prop where
  isSome : s.waiting = true → ∃ c, blocked = some c
  refused : ∀ w ∈ s.refused, ∃ c, blocked = some c ∧ charge w.2 ≤ c

lemma exists_blockOn (q : DatagramQueue) (c : ℕ) :
    ∃ c', (q.blockOn c).blocked = some c' ∧ c ≤ c' ∧ ∀ b, q.blocked = some b → b ≤ c' := by
  unfold blockOn
  cases hblocked : q.blocked with
  | none => exact ⟨c, rfl, le_rfl, nofun⟩
  | some b =>
    refine ⟨max b c, rfl, le_max_right b c, fun b' hb' => ?_⟩
    cases hb'
    omega

lemma Sender.Awaits.blockOn (h : s.Awaits q.blocked) (c : ℕ) :
    Sender.Awaits { s with waiting := true } (q.blockOn c).blocked ∧
      ∀ w : SendOrder × ℕ, charge w.2 ≤ c →
        Sender.Awaits { waiting := true, refused := w :: s.refused } (q.blockOn c).blocked := by
  obtain ⟨c', hc', hle, hold⟩ := exists_blockOn q c
  rw [hc']
  have hrefused : ∀ w ∈ s.refused, ∃ c, some c' = some c ∧ charge w.2 ≤ c := by
    intro w hw
    obtain ⟨b, hb, hcharge⟩ := h.refused w hw
    exact ⟨c', rfl, hcharge.trans (hold b hb)⟩
  refine ⟨⟨fun _ => ⟨c', rfl⟩, hrefused⟩, fun w hw => ⟨fun _ => ⟨c', rfl⟩, fun w' hw' => ?_⟩⟩
  rcases List.mem_cons.mp hw' with rfl | hw'
  · exact ⟨c', rfl, hw.trans hle⟩
  · exact hrefused w' hw'

lemma Sender.Awaits.enqueue (h : s.Awaits q.blocked) (hq : q.Inv) (data : ByteVec)
    (did : Option DatagramId) (now : ℕ) (id : SendGroupId) (o : SendOrder) :
    (s.learn q (.enqueue data did now id o)).Awaits
      (q.step (.enqueue data did now id o)).blocked := by
  unfold Sender.learn step
  dsimp only
  have hcases := enqueue_cases hq data did now id o
  generalize q.enqueue data did now id o = p at hcases
  cases hcases with
  | rejected => exact (h.blockOn (charge data.capacity)).2 (o, data.capacity) le_rfl
  | admitted _ _ _ _ hsignal =>
    rcases hsignal with ⟨rfl, -, rfl⟩ | ⟨⟨rfl, -⟩ | ⟨rfl, -⟩, rfl⟩
    · exact h
    · exact (h.blockOn anyProgress).1
    · exact (h.blockOn anyProgress).1

lemma Sender.Awaits.sheds {gone : List Entry} (h : s.Awaits q.blocked) (hsheds : Sheds q q' gone) :
    s.Awaits q'.blocked := by
  rwa [hsheds.blocked]

lemma Sender.Awaits.step (h : s.Awaits q.blocked) (hq : q.Inv) (op : Op) :
    (s.learn q op).Awaits (q.step op).blocked := by
  cases op with
  | enqueue data did now id o => exact h.enqueue hq data did now id o
  | resumeIfUnblocked =>
    unfold Sender.learn DatagramQueue.step
    rcases resumeIfUnblocked_cases q with hsignal | ⟨_, -, -, hsignal⟩
    · rw [hsignal]
      exact h
    · rw [hsignal]
      exact ⟨nofun, nofun⟩
  | takeNext =>
    show s.Awaits ((q.takeNext.map Prod.snd).getD q).blocked
    cases htake : q.takeNext with
    | none => exact h
    | some =>
      obtain ⟨_, -, hsheds⟩ := Sheds.takeNext hq htake
      exact h.sheds hsheds
  | expire now defaultMaxAge => exact h.sheds (Sheds.expire hq now defaultMaxAge)
  | setMaxAge maxAge now defaultMaxAge =>
    obtain ⟨_, hsheds⟩ := Sheds.setMaxAge hq maxAge now defaultMaxAge
    exact h.sheds hsheds
  | setMaxBufferedDatagrams => exact h

lemma observed_spec (ops : List Op) :
    (observed maxQueuedBytes ops).1.Inv ∧
      (observed maxQueuedBytes ops).2.Awaits (observed maxQueuedBytes ops).1.blocked := by
  refine List.foldlRecOn (motive := fun p => Inv p.1 ∧ Sender.Awaits p.2 p.1.blocked) ops observe ?_
    fun _ h op _ => ⟨h.1.step op, h.2.step h.1 op⟩
  exact ⟨Inv.new maxQueuedBytes, nofun, nofun⟩

/-! ### The signal -/

/-- A charge has space, or there is nothing to be outranked by. -/
def HasSpace (q : DatagramQueue) (c : ℕ) : Prop :=
  q.entries = [] ∨ q.totalBytes + c ≤ q.maxQueuedBytes

lemma HasSpace.step {c : ℕ} (h : q.HasSpace c) (hq : q.Inv) {op : Op} (hop : op.isEnqueue = false) :
    (q.step op).HasSpace c := by
  have hstep := step_cases hq op
  generalize q.step op = q' at hstep ⊢
  cases hstep with
  | enqueue => cases hop
  | shed hsheds =>
    rcases h with h | h
    · have hperm := hsheds.perm
      rw [h] at hperm
      exact .inl (List.append_eq_nil_iff.mp hperm.nil_eq.symm).2
    · have htotal := hsheds.totalBytes hq
      exact .inr (by rw [hsheds.maxQueuedBytes]; omega)
  | same hsame =>
    unfold HasSpace
    rwa [hsame.entries, hsame.totalBytes, hsame.maxQueuedBytes]

lemma HasSpace.foldl {c : ℕ} (h : q.HasSpace c) (hq : q.Inv) {ops : List Op}
    (hops : ∀ op ∈ ops, op.isEnqueue = false) : (ops.foldl DatagramQueue.step q).HasSpace c :=
  (List.foldlRecOn (motive := fun q => Inv q ∧ HasSpace q c) ops _ ⟨hq, h⟩
    fun _ h op hop => ⟨h.1.step op, h.2.step h.1 (hops op hop)⟩).2

lemma HasSpace.not_rejected {data : ByteVec} (h : q.HasSpace (charge data.capacity)) (hq : q.Inv)
    (did : Option DatagramId) (now : ℕ) (id : SendGroupId) (o : SendOrder) :
    (q.enqueue data did now id o).2 ≠ .rejected := by
  have hcases := enqueue_cases hq data did now id o
  generalize q.enqueue data did now id o = p at hcases ⊢
  cases hcases with
  | rejected hover hne =>
    rcases h with h | h
    · exact absurd h hne
    · exact absurd hover (not_lt.mpr h)
  | admitted _ _ _ _ hsignal =>
    rintro rfl
    rcases hsignal with ⟨h, -⟩ | ⟨⟨h, -⟩ | ⟨h, -⟩, -⟩ <;> cases h

lemma resumeIfUnblocked_eq_true (hq : q.Inv) (h : q.resumeIfUnblocked.1 = true) :
    ∃ b, q.blocked = some b ∧ ∀ c, 0 < c → c ≤ b → q.HasSpace c := by
  rcases resumeIfUnblocked_cases q with hsignal | ⟨b, hb, hunblocked, -⟩
  · rw [hsignal] at h
    cases h
  · refine ⟨b, hb, fun c hpos hle => ?_⟩
    rcases hunblocked with hempty | ⟨-, hspace⟩
    · have hcount : q.totalCount = 0 := by simpa [isEmpty] using hempty
      exact .inl (List.length_eq_zero_iff.mp (hq.count.symm.trans hcount))
    · exact .inr (by omega)

/-- **The signal to resume is exact.**  When it is given, each write that was refused since the last
signal is not refused if it is tried again before anything else is queued, whatever else happens in
between. As long as a sender waits, an empty queue gives the signal. -/
theorem resumeIfUnblocked_exact (maxQueuedBytes : ℕ) (ops : List Op) :
    let q := (observed maxQueuedBytes ops).1
    let sender := (observed maxQueuedBytes ops).2
    (q.resumeIfUnblocked.1 = true → ∀ w ∈ sender.refused, ∀ others : List Op,
      (∀ op ∈ others, op.isEnqueue = false) → ∀ data did now id, data.capacity = w.2 →
        ((others.foldl step q.resumeIfUnblocked.2).enqueue data did now id w.1).2 ≠ .rejected) ∧
    (sender.waiting = true → q.entries = [] → q.resumeIfUnblocked.1 = true) := by
  intro q sender
  obtain ⟨hq, hawaits⟩ : q.Inv ∧ sender.Awaits q.blocked := observed_spec maxQueuedBytes ops
  constructor
  · intro hresume w hw others hothers data did now id hcapacity
    obtain ⟨b, hb, hspace⟩ := resumeIfUnblocked_eq_true hq hresume
    obtain ⟨c, hc, hle⟩ := hawaits.refused w hw
    obtain rfl : b = c := some.inj (hb.symm.trans hc)
    have hpos : 0 < charge w.2 := Nat.lt_of_lt_of_le (by decide) (Nat.le_add_left 64 w.2)
    have hspace : q.HasSpace (charge data.capacity) := hcapacity ▸ hspace _ hpos hle
    have hsame := resumeIfUnblocked_sameContents q
    have hspace' : q.resumeIfUnblocked.2.HasSpace (charge data.capacity) :=
      @HasSpace.step q _ hspace hq .resumeIfUnblocked rfl
    exact (hspace'.foldl (hsame.inv hq) hothers).not_rejected ((hsame.inv hq).foldl others)
      did now id w.1
  · intro hwaiting hempty
    obtain ⟨c, hc⟩ := hawaits.isSome hwaiting
    have hcount : q.isEmpty = true := by
      unfold isEmpty
      rw [hq.count, hempty]
      rfl
    unfold resumeIfUnblocked
    rw [hc]
    dsimp only
    rw [if_pos (.inl hcount)]

end Neqo.DatagramQueue
