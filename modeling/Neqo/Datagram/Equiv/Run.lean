import Mathlib.Algebra.Order.Group.Multiset
import Mathlib.Tactic.Abel
import Neqo.Datagram.Equiv.Queue

/-!
# Runs of a queue of datagrams

A run takes operations in any order, on a queue that is empty at first. A step queues a datagram,
sheds datagrams, or changes neither what is queued nor the totals (`Step`).
-/

namespace Neqo.DatagramQueue

/-- The operations on a queue. -/
inductive Op where
  | enqueue (data : ByteVec) (did : Option DatagramId) (now : ℕ) (id : SendGroupId) (o : SendOrder)
  | takeNext
  | expire (now defaultMaxAge : ℕ)
  | setMaxAge (maxAge : Option ℕ) (now defaultMaxAge : ℕ)
  | setMaxBufferedDatagrams (mark : Option ℕ+)
  | resumeIfUnblocked
  deriving DecidableEq

/-- Whether an operation queues a datagram. -/
def Op.isEnqueue : Op → Bool
  | .enqueue .. => true
  | _ => false

/-- The queue after an operation. -/
def step (q : DatagramQueue) : Op → DatagramQueue
  | .enqueue data did now id o => (q.enqueue data did now id o).1
  | .takeNext => (q.takeNext.map Prod.snd).getD q
  | .expire now defaultMaxAge => (q.expire now defaultMaxAge).1
  | .setMaxAge maxAge now defaultMaxAge => q.setMaxAge maxAge now defaultMaxAge
  | .setMaxBufferedDatagrams mark => q.setMaxBufferedDatagrams mark
  | .resumeIfUnblocked => q.resumeIfUnblocked.2

/-- The queue after some operations, if it was empty before and has this budget. -/
def run (maxQueuedBytes : ℕ) (ops : List Op) : DatagramQueue :=
  ops.foldl step { maxQueuedBytes := maxQueuedBytes }

variable {q q' : DatagramQueue} {gone : List Entry}

/-- What is queued and the totals are the same. -/
structure SameContents (q q' : DatagramQueue) : Prop where
  groups : q'.groups = q.groups
  totalCount : q'.totalCount = q.totalCount
  totalBytes : q'.totalBytes = q.totalBytes
  underflow : q'.underflow = q.underflow
  maxQueuedBytes : q'.maxQueuedBytes = q.maxQueuedBytes

lemma SameContents.entries (h : SameContents q q') : q'.entries = q.entries := by
  unfold DatagramQueue.entries
  rw [h.groups]

lemma SameContents.bucket (h : SameContents q q') : q'.bucket = q.bucket := by
  funext id o
  unfold DatagramQueue.bucket DatagramQueue.group
  rw [h.groups]

lemma SameContents.inv (h : SameContents q q') (hq : q.Inv) : q'.Inv where
  kept := by rw [h.groups]; exact hq.kept
  count := by rw [h.totalCount, h.entries, hq.count]
  bytes := by rw [h.totalBytes, h.entries, hq.bytes]
  underflow := h.underflow.trans hq.underflow

lemma resumeIfUnblocked_cases (q : DatagramQueue) :
    q.resumeIfUnblocked = (false, q) ∨
      ∃ b, q.blocked = some b ∧
        (q.isEmpty = true ∨ q.belowMaxBuffered = true ∧ q.maxQueuedBytes - q.totalBytes ≥ b) ∧
        q.resumeIfUnblocked = (true, { q with blocked := none }) := by
  unfold resumeIfUnblocked
  cases q.blocked with
  | none => exact .inl rfl
  | some b =>
    dsimp only
    split_ifs with hunblocked
    · exact .inr ⟨b, rfl, hunblocked, rfl⟩
    · exact .inl rfl

lemma resumeIfUnblocked_sameContents (q : DatagramQueue) :
    SameContents q q.resumeIfUnblocked.2 := by
  rcases resumeIfUnblocked_cases q with h | ⟨_, -, -, h⟩
  · rw [h]
    exact ⟨rfl, rfl, rfl, rfl, rfl⟩
  · rw [h]
    exact ⟨rfl, rfl, rfl, rfl, rfl⟩

/-- What one operation can do to the contents. -/
inductive Step (q : DatagramQueue) : Op → DatagramQueue → Prop
  | enqueue {data : ByteVec} {did : Option DatagramId} {now : ℕ} {id : SendGroupId} {o : SendOrder}
      {p : DatagramQueue × DatagramQueueOutcome} (h : Enqueued q ⟨data, did, now⟩ id o p) :
      Step q (.enqueue data did now id o) p.1
  | shed {op : Op} {q' : DatagramQueue} {gone : List Entry} (h : Sheds q q' gone) : Step q op q'
  | same {op : Op} {q' : DatagramQueue} (h : SameContents q q') : Step q op q'

lemma Sheds.setMaxAge (hq : q.Inv) (maxAge : Option ℕ) (now defaultMaxAge : ℕ) :
    ∃ gone, Sheds q (q.setMaxAge maxAge now defaultMaxAge) gone := by
  have hq' : DatagramQueue.Inv { q with maxAge := maxAge.map fun v => max v explicitMaxAgeFloor } :=
    { hq with }
  have h := Sheds.expire hq' now defaultMaxAge
  exact ⟨_, h.perm, h.suffix, h.inv, h.maxQueuedBytes, h.blocked, h.sent, h.tooBig⟩

lemma Sheds.takeNext (hq : q.Inv) {d : QueuedDatagram} (h : q.takeNext = some (d, q')) :
    ∃ e : Entry, e.dgram = d ∧ Sheds q q' [e] := by
  obtain ⟨id, o, queue, -, hbucket, -, rfl⟩ := takeNext_eq_some h
  exact ⟨⟨id, o, d⟩, rfl, Sheds.finishRemoval hq hbucket id.next⟩

lemma step_cases (hq : q.Inv) (op : Op) : Step q op (q.step op) := by
  cases op with
  | enqueue data did now id o => exact .enqueue (enqueue_cases hq data did now id o)
  | takeNext =>
    show Step q _ ((q.takeNext.map Prod.snd).getD q)
    cases h : q.takeNext with
    | none => exact .same ⟨rfl, rfl, rfl, rfl, rfl⟩
    | some =>
      obtain ⟨_, -, hsheds⟩ := Sheds.takeNext hq h
      exact .shed hsheds
  | expire now defaultMaxAge => exact .shed (Sheds.expire hq now defaultMaxAge)
  | setMaxAge maxAge now defaultMaxAge =>
    obtain ⟨_, hsheds⟩ := Sheds.setMaxAge hq maxAge now defaultMaxAge
    exact .shed hsheds
  | setMaxBufferedDatagrams => exact .same ⟨rfl, rfl, rfl, rfl, rfl⟩
  | resumeIfUnblocked => exact .same (resumeIfUnblocked_sameContents q)

lemma Step.inv {op : Op} (h : Step q op q') (hq : q.Inv) : q'.Inv := by
  cases h with
  | enqueue h => exact hq.enqueued h
  | shed h => exact h.inv
  | same h => exact h.inv hq

lemma Step.suffix {op : Op} (h : Step q op q') (hop : op.isEnqueue = false) (id : SendGroupId)
    (o : SendOrder) : q'.bucket id o <:+ q.bucket id o := by
  cases h with
  | enqueue => cases hop
  | shed h => exact h.suffix id o
  | same h => exact h.bucket ▸ List.suffix_refl _

lemma Inv.step (hq : q.Inv) (op : Op) : (q.step op).Inv := (step_cases hq op).inv hq

lemma Inv.new (maxQueuedBytes : ℕ) : DatagramQueue.Inv { maxQueuedBytes := maxQueuedBytes } where
  kept _ _ h := absurd h (OrdMap.not_mem_empty _ _)
  count := rfl
  bytes := rfl
  underflow := rfl

lemma Inv.foldl (hq : q.Inv) (ops : List Op) : (ops.foldl DatagramQueue.step q).Inv :=
  List.foldlRecOn ops _ hq fun _ hq op _ => hq.step op

lemma Inv.run (maxQueuedBytes : ℕ) (ops : List Op) :
    (DatagramQueue.run maxQueuedBytes ops).Inv := (Inv.new maxQueuedBytes).foldl ops

/-!
## The budget of bytes

A queue can exceed its budget only by a datagram that everything else in it outranks. That one is
the first that the next datagram evicts, so the excess does not grow (`run_withinBudget`).
-/

open List

variable {q q' r : DatagramQueue} {gone : List Entry}

/-- The queue keeps to its budget, apart from one datagram with the lowest priority. -/
def WithinBudget (q : DatagramQueue) : Prop :=
  q.totalBytes ≤ q.maxQueuedBytes ∨
    ∃ e rest, q.entries.Perm (e :: rest) ∧ (∀ e' ∈ rest, e.order < e'.order) ∧
      q.totalBytes - e.dgram.charge ≤ q.maxQueuedBytes

lemma split_shed {α : Type} {l gone left rest : List α} {a : α} (hl : l.Perm (a :: rest))
    (h : l.Perm (gone ++ left)) :
    (∃ left', left.Perm (a :: left') ∧ rest.Perm (gone ++ left')) ∨
      ∃ gone', gone.Perm (a :: gone') ∧ rest.Perm (gone' ++ left) := by
  have hmem : a ∈ gone ++ left := (hl.symm.trans h).mem_iff.mp (mem_cons_self ..)
  rcases mem_append.mp hmem with ha | ha
  · obtain ⟨s, t, rfl⟩ := append_of_mem ha
    refine .inr ⟨s ++ t, perm_middle, ?_⟩
    refine (perm_cons a).mp ((hl.symm.trans h).trans ?_)
    exact List.Perm.append_right left perm_middle
  · obtain ⟨s, t, rfl⟩ := append_of_mem ha
    refine .inl ⟨s ++ t, perm_middle, ?_⟩
    refine (perm_cons a).mp ((hl.symm.trans h).trans ?_)
    exact (List.Perm.append_left gone perm_middle).trans perm_middle

lemma totalBytes_eq (hq : q.Inv) {e : Entry} {rest : List Entry}
    (h : q.entries.Perm (e :: rest)) : q.totalBytes = e.dgram.charge + charges rest := by
  rw [hq.bytes, charges_perm h, charges_cons]

section

variable (h : q.WithinBudget) (hq : q.Inv)

include h hq

lemma WithinBudget.sheds (hsheds : Sheds q q' gone) : q'.WithinBudget := by
  have htotal := hsheds.totalBytes hq
  rcases h with h | ⟨e, rest, hperm, hrank, hle⟩
  · exact .inl (by rw [hsheds.maxQueuedBytes]; omega)
  · have htotal' := totalBytes_eq hq hperm
    rcases split_shed hperm hsheds.perm with ⟨left, hleft, hrest⟩ | ⟨gone', -, hrest⟩
    · refine .inr ⟨e, left, hleft, fun e' he' => ?_, ?_⟩
      · exact hrank e' (hrest.mem_iff.mpr (mem_append_right _ he'))
      · rw [hsheds.maxQueuedBytes]
        omega
    · -- The datagram with the lowest priority has left.
      have hcharges := charges_perm hrest
      rw [charges_append, ← hsheds.inv.bytes] at hcharges
      exact .inl (by rw [hsheds.maxQueuedBytes]; omega)

/-- After evictions, which start with the lowest priority, the queue keeps to its budget. -/
lemma WithinBudget.totalBytes_le (hsheds : Sheds q r gone)
    (hne : gone ≠ []) (hlow : ∀ e ∈ gone, ∀ e' ∈ r.entries, e.order ≤ e'.order) :
    r.totalBytes ≤ r.maxQueuedBytes := by
  have htotal := hsheds.totalBytes hq
  rw [hsheds.maxQueuedBytes]
  rcases h with h | ⟨e, rest, hperm, hrank, hle⟩
  · omega
  · have htotal' := totalBytes_eq hq hperm
    rcases split_shed hperm hsheds.perm with ⟨left, hleft, hrest⟩ | ⟨gone', -, hrest⟩
    · -- The lowest priority would be left, but something else has been evicted.
      obtain ⟨e', he'⟩ := exists_mem_of_ne_nil gone hne
      have hlt := hrank e' (hrest.mem_iff.mpr (mem_append_left _ he'))
      have hge := hlow e' he' e (hleft.mem_iff.mpr (mem_cons_self ..))
      exact absurd hlt (not_lt.mpr hge)
    · have hcharges := charges_perm hrest
      rw [charges_append, ← hsheds.inv.bytes] at hcharges
      omega

lemma WithinBudget.enqueued {d : QueuedDatagram} {id : SendGroupId} {o : SendOrder}
    {p : DatagramQueue × DatagramQueueOutcome}
    (henqueued : Enqueued q d id o p) : p.1.WithinBudget := by
  cases henqueued with
  | rejected => exact h
  | @admitted r gone blocked outcome hevicts hevictions hspace =>
    rcases hspace with hspace | ⟨houtranks, hempty⟩
    · exact .inl hspace
    · have hle : r.totalBytes ≤ r.maxQueuedBytes := by
        by_cases hnil : gone = []
        · rw [hevicts.inv.bytes, hempty hnil]
          exact Nat.zero_le _
        · exact h.totalBytes_le hq hevicts.toSheds hnil (hevictions.rank hq)
      refine .inr ⟨⟨id, o, d⟩, r.entries, entries_queue_push r d id o, houtranks, ?_⟩
      show r.totalBytes + d.charge - d.charge ≤ r.maxQueuedBytes
      rwa [Nat.add_sub_cancel]

lemma WithinBudget.step (op : Op) : (q.step op).WithinBudget := by
  have hstep := step_cases hq op
  generalize q.step op = q' at hstep ⊢
  cases hstep with
  | enqueue henqueued => exact h.enqueued hq henqueued
  | shed hsheds => exact h.sheds hq hsheds
  | same hsame =>
    unfold WithinBudget
    rw [hsame.entries, hsame.totalBytes, hsame.maxQueuedBytes]
    exact h

end

lemma maxQueuedBytes_step (hq : q.Inv) (op : Op) :
    (q.step op).maxQueuedBytes = q.maxQueuedBytes := by
  have hstep := step_cases hq op
  generalize q.step op = q' at hstep ⊢
  cases hstep with
  | enqueue henqueued =>
    cases henqueued with
    | rejected => rfl
    | admitted hevicts => exact hevicts.maxQueuedBytes
  | shed hsheds => exact hsheds.maxQueuedBytes
  | same hsame => exact hsame.maxQueuedBytes

/-- **A queue exceeds its budget at most by its lowest-priority datagram.**  After any operations,
the charged bytes are within the budget, or are so without one datagram whose send order is lower
than that of all the others. -/
theorem run_withinBudget (maxQueuedBytes : ℕ) (ops : List Op) :
    let q := run maxQueuedBytes ops
    q.maxQueuedBytes = maxQueuedBytes ∧ q.totalBytes = charges q.entries ∧
      (q.totalBytes ≤ maxQueuedBytes ∨
        ∃ e rest, q.entries.Perm (e :: rest) ∧ (∀ e' ∈ rest, e.order < e'.order) ∧
          q.totalBytes - e.dgram.charge ≤ maxQueuedBytes) := by
  obtain ⟨hinv, hbudget, hmax⟩ := List.foldlRecOn
    (motive := fun q => Inv q ∧ WithinBudget q ∧ q.maxQueuedBytes = maxQueuedBytes) ops step
    ⟨Inv.new maxQueuedBytes, .inl (Nat.zero_le _), rfl⟩ fun _ ⟨hq, hbudget, hmax⟩ op _ =>
      ⟨hq.step op, hbudget.step hq op, (maxQueuedBytes_step hq op).trans hmax⟩
  refine ⟨hmax, hinv.bytes, ?_⟩
  unfold WithinBudget at hbudget
  rwa [hmax] at hbudget

end Neqo.DatagramQueue

/-!
## What becomes of the datagrams of a queue

A `Ledger` records which datagrams were admitted, how each of the others left, and what was reported
about them. `Moves q δ q'` says that `δ` accounts for everything that happened between `q` and
`q'`. Ledgers add up along a run (`Moves.trans`).
-/

namespace Neqo

/-- How many datagrams an outcome reports as dropped. -/
def DatagramQueueOutcome.dropped : DatagramQueueOutcome → ℕ
  | .overflowed dropped => dropped
  | _ => 0

/-- The fates of datagrams, and what was reported about them. -/
structure Ledger where
  admitted : Multiset QueuedDatagram := 0
  written : Multiset QueuedDatagram := 0
  tooBig : Multiset QueuedDatagram := 0
  expired : Multiset QueuedDatagram := 0
  evicted : Multiset QueuedDatagram := 0
  /-- Those that were still queued when the queue was removed. -/
  discarded : Multiset QueuedDatagram := 0
  /-- What the counters have handed out. -/
  sentCount : ℕ := 0
  tooBigCount : ℕ := 0
  expiredCount : ℕ := 0
  /-- The sum of what outcomes have reported as dropped. -/
  evictedCount : ℕ := 0
  /-- The sum of what removals of the queue have reported as queued. -/
  discardedCount : ℕ := 0

namespace Ledger

/-- Both ledgers in one. -/
def add (a b : Ledger) : Ledger where
  admitted := a.admitted + b.admitted
  written := a.written + b.written
  tooBig := a.tooBig + b.tooBig
  expired := a.expired + b.expired
  evicted := a.evicted + b.evicted
  discarded := a.discarded + b.discarded
  sentCount := a.sentCount + b.sentCount
  tooBigCount := a.tooBigCount + b.tooBigCount
  expiredCount := a.expiredCount + b.expiredCount
  evictedCount := a.evictedCount + b.evictedCount
  discardedCount := a.discardedCount + b.discardedCount

/-- The datagrams that left, whatever way. -/
def left (a : Ledger) : Multiset QueuedDatagram :=
  a.written + a.tooBig + a.expired + a.evicted + a.discarded

lemma left_add (a b : Ledger) : (a.add b).left = a.left + b.left := by
  dsimp only [left, add]
  abel

end Ledger

namespace DatagramQueue

variable {q q' q'' : DatagramQueue} {δ δ' : Ledger} {gone : List Entry} {d : QueuedDatagram}

/-- What is queued. -/
def contents (q : DatagramQueue) : Multiset QueuedDatagram := q.entries.map Entry.dgram

/-- A ledger accounts for what happened to a queue. -/
structure Moves (q : DatagramQueue) (δ : Ledger) (q' : DatagramQueue) : Prop where
  contents : q.contents + δ.admitted = δ.left + q'.contents
  sent : q.sent + δ.written.card = q'.sent + δ.sentCount
  tooBig : q.tooBig + δ.tooBig.card = q'.tooBig + δ.tooBigCount
  expired : q.expired + δ.expired.card = q'.expired + δ.expiredCount
  evicted : δ.evicted.card = δ.evictedCount
  discarded : δ.discarded.card = δ.discardedCount
  inv : q'.Inv

lemma card_trans {s t : Multiset QueuedDatagram} {a b c n n' : ℕ} (h : a + s.card = b + n)
    (h' : b + t.card = c + n') : a + (s + t).card = c + (n + n') := by
  rw [Multiset.card_add]
  omega

lemma Moves.trans (h : Moves q δ q') (h' : Moves q' δ' q'') : Moves q (δ.add δ') q'' where
  contents := by
    rw [Ledger.left_add]
    calc q.contents + (δ.admitted + δ'.admitted)
        = (q.contents + δ.admitted) + δ'.admitted := by abel
      _ = δ.left + (q'.contents + δ'.admitted) := by rw [h.contents]; abel
      _ = δ.left + δ'.left + q''.contents := by rw [h'.contents]; abel
  sent := card_trans h.sent h'.sent
  tooBig := card_trans h.tooBig h'.tooBig
  expired := card_trans h.expired h'.expired
  evicted := by rw [Ledger.add, Multiset.card_add, h.evicted, h'.evicted]
  discarded := by rw [Ledger.add, Multiset.card_add, h.discarded, h'.discarded]
  inv := h'.inv

lemma Moves.mem (h : Moves q δ q') (hd : d ∈ q'.contents) : d ∈ q.contents ∨ d ∈ δ.admitted := by
  rw [← Multiset.mem_add, h.contents, Multiset.mem_add]
  exact .inr hd

lemma contents_perm (h : q.entries.Perm (gone ++ q'.entries)) :
    q.contents = (gone.map Entry.dgram : Multiset QueuedDatagram) + q'.contents := by
  unfold contents
  rw [Multiset.coe_add, ← List.map_append]
  exact Multiset.coe_eq_coe.mpr (h.map _)

lemma Moves.counts (hq : q.Inv) (h : SameContents q q') {sent tooBig expired : ℕ}
    (hsent : q.sent = q'.sent + sent) (htooBig : q.tooBig = q'.tooBig + tooBig)
    (hexpired : q.expired = q'.expired + expired) :
    Moves q { sentCount := sent, tooBigCount := tooBig, expiredCount := expired } q' where
  contents := by
    unfold DatagramQueue.contents
    rw [h.entries]
    show _ + 0 = 0 + 0 + 0 + 0 + 0 + _
    abel
  sent := hsent
  tooBig := htooBig
  expired := hexpired
  evicted := rfl
  discarded := rfl
  inv := h.inv hq

lemma Moves.takeSentCount (hq : q.Inv) :
    Moves q { sentCount := q.takeSentCount.1 } q.takeSentCount.2 :=
  @Moves.counts q { q with sent := 0 } hq ⟨rfl, rfl, rfl, rfl, rfl⟩ _ 0 0 (zero_add _).symm rfl rfl

lemma Moves.takeTooBigCount (hq : q.Inv) :
    Moves q { tooBigCount := q.takeTooBigCount.1 } q.takeTooBigCount.2 :=
  @Moves.counts q { q with tooBig := 0 } hq ⟨rfl, rfl, rfl, rfl, rfl⟩ 0 _ 0 rfl
    (zero_add _).symm rfl

lemma Moves.takeExpiredCount (hq : q.Inv) :
    Moves q { expiredCount := q.takeExpiredCount.1 } q.takeExpiredCount.2 :=
  @Moves.counts q { q with expired := 0 } hq ⟨rfl, rfl, rfl, rfl, rfl⟩ 0 0 _ rfl rfl
    (zero_add _).symm

lemma Moves.resumeIfUnblocked (h : Moves q δ q') : Moves q δ q'.resumeIfUnblocked.2 := by
  have hsame := resumeIfUnblocked_sameContents q'
  rcases resumeIfUnblocked_cases q' with hsignal | ⟨_, -, -, hsignal⟩
  · rw [hsignal]
    exact h
  · rw [hsignal] at hsame ⊢
    exact ⟨h.contents, h.sent, h.tooBig, h.expired, h.evicted, h.discarded, hsame.inv h.inv⟩

/-! ### Expiry -/

/-- The ledger of an expiry. -/
def expiryLedger (q : DatagramQueue) (now defaultMaxAge : ℕ) : Ledger where
  expired := (q.expiring now (q.effectiveMaxAge defaultMaxAge)).map Entry.dgram

lemma Moves.expire (hq : q.Inv) (now defaultMaxAge : ℕ) :
    Moves q (q.expiryLedger now defaultMaxAge) (q.expire now defaultMaxAge).1 := by
  have hsheds := Sheds.expire hq now defaultMaxAge
  refine ⟨?_, rfl, rfl, ?_, rfl, rfl, hsheds.inv⟩
  · rw [contents_perm hsheds.perm]
    dsimp only [Ledger.left, expiryLedger]
    abel
  · show q.expired + Multiset.card (Multiset.ofList _) = _
    rw [expire_eq, Multiset.coe_card, List.length_map]
    rfl

lemma Moves.setMaxAge (hq : q.Inv) (maxAge : Option ℕ) (now defaultMaxAge : ℕ) :
    Moves q (expiryLedger { q with maxAge := maxAge.map fun v => max v explicitMaxAgeFloor } now
      defaultMaxAge) (q.setMaxAge maxAge now defaultMaxAge) := by
  have hq' : DatagramQueue.Inv { q with maxAge := maxAge.map fun v => max v explicitMaxAgeFloor } :=
    { hq with }
  have h := Moves.expire hq' now defaultMaxAge
  exact { h with }

/-! ### Queueing -/

/-- The ledger of a datagram that is queued. -/
def enqueueLedger (q : DatagramQueue) (d : QueuedDatagram) (id : SendGroupId) (o : SendOrder) :
    Ledger :=
  let outcome := (q.enqueue d.data d.id d.timestamp id o).2
  if outcome = .rejected then {}
  else
    { admitted := {d}, evicted := (q.makeSpace d.charge o).2.1, evictedCount := outcome.dropped }

lemma Moves.enqueue (hq : q.Inv) (d : QueuedDatagram) (id : SendGroupId) (o : SendOrder) :
    Moves q (q.enqueueLedger d id o) (q.enqueue d.data d.id d.timestamp id o).1 := by
  have hcases := enqueue_cases hq d.data d.id d.timestamp id o
  have hinv := hq.enqueued hcases
  unfold enqueueLedger
  generalize q.enqueue d.data d.id d.timestamp id o = p at hcases hinv ⊢
  cases hcases with
  | rejected =>
    exact @Moves.counts q (q.blockOn _) hq ⟨rfl, rfl, rfl, rfl, rfl⟩ 0 0 0 rfl rfl rfl
  | @admitted r gone blocked outcome hevicts _ hspace hevicted hsignal hadmitted =>
    have hdropped : gone.length = outcome.dropped := by
      rcases hsignal with ⟨rfl, rfl, -⟩ | ⟨⟨rfl, rfl⟩ | ⟨rfl, -⟩, -⟩ <;> rfl
    have hpush : (r.push d id o).entries.Perm ([⟨id, o, d⟩] ++ r.entries) :=
      entries_queue_push r d id o
    rw [if_neg hadmitted]
    refine ⟨?_, hevicts.sent.symm, hevicts.tooBig.symm, hevicts.expired.symm, ?_, rfl, hinv⟩
    · show q.contents + {d} = 0 + 0 + 0 + Multiset.ofList (q.makeSpace d.charge o).2.1 + 0 +
        (r.push d id o).contents
      rw [contents_perm hevicts.perm, contents_perm hpush]
      rw [show (q.makeSpace d.charge o).2.1 = gone.map Entry.dgram from hevicted]
      show _ = _ + ({d} + _)
      abel
    · show Multiset.card (Multiset.ofList (q.makeSpace d.charge o).2.1) = outcome.dropped
      rw [show (q.makeSpace d.charge o).2.1 = gone.map Entry.dgram from hevicted, Multiset.coe_card,
        List.length_map, hdropped]

/-! ### Sending and the removal of the queue -/

/-- The ledger of a datagram that is taken off the queue. -/
def takenLedger (d : QueuedDatagram) : Disposition → Ledger
  | .send => { written := {d} }
  | .dropTooBig => { tooBig := {d} }

lemma Moves.takeNext (hq : q.Inv) (h : q.takeNext = some (d, q')) (disposition : Disposition) :
    Moves q (takenLedger d disposition)
      (match disposition with
        | .send => q'.recordSent
        | .dropTooBig => q'.recordTooBig) := by
  obtain ⟨id, o, queue, -, hbucket, -, rfl⟩ := takeNext_eq_some h
  have hsheds := Sheds.finishRemoval hq hbucket id.next
  have hcontents := contents_perm hsheds.perm
  have hinv {r : DatagramQueue} (h : SameContents _ r) : r.Inv := h.inv hsheds.inv
  cases disposition with
  | send =>
    refine ⟨?_, rfl, rfl, rfl, rfl, rfl, hinv ⟨rfl, rfl, rfl, rfl, rfl⟩⟩
    show q.contents + 0 = {d} + 0 + 0 + 0 + 0 + _
    rw [hcontents]
    abel
  | dropTooBig =>
    refine ⟨?_, rfl, rfl, rfl, rfl, rfl, hinv ⟨rfl, rfl, rfl, rfl, rfl⟩⟩
    show q.contents + 0 = 0 + {d} + 0 + 0 + 0 + _
    rw [hcontents]
    abel

/-- The ledger of the removal of a queue. -/
def dropLedger (q : DatagramQueue) : Ledger where
  discarded := q.contents
  sentCount := q.sent
  tooBigCount := q.tooBig
  expiredCount := q.expired
  discardedCount := q.takeAll.1.length

lemma Moves.drop (q : DatagramQueue) : Moves q q.dropLedger {} where
  contents := by
    show q.contents + 0 = 0 + 0 + 0 + 0 + q.contents + 0
    abel
  sent := (zero_add _).symm
  tooBig := (zero_add _).symm
  expired := (zero_add _).symm
  evicted := rfl
  discarded := by
    show Multiset.card (Multiset.ofList _) = q.datagrams.length
    rw [Multiset.coe_card, List.length_map, length_datagrams]
  inv := Inv.new _

end DatagramQueue

end Neqo
