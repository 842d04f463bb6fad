import Neqo.Cid
import Neqo.Codec.Equiv

/-!
# Connection IDs of the peer are handed out once

The store is in the order of sequence numbers (`ConnectionIdStore.Sorted`), so the binary search of
`addRemote` finds the place for a new entry. A connection ID that leaves the store is forgotten, so
a frame that arrives again adds it again; otherwise none is handed out twice (`handedOut_nodup`).
-/

namespace Neqo

open List

namespace ConnectionIdStore

/-- The entries are in the order of their sequence numbers. -/
def Sorted {σ : Type} (s : ConnectionIdStore σ) : Prop :=
  s.cids.Pairwise fun a b => a.seqno < b.seqno

lemma sorted_empty {σ : Type} : ({} : ConnectionIdStore σ).Sorted := List.Pairwise.nil

variable {s : ConnectionIdStore Srt}

/-- What adding a connection ID can do to a store: nothing, or put it in its place. -/
lemma addRemote_cases (hs : s.Sorted) (entry : RemoteConnectionIdEntry) :
    (s.addRemote entry).1 = s ∨
      ∃ before after, s.cids = before ++ after ∧
        (s.addRemote entry).1.cids = before ++ entry :: after ∧
        (∀ c ∈ before, c.seqno < entry.seqno) ∧ ∀ c ∈ after, entry.seqno < c.seqno := by
  unfold addRemote
  by_cases hsame : (s.cids.any fun c => decide (c = entry)) = true
  · rw [if_pos hsame]
    exact .inl rfl
  rw [if_neg hsame]
  by_cases hpart : (s.cids.any fun c => c.anyPartEqual entry) = true
  · rw [if_pos hpart]
    exact .inl rfl
  rw [if_neg hpart]
  dsimp only
  -- No entry has this sequence number, so what is not below it is above it.
  have hne : ∀ c ∈ s.cids, c.seqno ≠ entry.seqno := by
    intro c hc hseqno
    refine hpart (any_eq_true.mpr ⟨c, hc, ?_⟩)
    simp [ConnectionIdEntry.anyPartEqual, hseqno]
  have hsplit : s.cids.Pairwise fun a b =>
      decide (b.seqno < entry.seqno) = true → decide (a.seqno < entry.seqno) = true := by
    refine hs.imp fun {a b} hab hb => ?_
    have := of_decide_eq_true hb
    exact decide_eq_true (by omega)
  have hbefore := fun c => PartitionPoint.of_mem_take_partitionPoint hsplit (a := c)
  have hafter := fun c => PartitionPoint.of_mem_drop_partitionPoint hsplit (a := c)
  generalize PartitionPoint.partitionPoint (fun c => decide (c.seqno < entry.seqno)) s.cids = idx
    at hbefore hafter ⊢
  have habove : ∀ c ∈ s.cids.drop idx, entry.seqno < c.seqno := by
    intro c hc
    have hge := of_decide_eq_false (hafter c hc)
    have := hne c (mem_of_mem_drop hc)
    omega
  right
  refine ⟨s.cids.take idx, s.cids.drop idx, (take_append_drop idx s.cids).symm, ?_,
    fun c hc => of_decide_eq_true (hbefore c hc), habove⟩
  cases hdrop : s.cids.drop idx with
  | nil => rfl
  | cons c =>
    have hc : c.seqno ≠ entry.seqno := by
      have := habove c (by rw [hdrop]; exact mem_cons_self)
      omega
    dsimp only
    rw [if_neg hc]

lemma Sorted.addRemote (hs : s.Sorted) (entry : RemoteConnectionIdEntry) :
    (s.addRemote entry).1.Sorted := by
  rcases addRemote_cases hs entry with h | ⟨before, after, hcids, h, hbefore, hafter⟩
  · rw [h]
    exact hs
  · unfold Sorted at hs ⊢
    rw [hcids, pairwise_append] at hs
    rw [h, pairwise_append, pairwise_cons]
    refine ⟨hs.1, ⟨hafter, hs.2.1⟩, fun a ha b hb => ?_⟩
    rcases mem_cons.mp hb with rfl | hb
    · exact hbefore a ha
    · exact hs.2.2 a ha b hb

lemma mem_addRemote (hs : s.Sorted) {entry c : RemoteConnectionIdEntry}
    (hc : c ∈ (s.addRemote entry).1.cids) : c = entry ∨ c ∈ s.cids := by
  rcases addRemote_cases hs entry with h | ⟨before, after, hcids, h, -, -⟩
  · rw [h] at hc
    exact .inr hc
  · rw [h, mem_append, mem_cons] at hc
    rw [hcids, mem_append]
    rcases hc with hc | rfl | hc
    · exact .inr (.inl hc)
    · exact .inl rfl
    · exact .inr (.inr hc)

lemma Sorted.sublist {σ : Type} {s s' : ConnectionIdStore σ} (hs : s.Sorted)
    (h : s'.cids.Sublist s.cids) : s'.Sorted := List.Pairwise.sublist h hs

lemma sublist_retirePriorTo (s : ConnectionIdStore Srt) (retirePrior : ℕ) :
    (s.retirePriorTo retirePrior).1.cids.Sublist s.cids := List.filter_sublist

lemma cids_of_next {σ : Type} {s s' : ConnectionIdStore σ} {entry : Option (ConnectionIdEntry σ)}
    (h : s.next = (s', entry)) : s.cids = entry.toList ++ s'.cids := by
  unfold next at h
  cases hcids : s.cids with
  | nil =>
    rw [hcids] at h
    obtain ⟨rfl, rfl⟩ := h
    rw [hcids]
    rfl
  | cons =>
    rw [hcids] at h
    obtain ⟨rfl, rfl⟩ := h
    rfl

end ConnectionIdStore

namespace StoreRun

open ConnectionIdStore

/-- What was handed out is no longer in the store. -/
structure Inv (r : StoreRun) : Prop where
  sorted : r.store.Sorted
  nodup : (r.handedOut.map (·.seqno)).Nodup
  not_handedOut : ∀ c ∈ r.store.cids, c.seqno ∉ r.handedOut.map (·.seqno)

lemma inv_start : ({} : StoreRun).Inv :=
  ⟨sorted_empty, nodup_nil, fun _ h => absurd h not_mem_nil⟩

lemma Inv.of_sublist {r : StoreRun} (h : r.Inv) {s : ConnectionIdStore Srt}
    (hs : s.cids.Sublist r.store.cids) : Inv { r with store := s } :=
  ⟨h.sorted.sublist hs, h.nodup, fun c hc => h.not_handedOut c (hs.subset hc)⟩

lemma Inv.next {r : StoreRun} (h : r.Inv) : (r.step .next).Inv := by
  rcases hnext : r.store.next with ⟨s, entry⟩
  have hcids := cids_of_next hnext
  simp only [step, hnext]
  cases entry with
  | none =>
    rw [Option.toList_none, append_nil]
    exact h.of_sublist (by rw [hcids]; exact sublist_append_right _ _)
  | some entry =>
    rw [Option.toList_some, singleton_append] at hcids
    have hsorted := h.sorted
    unfold Sorted at hsorted
    rw [hcids, pairwise_cons] at hsorted
    have hentry := h.not_handedOut entry (by rw [hcids]; exact mem_cons_self)
    refine ⟨hsorted.2, ?_, fun c hc => ?_⟩
    · rw [Option.toList_some, map_append, nodup_append]
      refine ⟨h.nodup, by simp, fun n hn n' hn' => ?_⟩
      rintro rfl
      rw [mem_singleton.mp hn'] at hn
      exact hentry hn
    · rw [Option.toList_some, map_append, map_singleton, mem_append,
        mem_singleton]
      rintro (hold | hsame)
      · exact h.not_handedOut c (by rw [hcids]; exact mem_cons_of_mem _ hc) hold
      · have := hsorted.1 c hc
        omega

lemma Inv.step {r : StoreRun} (h : r.Inv) (op : StoreOp) (hop : r.NotHandedOut op) :
    (r.step op).Inv := by
  cases op with
  | addRemote entry =>
    refine ⟨h.sorted.addRemote entry, h.nodup, fun c hc => ?_⟩
    rcases mem_addRemote h.sorted hc with rfl | hc
    · exact hop
    · exact h.not_handedOut c hc
  | next => exact h.next
  | retire => exact h.of_sublist filter_sublist
  | retirePriorTo => exact h.of_sublist (sublist_retirePriorTo _ _)

/-- **Connection IDs of the peer are handed out once**, if no frame arrives again after its sequence
number was handed out. -/
theorem handedOut_nodup (ops : List StoreOp) (h : Run.Along step NotHandedOut {} ops) :
    ((({} : StoreRun).run ops).handedOut.map (·.seqno)).Nodup := by
  have hinv : (({} : StoreRun).run ops).Inv :=
    h.invariant (fun _ op hinv hop => hinv.step op hop) inv_start
  exact hinv.nodup

/-- A frame that arrives twice before its connection ID is used. -/
theorem handedOut_nodup_duplicate :
    let entry : RemoteConnectionIdEntry := ⟨1, ⟨[1], by decide⟩, ⟨List.replicate 16 0, rfl⟩⟩
    let r := ({} : StoreRun).run [.addRemote entry, .addRemote entry, .next, .next]
    r.handedOut = [entry] ∧ (r.handedOut.map (·.seqno)).Nodup :=
  ⟨by decide, handedOut_nodup _ (by decide)⟩

/-- A frame arrives, its connection ID is used, the frame arrives again, and its connection ID is
used again. -/
theorem handedOut_twice :
    let entry : RemoteConnectionIdEntry := ⟨1, ⟨[1], by decide⟩, ⟨List.replicate 16 0, rfl⟩⟩
    (({} : StoreRun).run [.addRemote entry, .next, .addRemote entry, .next]).handedOut =
      [entry, entry] := by
  decide

end StoreRun

/-!
## Retired connection IDs are not announced

`writeFrames` writes exactly the frames for the tokens it returns (`writeFrames_bytes`). As long as
the loss of a frame is reported before its connection ID is retired, what waits for retransmission
was not retired (`ManagerRun.Inv`).
-/

/-! ### The frames that are written -/

namespace ConnectionIdEntry

variable {builder builder' : Builder}

lemma write_of_le_remaining (e : RemoteConnectionIdEntry) (h : 47 ≤ builder.remaining) :
    e.write builder = (builder.encode e.frame, true) := by
  have hcid : e.cid.cid.length ≤ 20 := e.cid.length_le
  have hseqno := Encoder.varintLen_le e.seqno
  have hsrt : srtLen = 16 := rfl
  unfold write
  rw [if_neg (by omega)]
  rfl

lemma bytes_of_write {e : RemoteConnectionIdEntry} (h : e.write builder = (builder', true)) :
    builder'.bytes = builder.bytes ++ e.frame := by
  unfold write at h
  dsimp only at h
  split_ifs at h with hremaining
  · exact absurd (Prod.mk.inj h).2 Bool.false_ne_true
  · rw [← (Prod.mk.inj h).1]
    rfl

lemma eq_of_write_false {e : RemoteConnectionIdEntry} (h : e.write builder = (builder', false)) :
    builder' = builder := by
  unfold write at h
  dsimp only at h
  split_ifs at h with hremaining
  · exact (Prod.mk.inj h).1.symm
  · exact absurd (Prod.mk.inj h).2.symm Bool.false_ne_true

end ConnectionIdEntry

namespace ConnectionIdManager

open ConnectionIdEntry

variable {tokens : List RemoteConnectionIdEntry} {builder builder' : Builder}

lemma writeLost_spec {lost lost' : List RemoteConnectionIdEntry}
    (h : writeLost lost builder = (lost', builder', tokens)) :
    lost = tokens ++ lost' ∧ builder'.bytes = builder.bytes ++ tokens.flatMap frame := by
  induction lost generalizing lost' tokens builder builder' with
  | nil =>
    obtain ⟨rfl, rfl, rfl⟩ := h
    exact ⟨rfl, (append_nil _).symm⟩
  | cons entry lost ih =>
    rw [writeLost] at h
    rcases hwrite : entry.write builder with ⟨builder₁, _ | _⟩ <;> rw [hwrite] at h
    · obtain ⟨rfl, rfl, rfl⟩ := h
      rw [eq_of_write_false hwrite]
      exact ⟨rfl, (append_nil _).symm⟩
    · rcases hrest : writeLost lost builder₁ with ⟨lost₁, builder₂, tokens₁⟩
      dsimp only at h
      rw [hrest] at h
      obtain ⟨rfl, rfl, rfl⟩ := h
      obtain ⟨hlost, hbytes⟩ := ih hrest
      refine ⟨by rw [hlost, cons_append], ?_⟩
      rw [hbytes, bytes_of_write hwrite, flatMap_cons, append_assoc]

/-- What writing frames for new connection IDs does: the frames have new sequence numbers. -/
structure Issues (m m' : ConnectionIdManager) (builder builder' : Builder)
    (tokens : List RemoteConnectionIdEntry) : Prop where
  bytes : builder'.bytes = builder.bytes ++ tokens.flatMap frame
  nextSeqno_le : m.nextSeqno ≤ m'.nextSeqno
  seqno_ge : ∀ e ∈ tokens, m.nextSeqno ≤ e.seqno
  lost_eq : m'.lostNewConnectionId = m.lostNewConnectionId

lemma writeNew_issues {generated : List GeneratedCid} {m m' : ConnectionIdManager}
    (h : writeNew generated m builder = (m', builder', tokens)) :
    Issues m m' builder builder' tokens := by
  have hnothing : ∀ {m : ConnectionIdManager} {builder : Builder}, Issues m m builder builder [] :=
    ⟨(append_nil _).symm, le_refl _, fun e he => absurd he not_mem_nil, rfl⟩
  induction generated generalizing m m' builder builder' tokens with
  | nil =>
    obtain ⟨rfl, rfl, rfl⟩ := h
    exact hnothing
  | cons g generated ih =>
    rw [writeNew] at h
    split_ifs at h with hspace
    · dsimp only at h
      generalize hentry : (⟨m.nextSeqno, g.cid, g.srt⟩ : RemoteConnectionIdEntry) = entry at h
      rw [write_of_le_remaining entry hspace.2] at h
      generalize hm₁ : ({ m with
        connectionIds := m.connectionIds.addLocal ⟨m.nextSeqno, g.cid, ()⟩
        nextSeqno := m.nextSeqno + 1 } : ConnectionIdManager) = m₁ at h
      rcases hrest : writeNew generated m₁ (builder.encode entry.frame) with ⟨m₂, builder₂, tokens₁⟩
      rw [hrest] at h
      obtain ⟨rfl, rfl, rfl⟩ := h
      have hissues := ih hrest
      have hnext : m₁.nextSeqno = m.nextSeqno + 1 := by rw [← hm₁]
      have hle := hissues.nextSeqno_le
      refine ⟨?_, ?_, fun e he => ?_, ?_⟩
      · rw [hissues.bytes, flatMap_cons, ← append_assoc]
        rfl
      · show m.nextSeqno ≤ m₂.nextSeqno
        omega
      · rcases mem_cons.mp he with rfl | he
        · rw [← hentry]
        · have := hissues.seqno_ge e he
          omega
      · rw [hissues.lost_eq, ← hm₁]
    · obtain ⟨rfl, rfl, rfl⟩ := h
      exact hnothing

/-- **The frames that are written** are for entries that were lost, which then wait no more, or have
a new sequence number. -/
structure Writes (m m' : ConnectionIdManager) (builder builder' : Builder)
    (tokens : List RemoteConnectionIdEntry) : Prop where
  bytes : builder'.bytes = builder.bytes ++ tokens.flatMap frame
  nextSeqno_le : m.nextSeqno ≤ m'.nextSeqno
  lost_subset : m'.lostNewConnectionId ⊆ m.lostNewConnectionId
  lost_or_new : ∀ e ∈ tokens, e ∈ m.lostNewConnectionId ∨ m.nextSeqno ≤ e.seqno

lemma writeFrames_writes {m m' : ConnectionIdManager} {generated : List GeneratedCid}
    (h : m.writeFrames builder generated = (m', builder', tokens)) :
    Writes m m' builder builder' tokens := by
  unfold writeFrames at h
  split_ifs at h with hempty
  · obtain ⟨rfl, rfl, rfl⟩ := h
    exact ⟨(append_nil _).symm, le_refl _, fun e he => he,
      fun e he => absurd he not_mem_nil⟩
  · rcases hlost : writeLost m.lostNewConnectionId.reverse builder with ⟨lost, builder₁, resent⟩
    rw [hlost] at h
    dsimp only at h
    rcases hnew : writeNew generated { m with lostNewConnectionId := lost.reverse } builder₁ with
      ⟨m₁, builder₂, issued⟩
    rw [hnew] at h
    obtain ⟨rfl, rfl, rfl⟩ := h
    obtain ⟨hqueue, hbytes⟩ := writeLost_spec hlost
    have hissues := writeNew_issues hnew
    have hmem : ∀ e, e ∈ resent ∨ e ∈ lost → e ∈ m.lostNewConnectionId := by
      intro e he
      rw [← mem_reverse, hqueue]
      exact mem_append.mpr he
    refine ⟨?_, hissues.nextSeqno_le, fun e he => ?_, fun e he => ?_⟩
    · rw [hissues.bytes, hbytes, flatMap_append, append_assoc]
    · rw [hissues.lost_eq] at he
      exact hmem e (.inr (mem_reverse.mp he))
    · rcases mem_append.mp he with he | he
      · exact .inl (hmem e (.inl he))
      · exact .inr (hissues.seqno_ge e he)

lemma preferredAddressCid_keeps (m : ConnectionIdManager) (generated : Option GeneratedCid) :
    m.nextSeqno ≤ (m.preferredAddressCid generated).1.nextSeqno ∧
      (m.preferredAddressCid generated).1.lostNewConnectionId = m.lostNewConnectionId := by
  unfold preferredAddressCid
  by_cases hempty : m.generatesEmptyCids = true
  · rw [if_pos hempty]
    exact ⟨le_refl _, rfl⟩
  rw [if_neg hempty]
  cases generated with
  | none => exact ⟨le_refl _, rfl⟩
  | some =>
    split_ifs
    · exact ⟨le_refl _, rfl⟩
    · exact ⟨Nat.le_succ _, rfl⟩

end ConnectionIdManager

/-! ### Runs -/

namespace ManagerRun

/-- What was retired has been issued, and does not wait for retransmission. -/
structure Inv (r : ManagerRun) : Prop where
  retired_lt : ∀ seqno ∈ r.retired, seqno < r.manager.nextSeqno
  lost_not_retired : ∀ e ∈ r.manager.lostNewConnectionId, e.seqno ∉ r.retired

lemma inv_start (generatesEmptyCids : Bool) (initial : ConnectionId) :
    (start generatesEmptyCids initial).Inv :=
  ⟨fun _ h => absurd h not_mem_nil, fun _ h => absurd h not_mem_nil⟩

/-- A change that neither adds to what waits for retransmission nor to what was retired. -/
lemma Inv.of_manager {r : ManagerRun} (h : r.Inv) {m : ConnectionIdManager}
    {issued : List RemoteConnectionIdEntry} (hnext : r.manager.nextSeqno ≤ m.nextSeqno)
    (hlost : m.lostNewConnectionId ⊆ r.manager.lostNewConnectionId) :
    Inv { r with manager := m, issued := issued } :=
  ⟨fun seqno hseqno => lt_of_lt_of_le (h.retired_lt seqno hseqno) hnext,
    fun e he => h.lost_not_retired e (hlost he)⟩

lemma Inv.retire {r : ManagerRun} (h : r.Inv) (seqno : ℕ) : (r.step (.retire seqno)).Inv := by
  simp only [step, ConnectionIdManager.retire]
  by_cases hissued : seqno ≥ r.manager.nextSeqno
  · simpa only [if_pos hissued] using h
  simp only [if_neg hissued]
  by_cases hempty : r.manager.emptyCid seqno = true
  · simpa only [if_pos hempty] using h
  simp only [if_neg hempty]
  refine ⟨fun n hn => ?_, fun e he hretired => ?_⟩
  · rcases mem_cons.mp hn with rfl | hn
    · exact Nat.lt_of_not_le hissued
    · exact h.retired_lt n hn
  · obtain ⟨he, hne⟩ := mem_filter.mp he
    rcases mem_cons.mp hretired with heq | hretired
    · exact absurd heq (of_decide_eq_true hne)
    · exact h.lost_not_retired e he hretired

lemma Inv.step {r : ManagerRun} (h : r.Inv) (op : ManagerOp) (hop : r.LostInTime op) :
    (r.step op).Inv := by
  cases op with
  | writeFrames builder generated =>
    rcases hwrite : r.manager.writeFrames builder generated with ⟨m, builder', tokens⟩
    have hwrites := ConnectionIdManager.writeFrames_writes hwrite
    simp only [ManagerRun.step, hwrite]
    exact h.of_manager hwrites.nextSeqno_le hwrites.lost_subset
  | retire seqno => exact h.retire seqno
  | lost =>
    refine ⟨h.retired_lt, fun e he => ?_⟩
    rcases mem_append.mp he with he | he
    · exact h.lost_not_retired e he
    · rw [mem_singleton.mp he]
      exact hop
  | acked => exact h.of_manager (le_refl _) filter_sublist.subset
  | preferredAddressCid generated =>
    obtain ⟨hnext, hlost⟩ := r.manager.preferredAddressCid_keeps generated
    exact h.of_manager hnext (hlost ▸ List.Subset.refl _)
  | addOdcid | removeOdcid => exact h.of_manager (le_refl _) (List.Subset.refl _)
  | setLimit limit =>
    simp only [ManagerRun.step, ConnectionIdManager.setLimit]
    by_cases hlimit : limit < 2
    · simpa only [if_pos hlimit] using h
    · simp only [if_neg hlimit]
      exact h.of_manager (le_refl _) (List.Subset.refl _)

lemma inv_run {generatesEmptyCids : Bool} {initial : ConnectionId} {ops : List ManagerOp}
    (h : Run.Along step LostInTime (start generatesEmptyCids initial) ops) :
    ((start generatesEmptyCids initial).run ops).Inv :=
  h.invariant (fun _ op hinv hop => hinv.step op hop) (inv_start generatesEmptyCids initial)

/-- **Retired connection IDs are not announced**: if no loss is reported for a connection ID after
it was retired, the frames written at any time are for connection IDs that were not retired. -/
theorem writeFrames_not_retired (generatesEmptyCids : Bool) (initial : ConnectionId)
    (ops : List ManagerOp) (h : Run.Along step LostInTime (start generatesEmptyCids initial) ops)
    (builder : Builder) (generated : List GeneratedCid) :
    let r := (start generatesEmptyCids initial).run ops
    let written := r.manager.writeFrames builder generated
    written.2.1.bytes = builder.bytes ++ written.2.2.flatMap ConnectionIdEntry.frame ∧
      ∀ e ∈ written.2.2, e.seqno ∉ r.retired := by
  intro r written
  have hinv : r.Inv := inv_run h
  have hwrites : ConnectionIdManager.Writes r.manager written.1 builder written.2.1 written.2.2 :=
    ConnectionIdManager.writeFrames_writes rfl
  refine ⟨hwrites.bytes, fun e he hretired => ?_⟩
  rcases hwrites.lost_or_new e he with hlost | hnew
  · exact hinv.lost_not_retired e hlost hretired
  · have := hinv.retired_lt e.seqno hretired
    omega

/-- The loss of a frame is reported before its connection ID is retired: then it is not announced
again. -/
theorem writeFrames_not_retired_lost_first :
    let generated : GeneratedCid := ⟨⟨[1], by decide⟩, ⟨List.replicate 16 0, rfl⟩, rfl⟩
    let entry : RemoteConnectionIdEntry := ⟨1, generated.cid, generated.srt⟩
    let ops : List ManagerOp :=
      [.writeFrames { limit := 100 } [generated], .lost entry, .retire 1]
    let r := (start false ⟨[7], by decide⟩).run ops
    r.retired = [1] ∧ ∀ e ∈ (r.manager.writeFrames { limit := 100 } [generated]).2.2,
      e.seqno ∉ r.retired :=
  ⟨rfl, (writeFrames_not_retired false ⟨[7], by decide⟩
    [.writeFrames { limit := 100 } [⟨⟨[1], by decide⟩, ⟨List.replicate 16 0, rfl⟩, rfl⟩],
      .lost ⟨1, ⟨[1], by decide⟩, ⟨List.replicate 16 0, rfl⟩⟩, .retire 1]
    (by decide) { limit := 100 } _).2⟩

/-- A frame is written, its connection ID is retired, and then the frame is declared lost: the
connection ID is announced again. -/
theorem announced_after_retired :
    let generated : GeneratedCid := ⟨⟨[1], by decide⟩, ⟨List.replicate 16 0, rfl⟩, rfl⟩
    let entry : RemoteConnectionIdEntry := ⟨1, generated.cid, generated.srt⟩
    let ops : List ManagerOp :=
      [.writeFrames { limit := 100 } [generated], .retire 1, .lost entry]
    let r := (start false ⟨[7], by decide⟩).run ops
    Run.Along step Reported (start false ⟨[7], by decide⟩) ops ∧ r.retired = [1] ∧
      (r.manager.writeFrames { limit := 100 } []).2.1.bytes = entry.frame ∧
      (r.manager.writeFrames { limit := 100 } []).2.2 = [entry] := by
  decide

end ManagerRun

end Neqo
