import Neqo.Cid.Equiv
import Neqo.Path.Equiv.Basic

/-!
# Retire Prior To

When a `NEW_CONNECTION_ID` frame is handled, the connection IDs below its Retire Prior To leave the
store and the paths. The store does not remember that, so a delayed frame adds such a connection ID
again (`retirePrior_forgotten`); otherwise Retire Prior To is honoured for ever
(`honoursRetirePrior_of_notRetired`).
-/

namespace Neqo

open ConnectionIdManager ConnectionIdStore Except List

variable {S T : Type}

namespace Paths

/-! ### Operations that bring no connection IDs -/

/-- Paths may be dropped and all keep their connection IDs. -/
structure Shrinks (s s' : Paths S T) : Prop where
  subset : s'.paths ⊆ s.paths
  remoteCid_eq : ∀ q, (s'.heap q).remoteCid = (s.heap q).remoteCid

lemma Shrinks.refl (s : Paths S T) : Shrinks s s := ⟨List.Subset.refl _, fun _ => rfl⟩

variable {s s' : Paths S T}

lemma Shrinks.trans {s'' : Paths S T} (h : Shrinks s s') (h' : Shrinks s' s'') : Shrinks s s'' :=
  ⟨fun _ hp => h.subset (h'.subset hp), fun q => (h'.remoteCid_eq q).trans (h.remoteCid_eq q)⟩

lemma Touches.shrinks (h : Touches s s') : Shrinks s s' :=
  ⟨fun _ hp => h.paths ▸ hp, fun q => (h.keeps q).remoteCid⟩

lemma Selects.shrinks {path : PathRef} (h : Selects s s' path) :
    Shrinks s s' := ⟨h.perm.subset, h.remoteCid_eq⟩

lemma Migrates.shrinks (h : Migrates s s') : Shrinks s s' := by
  induction h with
  | refl => exact .refl s
  | touch _ ht ih => exact ih.trans ht.shrinks
  | select _ hs ih => exact ih.trans hs.shrinks
  | aim _ _ ih => exact ⟨ih.subset, ih.remoteCid_eq⟩

lemma processTimeout_shrinks {now pto : ℕ} {viable : Bool}
    (h : s.processTimeout now pto = .ok (s', viable)) : Shrinks s s' := by
  unfold processTimeout at h
  have helapsed := timeouts_elapsed now pto s.paths s.heap
  generalize timeouts now pto s.paths s.heap = t at helapsed h
  have hrest : ∀ primary, Shrinks s { s with
      heap := t.heap, paths := t.paths, primary := primary,
      toRetire := s.toRetire ++ t.toRetire } :=
    fun _ => ⟨helapsed.sublist.subset, fun q => (helapsed.keeps q).remoteCid⟩
  dsimp only at h
  split_ifs at h
  · rcases failOver_cases h with rfl | ⟨fallback, hselects⟩
    · exact hrest none
    · exact (hrest none).trans hselects.shrinks
  · obtain ⟨rfl, -⟩ := Prod.mk.inj (ok.inj h)
    exact (hrest s.primary).trans (touches_fireRaiseTimer _ now).shrinks

/-! ### Operations that bring connection IDs -/

lemma remoteCid_makePermanent {path : PathRef} {localCid : Option ConnectionId}
    {remoteCid : RemoteConnectionIdEntry} (h : s.makePermanent path localCid remoteCid = .ok s')
    {p : PathRef} (hp : p ∈ s'.paths) {e : RemoteConnectionIdEntry}
    (he : (s'.heap p).remoteCid = some e) :
    e = remoteCid ∨ p ∈ s.paths ∧ (s.heap p).remoteCid = some e := by
  unfold makePermanent at h
  split_ifs at h
  obtain ⟨s₁, hevict, h⟩ := bind_eq_ok.mp h
  obtain ⟨hheap, hsublist⟩ := evict_sublist hevict
  have hshrinks : Shrinks (s₁.adopt path localCid remoteCid) s' := by
    rcases ensurePrimary_cases h (s₁.mem_adopt path localCid remoteCid) with rfl | hselects
    · exact .refl _
    · exact hselects.shrinks
  rw [hshrinks.remoteCid_eq] at he
  have hp := hshrinks.subset hp
  by_cases hpath : p = path
  · rw [hpath, heap_adopt_self] at he
    exact .inl (Option.some.inj he).symm
  · rw [heap_adopt_of_ne s₁ hpath, hheap] at he
    rcases mem_append.mp hp with hp | hp
    · exact .inr ⟨hsublist.subset hp, he⟩
    · exact absurd (mem_singleton.mp hp) hpath

/-- A connection ID that need not be retired. -/
def Current (retirePrior : ℕ) (e : RemoteConnectionIdEntry) : Prop :=
  e.cid.isEmpty = false → retirePrior ≤ e.seqno

lemma Current.mono {n n' : ℕ} (h : n ≤ n') {e : RemoteConnectionIdEntry} (he : Current n' e) :
    Current n e := fun hcid => le_trans h (he hcid)

/-- After connection IDs are replaced, those in the store and those of the paths are current, and a
path only has a connection ID that it had, or one that is current. -/
lemma replaceCids_current {retirePrior old : ℕ} {l : List PathRef} {heap : PathRef → Path S T}
    {store : ConnectionIdStore Srt} {target : Option PathRef} {r : Retirement S T}
    (hstore : ∀ e ∈ store.cids, Current (max old retirePrior) e)
    (hpaths : ∀ p ∈ l, ∀ e, (heap p).remoteCid = some e → Current old e)
    (h : replaceCids retirePrior l heap store target = .ok r) :
    r.store.cids.Sublist store.cids ∧
      (∀ p e, (r.heap p).remoteCid = some e →
        Current (max old retirePrior) e ∨ (heap p).remoteCid = some e) ∧
      ∀ p ∈ r.paths, ∀ e, (r.heap p).remoteCid = some e → Current (max old retirePrior) e := by
  induction l generalizing heap store target r with
  | nil =>
    obtain rfl := ok.inj h
    exact ⟨List.Sublist.refl _, fun _ _ he => .inr he, fun _ hp => absurd hp not_mem_nil⟩
  | cons p l ih =>
    obtain ⟨heap', store', target', rest, hrest, hheap, hstore', -, hstep⟩ := replaceCids_cons h
    -- What the paths have after this step, the first of them in particular.
    obtain ⟨hsub, hhas', hfirst, hpaths'⟩ : store'.cids.Sublist store.cids ∧
        (∀ q e, (heap' q).remoteCid = some e →
          Current (max old retirePrior) e ∨ (heap q).remoteCid = some e) ∧
        (∀ e, (heap' p).remoteCid = some e → Current (max old retirePrior) e) ∧
        (r.paths = p :: rest.paths ∨ r.paths = rest.paths) := by
      rcases hstep with ⟨rfl, rfl, -, hkept, hcurrent⟩ | ⟨newCid, rfl, hnext, hkept⟩
      · refine ⟨List.Sublist.refl _, fun q e he => .inr he, fun e he hne => ?_, .inl hkept⟩
        exact max_le (hpaths p mem_cons_self e he hne) (hcurrent e he hne)
      · -- A new connection ID is from the store.
        have hcids := cids_of_next hnext
        have hnew : ∀ e, newCid = some e → Current (max old retirePrior) e := by
          intro e he
          refine hstore e ?_
          rw [hcids, he]
          exact mem_cons_self
        refine ⟨hcids ▸ sublist_append_right _ _, fun q e he => ?_, fun e he => ?_, ?_⟩
        · by_cases hq : q = p
          · rw [hq, Function.update_self] at he
            exact .inl (hnew e he)
          · rw [Function.update_of_ne hq] at he
            exact .inr he
        · rw [Function.update_self] at he
          exact hnew e he
        · exact hkept.imp (fun h => h.2.2) fun h => h.2.2.1
    have hrest' : ∀ q ∈ l, ∀ e, (heap' q).remoteCid = some e → Current old e := by
      intro q hq e he
      rcases hhas' q e he with hcur | he
      · exact hcur.mono (le_max_left ..)
      · exact hpaths q (mem_cons_of_mem _ hq) e he
    obtain ⟨hsub', hhas, hkept⟩ := ih (fun e he => hstore e (hsub.subset he)) hrest' hrest
    rw [hheap, hstore']
    refine ⟨hsub'.trans hsub, fun q e he => ?_, fun q hq e he => ?_⟩
    · rcases hhas q e he with hcur | he
      · exact .inl hcur
      · exact hhas' q e he
    · have hq : q = p ∨ q ∈ rest.paths := by
        rcases hpaths' with h | h <;> rw [h] at hq
        · exact mem_cons.mp hq
        · exact .inr hq
      rcases hq with rfl | hq
      · exact (hhas q e he).elim id (hfirst e)
      · exact hkept q hq e he

lemma retireCids_current {retirePrior old : ℕ} {store store' : ConnectionIdStore Srt}
    (hprior : retirePrior ≤ seqnoEmpty) (hstore : ∀ e ∈ store.cids, Current old e)
    (hpaths : ∀ p ∈ s.paths, ∀ e, (s.heap p).remoteCid = some e → Current old e)
    (h : s.retireCids retirePrior store = .ok (s', store')) :
    store'.cids.Sublist store.cids ∧ (∀ e ∈ store'.cids, Current (max old retirePrior) e) ∧
      ∀ p ∈ s'.paths, ∀ e, (s'.heap p).remoteCid = some e → Current (max old retirePrior) e := by
  obtain ⟨r, hreplace, h⟩ := bind_eq_ok.mp h
  obtain ⟨rfl, rfl⟩ := Prod.mk.inj (ok.inj h)
  -- What the store keeps is empty or not prior.
  have hkept : ∀ e ∈ (store.retirePriorTo retirePrior).1.cids,
      Current (max old retirePrior) e := by
    intro e he hne
    obtain ⟨hmem, hnot⟩ := mem_filter.mp he
    have hold := hstore e hmem hne
    simp only [ConnectionIdEntry.isEmpty, hne, Bool.or_false, Bool.not_and, Bool.not_not,
      Bool.or_eq_true, decide_eq_true_eq, Bool.not_eq_true', decide_eq_false_iff_not] at hnot
    rcases hnot with hempty | hge
    · omega
    · omega
  obtain ⟨hsub, -, hcurrent⟩ := replaceCids_current hkept hpaths hreplace
  exact ⟨hsub.trans (sublist_retirePriorTo store retirePrior),
    fun e he => hkept e (hsub.subset he), hcurrent⟩

end Paths

/-! ### Runs -/

namespace PeerCids

open Paths (Current Shrinks)

/-- The store is in order, and nothing in it or on a path should have been retired. -/
structure Inv (c : PeerCids S T) : Prop where
  sorted : c.cids.Sorted
  honours : c.HonoursRetirePrior

variable {c c' : PeerCids S T}

lemma Inv.shrinks (h : c.Inv) {s : Paths S T} (hs : Shrinks c.paths s) :
    Inv { c with paths := s } := by
  refine ⟨h.sorted, h.honours.1, fun p hp e he => ?_⟩
  rw [hs.remoteCid_eq] at he
  exact h.honours.2 p (hs.subset hp) e he

lemma Inv.newConnectionId (h : c.Inv) {frame : NewConnectionId}
    (hframe : c.largestRetirePrior ≤ frame.sequenceNumber) (hnew : c.newConnectionId frame = .ok c')
    : c'.Inv := by
  unfold PeerCids.newConnectionId at hnew
  generalize hentry : (⟨frame.sequenceNumber, frame.connectionId, frame.statelessResetToken⟩ :
    RemoteConnectionIdEntry) = entry at hnew
  have hseqno : entry.seqno = frame.sequenceNumber := by rw [← hentry]
  rcases hadd : c.cids.addRemote entry with ⟨cids, _ | _⟩ <;> rw [hadd] at hnew
  · exact nomatch hnew
  have hsorted : cids.Sorted := by
    have := h.sorted.addRemote entry
    rwa [hadd] at this
  have hcurrent : ∀ e ∈ cids.cids, Current c.largestRetirePrior e := by
    intro e he hne
    have hmem : e ∈ (c.cids.addRemote entry).1.cids := by rw [hadd]; exact he
    rcases mem_addRemote h.sorted hmem with rfl | he
    · omega
    · exact h.honours.1 e he hne
  dsimp only at hnew
  cases hretire : c.paths.retireCids frame.retirePrior cids with
  | error =>
    rw [hretire] at hnew
    exact nomatch hnew
  | ok r =>
    obtain ⟨paths, cids'⟩ := r
    rw [hretire] at hnew
    dsimp only at hnew
    split_ifs at hnew
    obtain rfl := ok.inj hnew
    have hprior : frame.retirePrior ≤ seqnoEmpty := by
      have h₁ := frame.retirePrior_le
      have h₂ := frame.sequenceNumber_lt
      unfold seqnoEmpty
      omega
    obtain ⟨hsub, hstore, hpaths⟩ :=
      Paths.retireCids_current hprior hcurrent h.honours.2 hretire
    exact ⟨hsorted.sublist hsub, hstore, hpaths⟩

lemma Inv.ensurePermanent (h : c.Inv) {path : PathRef} {srt : Srt}
    (hensure : c.ensurePermanent path srt = .ok c') : c'.Inv := by
  -- Whatever the connection ID of the new path is, it is current.
  have hmake : ∀ {paths : Paths S T} {cids : ConnectionIdStore Srt} {cid : RemoteConnectionIdEntry},
      c.paths.makePermanent path none cid = .ok paths → cids.cids.Sublist c.cids.cids →
      Current c.largestRetirePrior cid → Inv { c with paths := paths, cids := cids } := by
    intro paths cids cid hmake hsub hcid
    refine ⟨h.sorted.sublist hsub, fun e he => h.honours.1 e (hsub.subset he),
      fun p hp e he => ?_⟩
    rcases Paths.remoteCid_makePermanent hmake hp he with rfl | ⟨hp, he⟩
    · exact hcid
    · exact h.honours.2 p hp e he
  unfold PeerCids.ensurePermanent at hensure
  split_ifs at hensure with htemporary
  · rcases hnext : c.cids.next with ⟨cids, _ | cid⟩ <;> rw [hnext] at hensure
    · cases hprimary : c.paths.primary with
      | none =>
        rw [hprimary] at hensure
        exact nomatch hensure
      | some =>
        rw [hprimary] at hensure
        dsimp only at hensure
        split_ifs at hensure
        obtain ⟨paths, hpermanent, hensure⟩ := bind_eq_ok.mp hensure
        obtain rfl := ok.inj hensure
        exact hmake hpermanent (List.Sublist.refl _) fun hne => nomatch hne
    · have hcids := cids_of_next hnext
      obtain ⟨paths, hpermanent, hensure⟩ := bind_eq_ok.mp hensure
      obtain rfl := ok.inj hensure
      refine hmake hpermanent ?_ (h.honours.1 cid ?_)
      · rw [hcids]
        exact sublist_append_right _ _
      · rw [hcids]
        exact mem_cons_self
  · obtain rfl := ok.inj hensure
    exact h

lemma Inv.onPaths (h : c.Inv) {op : PathsOp}
    (hop : ∀ {s}, c.paths.apply op = .ok s → Shrinks c.paths s) (happly : c.onPaths op = .ok c') :
    c'.Inv := by
  obtain ⟨s, hs, happly⟩ := bind_eq_ok.mp happly
  obtain rfl := ok.inj happly
  exact h.shrinks (hop hs)

lemma Inv.apply (h : c.Inv) {op : PeerCidsOp} (hop : c.NotRetired op)
    (happly : c.apply op = .ok c') : c'.Inv := by
  cases op with
  | newConnectionId => exact h.newConnectionId hop happly
  | ensurePermanent => exact h.ensurePermanent happly
  | migrate | handleMigration | pathResponse | writeFrames =>
    exact h.onPaths (fun hs => (Paths.apply_migrates rfl hs).shrinks) happly
  | processTimeout =>
    refine h.onPaths (fun hs => ?_) happly
    obtain ⟨⟨s, viable⟩, hprocess, rfl⟩ := map_eq_ok.mp hs
    exact Paths.processTimeout_shrinks hprocess
  | retired seqno | lostRetireCid seqno =>
    obtain rfl := ok.inj happly
    exact h.shrinks ⟨List.Subset.refl _, fun _ => rfl⟩

lemma Inv.step (h : c.Inv) {op : PeerCidsOp} (hop : c.NotRetired op) : (c.step op).Inv := by
  unfold PeerCids.step
  cases happly : c.apply op with
  | ok => exact h.apply hop happly
  | error => exact h

lemma inv_start (paths : Paths S T) : (start paths).Inv :=
  ⟨sorted_empty, fun _ he => absurd he not_mem_nil,
    fun _ _ e _ _ => Nat.zero_le e.seqno⟩

/-- **Retire Prior To is honoured for ever**, if no frame arrives with a sequence number below the
largest Retire Prior To before it. -/
theorem honoursRetirePrior_of_notRetired (paths : Paths S T) (ops : List PeerCidsOp)
    (h : Run.Along step NotRetired (start paths) ops) :
    ((start paths).run ops).HonoursRetirePrior := by
  have hinv : ((start paths).run ops).Inv :=
    h.invariant (fun _ _ hinv hop => hinv.step hop) (inv_start paths)
  exact hinv.honours

/-- A frame makes the connection ID of the handshake be retired; the one that the primary path then
has need not be. -/
theorem honoursRetirePrior_of_frame :
    let sender : PacketSender ClassicSlowStart NewReno := .new {} {} false false (.new .v4 none) 0
    let cid : ConnectionId := ⟨[1], by decide⟩
    let srt : Srt := ⟨List.replicate 16 0, rfl⟩
    let paths := (Paths.new (fun _ => Path.temporary sender 100) false).run
      [.makePermanent 0 none ⟨0, cid, srt⟩]
    let c := (start paths).run [.newConnectionId ⟨2, cid, srt, 2, by decide, by decide⟩]
    (c.paths.heap 0).remoteCid = some ⟨2, cid, srt⟩ ∧ c.largestRetirePrior = 2 ∧
      c.HonoursRetirePrior :=
  ⟨by decide, by decide, honoursRetirePrior_of_notRetired _ _ (by decide)⟩

/-- A frame that retires all connection IDs below 2 arrives before the one for connection ID 1,
which is then kept. -/
theorem retirePrior_forgotten :
    let sender : PacketSender ClassicSlowStart NewReno := .new {} {} false false (.new .v4 none) 0
    let cid (n : UInt8) : ConnectionId := ⟨[n], by simp [maxConnectionIdLen]⟩
    let srt (n : UInt8) : Srt := ⟨List.replicate 16 n, rfl⟩
    let paths := (Paths.new (fun _ => Path.temporary sender 100) false).run
      [.makePermanent 0 none ⟨0, cid 0, srt 0⟩]
    let ops : List PeerCidsOp :=
      [.newConnectionId ⟨2, cid 2, srt 2, 2, by decide, by decide⟩,
        .newConnectionId ⟨1, cid 1, srt 1, 0, by decide, by decide⟩]
    let c := (start paths).run ops
    Run.Along step (fun c op => (c.apply op).isOk = true) (start paths) ops ∧
      c.cids.cids = [⟨1, cid 1, srt 1⟩] ∧ c.largestRetirePrior = 2 ∧ ¬ c.HonoursRetirePrior := by
  intro sender cid srt paths ops c
  have hcids : c.cids.cids = [⟨1, cid 1, srt 1⟩] := by decide
  have hlargest : c.largestRetirePrior = 2 := by decide
  refine ⟨by decide, hcids, hlargest, fun h => ?_⟩
  have hle := h.1 ⟨1, cid 1, srt 1⟩ (by rw [hcids]; exact mem_cons_self) rfl
  exact absurd hle (by decide)

end PeerCids

end Neqo
