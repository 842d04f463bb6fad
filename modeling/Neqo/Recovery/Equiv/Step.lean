import Neqo.Cc.Equiv.Window
import Neqo.Recovery.Loss

/-!
# The packets of one packet number space

How acknowledgment, loss detection, cleanup and a PTO change the packets that are tracked and how
many bytes of them are outstanding. Cleanup looks for the end of the expired packets by bisection,
and it takes only lost packets because loss detection declares packets lost from the oldest on: what
is lost comes first (`LostFirst`).
-/

namespace Neqo

open List PacketNumberSpace PartitionPoint Sent

namespace Sent

/-- What identifies a packet. -/
def Packet.key (p : Packet) : PacketType × ℕ := (p.pt, p.pn)

lemma Packet.space_of_key {p q : Packet} (h : p.key = q.key) : p.space = q.space :=
  congrArg (fun k : PacketType × ℕ => ofType k.1) h

/-- What never changes once the packet is sent, unless the connection migrates. -/
def Packet.tag (p : Packet) : (PacketType × ℕ) × Bool := (p.key, p.primaryPath)

/-- The packet without the mark that a PTO leaves on it. -/
def Packet.unmarked (p : Packet) : Packet := { p with ptoFired := false }

lemma bytesOf_map {f : Packet → Bool} (g : Packet → Packet) (hf : ∀ p, f (g p) = f p)
    (hlen : ∀ p, (g p).len = p.len) (ps : Packets) : bytesOf f (ps.map g) = bytesOf f ps := by
  induction ps with
  | nil => rfl
  | cons p ps ih => rw [map_cons, bytesOf_cons, bytesOf_cons, hf, hlen, ih]

namespace Packets

/-- The spaces and numbers of packets. -/
def keys (ps : Packets) : List (PacketType × ℕ) := ps.map Packet.key

/-- The total length of the packets whose loss or acknowledgment is pending. -/
def outstanding (ps : Packets) : ℕ := bytesOf Packet.ccOutstanding ps

/-- Packets sent before a lost packet are lost. -/
def LostFirst (ps : Packets) : Prop := ps.Pairwise fun p q => q.lost = true → p.lost = true

/-- Some packets are no longer tracked and others are marked or lost, such that `n` bytes are no
longer outstanding. -/
structure Releases (ps ps' : Packets) (n : ℕ) : Prop where
  tags : (ps'.map Packet.tag).Sublist (ps.map Packet.tag)
  lostFirst : ps.LostFirst → ps'.LostFirst
  outstanding : ps.LostFirst → ps'.outstanding + n = ps.outstanding

variable (ps : Packets)

lemma Releases.refl : Releases ps ps 0 := ⟨List.Sublist.refl _, id, fun _ => rfl⟩

lemma Releases.trans {ps ps' ps'' : Packets} {n m : ℕ} (h : Releases ps ps' n)
    (h' : Releases ps' ps'' m) : Releases ps ps'' (n + m) := by
  refine ⟨h'.tags.trans h.tags, fun hlost => h'.lostFirst (h.lostFirst hlost), fun hlost => ?_⟩
  have hfirst := h.outstanding hlost
  have hsecond := h'.outstanding (h.lostFirst hlost)
  omega

lemma Releases.nil : Releases ps [] ps.outstanding :=
  ⟨nil_sublist _, fun _ => List.Pairwise.nil, fun _ => zero_add _⟩

/-! ### Acknowledgment -/

lemma takeRange_split (start last : ℕ) :
    ∃ before taken after, ps = before ++ taken ++ after ∧
      takeRange ps start last = (before ++ after, taken.reverse) := by
  unfold takeRange
  dsimp only
  generalize partitionPoint (fun p : Packet => decide (p.pn < start)) ps = i
  generalize partitionPoint (fun p : Packet => decide (p.pn ≤ last)) ps = j
  split_ifs with hle
  · exact ⟨ps, [], [], by simp, by simp⟩
  · refine ⟨ps.take i, (ps.drop i).take (j - i), ps.drop j, ?_, rfl⟩
    have hdrop : ps.drop j = (ps.drop i).drop (j - i) := by
      rw [drop_drop]
      congr 1
      omega
    rw [append_assoc, hdrop, take_append_drop, take_append_drop]

lemma takeRanges_perm (ranges : List (ℕ × ℕ)) :
    (takeRanges ps ranges).1.Sublist ps ∧
      ps.Perm ((takeRanges ps ranges).2 ++ (takeRanges ps ranges).1) := by
  induction ranges generalizing ps with
  | nil => exact ⟨List.Sublist.refl ps, List.Perm.refl ps⟩
  | cons range ranges ih =>
    obtain ⟨before, taken, after, hps, htake⟩ := takeRange_split ps range.1 range.2
    obtain ⟨hsub, hperm⟩ := ih (before ++ after)
    rw [takeRanges, htake]
    constructor
    · refine hsub.trans ?_
      rw [hps, append_assoc]
      exact (sublist_append_right taken after).append_left before
    · rw [hps]
      exact (perm_append_comm.append_right after).trans
        (by simpa using (taken.reverse_perm.symm.append hperm))

lemma takeRanges_releases (ranges : List (ℕ × ℕ)) :
    Releases ps (takeRanges ps ranges).1
      (bytesOf Packet.ccOutstanding (takeRanges ps ranges).2) := by
  obtain ⟨hsub, hperm⟩ := takeRanges_perm ps ranges
  refine ⟨hsub.map Packet.tag, fun hlost => hlost.sublist hsub, fun _ => ?_⟩
  have hsum := bytesOf_perm Packet.ccOutstanding hperm
  rw [bytesOf_append] at hsum
  exact (add_comm _ _).trans hsum.symm

/-! ### Cleanup -/

lemma lost_of_expired {p : Packet} {now cd : ℕ} (h : p.expired now cd = true) : p.lost = true := by
  unfold Packet.expired at h
  unfold Packet.lost
  cases hinfo : p.lossInfo with
  | none => simp [hinfo] at h
  | some => rfl

lemma removeExpired_eq_drop (now cd : ℕ) :
    ∃ k, (removeExpired ps now cd).1 = ps.drop k ∧
      (ps.LostFirst → ∀ p ∈ ps.take k, p.lost = true) := by
  unfold removeExpired
  split_ifs
  · exact ⟨0, rfl, by simp⟩
  · refine ⟨_, rfl, fun hlost p hp => ?_⟩
    rcases Nat.eq_zero_or_pos (partitionPoint (fun p : Packet => p.expired now cd) ps) with
      hzero | hpos
    · rw [hzero] at hp
      cases hp
    · -- The last packet that is dropped has expired, so it is lost, and so are those before it.
      obtain ⟨last, before, htake, hexpired⟩ := exists_last_of_partitionPoint_pos hpos
      have hprefix : (before ++ [last]).Pairwise fun p q => q.lost = true → p.lost = true :=
        htake ▸ hlost.sublist (take_sublist _ ps)
      rw [htake, mem_append, mem_singleton] at hp
      rcases hp with hp | rfl
      · exact (pairwise_append.mp hprefix).2.2 p hp last (by simp) (lost_of_expired hexpired)
      · exact lost_of_expired hexpired

lemma removeExpired_releases (now cd : ℕ) : Releases ps (removeExpired ps now cd).1 0 := by
  obtain ⟨k, hdrop, hlost⟩ := removeExpired_eq_drop ps now cd
  rw [hdrop]
  refine ⟨(drop_sublist k ps).map Packet.tag, fun h => h.sublist (drop_sublist k ps),
    fun h => ?_⟩
  have hzero : bytesOf Packet.ccOutstanding (ps.take k) = 0 := by
    apply bytesOf_eq_zero
    intro p hp
    simp [Packet.ccOutstanding, hlost h p hp]
  have hsum := bytesOf_append Packet.ccOutstanding (ps.take k) (ps.drop k)
  rw [take_append_drop, hzero, zero_add] at hsum
  exact hsum.symm

end Packets

end Sent

namespace LossRecoverySpace

open Packets (Releases)

/-! ### Loss detection -/

section

variable (p : Packet) (now : ℕ) (trigger : LossTrigger)

lemma tag_declareLost : (p.declareLost now trigger).1.tag = p.tag := by
  unfold Packet.declareLost
  split_ifs <;> rfl

lemma lost_declareLost : (p.declareLost now trigger).1.lost = true := by
  unfold Packet.declareLost
  split_ifs with hlost
  · exact hlost
  · rfl

/-- A packet that is declared lost leaves the outstanding bytes when it is newly lost. -/
lemma outstanding_packet_declareLost :
    (if p.ccOutstanding then p.len else 0) =
      if (p.declareLost now trigger).2 && (p.declareLost now trigger).1.ccInFlight then
        (p.declareLost now trigger).1.len
      else 0 := by
  unfold Packet.declareLost Packet.ccOutstanding
  cases hlost : p.lost with
  | true => simp
  | false =>
    simp [Packet.ccInFlight]

end

lemma map_declareLost {β : Type} {f : Packet → β} {now : ℕ}
    (hf : ∀ p trigger, f (p.declareLost now trigger).1 = f p) (largestAcked lossDelay : ℕ)
    (ps : Packets) : (declareLost largestAcked now lossDelay ps).1.map f = ps.map f := by
  induction ps with
  | nil => rfl
  | cons p ps ih =>
    unfold declareLost
    split_ifs
    · cases lossTrigger largestAcked now lossDelay p with
      | none => rfl
      | some =>
        rw [map_cons, map_cons, ih, hf]
    · rfl

variable (largestAcked now lossDelay : ℕ)

lemma outstanding_declareLost (ps : Packets) :
    (declareLost largestAcked now lossDelay ps).1.outstanding
        + bytesOf Packet.ccInFlight (declareLost largestAcked now lossDelay ps).2.1
      = ps.outstanding := by
  induction ps with
  | nil => rfl
  | cons p ps ih =>
    unfold declareLost
    split_ifs
    · cases lossTrigger largestAcked now lossDelay p with
      | none => rfl
      | some trigger =>
        have hp := outstanding_packet_declareLost p now trigger
        have hlost := lost_declareLost p now trigger
        unfold Packets.outstanding at ih ⊢
        dsimp only
        generalize p.declareLost now trigger = r at hp hlost
        generalize declareLost largestAcked now lossDelay ps = rest at ih
        obtain ⟨p', first⟩ := r
        obtain ⟨ps', lost, ooo⟩ := rest
        have hout : p'.ccOutstanding = false := by simp [Packet.ccOutstanding, hlost]
        rw [bytesOf_cons, bytesOf_cons, hp, hout, ← ih]
        cases first with
        | false => simp
        | true =>
          simp only [bytesOf_cons, Bool.true_and, Bool.false_eq_true, if_false, if_true]
          omega
    · rfl

lemma lostFirst_declareLost {ps : Packets} (h : ps.LostFirst) :
    (declareLost largestAcked now lossDelay ps).1.LostFirst := by
  induction ps with
  | nil => exact h
  | cons p ps ih =>
    unfold declareLost
    split_ifs
    · cases lossTrigger largestAcked now lossDelay p with
      | none => exact h
      | some trigger =>
        refine pairwise_cons.mpr ⟨?_, ih (pairwise_cons.mp h).2⟩
        intro q _ _
        exact lost_declareLost p now trigger
    · exact h

lemma declareLost_releases (ps : Packets) :
    Releases ps (declareLost largestAcked now lossDelay ps).1
      (bytesOf Packet.ccInFlight (declareLost largestAcked now lossDelay ps).2.1)  where
  tags := by rw [map_declareLost fun p trigger => tag_declareLost p now trigger]
  lostFirst := lostFirst_declareLost largestAcked now lossDelay
  outstanding := fun _ => outstanding_declareLost largestAcked now lossDelay ps

/-- Loss detection takes the packets that it returns out of the outstanding bytes. -/
lemma detectLostPackets_releases (s : LossRecoverySpace) (now lossDelay cleanupDelay : ℕ) :
    Releases s.sentPackets (s.detectLostPackets now lossDelay cleanupDelay).1.sentPackets
      (bytesOf Packet.ccInFlight (s.detectLostPackets now lossDelay cleanupDelay).2) := by
  have hclean := s.sentPackets.removeExpired_releases now cleanupDelay
  unfold detectLostPackets
  cases hacked : s.largestAcked with
  | none => simpa [removeOldLost, removeOutstanding, hacked] using hclean
  | some largestAcked =>
    have hlost := hclean.trans (declareLost_releases largestAcked now lossDelay _)
    simpa [removeOldLost, removeOutstanding, hacked] using hlost

/-! ### Acknowledgment -/

lemma removeAcked_releases (s : LossRecoverySpace) (ackedRanges : List (ℕ × ℕ)) :
    Releases s.sentPackets (s.removeAcked ackedRanges).1.sentPackets
      (bytesOf Packet.ccOutstanding (s.removeAcked ackedRanges).2.1) :=
  s.sentPackets.takeRanges_releases ackedRanges

/-! ### PTO -/

lemma unmarked_pto (p : Packet) : p.pto.1.unmarked = p.unmarked := by
  unfold Packet.pto
  split_ifs <;> rfl

lemma unmarked_ptoPackets (budget size : ℕ) (ps : Packets) :
    (ptoPackets budget size ps).1.map Packet.unmarked = ps.map Packet.unmarked := by
  induction ps generalizing size with
  | nil => rfl
  | cons p ps ih =>
    unfold ptoPackets
    dsimp only
    split_ifs <;> simp [ih, unmarked_pto]

lemma ptoPackets_releases (budget size : ℕ) (ps : Packets) :
    Releases ps (ptoPackets budget size ps).1 0 := by
  have hmap := unmarked_ptoPackets budget size ps
  have htags : ∀ ps : Packets, ps.map Packet.tag = (ps.map Packet.unmarked).map Packet.tag := by
    intro ps
    rw [map_map]
    rfl
  have houtstanding : ∀ ps : Packets,
      ps.outstanding = Packets.outstanding (ps.map Packet.unmarked) :=
    fun ps => (bytesOf_map Packet.unmarked (fun _ => rfl) (fun _ => rfl) ps).symm
  have hlost : ∀ ps : Packets, ps.LostFirst ↔ Packets.LostFirst (ps.map Packet.unmarked) := by
    intro ps
    unfold Packets.LostFirst
    rw [pairwise_map]
    rfl
  refine ⟨?_, fun h => ?_, fun _ => ?_⟩
  · rw [htags, hmap, ← htags]
  · rw [hlost, hmap, ← hlost]
    exact h
  · rw [houtstanding, hmap, ← houtstanding]
    rfl

end LossRecoverySpace

/-!
## What the operations of loss recovery do

An operation on one path either releases tracked packets, and then what is no longer outstanding is
taken out of flight (`Loss.Evolves`), or it tracks the packet that it sends (`Loss.Tracks`). What
holds in all runs is derived from this (`Endpoint.step_cases`).
-/

open Sent LossRecoverySpace Recovery
open ClassicCongestionController (Keeps Releases)

variable {S T : Type}

/-! ### The path -/

namespace Path

/-- The congestion controller of the path. -/
def cc (p : Path S T) : ClassicCongestionController S T := p.sender.cc

lemma cc_maybeUpdatePacerMtu (s : PacketSender S T) : s.maybeUpdatePacerMtu.cc = s.cc := by
  unfold PacketSender.maybeUpdatePacerMtu
  split_ifs <;> rfl

variable (p : Path S T)

lemma discardPacket_releases (sent : Packet) (now : ℕ) :
    Releases p.cc (p.discardPacket sent now).cc (if sent.ccOutstanding then sent.len else 0) := by
  have hcc : (p.discardPacket sent now).cc = p.cc.discard sent := by
    unfold discardPacket
    split_ifs <;> rfl
  rw [hcc]
  exact p.cc.discard_releases sent

lemma discardPackets_releases (dropped : List Packet) (now : ℕ) :
    Releases p.cc (Loss.discardPackets p dropped now).cc
      (bytesOf Packet.ccOutstanding dropped) :=
  ClassicCongestionController.releases_foldl cc (fun p sent => p.discardPacket sent now)
    Packet.ccOutstanding (fun p sent => p.discardPacket_releases sent now) p dropped

variable [SlowStart S]

variable [WindowAdjustment T]

lemma onPacketsLost_releases (prevLargestAckedSent : Option ℕ) (confirmed : Bool)
    (lostPackets : List Packet) (now : ℕ) :
    Releases p.cc (p.onPacketsLost prevLargestAckedSent confirmed lostPackets now).cc
      (bytesOf Packet.ccInFlight lostPackets) := by
  have hlost := p.sender.cc.onPacketsLost_releases p.rtt.firstSampleTime prevLargestAckedSent
    (p.rtt.pto confirmed) lostPackets
  refine hlost.trans_keeps ?_
  unfold onPacketsLost PacketSender.onPacketsLost
  dsimp only
  split_ifs <;> simp only [cc, updateAckDelay, cc_maybeUpdatePacerMtu] <;> exact ⟨rfl, rfl⟩

lemma onPacketsAcked_releases (ackedPkts : List Packet) (ackEcn : Option Ecn.Count) (now : ℕ) :
    Releases p.cc (p.onPacketsAcked ackedPkts ackEcn now).cc
      (bytesOf Packet.ccOutstanding ackedPkts) := by
  -- The reaction to ECN-CE marks comes first.
  have hmark : ∀ q : Path S T, p.cc.Keeps q.cc →
      Releases p.cc { q with sender := q.sender.onPacketsAcked ackedPkts q.rtt now }.cc
        (bytesOf Packet.ccOutstanding ackedPkts) := by
    intro q hq
    refine (hq.trans_releases (q.cc.onPacketsAcked_releases ackedPkts q.rtt now)).trans_keeps ?_
    unfold cc PacketSender.onPacketsAcked
    rw [cc_maybeUpdatePacerMtu]
    exact ⟨rfl, rfl⟩
  unfold onPacketsAcked
  dsimp only
  apply hmark
  split
  · rename_i largest _
    have hevent := (p.cc.onCongestionEvent_adjusts largest .ecn).toKeeps
    split_ifs
    · exact hevent
    · exact hevent
    · exact .refl _
  · exact .refl _

end Path

/-! ### All packet number spaces -/

namespace Loss

/-- The packets tracked in a space. -/
def tracked (l : Loss) (space : PacketNumberSpace) : Packets :=
  (l.spaces.get space).elim [] LossRecoverySpace.sentPackets

/-- The total length of all tracked packets whose acknowledgment or loss is pending. -/
def outstanding (l : Loss) : ℕ :=
  (all.map fun space => (l.tracked space).outstanding).sum

/-- In each space, packets sent before a lost packet are lost. -/
def LostFirst (l : Loss) : Prop := ∀ space, (l.tracked space).LostFirst

/-- Packets leave the tracked packets, are marked or lost, such that `n` bytes are no longer
outstanding. -/
structure Releases (l l' : Loss) (n : ℕ) : Prop where
  tags : ∀ space, ((l'.tracked space).map Packet.tag).Sublist ((l.tracked space).map Packet.tag)
  lostFirst : l.LostFirst → l'.LostFirst
  outstanding : l.LostFirst → l'.outstanding + n = l.outstanding

variable {space : PacketNumberSpace}

lemma tracked_of_get {l : Loss} {s : LossRecoverySpace} (h : l.spaces.get space = some s) :
    l.tracked space = s.sentPackets := by
  unfold tracked
  rw [h]
  rfl

variable (l : Loss)

lemma tracked_setSpace (space space' : PacketNumberSpace) (s : LossRecoverySpace) :
    (l.setSpace space s).tracked space' =
      if space' = space then s.sentPackets else l.tracked space' := by
  unfold tracked setSpace
  rw [SpaceMap.get_set]
  split_ifs <;> rfl

lemma outstanding_of_tracked {l l' : Loss}
    (h : ∀ space', space' ≠ space → l'.tracked space' = l.tracked space') :
    l'.outstanding + (l.tracked space).outstanding =
      l.outstanding + (l'.tracked space).outstanding := by
  have hall : ∀ l : Loss, l.outstanding = (l.tracked .initial).outstanding
      + ((l.tracked .handshake).outstanding + (l.tracked .applicationData).outstanding) := by
    intro l
    simp [outstanding, PacketNumberSpace.all]
  rw [hall, hall]
  cases space with
  | initial =>
    rw [h .handshake (by decide), h .applicationData (by decide)]
    omega
  | handshake =>
    rw [h .initial (by decide), h .applicationData (by decide)]
    omega
  | applicationData =>
    rw [h .initial (by decide), h .handshake (by decide)]
    omega

namespace Releases

variable {l l' l'' : Loss} {n m : ℕ}

lemma keys (h : Releases l l' n) (space : PacketNumberSpace) :
    (l'.tracked space).keys.Sublist (l.tracked space).keys := by
  have hkeys := (h.tags space).map Prod.fst
  rwa [List.map_map, List.map_map] at hkeys

lemma trans (h : Releases l l' n) (h' : Releases l' l'' m) : Releases l l'' (n + m) := by
  refine ⟨fun space => (h'.tags space).trans (h.tags space),
    fun hlost => h'.lostFirst (h.lostFirst hlost), fun hlost => ?_⟩
  have hfirst := h.outstanding hlost
  have hsecond := h'.outstanding (h.lostFirst hlost)
  omega

lemma of_space (space : PacketNumberSpace)
    (hother : ∀ space', space' ≠ space → l'.tracked space' = l.tracked space')
    (hspace : Packets.Releases (l.tracked space) (l'.tracked space) n) : Releases l l' n := by
  refine ⟨fun space' => ?_, fun hlost space' => ?_, fun hlost => ?_⟩
  · by_cases heq : space' = space
    · rw [heq]
      exact hspace.tags
    · rw [hother space' heq]
  · by_cases heq : space' = space
    · rw [heq]
      exact hspace.lostFirst (hlost space)
    · rw [hother space' heq]
      exact hlost space'
  · have htotal := outstanding_of_tracked hother
    have hout := hspace.outstanding (hlost space)
    omega

lemma setSpace {space : PacketNumberSpace} {s : LossRecoverySpace}
    (h : Packets.Releases (l.tracked space) s.sentPackets n) :
    Releases l (l.setSpace space s) n := by
  refine .of_space space ?_ ?_
  · intro space' hne
    rw [tracked_setSpace, if_neg hne]
  · rw [tracked_setSpace, if_pos rfl]
    exact h

lemma of_tracked (h : ∀ space, l'.tracked space = l.tracked space) : Releases l l' 0 := by
  refine .of_space .initial (fun space _ => h space) ?_
  rw [h]
  exact .refl _

end Releases

/-! ### Steps -/

/-- What leaves the outstanding bytes is taken out of flight. -/
def Evolves (l : Loss) (path : Path S T) (l' : Loss) (path' : Path S T) : Prop :=
  ∃ n, l.Releases l' n ∧ path.cc.Releases path'.cc n

/-- A packet is tracked and enters flight. -/
structure Tracks (l : Loss) (path : Path S T) (l' : Loss) (path' : Path S T) (p : Packet) :
    Prop where
  tracked : l'.tracked p.space = l.tracked p.space ++ [p]
  other : ∀ space, space ≠ p.space → l'.tracked space = l.tracked space
  notLost : p.lost = false
  bytesInFlight : path'.cc.bytesInFlight
    = path.cc.bytesInFlight + (if p.ccInFlight then p.len else 0)
  underflow : path'.cc.underflow = path.cc.underflow

variable {l l' l'' : Loss} {path path' path'' : Path S T}

lemma Evolves.trans (h : Evolves l path l' path') (h' : Evolves l' path' l'' path'') :
    Evolves l path l'' path'' := by
  obtain ⟨n, hl, hcc⟩ := h
  obtain ⟨m, hl', hcc'⟩ := h'
  exact ⟨n + m, hl.trans hl', hcc.trans hcc'⟩

lemma Evolves.of_tracked (hcc : Keeps path.cc path'.cc)
    (h : ∀ space, l'.tracked space = l.tracked space) : Evolves l path l' path' :=
  ⟨0, .of_tracked h, hcc.releases⟩

section

variable (l : Loss) (path : Path S T)

lemma Evolves.refl : Evolves l path l path :=
  .of_tracked (.refl _) fun _ => rfl

variable (now : ℕ)

lemma sendProfile_evolves : Evolves l path (l.sendProfile path now).1 path := by
  refine .of_tracked (.refl _) ?_
  intro space
  unfold Loss.sendProfile
  dsimp only
  split
  · rfl
  · split_ifs <;> rfl

lemma collectPto_releases (budget : ℕ) (retransmit : PacketNumberSpaceSet)
    (spaces : List PacketNumberSpace) (size : ℕ) :
    Releases l (collectPto budget retransmit spaces size l).1 0 := by
  induction spaces generalizing l size with
  | nil => exact .of_tracked fun _ => rfl
  | cons space rest ih =>
    unfold collectPto
    split_ifs
    · exact ih l size
    · cases hget : l.spaces.get space with
      | none => exact ih l size
      | some s =>
        refine Releases.trans (.setSpace ?_) (ih _ _)
        rw [tracked_of_get hget]
        exact ptoPackets_releases budget size s.sentPackets

lemma tracked_firePto (space : PacketNumberSpace) (allowProbes : PacketNumberSpaceSet)
    (space' : PacketNumberSpace) : (l.firePto space allowProbes).tracked space' =
      l.tracked space' := by
  unfold firePto
  split <;> rfl

lemma tracked_maybePrimeHandshakePto (hasHandshakeKeys : Bool) (space : PacketNumberSpace) :
    (l.maybePrimeHandshakePto now hasHandshakeKeys).tracked space = l.tracked space := by
  unfold maybePrimeHandshakePto
  split_ifs
  · rfl
  · rfl
  · rfl
  · cases hget : l.spaces.handshake with
    | none => rfl
    | some s =>
      have htracked : l.tracked .handshake = s.sentPackets := tracked_of_get hget
      dsimp only
      split_ifs
      · rw [tracked_setSpace]
        split_ifs with hspace
        · rw [hspace, htracked]
        · rfl
      · rfl

lemma maybeFirePto_evolves (hasHandshakeKeys : Bool) :
    Evolves l path (l.maybeFirePto path now hasHandshakeKeys).1 path := by
  unfold maybeFirePto
  dsimp only
  split
  · exact .refl l path
  · have hcollect := l.collectPto_releases (maxPtoPacketCount * path.plpmtu)
      (l.ptoSpaces path.rtt now).retransmit all 0
    refine ⟨0, hcollect.trans (.of_tracked ?_), (Keeps.refl _).releases⟩
    intro space
    split_ifs
    · rw [tracked_maybePrimeHandshakePto, tracked_firePto]
    · rw [tracked_firePto]

lemma drop0rtt_evolves : Evolves l path (l.drop0rtt path now).1 (l.drop0rtt path now).2.1 := by
  unfold drop0rtt
  cases hget : l.spaces.applicationData with
  | none => exact .refl l path
  | some s =>
    have htracked : l.tracked .applicationData = s.sentPackets := tracked_of_get hget
    dsimp only
    split_ifs
    · exact .refl l path
    · refine ⟨_, .setSpace ?_, path.discardPackets_releases s.sentPackets now⟩
      rw [htracked]
      exact .nil s.sentPackets

lemma retry_evolves : Evolves l path (l.retry path now).1 (l.retry path now).2.1 := by
  have htracked : ∀ space, (l.retry path now).1.tracked space = [] := by
    intro space
    have hclear : ∀ s : Option LossRecoverySpace,
        (s.map fun s => s.removeIgnored.1).elim [] LossRecoverySpace.sentPackets = [] := by
      rintro (_ | s) <;> rfl
    cases space <;> exact hclear _
  have hdropped : bytesOf Packet.ccOutstanding (l.retry path now).2.2 = l.outstanding := by
    unfold retry
    simp [PacketNumberSpace.all, outstanding, tracked, Packets.outstanding, removeIgnored]
  refine ⟨_, ⟨?_, ?_, ?_⟩, path.discardPackets_releases (l.retry path now).2.2 now⟩
  · intro space
    rw [htracked]
    exact List.nil_sublist _
  · intro _ space
    rw [htracked]
    exact List.Pairwise.nil
  · intro _
    rw [hdropped]
    simp [outstanding, htracked, Packets.outstanding, PacketNumberSpace.all]

lemma tracked_confirm (rtt : RttEstimate) (space : PacketNumberSpace) :
    (l.confirm rtt now).tracked space = l.tracked space := by
  unfold confirm
  dsimp only
  split_ifs
  · rw [tracked_firePto]
    rfl
  · rfl

lemma removeSpace_evolves {s : LossRecoverySpace} (hget : l.spaces.get space = some s) (now : ℕ) :
    Evolves l path { l with spaces := l.spaces.set space none, ptoState := none }
      (discardPackets path s.sentPackets now) := by
  refine ⟨_, .of_space space ?_ ?_, path.discardPackets_releases s.sentPackets now⟩
  · intro space' hne
    rw [tracked, SpaceMap.get_set_of_ne _ hne]
    rfl
  · rw [tracked, tracked, SpaceMap.get_set_self, hget]
    exact .nil s.sentPackets

lemma discard_evolves (space : PacketNumberSpace) (now : ℕ) :
    Evolves l path (l.discard path space now).1 (l.discard path space now).2 := by
  unfold discard
  split
  · exact .refl l path
  · exact .refl l path
  · rename_i hget
    have hremove := l.removeSpace_evolves path hget now
    split_ifs
    · exact hremove.trans (.of_tracked (.refl _) (tracked_confirm _ _ _))
    · exact hremove

end

variable [SlowStart S] (path : Path S T)

lemma onPacketSent_tracks (sentPacket : Packet) (hnew : sentPacket.lost = false) :
    Evolves l path (l.onPacketSent path sentPacket).1 (l.onPacketSent path sentPacket).2 ∨
      ∃ p, p.key = sentPacket.key ∧
        Tracks l path (l.onPacketSent path sentPacket).1 (l.onPacketSent path sentPacket).2 p := by
  unfold Loss.onPacketSent
  dsimp only
  cases hget : l.spaces.get sentPacket.space with
  | none => exact .inl (.of_tracked (.refl _) fun _ => rfl)
  | some s =>
    right
    have htracked := tracked_of_get hget
    have hsent := path.cc.onPacketSent_bytesInFlight (path.packetSent sentPacket).2
    change (path.packetSent sentPacket).1.cc.bytesInFlight = _ ∧
      (path.packetSent sentPacket).1.cc.underflow = _ at hsent
    have hpacket : (path.packetSent sentPacket).2.key = sentPacket.key ∧
        (path.packetSent sentPacket).2.lost = false := by
      unfold Path.packetSent
      split_ifs <;> exact ⟨rfl, hnew⟩
    generalize path.packetSent sentPacket = r at hsent hpacket
    obtain ⟨path', p⟩ := r
    have hpackets : (s.onPacketSent p).sentPackets = s.sentPackets ++ [p] := by
      unfold LossRecoverySpace.onPacketSent
      split_ifs <;> rfl
    have hspace : p.space = sentPacket.space := Packet.space_of_key hpacket.1
    refine ⟨p, hpacket.1, ?_, ?_, hpacket.2, hsent.1, hsent.2⟩
    · rw [hspace, tracked_setSpace, if_pos rfl, hpackets, htracked]
    · intro space' hne
      rw [tracked_setSpace, if_neg (hspace ▸ hne)]
      rfl

variable [WindowAdjustment T]

lemma timeoutSpace_evolves (l : Loss) (path : Path S T) (space : PacketNumberSpace)
    (lossDelay now : ℕ) :
    Evolves l path (l.timeoutSpace path space lossDelay now).1
      (l.timeoutSpace path space lossDelay now).2.1 := by
  unfold timeoutSpace
  cases hget : l.spaces.get space with
  | none => exact .refl l path
  | some s =>
    refine ⟨_, .setSpace ?_, path.onPacketsLost_releases _ _ _ _⟩
    rw [tracked_of_get hget]
    exact s.detectLostPackets_releases _ _ _

lemma timeout_evolves (now : ℕ) (hasHandshakeKeys : Bool) :
    Evolves l path (l.timeout path now hasHandshakeKeys).1
      (l.timeout path now hasHandshakeKeys).2.1 := by
  have hspaces := ((l.timeoutSpace_evolves path .initial path.rtt.lossDelay now).trans
    (timeoutSpace_evolves _ _ .handshake path.rtt.lossDelay now)).trans
    (timeoutSpace_evolves _ _ .applicationData path.rtt.lossDelay now)
  exact hspaces.trans (maybeFirePto_evolves _ _ now hasHandshakeKeys)

lemma onAckReceived_evolves (space : PacketNumberSpace) (ackedRanges : List (ℕ × ℕ))
    (ackEcn : Option Ecn.Count) (ackDelay now : ℕ) :
    Evolves l path (l.onAckReceived path space ackedRanges ackEcn ackDelay now).1
      (l.onAckReceived path space ackedRanges ackEcn ackDelay now).2.1 := by
  unfold onAckReceived
  cases hget : l.spaces.get space with
  | none => exact .refl l path
  | some s =>
    have hremove := s.removeAcked_releases ackedRanges
    rw [← tracked_of_get hget] at hremove
    dsimp only
    generalize s.removeAcked ackedRanges = r at hremove ⊢
    obtain ⟨s₁, acked, anyAckEliciting⟩ := r
    cases hhead : acked.head? with
    | none =>
      obtain rfl := List.head?_eq_none_iff.mp hhead
      exact ⟨0, .setSpace hremove, (Keeps.refl _).releases⟩
    | some largest =>
      dsimp only
      have hnote : (l.noteLargestAcked s₁ largest anyAckEliciting path.rtt now
          ackDelay).1.sentPackets = s₁.sentPackets := by
        unfold noteLargestAcked
        split_ifs <;> rfl
      generalize l.noteLargestAcked s₁ largest anyAckEliciting path.rtt now ackDelay = r at hnote ⊢
      obtain ⟨s₂, rtt⟩ := r
      rw [← hnote] at hremove
      have hdetect := s₂.detectLostPackets_releases now rtt.lossDelay (l.ptoPeriod rtt)
      have hlost := ({ path with rtt := rtt } : Path S T).onPacketsLost_releases
        s₁.largestAckedSentTime l.confirmed
        (s₂.detectLostPackets now rtt.lossDelay (l.ptoPeriod rtt)).2 now
      have hacked := hlost.trans (Path.onPacketsAcked_releases _ acked ackEcn now)
      rw [add_comm] at hacked
      exact ⟨_, (Releases.setSpace (hremove.trans hdetect)).trans (.of_tracked fun _ => rfl),
        hacked⟩

end Loss

/-! ### Operations -/

namespace Recovery

/-- The type and number of the packet that an operation sends. -/
def Op.sent? : Op → Option (PacketType × ℕ)
  | .packetSent pt pn _ _ _ _ _ => some (pt, pn)
  | _ => none

namespace Endpoint

variable [SlowStart S] [WindowAdjustment T]

/-- What an operation can do: it releases packets or tracks the one that it sends. -/
lemma step_cases (e : Endpoint S T) (op : Op) :
    e.loss.Evolves e.path (e.step op).loss (e.step op).path ∨
      ∃ p, op.sent? = some p.key ∧
        e.loss.Tracks e.path (e.step op).loss (e.step op).path p := by
  cases op with
  | packetSent pt pn timeSent ackEliciting padded tokens len =>
    rcases e.loss.onPacketSent_tracks e.path
      { pt := pt, pn := pn, ackEliciting := ackEliciting, padded := padded, timeSent := timeSent,
        tokens := tokens, len := len } rfl with h | ⟨p, hkey, h⟩
    · exact .inl h
    · exact .inr ⟨p, congrArg some hkey.symm, h⟩
  | ackReceived space ackedRanges ackEcn ackDelay now =>
    exact .inl (e.loss.onAckReceived_evolves e.path space ackedRanges ackEcn ackDelay now)
  | timeout now hasHandshakeKeys => exact .inl (e.loss.timeout_evolves e.path now hasHandshakeKeys)
  | drop0rtt now => exact .inl (e.loss.drop0rtt_evolves e.path now)
  | retry now => exact .inl (e.loss.retry_evolves e.path now)
  | discard space now => exact .inl (e.loss.discard_evolves e.path space now)
  | sendProfile now => exact .inl (e.loss.sendProfile_evolves e.path now)
  | datagramReceived | datagramSent | setValid | startPmtud | firePmtuRaiseTimer | sendPmtudProbe
  | startEcn | setAckDelay => exact .inl (.of_tracked ⟨rfl, rfl⟩ fun _ => rfl)

end Endpoint

end Recovery

/-!
## The bytes in flight are those of the outstanding packets

On one path, the congestion controller has in flight exactly the packets that loss recovery tracks
and whose acknowledgment or loss is pending.
-/

namespace Recovery.Endpoint

open Sent

variable {S T : Type}

/-- The bytes in flight of the path are those of the outstanding packets, no subtraction from them
has saturated, and the lost packets come first in each space. -/
structure Accounted (e : Endpoint S T) : Prop where
  bytesInFlight : e.path.cc.bytesInFlight = e.loss.outstanding
  underflow : e.path.cc.underflow = false
  lostFirst : e.loss.LostFirst

variable {e e' : Endpoint S T}

lemma Accounted.evolves (h : e.Accounted)
    (hstep : e.loss.Evolves e.path e'.loss e'.path) : e'.Accounted := by
  obtain ⟨n, hloss, hcc⟩ := hstep
  have hout := hloss.outstanding h.lostFirst
  have hbytes := h.bytesInFlight
  obtain ⟨hflight, hunderflow⟩ := hcc (by omega)
  exact ⟨by omega, hunderflow.trans h.underflow, hloss.lostFirst h.lostFirst⟩

lemma Accounted.tracks (h : e.Accounted) {p : Packet}
    (hstep : e.loss.Tracks e.path e'.loss e'.path p) : e'.Accounted := by
  have htotal := Loss.outstanding_of_tracked hstep.other
  have hout : Packets.outstanding (e.loss.tracked p.space ++ [p]) =
      (e.loss.tracked p.space).outstanding + (if p.ccInFlight then p.len else 0) := by
    simp [Packets.outstanding, bytesOf_cons, Packet.ccOutstanding, hstep.notLost]
  have hbytes := h.bytesInFlight
  have hflight := hstep.bytesInFlight
  rw [hstep.tracked] at htotal
  refine ⟨by omega, hstep.underflow.trans h.underflow, fun space => ?_⟩
  by_cases hspace : space = p.space
  · rw [hspace, hstep.tracked]
    refine List.pairwise_append.mpr ⟨h.lostFirst p.space, List.pairwise_singleton _ _, ?_⟩
    intro q _ p' hp' hlost
    rw [List.mem_singleton.mp hp', hstep.notLost] at hlost
    cases hlost
  · rw [hstep.other space hspace]
    exact h.lostFirst space

variable [SlowStart S] [WindowAdjustment T]

lemma Accounted.step (h : e.Accounted) (op : Op) : (e.step op).Accounted := by
  rcases e.step_cases op with hstep | ⟨p, -, hstep⟩
  · exact h.evolves hstep
  · exact h.tracks hstep

lemma Accounted.run (h : e.Accounted) (ops : List Op) : (e.run ops).Accounted :=
  List.foldlRecOn ops _ h fun _ h op _ => h.step op

/-- In every run on one path, the bytes in flight of the congestion controller are those of the
tracked packets whose acknowledgment or loss is pending, and no subtraction from them saturates. -/
theorem bytesInFlight_exact (slowStart : S) (congestionControl : T) (spuriousRecovery pacing : Bool)
    (pmtud : Pmtud) (now initialRtt fastPto : ℕ) (ops : List Op) :
    let sender := PacketSender.new slowStart congestionControl spuriousRecovery pacing pmtud now
    let e := (Endpoint.new sender initialRtt fastPto).run ops
    e.path.sender.bytesInFlight = e.loss.outstanding ∧ e.path.sender.cc.underflow = false := by
  intro sender e
  have hnew : (Endpoint.new sender initialRtt fastPto).Accounted := by
    refine ⟨rfl, rfl, ?_⟩
    intro space
    cases space <;> exact List.Pairwise.nil
  have hrun := hnew.run ops
  exact ⟨hrun.bytesInFlight, hrun.underflow⟩

end Recovery.Endpoint

end Neqo
