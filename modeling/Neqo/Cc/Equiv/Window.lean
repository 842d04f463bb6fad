import Mathlib.Data.List.Induction
import Neqo.Cc.Classic

/-!
# The parameters of the congestion controller

The controller holds the current parameters and those stored for an undo, from which the parameters
of a later state derive (`Follows`): recovery starts where it started, and no window or threshold
falls below two datagrams. Only sending a packet moves the start of recovery. Congestion events
and the growth of the window leave everything else alone (`Adjusts`); losses and acknowledgments do
so after a loop over the packets.
-/

namespace Neqo

open List

open Sent (Packet)
open Cc (State)

/-- The window and the threshold hold at least two datagrams. -/
structure Cc.State.Floor (mtu : ℕ) (s : State) : Prop where
  window : mtu * 2 ≤ s.congestionWindow
  ssthresh : ∀ t ∈ s.ssthresh, mtu * 2 ≤ t

namespace ClassicCongestionController

variable {S T : Type}

/-- Slow start is not left with a smaller window than it had. -/
def ExitsAbove (S : Type) [SlowStart S] : Prop :=
  ∀ (s : S) (rttEst : RttEstimate) (largestAcked cwnd now : ℕ),
    ∀ exit ∈ (SlowStart.onPacketsAcked s rttEst largestAcked cwnd now).2, cwnd ≤ exit

/-- Parameters that are stored or in use. -/
def Has (cc : ClassicCongestionController S T) (s : State) : Prop :=
  s = cc.current ∨ cc.stored = some s

/-- The bytes in flight are the same, and so is whether a subtraction saturated. -/
structure Keeps (cc cc' : ClassicCongestionController S T) : Prop where
  bytesInFlight : cc'.bytesInFlight = cc.bytesInFlight
  underflow : cc'.underflow = cc.underflow

lemma Keeps.refl (cc : ClassicCongestionController S T) : Keeps cc cc := ⟨rfl, rfl⟩

lemma Keeps.trans {cc cc' cc'' : ClassicCongestionController S T} (h : Keeps cc cc')
    (h' : Keeps cc' cc'') : Keeps cc cc'' :=
  ⟨h'.bytesInFlight.trans h.bytesInFlight, h'.underflow.trans h.underflow⟩

variable [SlowStart S]

variable (S) in
/-- Parameters change, but not where recovery started. -/
structure Next (mtu : ℕ) (s s' : State) : Prop where
  recoveryStart : s'.recoveryStart = s.recoveryStart
  floor : ExitsAbove S → s.Floor mtu → s'.Floor mtu

lemma Next.refl (mtu : ℕ) (s : State) : Next S mtu s s := ⟨rfl, fun _ h => h⟩

/-- All parameters come from ones that were there. -/
structure Follows (cc cc' : ClassicCongestionController S T) : Prop where
  pmtud : cc'.pmtud = cc.pmtud
  states : ∀ s', cc'.Has s' → ∃ s, cc.Has s ∧ Next S cc.maxDatagramSize s s'

/-- Nothing but parameters changes. -/
structure Adjusts (cc cc' : ClassicCongestionController S T) : Prop extends
    Keeps cc cc', Follows cc cc' where
  maybeLostPackets : cc'.maybeLostPackets = cc.maybeLostPackets

variable {cc cc' cc'' : ClassicCongestionController S T}

lemma Follows.of_current (hpmtud : cc'.pmtud = cc.pmtud) (hstored : cc'.stored = cc.stored)
    (h : Next S cc.maxDatagramSize cc.current cc'.current) : Follows cc cc' := by
  refine ⟨hpmtud, fun s' hs' => ?_⟩
  rcases hs' with rfl | hs'
  · exact ⟨cc.current, .inl rfl, h⟩
  · exact ⟨s', .inr (hstored ▸ hs'), .refl _ s'⟩

lemma Follows.of_eq (hpmtud : cc'.pmtud = cc.pmtud) (hstored : cc'.stored = cc.stored)
    (hcurrent : cc'.current = cc.current) : Follows cc cc' :=
  .of_current hpmtud hstored (hcurrent ▸ .refl _ _)

lemma Follows.trans (h : Follows cc cc') (h' : Follows cc' cc'') : Follows cc cc'' := by
  refine ⟨h'.pmtud.trans h.pmtud, fun s'' hs'' => ?_⟩
  obtain ⟨s', hs', hnext'⟩ := h'.states s'' hs''
  obtain ⟨s, hs, hnext⟩ := h.states s' hs'
  have hmtu : cc'.maxDatagramSize = cc.maxDatagramSize := congrArg Pmtud.plpmtu h.pmtud
  rw [hmtu] at hnext'
  exact ⟨s, hs, hnext'.recoveryStart.trans hnext.recoveryStart,
    fun he hf => hnext'.floor he (hnext.floor he hf)⟩

lemma Adjusts.of_eq (hkeeps : Keeps cc cc') (hlost : cc'.maybeLostPackets = cc.maybeLostPackets)
    (hpmtud : cc'.pmtud = cc.pmtud) (hstored : cc'.stored = cc.stored)
    (h : Next S cc.maxDatagramSize cc.current cc'.current) : Adjusts cc cc' :=
  ⟨hkeeps, .of_current hpmtud hstored h, hlost⟩

lemma Adjusts.refl (cc : ClassicCongestionController S T) : Adjusts cc cc :=
  .of_eq (.refl cc) rfl rfl rfl (.refl _ _)

lemma Adjusts.trans (h : Adjusts cc cc') (h' : Adjusts cc' cc'') : Adjusts cc cc'' :=
  ⟨h.toKeeps.trans h'.toKeeps, h.toFollows.trans h'.toFollows,
    h'.maybeLostPackets.trans h.maybeLostPackets⟩

lemma mem_foldl_remove (m : IndexMap (ℕ × PacketType) ℕ) (acked : List Packet)
    (key : ℕ × PacketType) (t : ℕ) : (acked.foldl (fun m p => m.remove (p.pn, p.pt)) m).Mem key t ↔
      m.Mem key t ∧ ∀ p ∈ acked, (p.pn, p.pt) ≠ key := by
  induction acked generalizing m with
  | nil => simp
  | cons p acked ih =>
    rw [foldl_cons, ih, IndexMap.remove, IndexMap.mem_retain, forall_mem_cons,
      decide_eq_true_eq, and_assoc, ne_comm]

variable (cc)

lemma detectPersistentCongestion_adjusts (first prev : Option ℕ) (pto : ℕ) (lost : List Packet) :
    Adjusts cc (cc.detectPersistentCongestion first prev pto lost).1 := by
  unfold detectPersistentCongestion
  split
  · exact .refl cc
  · dsimp only
    split_ifs
    · exact .of_eq ⟨rfl, rfl⟩ rfl rfl rfl ⟨rfl, fun _ h => ⟨le_rfl, h.ssthresh⟩⟩
    · exact .refl cc

lemma growInSlowStart_adjusts (rttEst : RttEstimate) (largestAcked newAcked now : ℕ) :
    Adjusts cc (cc.growInSlowStart rttEst largestAcked newAcked now) := by
  have hgrown : ∀ n s, cc.current.Floor s → s * 2 ≤ cc.current.congestionWindow + n := fun n s h =>
    h.window.trans (Nat.le_add_right _ n)
  unfold growInSlowStart
  split_ifs
  · dsimp only
    split
    next exit hexit =>
      -- The exit value is at least the window.
      refine .of_eq ⟨rfl, rfl⟩ rfl rfl rfl ⟨rfl, fun he h => ?_⟩
      have hle := h.window.trans (he _ _ _ _ _ exit hexit)
      exact ⟨hle, fun t ht => Option.some.inj ht ▸ hle⟩
    next =>
      split
      next ssthresh hssthresh =>
        split_ifs
        · exact .of_eq ⟨rfl, rfl⟩ rfl rfl rfl
            ⟨rfl, fun _ h => ⟨h.ssthresh _ hssthresh, h.ssthresh⟩⟩
        · exact .of_eq ⟨rfl, rfl⟩ rfl rfl rfl ⟨rfl, fun _ h => ⟨hgrown _ _ h, h.ssthresh⟩⟩
      next => exact .of_eq ⟨rfl, rfl⟩ rfl rfl rfl ⟨rfl, fun _ h => ⟨hgrown _ _ h, h.ssthresh⟩⟩
  · exact .refl cc

variable [WindowAdjustment T]

lemma growInCongestionAvoidance_adjusts (rttEst : RttEstimate) (newAcked now : ℕ) :
    Adjusts cc (cc.growInCongestionAvoidance rttEst newAcked now) := by
  unfold growInCongestionAvoidance
  split_ifs
  · exact .of_eq ⟨rfl, rfl⟩ rfl rfl rfl ⟨rfl, fun _ h =>
      ⟨h.window.trans (Nat.le_add_right _ _), h.ssthresh⟩⟩
  · exact .refl cc

lemma onCongestionEvent_adjusts (lastPacket : Packet) (trigger : CongestionTrigger) :
    Adjusts cc (cc.onCongestionEvent lastPacket trigger).1 := by
  have hreduced : ∀ cwnd acked phase, Next S cc.maxDatagramSize cc.current
      { cc.current with congestionWindow := max cwnd cc.cwndMin, ackedBytes := acked,
                        ssthresh := some (max cwnd cc.cwndMin), phase := phase } := fun _ _ _ =>
    ⟨rfl, fun _ _ => ⟨le_max_right _ _, fun t ht => Option.some.inj ht ▸ le_max_right _ _⟩⟩
  unfold onCongestionEvent
  split_ifs
  · exact .refl cc
  · refine ⟨⟨rfl, rfl⟩, ⟨rfl, fun s' hs' => ⟨cc.current, .inl rfl, ?_⟩⟩, rfl⟩
    rcases hs' with rfl | hs'
    · exact hreduced _ _ _
    · exact Option.some.inj hs' ▸ .refl _ _
  · exact .of_eq ⟨rfl, rfl⟩ rfl rfl rfl (hreduced _ _ _)

lemma onSpuriousCongestionEvent_adjusts : Adjusts cc cc.onSpuriousCongestionEvent := by
  unfold onSpuriousCongestionEvent
  split
  · exact .refl cc
  next stored hstored =>
    dsimp only
    split_ifs
    · exact ⟨⟨rfl, rfl⟩, ⟨rfl, fun s' hs' => ⟨s', hs'.imp_right nofun, .refl _ s'⟩⟩, rfl⟩
    · exact ⟨⟨rfl, rfl⟩, ⟨rfl, fun s' hs' => ⟨s', hs'.imp_right nofun, .refl _ s'⟩⟩, rfl⟩
    · exact ⟨⟨rfl, rfl⟩,
        ⟨rfl, fun s' hs' => ⟨s', .inr (hs'.elim (· ▸ hstored) nofun), .refl _ s'⟩⟩, rfl⟩

/-- Packets that are acknowledged late leave the table. The current parameters only change if it is
empty then. -/
lemma detectSpuriousCongestionEvent_spec (acked : List Packet) :
    let cc' := cc.detectSpuriousCongestionEvent acked
    Keeps cc cc' ∧ Follows cc cc' ∧
      (∀ key t, cc'.maybeLostPackets.Mem key t ↔
        cc.maybeLostPackets.Mem key t ∧ ∀ p ∈ acked, (p.pn, p.pt) ≠ key) ∧
      (cc'.current = cc.current ∨ cc'.maybeLostPackets.entries = []) := by
  have hmem := mem_foldl_remove cc.maybeLostPackets acked
  unfold detectSpuriousCongestionEvent
  generalize acked.foldl _ _ = m at hmem
  dsimp only
  split_ifs with hempty hempty'
  · have hnil := length_eq_zero_iff.mp hempty
    refine ⟨.refl cc, .of_eq rfl rfl rfl, fun key t => ?_, .inl rfl⟩
    simp [IndexMap.Mem, hnil]
  · have hadj := onSpuriousCongestionEvent_adjusts { cc with maybeLostPackets := m }
    refine ⟨{ hadj with }, { hadj with }, fun key t => ?_, .inr ?_⟩
    · rw [hadj.maybeLostPackets, hmem]
    · rw [hadj.maybeLostPackets]
      exact length_eq_zero_iff.mp hempty'
  · exact ⟨⟨rfl, rfl⟩, .of_eq rfl rfl rfl, hmem, .inl rfl⟩

lemma onPacketsLost_adjusts (first prev : Option ℕ) (pto : ℕ) (lost : List Packet) :
    Adjusts (lost.foldl packetLost cc) (cc.onPacketsLost first prev pto lost).1 := by
  unfold onPacketsLost
  split_ifs with hempty
  · rw [isEmpty_iff.mp hempty]
    exact .refl cc
  · dsimp only
    split
    · exact .refl _
    · exact (onCongestionEvent_adjusts _ _ _).trans (detectPersistentCongestion_adjusts _ _ _ _ _)

lemma onPacketsAcked_adjusts (acked : List Packet) (hacked : acked ≠ []) (rttEst : RttEstimate)
    (now : ℕ) :
    Adjusts (acked.foldl AckLoop.packetAcked
      { cc := (cc.cleanupMaybeLostPackets now (rttEst.pto true)).detectSpuriousCongestionEvent
          acked }).cc (cc.onPacketsAcked acked rttEst now) := by
  obtain ⟨largest, hlargest⟩ := Option.ne_none_iff_exists'.mp (mt head?_eq_none_iff.mp hacked)
  unfold onPacketsAcked
  rw [hlargest]
  dsimp only
  generalize acked.foldl AckLoop.packetAcked { cc := _ } = l
  have hgrow := fun cc : ClassicCongestionController S T => fun newAcked : ℕ =>
    (growInSlowStart_adjusts cc rttEst largest.pn newAcked now).trans
      (growInCongestionAvoidance_adjusts _ rttEst newAcked now)
  split_ifs
  · exact .of_eq ⟨rfl, rfl⟩ rfl rfl rfl (.refl _ _)
  · exact .of_eq ⟨rfl, rfl⟩ rfl rfl rfl (.refl _ _)
  · exact { hgrow _ _ with }
  · exact hgrow _ _

end ClassicCongestionController

/-!
## The bytes in flight of the congestion controller

Each operation changes the bytes in flight only by the lengths of packets that it is told about.
Reductions are described by `Releases cc cc' n`: if at least `n` bytes are in flight, exactly these
are taken out and no subtraction saturates.
-/

/-- The total length of the packets that satisfy `f`. -/
def Sent.bytesOf (f : Packet → Bool) (ps : List Packet) : ℕ := ((ps.filter f).map Packet.len).sum

namespace Sent

variable (f : Packet → Bool)

@[simp] lemma bytesOf_nil : bytesOf f [] = 0 := rfl

lemma bytesOf_cons (p : Packet) (ps : List Packet) :
    bytesOf f (p :: ps) = (if f p then p.len else 0) + bytesOf f ps := by
  unfold bytesOf
  cases hp : f p <;> simp [hp]

@[simp] lemma bytesOf_append (ps qs : List Packet) :
    bytesOf f (ps ++ qs) = bytesOf f ps + bytesOf f qs := by
  simp [bytesOf]

lemma bytesOf_perm {ps qs : List Packet} (h : ps.Perm qs) : bytesOf f ps = bytesOf f qs :=
  ((h.filter f).map Packet.len).sum_eq

lemma bytesOf_eq_zero {ps : List Packet} (h : ∀ p ∈ ps, f p = false) : bytesOf f ps = 0 := by
  have hnil : ps.filter f = [] := by
    rw [filter_eq_nil_iff]
    intro p hp
    simp [h p hp]
  unfold bytesOf
  rw [hnil]
  rfl

end Sent

open Sent (bytesOf)

namespace ClassicCongestionController

variable {S T : Type}

/-- The given number of bytes are taken out of flight. -/
def Releases (cc cc' : ClassicCongestionController S T) (n : ℕ) : Prop :=
  n ≤ cc.bytesInFlight →
    cc'.bytesInFlight + n = cc.bytesInFlight ∧ cc'.underflow = cc.underflow

variable {cc cc' cc'' : ClassicCongestionController S T} {n m : ℕ}

lemma Keeps.releases (h : Keeps cc cc') : Releases cc cc' 0 := fun _ =>
  ⟨h.bytesInFlight, h.underflow⟩

lemma Releases.trans (h : Releases cc cc' n) (h' : Releases cc' cc'' m) :
    Releases cc cc'' (n + m) := by
  intro hle
  obtain ⟨hbytes, hflow⟩ := h (by omega)
  obtain ⟨hbytes', hflow'⟩ := h' (by omega)
  exact ⟨by omega, hflow'.trans hflow⟩

lemma Releases.trans_keeps (h : Releases cc cc' n) (h' : Keeps cc' cc'') :
    Releases cc cc'' n := h.trans h'.releases

lemma Keeps.trans_releases (h : Keeps cc cc') (h' : Releases cc' cc'' n) : Releases cc cc'' n := by
  have hsum := h.releases.trans h'
  rwa [zero_add] at hsum

variable (cc : ClassicCongestionController S T)

lemma leaveFlight_releases (len : ℕ) : Releases cc (cc.leaveFlight len) len := by
  intro hle
  refine ⟨Nat.sub_add_cancel hle, ?_⟩
  unfold leaveFlight
  simp [hle]

lemma releases_foldl {σ : Type} (get : σ → ClassicCongestionController S T)
    (turn : σ → Packet → σ) (f : Packet → Bool)
    (hturn : ∀ l p, Releases (get l) (get (turn l p)) (if f p then p.len else 0))
    (l : σ) (ps : List Packet) :
    Releases (get l) (get (ps.foldl turn l)) (bytesOf f ps) := by
  induction ps generalizing l with
  | nil => exact (Keeps.refl _).releases
  | cons p ps ih =>
    rw [Sent.bytesOf_cons]
    exact (hturn l p).trans (ih (turn l p))

/-! ### Single packets -/

variable (pkt : Packet)

lemma packetLost_releases :
    Releases cc (cc.packetLost pkt) (if pkt.ccInFlight then pkt.len else 0) := by
  unfold packetLost
  split_ifs
  · exact (leaveFlight_releases cc pkt.len).trans_keeps ⟨rfl, rfl⟩
  · exact leaveFlight_releases cc pkt.len
  · exact (Keeps.refl cc).releases

lemma AckLoop.packetAcked_releases (l : AckLoop S T) (pkt : Packet) :
    Releases l.cc (l.packetAcked pkt).cc (if pkt.ccOutstanding then pkt.len else 0) := by
  unfold AckLoop.packetAcked
  cases hout : pkt.ccOutstanding with
  | false => exact (Keeps.refl l.cc).releases
  | true =>
    have hleave := leaveFlight_releases l.cc pkt.len
    dsimp only [Bool.not_true]
    split_ifs <;> first | contradiction | exact hleave.trans_keeps ⟨rfl, rfl⟩

lemma discard_releases :
    Releases cc (cc.discard pkt) (if pkt.ccOutstanding then pkt.len else 0) := by
  unfold discard
  split_ifs
  · exact leaveFlight_releases cc pkt.len
  · exact (Keeps.refl cc).releases

lemma onPacketSent_bytesInFlight [SlowStart S] :
    (cc.onPacketSent pkt).bytesInFlight
        = cc.bytesInFlight + (if pkt.ccInFlight then pkt.len else 0) ∧
      (cc.onPacketSent pkt).underflow = cc.underflow := by
  unfold onPacketSent
  cases pkt.ccInFlight with
  | false =>
    split_ifs <;> first | contradiction | exact ⟨rfl, rfl⟩
  | true =>
    dsimp only
    split_ifs <;> first | contradiction | exact ⟨rfl, rfl⟩

/-! ### Losses and acknowledgments -/

variable [SlowStart S] [WindowAdjustment T]

lemma onPacketsLost_releases (firstRttSampleTime prevLargestAckedSent : Option ℕ) (pto : ℕ)
    (lostPackets : List Packet) :
    Releases cc (cc.onPacketsLost firstRttSampleTime prevLargestAckedSent pto lostPackets).1
      (bytesOf Packet.ccInFlight lostPackets) := by
  have hloop := releases_foldl id packetLost Packet.ccInFlight packetLost_releases cc lostPackets
  exact hloop.trans_keeps
    (cc.onPacketsLost_adjusts firstRttSampleTime prevLargestAckedSent pto lostPackets).toKeeps

lemma onPacketsAcked_releases (ackedPkts : List Packet) (rttEst : RttEstimate) (now : ℕ) :
    Releases cc (cc.onPacketsAcked ackedPkts rttEst now)
      (bytesOf Packet.ccOutstanding ackedPkts) := by
  by_cases hacked : ackedPkts = []
  · rw [hacked]
    exact (Keeps.refl cc).releases
  obtain ⟨hspurious, -⟩ := detectSpuriousCongestionEvent_spec
    (cc.cleanupMaybeLostPackets now (rttEst.pto true)) ackedPkts
  have hbefore : Keeps cc _ := { hspurious with }
  have hloop := releases_foldl AckLoop.cc AckLoop.packetAcked Packet.ccOutstanding
    AckLoop.packetAcked_releases
    { cc := (cc.cleanupMaybeLostPackets now (rttEst.pto true)).detectSpuriousCongestionEvent
        ackedPkts } ackedPkts
  exact (hbefore.trans_releases hloop).trans_keeps
    (cc.onPacketsAcked_adjusts ackedPkts hacked rttEst now).toKeeps

end ClassicCongestionController

/-!
## The congestion window and recovery

The window keeps above two datagrams if the path MTU does not change (`run_window_floor`), and the
start of recovery is the number of a packet that was sent in a transient phase (`run_startsAt`).
-/

namespace ClassicCongestionController

variable {S T : Type} [SlowStart S] {cc : ClassicCongestionController S T}

lemma follows_foldl {σ : Type} (get : σ → ClassicCongestionController S T)
    (turn : σ → Packet → σ) (hturn : ∀ l p, Follows (get l) (get (turn l p))) (l : σ)
    (ps : List Packet) : Follows (get l) (get (ps.foldl turn l)) := by
  induction ps generalizing l with
  | nil => exact .of_eq rfl rfl rfl
  | cons p ps ih => exact (hturn l p).trans (ih (turn l p))

lemma packetLost_follows (cc : ClassicCongestionController S T) (pkt : Packet) :
    Follows cc (cc.packetLost pkt) := by
  unfold packetLost
  split_ifs <;> exact .of_eq rfl rfl rfl

lemma packetAcked_follows (l : AckLoop S T) (pkt : Packet) :
    Follows l.cc (l.packetAcked pkt).cc := by
  unfold AckLoop.packetAcked
  dsimp only
  split_ifs <;> exact .of_current rfl rfl ⟨rfl, fun _ h => ⟨h.window, h.ssthresh⟩⟩

/-- The first packet sent in a transient phase starts recovery. Other packets keep the
parameters. -/
lemma onPacketSent_current (cc : ClassicCongestionController S T) (pkt : Packet) :
    (cc.onPacketSent pkt).pmtud = cc.pmtud ∧ (cc.onPacketSent pkt).stored = cc.stored ∧
      (cc.onPacketSent pkt).current = if cc.current.phase.transient then
        { cc.current with recoveryStart := some pkt.pn, phase := cc.current.phase.update }
      else cc.current := by
  unfold onPacketSent
  dsimp only
  split_ifs <;> exact ⟨rfl, rfl, rfl⟩

omit [SlowStart S] in
lemma current_foldl_packetLost (cc : ClassicCongestionController S T) (lost : List Packet) :
    (lost.foldl packetLost cc).current = cc.current := by
  induction lost generalizing cc with
  | nil => rfl
  | cons p lost ih =>
    rw [foldl_cons, ih]
    unfold packetLost
    split_ifs <;> rfl

variable [WindowAdjustment T]

lemma onPacketsAcked_follows (cc : ClassicCongestionController S T) (acked : List Packet)
    (rttEst : RttEstimate) (now : ℕ) : Follows cc (cc.onPacketsAcked acked rttEst now) := by
  by_cases hacked : acked = []
  · rw [hacked]
    exact .of_eq rfl rfl rfl
  obtain ⟨-, hspurious, -⟩ := detectSpuriousCongestionEvent_spec
    (cc.cleanupMaybeLostPackets now (rttEst.pto true)) acked
  have hbefore : Follows cc _ := { hspurious with }
  have hloop := follows_foldl AckLoop.cc AckLoop.packetAcked packetAcked_follows
    { cc := (cc.cleanupMaybeLostPackets now (rttEst.pto true)).detectSpuriousCongestionEvent acked }
    acked
  exact (hbefore.trans hloop).trans (cc.onPacketsAcked_adjusts acked hacked rttEst now).toFollows

lemma step_cases (cc : ClassicCongestionController S T) (op : Op) :
    Follows cc (cc.step op) ∨ (∃ pkt, op = .sent pkt) ∨ ∃ pmtud, op = .pmtud pmtud := by
  cases op with
  | sent pkt => exact .inr (.inl ⟨pkt, rfl⟩)
  | acked acked rttEst now => exact .inl (onPacketsAcked_follows cc acked rttEst now)
  | lost first prev pto lost =>
    have hloop := follows_foldl id packetLost packetLost_follows cc lost
    exact .inl (hloop.trans (cc.onPacketsLost_adjusts first prev pto lost).toFollows)
  | ecnCe pkt => exact .inl (cc.onCongestionEvent_adjusts pkt .ecn).toFollows
  | discard =>
    refine .inl ?_
    unfold step discard
    dsimp only
    split_ifs <;> exact .of_eq rfl rfl rfl
  | discardInFlight => exact .inl (.of_eq rfl rfl rfl)
  | pmtud pmtud => exact .inr (.inr ⟨pmtud, rfl⟩)

/-! ### The floor -/

/-- All windows and thresholds hold at least two datagrams. -/
structure AboveFloor (mtu : ℕ) (cc : ClassicCongestionController S T) : Prop where
  size : cc.maxDatagramSize = mtu
  states : ∀ s, cc.Has s → s.Floor mtu

lemma AboveFloor.step (he : ExitsAbove S) {mtu : ℕ} {op : Op}
    (hop : ∀ m, op = .pmtud m → m.plpmtu = mtu) (h : AboveFloor mtu cc) :
    AboveFloor mtu (cc.step op) := by
  rcases step_cases cc op with hf | ⟨pkt, rfl⟩ | ⟨pmtud, rfl⟩
  · refine ⟨(congrArg Pmtud.plpmtu hf.pmtud).trans h.size, fun s' hs' => ?_⟩
    obtain ⟨s, hs, hnext⟩ := hf.states s' hs'
    exact h.size ▸ hnext.floor he (h.size.symm ▸ h.states s hs)
  · obtain ⟨hpmtud, hstored, hcurrent⟩ := onPacketSent_current cc pkt
    refine ⟨(congrArg Pmtud.plpmtu hpmtud).trans h.size, fun s' hs' => ?_⟩
    have hfloor := h.states cc.current (.inl rfl)
    rcases hs' with rfl | hs'
    · change (cc.onPacketSent pkt).current.Floor mtu
      rw [hcurrent]
      split_ifs
      · exact { hfloor with }
      · exact hfloor
    · exact h.states s' (.inr (hstored ▸ hs'))
  · exact ⟨hop pmtud rfl, h.states⟩

omit [SlowStart S] [WindowAdjustment T] in
lemma AboveFloor.new (slowStart : S) (congestionControl : T) (pmtud : Pmtud) (spurious : Bool) :
    AboveFloor pmtud.plpmtu (new slowStart congestionControl pmtud spurious) := by
  refine ⟨rfl, fun s hs => ?_⟩
  obtain rfl := hs.resolve_right nofun
  refine ⟨?_, nofun⟩
  change _ ≤ min (10 * pmtud.plpmtu) (max (2 * pmtud.plpmtu) 14720)
  omega

/-- **The window has a floor.**  As long as the path MTU does not change, the congestion window and
the slow start threshold are never less than two datagrams. -/
theorem run_window_floor (he : ExitsAbove S) (slowStart : S) (congestionControl : T) (pmtud : Pmtud)
    (spurious : Bool) (ops : List Op) (hops : ∀ m, .pmtud m ∈ ops → m.plpmtu = pmtud.plpmtu) :
    let cc := (new slowStart congestionControl pmtud spurious).run ops
    cc.maxDatagramSize = pmtud.plpmtu ∧ 2 * cc.maxDatagramSize ≤ cc.cwnd ∧
      ∀ t ∈ cc.current.ssthresh, 2 * cc.maxDatagramSize ≤ t := by
  have h : AboveFloor pmtud.plpmtu ((new slowStart congestionControl pmtud spurious).run ops) :=
    foldlRecOn (motive := AboveFloor pmtud.plpmtu) ops ClassicCongestionController.step
      (.new slowStart congestionControl pmtud spurious)
      fun _ h op hop => h.step he fun m hm => hops m (hm ▸ hop)
  have hfloor := h.states _ (.inl rfl)
  refine ⟨h.size, ?_⟩
  rw [h.size, mul_comm]
  exact ⟨hfloor.window, hfloor.ssthresh⟩

lemma exitsAbove_classicSlowStart : ExitsAbove ClassicSlowStart := by
  intro s rttEst largestAcked cwnd now exit h
  cases h

/-- A packet of 1200 bytes that elicits an acknowledgment. -/
def packetOf (pt : PacketType) (pn timeSent : ℕ) : Packet :=
  { pt := pt, pn := pn, ackEliciting := true, timeSent := timeSent, tokens := [], len := 1200 }

/-- A packet is lost in slow start. -/
theorem run_window_floor_of_loss :
    let cc := (new ClassicSlowStart.mk NewReno.mk (.new .v6 none) true).run
      [.sent (packetOf .short 0 0), .lost none none 0 [packetOf .short 0 0]]
    2 * cc.maxDatagramSize ≤ cc.cwnd :=
  (run_window_floor exitsAbove_classicSlowStart ClassicSlowStart.mk NewReno.mk (.new .v6 none) true
    [.sent (packetOf .short 0 0), .lost none none 0 [packetOf .short 0 0]] (by simp)).2.1

/-! ### The start of recovery -/

/-- A recovery period starts when a packet with this number is sent. -/
def StartsAt (cc : ClassicCongestionController S T) (ops : List Op) (pn : ℕ) : Prop :=
  ∃ ops₁ q ops₂, ops = ops₁ ++ .sent q :: ops₂ ∧ q.pn = pn ∧
    (cc.run ops₁).current.phase.transient = true

lemma StartsAt.snoc {ops : List Op} {pn : ℕ} (h : StartsAt cc ops pn) (op : Op) :
    StartsAt cc (ops ++ [op]) pn := by
  obtain ⟨ops₁, q, ops₂, rfl, hpn, htransient⟩ := h
  exact ⟨ops₁, q, ops₂ ++ [op], by simp, hpn, htransient⟩

/-- Recovery started when a packet was sent, for the current parameters and for the stored ones. -/
lemma run_startsAt (hcc : ∀ s, cc.Has s → s.recoveryStart = none) (ops : List Op) (s : State)
    (hs : (cc.run ops).Has s) : ∀ pn ∈ s.recoveryStart, StartsAt cc ops pn := by
  intro pn hpn
  induction ops using reverseRecOn generalizing s with
  | nil =>
    rw [hcc s hs] at hpn
    cases hpn
  | append_singleton ops op ih =>
    rw [run_append] at hs
    rcases step_cases (cc.run ops) op with hf | ⟨pkt, rfl⟩ | ⟨pmtud, rfl⟩
    · obtain ⟨s', hs', hnext⟩ := hf.states s hs
      exact (ih s' hs' (hnext.recoveryStart ▸ hpn)).snoc op
    · obtain ⟨-, hstored, hcurrent⟩ := onPacketSent_current (cc.run ops) pkt
      rcases hs with rfl | hs
      · change pn ∈ ((cc.run ops).onPacketSent pkt).current.recoveryStart at hpn
        rw [hcurrent] at hpn
        split_ifs at hpn with htransient
        · exact ⟨ops, pkt, [], rfl, Option.some.inj hpn, htransient⟩
        · exact (ih _ (.inl rfl) hpn).snoc _
      · exact (ih s (.inr (hstored ▸ hs)) hpn).snoc _
    · exact (ih s hs hpn).snoc _

lemma sentPns_append (ops ops' : List Op) :
    sentPns (ops ++ ops') = sentPns ops ++ sentPns ops' := by
  induction ops with
  | nil => rfl
  | cons op ops ih => cases op <;> simp [sentPns, ih]

omit [SlowStart S] in
lemma onCongestionEvent_old {p : Packet} (hold : cc.afterRecoveryStart p = false)
    (trigger : CongestionTrigger) : cc.onCongestionEvent p trigger = (cc, false) := by
  rw [onCongestionEvent, hold]
  rfl

/-- Losing packets from before recovery only matters if it is persistent congestion. -/
lemma onPacketsLost_old {lost : List Packet} (hold : ∀ p ∈ lost, cc.afterRecoveryStart p = false)
    (first prev : Option ℕ) (pto : ℕ)
    (hpersistent : (cc.detectPersistentCongestion first prev pto
      (lost.filter fun p => !p.isPmtudProbe)).2 = false) :
    (cc.onPacketsLost first prev pto lost).1.current = cc.current := by
  have hkeep := current_foldl_packetLost cc lost
  unfold onPacketsLost
  dsimp only
  split_ifs
  · rfl
  · split
    · exact hkeep
    · rename_i last hlast
      have hmem : last ∈ lost := mem_of_mem_filter (mem_of_mem_filter (mem_of_getLast? hlast))
      have hevent : (lost.foldl packetLost cc).afterRecoveryStart last = false := by
        rw [afterRecoveryStart, hkeep]
        exact hold last hmem
      rw [onCongestionEvent_old hevent]
      unfold detectPersistentCongestion at hpersistent ⊢
      cases first with
      | none => exact hkeep
      | some first =>
        dsimp only at hpersistent ⊢
        split_ifs at hpersistent ⊢
        exact hkeep

/-- **The start of recovery is respected.**  If packet numbers increase with every packet sent, then
recovery started with the sending of a packet `q`, and exactly what was sent before `q` counts as
sent before recovery. Such packets cause no congestion event, and their loss changes nothing
unless it is persistent congestion. -/
theorem afterRecoveryStart_iff_sent (slowStart : S) (congestionControl : T) (pmtud : Pmtud)
    (spurious : Bool) (ops : List Op) (hpns : (sentPns ops).Pairwise (· < ·)) :
    let cc₀ := new slowStart congestionControl pmtud spurious
    let cc := cc₀.run ops
    cc.current.phase.transient = false → ∀ pn ∈ cc.current.recoveryStart,
      ∃ ops₁ q ops₂, ops = ops₁ ++ .sent q :: ops₂ ∧ q.pn = pn ∧
        (cc₀.run ops₁).current.phase.transient = true ∧
        (∀ p : Packet, p.pn ∈ sentPns ops →
          (cc.afterRecoveryStart p = true ↔ p.pn ∈ q.pn :: sentPns ops₂)) ∧
        (∀ p : Packet, p.pn ∈ sentPns ops₁ →
          ∀ trigger, cc.onCongestionEvent p trigger = (cc, false)) ∧
        ∀ lost : List Packet, (∀ p ∈ lost, p.pn ∈ sentPns ops₁) → ∀ first prev pto,
          (cc.detectPersistentCongestion first prev pto
            (lost.filter fun p => !p.isPmtudProbe)).2 = false →
          (cc.onPacketsLost first prev pto lost).1.current = cc.current := by
  intro cc₀ cc htransient pn hpn
  have hnew : ∀ s, cc₀.Has s → s.recoveryStart = none := fun s hs =>
    hs.elim (· ▸ rfl) nofun
  obtain ⟨ops₁, q, ops₂, rfl, rfl, hstart⟩ := run_startsAt hnew ops _ (.inl rfl) pn hpn
  have hafter : ∀ p : Packet, cc.afterRecoveryStart p = decide (q.pn ≤ p.pn) := by
    intro p
    rw [afterRecoveryStart, htransient, Option.mem_def.mp hpn]
    rfl
  rw [sentPns_append, sentPns, pairwise_append, pairwise_cons] at hpns
  obtain ⟨-, ⟨hlater, -⟩, hearlier⟩ := hpns
  have hlt : ∀ p : Packet, p.pn ∈ sentPns ops₁ → p.pn < q.pn := fun p hp =>
    hearlier p.pn hp q.pn mem_cons_self
  have hold : ∀ p : Packet, p.pn ∈ sentPns ops₁ → cc.afterRecoveryStart p = false := fun p hp =>
    (hafter p).trans (decide_eq_false (not_le.mpr (hlt p hp)))
  refine ⟨ops₁, q, ops₂, rfl, rfl, hstart, fun p hp => ?_,
    fun p hp => onCongestionEvent_old (hold p hp),
    fun lost hlost => onPacketsLost_old fun p hp => hold p (hlost p hp)⟩
  rw [hafter, decide_eq_true_eq]
  rw [sentPns_append, sentPns, mem_append] at hp
  constructor
  · intro hle
    exact hp.resolve_left fun hp => absurd (hlt p hp) (not_lt.mpr hle)
  · intro hmem
    rcases mem_cons.mp hmem with heq | hmem
    · exact heq.ge
    · exact (hlater p.pn hmem).le

/-- Packet 2 is the first one that is sent after packet 0 was lost. -/
theorem afterRecoveryStart_iff_sent_of_loss :
    let ops : List Op := [.sent (packetOf .short 0 0), .sent (packetOf .short 1 1),
      .lost none none 0 [packetOf .short 0 0], .sent (packetOf .short 2 2)]
    let cc := (new ClassicSlowStart.mk NewReno.mk (.new .v6 none) true).run ops
    cc.afterRecoveryStart (packetOf .short 1 1) = false ∧
      ∃ ops₁ q ops₂, ops = ops₁ ++ .sent q :: ops₂ ∧ q.pn = 2 ∧
        ∀ p : Packet, p.pn ∈ sentPns ops →
          (cc.afterRecoveryStart p = true ↔ p.pn ∈ q.pn :: sentPns ops₂) := by
  intro ops cc
  obtain ⟨ops₁, q, ops₂, hops, hq, -, hiff, -⟩ := afterRecoveryStart_iff_sent ClassicSlowStart.mk
    NewReno.mk (.new .v6 none) true ops (by decide) (by decide) 2 (by decide)
  exact ⟨by decide, ops₁, q, ops₂, hops, hq, hiff⟩

/-- Two Initial packets are sent. The first is lost, and recovery starts with Handshake packet 0.
The second then counts as sent after that, and its loss reduces the window again. -/
theorem initial_after_recoveryStart :
    let cc := (new ClassicSlowStart.mk NewReno.mk (.new .v6 none) true).run
      [.sent (packetOf .initial 0 0), .sent (packetOf .initial 1 1),
        .lost none none 0 [packetOf .initial 0 0], .sent (packetOf .handshake 0 2)]
    cc.afterRecoveryStart (packetOf .initial 1 1) = true ∧ cc.cwnd = 6160 ∧
      (cc.step (.lost none none 0 [packetOf .initial 1 1])).cwnd = 3080 := by
  decide

end ClassicCongestionController

end Neqo
