import Neqo.Cc.Equiv.Window
import Neqo.Util.Run

/-!
# Undoing spurious congestion events

A lost packet enters `maybeLostPackets`, and leaves it when it is acknowledged or has aged out
(`waits_run`). Stored parameters are restored when an acknowledgment empties this table.
Congestion events caused by an ECN-CE mark neither enter the table nor remove what was stored.
-/

namespace Neqo.ClassicCongestionController

open List

open Sent (Packet)

variable {S T : Type}

/-- A packet in flight, other than a PMTUD probe, is declared lost. -/
def Op.Loses (key : ℕ × PacketType) : Op → Prop
  | .lost _ _ _ pkts => ∃ p ∈ pkts, (p.pn, p.pt) = key ∧ p.ccInFlight = true ∧
      p.isPmtudProbe = false
  | _ => False

/-- The packet is acknowledged. -/
def Op.Acks (key : ℕ × PacketType) : Op → Prop
  | .acked pkts _ _ => ∃ p ∈ pkts, (p.pn, p.pt) = key
  | _ => False

/-- The entry for a packet is dropped because of its age. -/
def AgesOut (cc : ClassicCongestionController S T) (key : ℕ × PacketType) : Op → Prop
  | .acked _ rttEst now => ∃ t, cc.maybeLostPackets.Mem key t ∧ rttEst.pto true * 2 < now - t
  | _ => False

/-- The packet is in the table. -/
def Waits (cc : ClassicCongestionController S T) (key : ℕ × PacketType) : Prop :=
  ∃ t, cc.maybeLostPackets.Mem key t

variable {cc : ClassicCongestionController S T} {key : ℕ × PacketType}

lemma waits_packetLost {p : Packet}
    (h : cc.Waits key ∨ (p.pn, p.pt) = key ∧ p.ccInFlight = true ∧ p.isPmtudProbe = false) :
    (cc.packetLost p).Waits key := by
  unfold packetLost
  by_cases hkey : key = (p.pn, p.pt)
  · split_ifs
    · exact ⟨_, IndexMap.mem_insert.mpr (.inl ⟨hkey, rfl⟩)⟩
    all_goals exact h.resolve_right (by simp_all)
  · obtain ⟨t, ht⟩ := h.resolve_right fun h => hkey h.1.symm
    split_ifs
    · exact ⟨t, IndexMap.mem_insert.mpr (.inr ⟨hkey, ht⟩)⟩
    all_goals exact ⟨t, ht⟩

lemma waits_foldl_packetLost {lost : List Packet}
    (h : cc.Waits key ∨
      ∃ p ∈ lost, (p.pn, p.pt) = key ∧ p.ccInFlight = true ∧ p.isPmtudProbe = false) :
    (lost.foldl packetLost cc).Waits key := by
  induction lost generalizing cc with
  | nil => exact h.resolve_right nofun
  | cons q lost ih =>
    rcases h with h | ⟨p, hp, hlost⟩
    · exact ih (.inl (waits_packetLost (.inl h)))
    · rcases mem_cons.mp hp with rfl | hp
      · exact ih (.inl (waits_packetLost (.inr hlost)))
      · exact ih (.inr ⟨p, hp, hlost⟩)

lemma foldl_packetAcked_maybeLostPackets (l : AckLoop S T) (acked : List Packet) :
    (acked.foldl AckLoop.packetAcked l).cc.maybeLostPackets = l.cc.maybeLostPackets := by
  induction acked generalizing l with
  | nil => rfl
  | cons p acked ih =>
    rw [foldl_cons, ih]
    unfold AckLoop.packetAcked
    dsimp only
    split_ifs <;> rfl

variable [SlowStart S] [WindowAdjustment T]

lemma onPacketsAcked_maybeLostPackets {acked : List Packet} (hacked : acked ≠ [])
    (rttEst : RttEstimate) (now : ℕ) :
    (cc.onPacketsAcked acked rttEst now).maybeLostPackets =
      ((cc.cleanupMaybeLostPackets now (rttEst.pto true)).detectSpuriousCongestionEvent
        acked).maybeLostPackets := by
  rw [(cc.onPacketsAcked_adjusts acked hacked rttEst now).maybeLostPackets,
    foldl_packetAcked_maybeLostPackets]

lemma waits_step {op : Op} (h : cc.Waits key ∨ op.Loses key) (hage : ¬ cc.AgesOut key op) :
    (cc.step op).Waits key ∨ op.Acks key := by
  cases op with
  | lost first prev pto lost =>
    obtain ⟨t, ht⟩ := waits_foldl_packetLost h
    exact .inl ⟨t, (cc.onPacketsLost_adjusts first prev pto lost).maybeLostPackets ▸ ht⟩
  | acked acked rttEst now =>
    obtain ⟨t, ht⟩ := h.resolve_right id
    by_cases hacks : ∃ p ∈ acked, (p.pn, p.pt) = key
    · exact .inr hacks
    refine .inl ⟨t, ?_⟩
    by_cases hnil : acked = []
    · rw [hnil]
      exact ht
    · obtain ⟨-, -, hmem, -⟩ := detectSpuriousCongestionEvent_spec
        (cc.cleanupMaybeLostPackets now (rttEst.pto true)) acked
      change (cc.onPacketsAcked acked rttEst now).maybeLostPackets.Mem key t
      rw [onPacketsAcked_maybeLostPackets hnil, hmem]
      refine ⟨IndexMap.mem_retain.mpr ⟨ht, decide_eq_true ?_⟩, fun p hp hkey => hacks ⟨p, hp, hkey⟩⟩
      exact not_lt.mp fun hlt => hage ⟨t, ht, hlt⟩
  | sent | discard =>
    obtain ⟨t, ht⟩ := h.resolve_right id
    refine .inl ⟨t, ?_⟩
    simp only [step, onPacketSent, discard]
    split_ifs <;> exact ht
  | ecnCe pkt =>
    obtain ⟨t, ht⟩ := h.resolve_right id
    exact .inl ⟨t, (cc.onCongestionEvent_adjusts pkt .ecn).maybeLostPackets ▸ ht⟩
  | discardInFlight | pmtud => exact .inl (h.resolve_right id)

lemma waits_run {ops : List Op} (h : cc.Waits key ∨ ∃ op ∈ ops, op.Loses key)
    (hage : Run.Along step (¬ AgesOut · key ·) cc ops) :
    (cc.run ops).Waits key ∨ ∃ op ∈ ops, op.Acks key := by
  induction ops generalizing cc with
  | nil => exact .inl (h.resolve_right nofun)
  | cons op ops ih =>
    have hstep : (cc.step op).Waits key ∨ (∃ op' ∈ ops, op'.Loses key) ∨ op.Acks key := by
      rcases h with h | ⟨op', hop', hloses⟩
      · exact (waits_step (.inl h) hage.1).imp_right .inr
      · rcases mem_cons.mp hop' with rfl | hop'
        · exact (waits_step (.inr hloses) hage.1).imp_right .inr
        · exact .inr (.inl ⟨op', hop', hloses⟩)
    have hrun : ∀ h, (cc.run (op :: ops)).Waits key ∨ ∃ op' ∈ op :: ops, op'.Acks key := fun h =>
      (ih h hage.2).imp_right fun ⟨op', hop', hacks⟩ => ⟨op', .tail _ hop', hacks⟩
    rcases hstep with h | h | hacks
    · exact hrun (.inl h)
    · exact hrun (.inr h)
    · exact .inr ⟨op, mem_cons_self, hacks⟩

/-- The parameters that were stored are restored when packets are acknowledged. -/
def Restores (cc : ClassicCongestionController S T) (acked : List Packet) (rttEst : RttEstimate)
    (now : ℕ) : Prop :=
  let cc := cc.cleanupMaybeLostPackets now (rttEst.pto true)
  acked ≠ [] ∧ (cc.detectSpuriousCongestionEvent acked).current ≠ cc.current

omit [SlowStart S] in
lemma stored_of_restores {acked : List Packet} {rttEst : RttEstimate} {now : ℕ}
    (h : cc.Restores acked rttEst now) : cc.stored.isSome = true := by
  by_contra hnone
  rw [Bool.not_eq_true, Option.isSome_eq_false_iff, Option.isNone_iff_eq_none] at hnone
  refine h.2 ?_
  unfold detectSpuriousCongestionEvent onSpuriousCongestionEvent cleanupMaybeLostPackets
  dsimp only
  rw [hnone]
  split_ifs <;> rfl

/-- While parameters are stored, ECN-CE marks are only reported for packets from before recovery. -/
def MarksOld (cc : ClassicCongestionController S T) : Op → Prop
  | .ecnCe pkt => cc.stored.isSome = true → cc.afterRecoveryStart pkt = false
  | _ => True

/-- **Only spurious congestion is undone.**  When parameters are restored, every packet in flight,
apart from PMTUD probes, that was declared lost since any earlier state has been acknowledged, or
its entry in the table was dropped because of its age. No ECN-CE mark reported since these
parameters were stored was a congestion event, if each was for a packet from before recovery. -/
theorem spurious_of_restores (cc : ClassicCongestionController S T) (ops : List Op)
    (acked : List Packet) (rttEst : RttEstimate) (now : ℕ)
    (hrestores : (cc.run ops).Restores acked rttEst now) (hmarks : Run.Along step MarksOld cc ops) :
    (∀ key, (∃ op ∈ ops, op.Loses key) →
      Run.Along step (¬ AgesOut · key ·) cc (ops ++ [.acked acked rttEst now]) →
      ∃ op ∈ ops ++ [.acked acked rttEst now], op.Acks key) ∧
    ∀ before pkt after, ops = before ++ .ecnCe pkt :: after →
      (cc.run before).stored = (cc.run ops).stored →
      ((cc.run before).onEcnCeReceived pkt).2 = false := by
  constructor
  · rintro key ⟨op, hop, hloses⟩ hage
    obtain ⟨hnil, hcurrent⟩ := hrestores
    obtain ⟨-, -, -, hempty⟩ := detectSpuriousCongestionEvent_spec
      ((cc.run ops).cleanupMaybeLostPackets now (rttEst.pto true)) acked
    refine (waits_run (.inr ⟨op, mem_append_left _ hop, hloses⟩) hage).resolve_left ?_
    rintro ⟨t, ht⟩
    rw [run_append] at ht
    change ((cc.run ops).onPacketsAcked acked rttEst now).maybeLostPackets.Mem key t at ht
    rw [onPacketsAcked_maybeLostPackets hnil, IndexMap.Mem, hempty.resolve_left hcurrent] at ht
    cases ht
  · intro before pkt after hops hstored
    have hold : (cc.run before).afterRecoveryStart pkt = false := by
      rw [hops] at hmarks
      exact hmarks.of_append (hstored ▸ stored_of_restores hrestores)
    rw [onEcnCeReceived, onCongestionEvent_old hold]

/-- A packet that is declared lost when it is sent. -/
def lostPacketOf (pn timeSent : ℕ) : Packet :=
  ((packetOf .short pn timeSent).declareLost timeSent .timeThreshold).1

/-- Packet 0 is lost and acknowledged late, and packet 1 was sent before recovery with an ECN-CE
mark. -/
theorem spurious_of_restores_of_late :
    let cc := new ClassicSlowStart.mk NewReno.mk (.new .v6 none) true
    let ops := [.sent (packetOf .short 0 0), .sent (packetOf .short 1 1),
      .lost none none 0 [lostPacketOf 0 0]]
    ((cc.run ops).onEcnCeReceived (packetOf .short 1 1)).2 = false ∧
      ∃ op ∈ ops ++ [.ecnCe (packetOf .short 1 1), .acked [lostPacketOf 0 0] (.new 1) 1],
        op.Acks (0, .short) := by
  intro cc ops
  obtain ⟨hlost, hecn⟩ := spurious_of_restores cc (ops ++ [.ecnCe (packetOf .short 1 1)])
    [lostPacketOf 0 0] (.new 1) 1 ⟨nofun, by decide⟩
    ⟨trivial, trivial, trivial, by unfold MarksOld; decide, trivial⟩
  refine ⟨hecn ops _ [] rfl (by decide), ?_⟩
  refine hlost (0, .short) ⟨_, .tail _ (.tail _ (.head _)), _, .head _, rfl, rfl, rfl⟩
    ⟨id, id, id, id, ?_, trivial⟩
  rintro ⟨t, -, ht⟩
  have hpto : 1 ≤ (RttEstimate.new 1).pto true * 2 := by decide
  omega

/-- Packets 0 and 1 are lost, and packet 2 starts recovery. The window from before the loss is
restored when packet 1 is acknowledged and packet 0 has aged out; and when both are acknowledged,
although an ECN-CE mark on packet 2 was another congestion event. -/
theorem restores_too_much :
    let cc := (new ClassicSlowStart.mk NewReno.mk (.new .v6 none) true).run
      [.sent (packetOf .short 0 0), .sent (packetOf .short 1 1),
        .lost none none 0 [lostPacketOf 0 0, lostPacketOf 1 1], .sent (packetOf .short 2 2)]
    let now := 2 * (RttEstimate.new 0).pto true + 1
    cc.cwnd = 6160 ∧ (cc.run [.acked [lostPacketOf 1 1] (.new 0) now]).cwnd = 12320 ∧
      (cc.onEcnCeReceived (packetOf .short 2 2)).2 = true ∧
      (cc.run [.ecnCe (packetOf .short 2 2),
        .acked [lostPacketOf 1 1, lostPacketOf 0 0] (.new 0) 2]).cwnd = 12320 := by
  decide

/-!
## Acknowledgments of packets from before recovery

Packets sent before recovery started add nothing to the bytes that grow the window. What was
collected earlier is applied again after the loop over the packets, and can be a whole window: a
congestion event halves both, and rounds (`old_packet_grows`).
-/

variable {S T : Type}

variable (S) in
/-- Slow start is left with the window that it had, and does not grow it without acknowledged
bytes. -/
structure KeepsWindow [SlowStart S] : Prop where
  exit : ∀ (s : S) (rttEst : RttEstimate) (largestAcked cwnd now : ℕ),
    ∀ exit ∈ (SlowStart.onPacketsAcked s rttEst largestAcked cwnd now).2, exit = cwnd
  increase : ∀ (s : S) (mtu : ℕ), SlowStart.calcCwndIncrease s 0 mtu = 0

/-- An acknowledged packet is in the range in which the window was used. -/
def usesWindow (firstAppLimited : Option ℕ) (p : Packet) : Bool :=
  p.ccOutstanding && firstAppLimited.any fun f => p.pn < f

lemma packetAcked_old (l : AckLoop S T) (p : Packet) (hold : l.cc.afterRecoveryStart p = false) :
    ∃ b u, l.packetAcked p =
      { l with cc := { l.cc with bytesInFlight := b, underflow := u },
               isAppLimited := l.isAppLimited && !usesWindow l.cc.firstAppLimited p } := by
  have hleave : (l.cc.leaveFlight p.len).afterRecoveryStart p = false := hold
  unfold AckLoop.packetAcked usesWindow
  cases hout : p.ccOutstanding with
  | false => exact ⟨_, _, by simp; rfl⟩
  | true =>
    refine ⟨(l.cc.leaveFlight p.len).bytesInFlight, (l.cc.leaveFlight p.len).underflow, ?_⟩
    cases hused : l.cc.firstAppLimited.any fun f => decide (p.pn < f) <;> simp [hleave] <;> rfl

lemma foldl_packetAcked_old (acked : List Packet) (l : AckLoop S T)
    (hold : ∀ p ∈ acked, l.cc.afterRecoveryStart p = false) :
    ∃ b u, acked.foldl AckLoop.packetAcked l =
      { l with cc := { l.cc with bytesInFlight := b, underflow := u },
               isAppLimited :=
                 l.isAppLimited && !acked.any (usesWindow l.cc.firstAppLimited) } := by
  induction acked generalizing l with
  | nil => exact ⟨_, _, by simp; rfl⟩
  | cons p acked ih =>
    obtain ⟨hp, hacked⟩ := forall_mem_cons.mp hold
    obtain ⟨b, u, hl⟩ := packetAcked_old l p hp
    obtain ⟨b', u', hl'⟩ := ih (l.packetAcked p) (by rw [hl]; exact hacked)
    refine ⟨b', u', ?_⟩
    rw [foldl_cons, hl', hl, any_cons, Bool.not_or, Bool.and_assoc]

variable [SlowStart S]

/-- The state in which slow start handles an acknowledgment that adds nothing. -/
def recordNothing (cc : ClassicCongestionController S T) : S :=
  if cc.current.phase.inSlowStart then SlowStart.recordAckedBytes cc.slowStart 0 else cc.slowStart

/-- Below the threshold, and slow start is not left. -/
def StaysInSlowStart (current : Cc.State) (slowStart : S) (rttEst : RttEstimate)
    (largestAcked now : ℕ) : Prop :=
  (current.ssthresh.all fun s => current.congestionWindow < s) = true ∧
    (SlowStart.onPacketsAcked slowStart rttEst largestAcked current.congestionWindow now).2 = none

lemma growInSlowStart_zero (hS : KeepsWindow S) (cc : ClassicCongestionController S T)
    (rttEst : RttEstimate) (largestAcked now : ℕ) :
    let cc' := cc.growInSlowStart rttEst largestAcked 0 now
    cc'.cwnd = cc.cwnd ∧ cc'.current.ackedBytes = cc.current.ackedBytes ∧
      cc'.maxDatagramSize = cc.maxDatagramSize ∧
      ((∀ s ∈ cc'.current.ssthresh, cc'.cwnd < s) ↔
        StaysInSlowStart cc.current cc.slowStart rttEst largestAcked now) := by
  unfold growInSlowStart StaysInSlowStart cwnd
  by_cases hslow : cc.current.ssthresh.all fun s => cc.current.congestionWindow < s
  · rw [if_pos hslow]
    rcases hexit : (SlowStart.onPacketsAcked cc.slowStart rttEst largestAcked
      cc.current.congestionWindow now).2 with _ | exit
    · cases hs : cc.current.ssthresh with
      | none => simp [hexit, hS.increase, hs, maxDatagramSize]
      | some s =>
        have hlt : cc.current.congestionWindow < s := by simpa [hs] using hslow
        simp [hexit, hS.increase, hs, hlt, hlt.not_ge, maxDatagramSize]
    · have hwindow := hS.exit _ _ _ _ _ exit hexit
      simp [hexit, hwindow, setPhase, maxDatagramSize]
  · rw [if_neg hslow]
    refine ⟨rfl, rfl, rfl, fun h => absurd ?_ hslow, fun h => absurd h.1 hslow⟩
    cases hs : cc.current.ssthresh with
    | none => rfl
    | some s => simpa using h s hs

/-- Without acknowledged bytes, the window grows if a whole window was collected, unless slow start
is kept. -/
lemma grow_zero_iff (hS : KeepsWindow S) (cc : ClassicCongestionController S NewReno)
    (rttEst : RttEstimate) (largestAcked now : ℕ) (hcwnd : 0 < cc.cwnd)
    (hmtu : 0 < cc.maxDatagramSize) :
    ((cc.growInSlowStart rttEst largestAcked 0 now).growInCongestionAvoidance rttEst 0 now).cwnd =
      cc.cwnd ↔ StaysInSlowStart cc.current cc.slowStart rttEst largestAcked now ∨
        cc.current.ackedBytes < cc.cwnd := by
  obtain ⟨hslow, hbytes, hsize, hstays⟩ := growInSlowStart_zero hS cc rttEst largestAcked now
  rw [← hslow, ← hbytes, ← hstays]
  rw [← hslow] at hcwnd
  rw [← hsize] at hmtu
  generalize cc.growInSlowStart rttEst largestAcked 0 now = cc at hcwnd hmtu
  have habove : (cc.current.ssthresh.any fun s => cc.current.congestionWindow ≥ s) = true ↔
      ¬ ∀ s ∈ cc.current.ssthresh, cc.cwnd < s := by
    simp [Option.any_eq_true, cwnd]
  unfold growInCongestionAvoidance
  split_ifs with h
  · change cc.cwnd + (min cc.current.ackedBytes cc.cwnd + 0) / cc.cwnd * cc.maxDatagramSize = _ ↔ _
    rw [or_iff_right (habove.mp h), Nat.add_eq_left, Nat.mul_eq_zero, or_iff_left hmtu.ne',
      Nat.div_eq_zero_iff_lt hcwnd]
    omega
  · exact iff_of_true rfl (.inl (not_not.mp fun hnot => h (habove.mpr hnot)))

omit [SlowStart S] in
lemma detectSpuriousCongestionEvent_keeps [WindowAdjustment T]
    (cc : ClassicCongestionController S T) (acked : List Packet) :
    let cc' := cc.detectSpuriousCongestionEvent acked
    cc'.slowStart = cc.slowStart ∧ cc'.firstAppLimited = cc.firstAppLimited ∧
      cc'.pmtud = cc.pmtud := by
  unfold detectSpuriousCongestionEvent onSpuriousCongestionEvent
  cases cc.stored <;> dsimp only <;> split_ifs <;> exact ⟨rfl, rfl, rfl⟩

/-- **Packets from before recovery do not grow the window** exactly if the acknowledged packets did
not use the window, slow start is kept, or less than a window of bytes was collected before. This
holds for all ways to leave slow start that keep the window, unless parameters are restored. -/
theorem cwnd_of_old_iff (hS : KeepsWindow S) (cc : ClassicCongestionController S NewReno)
    (largest : Packet) (acked : List Packet) (rttEst : RttEstimate) (now : ℕ)
    (hold : ∀ p ∈ largest :: acked, cc.afterRecoveryStart p = false)
    (hrestores : ¬ cc.Restores (largest :: acked) rttEst now) (hcwnd : 0 < cc.cwnd)
    (hmtu : 0 < cc.maxDatagramSize) :
    (cc.onPacketsAcked (largest :: acked) rttEst now).cwnd = cc.cwnd ↔
      (largest :: acked).any (usesWindow cc.firstAppLimited) = false ∨
      StaysInSlowStart cc.current cc.recordNothing rttEst largest.pn now ∨
      cc.current.ackedBytes < cc.cwnd := by
  have hcurrent : ((cc.cleanupMaybeLostPackets now (rttEst.pto true)).detectSpuriousCongestionEvent
      (largest :: acked)).current = cc.current :=
    by_contra fun hne => hrestores ⟨cons_ne_nil _ _, hne⟩
  obtain ⟨hslow, hfirst, hpmtud⟩ := detectSpuriousCongestionEvent_keeps
    (cc.cleanupMaybeLostPackets now (rttEst.pto true)) (largest :: acked)
  unfold onPacketsAcked
  dsimp only [head?_cons]
  generalize (cc.cleanupMaybeLostPackets now (rttEst.pto true)).detectSpuriousCongestionEvent
    (largest :: acked) = cc' at hcurrent hslow hfirst hpmtud
  obtain ⟨b, u, hloop⟩ := foldl_packetAcked_old (largest :: acked) { cc := cc' } fun p hp => by
    rw [afterRecoveryStart, hcurrent]
    exact hold p hp
  rw [hloop]
  obtain ⟨_, _, _, _, _, _, _, _, _, _⟩ := cc'
  cases hcurrent
  cases hslow
  cases hfirst
  cases hpmtud
  dsimp only [cleanupMaybeLostPackets]
  rw [Bool.true_and]
  cases (largest :: acked).any (usesWindow cc.firstAppLimited) with
  | false =>
    refine iff_of_true ?_ (.inl rfl)
    rw [Bool.not_false, if_pos rfl]
    split_ifs <;> rfl
  | true =>
    rw [Bool.not_true, if_neg Bool.false_ne_true, or_iff_right Bool.false_ne_true.symm,
      recordNothing]
    split_ifs <;> exact grow_zero_iff hS _ rttEst largest.pn now hcwnd hmtu

lemma keepsWindow_classicSlowStart : KeepsWindow ClassicSlowStart := ⟨nofun, fun _ _ => rfl⟩

/-- A packet of any length. -/
def sizedPacket (pn len : ℕ) : Packet := { packetOf .short pn pn with len := len }

/-- Packet 0 is acknowledged after packet 1 was lost. -/
theorem cwnd_of_old_of_loss :
    let cc := (new ClassicSlowStart.mk NewReno.mk (.new .v6 none) true).run
      [.sent (packetOf .short 0 0), .sent (packetOf .short 1 1),
        .lost none none 0 [packetOf .short 1 1]]
    (cc.onPacketsAcked [packetOf .short 0 0] (.new 1) 1).cwnd = cc.cwnd :=
  (cwnd_of_old_iff keepsWindow_classicSlowStart _ (packetOf .short 0 0) [] (.new 1) 1 (by decide)
    (fun h => h.2 rfl) (by decide) (by decide)).mpr (.inr (.inr (by decide)))

/-- With a window of 9241 bytes, 9240 bytes are acknowledged, and then packet 3 is lost. Half of
both is 4620 bytes, so the acknowledgment of packet 4, sent before recovery started with packet 5,
grows the window by a datagram. -/
theorem old_packet_grows :
    let cc := (new ClassicSlowStart.mk NewReno.mk (.new .v6 none) true).run
      [.sent (sizedPacket 0 6162), .acked [sizedPacket 0 6162] (.new 1) 1,
        .sent (sizedPacket 1 1), .lost none none 0 [sizedPacket 1 1],
        .sent (sizedPacket 2 9240), .sent (sizedPacket 3 1), .sent (sizedPacket 4 1),
        .acked [sizedPacket 2 9240] (.new 1) 2, .lost none none 0 [sizedPacket 3 1],
        .sent (sizedPacket 5 1)]
    cc.current.recoveryStart = some 5 ∧ cc.cwnd = 4620 ∧
      ¬ cc.Restores [sizedPacket 4 1] (.new 1) 3 ∧
      (cc.onPacketsAcked [sizedPacket 4 1] (.new 1) 3).cwnd = 5852 := by
  refine ⟨by decide +kernel, by decide +kernel, fun h => h.2 (by decide +kernel), by decide +kernel⟩

end Neqo.ClassicCongestionController
