import Neqo.Recovery.Space
import Neqo.Util.Run

/-!
# ECN validation
-/

namespace Neqo.Ecn

/-- The number of packets to use for testing a path for ECN capability. -/
def testCount : ℕ := 10

/-- The number of packets to use for testing a path for ECN capability during the handshake. -/
def testCountInitialPhase : ℕ := 3

/-- Why a path is not capable of ECN. -/
inductive ValidationError where
  | blackHole
  | bleaching
  | receivedUnsentEct1
  deriving DecidableEq, Repr

/-- The state information related to testing a path for ECN capability. -/
inductive ValidationState where
  /-- ECN validation not started yet. -/
  | notStarted
  /-- The path is currently being tested for ECN capability. -/
  | testing (probesSent initialProbesAcked initialProbesLost : ℕ)
  /-- The validation test has concluded but the path's ECN capability is not yet known. -/
  | unknown
  /-- The path is known to **not** be ECN capable. -/
  | failed (error : ValidationError)
  /-- The path is known to be ECN capable. -/
  | capable
  deriving DecidableEq, Repr

/-- The counts for different ECN marks. -/
structure Count where
  ect0 : ℕ := 0
  ect1 : ℕ := 0
  ce : ℕ := 0
  deriving DecidableEq, Repr

/-- Subtract the ECN counts in `other`; counts saturate at 0. -/
def Count.sub (c other : Count) : Count :=
  { ect0 := c.ect0 - other.ect0, ect1 := c.ect1 - other.ect1, ce := c.ce - other.ce }

/-- The ECN information of a path. -/
structure Info where
  /-- The current state of ECN validation on this path. -/
  state : ValidationState := .notStarted
  /-- The largest ACK seen so far. -/
  largestAcked : ℕ := 0
  /-- The ECN counts from the last ACK frame that increased `largestAcked`. -/
  baseline : Count := {}
  deriving DecidableEq, Repr

namespace Info

variable (i : Info)

def start : Info :=
  match i.state with
  | .notStarted => { i with state := .testing 0 0 0 }
  | _ => i

def setBaseline (baseline : Count) : Info := { i with baseline := baseline }

/-- Count the number of packets sent out on this path during ECN validation. -/
def onPacketSent (numDatagrams : ℕ) : Info :=
  match i.state with
  | .testing probesSent acked lost =>
    if probesSent + numDatagrams ≥ testCount then { i with state := .unknown }
    else { i with state := .testing (probesSent + numDatagrams) acked lost }
  | _ => i

def disableEcn (reason : ValidationError) : Info := { i with state := .failed reason }

/-- An ECT(0) marked packet has been acked. -/
def ackedEcn : Info :=
  match i.state with
  | .testing probesSent acked lost => { i with state := .testing probesSent (acked + 1) lost }
  | _ => i

/-- An ECT(0) marked packet has been declared lost. -/
def lostEcn : Info :=
  match i.state with
  | .testing probesSent acked lost =>
    let i := { i with state := .testing probesSent acked (lost + 1) }
    if acked = 0 ∧ lost + 1 = testCountInitialPhase then i.disableEcn .blackHole else i
  | _ => i

/-- Whether the state waits for evidence from the counts of an ACK frame. -/
def validates : Bool := i.state = .unknown || i.state = .capable

/-- After the ECN validation test has ended, check if the path is ECN capable. -/
def validateAckEcnAndUpdate (ackedPackets : List Sent.Packet) (ackEcn : Option Count) : Info :=
  match ackedPackets.head? with
  | none => i
  | some largestAcked =>
    if largestAcked.pn ≤ i.largestAcked then i
    else if !i.validates then i
    else
      match ackEcn with
      | none => i.disableEcn .bleaching
      | some ackEcn =>
        let newlyAckedSentWithEct0 := (ackedPackets.filter Sent.Packet.ecnMarkedEct0).length
        let ecnDiff := ackEcn.sub i.baseline
        let sumInc := ecnDiff.ect0 + ecnDiff.ce
        let i :=
          if sumInc < newlyAckedSentWithEct0 then i.disableEcn .bleaching
          else if ecnDiff.ect1 > 0 then i.disableEcn .receivedUnsentEct1
          else if i.state ≠ .capable then { i with state := .capable }
          else i
        { i with baseline := ackEcn, largestAcked := largestAcked.pn }

/-- Process ECN counts from an ACK frame. Returns whether ECN counts contain new valid ECN CE
marks. -/
def onPacketsAcked (ackedPackets : List Sent.Packet) (ackEcn : Option Count) : Info × Bool :=
  let prevBaseline := i.baseline
  let i := i.validateAckEcnAndUpdate ackedPackets ackEcn
  (i, i.state = .capable && decide ((i.baseline.sub prevBaseline).ce > 0))

def isMarking : Bool :=
  match i.state with
  | .testing _ _ _ => true
  | .capable => true
  | _ => false

end Info

end Neqo.Ecn

/-!
## The evidence for ECN validation

A path is followed with the packets sent on it, each with the mark that it had then, and those that
were acknowledged (`History`). An acknowledgment is validated if it raises the largest acknowledged
packet number once enough packets were sent (`validate_cases`). Whether its packets were marked
only matters for the counts that are needed, so a packet without a mark can make the path capable
(`capable_of_unmarked`) or stop it from being marked (`bleaching_of_above`).
-/

namespace Neqo.Ecn

open Sent (Packet)

/-- The state of a path, with the packets that were sent on it and those that were acknowledged. -/
structure History where
  info : Info := {}
  sent : List Packet := []
  acked : List Packet := []

/-- What is reported about the packets on a path. -/
inductive Op where
  | start
  | sent (numDatagrams : ℕ) (pkts : List Packet)
  | acked (ackedPackets : List Packet) (ackEcn : Option Count)
  | ackedEcn
  | lostEcn

/-- The packets that are sent. -/
def Op.sends : Op → List Packet
  | .sent _ pkts => pkts
  | _ => []

namespace History

def step (h : History) : Op → History
  | .start => { h with info := h.info.start }
  | .sent numDatagrams pkts =>
    { h with info := h.info.onPacketSent numDatagrams, sent := h.sent ++ pkts }
  | .acked pkts counts =>
    { h with info := (h.info.onPacketsAcked pkts counts).1, acked := h.acked ++ pkts }
  | .ackedEcn => { h with info := h.info.ackedEcn }
  | .lostEcn => { h with info := h.info.lostEcn }

def run (ops : List Op) : History := ops.foldl step {}

/-- The packets that an acknowledgment can newly acknowledge. -/
def outstanding (h : History) : List Packet := h.sent.filter (· ∉ h.acked)

/-- Packets are sent with the mark of the path, and only what is outstanding is acknowledged. -/
def Possible (h : History) : Op → Prop
  | .sent _ pkts => ∀ p ∈ pkts, p.ecnMarkedEct0 = h.info.isMarking
  | .acked pkts _ => ∀ p ∈ pkts, p ∈ h.outstanding
  | _ => True

instance (h : History) : (op : Op) → Decidable (h.Possible op)
  | .sent _ pkts =>
    inferInstanceAs (Decidable (∀ p ∈ pkts, p.ecnMarkedEct0 = h.info.isMarking))
  | .acked pkts _ => inferInstanceAs (Decidable (∀ p ∈ pkts, p ∈ h.outstanding))
  | .start | .ackedEcn | .lostEcn => isTrue trivial

/-- A packet that was marked with ECT(0) was acknowledged. -/
def Evidence (h : History) : Prop := ∃ p ∈ h.acked, p.ecnMarkedEct0 = true

instance (h : History) : Decidable h.Evidence := inferInstanceAs (Decidable (∃ p ∈ h.acked, _))

/-- No packet is sent without a mark before one with a mark was acknowledged. -/
def MarksFirst (h : History) (op : Op) : Prop := ∀ p ∈ op.sends, p.ecnMarkedEct0 = true ∨ h.Evidence

instance (h : History) (op : Op) : Decidable (h.MarksFirst op) :=
  inferInstanceAs (Decidable (∀ p ∈ op.sends, _))

/-- A packet with a mark, or without. -/
def packetOf (pn : ℕ) (marked : Bool) : Packet :=
  { pt := .short, pn := pn, ackEliciting := true, timeSent := 0,
    tokens := if marked then [.ecnEct0] else [], len := 1200 }

variable {h : History} {pkts : List Packet} {counts : Option Count} {p : Packet}

lemma mem_sent_of_outstanding (hp : p ∈ h.outstanding) : p ∈ h.sent := (List.mem_filter.mp hp).1

lemma validate_cases (i : Info) (pkts : List Packet) (counts : Option Count) :
    i.validateAckEcnAndUpdate pkts counts = i ∨
      i.validates = true ∧ ∃ largest ∈ pkts, i.largestAcked < largest.pn := by
  unfold Info.validateAckEcnAndUpdate
  split
  · exact .inl rfl
  next largest hlargest =>
    split
    · exact .inl rfl
    next hle =>
      cases hvalidates : i.validates with
      | false => exact .inl rfl
      | true => exact .inr ⟨rfl, largest, List.mem_of_mem_head? hlargest, not_le.mp hle⟩

/-! ### Capable paths -/

lemma capable_of_step {op : Op} (hcapable : (h.step op).info.state = .capable) :
    h.info.state = .capable ∨ ∃ pkts counts, op = .acked pkts counts ∧
      ∃ largest ∈ pkts, h.info.largestAcked < largest.pn := by
  cases op with
  | acked pkts counts =>
    rcases validate_cases h.info pkts counts with hsame | ⟨-, hlargest⟩
    · exact .inl (hsame ▸ hcapable)
    · exact .inr ⟨pkts, counts, rfl, hlargest⟩
  | start | ackedEcn =>
    simp only [step, Info.start, Info.ackedEcn] at hcapable
    split at hcapable
    · cases hcapable
    · exact .inl hcapable
  | sent | lostEcn =>
    simp only [step, Info.onPacketSent, Info.lostEcn] at hcapable
    split at hcapable
    · split_ifs at hcapable <;> cases hcapable
    · exact .inl hcapable

lemma Evidence.step (hevidence : h.Evidence) (op : Op) : (h.step op).Evidence := by
  obtain ⟨p, hp, hmarked⟩ := hevidence
  cases op with
  | acked => exact ⟨p, List.mem_append_left _ hp, hmarked⟩
  | start | sent | ackedEcn | lostEcn => exact ⟨p, hp, hmarked⟩

/-- Until there is evidence, all packets are marked and the path is not capable. -/
def EvidenceFirst (h : History) : Prop :=
  h.Evidence ∨ (∀ p ∈ h.sent, p.ecnMarkedEct0 = true) ∧ h.info.state ≠ .capable

lemma EvidenceFirst.step (hinv : h.EvidenceFirst) {op : Op} (hpossible : h.Possible op)
    (hmarks : h.MarksFirst op) : (h.step op).EvidenceFirst := by
  rcases hinv with hevidence | ⟨hsent, hstate⟩
  · exact .inl (hevidence.step op)
  by_cases hevidence : (h.step op).Evidence
  · exact .inl hevidence
  refine .inr ⟨fun p hp => ?_, fun hcapable => hevidence ?_⟩
  · cases op with
    | sent _ pkts =>
      rcases List.mem_append.mp hp with hp | hp
      · exact hsent p hp
      · exact (hmarks p hp).resolve_right fun h => hevidence (h.step _)
    | start | acked | ackedEcn | lostEcn => exact hsent p hp
  · -- The packet that makes the path capable is one of those that were sent.
    obtain ⟨pkts, counts, rfl, largest, hlargest, -⟩ :=
      (capable_of_step hcapable).resolve_left hstate
    exact ⟨largest, List.mem_append_right _ hlargest,
      hsent largest (mem_sent_of_outstanding (hpossible largest hlargest))⟩

/-- Counts that do not increase make the path capable if no packet with a mark is acknowledged. -/
lemma capable_of_unmarked (hstate : h.info.state = .unknown) (hp : h.info.largestAcked < p.pn)
    (hmarked : p.ecnMarkedEct0 = false) :
    (h.step (.acked [p] (some h.info.baseline))).info.state = .capable := by
  simp [step, Info.onPacketsAcked, Info.validateAckEcnAndUpdate, Info.validates, hstate, hp.not_ge,
    hmarked, Count.sub]

/-- **Capable paths have evidence**, if no packet is sent without a mark before one with a mark was
acknowledged. Without evidence and after the test, no acknowledgment makes the path capable without
evidence exactly if the packets that can raise the largest acknowledged number are marked. -/
theorem evidence_of_capable (ops : List Op) (hops : Run.Along step Possible {} ops) :
    (Run.Along step MarksFirst {} ops → (run ops).info.state = .capable → (run ops).Evidence) ∧
      ((run ops).info.state = .unknown → ¬ (run ops).Evidence →
        ((∀ pkts counts, (run ops).Possible (.acked pkts counts) →
            ((run ops).step (.acked pkts counts)).info.state = .capable →
            ((run ops).step (.acked pkts counts)).Evidence) ↔
          ∀ p ∈ (run ops).outstanding, (run ops).info.largestAcked < p.pn →
            p.ecnMarkedEct0 = true)) := by
  refine ⟨fun hmarks hcapable => ?_, fun hstate hnone => ⟨fun hall p hp hpn => ?_, ?_⟩⟩
  · have hinv := @Run.Along.invariant _ _ _ _ EvidenceFirst
      (fun _ _ h hallowed => h.step hallowed.1 hallowed.2) {} _ (.inr ⟨nofun, nofun⟩)
      (hops.and hmarks)
    exact hinv.resolve_right fun hinv => hinv.2 hcapable
  · by_contra hmarked
    rw [Bool.not_eq_true] at hmarked
    obtain ⟨q, hq, hqmarked⟩ := hall [p] _ (List.forall_mem_singleton.mpr hp)
      (capable_of_unmarked hstate hpn hmarked)
    rcases List.mem_append.mp hq with hq | hq
    · exact hnone ⟨q, hq, hqmarked⟩
    · rw [List.mem_singleton.mp hq, hmarked] at hqmarked
      cases hqmarked
  · intro hall pkts counts hpossible hcapable
    obtain ⟨_, _, hop, largest, hlargest, hpn⟩ :=
      (capable_of_step hcapable).resolve_left fun h => nomatch hstate.symm.trans h
    cases hop
    exact ⟨largest, List.mem_append_right _ hlargest, hall _ (hpossible _ hlargest) hpn⟩

/-- Ten packets are sent, and the second is acknowledged with its mark. -/
theorem evidence_of_capable_of_ten :
    (run [.start, .sent 10 ((List.range 10).map (packetOf · true)),
      .acked [packetOf 1 true] (some { ect0 := 1 })]).Evidence :=
  (evidence_of_capable _ (by decide)).1 (by decide) (by decide)

/-- All marked packets are lost; the path is capable when a packet without a mark is acknowledged
with counts of zero. -/
theorem capable_without_evidence :
    let ops := [.start, .sent 10 ((List.range 10).map (packetOf · true)), .lostEcn,
      .sent 1 [packetOf 10 false], .acked [packetOf 10 false] (some {})]
    Run.Along step Possible {} ops ∧ (run ops).info.state = .capable ∧ ¬ (run ops).Evidence := by
  decide

/-! ### Bleaching -/

/-- Without counts, bleaching is concluded for whatever raises the largest acknowledged number. -/
lemma bleaching_of_above (hvalidates : h.info.validates = true) (hp : h.info.largestAcked < p.pn) :
    (h.step (.acked [p] none)).info.state = .failed .bleaching := by
  simp [step, Info.onPacketsAcked, Info.validateAckEcnAndUpdate, hvalidates, hp.not_ge,
    Info.disableEcn]

/-- An acknowledgment without counts is not taken for bleaching unless it acknowledges a packet with
a mark. -/
def BleachesMarked (h : History) : Prop :=
  ∀ pkts, h.Possible (.acked pkts none) → h.info.state ≠ .failed .bleaching →
    (h.step (.acked pkts none)).info.state = .failed .bleaching →
    ∃ p ∈ pkts, p.ecnMarkedEct0 = true

/-- This is so exactly if the packets that can raise the largest acknowledged number are marked,
while counts are validated. -/
lemma bleachesMarked_iff : h.BleachesMarked ↔ (h.info.validates = true →
    ∀ p ∈ h.outstanding, h.info.largestAcked < p.pn → p.ecnMarkedEct0 = true) := by
  refine ⟨fun hall hvalidates p hp hpn => ?_, fun hall pkts hpossible hbefore hafter => ?_⟩
  · have hbefore : h.info.state ≠ .failed .bleaching := fun h => by
      simp [Info.validates, h] at hvalidates
    obtain ⟨q, hq, hmarked⟩ := hall [p] (List.forall_mem_singleton.mpr hp) hbefore
      (bleaching_of_above hvalidates hpn)
    exact List.mem_singleton.mp hq ▸ hmarked
  · rcases validate_cases h.info pkts none with hsame | ⟨hvalidates, largest, hlargest, hpn⟩
    · exact absurd (hsame ▸ hafter) hbefore
    · exact ⟨largest, hlargest, hall hvalidates largest (hpossible _ hlargest) hpn⟩

lemma mem_sends_of_sent {ops : List Op} (hp : p ∈ (ops.foldl step h).sent) :
    p ∈ h.sent ∨ ∃ op ∈ ops, p ∈ op.sends := by
  induction ops generalizing h with
  | nil => exact .inl hp
  | cons op ops ih =>
    rcases ih hp with hp | ⟨op', hop', hp⟩
    · cases op with
      | sent => exact (List.mem_append.mp hp).imp_right fun hp => ⟨_, .head _, hp⟩
      | start | acked | ackedEcn | lostEcn => exact .inl hp
    · exact .inr ⟨op', .tail _ hop', hp⟩

/-- **Bleaching is concluded for marked packets**, if no packet is sent without a mark. In each
state, the next acknowledgment is treated so exactly if the packets that can raise the largest
acknowledged number are marked, while counts are validated. -/
theorem bleaches_marked (ops : List Op) :
    ((∀ op ∈ ops, ∀ p ∈ op.sends, p.ecnMarkedEct0 = true) → (run ops).BleachesMarked) ∧
      ((run ops).BleachesMarked ↔ ((run ops).info.validates = true → ∀ p ∈ (run ops).outstanding,
        (run ops).info.largestAcked < p.pn → p.ecnMarkedEct0 = true)) := by
  refine ⟨fun hmarked => bleachesMarked_iff.mpr fun _ p hp _ => ?_, bleachesMarked_iff⟩
  obtain ⟨op, hop, hsends⟩ := (mem_sends_of_sent (mem_sent_of_outstanding hp)).resolve_left nofun
  exact hmarked op hop p hsends

/-- A marked packet is acknowledged without counts. -/
theorem bleaches_marked_of_ten :
    let h := run [.start, .sent 10 ((List.range 10).map (packetOf · true))]
    (h.step (.acked [packetOf 1 true] none)).info.state = .failed .bleaching ∧
      ∃ p ∈ [packetOf 1 true], p.ecnMarkedEct0 = true :=
  ⟨by decide, (bleaches_marked [.start, .sent 10 ((List.range 10).map (packetOf · true))]).1
    (by decide) _ (by decide) (by decide) (by decide)⟩

/-- A packet that was sent without a mark after the test phase is acknowledged without counts. -/
theorem bleaching_of_unmarked :
    let ops := [.start, .sent 10 ((List.range 10).map (packetOf · true)),
      .sent 1 [packetOf 10 false]]
    let h := run ops
    Run.Along step Possible {} (ops ++ [.acked [packetOf 10 false] none]) ∧
      h.info.state ≠ .failed .bleaching ∧ (packetOf 10 false).ecnMarkedEct0 = false ∧
      (h.step (.acked [packetOf 10 false] none)).info.state = .failed .bleaching := by
  decide

end History

end Neqo.Ecn
