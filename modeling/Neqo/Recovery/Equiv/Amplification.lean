import Neqo.Cc.Equiv.Window
import Neqo.Recovery.Loss

/-!
# Anti-amplification

As long as the address of the peer is not validated, three times as many bytes can be sent on a path
as were received on it. The amplification limit is part of the send budget, from which most send
profiles take their limit. It does not bind those that are not taken from the send budget: the
profiles for ACK-only packets have a limit of at least `ackOnlySizeLimit - 1`, and those for a PTO
and for entering recovery have the MTU as their limit.

`Unvalidated` are the runs of a path that is not validated, with a `Tally` of the datagrams to which
the limit does not apply. `Bounded` says what each of them adds to the bytes sent and how many of
them there can be: a PTO supplies `maxPtoPacketCount` packets, and there is one datagram each time
that recovery is entered. It is kept by each datagram (`Bounded.send`) and by everything else that
can happen (`Bounded.step`), so it holds of whole runs (`Unvalidated.sentBytes_le`).
-/

namespace Neqo

open Bool Loss Recovery

variable {S T : Type}

namespace Path

/-- What the amplification limit depends on stays the same. -/
structure SameTraffic (p p' : Path S T) : Prop where
  receivedBytes : p'.receivedBytes = p.receivedBytes
  sentBytes : p'.sentBytes = p.sentBytes
  validated : p'.validated = p.validated

variable (p : Path S T)

lemma SameTraffic.refl : SameTraffic p p := ⟨rfl, rfl, rfl⟩

lemma SameTraffic.trans {p p' p'' : Path S T} (h : SameTraffic p p') (h' : SameTraffic p' p'') :
    SameTraffic p p'' :=
  ⟨h'.receivedBytes.trans h.receivedBytes, h'.sentBytes.trans h.sentBytes,
    h'.validated.trans h.validated⟩

/-- Sending within the amplification limit does not exceed three times what was received, or five
times the MTU if that is nothing. -/
lemma sentBytes_addSent_le (hvalid : p.isValid = false) {len : ℕ}
    (hlen : len ≤ p.amplificationLimit) :
    (p.addSent len).sentBytes ≤
      max p.sentBytes (if p.receivedBytes = 0 then 5 * p.plpmtu else 3 * p.receivedBytes) := by
  unfold amplificationLimit at hlen
  simp only [hvalid, false_eq_true, if_false] at hlen
  dsimp only [addSent]
  split_ifs at hlen ⊢ <;> omega

lemma discardPackets_traffic (dropped : List Sent.Packet) (now : ℕ) :
    SameTraffic p (discardPackets p dropped now) := by
  induction dropped generalizing p with
  | nil => exact .refl p
  | cons pkt dropped ih =>
    refine SameTraffic.trans ?_ (ih _)
    unfold discardPacket
    dsimp only
    split_ifs <;> exact ⟨rfl, rfl, rfl⟩

variable [SlowStart S] [WindowAdjustment T]

lemma onPacketsLost_traffic (prevLargestAckedSent : Option ℕ) (confirmed : Bool)
    (lostPackets : List Sent.Packet) (now : ℕ) :
    SameTraffic p (p.onPacketsLost prevLargestAckedSent confirmed lostPackets now) := by
  unfold onPacketsLost
  dsimp only
  split_ifs <;> exact ⟨rfl, rfl, rfl⟩

lemma onPacketsAcked_traffic (ackedPkts : List Sent.Packet) (ackEcn : Option Ecn.Count)
    (now : ℕ) : SameTraffic p (p.onPacketsAcked ackedPkts ackEcn now) := by
  unfold onPacketsAcked
  dsimp only
  split
  · split_ifs <;> exact ⟨rfl, rfl, rfl⟩
  · exact ⟨rfl, rfl, rfl⟩

end Path

namespace Loss

/-! #### The supply of PTO packets -/

variable (l : Loss)

/-- How many packets can still be sent for a PTO. -/
def ptoSupply : ℕ := l.ptoState.elim 0 PtoState.packets

variable (path : Path S T)

lemma ptoSupply_sendProfile (now : ℕ) : (l.sendProfile path now).1.ptoSupply = l.ptoSupply - 1 := by
  have hstate : (l.sendProfile path now).1.ptoState =
      (l.ptoState.map fun pto => pto.sendProfile path.plpmtu).map Prod.fst := by
    unfold sendProfile
    dsimp only
    split
    · rfl
    · split_ifs <;> rfl
  unfold ptoSupply
  rw [hstate]
  cases l.ptoState with
  | none => rfl
  | some pto =>
    dsimp only [Option.map, Option.elim, PtoState.sendProfile]
    split_ifs with hpackets
    · rfl
    · dsimp only
      omega

lemma spaces_sendProfile (now : ℕ) : (l.sendProfile path now).1.spaces = l.spaces := by
  unfold sendProfile
  dsimp only
  split
  · rfl
  · split_ifs <;> rfl

variable (space : PacketNumberSpace)

lemma ptoSupply_firePto (allowProbes : PacketNumberSpaceSet) :
    (l.firePto space allowProbes).ptoSupply = maxPtoPacketCount := by
  unfold firePto
  split <;> rfl

lemma ptoSupply_maybeFirePto_le (now : ℕ) (hasHandshakeKeys : Bool) :
    (l.maybeFirePto path now hasHandshakeKeys).1.ptoSupply ≤
      max l.ptoSupply maxPtoPacketCount := by
  have hprime : ∀ l : Loss,
      (l.maybePrimeHandshakePto now hasHandshakeKeys).ptoSupply = l.ptoSupply := by
    intro l
    unfold maybePrimeHandshakePto
    split_ifs
    · rfl
    · rfl
    · rfl
    · split
      · rfl
      · split_ifs <;> rfl
  unfold maybeFirePto
  dsimp only
  split
  · exact le_max_left _ _
  · dsimp only
    split_ifs <;> simp only [hprime, ptoSupply_firePto] <;> omega

lemma ptoSupply_discard_le (now : ℕ) :
    (l.discard path space now).1.ptoSupply ≤ max l.ptoSupply maxPtoPacketCount := by
  unfold discard
  split
  · exact le_max_left _ _
  · exact le_max_left _ _
  · dsimp only [confirm]
    split_ifs
    · rw [ptoSupply_firePto]
      omega
    · exact Nat.zero_le _
    · exact Nat.zero_le _

variable [SlowStart S]

lemma ptoSupply_onPacketSent (pkt : Sent.Packet) :
    (l.onPacketSent path pkt).1.ptoSupply = l.ptoSupply := by
  have hsent : ∀ pto : PtoState, (pto.ptoSent pkt.space).packets = pto.packets := by
    intro pto
    unfold PtoState.ptoSent
    split_ifs <;> rfl
  unfold onPacketSent ptoSupply
  dsimp only
  split <;> cases l.ptoState <;> simp [setSpace, hsent]

lemma onPacketSent_traffic (pkt : Sent.Packet) : path.SameTraffic (l.onPacketSent path pkt).2 := by
  unfold onPacketSent
  dsimp only
  split <;> exact ⟨rfl, rfl, rfl⟩

lemma recoveryPacket_onPacketSent (pkt : Sent.Packet) (hspace : (l.spaces.get pkt.space).isSome) :
    (l.onPacketSent path pkt).2.sender.recoveryPacket = false := by
  obtain ⟨s, hs⟩ := Option.isSome_iff_exists.mp hspace
  have hcc : ∀ (cc : ClassicCongestionController S T) (pkt : Sent.Packet),
      (cc.onPacketSent pkt).recoveryPacket = false := by
    intro cc pkt
    unfold ClassicCongestionController.recoveryPacket
    rw [(cc.onPacketSent_current pkt).2.2]
    cases hphase : cc.current.phase <;> simp [Cc.Phase.transient, Cc.Phase.update, hphase]
  unfold onPacketSent
  dsimp only
  rw [hs]
  exact hcc _ _

variable [WindowAdjustment T]

lemma timeoutSpace_traffic
    (lossDelay now : ℕ) : Path.SameTraffic path (l.timeoutSpace path space lossDelay now).2.1 := by
  unfold timeoutSpace
  split
  · exact .refl path
  · exact path.onPacketsLost_traffic _ _ _ _

lemma onAckReceived_traffic
    (ackedRanges : List (ℕ × ℕ)) (ackEcn : Option Ecn.Count) (ackDelay now : ℕ) :
    Path.SameTraffic path (l.onAckReceived path space ackedRanges ackEcn ackDelay now).2.1 := by
  unfold onAckReceived
  split
  · exact .refl path
  · dsimp only
    split
    · exact .refl path
    · refine Path.SameTraffic.trans ?_ (Path.onPacketsAcked_traffic _ _ _ _)
      refine Path.SameTraffic.trans ?_ (Path.onPacketsLost_traffic _ _ _ _ _)
      exact ⟨rfl, rfl, rfl⟩

lemma ptoSupply_timeoutSpace
    (lossDelay now : ℕ) : (l.timeoutSpace path space lossDelay now).1.ptoSupply = l.ptoSupply := by
  unfold timeoutSpace
  split <;> rfl

end Loss

namespace Recovery

/-- Whether an operation neither sends a datagram nor validates the path. -/
def Op.quiet : Op → Bool
  | .datagramSent _ => false
  | .setValid _ => false
  | _ => true

namespace Endpoint

variable (e : Endpoint S T)

/-- How many packets can still be sent for a PTO. -/
abbrev ptoSupply : ℕ := e.loss.ptoSupply

/-- Whether recovery was entered and nothing has been sent since. -/
abbrev recoveryPacket : Bool := e.path.sender.recoveryPacket

/-- Whether the next send profile is for entering recovery. -/
def entering : Bool :=
  e.ptoSupply = 0 && e.path.sendBudget ≤ e.path.plpmtu && e.recoveryPacket

/-- What a path may have sent without having received as much. -/
def allowance (mtu : ℕ) : ℕ :=
  if e.path.receivedBytes = 0 then max e.path.sentBytes (5 * mtu) else e.path.sentBytes

/-! #### The limits of send profiles -/

lemma limit_newLimited_le {limit mtu : ℕ} (h : (SendProfile.newLimited limit mtu).ackOnly = false) :
    (SendProfile.newLimited limit mtu).limit ≤ limit := by
  have hlarge : ¬ max (ackOnlySizeLimit - 1) limit < ackOnlySizeLimit := of_decide_eq_false h
  show max (ackOnlySizeLimit - 1) limit ≤ limit
  omega

lemma limit_sendProfile_of_pto (now : ℕ) (hpto : 0 < e.ptoSupply) :
    (e.loss.sendProfile e.path now).2.limit = e.path.plpmtu := by
  unfold ptoSupply Loss.ptoSupply at hpto
  cases hstate : e.loss.ptoState with
  | none => simp [hstate] at hpto
  | some pto =>
    have hpackets : pto.packets > 0 := by simpa [hstate] using hpto
    simp [sendProfile, hstate, PtoState.sendProfile, hpackets, SendProfile.newPto]

lemma sendProfile_of_no_pto (now : ℕ) (hpto : e.ptoSupply = 0) :
    (e.loss.sendProfile e.path now).2 =
      if e.path.sendBudget > e.path.plpmtu then
        if (e.path.sender.nextPaced e.path.rtt.estimate).any fun t => t > now then .newPaced
        else .newLimited e.path.plpmtu e.path.plpmtu
      else if e.recoveryPacket then .newPto e.path.plpmtu .all
      else .newLimited e.path.sendBudget e.path.plpmtu := by
  have hnoPto : ((e.loss.ptoState.map fun pto => pto.sendProfile e.path.plpmtu).bind Prod.snd)
      = none := by
    unfold ptoSupply Loss.ptoSupply at hpto
    cases hstate : e.loss.ptoState with
    | none => rfl
    | some pto =>
      have hzero : ¬ pto.packets > 0 := by simpa [hstate] using hpto
      simp [PtoState.sendProfile, hzero]
  unfold sendProfile
  dsimp only
  rw [hnoPto]
  split_ifs <;> rfl

lemma limit_sendProfile_of_entering (now : ℕ) (hentering : e.entering = true) :
    (e.loss.sendProfile e.path now).2.limit = e.path.plpmtu := by
  simp only [entering, and_eq_true, decide_eq_true_eq] at hentering
  obtain ⟨⟨hpto, hbudget⟩, hrecovery⟩ := hentering
  rw [e.sendProfile_of_no_pto now hpto, if_neg (by omega), if_pos hrecovery]
  rfl

/-- The amplification limit holds for all other packets but ACK-only ones. -/
lemma limit_sendProfile_le (now : ℕ) (hpto : e.ptoSupply = 0) (hentering : e.entering = false)
    (hackOnly : (e.loss.sendProfile e.path now).2.ackOnly = false) :
    (e.loss.sendProfile e.path now).2.limit ≤ e.path.amplificationLimit := by
  have hbudget : e.path.sendBudget ≤ e.path.amplificationLimit := min_le_right _ _
  rw [e.sendProfile_of_no_pto now hpto] at hackOnly ⊢
  split_ifs at hackOnly ⊢ with hmtu hpaced hrecovery
  · cases hackOnly
  · exact (limit_newLimited_le hackOnly).trans (by omega)
  · simp [entering, hpto, not_lt.mp hmtu, hrecovery] at hentering
  · exact (limit_newLimited_le hackOnly).trans hbudget

/-- A datagram is within the amplification limit or it is counted. -/
lemma sentBytes_addSent_le {mtu now len : ℕ} (hvalid : e.path.isValid = false)
    (hmtu : e.path.plpmtu ≤ mtu) (hlen : len ≤ (e.loss.sendProfile e.path now).2.limit) :
    (e.path.addSent len).sentBytes ≤ max e.path.sentBytes
        (if e.path.receivedBytes = 0 then 5 * mtu else 3 * e.path.receivedBytes) ∨
      len ≤ (ackOnlySizeLimit - 1) * (e.loss.sendProfile e.path now).2.ackOnly.toNat +
        mtu * ((decide (0 < e.ptoSupply)).toNat + e.entering.toNat) := by
  by_cases hpto : 0 < e.ptoSupply
  · right
    rw [e.limit_sendProfile_of_pto now hpto] at hlen
    rw [decide_eq_true hpto, toNat_true, mul_add, mul_one]
    omega
  cases hentering : e.entering with
  | true =>
    right
    rw [e.limit_sendProfile_of_entering now hentering] at hlen
    rw [toNat_true, mul_add, mul_one]
    omega
  | false =>
    cases hackOnly : (e.loss.sendProfile e.path now).2.ackOnly with
    | true =>
      right
      have hlimit := Nat.le_sub_one_of_lt (of_decide_eq_true hackOnly)
      rw [toNat_true, mul_one]
      omega
    | false =>
      left
      have hlimit := e.limit_sendProfile_le now (by omega) hentering hackOnly
      have hle := e.path.sentBytes_addSent_le hvalid (hlen.trans hlimit)
      split_ifs at hle ⊢ <;> omega

end Endpoint

/-! #### Runs -/

/-- The datagrams to which the amplification limit does not apply, and what allows them. -/
structure Tally where
  /-- The ACK-only datagrams. -/
  acks : ℕ := 0
  /-- The datagrams for a PTO. -/
  probes : ℕ := 0
  /-- The datagrams for entering recovery. -/
  recovery : ℕ := 0
  /-- How often a PTO fired and there were more packets to be sent for it than before. -/
  ptos : ℕ := 0
  /-- How often recovery was entered. -/
  entered : ℕ := 0

/-- Count a datagram for which a send profile was taken. -/
def Tally.send (t : Tally) (e : Endpoint S T) (now : ℕ) : Tally :=
  { t with
    acks := t.acks + (e.loss.sendProfile e.path now).2.ackOnly.toNat
    probes := t.probes + (decide (0 < e.ptoSupply)).toNat
    recovery := t.recovery + e.entering.toNat }

variable [SlowStart S] [WindowAdjustment T]

/-- Count what an operation allows. -/
def Tally.step (t : Tally) (e : Endpoint S T) (op : Op) : Tally :=
  { t with
    ptos := t.ptos + (decide (e.ptoSupply < (e.step op).ptoSupply)).toNat
    entered := t.entered + (!e.recoveryPacket && (e.step op).recoveryPacket).toNat }

namespace Endpoint

/-- Take a send profile and send a datagram with a packet in it. -/
def send (e : Endpoint S T) (now len : ℕ) (pkt : Sent.Packet) : Endpoint S T :=
  ((e.step (.sendProfile now)).step (.packetSent pkt.pt pkt.pn pkt.timeSent pkt.ackEliciting
    pkt.padded pkt.tokens pkt.len)).step (.datagramSent len)

/-- The bounds on the bytes sent since `e₀` and on the datagrams that exceed the amplification
limit. -/
structure Bounded (mtu : ℕ) (e₀ e : Endpoint S T) (t : Tally) : Prop where
  notValid : e.path.isValid = false
  receivedMax : e.path.receivedBytes ≤ usizeMax
  unreceived : e.path.receivedBytes = 0 → 5 * mtu ≤ e₀.allowance mtu
  sent : e.path.sentBytes ≤ max (e₀.allowance mtu) (3 * e.path.receivedBytes) +
    (ackOnlySizeLimit - 1) * t.acks + mtu * (t.probes + t.recovery)
  probes : t.probes + e.ptoSupply ≤ e₀.ptoSupply + maxPtoPacketCount * t.ptos
  recovery : t.recovery + e.recoveryPacket.toNat ≤ e₀.recoveryPacket.toNat + t.entered

variable {e₀ e : Endpoint S T} {t : Tally} {mtu : ℕ}

lemma Bounded.send (h : Bounded mtu e₀ e t) {now len : ℕ} {pkt : Sent.Packet}
    (hmtu : e.path.plpmtu ≤ mtu) (hlen : len ≤ (e.loss.sendProfile e.path now).2.limit)
    (hspace : (e.loss.spaces.get pkt.space).isSome) :
    Bounded mtu e₀ (e.send now len pkt) (t.send e now) := by
  have hsame : e.path.SameTraffic
      ((e.loss.sendProfile e.path now).1.onPacketSent e.path _).2 :=
    onPacketSent_traffic _ _
      { pt := pkt.pt, pn := pkt.pn, ackEliciting := pkt.ackEliciting, padded := pkt.padded,
        timeSent := pkt.timeSent, tokens := pkt.tokens, len := pkt.len }
  have hreceived : (e.send now len pkt).path.receivedBytes = e.path.receivedBytes :=
    hsame.receivedBytes
  have hsent : (e.send now len pkt).path.sentBytes = (e.path.addSent len).sentBytes :=
    congrArg (fun n => min (n + len) usizeMax) hsame.sentBytes
  have hpackets : (e.send now len pkt).ptoSupply = e.ptoSupply - 1 :=
    (ptoSupply_onPacketSent _ _ _).trans (e.loss.ptoSupply_sendProfile e.path now)
  have hrecovery : (e.send now len pkt).recoveryPacket = false :=
    recoveryPacket_onPacketSent _ _ _ ((e.loss.spaces_sendProfile e.path now).symm ▸ hspace)
  refine ⟨?_, hreceived ▸ h.receivedMax, hreceived ▸ h.unreceived, ?_, ?_, ?_⟩
  · exact (congrArg Option.isSome hsame.validated).trans h.notValid
  · have hadd : (e.path.addSent len).sentBytes ≤ e.path.sentBytes + len := min_le_left _ _
    have hbound := h.sent
    have hunreceived := h.unreceived
    rw [hsent, hreceived]
    dsimp only [Tally.send]
    simp only [mul_add] at hbound ⊢
    rcases e.sentBytes_addSent_le h.notValid hmtu hlen with hle | hle
    · split_ifs at hle <;> omega
    · rw [mul_add] at hle
      omega
  · have hprobes := h.probes
    rw [hpackets]
    dsimp only [Tally.send]
    by_cases hpto : 0 < e.ptoSupply
    · rw [decide_eq_true hpto, toNat_true]
      omega
    · rw [decide_eq_false hpto, toNat_false]
      omega
  · have hbound := h.recovery
    rw [hrecovery]
    dsimp only [Tally.send]
    cases hentering : e.entering with
    | false =>
      rw [toNat_false]
      omega
    | true =>
      have hpending : e.recoveryPacket = true := (and_eq_true_iff.mp hentering).2
      rw [hpending] at hbound
      exact hbound

lemma ptoSupply_step_le (e : Endpoint S T) (op : Op) :
    (e.step op).ptoSupply ≤ max e.ptoSupply maxPtoPacketCount := by
  cases op with
  | packetSent => exact (ptoSupply_onPacketSent _ _ _).le.trans (le_max_left _ _)
  | sendProfile now =>
    rw [ptoSupply, Endpoint.step, e.loss.ptoSupply_sendProfile e.path now]
    exact (Nat.sub_le _ _).trans (le_max_left _ _)
  | ackReceived =>
    dsimp only [Endpoint.step]
    unfold onAckReceived
    split
    · exact le_max_left _ _
    · dsimp only
      split
      · exact le_max_left _ _
      · exact Nat.zero_le _
  | timeout now _ =>
    refine (ptoSupply_maybeFirePto_le _ _ now _).trans (max_le_max_right _ (le_of_eq ?_))
    exact ((ptoSupply_timeoutSpace _ _ .applicationData _ now).trans
      (ptoSupply_timeoutSpace _ _ .handshake _ now)).trans
      (e.loss.ptoSupply_timeoutSpace e.path .initial _ now)
  | drop0rtt now =>
    dsimp only [Endpoint.step]
    unfold drop0rtt
    split
    · exact le_max_left _ _
    · split_ifs <;> exact le_max_left _ _
  | retry => exact Nat.zero_le _
  | discard space now => exact e.loss.ptoSupply_discard_le e.path space now
  | datagramReceived | datagramSent | setValid | startPmtud | firePmtuRaiseTimer | sendPmtudProbe |
    startEcn | setAckDelay => exact le_max_left _ _

lemma step_traffic (e : Endpoint S T) {op : Op} (hop : op.quiet = true)
    (hreceived : ∀ count, op ≠ .datagramReceived count) : e.path.SameTraffic (e.step op).path := by
  cases op with
  | datagramSent | setValid => cases hop
  | datagramReceived count => exact absurd rfl (hreceived count)
  | packetSent => exact onPacketSent_traffic _ _ _
  | ackReceived space ackedRanges ackEcn ackDelay now =>
    exact e.loss.onAckReceived_traffic e.path space ackedRanges ackEcn ackDelay now
  | timeout now =>
    exact ((e.loss.timeoutSpace_traffic e.path .initial _ now).trans
      (timeoutSpace_traffic _ _ .handshake _ now)).trans
      (timeoutSpace_traffic _ _ .applicationData _ now)
  | drop0rtt now =>
    dsimp only [Endpoint.step]
    unfold drop0rtt
    split
    · exact .refl _
    · split_ifs
      · exact .refl _
      · exact e.path.discardPackets_traffic _ now
  | retry now => exact e.path.discardPackets_traffic _ now
  | discard space now =>
    dsimp only [Endpoint.step]
    unfold Loss.discard
    split
    · exact .refl _
    · exact .refl _
    · exact e.path.discardPackets_traffic _ now
  | sendProfile | startPmtud | firePmtuRaiseTimer | sendPmtudProbe | startEcn | setAckDelay =>
    exact ⟨rfl, rfl, rfl⟩

lemma step_quiet (e : Endpoint S T) {op : Op} (hop : op.quiet = true)
    (hmax : e.path.receivedBytes ≤ usizeMax) :
    (e.step op).path.validated = e.path.validated ∧
      (e.step op).path.sentBytes = e.path.sentBytes ∧
      e.path.receivedBytes ≤ (e.step op).path.receivedBytes ∧
      (e.step op).path.receivedBytes ≤ usizeMax := by
  by_cases hreceived : ∀ count, op ≠ .datagramReceived count
  · have hsame := e.step_traffic hop hreceived
    exact ⟨hsame.validated, hsame.sentBytes, hsame.receivedBytes.ge, hsame.receivedBytes ▸ hmax⟩
  · push Not at hreceived
    obtain ⟨count, rfl⟩ := hreceived
    refine ⟨rfl, rfl, ?_, min_le_right _ _⟩
    exact Nat.le_min.mpr ⟨Nat.le_add_right _ _, hmax⟩

lemma Bounded.step (h : Bounded mtu e₀ e t) {op : Op} (hop : op.quiet = true) :
    Bounded mtu e₀ (e.step op) (t.step e op) := by
  obtain ⟨hvalidated, hsent, hle, hmax⟩ := e.step_quiet hop h.receivedMax
  refine ⟨(congrArg Option.isSome hvalidated).trans h.notValid, hmax, ?_, ?_, ?_, ?_⟩
  · intro hzero
    exact h.unreceived (by omega)
  · have hbound := h.sent
    rw [hsent]
    dsimp only [Tally.step]
    omega
  · have hbound := h.probes
    have hpackets := e.ptoSupply_step_le op
    dsimp only [Tally.step]
    by_cases hfired : e.ptoSupply < (e.step op).ptoSupply
    · rw [decide_eq_true hfired, Bool.toNat_true, Nat.mul_succ]
      omega
    · rw [decide_eq_false hfired, Bool.toNat_false, add_zero]
      omega
  · have hbound := h.recovery
    dsimp only [Tally.step]
    cases hbefore : e.recoveryPacket <;> cases hafter : (e.step op).recoveryPacket <;>
      rw [hbefore] at hbound <;>
      simp only [Bool.toNat_false, Bool.toNat_true, Bool.not_false, Bool.not_true, Bool.and_true,
        Bool.and_false] at hbound ⊢ <;>
      omega

end Endpoint

end Recovery

end Neqo
