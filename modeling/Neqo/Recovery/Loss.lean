import Neqo.Path.Basic

/-!
# Loss recovery

`Loss` tracks the packets of all packet number spaces, detects their loss, runs the PTO timer and
decides how packets are to be sent. The primary path is passed to each operation and returned from
it.
-/

namespace Neqo

open PacketNumberSpace PacketNumberSpaceSet

open Sent (Packet)

namespace Recovery

/-- If the congestion window is smaller than this, we will only send ACK frames. -/
def ackOnlySizeLimit : ℕ := 256

/-- The maximum number of packets we send on a PTO. -/
def maxPtoPacketCount : ℕ := 2

/-- The scale we use for the fast PTO feature. -/
def fastPtoScale : ℕ := 100

end Recovery

open Recovery

/-! ### Send profiles -/

/-- `SendProfile` tells a sender how to send packets. -/
structure SendProfile where
  /-- The limit on the size of the packet. -/
  limit : ℕ
  /-- What spaces should be probed. -/
  probe : PacketNumberSpaceSet
  /-- Whether pacing is active. -/
  paced : Bool
  /-- Whether the limit is the full path MTU. -/
  fullMtu : Bool
  deriving DecidableEq, Repr

namespace SendProfile

def newLimited (limit mtu : ℕ) : SendProfile :=
  -- When the limit is too low, we only send ACK frames. These are still limited in size.
  { limit := max (ackOnlySizeLimit - 1) limit, probe := .empty, paced := false,
    fullMtu := limit ≥ mtu }

def newPaced : SendProfile :=
  -- When pacing, we still allow ACK frames to be sent.
  { limit := ackOnlySizeLimit - 1, probe := .empty, paced := true, fullMtu := false }

def newPto (mtu : ℕ) (probe : PacketNumberSpaceSet) : SendProfile :=
  { limit := mtu, probe := probe, paced := false, fullMtu := true }

/-- Whether an ACK-only packet should be sent. -/
def ackOnly (p : SendProfile) : Bool := p.limit < ackOnlySizeLimit

end SendProfile

/-! ### PTO -/

/-- A probe timeout that has fired. -/
structure PtoState where
  /-- The packet number space that caused the PTO to fire. -/
  space : PacketNumberSpace
  /-- The number of probes that we have sent. -/
  count : ℕ
  packets : ℕ
  /-- The complete set of packet number spaces that can have probes sent. -/
  probe : PacketNumberSpaceSet
  deriving DecidableEq, Repr

namespace PtoState

def new (space : PacketNumberSpace) (probe : PacketNumberSpaceSet) : PtoState :=
  { space := space, count := 1, packets := maxPtoPacketCount, probe := probe }

def pto (s : PtoState) (space : PacketNumberSpace) (probe : PacketNumberSpaceSet) : PtoState :=
  { space := .min space s.space
    count := s.count + 1
    packets := maxPtoPacketCount
    probe := .union s.probe probe }

/-- Generate a sending profile. This takes a packet from the supply if one remains. -/
def sendProfile (s : PtoState) (mtu : ℕ) : PtoState × Option SendProfile :=
  if s.packets > 0 then
    -- This is a PTO, so ignore the limit.
    ({ s with packets := s.packets - 1 }, some (.newPto mtu s.probe))
  else (s, none)

def ptoSent (s : PtoState) (space : PacketNumberSpace) : PtoState :=
  -- For Initial and Handshake packets, don't force probes after the first packet.
  if s.packets < maxPtoPacketCount ∧ space ≠ .applicationData then
    { s with probe := .remove s.probe space }
  else s

end PtoState

/-! ### Loss recovery -/

/-- Loss recovery in all packet number spaces. -/
structure Loss where
  /-- When the handshake was confirmed, if it has been. -/
  confirmedTime : Option ℕ := none
  ptoState : Option PtoState := none
  spaces : SpaceMap (Option LossRecoverySpace) :=
    ⟨some (.new .initial), some (.new .handshake), some (.new .applicationData)⟩
  /-- The factor by which the PTO period is reduced. -/
  fastPto : ℕ
  deriving DecidableEq, Repr

namespace Loss

def new (fastPto : ℕ) : Loss := { fastPto := fastPto }

variable (l : Loss)

def setSpace (space : PacketNumberSpace) (s : LossRecoverySpace) : Loss :=
  { l with spaces := l.spaces.set space (some s) }

def confirmed : Bool := l.confirmedTime.isSome

/-! #### Timers -/

variable (rtt : RttEstimate)

/-- The PTO period: `base_pto * F * 2^pto_count` where `F = fast_pto / FAST_PTO_SCALE`. -/
def ptoPeriodInner (ptoState : Option PtoState) (confirmed : Bool) (fastPto : ℕ) : ℕ :=
  let ptoCount := ptoState.elim 0 fun p => if p.count < 2 ^ 32 then p.count else 0
  let period := rtt.pto confirmed * (fastPto <<< min ptoCount (32 - 8))
  -- A duration has 64 bits for the seconds.
  if period / second ≥ 2 ^ 64 then 3600 * second else period / fastPtoScale

/-- The current PTO period, which includes exponential backoff. -/
def ptoPeriod : ℕ :=
  ptoPeriodInner rtt l.ptoState l.confirmed l.fastPto

/-- The PTO time for the given space. -/
def ptoTime (space : PacketNumberSpace) : Option ℕ :=
  (l.spaces.get space).bind fun s => s.ptoBaseTime.map fun t => t + l.ptoPeriod rtt

/-- Record an RTT sample. -/
def rttSample (sendTime now ackDelay : ℕ) : RttEstimate :=
  let source := if l.confirmedTime.any fun t => t < sendTime then .ackConfirmed else .ack
  if sendTime ≤ now then rtt.update (now - sendTime) ackDelay source now else rtt

def firePto (space : PacketNumberSpace) (allowProbes : PacketNumberSpaceSet) : Loss :=
  match l.ptoState with
  | some st => { l with ptoState := some (st.pto space allowProbes) }
  | none => { l with ptoState := some (.new space allowProbes) }

/-- Prime the Handshake space PTO timer when stuck in Initial space. -/
def maybePrimeHandshakePto (now : ℕ) (hasHandshakeKeys : Bool) : Loss :=
  -- Only prime if we actually have Handshake TX keys to send probes.
  if !hasHandshakeKeys then l
  else if !l.ptoState.any fun pto => pto.space = .initial then l
  -- Only prime if we've received Initial ACKs.
  else if !l.spaces.initial.any fun space => space.largestAcked.isSome then l
  else
    match l.spaces.handshake with
    | none => l
    | some hsSpace =>
      if hsSpace.lastAckEliciting.isNone ∧ hsSpace.largestAcked.isNone then
        l.setSpace .handshake { hsSpace with lastAckEliciting := some now }
      else l

/-- Which spaces a PTO concerns: the first one whose timer has fired, those in which probing is
allowed and those in which packets are marked for retransmission. -/
structure PtoSpaces where
  ptoSpace : Option PacketNumberSpace := none
  allowProbes : PacketNumberSpaceSet := .empty
  retransmit : PacketNumberSpaceSet := .empty

def ptoSpacesStep (now : ℕ) (r : PtoSpaces) (space : PacketNumberSpace) : PtoSpaces :=
  match l.ptoTime rtt space with
  | none => r
  | some t =>
    let r := { r with allowProbes := .insert r.allowProbes space }
    if t > now then r
    else
      let retransmit := insert r.retransmit space
      -- When Handshake PTO fires, also retransmit Initial CRYPTO data.
      let retransmit :=
        if space = .handshake then PacketNumberSpaceSet.insert retransmit .initial else retransmit
      { r with ptoSpace := r.ptoSpace.or (some space), retransmit := retransmit }

def ptoSpaces (now : ℕ) : PtoSpaces :=
  all.foldl (l.ptoSpacesStep rtt now) {}

/-- Mark the packets of the given spaces for retransmission and collect those that fit into
`budget`, of which `size` has been used. -/
def collectPto (budget : ℕ) (retransmit : PacketNumberSpaceSet) :
    List PacketNumberSpace → ℕ → Loss → Loss × List Packet
  | [], _, l => (l, [])
  | space :: rest, size, l =>
    if !contains retransmit space then collectPto budget retransmit rest size l
    else
      match l.spaces.get space with
      | none => collectPto budget retransmit rest size l
      | some s =>
        let (sentPackets, out, size) := LossRecoverySpace.ptoPackets budget size s.sentPackets
        let (l, more) := collectPto budget retransmit rest size
          (l.setSpace space { s with sentPackets := sentPackets })
        (l, out ++ more)

variable {S T : Type} (primaryPath : Path S T)

/-- Check whether the PTO timer has fired and fire it if needed. Returns the packets whose frames
are to be sent again. -/
def maybeFirePto (now : ℕ) (hasHandshakeKeys : Bool) : Loss × List Packet :=
  let r := l.ptoSpaces primaryPath.rtt now
  match r.ptoSpace with
  | none => (l, [])
  | some space =>
    let (l, lost) := collectPto (maxPtoPacketCount * primaryPath.plpmtu) r.retransmit
      all 0 l
    let l := l.firePto space r.allowProbes
    -- Maybe prime the Handshake PTO when PTO fires in Initial space.
    (if space = .initial then l.maybePrimeHandshakePto now hasHandshakeKeys else l, lost)

variable (path : Path S T)

/-- Check how packets should be sent, based on whether there is a PTO, what the current congestion
window is, and what the pacer says. -/
def sendProfile (now : ℕ) : Loss × SendProfile :=
  let mtu := path.plpmtu
  let r := l.ptoState.map fun pto => pto.sendProfile mtu
  let l := { l with ptoState := r.map Prod.fst }
  match r.bind Prod.snd with
  | some profile => (l, profile)
  | none =>
    let limit := path.sendBudget
    if limit > mtu then
      -- More than an MTU available; we might need to pace.
      if (path.sender.nextPaced path.rtt.estimate).any fun t => t > now then (l, .newPaced)
      else (l, .newLimited mtu mtu)
    else if path.sender.recoveryPacket then
      -- After entering recovery, allow a packet to be sent immediately.
      (l, .newPto mtu .all)
    else (l, .newLimited limit mtu)

variable [SlowStart S] [WindowAdjustment T]

/-! #### Packets -/

/-- Tell the path that packets are discarded. -/
def discardPackets (dropped : List Packet) (now : ℕ) : Path S T :=
  dropped.foldl (fun path p => path.discardPacket p now) path

/-- Drop all 0-RTT packets. -/
def drop0rtt (now : ℕ) : Loss × Path S T × List Packet :=
  match l.spaces.applicationData with
  | none => (l, primaryPath, [])
  | some sp =>
    -- If 0-RTT packets were already acknowledged, they are not dropped.
    if sp.largestAcked.isSome then (l, primaryPath, [])
    else
      let (sp, dropped) := sp.removeIgnored
      (l.setSpace .applicationData sp, discardPackets primaryPath dropped now, dropped)

def onPacketSent (sentPacket : Packet) : Loss × Path S T :=
  let space := sentPacket.space
  let l := { l with ptoState := l.ptoState.map fun pto : PtoState => pto.ptoSent space }
  match l.spaces.get space with
  | some s =>
    let (path, sentPacket) := path.packetSent sentPacket
    (l.setSpace space (s.onPacketSent sentPacket), path)
  -- A packet from a dropped space is ignored.
  | none => (l, path)

/-- Note the largest acknowledged packet. Returns the RTT estimate with the sample that it
gives. -/
def noteLargestAcked (s : LossRecoverySpace) (largest : Packet) (anyAckEliciting : Bool)
    (rtt : RttEstimate) (now ackDelay : ℕ) : LossRecoverySpace × RttEstimate :=
  if s.largestAcked.all fun acked => acked < largest.pn then
    let s :=
      { s with largestAcked := some largest.pn, largestAckedSentTime := some largest.timeSent }
    if anyAckEliciting && largest.primaryPath then
      (s, l.rttSample rtt largest.timeSent now ackDelay)
    else (s, rtt)
  else (s, rtt)

/-- Returns acknowledged packets and lost packets. -/
def onAckReceived (space : PacketNumberSpace)
    (ackedRanges : List (ℕ × ℕ)) (ackEcn : Option Ecn.Count) (ackDelay now : ℕ) :
    Loss × Path S T × List Packet × List Packet :=
  match l.spaces.get space with
  | none => (l, primaryPath, [], [])
  | some s =>
    let (s, acked, anyAckEliciting) := s.removeAcked ackedRanges
    match acked.head? with
    -- No new information.
    | none => (l.setSpace space s, primaryPath, [], [])
    | some largest =>
      let prevLargestAcked := s.largestAckedSentTime
      let (s, rtt) :=
        l.noteLargestAcked s largest anyAckEliciting primaryPath.rtt now ackDelay
      let path := { primaryPath with rtt := rtt }
      -- Perform loss detection.
      let cleanupDelay := l.ptoPeriod path.rtt
      let (s, lost) := s.detectLostPackets now path.rtt.lossDelay cleanupDelay
      let path := path.onPacketsLost prevLargestAcked l.confirmed lost now
      -- This must happen after `onPacketsLost`.
      let path := path.onPacketsAcked acked ackEcn now
      ({ l.setSpace space s with ptoState := none }, path, acked, lost)

/-- When receiving a retry, get all the sent packets so that they can be flushed. -/
def retry (now : ℕ) : Loss × Path S T × List Packet :=
  let dropped := all.flatMap fun space =>
    (l.spaces.get space).elim [] fun s => s.removeIgnored.2
  let clear (s : Option LossRecoverySpace) := s.map fun s => s.removeIgnored.1
  let spaces : SpaceMap (Option LossRecoverySpace) :=
    ⟨clear l.spaces.initial, clear l.spaces.handshake, clear l.spaces.applicationData⟩
  ({ l with ptoState := none, spaces := spaces }, discardPackets primaryPath dropped now, dropped)

def confirm (now : ℕ) : Loss :=
  let l := { l with confirmedTime := some now }
  -- Up until now, the application data space has been ignored for PTO.  So maybe fire a PTO.
  if (l.ptoTime rtt .applicationData).any fun pto => pto < now then
    l.firePto .applicationData (insert .empty .applicationData)
  else l

/-- Discard state for a given packet number space. The source panics if it is that of application
data or has been discarded before; then nothing is done here. -/
def discard (space : PacketNumberSpace) (now : ℕ) : Loss × Path S T :=
  match space, l.spaces.get space with
  | .applicationData, _ => (l, primaryPath)
  | _, none => (l, primaryPath)
  | space, some s =>
    let path := discardPackets primaryPath s.sentPackets now
    let l := { l with spaces := l.spaces.set space none, ptoState := none }
    (if space = .handshake then l.confirm path.rtt now else l, path)

/-- Detect lost packets in one space. -/
def timeoutSpace (space : PacketNumberSpace) (lossDelay now : ℕ) : Loss × Path S T × List Packet :=
  match l.spaces.get space with
  | none => (l, path, [])
  | some s =>
    let pto := l.ptoPeriod path.rtt
    let (s, lost) := s.detectLostPackets now lossDelay pto
    (l.setSpace space s, path.onPacketsLost s.largestAckedSentTime l.confirmed lost now, lost)

def timeout (now : ℕ) (hasHandshakeKeys : Bool) : Loss × Path S T × List Packet :=
  let lossDelay := primaryPath.rtt.lossDelay
  let (l, path, lost₁) := l.timeoutSpace primaryPath .initial lossDelay now
  let (l, path, lost₂) := l.timeoutSpace path .handshake lossDelay now
  let (l, path, lost₃) := l.timeoutSpace path .applicationData lossDelay now
  let (l, lost₄) := l.maybeFirePto path now hasHandshakeKeys
  (l, path, lost₁ ++ lost₂ ++ lost₃ ++ lost₄)

end Loss

/-!
## Runs of loss recovery on one path

What can happen to loss recovery and its primary path as long as the connection does not migrate.
-/

namespace Recovery

/-- Loss recovery and its primary path. -/
structure Endpoint (S T : Type) where
  loss : Loss
  path : Path S T

/-- An event of a run. -/
inductive Op where
  /-- A packet is sent. -/
  | packetSent (pt : PacketType) (pn timeSent : ℕ) (ackEliciting padded : Bool)
      (tokens : List Token) (len : ℕ)
  | ackReceived (space : PacketNumberSpace) (ackedRanges : List (ℕ × ℕ))
      (ackEcn : Option Ecn.Count) (ackDelay now : ℕ)
  | timeout (now : ℕ) (hasHandshakeKeys : Bool)
  | drop0rtt (now : ℕ)
  | retry (now : ℕ)
  | discard (space : PacketNumberSpace) (now : ℕ)
  /-- A send profile is taken. -/
  | sendProfile (now : ℕ)
  /-- A datagram is received on the path. -/
  | datagramReceived (count : ℕ)
  /-- A datagram is sent on the path. -/
  | datagramSent (count : ℕ)
  /-- The address of the peer is validated. -/
  | setValid (now : ℕ)
  | startPmtud (now : ℕ)
  | firePmtuRaiseTimer (now : ℕ)
  | sendPmtudProbe
  | startEcn
  | setAckDelay (delay : PeerAckDelay)

namespace Endpoint

variable {S T : Type}

/-- An endpoint whose path has just become the primary path. -/
def new (sender : PacketSender S T) (initialRtt fastPto : ℕ) : Endpoint S T :=
  { loss := .new fastPto, path := (Path.temporary sender initialRtt).setPrimary true }

/-- Change the PMTUD state of the path. -/
def modifyPmtud (e : Endpoint S T) (f : Pmtud → Pmtud) : Endpoint S T :=
  { e with path := { e.path with sender := e.path.sender.setPmtud (f e.path.sender.pmtud) } }

variable [SlowStart S] [WindowAdjustment T]

def step (e : Endpoint S T) : Op → Endpoint S T
  | .packetSent pt pn timeSent ackEliciting padded tokens len =>
    let (loss, path) := e.loss.onPacketSent e.path
      { pt := pt, pn := pn, ackEliciting := ackEliciting, padded := padded, timeSent := timeSent,
        tokens := tokens, len := len }
    { loss := loss, path := path }
  | .ackReceived space ackedRanges ackEcn ackDelay now =>
    let (loss, path, _) := e.loss.onAckReceived e.path space ackedRanges ackEcn ackDelay now
    { loss := loss, path := path }
  | .timeout now hasHandshakeKeys =>
    let (loss, path, _) := e.loss.timeout e.path now hasHandshakeKeys
    { loss := loss, path := path }
  | .drop0rtt now =>
    let (loss, path, _) := e.loss.drop0rtt e.path now
    { loss := loss, path := path }
  | .retry now =>
    let (loss, path, _) := e.loss.retry e.path now
    { loss := loss, path := path }
  | .discard space now =>
    let (loss, path) := e.loss.discard e.path space now
    { loss := loss, path := path }
  | .sendProfile now => { e with loss := (e.loss.sendProfile e.path now).1 }
  | .datagramReceived count => { e with path := e.path.addReceived count }
  | .datagramSent count =>
    let path := e.path.addSent count
    { e with path := { path with ecnInfo := path.ecnInfo.onPacketSent 1 } }
  | .setValid now => { e with path := e.path.setValid now }
  | .startPmtud now => e.modifyPmtud fun m => m.start now
  | .firePmtuRaiseTimer now => e.modifyPmtud fun m => m.maybeFireRaiseTimer now
  | .sendPmtudProbe => e.modifyPmtud fun m => m.sendProbe.1
  | .startEcn => { e with path := { e.path with ecnInfo := e.path.ecnInfo.start } }
  | .setAckDelay delay => { e with path := { e.path with rtt := e.path.rtt.setAckDelay delay } }

/-- The endpoint after a sequence of operations. -/
def run (e : Endpoint S T) (ops : List Op) : Endpoint S T := ops.foldl step e

end Endpoint

end Recovery

end Neqo
