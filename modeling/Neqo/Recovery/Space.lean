import Neqo.Basic
import Neqo.Util.Bisection

/-!
# Sent packets

A collection for sent packets that have not been acknowledged. Times are in nanoseconds.
-/

namespace Neqo

/-- What a packet carried, in order to handle its acknowledgment or loss. Of tokens that are not
for streams, only what loss recovery reads is kept. -/
inductive Token where
  | stream (token : StreamRecoveryToken)
  | ack
  | crypto
  | handshakeDone
  /-- Special `PING`. -/
  | keepAlive
  | newToken
  | newConnectionId
  | retireConnectionId
  | ackFrequency
  | datagram
  /-- A packet marked with ECT(0). -/
  | ecnEct0
  /-- A PMTUD probe packet, carrying the IP MTU it probes for. -/
  | pmtudProbe (mtu : ℕ)
  deriving DecidableEq, Repr

namespace Sent

/-- The reason a packet was declared lost. -/
inductive LossTrigger where
  | timeThreshold
  | reorderingThreshold
  deriving DecidableEq, Repr

/-- Information recorded when a packet is declared lost. -/
structure LossInfo where
  time : ℕ
  trigger : LossTrigger
  deriving DecidableEq, Repr

/-- A packet that was sent. -/
structure Packet where
  pt : PacketType
  pn : ℕ
  ackEliciting : Bool
  padded : Bool := false
  timeSent : ℕ
  primaryPath : Bool := true
  tokens : List Token
  lossInfo : Option LossInfo := none
  /-- After a PTO, this is true when the packet has been released. -/
  ptoFired : Bool := false
  len : ℕ
  deriving DecidableEq, Repr

namespace Packet

variable (p : Packet)

/-- The packet number space of this packet. -/
def space : PacketNumberSpace := .ofType p.pt

/-- The ECN mark of the packet. -/
def ecnMarkedEct0 : Bool := p.tokens.any fun t => t = .ecnEct0

def isPmtudProbe : Bool :=
  p.tokens.any fun t => match t with
    | .pmtudProbe _ => true
    | _ => false

def isPmtudProbeOf (mtu : ℕ) : Bool := p.tokens.any fun t => t = .pmtudProbe mtu

/-- Clears the flag that had this packet on the primary path. -/
def clearPrimaryPath : Packet := { p with primaryPath := false }

/-- Whether the packet has been declared lost. -/
def lost : Bool := p.lossInfo.isSome

/-- Whether the packet should be tracked as in-flight. -/
def ccInFlight : Bool := (p.ackEliciting || p.padded) && p.primaryPath

/-- Whether accounting for the loss or acknowledgement in the congestion controller is pending. -/
def ccOutstanding : Bool := p.ccInFlight && !p.lost

/-- Declare the packet as lost with the given trigger. Returns `true` if this is the first time. -/
def declareLost (now : ℕ) (trigger : LossTrigger) : Packet × Bool :=
  if p.lost then (p, false)
  else ({ p with lossInfo := some { time := now, trigger := trigger } }, true)

/-- Whether the packet has been declared lost for long enough that it is no longer tracked. -/
def expired (now expirationPeriod : ℕ) : Bool :=
  p.lossInfo.any fun info => info.time + expirationPeriod ≤ now

/-- On PTO, we need to get the recovery tokens so that we can ensure that the frames we sent can be
sent again in the PTO packet(s). Do that just once. -/
def pto : Packet × Bool :=
  if p.ptoFired || p.lost then (p, false) else ({ p with ptoFired := true }, true)

end Packet

/-- The packets that we have sent that haven't been acknowledged, in the order of sending. -/
abbrev Packets := List Packet

namespace Packets

open PartitionPoint

def track (ps : Packets) (packet : Packet) : Packets := ps ++ [packet]

/-- Take the packets with numbers from `start` to `last`. They are returned with the most recent
packet first. -/
def takeRange (ps : Packets) (start last : ℕ) : Packets × List Packet :=
  let startIdx := partitionPoint (fun p : Packet => p.pn < start) ps
  let endIdx := partitionPoint (fun p : Packet => p.pn ≤ last) ps
  if endIdx ≤ startIdx then (ps, [])
  else (ps.take startIdx ++ ps.drop endIdx, ((ps.drop startIdx).take (endIdx - startIdx)).reverse)

/-- Take the packets in the given ranges of packet numbers, which descend. -/
def takeRanges : Packets → List (ℕ × ℕ) → Packets × List Packet
  | ps, [] => (ps, [])
  | ps, (start, last) :: ranges =>
    let (ps, taken) := takeRange ps start last
    let (ps, more) := takeRanges ps ranges
    (ps, taken ++ more)

/-- Remove packets that were declared lost a while ago. Returns the number of ack-eliciting packets
removed. -/
def removeExpired (ps : Packets) (now cd : ℕ) : Packets × ℕ :=
  if !(ps.head?.any fun p => p.expired now cd) then (ps, 0)
  else
    let keepFrom := partitionPoint (fun p : Packet => p.expired now cd) ps
    (ps.drop keepFrom, ((ps.take keepFrom).filter Packet.ackEliciting).length)

end Packets

end Sent

/-! ## Loss recovery in one packet number space -/

open Sent (Packet Packets LossTrigger)

/-- Loss recovery in one packet number space. -/
structure LossRecoverySpace where
  space : PacketNumberSpace
  largestAcked : Option ℕ := none
  largestAckedSentTime : Option ℕ := none
  /-- The time used to calculate the PTO timer for this space. -/
  lastAckEliciting : Option ℕ := none
  /-- The number of outstanding packets in this space that are in flight. -/
  inFlightOutstanding : ℕ := 0
  /-- The packets that we have sent and are tracking. -/
  sentPackets : Packets := []
  /-- The time that the first out-of-order packet was sent. -/
  firstOooTime : Option ℕ := none
  deriving DecidableEq, Repr

namespace LossRecoverySpace

/-- Packets this far below the largest acknowledged one are lost. -/
def packetThreshold : ℕ := 3

def new (space : PacketNumberSpace) : LossRecoverySpace := { space := space }

/-- Mark packets for retransmission and return those that fit into `budget`, of which `size` has
been used. The packet that exceeds it ends the iteration after it has been marked. -/
def ptoPackets (budget : ℕ) : ℕ → Packets → Packets × List Packet × ℕ
  | size, [] => ([], [], size)
  | size, p :: ps =>
    let (p, fired) := p.pto
    if !fired then
      let (ps, out, size) := ptoPackets budget size ps
      (p :: ps, out, size)
    else
      let size := size + p.len
      if size ≤ budget then
        let (ps, out, size) := ptoPackets budget size ps
        (p :: ps, p :: out, size)
      else (p :: ps, [], size)

variable (s : LossRecoverySpace)

def ptoBaseTime : Option ℕ :=
  if s.inFlightOutstanding > 0 then s.lastAckEliciting
  else if s.space = .applicationData then none
  -- A client needs to keep the PTO timer armed to prevent a stall of the handshake.
  else s.lastAckEliciting

def onPacketSent (sentPacket : Packet) : LossRecoverySpace :=
  let s :=
    if sentPacket.ackEliciting then
      { s with
        lastAckEliciting := some sentPacket.timeSent
        inFlightOutstanding := s.inFlightOutstanding + 1 }
    else if s.space ≠ .applicationData ∧ s.lastAckEliciting.isNone then
      -- Make sure that we have a PTO baseline always.
      { s with lastAckEliciting := some sentPacket.timeSent }
    else s
  { s with sentPackets := s.sentPackets.track sentPacket }

def removeOutstanding (count : ℕ) : LossRecoverySpace :=
  { s with inFlightOutstanding := s.inFlightOutstanding - count }

/-- Remove all newly acknowledged packets. Returns them, with the largest packet number first, and
whether any of them was ack-eliciting. -/
def removeAcked (ackedRanges : List (ℕ × ℕ)) : LossRecoverySpace × List Packet × Bool :=
  let (sentPackets, acked) := s.sentPackets.takeRanges ackedRanges
  let s := { s with sentPackets := sentPackets }
  (s.removeOutstanding (acked.filter Packet.ackEliciting).length, acked,
    acked.any Packet.ackEliciting)

/-- Remove all tracked packets from the space. -/
def removeIgnored : LossRecoverySpace × List Packet :=
  ({ s with inFlightOutstanding := 0, sentPackets := [] }, s.sentPackets)

/-- Remove old packets that we've been tracking in case they get acknowledged. -/
def removeOldLost (now cd : ℕ) : LossRecoverySpace :=
  let (sentPackets, removed) := s.sentPackets.removeExpired now cd
  { s with sentPackets := sentPackets }.removeOutstanding removed

/-- Why a packet below the largest acknowledged one is lost, if it is. -/
def lossTrigger (largestAcked now lossDelay : ℕ) (p : Packet) : Option LossTrigger :=
  -- Packets sent before `now - lossDelay` are deemed lost.
  if p.timeSent + lossDelay ≤ now then some .timeThreshold
  else if largestAcked ≥ p.pn + packetThreshold then some .reorderingThreshold
  else none

/-- Declare packets lost, from the oldest on, up to the first one that is not. Returns the packets,
those that are newly lost and when the one at which this stopped was sent. -/
def declareLost (largestAcked now lossDelay : ℕ) : Packets → Packets × List Packet × Option ℕ
  | [] => ([], [], none)
  | p :: ps =>
    if p.pn < largestAcked then
      match lossTrigger largestAcked now lossDelay p with
      | some trigger =>
        let (p, first) := p.declareLost now trigger
        let (ps, lost, ooo) := declareLost largestAcked now lossDelay ps
        (p :: ps, if first then p :: lost else lost, ooo)
      -- No more packets can be declared lost after this one.
      | none => (p :: ps, [], some p.timeSent)
    else (p :: ps, [], none)

/-- Detect lost packets. `lossDelay` is the time we will wait before declaring something lost and
`cleanupDelay` the time we will wait before cleaning up a lost packet. -/
def detectLostPackets (now lossDelay cleanupDelay : ℕ) : LossRecoverySpace × List Packet :=
  let s := s.removeOldLost now cleanupDelay
  let s := { s with firstOooTime := none }
  match s.largestAcked with
  | none => (s, [])
  | some largestAcked =>
    let (sentPackets, lost, ooo) := declareLost largestAcked now lossDelay s.sentPackets
    ({ s with sentPackets := sentPackets, firstOooTime := ooo }, lost)

end LossRecoverySpace

end Neqo
