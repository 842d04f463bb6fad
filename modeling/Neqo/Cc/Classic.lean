import Neqo.Pmtud
import Neqo.Util.IndexMap

/-!
# Congestion control

`ClassicCongestionController` tracks the bytes in flight and adjusts the congestion window on
acknowledgments, losses and ECN marks. It is generic in the algorithms that decide when to leave
slow start and that adjust the window in congestion avoidance.
-/

namespace Neqo

open Sent (Packet)

/-- How a congestion event was triggered. -/
inductive CongestionTrigger where
  /-- Triggered by packet loss. Carries the number of lost packets. -/
  | loss (count : ℕ)
  /-- Triggered by an ECN CE mark. -/
  | ecn
  deriving DecidableEq, Repr

/-- Adjustments of the congestion window. -/
class WindowAdjustment (T : Type) where
  /-- The acked bytes that are needed before the window is increased by one datagram. -/
  bytesForCwndIncrease : T → (currCwnd newAckedBytes minRtt maxDatagramSize now : ℕ) → T × ℕ
  /-- The reduced window and acked bytes on a congestion event. -/
  reduceCwnd : T → (currCwnd ackedBytes maxDatagramSize : ℕ) → CongestionTrigger → T × ℕ × ℕ
  onAppLimited : T → T
  /-- Store the current state, to be recovered in the case of a spurious congestion event. -/
  saveUndoState : T → T
  restoreUndoState : T → T

/-- Slow start exit algorithms. -/
class SlowStart (S : Type) where
  onPacketSent : S → (sentPn sentBytes : ℕ) → S := fun s _ _ => s
  recordAckedBytes : S → (newAckedBytes : ℕ) → S := fun s _ => s
  /-- Handle packets acknowledged during slow start. Returns the window to exit slow start with. -/
  onPacketsAcked : S → RttEstimate → (largestAcked currCwnd now : ℕ) → S × Option ℕ
  /-- The congestion window increase in bytes during slow start. -/
  calcCwndIncrease : S → (newAcked maxDatagramSize : ℕ) → ℕ := fun _ newAcked _ => newAcked
  reset : S → S := id

/-- The window is halved on congestion. -/
structure NewReno where
  deriving DecidableEq, Repr

instance : WindowAdjustment NewReno where
  bytesForCwndIncrease t currCwnd _ _ _ _ := (t, currCwnd)
  reduceCwnd t currCwnd ackedBytes _ _ := (t, currCwnd / 2, ackedBytes / 2)
  onAppLimited t := t
  saveUndoState t := t
  restoreUndoState t := t

/-- Classic slow start, which has no heuristic for exiting. -/
structure ClassicSlowStart where
  deriving DecidableEq, Repr

instance : SlowStart ClassicSlowStart where
  onPacketsAcked s _ _ _ _ := (s, none)

namespace Cc

/-- The phases of congestion control. -/
inductive Phase where
  /-- In either slow start or congestion avoidance, not recovery. -/
  | slowStart
  | congestionAvoidance
  /-- In a recovery period, but no packets have been sent yet. -/
  | recoveryStart
  /-- In a recovery period, with the first packet sent at this time. -/
  | recovery
  /-- Start of persistent congestion, which is transient, like `recoveryStart`. -/
  | persistentCongestion
  deriving DecidableEq, Repr

namespace Phase

def inRecovery (p : Phase) : Bool := p = .recoveryStart || p = .recovery

def inSlowStart (p : Phase) : Bool := p = .slowStart

def transient (p : Phase) : Bool := p = .recoveryStart || p = .persistentCongestion

/-- Update a transient phase to the actual phase. -/
def update : Phase → Phase
  | .persistentCongestion => .slowStart
  | .recoveryStart => .recovery
  | p => p

end Phase

/-- The congestion parameters, which are restored if the event that changed them was spurious. -/
structure State where
  phase : Phase
  congestionWindow : ℕ
  ackedBytes : ℕ
  ssthresh : Option ℕ
  /-- Packet number of the first packet that was sent after a congestion event. -/
  recoveryStart : Option ℕ
  deriving DecidableEq, Repr

def cwndInitialPkts : ℕ := 10

def persistentCongThresh : ℕ := 3

/-- The number of packets we allow to burst from the pacer. -/
def pacingBurstSize : ℕ := 2

def cwndInitial (mtu : ℕ) : ℕ := min (cwndInitialPkts * mtu) (max (2 * mtu) 14720)

def State.new (mtu : ℕ) : State :=
  { phase := .slowStart
    congestionWindow := cwndInitial mtu
    ackedBytes := 0
    ssthresh := none
    recoveryStart := none }

end Cc

open Cc

/-- A congestion controller, for any slow start `S` and congestion avoidance `T`. -/
structure ClassicCongestionController (S T : Type) where
  slowStart : S
  congestionControl : T
  bytesInFlight : ℕ := 0
  /-- Whether more was ever taken from `bytesInFlight` than it held. Not in the source, which
  saturates then, or asserts that it does not happen. -/
  underflow : Bool := false
  /-- The send times of packets that have supposedly been lost. -/
  maybeLostPackets : IndexMap (ℕ × PacketType) ℕ := .empty
  /-- The packet number after which the application might be underutilizing the congestion
  window. -/
  firstAppLimited : Option ℕ := none
  pmtud : Pmtud
  /-- Current congestion controller parameters. -/
  current : State
  /-- Parameters that were stored on a congestion event. -/
  stored : Option State := none
  /-- Whether to recover from spurious congestion events by restoring prior state. -/
  spuriousRecovery : Bool

namespace ClassicCongestionController

variable {S T : Type}

def new (slowStart : S) (congestionControl : T) (pmtud : Pmtud) (spuriousRecovery : Bool) :
    ClassicCongestionController S T :=
  { slowStart := slowStart
    congestionControl := congestionControl
    pmtud := pmtud
    current := .new pmtud.plpmtu
    spuriousRecovery := spuriousRecovery }

variable (cc : ClassicCongestionController S T)

def maxDatagramSize : ℕ := cc.pmtud.plpmtu

def cwnd : ℕ := cc.current.congestionWindow

def cwndAvail : ℕ :=
  -- The bytes in flight can be higher than the window due to PTO packets.
  cc.current.congestionWindow - cc.bytesInFlight

def cwndMin : ℕ := cc.maxDatagramSize * 2

def setPhase (phase : Phase) : ClassicCongestionController S T :=
  { cc with current := { cc.current with phase := phase } }

/-- Take bytes out of flight. -/
def leaveFlight (len : ℕ) : ClassicCongestionController S T :=
  { cc with
    bytesInFlight := cc.bytesInFlight - len
    underflow := cc.underflow || decide (cc.bytesInFlight < len) }

/-- Whether a packet was sent after the last recovery period started. -/
def afterRecoveryStart (packet : Packet) : Bool :=
  !cc.current.phase.transient && cc.current.recoveryStart.all fun pn => packet.pn ≥ pn

def appLimited : Bool :=
  if cc.bytesInFlight ≥ cc.current.congestionWindow then false
  else if cc.current.phase.inSlowStart then
    -- Allow for potential doubling of the congestion window during slow start.
    cc.bytesInFlight < cc.current.congestionWindow / 2
  else cc.bytesInFlight + cc.maxDatagramSize * pacingBurstSize < cc.current.congestionWindow

/-- Whether a packet can be sent immediately as a result of entering recovery. -/
def recoveryPacket : Bool := cc.current.phase = .recoveryStart

variable [SlowStart S] [WindowAdjustment T]

/-! ### Congestion events -/

/-- Handle a congestion event. Returns true if this was a true congestion event. -/
def onCongestionEvent (lastPacket : Packet)
    (trigger : CongestionTrigger) : ClassicCongestionController S T × Bool :=
  -- Start a new congestion event if the packet was sent after the start of the previous congestion
  -- recovery period.
  if !cc.afterRecoveryStart lastPacket then (cc, false)
  else
    let cc :=
      if trigger ≠ .ecn then
        { cc with
          stored := some cc.current
          congestionControl := WindowAdjustment.saveUndoState cc.congestionControl }
      else cc
    let (congestionControl, cwnd, ackedBytes) := WindowAdjustment.reduceCwnd cc.congestionControl
      cc.current.congestionWindow cc.current.ackedBytes cc.maxDatagramSize trigger
    let cwnd := max cwnd cc.cwndMin
    let current := { cc.current with
      congestionWindow := cwnd, ackedBytes := ackedBytes, ssthresh := some cwnd }
    ({ cc with congestionControl := congestionControl, current := current }.setPhase .recoveryStart,
      true)

/-- Report received ECN CE marks to the congestion controller as a congestion event. -/
def onEcnCeReceived (largestAckedPkt : Packet) :
    ClassicCongestionController S T × Bool := cc.onCongestionEvent largestAckedPkt .ecn

/-- Whether the lost packets, all after the cutoff, span more than the period without interruption.
`lastPn` is the previous packet and `start` when the current range began. -/
def spansPeriod (pcPeriod : ℕ) : Option ℕ → Option ℕ → List Packet → Bool
  | _, _, [] => false
  | lastPn, start, p :: ps =>
    -- If this is not a contiguous range of lost packets, start over.
    let start := if lastPn.all fun l => p.pn ≠ l + 1 then none else start
    if !p.ackEliciting || !p.primaryPath then spansPeriod pcPeriod (some p.pn) start ps
    else
      match start with
      | some t =>
        if p.timeSent - t > pcPeriod then true else spansPeriod pcPeriod (some p.pn) start ps
      | none => spansPeriod pcPeriod (some p.pn) (some p.timeSent) ps

def detectPersistentCongestion
    (firstRttSampleTime prevLargestAckedSent : Option ℕ) (pto : ℕ) (lostPackets : List Packet) :
    ClassicCongestionController S T × Bool :=
  match firstRttSampleTime with
  | none => (cc, false)
  | some first =>
    let pcPeriod := pto * persistentCongThresh
    -- Ignore packets sent before we got an RTT estimate, or before the largest acknowledged.
    let cutoff := prevLargestAckedSent.elim first (max first)
    if spansPeriod pcPeriod none none (lostPackets.dropWhile fun p => p.timeSent < cutoff) then
      let current := { cc.current with congestionWindow := cc.cwndMin, ackedBytes := 0 }
      ({ cc with current := current, slowStart := SlowStart.reset cc.slowStart }.setPhase
        .persistentCongestion, true)
    else (cc, false)

/-- Note the loss of one packet. -/
def packetLost (pkt : Packet) : ClassicCongestionController S T :=
  if pkt.ccInFlight then
    let cc := cc.leaveFlight pkt.len
    if !pkt.isPmtudProbe then
      { cc with maybeLostPackets := cc.maybeLostPackets.insert (pkt.pn, pkt.pt) pkt.timeSent }
    else cc
  else cc

/-- Update congestion controller state based on lost packets. Returns true if the congestion window
was reduced. -/
def onPacketsLost
    (firstRttSampleTime prevLargestAckedSent : Option ℕ) (pto : ℕ) (lostPackets : List Packet) :
    ClassicCongestionController S T × Bool :=
  if lostPackets.isEmpty then (cc, false)
  else
    let maybeLostBefore := cc.maybeLostPackets.len
    let cc := lostPackets.foldl packetLost cc
    let lostPacketsCount := cc.maybeLostPackets.len - maybeLostBefore
    -- Lost PMTUD probes do not elicit congestion control reactions.
    let lostPacketsNoPmtud := lostPackets.filter fun pkt => !pkt.isPmtudProbe
    match (lostPacketsNoPmtud.filter Packet.ccInFlight).getLast? with
    | none => (cc, false)
    | some lastLostPacket =>
      let (cc, congestion) := cc.onCongestionEvent lastLostPacket (.loss lostPacketsCount)
      let (cc, persistentCongestion) := cc.detectPersistentCongestion firstRttSampleTime
        prevLargestAckedSent pto lostPacketsNoPmtud
      (cc, congestion || persistentCongestion)

/-! ### Acknowledgments -/

def onSpuriousCongestionEvent : ClassicCongestionController S T :=
  match cc.stored with
  | none => cc
  | some stored =>
    let cc := { cc with stored := none }
    if stored.congestionWindow ≤ cc.current.congestionWindow then cc
    else if !cc.spuriousRecovery then cc
    else
      { cc with
        congestionControl := WindowAdjustment.restoreUndoState cc.congestionControl
        current := stored }

def detectSpuriousCongestionEvent (ackedPackets : List Packet) : ClassicCongestionController S T :=
  if cc.maybeLostPackets.len = 0 then cc
  else
    -- Remove all newly acked packets that are late acks.
    let cc := { cc with maybeLostPackets :=
      ackedPackets.foldl (fun m p => m.remove (p.pn, p.pt)) cc.maybeLostPackets }
    if cc.maybeLostPackets.len = 0 then cc.onSpuriousCongestionEvent else cc

/-- Drop lost packets that are unlikely to get a late acknowledgment. -/
def cleanupMaybeLostPackets (now pto : ℕ) : ClassicCongestionController S T :=
  let maxAge := pto * 2
  { cc with
    maybeLostPackets := cc.maybeLostPackets.retain fun _ timeSent => now - timeSent ≤ maxAge }

/-- What the loop of `onPacketsAcked` keeps. -/
structure AckLoop (S T : Type) where
  cc : ClassicCongestionController S T
  isAppLimited : Bool := true
  newAcked : ℕ := 0

/-- One turn of the loop of `onPacketsAcked`. -/
def AckLoop.packetAcked (l : AckLoop S T) (pkt : Packet) : AckLoop S T :=
  if !pkt.ccOutstanding then l
  else
    let l :=
      if l.cc.firstAppLimited.any fun f => pkt.pn < f then { l with isAppLimited := false } else l
    let l := { l with cc := l.cc.leaveFlight pkt.len }
    -- Do not increase the congestion window for packets sent before recovery last started.
    if !l.cc.afterRecoveryStart pkt then l
    else
      let l :=
        if l.cc.current.phase.inRecovery then { l with cc := l.cc.setPhase .congestionAvoidance }
        else l
      { l with newAcked := l.newAcked + pkt.len }

/-- Slow start: grow up to the threshold. -/
def growInSlowStart (rttEst : RttEstimate)
    (largestAcked newAcked now : ℕ) : ClassicCongestionController S T :=
  if cc.current.ssthresh.all fun s => cc.current.congestionWindow < s then
    -- Check if the slow start algorithm wants to exit.
    let (slowStart, exit) := SlowStart.onPacketsAcked cc.slowStart rttEst largestAcked
      cc.current.congestionWindow now
    let cc := { cc with slowStart := slowStart }
    match exit with
    | some exitCwnd =>
      { cc with current :=
          { cc.current with congestionWindow := exitCwnd, ssthresh := some exitCwnd } }.setPhase
        .congestionAvoidance
    | none =>
      let cwndIncrease := SlowStart.calcCwndIncrease cc.slowStart newAcked cc.maxDatagramSize
      let cwnd := cc.current.congestionWindow + cwndIncrease
      let cc := { cc with current := { cc.current with congestionWindow := cwnd } }
      match cc.current.ssthresh with
      | some ssthresh =>
        -- This can only happen after persistent congestion.
        if cwnd ≥ ssthresh then
          { cc with current := { cc.current with congestionWindow := ssthresh } }.setPhase
            .congestionAvoidance
        else cc
      | none => cc
  else cc

/-- Congestion avoidance, above the slow start threshold. -/
def growInCongestionAvoidance (rttEst : RttEstimate)
    (newAcked now : ℕ) : ClassicCongestionController S T :=
  if cc.current.ssthresh.any fun s => cc.current.congestionWindow ≥ s then
    let (congestionControl, bytesForIncrease) := WindowAdjustment.bytesForCwndIncrease
      cc.congestionControl cc.current.congestionWindow newAcked rttEst.minimum
      cc.maxDatagramSize now
    -- Cap prior credit to one increment, then apply all increments earned.
    let acked := min cc.current.ackedBytes bytesForIncrease + newAcked
    let n := acked / bytesForIncrease
    let cwnd := cc.current.congestionWindow + n * cc.maxDatagramSize
    let current :=
      { cc.current with ackedBytes := acked % bytesForIncrease, congestionWindow := cwnd }
    { cc with congestionControl := congestionControl, current := current }
  else cc

def onPacketsAcked (ackedPkts : List Packet)
    (rttEst : RttEstimate) (now : ℕ) : ClassicCongestionController S T :=
  match ackedPkts.head? with
  | none => cc
  | some largestPacketAcked =>
    let cc := cc.cleanupMaybeLostPackets now (rttEst.pto true)
    let cc := cc.detectSpuriousCongestionEvent ackedPkts
    let l := ackedPkts.foldl AckLoop.packetAcked { cc := cc }
    let cc := l.cc
    let cc :=
      if cc.current.phase.inSlowStart then
        { cc with slowStart := SlowStart.recordAckedBytes cc.slowStart l.newAcked }
      else cc
    if l.isAppLimited then
      { cc with congestionControl := WindowAdjustment.onAppLimited cc.congestionControl }
    else
      let cc := cc.growInSlowStart rttEst largestPacketAcked.pn l.newAcked now
      cc.growInCongestionAvoidance rttEst l.newAcked now

/-! ### Sending and discarding -/

def discard (pkt : Packet) : ClassicCongestionController S T :=
  if pkt.ccOutstanding then cc.leaveFlight pkt.len else cc

def discardInFlight : ClassicCongestionController S T :=
  { cc with bytesInFlight := 0 }

def onPacketSent (pkt : Packet) : ClassicCongestionController S T :=
  -- Record the recovery time and exit any transient phase.
  let cc :=
    if cc.current.phase.transient then
      { cc with current :=
          { cc.current with recoveryStart := some pkt.pn, phase := cc.current.phase.update } }
    else cc
  if !pkt.ccInFlight then cc
  else
    let cc :=
      if cc.current.phase.inSlowStart then
        { cc with slowStart := SlowStart.onPacketSent cc.slowStart pkt.pn pkt.len }
      else cc
    -- Update bytes in flight first; a fully consumed congestion window is not app-limited.
    let cc := { cc with bytesInFlight := cc.bytesInFlight + pkt.len }
    if !cc.appLimited then { cc with firstAppLimited := some (pkt.pn + 1) } else cc

end ClassicCongestionController

/-! ### Runs of the congestion controller -/

namespace ClassicCongestionController

variable {S T : Type}

/-- What the congestion controller is told. -/
inductive Op where
  | sent (pkt : Packet)
  | acked (ackedPkts : List Packet) (rttEst : RttEstimate) (now : ℕ)
  | lost (firstRttSampleTime prevLargestAckedSent : Option ℕ) (pto : ℕ) (lostPackets : List Packet)
  | ecnCe (largestAckedPkt : Packet)
  | discard (pkt : Packet)
  | discardInFlight
  /-- The path changes the state of path MTU discovery. -/
  | pmtud (pmtud : Pmtud)

/-- The packet numbers of the packets sent. -/
def sentPns : List Op → List ℕ
  | [] => []
  | .sent pkt :: ops => pkt.pn :: sentPns ops
  | _ :: ops => sentPns ops

variable [SlowStart S] [WindowAdjustment T] (cc : ClassicCongestionController S T)

def step : Op → ClassicCongestionController S T
  | .sent pkt => cc.onPacketSent pkt
  | .acked ackedPkts rttEst now => cc.onPacketsAcked ackedPkts rttEst now
  | .lost first prev pto lostPackets => (cc.onPacketsLost first prev pto lostPackets).1
  | .ecnCe pkt => (cc.onEcnCeReceived pkt).1
  | .discard pkt => cc.discard pkt
  | .discardInFlight => cc.discardInFlight
  | .pmtud pmtud => { cc with pmtud := pmtud }

def run (ops : List Op) : ClassicCongestionController S T :=
  ops.foldl step cc

lemma run_append (ops ops' : List Op) :
    cc.run (ops ++ ops') = (cc.run ops).run ops' := List.foldl_append

end ClassicCongestionController

end Neqo
