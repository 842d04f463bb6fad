import Neqo.Cc.Classic
import Neqo.Cid
import Neqo.Ecn

/-!
# Network paths

A path is known by the connection IDs used on it. What can be sent on it depends on whether it is
validated, how much was sent and received, and on its RTT estimate, congestion control, pacing and
ECN state.
-/

namespace Neqo

open Sent (Packet)

/-- The congestion controller and the pacer of a path. -/
structure PacketSender (S T : Type) where
  cc : ClassicCongestionController S T
  pacer : Pacer

namespace PacketSender

variable {S T : Type}

def new (slowStart : S) (congestionControl : T) (spuriousRecovery pacing : Bool) (pmtud : Pmtud)
    (now : ℕ) : PacketSender S T :=
  let mtu := pmtud.plpmtu
  { cc := .new slowStart congestionControl pmtud spuriousRecovery
    pacer := .new pacing now (mtu * Cc.pacingBurstSize) mtu }

variable (s : PacketSender S T)

def pmtud : Pmtud := s.cc.pmtud

/-- Replace the PMTUD state. -/
def setPmtud (pmtud : Pmtud) : PacketSender S T :=
  { s with cc := { s.cc with pmtud := pmtud } }

def cwnd : ℕ := s.cc.cwnd

def cwndAvail : ℕ := s.cc.cwndAvail

def bytesInFlight : ℕ := s.cc.bytesInFlight

def maybeUpdatePacerMtu : PacketSender S T :=
  if s.pmtud.plpmtu ≠ s.pacer.p then { s with pacer := s.pacer.setMtu s.pmtud.plpmtu } else s

def discardInFlight : PacketSender S T :=
  { s with cc := s.cc.discardInFlight }

/-- When the next packet can be sent. -/
def nextPaced (rtt : ℕ) : Option ℕ :=
  -- Only pace if there are bytes in flight.
  if s.cc.bytesInFlight > 0 then some (s.pacer.next rtt s.cc.cwnd) else none

def recoveryPacket : Bool := s.cc.recoveryPacket

variable [SlowStart S] [WindowAdjustment T]

def onPacketsAcked (ackedPkts : List Packet) (rttEst : RttEstimate) (now : ℕ) : PacketSender S T :=
  let s := { s with cc := s.cc.onPacketsAcked ackedPkts rttEst now }
  let s := s.setPmtud (s.pmtud.onPacketsAcked ackedPkts now)
  s.maybeUpdatePacerMtu

/-- Called when packets are lost. Returns true if the congestion window was reduced. -/
def onPacketsLost (firstRttSampleTime prevLargestAckedSent : Option ℕ)
    (pto : ℕ) (lostPackets : List Packet) (now : ℕ) : PacketSender S T × Bool :=
  let (cc, ret) := s.cc.onPacketsLost firstRttSampleTime prevLargestAckedSent pto lostPackets
  let s := { s with cc := cc }
  -- This may change the size of MTU probes, so it needs to happen after the reaction above.
  let s := s.setPmtud (s.pmtud.onPacketsLost lostPackets now)
  (s.maybeUpdatePacerMtu, ret)

/-- Called when ECN CE mark received. Returns true if the congestion window was reduced. -/
def onEcnCeReceived (largestAckedPkt : Packet) : PacketSender S T × Bool :=
  let (cc, ret) := s.cc.onEcnCeReceived largestAckedPkt
  ({ s with cc := cc }, ret)

def discard (pkt : Packet) : PacketSender S T :=
  { s with cc := s.cc.discard pkt }

def onPacketSent (pkt : Packet) (rtt : ℕ) : PacketSender S T :=
  { s with
    pacer := s.pacer.spend pkt.timeSent rtt s.cc.cwnd pkt.len
    cc := s.cc.onPacketSent pkt }

end PacketSender

/-! ### Paths -/

/-- The state of a path with respect to address validation. -/
inductive ProbeState where
  /-- The path was last valid at the indicated time. -/
  | valid
  /-- The path was previously valid, but a new probe is needed. -/
  | probeNeeded (probeCount : ℕ)
  /-- The path hasn't been validated, but a probe has been sent. -/
  | probing (probeCount : ℕ) (data : Bytes) (mtu : Bool) (sent : ℕ)
  /-- Validation failed the last time it was attempted. -/
  | failed
  deriving DecidableEq, Repr

/-- An address. -/
structure SocketAddr where
  ip : Bytes := []
  port : ℕ := 0
  deriving DecidableEq, Repr

/-- A path to the peer. -/
structure Path (S T : Type) where
  /-- A remote socket address. -/
  remote : SocketAddr := {}
  /-- The connection ID(s) that we use when receiving packets. -/
  localCid : Option ConnectionId := none
  /-- The current connection ID that we are using and its details. -/
  remoteCid : Option RemoteConnectionIdEntry := none
  /-- Whether this is the primary path. -/
  primary : Bool
  /-- Whether the current path is considered valid. -/
  state : ProbeState
  /-- For a validated path, the time that the path was last valid. -/
  validated : Option ℕ
  /-- Path challenges that were received and for which `PATH_RESPONSE` has not been sent, oldest
  first. -/
  challenges : List Bytes := []
  /-- The round trip time estimate for this path. -/
  rtt : RttEstimate
  /-- A packet sender for the path, which includes congestion control and a pacer. -/
  sender : PacketSender S T
  /-- The number of bytes received on this path. -/
  receivedBytes : ℕ
  /-- The number of bytes sent on this path. -/
  sentBytes : ℕ
  /-- The ECN-related state for this path. -/
  ecnInfo : Ecn.Info

namespace Path

variable {S T : Type}

/-- The number of times that a path will be probed before it is considered failed. -/
def maxProbes : ℕ := 3

/-- The number of received path challenges that are remembered until a response can be sent. -/
def maxPendingChallenges : ℕ := 4

/-- The encoded size of a `PATH_CHALLENGE` or `PATH_RESPONSE` frame. -/
def pathFrameLen : ℕ := 1 + 8

/-- A path as it is when it has just been created. -/
def temporary (sender : PacketSender S T) (initialRtt : ℕ) : Path S T :=
  { primary := false
    state := .probeNeeded 0
    validated := none
    rtt := .new initialRtt
    sender := sender
    receivedBytes := 0
    sentBytes := 0
    ecnInfo := {} }

variable (p : Path S T)

/-- Whether this path is a temporary one. -/
def isTemporary : Bool := p.remoteCid.isNone

/-- A remote connection ID makes the path permanent, to send packets on later. An existing local
connection ID is kept. -/
def makePermanent (localCid : Option ConnectionId)
    (remoteCid : RemoteConnectionIdEntry) : Path S T :=
  { p with localCid := p.localCid <|> localCid, remoteCid := some remoteCid }

/-- Update the remote port number. -/
def updatePort (port : ℕ) : Path S T :=
  { p with remote := { p.remote with port := port } }

/-- Set whether this path is primary. -/
def setPrimary (primary : Bool) : Path S T :=
  let p := { p with primary := primary }
  if !primary then { p with sender := p.sender.discardInFlight } else p

/-- Set the current path as valid. -/
def setValid (now : ℕ) : Path S T :=
  { p with state := .valid, validated := some now }

/-- Update the last use of this path, if it is valid. -/
def update (now : ℕ) : Path S T :=
  if p.validated.isSome then { p with validated := some now } else p

def plpmtu : ℕ := p.sender.pmtud.plpmtu

/-- Whether the path has been validated. -/
def isValid : Bool := p.validated.isSome

/-- At the next opportunity, send a probe. If the probe count has been exhausted already, marks the
path as failed. -/
def probe : Path S T :=
  let probeCount :=
    match p.state with
    | .probing probeCount _ _ _ => probeCount + 1
    | .probeNeeded probeCount => probeCount
    | _ => 0
  if probeCount ≥ maxProbes then
    if p.ecnInfo.isMarking then
      -- The path validation failure may be due to ECN blackholing, try again without ECN.
      { p with ecnInfo := p.ecnInfo.disableEcn .blackHole, state := .probeNeeded 0 }
    else { p with state := .failed }
  else { p with state := .probeNeeded probeCount }

/-- Handle a `PATH_RESPONSE` frame. Returns true if the response was accepted. -/
def pathResponse (response : Bytes) (now : ℕ) : Path S T × Bool :=
  match p.state with
  | .probing _ data mtu _ =>
    if response = data then
      let p := p.setValid now
      (if !mtu then p.probe else p, true)
    else (p, false)
  | _ => (p, false)

/-- The path has been challenged. If too many challenges are pending, the oldest is dropped. -/
def challenged (challenge : Bytes) : Path S T :=
  let challenges :=
    if p.challenges.length ≥ maxPendingChallenges then p.challenges.tail else p.challenges
  { p with challenges := challenges ++ [challenge] }

/-- Respond to challenges while there is space. Returns those that remain. -/
def writeResponses : List Bytes → Builder → List Bytes × Builder × Bool
  | [], builder => ([], builder, false)
  | challenge :: challenges, builder =>
    if builder.remaining ≥ pathFrameLen then
      let (challenges, builder, _) :=
        writeResponses challenges (builder.encodeFrame .pathResponse challenge)
      (challenges, builder, true)
    else (challenge :: challenges, builder, false)

/-- Write `PATH_RESPONSE` and `PATH_CHALLENGE` frames; `data` is the next challenge. Returns
whether a frame was written. -/
def writeFrames (builder : Builder) (data : Bytes) (mtu : Bool) (now : ℕ) :
    Path S T × Builder × Bool :=
  if builder.remaining < pathFrameLen then (p, builder, false)
  else
    let (challenges, builder, respSent) := writeResponses p.challenges builder
    let p := { p with challenges := challenges }
    if builder.remaining < pathFrameLen then (p, builder, respSent)
    else
      match p.state with
      | .probeNeeded probeCount =>
        ({ p with state := .probing probeCount data mtu now },
          builder.encodeFrame .pathChallenge data, true)
      | _ => (p, builder, respSent)

/-- Process a timer for this path. This returns true if the path is viable and can be kept
alive. -/
def processTimeout (now pto : ℕ) : Path S T × Bool :=
  let p :=
    match p.state with
    | .probing _ _ _ sent => if now ≥ sent + pto then p.probe else p
    | _ => p
  match p.state with
  | .failed => (p, false)
  | .valid =>
    -- Retire validated, non-primary paths after more than twice the probes.
    (p, p.primary || p.validated.any fun validated => validated + pto * (2 * maxProbes + 1) > now)
  | _ => (p, true)

/-- Change the PMTUD state of the path. -/
def modifyPmtud (f : Pmtud → Pmtud) : Path S T :=
  { p with sender := p.sender.setPmtud (f p.sender.pmtud) }

/-- Record received bytes for the path. -/
def addReceived (count : ℕ) : Path S T :=
  { p with receivedBytes := min (p.receivedBytes + count) usizeMax }

/-- Record sent bytes for the path. -/
def addSent (count : ℕ) : Path S T :=
  { p with sentBytes := min (p.sentBytes + count) usizeMax }

/-- The number of bytes that can be written to this path. -/
def amplificationLimit : ℕ :=
  if p.state = .failed then 0
  else if p.isValid then usizeMax
  else
    let limit := p.receivedBytes * 3
    if limit > usizeMax then usizeMax
    else
      -- If we have received absolutely nothing thus far, then this endpoint is the one initiating
      -- communication on this path. Allow enough space for probing.
      let budget := if limit = 0 then p.plpmtu * 5 else limit
      budget - p.sentBytes

/-- The number of bytes that can be sent on this path now. -/
def sendBudget : ℕ := min p.sender.cwndAvail p.amplificationLimit

/-- Pass the state of the congestion controller on to the ack delay. -/
def updateAckDelay : Path S T :=
  { p with rtt := p.rtt.updateAckDelay p.sender.cwnd p.plpmtu }

variable [SlowStart S] [WindowAdjustment T]

/-- Record a packet as having been sent on this path. -/
def packetSent (sent : Packet) : Path S T × Packet :=
  let sent := if !p.primary then sent.clearPrimaryPath else sent
  ({ p with sender := p.sender.onPacketSent sent p.rtt.estimate }, sent)

/-- Discard a packet that previously might have been in-flight. -/
def discardPacket (sent : Packet) (now : ℕ) : Path S T :=
  let p :=
    if p.rtt.firstSampleTime.isNone then
      -- When discarding a packet there might not be a good RTT estimate.
      { p with rtt := p.rtt.update (now - sent.timeSent) 0 .guesstimate now }
    else p
  { p with sender := p.sender.discard sent }

/-- Record packets as acknowledged with the sender. -/
def onPacketsAcked (ackedPkts : List Packet) (ackEcn : Option Ecn.Count) (now : ℕ) : Path S T :=
  let (ecnInfo, ecnCeReceived) := p.ecnInfo.onPacketsAcked ackedPkts ackEcn
  let p := { p with ecnInfo := ecnInfo }
  let p :=
    match ackedPkts.head? with
    | some largest =>
      if ecnCeReceived then
        let (sender, cwndReduced) := p.sender.onEcnCeReceived largest
        let p := { p with sender := sender }
        if cwndReduced then p.updateAckDelay else p
      else p
    | none => p
  { p with sender := p.sender.onPacketsAcked ackedPkts p.rtt now }

/-- Record packets as lost with the sender. -/
def onPacketsLost (prevLargestAckedSent : Option ℕ) (confirmed : Bool)
    (lostPackets : List Packet) (now : ℕ) : Path S T :=
  let (sender, cwndReduced) := p.sender.onPacketsLost p.rtt.firstSampleTime prevLargestAckedSent
    (p.rtt.pto confirmed) lostPackets now
  let p := { p with sender := sender }
  if cwndReduced then p.updateAckDelay else p

end Path

/-!
## The paths of a connection

The paths that have been used for sending or receiving. Paths are shared, so that the collection
holds references to them.
-/

/-- A reference to a path. -/
abbrev PathRef := ℕ

/-- The maximum number of paths that are tracked. -/
def maxPaths : ℕ := 15

/-- The paths of a connection. -/
structure Paths (S T : Type) where
  /-- The paths that the references refer to, which includes those that are not in `paths`. -/
  heap : PathRef → Path S T
  /-- All of the paths. All of these paths will be permanent. -/
  paths : List PathRef := []
  /-- This is the primary path. -/
  primary : Option PathRef := none
  /-- The path that we would prefer to migrate to. -/
  migrationTarget : Option PathRef := none
  /-- Connection IDs that need to be retired. -/
  toRetire : List ℕ := []
  /-- Whether PMTUD is enabled for this connection. -/
  pmtud : Bool

namespace Paths

variable {S T : Type} (s : Paths S T) (path : PathRef)

/-- Change the path that a reference refers to. -/
def modify (f : Path S T → Path S T) : Paths S T :=
  { s with heap := Function.update s.heap path (f (s.heap path)) }

/-- Whether the path is not permanent. -/
def isTemporary : Bool :=
  (s.heap path).isTemporary || path ∉ s.paths

/-- The connection ID of a path that needs to be retired with it. -/
def retire (retired : Path S T) : List ℕ :=
  match retired.remoteCid with
  | some cid => if cid.cid.isEmpty then [] else [cid.seqno]
  | none => []

/-- Set whether a path is primary, which can only be done for a permanent path. -/
def setPrimary (primary : Bool) : Except Failure (Paths S T) :=
  if (s.heap path).remoteCid.isNone then .error .assertion
  else .ok (s.modify path fun p => p.setPrimary primary)

/-- Swap two elements of a list. -/
def swap {α : Type} (l : List α) (i j : ℕ) : List α :=
  match l[i]?, l[j]? with
  | some a, some b => (l.set i b).set j a
  | _, _ => l

/-- The old primary path, if there is one, is no longer primary. -/
def demote : Option PathRef → Except Failure (Paths S T)
  | some old => s.setPrimary old false
  | none => .ok s

/-- Swap the primary path into slot 0, so that it is protected from eviction, and mark it. -/
def promote (oldPath : Option PathRef) : Except Failure (Paths S T × Option PathRef) :=
  match s.paths.idxOf? path with
  | none => .ok (s, none)
  | some idx => do
    let s ← { s with paths := swap s.paths 0 idx }.setPrimary path true
    pure (s, oldPath)

/-- Select a path as the primary. Returns the old primary path. -/
def selectPrimary : Except Failure (Paths S T × Option PathRef) := do
  let s' ← { s with primary := some path }.demote s.primary
  s'.promote path s.primary

/-- Make sure not to track too many paths. This protects index 0, which contains the primary
path. -/
def evict : Except Failure (Paths S T) :=
  if s.paths.length ≥ maxPaths then
    if s.paths.length ≠ maxPaths then .error .assertion
    else
      match s.paths[1]? with
      | none => .ok s
      | some removed =>
        .ok { s with
          paths := s.paths.eraseIdx 1
          toRetire := s.toRetire ++ retire (s.heap removed)
          migrationTarget :=
            if s.migrationTarget = some removed then none else s.migrationTarget }
  else .ok s

/-- Make a path primary if there is no primary path. -/
def ensurePrimary : Except Failure (Paths S T) :=
  if s.primary.isNone then do
    let (s, oldPath) ← s.selectPrimary path
    if oldPath.isSome then .error .assertion else .ok s
  else .ok s

/-- Add a path, with its connection IDs. -/
def adopt (localCid : Option ConnectionId) (remoteCid : RemoteConnectionIdEntry) : Paths S T :=
  { s.modify path fun p => p.makePermanent localCid remoteCid with paths := s.paths ++ [path] }

/-- Adopt a temporary path as permanent. The first path that is made permanent is made primary. -/
def makePermanent (localCid : Option ConnectionId)
    (remoteCid : RemoteConnectionIdEntry) : Except Failure (Paths S T) :=
  if s.isTemporary path then do
    let s ← s.evict
    (s.adopt path localCid remoteCid).ensurePrimary path
  else .error .assertion

/-- Use a path immediately if it can be, or once probing succeeds. -/
def retarget (force : Bool) (now : ℕ) : Except Failure (Paths S T) :=
  if force || (s.heap path).isValid then do
    let (s, _) ← (s.modify path fun p => p.setValid now).selectPrimary path
    pure { s with migrationTarget := none }
  else .ok { s with migrationTarget := some path }

/-- The counts that are known for the primary path. -/
def ecnBaseline : Ecn.Count :=
  match s.primary with
  | none => ({} : Ecn.Info).baseline
  | some p => (s.heap p).ecnInfo.baseline

/-- Migrate to the identified path. If `force` is true, it is marked as valid and used immediately.
Otherwise, migration occurs after probing succeeds. Returns `true` if the path was migrated. -/
def migrate (force : Bool) (now : ℕ) : Except Failure (Paths S T × Bool) :=
  if s.isTemporary path then .error .assertion
  else do
    let baseline := s.ecnBaseline
    let s := s.modify path fun p => { p with ecnInfo := (p.ecnInfo.setBaseline baseline).start }
    let s ← s.retarget path force now
    let s := s.modify path Path.probe
    pure (s, s.migrationTarget.isNone)

/-- The paths and what is kept of a list of them. -/
structure Timeouts (S T : Type) where
  heap : PathRef → Path S T
  paths : List PathRef
  toRetire : List ℕ
  primaryFailed : Bool

/-- Process elapsed time for a list of paths. -/
def timeouts (now pto : ℕ) : List PathRef → (PathRef → Path S T) → Timeouts S T
  | [], heap => ⟨heap, [], [], false⟩
  | p :: paths, heap =>
    let (path, viable) := (heap p).processTimeout now pto
    let rest := timeouts now pto paths (Function.update heap p path)
    if viable then { rest with paths := p :: rest.paths }
    else
      { rest with
        toRetire := retire path ++ rest.toRetire
        primaryFailed := path.primary || rest.primaryFailed }

/-- Find a valid path to fall back to after the primary path failed. Returns whether there is
one. -/
def failOver : Except Failure (Paths S T × Bool) :=
  -- More recent paths are toward the end.
  match s.paths.reverse.find? fun p => (s.heap p).isValid with
  | some fallback => do
    let (s, _) ← s.selectPrimary fallback
    pure (s, true)
  | none => .ok (s, false)

/-- See if the PMTUD raise timer wants to fire. -/
def fireRaiseTimer (now : ℕ) : Paths S T :=
  match s.primary with
  | some path => s.modify path fun p => p.modifyPmtud fun m => m.maybeFireRaiseTimer now
  | none => s

/-- Process elapsed time for active paths. Returns true if there are viable paths remaining after
tidying up. -/
def processTimeout (now pto : ℕ) : Except Failure (Paths S T × Bool) :=
  let t := timeouts now pto s.paths s.heap
  let s := { s with heap := t.heap, paths := t.paths, toRetire := s.toRetire ++ t.toRetire }
  if t.primaryFailed then { s with primary := none }.failOver else .ok (s.fireRaiseTimer now, true)

/-- Start PMTUD on a path if it is enabled. -/
def startPmtud (now : ℕ) : Paths S T :=
  if s.pmtud then s.modify path fun p => p.modifyPmtud fun m => m.start now else s

/-- Need to probe the old path if the peer migrates. -/
def probeOld : Option PathRef → Paths S T
  | some old => s.modify old Path.probe
  | none => s

/-- Set the identified path to be primary. -/
def handleMigration (remote : SocketAddr) (now : ℕ) : Except Failure (Paths S T) :=
  let s := s.modify path fun p => p.updatePort remote.port
  if (s.heap path).primary then
    -- Update when the path was last regarded as valid.
    .ok (s.modify path fun p => p.update now)
  else do
    let (s, oldPath) ← s.selectPrimary path
    pure ((s.probeOld oldPath).startPmtud path now)

/-- Find the first of a list of paths that accepts a response. -/
def acceptResponse (response : Bytes) (now : ℕ) : List PathRef → (PathRef → Path S T) →
    (PathRef → Path S T) × Option PathRef
  | [], heap => (heap, none)
  | p :: paths, heap =>
    let (path, accepted) := (heap p).pathResponse response now
    let heap := Function.update heap p path
    if accepted then (heap, some p) else acceptResponse response now paths heap

/-- If this path is one we intend to migrate to, then migrate. -/
def reachTarget (now : ℕ) (path : PathRef) : Except Failure (Paths S T × Option PathRef) :=
  if s.migrationTarget = some path then do
    let (s, _) ← { s with migrationTarget := none }.selectPrimary path
    pure (s.startPmtud path now, some path)
  else .ok (s, none)

/-- A `PATH_RESPONSE` was received. Returns the new primary path if migration occurred. -/
def pathResponse (response : Bytes) (now : ℕ) : Except Failure (Paths S T × Option PathRef) :=
  match acceptResponse response now s.paths s.heap with
  | (heap, none) => .ok ({ s with heap := heap }, none)
  | (heap, some p) => { s with heap := heap }.reachTarget now p

/-- The paths, the store of connection IDs and what is kept of a list of paths. -/
structure Retirement (S T : Type) where
  heap : PathRef → Path S T
  store : ConnectionIdStore Srt
  migrationTarget : Option PathRef
  paths : List PathRef
  toRetire : List ℕ

/-- Replace the connection IDs of a list of paths that are prior to a sequence number. -/
def replaceCids (retirePrior : ℕ) : List PathRef → (PathRef → Path S T) → ConnectionIdStore Srt →
    Option PathRef → Except Failure (Retirement S T)
  | [], heap, store, target => .ok ⟨heap, store, target, [], []⟩
  | p :: paths, heap, store, target =>
    match (heap p).remoteCid with
    | none => do
      let rest ← replaceCids retirePrior paths heap store target
      pure { rest with paths := p :: rest.paths }
    | some current =>
      if current.seqno < retirePrior ∧ !current.cid.isEmpty then
        let (store, newCid) := store.next
        -- There must be a connection ID available for the primary path as we keep that path at the
        -- first index.
        if (heap p).primary ∧ newCid.isNone then .error .assertion
        else do
          let heap := Function.update heap p { heap p with remoteCid := newCid }
          let target := if newCid.isNone ∧ target = some p then none else target
          let rest ← replaceCids retirePrior paths heap store target
          pure { rest with
            paths := if newCid.isSome then p :: rest.paths else rest.paths
            toRetire := current.seqno :: rest.toRetire }
      else do
        let rest ← replaceCids retirePrior paths heap store target
        pure { rest with paths := p :: rest.paths }

/-- Retire all connection IDs prior to the sequence number. Keep active paths if possible by
pulling new connection IDs from the store. -/
def retireCids (retirePrior : ℕ) (store : ConnectionIdStore Srt) :
    Except Failure (Paths S T × ConnectionIdStore Srt) := do
  let (store, retired) := store.retirePriorTo retirePrior
  let r ← replaceCids retirePrior s.paths s.heap store s.migrationTarget
  pure ({ s with
    heap := r.heap
    paths := r.paths
    migrationTarget := r.migrationTarget
    toRetire := s.toRetire ++ retired ++ r.toRetire }, r.store)

/-- The number of connection IDs that were retired locally and whose `RETIRE_CONNECTION_ID` frames
were not yet acknowledged. -/
def retireQueueLen : ℕ := s.toRetire.length

end Paths

/-!
## Runs of the paths of a connection

What a connection does with its `Paths`, and how the paths take the connection IDs that the peer
provides in `NEW_CONNECTION_ID` frames.
-/

variable {S T : Type}

/-- An operation on the paths. -/
inductive PathsOp where
  | makePermanent (path : PathRef) (localCid : Option ConnectionId)
      (remoteCid : RemoteConnectionIdEntry)
  | migrate (path : PathRef) (force : Bool) (now : ℕ)
  /-- A packet that is not a probe is received on a path. -/
  | handleMigration (path : PathRef) (remote : SocketAddr) (now : ℕ)
  | pathResponse (response : Bytes) (now : ℕ)
  | processTimeout (now pto : ℕ)
  | retireCids (retirePrior : ℕ) (store : ConnectionIdStore Srt)
  /-- The probing frames of a path are written. -/
  | writeFrames (path : PathRef) (builder : Builder) (data : Bytes) (mtu : Bool) (now : ℕ)
  | challenged (path : PathRef) (challenge : Bytes)
  | setValid (path : PathRef) (now : ℕ)

/-- The path has not failed, and a probe not answered in time is not its last, with or without ECN
marks. If it is valid but not primary, it was validated recently. -/
def Path.lasts (p : Path S T) (now pto : ℕ) : Bool :=
  match p.state with
  | .failed => false
  | .probing probeCount _ _ sent =>
    now < sent + pto || probeCount + 1 < maxProbes || p.ecnInfo.isMarking
  | .valid => p.primary || p.validated.any fun validated => now < validated + 7 * pto
  | .probeNeeded _ => true

namespace Paths

def new (heap : PathRef → Path S T) (pmtud : Bool) : Paths S T := { heap := heap, pmtud := pmtud }

/-- One operation. `handleMigration` may only be called for a path for which `makePermanent` has
been called. -/
def apply (s : Paths S T) : PathsOp → Except Failure (Paths S T)
  | .makePermanent path localCid remoteCid => s.makePermanent path localCid remoteCid
  | .migrate path force now => (·.1) <$> s.migrate path force now
  | .handleMigration path remote now =>
    if s.isTemporary path then .error .assertion else s.handleMigration path remote now
  | .pathResponse response now => (·.1) <$> s.pathResponse response now
  | .processTimeout now pto => (·.1) <$> s.processTimeout now pto
  | .retireCids retirePrior store => (·.1) <$> s.retireCids retirePrior store
  | .writeFrames path builder data mtu now =>
    .ok (s.modify path fun p => (p.writeFrames builder data mtu now).1)
  | .challenged path challenge => .ok (s.modify path fun p => p.challenged challenge)
  | .setValid path now => .ok (s.modify path fun p => p.setValid now)

/-- One operation of a run. Nothing comes of an operation in which an assertion fails. -/
def step (s : Paths S T) (op : PathsOp) : Paths S T :=
  match s.apply op with
  | .ok s' => s'
  | .error _ => s

def run (s : Paths S T) (ops : List PathsOp) : Paths S T := ops.foldl step s

/-- When time elapses, the migration target still has a probe left or was validated recently, and a
path that becomes permanent is not marked as primary, as one that was dropped might be. -/
def KeepsTarget (s : Paths S T) : PathsOp → Prop
  | .makePermanent path _ _ => (s.heap path).primary = false
  | .processTimeout now pto =>
    ∀ target ∈ s.migrationTarget, (s.heap target).lasts now pto = true
  | _ => True

instance (s : Paths S T) : (op : PathsOp) → Decidable (s.KeepsTarget op)
  | .makePermanent path _ _ => inferInstanceAs (Decidable ((s.heap path).primary = false))
  | .processTimeout now pto =>
    inferInstanceAs (Decidable (∀ target ∈ s.migrationTarget, (s.heap target).lasts now pto = true))
  | .migrate _ _ _ | .handleMigration _ _ _ | .pathResponse _ _ | .retireCids _ _
  | .writeFrames _ _ _ _ _ | .challenged _ _ | .setValid _ _ => isTrue trivial

end Paths

/-! ### Connection IDs of the peer -/

/-- A `NEW_CONNECTION_ID` frame. -/
structure NewConnectionId where
  sequenceNumber : ℕ
  connectionId : ConnectionId
  statelessResetToken : Srt
  retirePrior : ℕ
  retirePrior_le : retirePrior ≤ sequenceNumber := by decide
  /-- The sequence number is a QUIC varint. -/
  sequenceNumber_lt : sequenceNumber < 2 ^ 62 := by decide

/-- The part of a connection that deals with the connection IDs of the peer. -/
structure PeerCids (S T : Type) where
  paths : Paths S T
  cids : ConnectionIdStore Srt := {}
  /-- The largest Retire Prior To that was received. This is not in the source. -/
  largestRetirePrior : ℕ := 0

namespace PeerCids

/-- Handle a `NEW_CONNECTION_ID` frame. -/
def newConnectionId (c : PeerCids S T) (frame : NewConnectionId) : Except Failure (PeerCids S T) :=
  match c.cids.addRemote
    ⟨frame.sequenceNumber, frame.connectionId, frame.statelessResetToken⟩ with
  | (_, .error e) => .error (.error e)
  | (cids, .ok ()) =>
    match c.paths.retireCids frame.retirePrior cids with
    | .error e => .error e
    | .ok (paths, cids) =>
      if cids.len ≥ ConnectionIdManager.activeLimit then .error (.error .connectionIdLimitExceeded)
      else if paths.retireQueueLen > ConnectionIdManager.maxRetireQueue then
        .error (.error .connectionIdLimitExceeded)
      else
        .ok { paths := paths
              cids := cids
              largestRetirePrior := max c.largestRetirePrior frame.retirePrior }

/-- If the path isn't permanent, assign it a connection ID to make it so. -/
def ensurePermanent (c : PeerCids S T) (path : PathRef) (srt : Srt) :
    Except Failure (PeerCids S T) :=
  if c.paths.isTemporary path then
    match c.cids.next with
    | (cids, some cid) => do
      let paths ← c.paths.makePermanent path none cid
      pure { c with paths := paths, cids := cids }
    | (_, none) =>
      match c.paths.primary with
      | none => .error (.error .invalidMigration)
      | some primary =>
        if (c.paths.heap primary).remoteCid.all fun e => e.cid.isEmpty then do
          let paths ← c.paths.makePermanent path none (.emptyRemote srt)
          pure { c with paths := paths }
        else .error (.error .invalidMigration)
  else .ok c

end PeerCids

/-- An operation on the paths and the connection IDs of the peer. -/
inductive PeerCidsOp where
  | newConnectionId (frame : NewConnectionId)
  | ensurePermanent (path : PathRef) (srt : Srt)
  | migrate (path : PathRef) (force : Bool) (now : ℕ)
  | handleMigration (path : PathRef) (remote : SocketAddr) (now : ℕ)
  | pathResponse (response : Bytes) (now : ℕ)
  | processTimeout (now pto : ℕ)
  /-- The probing frames of a path are written. -/
  | writeFrames (path : PathRef) (builder : Builder) (data : Bytes) (mtu : Bool) (now : ℕ)
  /-- A `RETIRE_CONNECTION_ID` frame was written or acknowledged. -/
  | retired (seqno : ℕ)
  /-- A `RETIRE_CONNECTION_ID` frame was lost. -/
  | lostRetireCid (seqno : ℕ)

namespace PeerCids

/-- The start, when no frame has been received. -/
def start (paths : Paths S T) : PeerCids S T := { paths := paths }

variable (c : PeerCids S T)

/-- An operation on the paths that leaves the connection IDs alone. -/
def onPaths (op : PathsOp) : Except Failure (PeerCids S T) := do
  let paths ← c.paths.apply op
  pure { c with paths := paths }

def apply : PeerCidsOp → Except Failure (PeerCids S T)
  | .newConnectionId frame => c.newConnectionId frame
  | .ensurePermanent path srt => c.ensurePermanent path srt
  | .migrate path force now => c.onPaths (.migrate path force now)
  | .handleMigration path remote now => c.onPaths (.handleMigration path remote now)
  | .pathResponse response now => c.onPaths (.pathResponse response now)
  | .processTimeout now pto => c.onPaths (.processTimeout now pto)
  | .writeFrames path builder data mtu now => c.onPaths (.writeFrames path builder data mtu now)
  | .retired seqno =>
    .ok { c with paths.toRetire := c.paths.toRetire.filter fun n => n ≠ seqno }
  | .lostRetireCid seqno => .ok { c with paths.toRetire := c.paths.toRetire ++ [seqno] }

/-- One operation of a run. Nothing comes of an operation that fails. -/
def step (op : PeerCidsOp) : PeerCids S T :=
  match c.apply op with
  | .ok c' => c'
  | .error _ => c

def run (ops : List PeerCidsOp) : PeerCids S T := ops.foldl step c

/-- No frame arrives with a sequence number below the largest Retire Prior To so far. -/
def NotRetired : PeerCidsOp → Prop
  | .newConnectionId frame => c.largestRetirePrior ≤ frame.sequenceNumber
  | _ => True

instance (c : PeerCids S T) : (op : PeerCidsOp) → Decidable (c.NotRetired op)
  | .newConnectionId frame =>
    inferInstanceAs (Decidable (c.largestRetirePrior ≤ frame.sequenceNumber))
  | .ensurePermanent _ _ | .migrate _ _ _ | .handleMigration _ _ _ | .pathResponse _ _
  | .processTimeout _ _ | .writeFrames _ _ _ _ _ | .retired _ | .lostRetireCid _ => isTrue trivial

/-- No connection ID that should have been retired is in the store or is used on a path. -/
def HonoursRetirePrior : Prop :=
  (∀ e ∈ c.cids.cids, e.cid.isEmpty = false → c.largestRetirePrior ≤ e.seqno) ∧
    ∀ path ∈ c.paths.paths, ∀ e, (c.paths.heap path).remoteCid = some e →
      e.cid.isEmpty = false → c.largestRetirePrior ≤ e.seqno

end PeerCids

end Neqo
