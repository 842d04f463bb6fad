import Neqo.Basic
import Neqo.Util.Bisection
import Neqo.Util.Run

/-!
# Connection IDs

* `ConnectionIdStore` — those that the peer has provided and no path uses yet.
* `ConnectionIdManager` — those that we accept, and the `NEW_CONNECTION_ID` frames that announce
  them.
-/

namespace Neqo

/-- The maximum length of a connection ID. -/
def maxConnectionIdLen : ℕ := 20

/-- A connection ID. -/
structure ConnectionId where
  cid : Bytes
  length_le : cid.length ≤ maxConnectionIdLen := by decide
  deriving DecidableEq, Repr

def ConnectionId.isEmpty (c : ConnectionId) : Bool := c.cid.isEmpty

/-- The length of a stateless reset token. -/
def srtLen : ℕ := 16

/-- A stateless reset token. -/
structure Srt where
  token : Bytes
  length_eq : token.length = srtLen := by decide
  deriving DecidableEq, Repr

namespace ConnectionIdManager

def activeLimit : ℕ := 8

/-- The maximum number of connection IDs that may be pending retirement. -/
def maxRetireQueue : ℕ := 2 * activeLimit

/-- A special value. See `addOdcid`. -/
def seqnoOdcid : ℕ := 2 ^ 64 - 1

/-- A special value. See `ConnectionIdEntry.emptyRemote`. -/
def seqnoEmpty : ℕ := 2 ^ 64 - 2

def seqnoPreferred : ℕ := 1

end ConnectionIdManager

/-! ### Entries -/

/-- A single connection ID, saved with a stateless reset token if it is from a peer. -/
structure ConnectionIdEntry (σ : Type) where
  seqno : ℕ
  cid : ConnectionId
  srt : σ
  deriving DecidableEq, Repr

/-- A connection ID of the peer. -/
abbrev RemoteConnectionIdEntry := ConnectionIdEntry Srt

namespace ConnectionIdEntry

/-- An entry for when the peer chooses empty connection IDs. -/
def emptyRemote (srt : Srt) : RemoteConnectionIdEntry :=
  { seqno := ConnectionIdManager.seqnoEmpty, cid := { cid := [] }, srt := srt }

variable (e : RemoteConnectionIdEntry)

def isEmpty : Bool :=
  e.seqno = ConnectionIdManager.seqnoEmpty || e.cid.isEmpty

/-- Whether the two contain any equal parts. -/
def anyPartEqual (other : RemoteConnectionIdEntry) : Bool :=
  e.seqno = other.seqno || e.cid = other.cid || e.srt = other.srt

/-- The content of a `NEW_CONNECTION_ID` frame. -/
def frameContent : Bytes :=
  Encoder.encodeVarint e.seqno ++ Encoder.encodeVarint 0 ++
    (Encoder.toBeBytes 1 e.cid.cid.length ++ e.cid.cid) ++ e.srt.token

/-- The `NEW_CONNECTION_ID` frame for an entry. -/
def frame : Bytes :=
  Encoder.encodeVarint FrameType.newConnectionId.toNat ++ e.frameContent

/-- Write the entry out in a `NEW_CONNECTION_ID` frame, if there is space. -/
def write (builder : Builder) : Builder × Bool :=
  let len := 1 + Encoder.varintLen e.seqno + 1 + 1 + e.cid.cid.length + srtLen
  if builder.remaining < len then (builder, false)
  else (builder.encodeFrame .newConnectionId e.frameContent, true)

end ConnectionIdEntry

/-! ### Connection IDs of the peer -/

/-- A collection of connection IDs, in the order of their sequence numbers. -/
structure ConnectionIdStore (σ : Type) where
  cids : List (ConnectionIdEntry σ) := []
  deriving DecidableEq, Repr

namespace ConnectionIdStore

variable {σ : Type}

variable (s : ConnectionIdStore σ)

def retire (seqno : ℕ) : ConnectionIdStore σ :=
  { cids := s.cids.filter fun c => c.seqno ≠ seqno }

def next : ConnectionIdStore σ × Option (ConnectionIdEntry σ) :=
  match s.cids with
  | [] => (s, none)
  | c :: cids => ({ cids := cids }, some c)

def len : ℕ := s.cids.length

def addLocal (s : ConnectionIdStore Unit) (entry : ConnectionIdEntry Unit) :
    ConnectionIdStore Unit :=
  { cids := s.cids ++ [entry] }

/-- Add a connection ID of the peer. -/
def addRemote (s : ConnectionIdStore Srt) (entry : RemoteConnectionIdEntry) :
    ConnectionIdStore Srt × Res :=
  -- It's OK if this perfectly matches an existing entry.
  if s.cids.any fun c => c = entry then (s, .ok ())
  -- It's not OK if any individual piece matches though.
  else if s.cids.any fun c => c.anyPartEqual entry then (s, .error .protocolViolation)
  else
    -- Insert in order so that we use them in order where possible.
    let idx := PartitionPoint.partitionPoint (fun c => c.seqno < entry.seqno) s.cids
    match s.cids.drop idx with
    | [] => ({ cids := s.cids.take idx ++ [entry] }, .ok ())
    | c :: after =>
      if c.seqno = entry.seqno then (s, .error .protocolViolation)
      else ({ cids := s.cids.take idx ++ entry :: c :: after }, .ok ())

/-- Retire connection IDs and return the sequence numbers of those that were retired. -/
def retirePriorTo (s : ConnectionIdStore Srt) (retirePrior : ℕ) : ConnectionIdStore Srt × List ℕ :=
  let retires (e : RemoteConnectionIdEntry) : Bool := !e.isEmpty && e.seqno < retirePrior
  ({ cids := s.cids.filter fun e => !retires e }, (s.cids.filter retires).map (·.seqno))

end ConnectionIdStore

/-! ### Our connection IDs -/

/-- A connection ID and a stateless reset token that were generated. A generator whose connection
IDs are not all zero-length never produces an empty one. -/
structure GeneratedCid where
  cid : ConnectionId
  srt : Srt
  isEmpty_eq : cid.isEmpty = false := by decide
  deriving DecidableEq, Repr

/-- The connection IDs that this endpoint has issued. -/
structure ConnectionIdManager where
  /-- Whether the generator of connection IDs only makes empty ones. -/
  generatesEmptyCids : Bool := false
  /-- The connection IDs that we will accept. -/
  connectionIds : ConnectionIdStore Unit
  /-- The maximum number of connection IDs this will accept. -/
  limit : ℕ := 2
  /-- The next sequence number that will be used for sending `NEW_CONNECTION_ID` frames. -/
  nextSeqno : ℕ := 1
  /-- Outstanding, but lost `NEW_CONNECTION_ID` frames. -/
  lostNewConnectionId : List RemoteConnectionIdEntry := []
  deriving DecidableEq, Repr

namespace ConnectionIdManager

def new (generatesEmptyCids : Bool) (initial : ConnectionId) : ConnectionIdManager :=
  { generatesEmptyCids := generatesEmptyCids
    connectionIds := ({} : ConnectionIdStore Unit).addLocal ⟨0, initial, ()⟩ }

variable (m : ConnectionIdManager)

/-- Generate a connection ID and stateless reset token for a preferred address; `none` is a
generator that is exhausted. -/
def preferredAddressCid (generated : Option GeneratedCid) :
    ConnectionIdManager × Except Failure (ConnectionId × Srt) :=
  if m.generatesEmptyCids then (m, .error (.error .connectionIdsExhausted))
  else
    match generated with
    | none => (m, .error (.error .connectionIdsExhausted))
    | some generated =>
      if m.nextSeqno ≠ seqnoPreferred then (m, .error .assertion)
      else
        ({ m with
          connectionIds := m.connectionIds.addLocal ⟨m.nextSeqno, generated.cid, ()⟩
          nextSeqno := m.nextSeqno + 1 }, .ok (generated.cid, generated.srt))

/-- Whether the connection ID with this sequence number is zero-length. -/
def emptyCid (seqno : ℕ) : Bool :=
  seqno = seqnoEmpty || m.connectionIds.cids.any fun c => c.seqno = seqno && c.cid.isEmpty

/-- Handle a `RETIRE_CONNECTION_ID` frame. -/
def retire (seqno : ℕ) : ConnectionIdManager × Res :=
  -- A sequence number greater than any we have issued is a connection error.
  if seqno ≥ m.nextSeqno then (m, .error .protocolViolation)
  else if m.emptyCid seqno then (m, .ok ())
  else
    ({ m with
      connectionIds := m.connectionIds.retire seqno
      lostNewConnectionId := m.lostNewConnectionId.filter fun cid => cid.seqno ≠ seqno }, .ok ())

/-- During the handshake, a server regards the client's choice of destination connection ID as
valid. -/
def addOdcid (cid : ConnectionId) : ConnectionIdManager :=
  { m with connectionIds := m.connectionIds.addLocal ⟨seqnoOdcid, cid, ()⟩ }

/-- Stop treating the original destination connection ID as valid. -/
def removeOdcid : ConnectionIdManager :=
  { m with connectionIds := m.connectionIds.retire seqnoOdcid }

def setLimit (limit : ℕ) : Except Failure ConnectionIdManager :=
  if limit < 2 then .error .assertion else .ok { m with limit := min activeLimit limit }

/-- Write frames that were lost, from the last, while there is space. Returns those that were not
written, from the last, and those that were. -/
def writeLost : List RemoteConnectionIdEntry → Builder →
    List RemoteConnectionIdEntry × Builder × List RemoteConnectionIdEntry
  | [], builder => ([], builder, [])
  | entry :: lost, builder =>
    match entry.write builder with
    | (builder, false) => (entry :: lost, builder, [])
    | (builder, true) =>
      let (lost, builder, tokens) := writeLost lost builder
      (lost, builder, entry :: tokens)

/-- Write frames for new connection IDs while there are fewer than the limit and there is room. The
generator may run out of connection IDs. -/
def writeNew : List GeneratedCid → ConnectionIdManager → Builder →
    ConnectionIdManager × Builder × List RemoteConnectionIdEntry
  | [], m, builder => (m, builder, [])
  | generated :: rest, m, builder =>
    if m.connectionIds.len < m.limit ∧ builder.remaining ≥ 47 then
      let entry : RemoteConnectionIdEntry := ⟨m.nextSeqno, generated.cid, generated.srt⟩
      let m := { m with
        nextSeqno := m.nextSeqno + 1
        connectionIds := m.connectionIds.addLocal ⟨m.nextSeqno, generated.cid, ()⟩ }
      let (m, builder, tokens) := writeNew rest m (entry.write builder).1
      (m, builder, entry :: tokens)
    else (m, builder, [])

/-- Write `NEW_CONNECTION_ID` frames. Returns the tokens for the frames that were written. -/
def writeFrames (builder : Builder) (generated : List GeneratedCid) :
    ConnectionIdManager × Builder × List RemoteConnectionIdEntry :=
  if m.generatesEmptyCids then (m, builder, [])
  else
    let (lost, builder, resent) := writeLost m.lostNewConnectionId.reverse builder
    let (m, builder, issued) :=
      writeNew generated { m with lostNewConnectionId := lost.reverse } builder
    (m, builder, resent ++ issued)

def lost (entry : RemoteConnectionIdEntry) : ConnectionIdManager :=
  { m with lostNewConnectionId := m.lostNewConnectionId ++ [entry] }

def acked (entry : RemoteConnectionIdEntry) : ConnectionIdManager :=
  { m with lostNewConnectionId := m.lostNewConnectionId.filter fun e => e.seqno ≠ entry.seqno }

end ConnectionIdManager

/-!
## Runs over connection IDs

What a connection does with its `ConnectionIdManager`, and what happens to the peer's connection IDs
in a `ConnectionIdStore`, with a record of what was announced, retired or used.
-/

/-! ### Announcing connection IDs -/

/-- The manager and what has happened to the connection IDs that it issued. -/
structure ManagerRun where
  manager : ConnectionIdManager
  /-- The tokens of all `NEW_CONNECTION_ID` frames that were written. -/
  issued : List RemoteConnectionIdEntry := []
  /-- The sequence numbers for which `retire` has succeeded and whose connection ID is not
  zero-length. -/
  retired : List ℕ := []
  deriving DecidableEq, Repr

/-- An operation on the IDs that were issued. -/
inductive ManagerOp where
  | writeFrames (builder : Builder) (generated : List GeneratedCid)
  /-- A `RETIRE_CONNECTION_ID` frame is received. -/
  | retire (seqno : ℕ)
  | lost (entry : RemoteConnectionIdEntry)
  | acked (entry : RemoteConnectionIdEntry)
  | preferredAddressCid (generated : Option GeneratedCid)
  | addOdcid (cid : ConnectionId)
  | removeOdcid
  | setLimit (limit : ℕ)

namespace ManagerRun

def start (generatesEmptyCids : Bool) (initial : ConnectionId) : ManagerRun :=
  { manager := .new generatesEmptyCids initial }

variable (r : ManagerRun)

/-- One operation. An operation that fails leaves things as they are. -/
def step : ManagerOp → ManagerRun
  | .writeFrames builder generated =>
    let (manager, _, tokens) := r.manager.writeFrames builder generated
    { r with manager := manager, issued := r.issued ++ tokens }
  | .retire seqno =>
    match r.manager.retire seqno with
    | (manager, .ok ()) =>
      { r with
        manager := manager
        retired := if r.manager.emptyCid seqno then r.retired else seqno :: r.retired }
    | (manager, .error _) => { r with manager := manager }
  | .lost entry => { r with manager := r.manager.lost entry }
  | .acked entry => { r with manager := r.manager.acked entry }
  | .preferredAddressCid generated =>
    { r with manager := (r.manager.preferredAddressCid generated).1 }
  | .addOdcid cid => { r with manager := r.manager.addOdcid cid }
  | .removeOdcid => { r with manager := r.manager.removeOdcid }
  | .setLimit limit =>
    match r.manager.setLimit limit with
    | .ok manager => { r with manager := manager }
    | .error _ => r

def run (ops : List ManagerOp) : ManagerRun := ops.foldl step r

/-- Loss and acknowledgement are only reported for frames that were written. -/
def Reported : ManagerOp → Prop
  | .lost entry | .acked entry => entry ∈ r.issued
  | _ => True

/-- The loss of a frame is not reported after its connection ID was retired. -/
def LostInTime : ManagerOp → Prop
  | .lost entry => entry.seqno ∉ r.retired
  | _ => True

instance (r : ManagerRun) : (op : ManagerOp) → Decidable (r.Reported op)
  | .lost entry | .acked entry => inferInstanceAs (Decidable (entry ∈ r.issued))
  | .writeFrames _ _ | .retire _ | .preferredAddressCid _ | .addOdcid _ | .removeOdcid
  | .setLimit _ => isTrue trivial

instance (r : ManagerRun) : (op : ManagerOp) → Decidable (r.LostInTime op)
  | .lost entry => inferInstanceAs (Decidable (entry.seqno ∉ r.retired))
  | .acked _ | .writeFrames _ _ | .retire _ | .preferredAddressCid _ | .addOdcid _ | .removeOdcid
  | .setLimit _ => isTrue trivial

end ManagerRun

/-! ### Using connection IDs of the peer -/

/-- The connection IDs that are available and those that were handed out, in order. -/
structure StoreRun where
  store : ConnectionIdStore Srt := {}
  handedOut : List RemoteConnectionIdEntry := []
  deriving DecidableEq, Repr

/-- An operation on the IDs of the peer. -/
inductive StoreOp where
  /-- A `NEW_CONNECTION_ID` frame is received. -/
  | addRemote (entry : RemoteConnectionIdEntry)
  /-- A path takes a connection ID. -/
  | next
  | retire (seqno : ℕ)
  | retirePriorTo (retirePrior : ℕ)
  deriving DecidableEq, Repr

namespace StoreRun

def step (r : StoreRun) : StoreOp → StoreRun
  | .addRemote entry => { r with store := (r.store.addRemote entry).1 }
  | .next =>
    let (store, entry) := r.store.next
    { store := store, handedOut := r.handedOut ++ entry.toList }
  | .retire seqno => { r with store := r.store.retire seqno }
  | .retirePriorTo retirePrior => { r with store := (r.store.retirePriorTo retirePrior).1 }

def run (r : StoreRun) (ops : List StoreOp) : StoreRun := ops.foldl step r

/-- No frame arrives again after its sequence number was handed out. -/
def NotHandedOut (r : StoreRun) : StoreOp → Prop
  | .addRemote entry => entry.seqno ∉ r.handedOut.map (·.seqno)
  | _ => True

instance (r : StoreRun) : (op : StoreOp) → Decidable (r.NotHandedOut op)
  | .addRemote entry => inferInstanceAs (Decidable (entry.seqno ∉ r.handedOut.map (·.seqno)))
  | .next | .retire _ | .retirePriorTo _ => isTrue trivial

end StoreRun

end Neqo
