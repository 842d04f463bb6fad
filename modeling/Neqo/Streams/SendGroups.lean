import Neqo.Streams.Basic
import Neqo.Util.Bisection

/-!
# Send groups

Streams with fairness are sent in turn. Each is in the queue of its send group and its send order;
streams that were not assigned to a send group are in the queues of `nullGroupId`.

This is the part of `SendStreams` that schedules its streams: what each stream has recorded about
its scheduling, and the queues. The cursors of the iterations over the queues are only kept as far
as changes of the queues reset them.
-/

namespace Neqo

/-- Streams with a higher send order come first. -/
abbrev SendOrder := ℤ

/-- Identifier for a send group, unique within a connection. -/
structure SendGroupId where
  asU64 : ℕ
  deriving DecidableEq, Repr

/-- The send group of streams that have not been assigned to one. -/
def nullGroupId : SendGroupId := ⟨0⟩

/-! ### Queues -/

/-- The streams of one send order, sorted by stream ID. -/
structure OrderGroup where
  vec : List StreamId := []
  deriving DecidableEq, Repr

namespace OrderGroup

variable (g : OrderGroup)

def push (id : StreamId) : OrderGroup := { g with vec := g.vec ++ [id] }

/-- Panics if the stream ID is already present. -/
def insert (id : StreamId) : Except Failure OrderGroup :=
  match BinarySearch.binarySearch g.vec id with
  | .ok _ => .error .assertion
  | .error pos => .ok { g with vec := BinarySearch.insertAt g.vec pos id }

/-- Panics if the stream ID is not present. -/
def remove (id : StreamId) : Except Failure OrderGroup :=
  match BinarySearch.binarySearch g.vec id with
  | .ok pos => .ok { g with vec := g.vec.eraseIdx pos }
  | .error _ => .error .assertion

/-- Try to insert at the end, and if not fall back to binary-search insertion. -/
def append (id : StreamId) : Except Failure OrderGroup :=
  if g.vec.getLast?.any fun last => last < id then .ok (g.push id) else g.insert id

end OrderGroup

/-- Per-send-group scheduling queues. Streams in a send group use their own send order
namespace. -/
structure PerGroupQueues where
  sendordered : OrdMap SendOrder OrderGroup := .empty
  regular : OrderGroup := {}

namespace PerGroupQueues

variable (q : PerGroupQueues)

/-- The queue for a send order. -/
def group : Option SendOrder → OrderGroup
  | some order => (q.sendordered.get? order).getD {}
  | none => q.regular

/-- Change the queue for a send order, which is created if it does not exist yet. -/
def modifyGroup (sendorder : Option SendOrder)
    (f : OrderGroup → Except Failure OrderGroup) : Except Failure PerGroupQueues := do
  let grp ← f (q.group sendorder)
  match sendorder with
  | some order => .ok { q with sendordered := q.sendordered.insert order grp }
  | none => .ok { q with regular := grp }

def removeStream (id : StreamId) (sendorder : Option SendOrder) : Except Failure PerGroupQueues :=
  match sendorder with
  | some order =>
    match q.sendordered.get? order with
    | none => .ok q
    | some grp => do
      let grp ← grp.remove id
      if grp.vec.isEmpty then .ok { q with sendordered := q.sendordered.remove order }
      else .ok { q with sendordered := q.sendordered.insert order grp }
  | none => do
    let grp ← q.regular.remove id
    .ok { q with regular := grp }

def isEmpty : Bool := q.regular.vec.isEmpty && q.sendordered.entries.isEmpty

end PerGroupQueues

/-! ### Streams -/

/-- A stream with what it has recorded about its scheduling. -/
structure ScheduledStream where
  stream : SendStream
  sendorder : Option SendOrder := none
  fair : Bool := false
  sendGroup : Option SendGroupId := none

namespace ScheduledStream

/-- The group in whose queues the stream is if it is fair. -/
def groupId (s : ScheduledStream) : SendGroupId := s.sendGroup.getD nullGroupId

end ScheduledStream

/-- The streams and their queues. -/
structure ScheduledStreams where
  map : IndexMap StreamId ScheduledStream := .empty
  /-- Set when any stream has ended; cleared by `removeEnded`. -/
  hasEnded : Bool := false
  perGroup : IndexMap SendGroupId PerGroupQueues := .empty
  /-- Round-robin cursor over the groups. -/
  perGroupNext : ℕ := 0
  /-- Round-robin cursor over the streams. -/
  fairRrNext : ℕ := 0

namespace ScheduledStreams

variable (ss : ScheduledStreams) (id : StreamId)

def insert (stream : SendStream) : ScheduledStreams :=
  { ss with map := ss.map.insert id { stream := stream } }

/-- Change what is recorded for a stream, if it is there. -/
def modify (f : ScheduledStream → ScheduledStream) : ScheduledStreams :=
  match ss.map.get? id with
  | some s => { ss with map := ss.map.insert id (f s) }
  | none => ss

variable (gid : SendGroupId)

/-- Change a queue of a group, which is created if it does not exist yet. -/
def modifyGroup (sendorder : Option SendOrder)
    (f : OrderGroup → Except Failure OrderGroup) : Except Failure ScheduledStreams := do
  let queues ← ((ss.perGroup.get? gid).getD {}).modifyGroup sendorder f
  .ok { ss with perGroup := ss.perGroup.insert gid queues }

/-- Insert a stream into a group's queue for a send order. -/
def insertIntoGroup (id : StreamId)
    (sendorder : Option SendOrder) : Except Failure ScheduledStreams :=
  ss.modifyGroup gid sendorder fun grp => grp.insert id

/-- Remove a stream from a group's queue, if there is such a group. -/
def removeStream (id : StreamId) (sendorder : Option SendOrder) : Except Failure ScheduledStreams :=
  match ss.perGroup.get? gid with
  | none => .ok ss
  | some queues => do
    let queues ← queues.removeStream id sendorder
    .ok { ss with perGroup := ss.perGroup.insert gid queues }

/-- Drop a group if it is empty, and keep the round-robin cursor in bounds. -/
def dropIfEmpty : ScheduledStreams :=
  match ss.perGroup.get? gid with
  | none => ss
  | some queues =>
    if queues.isEmpty then
      let perGroup := ss.perGroup.remove gid
      { ss with
        perGroup := perGroup
        perGroupNext := if ss.perGroupNext ≥ perGroup.len then 0 else ss.perGroupNext }
    else ss

/-- Remove a stream from a group, dropping the group once it becomes empty. -/
def removeFromGroup (id : StreamId)
    (sendorder : Option SendOrder) : Except Failure ScheduledStreams := do
  let ss ← ss.removeStream gid id sendorder
  .ok (ss.dropIfEmpty gid)

/-- The group in whose queues a stream is, or would be with the given send group. -/
def queueOf (fair : Bool) (sendGroup : Option SendGroupId) : Option SendGroupId :=
  sendGroup.or (if fair then some nullGroupId else none)

variable (s : ScheduledStream)

/-- Remove a stream from its current location. -/
def leaveGroup : Except Failure ScheduledStreams :=
  match queueOf s.fair s.sendGroup with
  | some gid => ss.removeFromGroup gid id s.sendorder
  | none => .ok ss

variable (groupId : Option SendGroupId)

/-- Insert a stream into its new location. -/
def joinGroup : Except Failure ScheduledStreams :=
  match queueOf s.fair groupId with
  | some gid => ss.insertIntoGroup gid id s.sendorder
  | none => .ok ss

/-- Move a stream to another send group. -/
def changeGroup : Except Failure ScheduledStreams := do
  let ss ← ss.leaveGroup id s
  (ss.modify id fun s => { s with sendGroup := groupId }).joinGroup id s groupId

/-- Assign a stream to a send group, or pass `none` to move it back to the ungrouped queues. -/
def setSendgroup : Except Failure ScheduledStreams :=
  match ss.map.get? id with
  | none => .error (.error .invalidStreamId)
  | some s =>
    -- This is the internal sentinel for ungrouped fair streams.
    if groupId = some nullGroupId then .error (.error .invalidInput)
    else if s.sendGroup = groupId then .ok ss
    -- A send group only applies to fair streams.
    else if groupId.isSome && !s.fair then .error (.error .invalidInput)
    else ss.changeGroup id s groupId

def setFairness (makeFair : Bool) : Except Failure ScheduledStreams :=
  match ss.map.get? id with
  | none => .error (.error .invalidStreamId)
  | some s =>
    let ss := ss.modify id fun s => { s with fair := makeFair }
    if !s.fair && makeFair then
      -- Streams with a send group are managed by `setSendgroup`.
      if s.sendGroup.isNone then ss.modifyGroup nullGroupId s.sendorder fun grp => grp.append id
      else .ok ss
    else if s.fair && !makeFair then do
      let ss ← ss.removeFromGroup s.groupId id s.sendorder
      -- A send group applies only to fair streams.
      .ok (ss.modify id fun s => { s with sendGroup := none })
    else .ok ss

/-- Move a stream between the queues of its group. -/
def changeOrder (sendorder : Option SendOrder) : Except Failure ScheduledStreams := do
  let ss ← ss.removeStream s.groupId id s.sendorder
  (ss.modify id fun s => { s with sendorder := sendorder }).insertIntoGroup s.groupId id sendorder

def setSendorder (sendorder : Option SendOrder) : Except Failure ScheduledStreams := do
  let ss ← ss.setFairness id true
  match ss.map.get? id with
  | none => .error (.error .invalidStreamId)
  | some s => if s.sendorder ≠ sendorder then ss.changeOrder id s sendorder else .ok ss

/-- Change a stream and note whether it has ended. -/
def modifyNoting (f : SendStream → SendStream) : ScheduledStreams :=
  match ss.map.get? id with
  | some s =>
    { ss with
      map := ss.map.insert id { s with stream := f s.stream }
      hasEnded := ss.hasEnded || (f s.stream).isEnded }
  | none => ss

def acked (token : RecoveryToken) : ScheduledStreams :=
  ss.modifyNoting token.id fun s => s.markAsAcked token.offset token.length token.fin

def resetAcked : ScheduledStreams :=
  ss.modifyNoting id SendStream.resetAcked

/-- Take a stream out of its queue. -/
def takeOut : Except Failure ScheduledStreams :=
  if s.fair then ss.removeStream s.groupId id s.sendorder else .ok ss

/-- Take streams that have ended out of their queues. -/
def takeOutAll (ss : ScheduledStreams) : List (StreamId × ScheduledStream) →
    Except Failure ScheduledStreams
  | [] => .ok ss
  | (id, s) :: ended => do
    let ss ← ss.takeOut id s
    takeOutAll ss ended

/-- Remove ended streams. Returns `true` if any were removed. -/
def removeEnded : Except Failure (ScheduledStreams × Bool) :=
  if !ss.hasEnded then .ok (ss, false)
  else do
    let ended := ss.map.entries.filter fun e => e.2.stream.isEnded
    let map := ss.map.retain fun _ s => !s.stream.isEnded
    let ss ← { ss with map := map, hasEnded := false }.takeOutAll ended
    let perGroup := ss.perGroup.retain fun _ queues => !queues.isEmpty
    .ok ({ ss with
        perGroup := perGroup
        perGroupNext := if ss.perGroupNext ≥ perGroup.len then 0 else ss.perGroupNext
        fairRrNext := if ss.fairRrNext ≥ map.len then 0 else ss.fairRrNext }, !ended.isEmpty)

end ScheduledStreams

/-! ### Runs -/

/-- What is done with streams. `update` is any change of a stream by sending, by losses or by flow
control. -/
inductive ScheduleOp where
  | insert (id : StreamId) (stream : SendStream)
  | update (id : StreamId) (stream : SendStream)
  | setFairness (id : StreamId) (makeFair : Bool)
  | setSendorder (id : StreamId) (sendorder : Option SendOrder)
  | setSendgroup (id : StreamId) (groupId : Option SendGroupId)
  | acked (token : RecoveryToken)
  | resetAcked (id : StreamId)
  | removeEnded

namespace ScheduledStreams

def apply (ss : ScheduledStreams) : ScheduleOp → Except Failure ScheduledStreams
  | .insert id stream => .ok (ss.insert id stream)
  | .update id stream => .ok (ss.modify id fun s => { s with stream := stream })
  | .setFairness id makeFair => ss.setFairness id makeFair
  | .setSendorder id sendorder => ss.setSendorder id sendorder
  | .setSendgroup id groupId => ss.setSendgroup id groupId
  | .acked token => .ok (ss.acked token)
  | .resetAcked id => .ok (ss.resetAcked id)
  | .removeEnded => Prod.fst <$> ss.removeEnded

end ScheduledStreams

/-- The streams, and whether a panic was reached. -/
structure ScheduleRun where
  streams : ScheduledStreams := {}
  panicked : Bool := false

namespace ScheduleRun

/-- An operation that returns an error leaves the streams as they were. -/
def step (r : ScheduleRun) (op : ScheduleOp) : ScheduleRun :=
  if r.panicked then r
  else
    match r.streams.apply op with
    | .ok ss => { streams := ss }
    | .error (.error _) => r
    | .error .assertion => { r with panicked := true }

/-- Streams that are inserted have a new ID. -/
def NewId (r : ScheduleRun) : ScheduleOp → Prop
  | .insert id _ => r.streams.map.containsKey id = false
  | _ => True

instance (r : ScheduleRun) : (op : ScheduleOp) → Decidable (r.NewId op)
  | .insert id _ => inferInstanceAs (Decidable (r.streams.map.containsKey id = false))
  | .update _ _ => isTrue trivial
  | .setFairness _ _ => isTrue trivial
  | .setSendorder _ _ => isTrue trivial
  | .setSendgroup _ _ => isTrue trivial
  | .acked _ => isTrue trivial
  | .resetAcked _ => isTrue trivial
  | .removeEnded => isTrue trivial

def run (r : ScheduleRun) (ops : List ScheduleOp) : ScheduleRun := ops.foldl step r

end ScheduleRun

end Neqo
