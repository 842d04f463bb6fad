import Mathlib.Data.PNat.Basic
import Mathlib.Data.Prod.Lex
import Neqo.Rtt
import Neqo.Streams.SendGroups

/-!
# The queue of outgoing datagrams of a session

Datagrams wait in send groups, and there in buckets of one send order. Groups take turns; in a
group, the highest send order goes first, and of one order the datagram that was queued first.
Datagrams that reached their maximal age are shed, and the lowest-priority ones are evicted when the
queue exceeds its budget of bytes.

Times are in nanoseconds. `underflow` records whether a subtraction from the cached totals went
below zero.
-/

namespace Neqo

namespace SendGroupId

/-- Group IDs are ordered as numbers. -/
instance : LinearOrder SendGroupId := LinearOrder.lift' SendGroupId.asU64 fun a b h => by
  cases a; cases b; simp_all

/-- The group ID that follows, as 64-bit numbers wrap. -/
def next (g : SendGroupId) : SendGroupId := ⟨(g.asU64 + 1) % 2 ^ 64⟩

end SendGroupId

/-- A vector of bytes and its allocation. -/
structure ByteVec where
  bytes : Bytes
  capacity : ℕ
  /-- The bytes are in the allocation. -/
  length_le : bytes.length ≤ capacity
  deriving DecidableEq

/-! ### Limits -/

def defaultMaxQueuedBytes : ℕ := 256 * 1024

/-- The overhead that each datagram is charged. -/
def perDatagramOverhead : ℕ := 64

/-- The charge for a datagram, against the budget of bytes. -/
def charge (allocated : ℕ) : ℕ := allocated + perDatagramOverhead

def defaultMaxAgeRttMultiplierNum : ℕ := 5

def defaultMaxAgeRttMultiplierDen : ℕ := 4

def defaultMaxAgeFloor : ℕ := 20 * millisecond

/-- The estimate of the round trip time without any measurement. -/
def defaultInitialRtt : ℕ := 100 * millisecond

/-- The longest duration: a 64-bit number of seconds. -/
def maxDuration : ℕ := (2 ^ 64 - 1) * second + (second - 1)

/-- The maximal age of datagrams if the application has not set one. -/
def defaultMaxAge (minRtt : ℕ) : ℕ :=
  let rtt := if minRtt = 0 then defaultInitialRtt else minRtt
  let scaled := rtt * defaultMaxAgeRttMultiplierNum
  max (if scaled ≤ maxDuration then scaled / defaultMaxAgeRttMultiplierDen else maxDuration)
    defaultMaxAgeFloor

/-- What to wait for if a datagram was admitted: any byte that is freed. -/
def anyProgress : ℕ := 1

/-- The least maximal age that the application can set. -/
def explicitMaxAgeFloor : ℕ := RttEstimate.granularity

/-! ### Datagrams -/

/-- The ID by which the application tracks a datagram. -/
abbrev DatagramId := ℕ

/-- The state of the queue after it was given a datagram. -/
inductive DatagramQueueOutcome where
  /-- The queue was below its limits. -/
  | ok
  /-- The queue had space, but it was at or above a limit. -/
  | maxBufferedReached
  /-- The datagram was refused. -/
  | rejected
  /-- The datagram was admitted, after this many others were evicted. -/
  | overflowed (dropped : ℕ)
  deriving DecidableEq, Repr

/-- A datagram, and when it was queued. -/
structure QueuedDatagram where
  data : ByteVec
  id : Option DatagramId
  timestamp : ℕ
  deriving DecidableEq

namespace QueuedDatagram

def age (d : QueuedDatagram) (now : ℕ) : ℕ := now - d.timestamp

def charge (d : QueuedDatagram) : ℕ := Neqo.charge d.data.capacity

end QueuedDatagram

/-! ### Send groups -/

/-- The datagrams of a send group, in buckets of one send order. -/
structure GroupQueue where
  byOrder : OrdMap SendOrder (List QueuedDatagram) := .empty
  deriving DecidableEq

namespace GroupQueue

variable (g : GroupQueue)

def isEmpty : Bool := g.byOrder.entries.isEmpty

def push (sendOrder : SendOrder) (dgram : QueuedDatagram) : GroupQueue :=
  ⟨g.byOrder.insert sendOrder ((g.byOrder.get? sendOrder).getD [] ++ [dgram])⟩

/-- What is left of a bucket from which the first datagram was taken. It is removed if it is
empty. -/
def setBucket (order : SendOrder) (queue : List QueuedDatagram) : GroupQueue :=
  if queue.isEmpty then ⟨g.byOrder.remove order⟩ else ⟨g.byOrder.insert order queue⟩

def popFront (order : SendOrder) : Option (QueuedDatagram × GroupQueue) :=
  match g.byOrder.get? order with
  | none | some [] => none
  | some (dgram :: queue) => some (dgram, g.setBucket order queue)

/-- The lowest send order in the group. -/
def lowestOrder : Option SendOrder := g.byOrder.keys.head?

/-- How many datagrams at the front of a bucket have reached an age. -/
def cut (now maxAge : ℕ) (queue : List QueuedDatagram) : ℕ :=
  PartitionPoint.partitionPoint (fun d => maxAge ≤ d.age now) queue

/-- Expire every datagram that has reached `maxAge`. Also gives how many expired and what they were
charged. -/
def expireOld (now maxAge : ℕ) : GroupQueue × ℕ × ℕ :=
  (⟨g.byOrder.update (fun queue => queue.drop (cut now maxAge queue)) fun queue => !queue.isEmpty⟩,
    (g.byOrder.entries.map fun e => cut now maxAge e.2).sum,
    (g.byOrder.entries.map fun e =>
      ((e.2.take (cut now maxAge e.2)).map QueuedDatagram.charge).sum).sum)

/-- Take the first datagram of the highest send order. -/
def popHighest : Option (SendOrder × QueuedDatagram × GroupQueue) :=
  match g.byOrder.last? with
  | none | some (_, []) => none
  | some (order, dgram :: queue) => some (order, dgram, g.setBucket order queue)

end GroupQueue

/-! ### The queue -/

/-- The datagrams of a session that wait to be sent. -/
structure DatagramQueue where
  groups : OrdMap SendGroupId GroupQueue := .empty
  /-- Where the next round of the groups starts. -/
  rrNext : SendGroupId := ⟨0⟩
  totalCount : ℕ := 0
  totalBytes : ℕ := 0
  maxQueuedBytes : ℕ := defaultMaxQueuedBytes
  /-- If there is a limit on the number of datagrams, it is positive. -/
  maxBufferedDatagrams : Option ℕ+ := none
  /-- The space that a blocked sender waits for. -/
  blocked : Option ℕ := none
  maxAge : Option ℕ := none
  /-- Datagrams that expired and have not been reported. -/
  expired : ℕ := 0
  /-- Datagrams that were sent and have not been reported. -/
  sent : ℕ := 0
  /-- Datagrams that did not fit into a packet and have not been reported. -/
  tooBig : ℕ := 0
  underflow : Bool := false
  deriving DecidableEq

namespace DatagramQueue

variable (q : DatagramQueue)

/-- Whether the number of queued datagrams is below the limit. -/
def belowMaxBuffered : Bool :=
  q.maxBufferedDatagrams.all fun mark => q.totalCount < mark

def effectiveMaxAge (defaultMaxAge : ℕ) : ℕ := q.maxAge.getD defaultMaxAge

def isEmpty : Bool := q.totalCount = 0

/-! #### Counters -/

def recordSent : DatagramQueue := { q with sent := q.sent + 1 }

def takeSentCount : ℕ × DatagramQueue := (q.sent, { q with sent := 0 })

def recordTooBig : DatagramQueue := { q with tooBig := q.tooBig + 1 }

def takeTooBigCount : ℕ × DatagramQueue := (q.tooBig, { q with tooBig := 0 })

def takeExpiredCount : ℕ × DatagramQueue := (q.expired, { q with expired := 0 })

/-! #### Removing datagrams -/

/-- Remove from the cached totals. -/
def account (count bytes : ℕ) : DatagramQueue :=
  { q with
    totalCount := q.totalCount - count
    totalBytes := q.totalBytes - bytes
    underflow := q.underflow || decide (q.totalCount < count) || decide (q.totalBytes < bytes) }

/-- Remove every datagram that has reached the maximal age. Also gives their number. -/
def expire (now defaultMaxAge : ℕ) : DatagramQueue × ℕ :=
  let maxAge := q.effectiveMaxAge defaultMaxAge
  let expired := (q.groups.entries.map fun e => (e.2.expireOld now maxAge).2.1).sum
  let freedBytes := (q.groups.entries.map fun e => (e.2.expireOld now maxAge).2.2).sum
  let groups := q.groups.update (fun g => (g.expireOld now maxAge).1) fun g => !g.isEmpty
  let q := { q with groups := groups }.account expired freedBytes
  ({ q with expired := q.expired + expired }, expired)

def setMaxAge (maxAge : Option ℕ) (now defaultMaxAge : ℕ) : DatagramQueue :=
  ({ q with maxAge := maxAge.map fun v => max v explicitMaxAgeFloor }.expire now defaultMaxAge).1

/-- The send order and the group of the bucket with the lowest priority: the lowest send order of
all groups, and among those of one order the lowest group ID. -/
def lowestPriorityKey : Option (SendOrder ×ₗ SendGroupId) :=
  (q.groups.entries.filterMap fun e => e.2.lowestOrder.map fun order => toLex (order, e.1)).min?

/-- What follows the removal of one datagram from a group. -/
def finishRemoval (groupId : SendGroupId) (group : GroupQueue)
    (dgram : QueuedDatagram) : DatagramQueue :=
  let groups := if group.isEmpty then q.groups.remove groupId else q.groups.insert groupId group
  { q with groups := groups }.account 1 dgram.charge

/-- Evict the oldest datagram of a bucket. -/
def evictAt (groupId : SendGroupId) (order : SendOrder) : Option (QueuedDatagram × DatagramQueue) :=
  match q.groups.get? groupId with
  | none => none
  | some group =>
    match group.popFront order with
    | none => none
    | some (dgram, group) => some (dgram, q.finishRemoval groupId group dgram)

/-! #### Adding datagrams -/

/-- Wait for space, at least for what is already waited for. -/
def blockOn (charge : ℕ) : DatagramQueue :=
  { q with blocked := some (q.blocked.elim charge fun c => max c charge) }

/-- All the datagrams. -/
def datagrams : List QueuedDatagram :=
  q.groups.gather fun _ g => g.byOrder.gather fun _ queue => queue

/-- Evict datagrams of one bucket until there is space for the charge or it is empty. The model
keeps what was evicted, the source only its number. -/
def drainBucket (newCharge : ℕ) (groupId : SendGroupId) (order : SendOrder) :
    ℕ → DatagramQueue → List QueuedDatagram → DatagramQueue × List QueuedDatagram
  | 0, q, evicted => (q, evicted)
  | fuel + 1, q, evicted =>
    match q.evictAt groupId order with
    | none => (q, evicted)
    | some (dgram, q) =>
      if q.totalBytes + newCharge ≤ q.maxQueuedBytes then (q, evicted ++ [dgram])
      else drainBucket newCharge groupId order fuel q (evicted ++ [dgram])

/-- Evict until there is space for the charge, or until all that is left outranks the send order, as
the last part of the result says. -/
def evict (newCharge : ℕ) (sendOrder : SendOrder) :
    ℕ → DatagramQueue → List QueuedDatagram → DatagramQueue × List QueuedDatagram × Bool
  | 0, q, evicted => (q, evicted, false)
  | fuel + 1, q, evicted =>
    if q.totalBytes + newCharge > q.maxQueuedBytes then
      match q.lowestPriorityKey with
      | none => (q, evicted, false)
      | some victim =>
        let (victimOrder, victimGroup) := ofLex victim
        if sendOrder < victimOrder then (q, evicted, true)
        else
          let (q, evicted) :=
            drainBucket newCharge victimGroup victimOrder (q.datagrams.length + 1) q evicted
          evict newCharge sendOrder fuel q evicted
    else (q, evicted, false)

/-- Make space for a datagram: evict, each time from the bucket with the lowest priority. -/
def makeSpace (newCharge : ℕ) (sendOrder : SendOrder) :
    DatagramQueue × List QueuedDatagram × Bool :=
  evict newCharge sendOrder (q.datagrams.length + 1) q []

/-- Put a datagram into its bucket. -/
def push (dgram : QueuedDatagram) (sendGroupId : SendGroupId)
    (sendOrder : SendOrder) : DatagramQueue :=
  let group := ((q.groups.get? sendGroupId).getD {}).push sendOrder dgram
  { q with
    groups := q.groups.insert sendGroupId group
    totalCount := q.totalCount + 1
    totalBytes := q.totalBytes + dgram.charge }

/-- Queue a datagram. -/
def enqueue (data : ByteVec) (id : Option DatagramId) (now : ℕ)
    (sendGroupId : SendGroupId) (sendOrder : SendOrder) : DatagramQueue × DatagramQueueOutcome :=
  let newCharge := charge data.capacity
  let (q, evicted, outranked) := q.makeSpace newCharge sendOrder
  if outranked ∧ evicted.length = 0 then (q.blockOn newCharge, .rejected)
  else
    let q := q.push ⟨data, id, now⟩ sendGroupId sendOrder
    if evicted.length > 0 then (q.blockOn anyProgress, .overflowed evicted.length)
    else if q.belowMaxBuffered ∧ q.totalBytes ≤ q.maxQueuedBytes then (q, .ok)
    else (q.blockOn anyProgress, .maxBufferedReached)

def setMaxBufferedDatagrams (mark : Option ℕ+) : DatagramQueue :=
  { q with maxBufferedDatagrams := mark }

/-! #### Sending datagrams -/

/-- The group whose turn it is. -/
def nextGroupId : Option SendGroupId :=
  ((q.groups.rangeFrom q.rrNext).head?.or q.groups.first?).map Prod.fst

/-- The length of the datagram that `takeNext` takes. -/
def peekNextLen : Option ℕ :=
  match q.nextGroupId with
  | none => none
  | some groupId =>
    match q.groups.get? groupId with
    | none => none
    | some group =>
      match group.byOrder.last? with
      | none => none
      | some (_, queue) => queue.head?.map fun d => d.data.bytes.length

/-- Take the next datagram. -/
def takeNext : Option (QueuedDatagram × DatagramQueue) :=
  match q.nextGroupId with
  | none => none
  | some groupId =>
    match q.groups.get? groupId with
    | none => none
    | some group =>
      match group.popHighest with
      | none => none
      | some (_, dgram, group) =>
        some (dgram, { q with rrNext := groupId.next }.finishRemoval groupId group dgram)

/-- Whether a blocked sender can resume, which is said once. -/
def resumeIfUnblocked : Bool × DatagramQueue :=
  match q.blocked with
  | none => (false, q)
  | some charge =>
    if q.isEmpty ∨ (q.belowMaxBuffered ∧ q.maxQueuedBytes - q.totalBytes ≥ charge) then
      (true, { q with blocked := none })
    else (false, q)

/-- Take every datagram that is left. -/
def takeAll : List QueuedDatagram × DatagramQueue :=
  (q.datagrams,
    { q with groups := .empty, rrNext := ⟨0⟩, totalCount := 0, totalBytes := 0, blocked := none })

end DatagramQueue

/-!
## Outgoing datagrams of a connection

A connection has one queue for each session, identified by its control stream. The sessions take
turns when datagrams are written into packets.

Events and statistics are left out. `GroupQueue::push` asserts, in debug builds, that time does not
go backwards in a bucket; `enqueueDatagram` fails if the assertion does.
-/

/-- The length of the type of a `DATAGRAM` frame. -/
def datagramFrameTypeVarintLen : ℕ := 1

def maxDatagramFrameSize : ℕ := 65535

/-- What becomes of a datagram that is taken off a queue. -/
inductive Disposition where
  /-- It is written into a packet. -/
  | send
  /-- It does not fit into a packet. -/
  | dropTooBig
  deriving DecidableEq, Repr

/-- What the removal of a queue took with it. -/
structure DroppedDatagrams where
  /-- Datagrams that were still queued. -/
  queued : ℕ := 0
  /-- Counts that had not been taken. -/
  sent : ℕ := 0
  expired : ℕ := 0
  tooBig : ℕ := 0
  deriving DecidableEq, Repr

/-- Datagrams that were taken off the queues of sessions. -/
abbrev Taken := List (StreamId × Disposition × QueuedDatagram)

/-- The datagrams of all sessions. -/
structure QuicDatagrams where
  /-- The size of the largest datagram that the peer accepts. -/
  remoteDatagramSize : ℕ := 0
  queues : OrdMap StreamId DatagramQueue := .empty
  /-- The session whose turn is next. -/
  queueRrNext : StreamId := ⟨0⟩
  deriving DecidableEq

namespace DatagramQueue

/-- The assertion that the newest datagram of the bucket is not newer than the one that is added. -/
def pushAsserts (q : DatagramQueue) (now : ℕ) (sendGroupId : SendGroupId) (sendOrder : SendOrder) :
    Bool :=
  match (q.groups.get? sendGroupId).bind fun g => g.byOrder.get? sendOrder with
  | none => true
  | some queue => queue.getLast?.all fun last => last.timestamp ≤ now

end DatagramQueue

namespace QuicDatagrams

variable (dg : QuicDatagrams)

def setRemoteDatagramSize (v : ℕ) : QuicDatagrams :=
  { dg with remoteDatagramSize := min v maxDatagramFrameSize }

/-! ### Writing datagrams -/

/-- Encode a datagram that is known to fit. -/
def encodeDatagram (data : Bytes) (frameType : FrameType) (builder : Builder) :
    Except Failure Builder :=
  let builder :=
    if frameType = .datagramWithLen then builder.encodeFrame frameType (Encoder.encodeVvec data)
    else
      let builder := builder.padBefore (datagramFrameTypeVarintLen + data.length)
      (builder.encodeFrame frameType data).markFull
  if builder.len ≤ builder.limit then .ok builder else .error .assertion

/-- The first session with something in its queue, from `start` on and then from the beginning. -/
def nextActiveSessionFrom (start : StreamId) : Option StreamId :=
  ((dg.queues.rangeFrom start ++ dg.queues.rangeBelow start).find? fun e => !e.2.isEmpty).map
    Prod.fst

variable (session : StreamId)

/-- Take the next datagram off the queue of a session, which has to exist, and move the turn past
it. -/
def takeFromSessionQueue (disposition : Disposition) :
    Except Failure (Option (QueuedDatagram × QuicDatagrams)) :=
  match dg.queues.get? session with
  | none => .error .assertion
  | some queue =>
    match queue.takeNext with
    | none => .ok none
    | some (dgram, queue) =>
      let queue :=
        match disposition with
        | .send => queue.recordSent
        | .dropTooBig => queue.recordTooBig
      let queue := queue.resumeIfUnblocked.2
      .ok (some (dgram, { dg with
        queues := dg.queues.insert session queue
        queueRrNext := ⟨(session.asU64 + 1) % 2 ^ 64⟩ }))

/-- The type of frame for a datagram: with a length if there is space for another frame and the
length does not exceed the limit of the peer. -/
def frameTypeFor (len : ℕ) (builder : Builder) : FrameType :=
  let frameLenWithLen := len + datagramFrameTypeVarintLen + Encoder.varintLen len
  if frameLenWithLen ≤ dg.remoteDatagramSize ∧
      frameLenWithLen + Builder.minimumFrameSize ≤ builder.remaining then .datagramWithLen
  else .datagram

/-- Write datagrams into a packet whose header ends at `headerEnd`, at most as many as there is fuel
for. Gives what was taken off the queues. The model fails where the source relies on an `expect` or
on code that cannot be reached. -/
def writeLoop (headerEnd : ℕ) (fullMtu : Bool) :
    ℕ → QuicDatagrams → Builder → Taken → Except Failure (QuicDatagrams × Builder × Taken)
  | 0, _, _, _ => .error .assertion
  | fuel + 1, dg, builder, taken =>
    match dg.nextActiveSessionFrom dg.queueRrNext with
    | none => .ok (dg, builder, taken)
    | some session =>
      match (dg.queues.get? session).bind DatagramQueue.peekNextLen with
      | none => .error .assertion
      | some len =>
        let frameLen := len + datagramFrameTypeVarintLen
        if frameLen > builder.remaining ∧ ¬(fullMtu ∧ builder.len = headerEnd) then
          .ok (dg, builder, taken)
        else if frameLen > min builder.remaining dg.remoteDatagramSize then
          match dg.takeFromSessionQueue session .dropTooBig with
          | .ok (some (dgram, dg)) =>
            writeLoop headerEnd fullMtu fuel dg builder (taken ++ [(session, .dropTooBig, dgram)])
          | _ => .error .assertion
        else
          match dg.takeFromSessionQueue session .send with
          | .ok (some (dgram, dg)) =>
            match encodeDatagram dgram.data.bytes (dg.frameTypeFor len builder) builder with
            | .ok builder =>
              writeLoop headerEnd fullMtu fuel dg builder (taken ++ [(session, .send, dgram)])
            | .error e => .error e
          | _ => .error .assertion

/-- All the datagrams of all sessions. -/
def datagrams : List QueuedDatagram := dg.queues.gather fun _ q => q.datagrams

/-- Write datagrams into a packet. -/
def writeFrames (builder : Builder) (headerEnd : ℕ) (fullMtu : Bool) :
    Except Failure (QuicDatagrams × Builder × Taken) :=
  writeLoop headerEnd fullMtu (dg.datagrams.length + 1) dg builder []

/-! ### Queueing datagrams -/

/-- The queue of a session, which is created if there is none. -/
def queueMut : DatagramQueue :=
  (dg.queues.get? session).getD {}

def setQueue (queue : DatagramQueue) : QuicDatagrams :=
  { dg with queues := dg.queues.insert session queue }

/-- Expire the stale datagrams of a queue. -/
def expireQueue (queue : DatagramQueue) (now defaultMaxAge : ℕ) : DatagramQueue :=
  (queue.expire now defaultMaxAge).1.resumeIfUnblocked.2

/-- Queue a datagram of a session, after its stale ones have expired. -/
def enqueueDatagram (data : ByteVec) (id : Option DatagramId) (now : ℕ) (sendGroupId : SendGroupId)
    (sendOrder : SendOrder) (minRtt : ℕ) : Except Failure (QuicDatagrams × DatagramQueueOutcome) :=
  if data.bytes.length + datagramFrameTypeVarintLen > dg.remoteDatagramSize then
    .error (.error .tooMuchData)
  else
    let queue := expireQueue (dg.queueMut session) now (defaultMaxAge minRtt)
    let result := queue.enqueue data id now sendGroupId sendOrder
    let space := (queue.makeSpace (charge data.capacity) sendOrder).1
    if result.2 ≠ .rejected ∧ ¬ space.pushAsserts now sendGroupId sendOrder then .error .assertion
    else .ok (dg.setQueue session result.1, result.2)

def setMaxBufferedDatagrams (mark : Option ℕ+) : QuicDatagrams :=
  dg.setQueue session ((dg.queueMut session).setMaxBufferedDatagrams mark).resumeIfUnblocked.2

def setDatagramMaxAge (maxAge : Option ℕ) (now minRtt : ℕ) : QuicDatagrams :=
  dg.setQueue session
    ((dg.queueMut session).setMaxAge maxAge now (defaultMaxAge minRtt)).resumeIfUnblocked.2

/-! ### Expiry and counters -/

def expireDatagrams (now minRtt : ℕ) : QuicDatagrams :=
  { dg with
    queues := dg.queues.update (fun queue => expireQueue queue now (defaultMaxAge minRtt))
      fun _ => true }

/-- Take a count off the queue of a session, if there is one. -/
def takeCount (take : DatagramQueue → ℕ × DatagramQueue) : ℕ × QuicDatagrams :=
  match dg.queues.get? session with
  | none => (0, dg)
  | some queue => ((take queue).1, dg.setQueue session (take queue).2)

def takeSessionSentCount : ℕ × QuicDatagrams :=
  dg.takeCount session DatagramQueue.takeSentCount

def takeSessionTooBigCount : ℕ × QuicDatagrams :=
  dg.takeCount session DatagramQueue.takeTooBigCount

def takeSessionExpiredCount : ℕ × QuicDatagrams :=
  dg.takeCount session DatagramQueue.takeExpiredCount

/-- Expire the datagrams of a session, and take the count of those that have expired. -/
def expireSessionDatagrams (now minRtt : ℕ) : ℕ × QuicDatagrams :=
  dg.takeCount session fun queue => (expireQueue queue now (defaultMaxAge minRtt)).takeExpiredCount

/-- Remove the queue of a session. -/
def dropSessionDatagrams : DroppedDatagrams × QuicDatagrams :=
  match dg.queues.get? session with
  | none => ({}, dg)
  | some queue =>
    ({ sent := queue.takeSentCount.1
       expired := queue.takeExpiredCount.1
       tooBig := queue.takeTooBigCount.1
       queued := queue.takeAll.1.length },
      { dg with queues := dg.queues.remove session })

end QuicDatagrams

end Neqo
