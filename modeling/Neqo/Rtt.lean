import Mathlib.Algebra.BigOperators.Group.List.Basic
import Mathlib.Algebra.Order.Ring.Nat

/-!
# Round trip time estimates

Times and durations are in nanoseconds.
-/

namespace Neqo

open List

/-- One microsecond. -/
def microsecond : ℕ := 1000

/-- One millisecond. -/
def millisecond : ℕ := 1000 * microsecond

/-- One second. -/
def second : ℕ := 1000 * millisecond

/-! ### The peer's ack rate -/

/-- How often the peer is asked to send ACKs. -/
structure AckRate where
  /-- The maximum number of packets that can be received without sending an ACK. -/
  packets : ℕ
  /-- The maximum delay before sending an ACK, in microseconds. -/
  delay : ℕ
  deriving DecidableEq, Repr

namespace AckRate

def ackRatioScale : ℕ := 10

def delayUs (delay : ℕ) : ℕ := min (delay / microsecond) (2 ^ 32 - 1)

def new (minimum ratio cwnd mtu rtt : ℕ) : AckRate :=
  let packets := cwnd * ackRatioScale / mtu / ratio
  let packets := max 2 (min packets 256)
  let delay := rtt * ackRatioScale / ratio
  -- The peer's minimum takes precedence over our preferred maximum.
  let delay := max (min delay (50 * millisecond)) minimum
  { packets := packets, delay := delayUs delay }

end AckRate

/-- An ack rate that the peer was told, and the one it should be. -/
structure FlexibleAckRate where
  current : AckRate
  target : AckRate
  nextFrameSeqno : ℕ
  frameOutstanding : Bool
  minAckDelay : ℕ
  ratio : ℕ
  deriving DecidableEq, Repr

namespace FlexibleAckRate

def update (r : FlexibleAckRate) (cwnd mtu rtt : ℕ) : FlexibleAckRate :=
  { r with target := .new r.minAckDelay r.ratio cwnd mtu rtt }

def peerAckDelay (r : FlexibleAckRate) : ℕ := max r.current.delay r.target.delay * microsecond

end FlexibleAckRate

/-- The maximum ack delay of the peer. -/
inductive PeerAckDelay where
  | fixed (delay : ℕ)
  | flexible (rate : FlexibleAckRate)
  deriving DecidableEq, Repr

namespace PeerAckDelay

def defaultRemoteAckDelay : ℕ := 25 * millisecond

def max : PeerAckDelay → ℕ
  | .flexible rate => rate.peerAckDelay
  | .fixed delay => delay

def update (d : PeerAckDelay) (cwnd mtu rtt : ℕ) : PeerAckDelay :=
  match d with
  | .flexible rate => .flexible (rate.update cwnd mtu rtt)
  | .fixed delay => .fixed delay

end PeerAckDelay

/-! ### The estimator -/

/-- The source of the RTT measurement. -/
inductive RttSource where
  /-- RTT guess from a retry or dropping a packet number space. -/
  | guesstimate
  /-- Ack on an unconfirmed connection. -/
  | ack
  /-- Ack on a confirmed connection. -/
  | ackConfirmed
  deriving DecidableEq, Repr

def RttSource.index : RttSource → ℕ
  | .guesstimate => 0
  | .ack => 1
  | .ackConfirmed => 2

def RttSource.max (a b : RttSource) : RttSource := if a.index ≤ b.index then b else a

/-- An estimate of the round-trip time. -/
structure RttEstimate where
  firstSampleTime : Option ℕ
  latestRtt : ℕ
  smoothedRtt : ℕ
  rttvar : ℕ
  minRtt : ℕ
  ackDelay : PeerAckDelay
  bestSource : RttSource
  deriving DecidableEq, Repr

namespace RttEstimate

/-- The smallest time that the system timer can reliably deliver. -/
def granularity : ℕ := millisecond

def new (initialRtt : ℕ) : RttEstimate :=
  { firstSampleTime := none
    latestRtt := initialRtt
    smoothedRtt := initialRtt
    rttvar := initialRtt / 2
    minRtt := initialRtt
    ackDelay := .fixed PeerAckDelay.defaultRemoteAckDelay
    bestSource := .guesstimate }

variable (e : RttEstimate)

def init (rtt : ℕ) : RttEstimate :=
  { e with latestRtt := rtt, minRtt := rtt, smoothedRtt := rtt, rttvar := rtt / 2 }

def setAckDelay (ackDelay : PeerAckDelay) : RttEstimate :=
  { e with ackDelay := ackDelay }

def updateAckDelay (cwnd mtu : ℕ) : RttEstimate :=
  { e with ackDelay := e.ackDelay.update cwnd mtu e.smoothedRtt }

def update (rttSample ackDelay : ℕ) (source : RttSource) (now : ℕ) : RttEstimate :=
  let e := { e with bestSource := e.bestSource.max source }
  -- Limit ack delay by max_ack_delay if confirmed.
  let mad := e.ackDelay.max
  let ackDelay := if e.bestSource = .ackConfirmed ∧ ackDelay > mad then mad else ackDelay
  -- `minRtt` ignores ack delay.
  let e := { e with minRtt := min e.minRtt rttSample }
  -- Adjust for ack delay unless it goes below `minRtt`.
  let rttSample := if rttSample ≥ ackDelay + e.minRtt then rttSample - ackDelay else rttSample
  if e.firstSampleTime.isNone then { e.init rttSample with firstSampleTime := some now }
  else
    let rttvarSample := (e.smoothedRtt - rttSample) + (rttSample - e.smoothedRtt)
    { e with
      latestRtt := rttSample
      rttvar := (e.rttvar * 3 + rttvarSample) / 4
      smoothedRtt := (e.smoothedRtt * 7 + rttSample) / 8 }

/-- Get the estimated value. -/
def estimate : ℕ := e.smoothedRtt

def pto (confirmed : Bool) : ℕ :=
  let t := e.estimate + max (4 * e.rttvar) granularity
  if confirmed then t + e.ackDelay.max else t

/-- The loss delay, based on the current estimate and the last RTT measurement received. -/
def lossDelay : ℕ :=
  let rtt := max e.latestRtt e.smoothedRtt
  max (rtt * 9 / 8) granularity

def minimum : ℕ := e.minRtt

end RttEstimate

/-!
## Sequences of round trip time samples

Each update takes the ack delay off the sample, unless this gives less than the minimum
(`step_spec`). The estimates therefore keep above the minimum. The first sample sets the minimum
to what is left of it.
-/

namespace RttEstimate

/-- One call of `update`, after the maximum ack delay is set. -/
structure Sample where
  rttSample : ℕ
  ackDelay : ℕ
  source : RttSource
  now : ℕ
  maxAckDelay : PeerAckDelay

def step (e : RttEstimate) (s : Sample) : RttEstimate :=
  (e.setAckDelay s.maxAckDelay).update s.rttSample s.ackDelay s.source s.now

def run (e : RttEstimate) (samples : List Sample) : RttEstimate := samples.foldl step e

variable {e : RttEstimate}

lemma step_spec (e : RttEstimate) (s : Sample) :
    let rtt := (e.step s).latestRtt
    min e.minRtt s.rttSample ≤ rtt ∧ rtt ≤ s.rttSample ∧
      (e.step s).firstSampleTime.isSome = true ∧
      (e.firstSampleTime = none → (e.step s).minRtt = rtt ∧ (e.step s).smoothedRtt = rtt) ∧
      (e.firstSampleTime.isSome = true → (e.step s).minRtt = min e.minRtt s.rttSample ∧
        (e.step s).smoothedRtt = (e.smoothedRtt * 7 + rtt) / 8) := by
  have hadjusted : ∀ minRtt delay, let rtt := if s.rttSample ≥ delay + min minRtt s.rttSample then
        s.rttSample - delay else s.rttSample
      min minRtt s.rttSample ≤ rtt ∧ rtt ≤ s.rttSample := by
    intro minRtt delay
    dsimp only
    split_ifs <;> omega
  obtain ⟨_ | t, _⟩ := e
  · exact ⟨(hadjusted _ _).1, (hadjusted _ _).2, rfl, fun _ => ⟨rfl, rfl⟩, nofun⟩
  · exact ⟨(hadjusted _ _).1, (hadjusted _ _).2, rfl, nofun, fun _ => ⟨rfl, rfl⟩⟩

/-! ### The range of the estimates -/

/-- The estimates are between the minimum and a bound for the samples. -/
structure InRange (e : RttEstimate) (bound : ℕ) : Prop where
  sampled : e.firstSampleTime.isSome = true
  min_le_smoothed : e.minRtt ≤ e.smoothedRtt
  min_le_latest : e.minRtt ≤ e.latestRtt
  smoothed_le : e.smoothedRtt ≤ bound

lemma InRange.step {bound : ℕ} (h : e.InRange bound) {s : Sample} (hs : s.rttSample ≤ bound) :
    (e.step s).InRange bound := by
  obtain ⟨hmin, hle, hsampled, -, hlater⟩ := e.step_spec s
  obtain ⟨hminRtt, hsmoothed⟩ := hlater h.sampled
  have hsmooth := h.min_le_smoothed
  have hbound := h.smoothed_le
  -- The average of two values that are at least the minimum is not rounded below it.
  refine ⟨hsampled, ?_, hminRtt ▸ hmin, ?_⟩ <;> omega

lemma inRange_first (h : e.firstSampleTime = none) {s : Sample} {bound : ℕ}
    (hs : s.rttSample ≤ bound) : (e.step s).InRange bound := by
  obtain ⟨-, hle, hsampled, hfirst, -⟩ := e.step_spec s
  obtain ⟨hminRtt, hsmoothed⟩ := hfirst h
  refine ⟨hsampled, ?_, hminRtt.le, ?_⟩ <;> omega

/-- **Estimates are in range.**  After any samples, the minimum is at most the estimate and the
latest round trip time, and the estimate is at most the largest sample. -/
theorem estimate_in_range (e : RttEstimate) (h : e.firstSampleTime = none) (s : Sample)
    (samples : List Sample) :
    let e' := e.run (s :: samples)
    e'.minimum ≤ e'.estimate ∧ e'.minimum ≤ e'.latestRtt ∧
      e'.estimate ≤ ((s :: samples).map Sample.rttSample).max (cons_ne_nil _ _) := by
  have hle := fun s' hs' => le_max_of_mem (mem_map_of_mem (f := Sample.rttSample)
    (a := s') (l := s :: samples) hs')
  obtain ⟨-, hsmoothed, hlatest, hestimate⟩ := foldlRecOn (motive := (InRange · _)) samples step
    (inRange_first h (hle s mem_cons_self)) fun _ h s' hs' => h.step (hle s' (.tail _ hs'))
  exact ⟨hsmoothed, hlatest, hestimate⟩

/-- Two samples, the second of which is reduced. -/
theorem estimate_in_range_of_two :
    let e := (new 10).run [⟨100, 0, .ack, 0, .fixed 0⟩, ⟨180, 60, .ack, 1, .fixed 0⟩]
    e.minimum ≤ e.estimate := by
  exact (estimate_in_range (new 10) rfl ⟨100, 0, .ack, 0, .fixed 0⟩
    [⟨180, 60, .ack, 1, .fixed 0⟩]).1

/-! ### The minimum -/

lemma run_minRtt (h : e.firstSampleTime.isSome = true) (samples : List Sample) :
    (e.run samples).minRtt = (samples.map Sample.rttSample).foldl min e.minRtt := by
  induction samples generalizing e with
  | nil => rfl
  | cons s samples ih =>
    obtain ⟨-, -, hsampled, -, hlater⟩ := e.step_spec s
    rw [map_cons, foldl_cons, ← (hlater h).1]
    exact ih hsampled

/-- The ack delay that an update takes off a sample, unless this gives less than the minimum. -/
def adjustment (e : RttEstimate) (s : Sample) : ℕ :=
  if e.bestSource.max s.source = .ackConfirmed ∧ s.ackDelay > s.maxAckDelay.max then
    s.maxAckDelay.max
  else s.ackDelay

lemma latestRtt_step_eq_iff (e : RttEstimate) (s : Sample) :
    (e.step s).latestRtt = s.rttSample ↔
      e.adjustment s = 0 ∨ s.rttSample < e.adjustment s + min e.minRtt s.rttSample := by
  have hlatest : (e.step s).latestRtt =
      if s.rttSample ≥ e.adjustment s + min e.minRtt s.rttSample then
        s.rttSample - e.adjustment s else s.rttSample := by
    obtain ⟨_ | t, _⟩ := e <;> rfl
  rw [hlatest]
  split_ifs <;> omega

/-- **The minimum is a sample.**  The minimum is the smallest sample after every sequence that
starts with a sample, exactly if the ack delay of this sample is zero or would take it below the
minimum. -/
theorem minimum_eq_min_iff (e : RttEstimate) (h : e.firstSampleTime = none) (s : Sample) :
    (∀ samples, ((s :: samples).map Sample.rttSample).min? =
        some (e.run (s :: samples)).minimum) ↔
      e.adjustment s = 0 ∨ s.rttSample < e.adjustment s + min e.minRtt s.rttSample := by
  obtain ⟨-, -, hsampled, hfirst, -⟩ := e.step_spec s
  rw [← latestRtt_step_eq_iff, ← (hfirst h).1]
  constructor
  · intro hall
    exact (Option.some.inj (hall [])).symm
  · intro hs samples
    rw [map_cons, min?_cons', ← hs, ← run_minRtt hsampled]
    rfl

/-- The first sample has an ack delay, but is not above the initial guess. -/
theorem minimum_eq_min_of_delay :
    [100, 80].min? = some ((new 100).run
      [⟨100, 50, .ack, 0, .fixed 0⟩, ⟨80, 10, .ack, 1, .fixed 0⟩]).minimum :=
  (minimum_eq_min_iff (new 100) rfl ⟨100, 50, .ack, 0, .fixed 0⟩).mpr (by decide)
    [⟨80, 10, .ack, 1, .fixed 0⟩]

/-- The first sample is 100, with an ack delay of 50, and the initial guess was 10. -/
theorem minimum_reduced : ((new 10).run [⟨100, 50, .ack, 0, .fixed 0⟩]).minimum = 50 := by
  decide

end RttEstimate

/-!
## Pacing

A pacer that uses a leaky bucket.
-/

/-- The largest value of a `usize` and of a `u64`. -/
def usizeMax : ℕ := 2 ^ 64 - 1

/-- The largest value of an `isize`. -/
def isizeMax : ℕ := 2 ^ 63 - 1

/-- Multiplication of `u64` that saturates. -/
def saturatingMul (a b : ℕ) : ℕ := min (a * b) usizeMax

/-- Bring a value into the range of an `isize`. -/
def saturateIsize (i : ℤ) : ℤ := max (-(isizeMax : ℤ) - 1) (min i isizeMax)

/-- A leaky bucket of credit for sending. -/
structure Pacer where
  /-- Whether pacing is enabled. -/
  enabled : Bool
  /-- The last update time. -/
  t : ℕ
  /-- The maximum capacity, or burst size, in bytes. -/
  m : ℕ
  /-- The current capacity, in bytes. When negative, represents accumulated debt. -/
  c : ℤ
  /-- The packet size or minimum capacity for sending, in bytes. -/
  p : ℕ
  deriving DecidableEq, Repr

namespace Pacer

/-- How much faster the pacer operates than the congestion window. -/
def speedup : ℕ := 2

def new (enabled : Bool) (now m p : ℕ) : Pacer :=
  { enabled := enabled, t := now, m := m, c := m, p := p }

def setMtu (pacer : Pacer) (mtu : ℕ) : Pacer := { pacer with p := mtu }

/-- When the next packet will be available. The time could be in the past. -/
def next (pacer : Pacer) (rtt cwnd : ℕ) : ℕ :=
  if pacer.c ≥ pacer.p then pacer.t
  else
    let deficit := (pacer.p - pacer.c).toNat
    let rttNs := min rtt usizeMax
    let divisor := saturatingMul cwnd speedup
    let wNs := saturatingMul rttNs deficit / divisor
    -- If the increment is below the timer granularity, send immediately.
    if wNs < RttEstimate.granularity then pacer.t else pacer.t + wNs

/-- Bytes sendable over `elapsed`. Returns `none` if `rtt` is zero. -/
def bytesFor (cwnd rtt elapsed : ℕ) : Option ℕ :=
  let rttNs := min rtt usizeMax
  let elapsedNs := min elapsed usizeMax
  let factor := saturatingMul cwnd speedup
  if rttNs = 0 then none else some (saturatingMul elapsedNs factor / rttNs)

/-- Spend credit. This cannot fail, but instead may carry debt into the future. -/
def spend (pacer : Pacer) (now rtt cwnd count : ℕ) : Pacer :=
  if !pacer.enabled then { pacer with t := now }
  else
    let incr := (bytesFor cwnd rtt (now - pacer.t)).getD pacer.m
    -- Add the capacity up to a limit of `m`, then subtract `count`.
    let c := saturateIsize (pacer.c + min incr isizeMax)
    let c := saturateIsize (c - min count isizeMax)
    { pacer with c := min (min pacer.m isizeMax : ℕ) c, t := now }

end Pacer

/-!
## Bursts

Spending at the time of the last update adds no credit, so that what is spent is taken from the
credit that there is. The first call at a later time may spend all that was added since, before the
credit is limited to the burst size.
-/

namespace Pacer

/-- One call of `spend`. -/
structure Call where
  rtt : ℕ
  cwnd : ℕ
  count : ℕ

/-- Calls at one instant. -/
def spendAll (pacer : Pacer) (now : ℕ) (calls : List Call) : Pacer :=
  calls.foldl (fun pacer call => pacer.spend now call.rtt call.cwnd call.count) pacer

/-- The credit that is added by a call. -/
def refill (pacer : Pacer) (now : ℕ) (call : Call) : ℕ :=
  (bytesFor call.cwnd call.rtt (now - pacer.t)).getD pacer.m

lemma spendAll_cons (pacer : Pacer) (now : ℕ) (call : Call) (calls : List Call) :
    pacer.spendAll now (call :: calls) =
      (pacer.spend now call.rtt call.cwnd call.count).spendAll now calls := rfl

variable {pacer : Pacer} {now : ℕ}

lemma spend_spec (henabled : pacer.enabled = true) (now : ℕ) (call : Call)
    (hcount : call.count ≤ isizeMax) :
    let pacer' := pacer.spend now call.rtt call.cwnd call.count
    pacer'.enabled = true ∧ pacer'.t = now ∧ pacer'.m = pacer.m ∧ pacer'.c ≤ pacer.m ∧
      (0 ≤ pacer'.c → pacer'.c + call.count ≤ pacer.c + pacer.refill now call) := by
  unfold spend refill
  rw [henabled, if_neg nofun]
  dsimp only [saturateIsize]
  refine ⟨rfl, rfl, rfl, ?_, fun hc => ?_⟩ <;> omega

lemma spend_of_lt {call : Call} (henabled : pacer.enabled = true) (hlt : pacer.m < isizeMax)
    (hroom : pacer.m < pacer.c + min (pacer.refill now call) isizeMax) :
    0 ≤ (pacer.spend now call.rtt call.cwnd (pacer.m + 1)).c := by
  unfold refill at hroom
  unfold spend
  rw [henabled, if_neg nofun]
  dsimp only [saturateIsize]
  omega

lemma refill_self (ht : pacer.t = now) (call : Call) (hrtt : call.rtt ≠ 0) :
    pacer.refill now call = 0 := by
  have hne : min call.rtt usizeMax ≠ 0 := by
    unfold usizeMax
    omega
  simp [refill, bytesFor, ht, saturatingMul, hne]

/-- At the time of the last update, what is spent is credit that there is. -/
lemma sum_le_of_same_time (henabled : pacer.enabled = true) (ht : pacer.t = now)
    (calls : List Call) (hcalls : ∀ call ∈ calls, call.rtt ≠ 0 ∧ call.count ≤ isizeMax)
    (hc : 0 ≤ (pacer.spendAll now calls).c) :
    (pacer.spendAll now calls).c + (calls.map Call.count).sum ≤ pacer.c := by
  induction calls generalizing pacer with
  | nil => simp [spendAll]
  | cons call calls ih =>
    obtain ⟨⟨hrtt, hcount⟩, hcalls⟩ := forall_mem_cons.mp hcalls
    obtain ⟨henabled', ht', -, -, hspend⟩ := spend_spec henabled now call hcount
    rw [spendAll_cons] at hc ⊢
    have hle := ih henabled' ht' hcalls hc
    have hspent := hspend (by omega)
    rw [refill_self ht call hrtt] at hspent
    rw [map_cons, sum_cons]
    omega

/-- **Bursts are limited.**  What is spent at one instant without going into debt is at most the
burst size, if the first call does not add credit that exceeds it; and if it does, then more can be
spent. In any case the limit holds without the first call. -/
theorem burst_le (pacer : Pacer) (henabled : pacer.enabled = true) (now : ℕ) (first : Call)
    (rest : List Call) (hcalls : ∀ call ∈ first :: rest, call.rtt ≠ 0 ∧ call.count ≤ isizeMax)
    (hc : 0 ≤ (pacer.spendAll now (first :: rest)).c) :
    (rest.map Call.count).sum ≤ pacer.m ∧
      (pacer.c + pacer.refill now first ≤ pacer.m →
        ((first :: rest).map Call.count).sum ≤ pacer.m) ∧
      (pacer.m < isizeMax → pacer.m < pacer.c + min (pacer.refill now first) isizeMax →
        0 ≤ (pacer.spend now first.rtt first.cwnd (pacer.m + 1)).c) := by
  obtain ⟨⟨-, hcount⟩, hcalls⟩ := forall_mem_cons.mp hcalls
  obtain ⟨henabled', ht, -, hm, hspend⟩ := spend_spec henabled now first hcount
  rw [spendAll_cons] at hc
  have hle := sum_le_of_same_time henabled' ht rest hcalls hc
  have hspent := hspend (by omega)
  rw [map_cons, sum_cons]
  refine ⟨by omega, fun hroom => by omega, fun hlt hroom => ?_⟩
  exact spend_of_lt henabled hlt hroom

/-- A new pacer lets two packets be sent at once, and more bytes when it was idle. -/
theorem burst_le_of_new :
    let pacer := new true 0 2000 1000
    let calls : List Call := [⟨100, 100, 1000⟩, ⟨100, 100, 1000⟩]
    (pacer.spendAll 0 calls).c = 0 ∧ (calls.map Call.count).sum ≤ pacer.m ∧
      0 ≤ (pacer.spend 100 100 10000 (pacer.m + 1)).c :=
  ⟨by decide, (burst_le (new true 0 2000 1000) rfl 0 ⟨100, 100, 1000⟩ [⟨100, 100, 1000⟩]
    (by decide) (by decide)).2.1 (by decide),
    (burst_le (new true 0 2000 1000) rfl 100 ⟨100, 10000, 0⟩ [] (by decide) (by decide)).2.2
      (by decide) (by decide)⟩

/-- After an idle time that adds 20000 bytes, 9000 bytes may be spent without any debt. -/
theorem burst_after_idle : ((new true 0 2000 1000).spend 100 100 10000 9000).c = 2000 := by
  decide

end Pacer

end Neqo
