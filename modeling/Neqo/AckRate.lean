import Neqo.Basic
import Neqo.Rtt
import Neqo.Util.Run

/-!
# The rate of acknowledgments that the peer is asked for

`ACK_FREQUENCY` frames carry a sequence number, of which the peer applies the highest
(`current_eq_highest`). The tokens that tell of their acknowledgment or loss only carry the rate.
-/

namespace Neqo

namespace AckRate

def writeFrame (r : AckRate) (b : Builder) (seqno : ℕ) : Builder × Bool :=
  b.writeVarintFrame .ackFrequency [seqno, r.packets, r.delay, 0]

/-- Determine whether to send an update frame. -/
def needsUpdate (r target : AckRate) : Bool :=
  if r.packets ≠ target.packets then true
  else
    -- Allow more flexibility for delays, as those can change by small amounts fairly easily.
    let delta := target.delay / 4
    min (target.delay + delta) (2 ^ 32 - 1) < r.delay ||
      min (r.delay + delta) (2 ^ 32 - 1) < target.delay

end AckRate

namespace FlexibleAckRate

def new (maxAckDelay minAckDelay ratio cwnd mtu rtt : ℕ) : FlexibleAckRate :=
  let ratio := max AckRate.ackRatioScale ratio
  { -- The default behaviour is to acknowledge every second packet.
    current := { packets := 2, delay := AckRate.delayUs maxAckDelay }
    target := .new minAckDelay ratio cwnd mtu rtt
    nextFrameSeqno := 0
    frameOutstanding := false
    minAckDelay := minAckDelay
    ratio := ratio }

def writeFrames (r : FlexibleAckRate) (b : Builder) (tokens : List AckRate) :
    FlexibleAckRate × Builder × List AckRate :=
  if !r.frameOutstanding && r.current.needsUpdate r.target then
    let (b, written) := r.target.writeFrame b r.nextFrameSeqno
    if written then
      ({ r with frameOutstanding := true, nextFrameSeqno := r.nextFrameSeqno + 1 }, b,
        tokens ++ [r.target])
    else (r, b, tokens)
  else (r, b, tokens)

def frameAcked (r : FlexibleAckRate) (acked : AckRate) : FlexibleAckRate :=
  { r with frameOutstanding := false, current := acked }

def frameLost (r : FlexibleAckRate) : FlexibleAckRate := { r with frameOutstanding := false }

end FlexibleAckRate

/-! ### Runs -/

/-- The rate and what became of the frames that were written, by their sequence numbers. -/
structure AckRateRun where
  rate : FlexibleAckRate
  /-- The rates in the frames, in the order of their sequence numbers. -/
  issued : List AckRate := []
  acked : List ℕ := []
  lost : List ℕ := []

namespace AckRateRun

/-- An event of a run. -/
inductive Op where
  | update (cwnd mtu rtt : ℕ)
  | writeFrames (b : Builder)
  | acked (seqno : ℕ)
  | lost (seqno : ℕ)

def step (s : AckRateRun) : Op → AckRateRun
  | .update cwnd mtu rtt => { s with rate := s.rate.update cwnd mtu rtt }
  | .writeFrames b =>
    let (rate, _, tokens) := s.rate.writeFrames b []
    { s with rate := rate, issued := s.issued ++ tokens }
  | .acked seqno =>
    match s.issued[seqno]? with
    | some rate => { s with rate := s.rate.frameAcked rate, acked := seqno :: s.acked }
    | none => s
  | .lost seqno => { s with rate := s.rate.frameLost, lost := seqno :: s.lost }

def run (s : AckRateRun) (ops : List Op) : AckRateRun := ops.foldl step s

/-- Each frame is reported once, as acknowledged or as lost. -/
def ReportsOnce (s : AckRateRun) : Op → Prop
  | .acked seqno | .lost seqno =>
    seqno < s.issued.length ∧ seqno ∉ s.acked ∧ seqno ∉ s.lost
  | _ => True

instance (s : AckRateRun) : (op : Op) → Decidable (s.ReportsOnce op)
  | .acked _ | .lost _ => inferInstanceAs (Decidable (_ ∧ _ ∧ _))
  | .update .. | .writeFrames _ => .isTrue trivial

/-- Only the last frame can be outstanding, and the current rate is in the last frame that was
acknowledged. -/
structure Inv (initial : AckRate) (s : AckRateRun) : Prop where
  lt : ∀ n ∈ s.acked, n < s.issued.length
  settled : ∀ n < s.issued.length, n ∈ s.acked ∨ n ∈ s.lost ∨
    (n + 1 = s.issued.length ∧ s.rate.frameOutstanding = true)
  unchanged : s.acked = [] → s.rate.current = initial
  current : ∀ n ∈ s.acked, (∀ n' ∈ s.acked, n' ≤ n) → s.issued[n]? = some s.rate.current

variable {initial : AckRate} {s : AckRateRun}

lemma Inv.last (h : Inv initial s) {n : ℕ}
    (hn : n < s.issued.length ∧ n ∉ s.acked ∧ n ∉ s.lost) : n + 1 = s.issued.length :=
  (((h.settled n hn.1).resolve_left hn.2.1).resolve_left hn.2.2).1

lemma Inv.writeFrames (h : Inv initial s) (b : Builder) :
    Inv initial (s.step (.writeFrames b)) := by
  unfold step FlexibleAckRate.writeFrames
  dsimp only
  split_ifs with hwrites
  · have hnone : s.rate.frameOutstanding = false := by
      simp only [Bool.and_eq_true, Bool.not_eq_true'] at hwrites
      exact hwrites.1
    refine ⟨fun n hn => ?_, fun n hn => ?_, h.unchanged, fun n hn hmax => ?_⟩
    · rw [List.length_append]
      exact Nat.lt_add_right _ (h.lt n hn)
    · rw [List.length_append] at hn ⊢
      rcases Nat.lt_succ_iff_lt_or_eq.mp hn with hlt | heq
      · refine (h.settled n hlt).imp_right fun hn => .inl (hn.resolve_right fun hout => ?_)
        exact nomatch hnone.symm.trans hout.2
      · exact .inr (.inr ⟨congrArg (· + 1) heq, rfl⟩)
    · rw [List.getElem?_append_left (h.lt n hn)]
      exact h.current n hn hmax
  all_goals simpa using h

lemma Inv.step {op : Op} (h : Inv initial s) (hop : s.ReportsOnce op) :
    Inv initial (s.step op) := by
  cases op with
  | update => exact { h with }
  | writeFrames b => exact h.writeFrames b
  | acked seqno =>
    have hlast := h.last hop
    have hlt : ∀ n ∈ seqno :: s.acked, n < s.issued.length :=
      List.forall_mem_cons.mpr ⟨hop.1, h.lt⟩
    have hrate := List.getElem?_eq_getElem hop.1
    rw [AckRateRun.step, hrate]
    refine ⟨hlt, fun n hn => ?_, nofun, fun n hn hmax => ?_⟩
    · rcases h.settled n hn with hacked | hlost | ⟨heq, -⟩
      · exact .inl (.tail _ hacked)
      · exact .inr (.inl hlost)
      · exact .inl (List.mem_cons.mpr (.inl (by omega)))
    · have hle := hlt n hn
      have hge := hmax seqno List.mem_cons_self
      obtain rfl : n = seqno := by omega
      exact hrate
  | lost seqno =>
    have hlast := h.last hop
    refine ⟨h.lt, fun n hn => ?_, h.unchanged, h.current⟩
    rcases h.settled n hn with hacked | hlost | ⟨heq, -⟩
    · exact .inl hacked
    · exact .inr (.inl (.tail _ hlost))
    · exact .inr (.inl (List.mem_cons.mpr (.inl (by omega))))

/-- **The current rate is the one that the peer applies**, if no frame is acknowledged after it was
reported lost: that of the acknowledged frame with the highest sequence number, or the initial
one. -/
theorem current_eq_highest (rate : FlexibleAckRate) (ops : List Op)
    (hops : Run.Along step ReportsOnce { rate := rate } ops) :
    let s := run { rate := rate } ops
    (s.acked = [] → s.rate.current = rate.current) ∧
      ∀ n ∈ s.acked.max?, s.issued[n]? = some s.rate.current := by
  have h : Inv rate.current (run { rate := rate } ops) :=
    hops.invariant (fun _ _ h hop => h.step hop) ⟨nofun, nofun, fun _ => rfl, nofun⟩
  refine ⟨h.unchanged, fun n hmax => ?_⟩
  obtain ⟨hn, hle⟩ := List.max?_eq_some_iff.mp hmax
  exact h.current n hn hle

/-- A first frame asks for 10 packets and is reported lost, and a second one asks for 20 and is
acknowledged. -/
def twoFrames : List Op :=
  [.writeFrames { limit := 100 }, .lost 0, .update 24000 1200 0, .writeFrames { limit := 100 },
    .acked 1]

theorem current_eq_highest_of_loss :
    let s := run { rate := .new 25000000 0 10 12000 1200 0 } twoFrames
    s.issued[1]? = some s.rate.current :=
  (current_eq_highest (.new 25000000 0 10 12000 1200 0) twoFrames (by decide +kernel)).2 1
    (by decide +kernel)

/-- The first frame is acknowledged after that, and its rate is taken for the current one. -/
theorem late_ack_restores :
    let s := run { rate := .new 25000000 0 10 12000 1200 0 } (twoFrames ++ [.acked 0])
    s.acked = [0, 1] ∧ s.issued.map AckRate.packets = [10, 20] ∧ s.rate.current.packets = 10 := by
  decide +kernel

end AckRateRun

end Neqo
