import Neqo.Recovery.Space
import Neqo.Rtt

/-!
# Path MTU discovery
-/

namespace Neqo

/-- The address family of a remote address. -/
inductive IpVersion where
  | v4
  | v6
  deriving DecidableEq, Repr

namespace Pmtud

/-- The state of a probe. -/
inductive Probe where
  | notNeeded
  | needed
  | sent
  deriving DecidableEq, Repr

/-- The MTUs that are searched, from a survey of values in use. -/
def searchTableOf : IpVersion → List ℕ
  | .v4 => [1280, 1380, 1420, 1472, 1500, 2047, 4095, 8191, 16383, 32767, 65535]
  | .v6 => [1280, 1380, 1420, 1470, 1500, 2047, 4095, 8191, 16383, 32767, 65535]

def searchTableLen : ℕ := 11

/-- How often a probe of one size is sent. -/
def maxProbes : ℕ := 3

def pmtuRaiseTimer : ℕ := 600 * second

/-- Size of the IPv4 or IPv6 header and of the UDP header, in bytes. -/
def headerSizeOf : IpVersion → ℕ
  | .v4 => 20 + 8
  | .v6 => 40 + 8

end Pmtud

/-- A search for the MTU of a path. -/
structure Pmtud where
  searchTable : List ℕ
  headerSize : ℕ
  mtu : ℕ
  ifaceMtu : ℕ
  peerMaxUdpPayload : Option ℕ
  probeIndex : ℕ
  probeCount : ℕ
  probeState : Pmtud.Probe
  raiseTimer : Option ℕ
  deriving DecidableEq, Repr

namespace Pmtud

variable (m : Pmtud)

/-- The entry of the search table at an index. -/
def size (idx : ℕ) : ℕ := m.searchTable.getD idx 0

/-- The path MTU, less the IP and UDP headers. -/
def plpmtu : ℕ := m.mtu - m.headerSize

def new (remoteIp : IpVersion) (ifaceMtu : Option ℕ) : Pmtud :=
  { searchTable := searchTableOf remoteIp
    headerSize := headerSizeOf remoteIp
    mtu := (searchTableOf remoteIp).getD 0 0
    -- Without an interface MTU, the limit is the largest `usize`.
    ifaceMtu := ifaceMtu.getD (2 ^ 64 - 1)
    peerMaxUdpPayload := none
    probeIndex := 0
    probeCount := 0
    probeState := .notNeeded
    raiseTimer := none }

def setMtu (idx : ℕ) : Pmtud := { m with mtu := m.size idx }

/-- Stops the search, with the MTU at an index. -/
def stop (idx now : ℕ) : Pmtud :=
  { { m with probeState := .notNeeded, probeIndex := idx }.setMtu idx with
    probeCount := 0
    raiseTimer := some (now + pmtuRaiseTimer) }

/-- Starts the next upward path MTU probe. -/
def next (now : ℕ) : Pmtud :=
  if m.probeIndex = searchTableLen - 1 then m.stop m.probeIndex now
  else
    let mtuLimit :=
      match m.peerMaxUdpPayload with
      | some p => min m.ifaceMtu (p + m.headerSize)
      | none => m.ifaceMtu
    if m.size (m.probeIndex + 1) > mtuLimit then m.stop m.probeIndex now
    else { m with probeState := .needed, probeCount := 0, probeIndex := m.probeIndex + 1 }

/-- Checks whether the PMTUD raise timer should be fired, and does so if needed. -/
def maybeFireRaiseTimer (now : ℕ) : Pmtud :=
  if m.probeState = .notNeeded ∧ m.raiseTimer.any (fun t => now ≥ t) then
    { m with raiseTimer := none }.next now
  else m

def needsProbe : Bool := m.probeState = .needed

/-- Sends a PMTUD probe, which is remembered with the returned token. -/
def sendProbe : Pmtud × Token :=
  ({ m with probeCount := m.probeCount + 1, probeState := .sent },
    .pmtudProbe (m.size m.probeIndex))

/-- Checks whether a PMTUD probe has been acknowledged. -/
def onPacketsAcked (ackedPkts : List Sent.Packet) (now : ℕ) : Pmtud :=
  if m.probeState = .notNeeded then m
  else
    let probeMtu := m.size m.probeIndex
    if !ackedPkts.any (fun p => p.isPmtudProbeOf probeMtu) then m
    else (m.next now).setMtu m.probeIndex

/-- Checks whether a PMTUD probe has been lost. -/
def onPacketsLost (lostPackets : List Sent.Packet) (now : ℕ) : Pmtud :=
  if !lostPackets.any Sent.Packet.isPmtudProbe then m
  else if m.probeCount ≥ maxProbes then m.stop (m.probeIndex - 1) now
  else { m with probeState := .needed }

/-- Starts PMTUD with the minimum size. -/
def start (now : ℕ) : Pmtud :=
  ({ m with probeIndex := 0, raiseTimer := none }.next now).setMtu 0

end Pmtud

/-!
## Confirmed sizes in path MTU discovery, and sizes that are given up

While a search runs, the MTU is the entry of the table before the one that is probed, and otherwise
the one at the index (`Inv`). As long as no loss of a probe is reported when no search runs, the
MTU does not fall (`step_spec`). A size is given up after as many losses as probes are sent, if
each report of a loss is about this size (`Counts`).
-/

namespace Pmtud

open Sent (Packet)

/-- An event of a search. -/
inductive Op where
  /-- A probe is sent, if one is needed. -/
  | send
  | acked (ackedPkts : List Packet) (now : ℕ)
  | lost (lostPackets : List Packet) (now : ℕ)
  | raiseTimer (now : ℕ)

def step (m : Pmtud) : Op → Pmtud
  | .send => if m.needsProbe then m.sendProbe.1 else m
  | .acked ackedPkts now => m.onPacketsAcked ackedPkts now
  | .lost lostPackets now => m.onPacketsLost lostPackets now
  | .raiseTimer now => m.maybeFireRaiseTimer now

def run (m : Pmtud) (ops : List Op) : Pmtud := ops.foldl step m

/-- The size that is confirmed: a probe of the size that is searched for is acknowledged. -/
def confirms (m : Pmtud) : Op → Option ℕ
  | .acked ackedPkts _ =>
    if m.probeState ≠ .notNeeded ∧ ackedPkts.any fun p => p.isPmtudProbeOf
        (m.size m.probeIndex) then
      some (m.size m.probeIndex)
    else none
  | _ => none

/-- All sizes that are confirmed in a run. -/
def confirmed (m : Pmtud) : List Op → List ℕ
  | [] => []
  | op :: ops => (m.confirms op).toList ++ (m.step op).confirmed ops

/-- The loss of a probe is reported when no search runs. -/
def losesIdle (m : Pmtud) : Op → Bool
  | .lost lostPackets _ => m.probeState = .notNeeded && lostPackets.any Packet.isPmtudProbe
  | _ => false

def neverLosesIdle (m : Pmtud) : List Op → Bool
  | [] => true
  | op :: ops => !m.losesIdle op && (m.step op).neverLosesIdle ops

/-- The index is in the table, and the MTU belongs to it or to the entry before it. -/
structure Inv (m : Pmtud) : Prop where
  table : ∃ v, m.searchTable = searchTableOf v
  index : m.probeIndex < searchTableLen
  idle : m.probeState = .notNeeded → m.mtu = m.size m.probeIndex
  searches : m.probeState ≠ .notNeeded → 0 < m.probeIndex ∧ m.mtu = m.size (m.probeIndex - 1)

variable {m : Pmtud}

lemma Inv.size_le (h : m.Inv) : m.size (m.probeIndex - 1) ≤ m.size m.probeIndex := by
  have htable : ∀ v, ∀ i < searchTableLen,
      (searchTableOf v).getD (i - 1) 0 ≤ (searchTableOf v).getD i 0 := by
    rintro (_ | _) <;> decide
  obtain ⟨v, hv⟩ := h.table
  unfold size
  rw [hv]
  exact htable v _ h.index

lemma inv_stop (htable : ∃ v, m.searchTable = searchTableOf v) {idx : ℕ}
    (hidx : idx < searchTableLen) (now : ℕ) : (m.stop idx now).Inv :=
  ⟨htable, hidx, fun _ => rfl, fun h => absurd rfl h⟩

lemma next_cases (hindex : m.probeIndex < searchTableLen) (now : ℕ) :
    m.next now = m.stop m.probeIndex now ∨ m.probeIndex + 1 < searchTableLen ∧
      m.next now =
        { m with probeState := .needed, probeCount := 0, probeIndex := m.probeIndex + 1 } := by
  unfold next
  dsimp only
  split_ifs with hlast
  · exact .inl rfl
  · exact .inl rfl
  · refine .inr ⟨?_, rfl⟩
    unfold searchTableLen at *
    omega

/-- After the entry at the index, which gives the MTU, the search goes on. -/
lemma inv_next (htable : ∃ v, m.searchTable = searchTableOf v)
    (hindex : m.probeIndex < searchTableLen) (now : ℕ) :
    ((m.next now).setMtu m.probeIndex).Inv ∧
      ((m.next now).setMtu m.probeIndex).mtu = m.size m.probeIndex := by
  rcases next_cases hindex now with heq | ⟨hlt, heq⟩
  · exact ⟨heq ▸ inv_stop htable hindex now, heq ▸ rfl⟩
  · rw [heq]
    exact ⟨⟨htable, hlt, nofun, fun _ => ⟨Nat.succ_pos _, rfl⟩⟩, rfl⟩

/-- Every step keeps the invariant, and the MTU does not fall below what was or is confirmed. -/
lemma step_spec (h : m.Inv) {op : Op} (hop : m.losesIdle op = false) :
    (m.step op).Inv ∧ m.mtu ≤ (m.step op).mtu ∧ ∀ size ∈ m.confirms op, size ≤ (m.step op).mtu := by
  cases op with
  | send =>
    rw [step]
    split_ifs with hneeds
    · have hsearches := h.searches fun hidle => by simp [needsProbe, hidle] at hneeds
      exact ⟨⟨h.table, h.index, nofun, fun _ => hsearches⟩, le_rfl, nofun⟩
    · exact ⟨h, le_rfl, nofun⟩
  | acked pkts now =>
    unfold step onPacketsAcked confirms
    by_cases hstate : m.probeState = .notNeeded
    · simp [hstate, h]
    cases hany : pkts.any fun p => p.isPmtudProbeOf (m.size m.probeIndex) with
    | false => simp [hstate, hany, h]
    | true =>
      obtain ⟨hinv, hmtu⟩ := inv_next h.table h.index now
      simp only [hstate, hany, if_false, Bool.not_true, Bool.false_eq_true, ne_eq,
        not_false_eq_true, and_self, if_true, Option.mem_def, Option.some.injEq, forall_eq', hmtu]
      exact ⟨hinv, (h.searches hstate).2 ▸ h.size_le, le_rfl⟩
  | lost pkts now =>
    by_cases hany : pkts.any Packet.isPmtudProbe = true
    · have hstate : m.probeState ≠ .notNeeded := by simpa [losesIdle, hany] using hop
      obtain ⟨hpos, hmtu⟩ := h.searches hstate
      simp only [step, onPacketsLost, hany, Bool.not_true, Bool.false_eq_true, if_false]
      split_ifs
      · exact ⟨inv_stop h.table ((Nat.sub_le _ _).trans_lt h.index) now, hmtu.le, nofun⟩
      · exact ⟨⟨h.table, h.index, nofun, fun _ => ⟨hpos, hmtu⟩⟩, le_rfl, nofun⟩
    · simp [step, onPacketsLost, hany, h, confirms]
  | raiseTimer now =>
    simp only [step, maybeFireRaiseTimer]
    split_ifs with hfires
    · have hmtu := h.idle hfires.1
      rcases next_cases (m := { m with raiseTimer := none }) h.index now with heq | ⟨hlt, heq⟩
      · rw [heq]
        exact ⟨inv_stop h.table h.index now, hmtu.le, nofun⟩
      · rw [heq]
        exact ⟨⟨h.table, hlt, nofun, fun _ => ⟨Nat.succ_pos _, hmtu⟩⟩, le_rfl, nofun⟩
    · exact ⟨h, le_rfl, nofun⟩

lemma run_spec (h : m.Inv) {ops : List Op} (hops : m.neverLosesIdle ops = true) :
    m.mtu ≤ (m.run ops).mtu ∧ ∀ size ∈ m.confirmed ops, size ≤ (m.run ops).mtu := by
  induction ops generalizing m with
  | nil => exact ⟨le_rfl, nofun⟩
  | cons op ops ih =>
    obtain ⟨hop, hops⟩ := (Bool.and_eq_true _ _).mp hops
    obtain ⟨hinv, hmtu, hconfirms⟩ := step_spec h (Bool.not_eq_true' _ |>.mp hop)
    obtain ⟨hrun, hconfirmed⟩ := ih hinv hops
    refine ⟨hmtu.trans hrun, fun size hsize => ?_⟩
    rcases List.mem_append.mp hsize with hsize | hsize
    · exact (hconfirms size (Option.mem_toList.mp hsize)).trans hrun
    · exact hconfirmed size hsize

/-- **Confirmed sizes are kept.**  After a start, the MTU is at least every size that was confirmed,
if the loss of a probe is never reported when no search runs. -/
theorem confirmed_le_mtu (m : Pmtud) (v : IpVersion) (hm : m.searchTable = searchTableOf v)
    (now : ℕ) (ops : List Op) (hops : (m.start now).neverLosesIdle ops = true) :
    ∀ size ∈ (m.start now).confirmed ops, size ≤ ((m.start now).run ops).mtu := by
  have hstart := (inv_next (m := { m with probeIndex := 0, raiseTimer := none }) ⟨v, hm⟩
    (Nat.succ_pos _) now).1
  exact (run_spec hstart hops).2

/-- A probe packet for a size. -/
def probeOf (pn mtu : ℕ) : Packet :=
  { pt := .short, pn := pn, ackEliciting := true, timeSent := 0, tokens := [.pmtudProbe mtu],
    len := mtu }

/-- A probe is lost, and the next one is acknowledged. -/
theorem confirmed_le_mtu_of_retry :
    let m := (new .v4 none).start 0
    ∀ size ∈ m.confirmed [.send, .lost [probeOf 0 1380] 1, .send, .acked [probeOf 1 1380] 2],
      size ≤ (m.run [.send, .lost [probeOf 0 1380] 1, .send, .acked [probeOf 1 1380] 2]).mtu :=
  confirmed_le_mtu (new .v4 none) .v4 rfl 0 _ (by decide)

/-- The interface does not allow more than 1380 bytes. A first probe is declared lost and
acknowledged late, which ends the search. Then the second probe is lost, and so are three more. -/
theorem confirmed_forgotten :
    let m := (new .v4 (some 1400)).start 0
    let ops := [.send, .lost [probeOf 0 1380] 1, .send, .acked [probeOf 0 1380] 2,
      .lost [probeOf 1 1380] 3, .send, .lost [probeOf 2 1380] 4, .send, .lost [probeOf 3 1380] 5,
      .send, .lost [probeOf 4 1380] 6]
    m.confirmed ops = [1380] ∧ (m.run ops).mtu = 1280 := by
  decide

/-! ### Sizes that are given up -/

/-- The loss of a probe is reported. -/
def losesProbe : Op → Bool
  | .lost lostPackets _ => lostPackets.any Packet.isPmtudProbe
  | _ => false

lemma probeCount_next (m : Pmtud) (now : ℕ) : (m.next now).probeCount = 0 := by
  unfold next
  dsimp only
  split_ifs <;> rfl

lemma step_cases (m : Pmtud) (op : Op) : (m.step op).probeCount = 0 ∨ m.step op = m ∨
    m.probeState = .needed ∧ m.step op = m.sendProbe.1 ∨
    losesProbe op = true ∧ m.step op = { m with probeState := .needed } := by
  cases op with
  | send =>
    unfold step
    split_ifs with hneeds
    · exact .inr (.inr (.inl ⟨of_decide_eq_true hneeds, rfl⟩))
    · exact .inr (.inl rfl)
  | acked =>
    unfold step onPacketsAcked
    dsimp only
    split_ifs
    · exact .inr (.inl rfl)
    · exact .inr (.inl rfl)
    · exact .inl (probeCount_next m _)
  | lost =>
    unfold step onPacketsLost
    dsimp only
    split_ifs with hnone
    · exact .inr (.inl rfl)
    · exact .inl rfl
    · exact .inr (.inr (.inr ⟨by simpa [losesProbe] using hnone, rfl⟩))
  | raiseTimer =>
    unfold step maybeFireRaiseTimer
    dsimp only
    split_ifs
    · exact .inl (probeCount_next _ _)
    · exact .inr (.inl rfl)

/-- The search for one size. -/
structure Stage where
  pmtud : Pmtud
  /-- The probes that were sent and not declared lost. -/
  outstanding : List ℕ := []
  /-- How many probes were declared lost. -/
  lost : ℕ := 0

namespace Stage

/-- The probes of this stage that an operation declares lost. -/
def declares (s : Stage) : Op → List ℕ
  | .lost lostPackets _ =>
    s.outstanding.filter fun pn => lostPackets.any fun p => p.isPmtudProbe && p.pn == pn
  | _ => []

/-- The probe that an operation sends. -/
def sends (s : Stage) (pn : ℕ) : Op → List ℕ
  | .send => if s.pmtud.needsProbe then [pn] else []
  | _ => []

/-- An operation, with the number of the packet that it may send. With another size another stage
begins. -/
def step (s : Stage) (pn : ℕ) (op : Op) : Stage :=
  let m := s.pmtud.step op
  if m.probeState = .notNeeded ∨ m.probeIndex ≠ s.pmtud.probeIndex then { pmtud := m }
  else
    { pmtud := m
      outstanding := s.sends pn op ++ s.outstanding.filter (· ∉ s.declares op)
      lost := s.lost + (s.declares op).length }

def run (s : Stage) (ops : List (ℕ × Op)) : Stage := ops.foldl (fun s op => s.step op.1 op.2) s

/-- Every report that a probe was lost is about a probe of the stage. -/
def current (s : Stage) : List (ℕ × Op) → Bool
  | [] => true
  | (pn, op) :: ops => (!losesProbe op || s.declares op != []) && (s.step pn op).current ops

/-- All probes were declared lost, but possibly the last one. -/
structure Counts (s : Stage) : Prop where
  idle : s.pmtud.probeState = .notNeeded → s.pmtud.probeCount = 0
  le : s.pmtud.probeCount ≤ s.lost + if s.pmtud.probeState = .sent then 1 else 0

variable {s : Stage}

lemma Counts.of_zero (h : s.pmtud.probeCount = 0) : s.Counts :=
  ⟨fun _ => h, h.trans_le (Nat.zero_le _)⟩

lemma Counts.le_succ (h : s.Counts) : s.pmtud.probeCount ≤ s.lost + 1 := by
  refine h.le.trans (Nat.add_le_add_left ?_ _)
  split_ifs
  · exact le_rfl
  · omega

lemma Counts.step (h : s.Counts) (pn : ℕ) {op : Op}
    (hop : losesProbe op = true → s.declares op ≠ []) : (s.step pn op).Counts := by
  have hcases := s.pmtud.step_cases op
  unfold Stage.step
  dsimp only
  generalize s.pmtud.step op = m at *
  split_ifs with hreset
  · apply Counts.of_zero
    rcases hcases with hzero | rfl | ⟨-, rfl⟩ | ⟨-, rfl⟩
    · exact hzero
    · exact h.idle (hreset.resolve_right fun hne => hne rfl)
    · exact absurd hreset (by simp [sendProbe])
    · exact absurd hreset (by simp)
  · rcases hcases with hzero | rfl | ⟨hneeded, rfl⟩ | ⟨hlost, rfl⟩
    · exact .of_zero hzero
    · refine ⟨h.idle, h.le.trans ?_⟩
      exact Nat.add_le_add_right (Nat.le_add_right _ _) _
    · -- One more probe was sent; all before were lost.
      have hle := h.le
      rw [hneeded] at hle
      exact ⟨nofun, Nat.succ_le_succ (hle.trans (Nat.le_add_right _ _))⟩
    · have hpos := List.length_pos_iff.mpr (hop hlost)
      exact ⟨nofun, h.le_succ.trans (Nat.add_le_add_left hpos _)⟩

lemma Counts.run (h : s.Counts) {ops : List (ℕ × Op)} (hops : s.current ops = true) :
    (s.run ops).Counts := by
  induction ops generalizing s with
  | nil => exact h
  | cons op ops ih =>
    obtain ⟨hop, hops⟩ := (Bool.and_eq_true _ _).mp hops
    exact ih (h.step op.1 fun hlost => by simpa [hlost] using hop) hops

end Stage

/-- **A size is given up after `maxProbes` losses** of probes of this size sent in this stage, if
every report that a probe was lost is about such a probe. -/
theorem maxProbes_le_lost (m : Pmtud) (now now' : ℕ) (ops : List (ℕ × Op)) (pkts : List Packet) :
    let s := (Stage.mk (m.start now) [] 0).run ops
    (Stage.mk (m.start now) [] 0).current ops = true → s.declares (.lost pkts now') ≠ [] →
    s.pmtud.probeState ≠ .notNeeded →
    (s.pmtud.onPacketsLost pkts now').probeState = .notNeeded →
    maxProbes ≤ s.lost + (s.declares (.lost pkts now')).length := by
  intro s hops hlost hsearches hstops
  have hstart : (Stage.mk (m.start now) [] 0).Counts := .of_zero (probeCount_next _ now)
  have hle := (hstart.run hops).le_succ
  have hpos := List.length_pos_iff.mpr hlost
  unfold onPacketsLost at hstops
  split_ifs at hstops with hnone hmax
  · exact absurd hstops hsearches
  · exact hmax.le.trans (hle.trans (Nat.add_le_add_left hpos _))

theorem maxProbes_le_lost_three :
    let s := (Stage.mk ((new .v4 none).start 0) [] 0).run
      [(0, .send), (9, .lost [probeOf 0 1380] 1),
      (1, .send), (9, .lost [probeOf 1 1380] 2), (2, .send)]
    maxProbes ≤ s.lost + (s.declares (.lost [probeOf 2 1380] 3)).length :=
  maxProbes_le_lost (new .v4 none) 0 3 _ [probeOf 2 1380] (by decide) (by decide) (by decide)
    (by decide)

/-- A first probe is declared lost and acknowledged late, after a second one was sent. The loss of
that one counts for the next size, for which only two probes are declared lost. -/
theorem given_up_early :
    let s := (Stage.mk ((new .v4 none).start 0) [] 0).run
      [(0, .send), (9, .lost [probeOf 0 1380] 1),
      (1, .send), (9, .acked [probeOf 0 1380] 2), (2, .send), (9, .lost [probeOf 1 1380] 3),
        (3, .send),
      (9, .lost [probeOf 2 1420] 4), (4, .send)]
    s.pmtud.probeState ≠ .notNeeded ∧ s.pmtud.size s.pmtud.probeIndex = 1420 ∧
      (s.pmtud.onPacketsLost [probeOf 3 1420] 5).probeState = .notNeeded ∧
      s.lost + (s.declares (.lost [probeOf 3 1420] 5)).length = 2 := by
  decide

end Pmtud

end Neqo
