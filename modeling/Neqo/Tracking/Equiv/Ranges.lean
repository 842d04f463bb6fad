import Neqo.Tracking.Basic

/-!
# What is tracked of the received packets

Over any run, the ranges descend with gaps between them, and hold exactly the packet numbers that
were received and are not below `minTracked` (`RecvdPackets.Tracks`). Duplicates are therefore
recognised exactly.
-/

namespace Neqo

open List

/-! ### Lists of ranges -/

namespace PacketRange

lemma contains_iff {r : PacketRange} {pn : ℕ} :
    r.contains pn = true ↔ r.smallest ≤ pn ∧ pn ≤ r.largest := by
  simp only [contains, decide_eq_true_eq]

/-- The ends of a range. -/
def bounds (r : PacketRange) : ℕ × ℕ := (r.smallest, r.largest)

/-- The ranges descend, and there is a gap between any two. -/
def Descending (ranges : List PacketRange) : Prop :=
  ranges.Pairwise fun a b => b.largest + 1 < a.smallest

/-- Some range contains the number. -/
def Covers (ranges : List PacketRange) (pn : ℕ) : Prop := ∃ g ∈ ranges, g.contains pn = true

@[simp] lemma covers_nil (pn : ℕ) : ¬ Covers [] pn := by
  rintro ⟨g, hg, -⟩
  cases hg

@[simp] lemma covers_cons (r : PacketRange) (ranges : List PacketRange) (pn : ℕ) :
    Covers (r :: ranges) pn ↔ (r.smallest ≤ pn ∧ pn ≤ r.largest) ∨ Covers ranges pn := by
  simp only [Covers, mem_cons, exists_eq_or_imp, contains_iff]

lemma covers_append (ranges ranges' : List PacketRange) (pn : ℕ) :
    Covers (ranges ++ ranges') pn ↔ Covers ranges pn ∨ Covers ranges' pn := by
  simp only [Covers, mem_append, or_and_right, exists_or]

variable {ranges : List PacketRange}

lemma covers_largest {g : PacketRange} (hg : g ∈ ranges) : Covers ranges g.largest :=
  ⟨g, hg, contains_iff.mpr ⟨g.le, le_rfl⟩⟩

lemma descending_cons (r : PacketRange) (ranges : List PacketRange) :
    Descending (r :: ranges) ↔
      (∀ g ∈ ranges, g.largest + 1 < r.smallest) ∧ Descending ranges :=
  pairwise_cons

lemma lt_of_covers {r : PacketRange} {pn : ℕ} (hlt : ∀ g ∈ ranges, g.largest + 1 < r.smallest)
    (h : Covers ranges pn) : pn + 1 < r.smallest := by
  obtain ⟨g, hg, hpn⟩ := h
  have hg' := hlt g hg
  rw [contains_iff] at hpn
  omega

lemma descending_iff_bounds (ranges : List PacketRange) :
    Descending ranges ↔ (ranges.map bounds).Pairwise fun a b => b.2 + 1 < a.1 := by
  rw [pairwise_map]
  rfl

lemma covers_iff_bounds (ranges : List PacketRange) (pn : ℕ) :
    Covers ranges pn ↔ ∃ b ∈ ranges.map bounds, b.1 ≤ pn ∧ pn ≤ b.2 := by
  simp only [Covers, mem_map, exists_exists_and_eq_and, contains_iff, bounds]

end PacketRange

namespace RecvdPackets

open PacketRange

/-! ### Adding a packet number -/

/-- The ranges cover one more packet number. -/
structure Added (pn : ℕ) (ranges ranges' : List PacketRange) : Prop where
  descending : Descending ranges'
  covers : ∀ q, Covers ranges' q ↔ q = pn ∨ Covers ranges q
  length_le : ranges'.length ≤ ranges.length + 1

section

variable {pn : ℕ} {ranges : List PacketRange}

lemma added_new (hdesc : Descending ranges) (hlt : ∀ g ∈ ranges, g.largest + 1 < pn) :
    Added pn ranges (.new pn :: ranges) where
  descending := (descending_cons _ _).mpr ⟨hlt, hdesc⟩
  covers q := by
    rw [covers_cons, le_antisymm_iff, and_comm]
    rfl
  length_le := le_rfl

lemma added_grow {r r' : PacketRange} (hdesc : Descending ranges)
    (hgrows : ∀ q, r'.smallest ≤ q ∧ q ≤ r'.largest ↔ q = pn ∨ r.smallest ≤ q ∧ q ≤ r.largest)
    (hlt : ∀ g ∈ ranges, g.largest + 1 < r'.smallest) : Added pn (r :: ranges) (r' :: ranges) where
  descending := (descending_cons _ _).mpr ⟨hlt, hdesc⟩
  covers q := by rw [covers_cons, covers_cons, hgrows, or_assoc]
  length_le := Nat.le_succ _

lemma add_spec (pn : ℕ) (hdesc : Descending ranges) (hnew : ¬ Covers ranges pn) :
    ∃ ranges', add pn ranges = .ok ranges' ∧ Added pn ranges ranges' := by
  induction ranges with
  | nil => exact ⟨_, rfl, added_new hdesc nofun⟩
  | cons r ranges ih =>
    have hle := r.le
    obtain ⟨hlt, hdesc'⟩ := (descending_cons r ranges).mp hdesc
    rw [covers_cons, not_or] at hnew
    obtain ⟨hr, hnew'⟩ := hnew
    have hcontains : r.contains pn = false := by
      rw [← Bool.not_eq_true, contains_iff]
      exact hr
    unfold add PacketRange.add
    rw [hcontains]
    simp only [Bool.false_eq_true, if_false]
    by_cases hlargest : r.largest + 1 = pn
    · -- The range grows at its upper end.
      rw [if_pos hlargest]
      exact ⟨_, rfl, added_grow hdesc' (fun q => by dsimp only; omega) hlt⟩
    rw [if_neg hlargest]
    by_cases hsmallest : r.smallest = pn + 1
    · -- The range grows at its lower end, and may reach the next one.
      rw [if_pos hsmallest]
      cases ranges with
      | nil => exact ⟨_, rfl, added_grow hdesc' (fun q => by dsimp only; omega) nofun⟩
      | cons nxt ranges' =>
        have hnxt := hlt nxt mem_cons_self
        have hnxtle := nxt.le
        obtain ⟨hlt', hdesc''⟩ := (descending_cons nxt ranges').mp hdesc'
        by_cases hgap : pn - 1 = nxt.largest
        · have hadj : nxt.largest + 1 = r.smallest - 1 := by omega
          simp only [bind, Except.bind, if_pos hgap, mergeLarger, dif_pos hadj]
          refine ⟨_, rfl, (descending_cons _ _).mpr ⟨hlt', hdesc''⟩, fun q => ?_, by simp⟩
          have hq : nxt.smallest ≤ q ∧ q ≤ r.largest ↔
              q = pn ∨ (r.smallest ≤ q ∧ q ≤ r.largest) ∨ (nxt.smallest ≤ q ∧ q ≤ nxt.largest) := by
            omega
          rw [covers_cons, covers_cons, covers_cons, hq, or_assoc, or_assoc]
        · simp only [bind, Except.bind, if_neg hgap]
          refine ⟨_, rfl, added_grow hdesc' (fun q => by dsimp only; omega)
            (forall_mem_cons.mpr ⟨by dsimp only; omega, fun g hg => ?_⟩)⟩
          have hg' := hlt' g hg
          dsimp only
          omega
    rw [if_neg hsmallest]
    by_cases habove : r.largest < pn
    · -- There is a gap above this range.
      simp only [bind, Except.bind, if_pos habove]
      refine ⟨_, rfl, added_new hdesc (forall_mem_cons.mpr ⟨by omega, fun g hg => ?_⟩)⟩
      have hg' := hlt g hg
      omega
    · -- The number belongs below this range.
      obtain ⟨ranges', hadd, hadded⟩ := ih hdesc' hnew'
      simp only [bind, Except.bind, if_neg habove, hadd]
      refine ⟨_, rfl, (descending_cons _ _).mpr ⟨fun g hg => ?_, hadded.descending⟩, fun q => ?_,
        Nat.succ_le_succ hadded.length_le⟩
      · rcases (hadded.covers _).mp (covers_largest hg) with heq | hcovers
        · omega
        · exact lt_of_covers hlt hcovers
      · rw [covers_cons, covers_cons, hadded.covers]
        exact or_left_comm

end

/-! ### Duplicates -/

lemma any_takeWhile_iff {ranges : List PacketRange} (hdesc : Descending ranges) (pn : ℕ) :
    (ranges.takeWhile (pn ≤ ·.largest)).any (·.contains pn) = true ↔ Covers ranges pn := by
  induction ranges with
  | nil => simp
  | cons r ranges ih =>
    have hle := r.le
    obtain ⟨hlt, hdesc'⟩ := (descending_cons r ranges).mp hdesc
    by_cases hpn : pn ≤ r.largest
    · rw [takeWhile_cons_of_pos (by simpa using hpn), any_cons, Bool.or_eq_true,
        contains_iff, ih hdesc', covers_cons]
    · rw [takeWhile_cons_of_neg (by simpa using hpn), covers_cons]
      refine iff_of_false (by simp) ?_
      rintro (h | h)
      · omega
      · have h' := lt_of_covers hlt h
        omega

/-! ### The invariant -/

/-- The ranges hold what was received of the numbers that are still tracked. -/
structure Tracks (r : RecvdPackets) (pns : List ℕ) : Prop where
  descending : Descending r.ranges
  length_le : r.ranges.length ≤ maxTrackedRanges
  covers_iff : ∀ pn, Covers r.ranges pn ↔ pn ∈ pns ∧ r.minTracked ≤ pn
  nodup : pns.Nodup

lemma tracks_new (space : PacketNumberSpace) : (new space).Tracks [] where
  descending := List.Pairwise.nil
  length_le := Nat.zero_le _
  covers_iff pn := by simp [new]
  nodup := nodup_nil

variable {r r' : RecvdPackets} {pns : List ℕ}

lemma Tracks.isDuplicate_iff (h : r.Tracks pns) (pn : ℕ) :
    r.isDuplicate pn = true ↔ pn ∈ pns ∨ pn < r.minTracked := by
  unfold isDuplicate
  by_cases hpn : pn < r.minTracked
  · simp [hpn]
  · rw [if_neg hpn, any_takeWhile_iff h.descending, h.covers_iff]
    simp only [hpn, or_false, and_iff_left_iff_imp]
    intro _
    omega

/-- **What is tracked depends on the ends of the ranges only.** -/
theorem Tracks.of_bounds (h : r.Tracks pns) (hranges : r'.ranges.map bounds = r.ranges.map bounds)
    (hmin : r'.minTracked = r.minTracked) :
    r'.Tracks pns where
  descending := by
    rw [descending_iff_bounds, hranges, ← descending_iff_bounds]
    exact h.descending
  length_le := by
    have hlen := congrArg List.length hranges
    rw [length_map, length_map] at hlen
    rw [hlen]
    exact h.length_le
  covers_iff pn := by
    rw [covers_iff_bounds, hranges, ← covers_iff_bounds, hmin]
    exact h.covers_iff pn
  nodup := h.nodup

/-! ### Receiving -/

/-- With one range too many, the last one is dropped and nothing up to its end is tracked. -/
lemma trimRanges_spec (r : RecvdPackets) (pns : List ℕ) (hdesc : Descending r.ranges)
    (hlen : r.ranges.length ≤ maxTrackedRanges + 1)
    (hcovers : ∀ pn, Covers r.ranges pn ↔ pn ∈ pns ∧ r.minTracked ≤ pn) (hnodup : pns.Nodup) :
    ∃ r', r.trimRanges = .ok r' ∧ r'.Tracks pns := by
  unfold trimRanges
  split_ifs with hlong
  · rcases eq_nil_or_concat r.ranges with hnil | ⟨init, oldest, hconcat⟩
    · rw [hnil] at hlong
      cases hlong
    rw [concat_eq_append] at hconcat
    rw [hconcat] at hdesc hlen
    simp only [hconcat, List.getLast?_concat, dropLast_concat]
    obtain ⟨hinit, -, hgap⟩ := pairwise_append.mp hdesc
    have hmin : r.minTracked ≤ oldest.largest :=
      ((hcovers oldest.largest).mp (hconcat ▸ covers_largest (by simp))).2
    refine ⟨_, rfl, hinit, ?_, fun pn => ?_, hnodup⟩
    · rw [length_append] at hlen
      exact Nat.le_of_succ_le_succ hlen
    · have hpn := hcovers pn
      rw [hconcat, covers_append, covers_cons] at hpn
      simp only [covers_nil, or_false] at hpn
      constructor
      · rintro ⟨g, hg, hgpn⟩
        have hglt := hgap g hg oldest (mem_singleton_self _)
        refine ⟨(hpn.mp (Or.inl ⟨g, hg, hgpn⟩)).1, ?_⟩
        rw [contains_iff] at hgpn
        dsimp only
        omega
      · rintro ⟨hmem, hle'⟩
        dsimp only at hle'
        rcases hpn.mpr ⟨hmem, by omega⟩ with h | h
        · exact h
        · omega
  · exact ⟨r, rfl, hdesc, not_lt.mp hlong, hcovers, hnodup⟩

lemma setReceived_spec (h : r.Tracks pns) (now pn : ℕ) (ackEliciting : Bool)
    (hdup : r.isDuplicate pn = false) :
    ∃ r' largest, r.setReceived now pn ackEliciting = .ok (r', largest) ∧
      r'.Tracks (pn :: pns) := by
  rw [← Bool.not_eq_true, h.isDuplicate_iff, not_or, not_lt] at hdup
  obtain ⟨hnotMem, hmin⟩ := hdup
  have hnew : ¬ Covers r.ranges pn := fun hc => hnotMem ((h.covers_iff pn).mp hc).1
  obtain ⟨ranges, hadd, hadded⟩ := add_spec pn h.descending hnew
  have hcovers' : ∀ q, Covers ranges q ↔ q ∈ pn :: pns ∧ r.minTracked ≤ q := by
    intro q
    rw [hadded.covers, h.covers_iff, mem_cons]
    constructor
    · rintro (rfl | ⟨hq, hq'⟩)
      · exact ⟨Or.inl rfl, hmin⟩
      · exact ⟨Or.inr hq, hq'⟩
    · rintro ⟨rfl | hq, hq'⟩
      · exact Or.inl rfl
      · exact Or.inr ⟨hq, hq'⟩
  obtain ⟨trimmed, htrim, htracks⟩ :=
    trimRanges_spec { r with ranges := ranges } (pn :: pns) hadded.descending
      (hadded.length_le.trans (Nat.succ_le_succ h.length_le)) hcovers'
      (nodup_cons.mpr ⟨hnotMem, h.nodup⟩)
  simp only [setReceived, bind, Except.bind, hadd, htrim]
  refine ⟨_, _, rfl, htracks.of_bounds ?_ ?_⟩
  all_goals
    split_ifs <;> rfl

/-! ### Acknowledgments -/

@[simp] lemma bounds_acknowledged (r other : PacketRange) :
    (r.acknowledged other).bounds = r.bounds := by
  unfold PacketRange.acknowledged
  split_ifs <;> rfl

lemma bounds_acknowledgedFrom (ranges acked : List PacketRange) :
    (acknowledgedFrom ranges acked).map bounds = ranges.map bounds := by
  induction acked generalizing ranges with
  | nil => rfl
  | cons ack acked ih =>
    unfold acknowledgedFrom
    have hsplit : ranges.takeWhile (·.smallest > ack.largest) ++
        ranges.dropWhile (·.smallest > ack.largest) = ranges := takeWhile_append_dropWhile
    cases hdrop : ranges.dropWhile (·.smallest > ack.largest) with
    | nil => rfl
    | cons =>
      rw [hdrop] at hsplit
      conv_rhs => rw [← hsplit]
      rw [map_append, ih, map_append, map_cons, map_cons, bounds_acknowledged]

lemma writeFrame_ranges {now rtt : ℕ} {b b' : Builder} {tokens tokens' : List (List PacketRange)}
    (h : r.writeFrame now rtt b tokens = .ok (r', b', tokens')) :
    r'.ranges = r.ranges ∧ r'.minTracked = r.minTracked := by
  unfold writeFrame at h
  split_ifs at h with hnow
  · cases h
    exact ⟨rfl, rfl⟩
  split at h
  · dsimp only at h
    split_ifs at h with hspace
    · cases h
      exact ⟨rfl, rfl⟩
    · generalize encodeAckFrame b _ _ _ _ _ _ = out at h
      cases out with
      | error => cases h
      | ok =>
        cases h
        exact ⟨rfl, rfl⟩
  · cases h
    exact ⟨rfl, rfl⟩

/-! ### Runs -/

/-- The states that a space reaches, with the packet numbers that were received until then, the last
one first. A packet is only received if it is not a duplicate. -/
inductive Reachable (space : PacketNumberSpace) : RecvdPackets → List ℕ → Prop
  | new : Reachable space (.new space) []
  | setReceived {r r' : RecvdPackets} {pns : List ℕ} {largest : Bool} (now pn : ℕ)
      (ackEliciting : Bool) (h : Reachable space r pns) (hdup : r.isDuplicate pn = false)
      (hr : r.setReceived now pn ackEliciting = .ok (r', largest)) : Reachable space r' (pn :: pns)
  | acknowledged {r r' : RecvdPackets} {pns : List ℕ} (acked : List PacketRange)
      (h : Reachable space r pns) (hr : r.acknowledged acked = .ok r') : Reachable space r' pns
  | writeFrame {r r' : RecvdPackets} {pns : List ℕ} {b' : Builder}
      {tokens' : List (List PacketRange)} (now rtt : ℕ) (b : Builder)
      (tokens : List (List PacketRange)) (h : Reachable space r pns)
      (hr : r.writeFrame now rtt b tokens = .ok (r', b', tokens')) : Reachable space r' pns
  | ackFreq {r : RecvdPackets} {pns : List ℕ} (seqno tolerance delay : ℕ) (ignoreOrder : Bool)
      (h : Reachable space r pns) :
      Reachable space (r.ackFreq seqno tolerance delay ignoreOrder) pns
  | immediateAck {r : RecvdPackets} {pns : List ℕ} (now : ℕ) (h : Reachable space r pns) :
      Reachable space (r.immediateAck now) pns
  | ecnMarks {r : RecvdPackets} {pns : List ℕ} (marks : Ecn.Count) (h : Reachable space r pns) :
      Reachable space (r.ecnMarks marks) pns

lemma Reachable.tracks {space : PacketNumberSpace} (h : Reachable space r pns) : r.Tracks pns := by
  induction h with
  | new => exact tracks_new space
  | setReceived now pn ackEliciting _ hdup hr ih =>
    obtain ⟨r', largest, hr', htracks⟩ := setReceived_spec ih now pn ackEliciting hdup
    rw [hr] at hr'
    cases hr'
    exact htracks
  | acknowledged acked _ hr ih =>
    unfold RecvdPackets.acknowledged at hr
    split_ifs at hr
    cases hr
    exact ih.of_bounds (bounds_acknowledgedFrom _ _) rfl
  | writeFrame now rtt b tokens _ hr ih =>
    obtain ⟨hranges, hmin⟩ := writeFrame_ranges hr
    exact ih.of_bounds (by rw [hranges]) hmin
  | ackFreq seqno tolerance delay ignoreOrder _ ih =>
    unfold RecvdPackets.ackFreq
    split_ifs
    · exact ih.of_bounds rfl rfl
    · exact ih
  | immediateAck now _ ih | ecnMarks marks _ ih => exact ih.of_bounds rfl rfl

/-- **Duplicate detection is exact.**  The ranges descend strictly with gaps between them, there are
at most `maxTrackedRanges`, and they hold exactly the received packet numbers that are still
tracked. A packet is a duplicate if and only if it was received before or is below `minTracked`; so
no packet is received twice. Receiving a packet that is not a duplicate succeeds: no assertion
fails. -/
theorem Reachable.isDuplicate_exact {space : PacketNumberSpace} {r : RecvdPackets} {pns : List ℕ}
    (h : Reachable space r pns) :
    r.ranges.Pairwise (fun a b => b.largest + 1 < a.smallest) ∧
      r.ranges.length ≤ maxTrackedRanges ∧
      (∀ pn, (∃ g ∈ r.ranges, g.contains pn = true) ↔ pn ∈ pns ∧ r.minTracked ≤ pn) ∧
      (∀ pn, r.isDuplicate pn = true ↔ pn ∈ pns ∨ pn < r.minTracked) ∧
      pns.Nodup ∧
      ∀ now pn ackEliciting, r.isDuplicate pn = false →
        ∃ r' largest, r.setReceived now pn ackEliciting = .ok (r', largest) := by
  have htracks := h.tracks
  refine ⟨htracks.descending, htracks.length_le, htracks.covers_iff, htracks.isDuplicate_iff,
    htracks.nodup, fun now pn ackEliciting hdup => ?_⟩
  obtain ⟨r', largest, hr, -⟩ := setReceived_spec htracks now pn ackEliciting hdup
  exact ⟨r', largest, hr⟩

/-- Packet 1 fills the gap between packets 0 and 2. -/
theorem isDuplicate_exact_of_gap :
    ∃ r, Reachable .handshake r [1, 2, 0] ∧ r.ranges.map bounds = [(0, 2)] ∧
      ∀ pn, r.isDuplicate pn = true ↔ pn ∈ [1, 2, 0] ∨ pn < r.minTracked := by
  have h : Reachable .handshake _ [1, 2, 0] :=
    .setReceived 7 1 false (.setReceived 6 2 true (.setReceived 5 0 true .new rfl rfl) rfl rfl)
      rfl rfl
  exact ⟨_, h, rfl, h.isDuplicate_exact.2.2.2.1⟩

end RecvdPackets

end Neqo
