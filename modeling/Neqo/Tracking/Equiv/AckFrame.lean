import Neqo.Frame.Decode
import Neqo.Tracking.Equiv.Ranges

/-!
# ACK frames

An ACK frame that `writeFrame` writes fits, and decodes to the ranges in its token. These are the
newest ranges that need acknowledgment, and hold only packet numbers that were received.
-/

namespace Neqo.RecvdPackets

open Encoder List Neqo.Frame PacketRange

/-! ### Ranges as they are encoded -/

/-- The ranges that follow one that starts at `last`, as they are encoded. -/
def ackRanges (last : ℕ) : List PacketRange → List AckRange
  | [] => []
  | g :: ranges => ⟨last - g.largest - 2, g.len - 1⟩ :: ackRanges g.smallest ranges

@[simp] lemma length_ackRanges (last : ℕ) (ranges : List PacketRange) :
    (ackRanges last ranges).length = ranges.length := by
  induction ranges generalizing last with
  | nil => rfl
  | cons g ranges ih => rw [ackRanges, length_cons, length_cons, ih]

lemma len_sub_one (r : PacketRange) : r.len - 1 = r.largest - r.smallest := rfl

variable {last space ackDelay : ℕ}

/-- **Decoding undoes the encoding of ranges.**  `cur` only matters if there is another range. -/
theorem decodeAckFrameFrom_ackRanges {cur : ℕ} {ranges : List PacketRange}
    (hdesc : Descending ranges) (hlast : ∀ g ∈ ranges, g.largest + 1 < last)
    (hcur : ranges ≠ [] → cur = last - 1) :
    decodeAckFrameFrom cur (ackRanges last ranges) = .ok (ranges.map bounds) := by
  induction ranges generalizing last cur with
  | nil => rfl
  | cons g ranges ih =>
    obtain ⟨hlt, hdesc'⟩ := (descending_cons g ranges).mp hdesc
    have hg := hlast g mem_cons_self
    have hle := g.le
    have hcur' := hcur (cons_ne_nil _ _)
    have hlargest : cur - (last - g.largest - 2) - 1 = g.largest := by omega
    have hsmallest : g.largest - (g.largest - g.smallest) = g.smallest := by omega
    rw [ackRanges, decodeAckFrameFrom]
    dsimp only
    rw [if_neg (by omega), hlargest, len_sub_one, if_neg (by omega), hsmallest, ih hdesc' hlt]
    · rfl
    · intro hne
      -- Another range is below this one, so this one does not start at 0 or 1.
      obtain ⟨g', hg'⟩ := exists_mem_of_ne_nil ranges hne
      have hlt' := hlt g' hg'
      rw [if_pos (by omega)]
      omega

variable {first : PacketRange}

lemma decodeAckFrame_ackRanges {extra : List PacketRange} (hdesc : Descending (first :: extra)) :
    decodeAckFrame first.largest (first.len - 1) (ackRanges first.smallest extra) =
      .ok ((first :: extra).map bounds) := by
  obtain ⟨hlt, hdesc'⟩ := (descending_cons first extra).mp hdesc
  have hle := first.le
  have hsmallest : first.largest - (first.largest - first.smallest) = first.smallest := by omega
  have hempty : (ackRanges first.smallest extra).isEmpty = true ↔ extra = [] := by
    rw [List.isEmpty_iff, ← List.length_eq_zero_iff, length_ackRanges, List.length_eq_zero_iff]
  have hpos : extra ≠ [] → 0 < first.smallest := by
    intro hne
    obtain ⟨g, hg⟩ := exists_mem_of_ne_nil extra hne
    have hg' := hlt g hg
    omega
  unfold decodeAckFrame
  rw [len_sub_one, if_neg (by omega), if_neg, hsmallest]
  dsimp only
  rw [decodeAckFrameFrom_ackRanges hdesc' hlt]
  · rfl
  · intro hne
    rw [if_neg (by rwa [hempty])]
  · rintro ⟨hne, hlow⟩
    rw [Bool.not_eq_true', ← Bool.not_eq_true, hempty] at hne
    have hpos' := hpos hne
    omega

variable {ecn : Option Ecn.Count}

lemma reads_ackFrame {la ad fa : ℕ} {ranges : List AckRange} (h : AckFits la ad fa ranges ecn) :
    Reads decode (Encoder.encodeVarint (ackFrameType ecn).toNat ++ encodeAck la ad fa ranges ecn)
      (.ack la ad fa ranges ecn) := by
  have hcontent : decodeContent (ackFrameType ecn) = decodeAck ecn.isSome := by
    cases ecn <;> rfl
  refine (reads_decodeType (ackFrameType ecn)).bind ?_
  rw [hcontent]
  exact reads_decodeAck h

/-! ### What is written -/

variable {buf buf' : Bytes}

lemma encodeVarint_eq_ok {v : ℕ} :
    encodeVarint buf v = .ok buf' ↔ v ≤ Encoder.maxVarint ∧
    buf' = buf ++ Encoder.encodeVarint v := by
  unfold encodeVarint
  split_ifs with h
  · simp only [Except.ok.injEq, h, true_and]
    exact eq_comm
  · simp only [h, false_and]

variable {pending acked : List PacketRange}

lemma encodePending_ok {limit : ℕ} (h : encodePending limit buf last pending = .ok (buf', acked)) :
    acked <+: pending ∧ buf' = buf ++ (ackRanges last acked).flatMap AckRange.encode ∧
      ∀ r ∈ ackRanges last acked, r.gap ≤ maxVarint ∧ r.range ≤ maxVarint := by
  induction pending generalizing buf last acked with
  | nil =>
    cases h
    exact ⟨prefix_rfl, (append_nil _).symm, nofun⟩
  | cons range pending ih =>
    unfold encodePending at h
    split_ifs at h with hfull hgap
    · cases h
      exact ⟨List.nil_prefix, (append_nil _).symm, nofun⟩
    · obtain ⟨buf₁, h₁, h⟩ := bind_eq_ok.mp h
      obtain ⟨buf₂, h₂, h⟩ := bind_eq_ok.mp h
      obtain ⟨⟨buf₃, acked'⟩, h₃, h⟩ := bind_eq_ok.mp h
      cases h
      obtain ⟨hgapLe, rfl⟩ := encodeVarint_eq_ok.mp h₁
      obtain ⟨hrangeLe, rfl⟩ := encodeVarint_eq_ok.mp h₂
      obtain ⟨hpre, rfl, hfits⟩ := ih h₃
      refine ⟨cons_prefix_cons.mpr ⟨rfl, hpre⟩, ?_, ?_⟩
      · rw [ackRanges, flatMap_cons, AckRange.encode]
        simp only [append_assoc]
      · intro r hr
        rcases mem_cons.mp hr with rfl | hr
        · exact ⟨hgapLe, hrangeLe⟩
        · exact hfits r hr

/-- Ranges of numbers that can be encoded are written without going over the limit. -/
lemma encodePending_total (limit : ℕ) (buf : Bytes) (hdesc : Descending pending)
    (hlast : ∀ g ∈ pending, g.largest + 1 < last) (hmax : last ≤ maxVarint)
    (hbuf : buf.length ≤ limit) :
    ∃ buf' acked, encodePending limit buf last pending = .ok (buf', acked) ∧
      buf'.length ≤ limit := by
  induction pending generalizing buf last with
  | nil => exact ⟨buf, [], rfl, hbuf⟩
  | cons range pending ih =>
    obtain ⟨hlt, hdesc'⟩ := (descending_cons range pending).mp hdesc
    have hrange := hlast range mem_cons_self
    have hle := range.le
    unfold encodePending
    split_ifs with hfull hgap
    · exact ⟨buf, [], rfl, hbuf⟩
    · omega
    · have hgapLe : last - range.largest - 2 ≤ maxVarint := by omega
      have hrangeLe : range.len - 1 ≤ maxVarint := by
        rw [len_sub_one]
        omega
      rw [encodeVarint_eq_ok.mpr ⟨hgapLe, rfl⟩]
      simp only [bind, Except.bind]
      rw [encodeVarint_eq_ok.mpr ⟨hrangeLe, rfl⟩]
      have hlen₁ := varintLen_le (last - range.largest - 2)
      have hlen₂ := varintLen_le (range.len - 1)
      obtain ⟨buf', acked, hrest, hbuf'⟩ := ih
        (buf ++ Encoder.encodeVarint (last - range.largest - 2) ++
          Encoder.encodeVarint (range.len - 1)) hdesc' hlt (by omega) (by
          simp only [length_append, Encoder.length_encodeVarint]
          rw [assumedAckRangeLen] at hfull
          omega)
      exact ⟨buf', range :: acked, by simp only [hrest], hbuf'⟩

/-- The count of the ranges is written over the byte that was reserved for it. -/
lemma encodeAckRanges_ok {before after : Bytes}
    (h : encodeAckRanges pending (before ++ 0 :: after) first before.length space =
      .ok (buf', acked))
    :
    ∃ extra, acked = first :: extra ∧ extra <+: pending ∧ extra.length ≤ maxExtraAckRanges ∧
      buf' = before ++ (Encoder.encodeVarint extra.length ++
        (after ++ (ackRanges first.smallest extra).flatMap AckRange.encode)) ∧
      ∀ r ∈ ackRanges first.smallest extra,
        r.gap ≤ maxVarint ∧ r.range ≤ maxVarint := by
  obtain ⟨⟨buf₁, extra⟩, h₁, h⟩ := bind_eq_ok.mp h
  dsimp only at h
  split at h
  · cases h
  split at h
  · cases h
  cases h
  obtain ⟨hpre, rfl, hfits⟩ := encodePending_ok h₁
  have hlen : extra.length ≤ maxExtraAckRanges :=
    hpre.length_le.trans (length_take_le _ _)
  refine ⟨extra, rfl, hpre.trans (List.take_prefix _ _), hlen, ?_, hfits⟩
  rw [maxExtraAckRanges] at hlen
  rw [encodeVarint_of_lt (by omega), append_assoc, set_append_right _ _ le_rfl,
    Nat.sub_self]
  rfl

lemma encodeEcn_eq_ok : encodeEcn buf ecn = .ok buf' ↔
    (∀ c ∈ ecn, c.ect0 ≤ maxVarint ∧ c.ect1 ≤ maxVarint ∧ c.ce ≤ maxVarint) ∧
      buf' = buf ++ ecn.elim [] encodeEcnCount := by
  cases ecn with
  | none => simp [encodeEcn, eq_comm]
  | some => simp [encodeEcn, bind_eq_ok, encodeVarint_eq_ok, encodeEcnCount, and_assoc]

/-- **A frame that is written** has the first range and some of those after it. -/
theorem encodeAckFrame_ok {b b' : Builder}
    (h : encodeAckFrame b (ackFrameType ecn) first pending ackDelay ecn space = .ok (b', acked)) :
    ∃ extra, acked = first :: extra ∧ extra <+: pending ∧
      AckFits first.largest ackDelay (first.len - 1) (ackRanges first.smallest extra) ecn ∧
      b'.bytes = b.bytes ++ (Encoder.encodeVarint (ackFrameType ecn).toNat ++
        encodeAck first.largest ackDelay (first.len - 1) (ackRanges first.smallest extra) ecn) ∧
      b'.limit = b.limit ∧ b'.len ≤ b'.limit := by
  obtain ⟨⟨buf₁, reservation⟩, h₁, h⟩ := bind_eq_ok.mp h
  obtain ⟨⟨buf₂, acked'⟩, h₂, h⟩ := bind_eq_ok.mp h
  obtain ⟨buf₃, h₃, h⟩ := bind_eq_ok.mp h
  split_ifs at h with hlimit
  · cases h
  cases h
  -- The part before the ranges, with the place of the count.
  obtain ⟨buf₄, h₄, h₁⟩ := bind_eq_ok.mp h₁
  obtain ⟨buf₅, h₅, h₁⟩ := bind_eq_ok.mp h₁
  obtain ⟨buf₆, h₆, h₁⟩ := bind_eq_ok.mp h₁
  cases h₁
  obtain ⟨hla, rfl⟩ := encodeVarint_eq_ok.mp h₄
  obtain ⟨had, rfl⟩ := encodeVarint_eq_ok.mp h₅
  obtain ⟨hfa, rfl⟩ := encodeVarint_eq_ok.mp h₆
  rw [append_assoc _ [0] _, singleton_append] at h₂
  obtain ⟨extra, rfl, hpre, hlen, rfl, hfits⟩ := encodeAckRanges_ok h₂
  have hcount : (ackRanges first.smallest extra).length < maxAckRangeCount := by
    rw [length_ackRanges]
    exact hlen.trans_lt (by decide)
  obtain ⟨hecn, hbytes⟩ := encodeEcn_eq_ok.mp h₃
  refine ⟨extra, rfl, hpre, ⟨hla, had, hfa, hcount, hfits, hecn⟩, ?_, rfl, not_lt.mp hlimit⟩
  rw [hbytes, encodeAck, length_ackRanges]
  simp only [append_assoc]

/-! ### Nothing fails -/

lemma encodeAckFixed_eq (hla : first.largest ≤ maxVarint) (had : ackDelay ≤ maxVarint) :
    encodeAckFixed buf first ackDelay =
      .ok (buf ++ Encoder.encodeVarint first.largest ++ Encoder.encodeVarint ackDelay ++ [0] ++
          Encoder.encodeVarint (first.len - 1),
        (buf ++ Encoder.encodeVarint first.largest ++ Encoder.encodeVarint ackDelay).length) := by
  have hfa : first.len - 1 ≤ Encoder.maxVarint := by
    rw [len_sub_one]
    omega
  refine bind_eq_ok.mpr ⟨_, encodeVarint_eq_ok.mpr ⟨hla, rfl⟩, bind_eq_ok.mpr
    ⟨_, encodeVarint_eq_ok.mpr ⟨had, rfl⟩,
    bind_eq_ok.mpr ⟨_, encodeVarint_eq_ok.mpr ⟨hfa, rfl⟩, ?_⟩⟩⟩
  rfl

lemma encodeAckRanges_total (buf : Bytes) (reservation space : ℕ)
    (hdesc : Descending (first :: pending)) (hla : first.largest ≤ maxVarint) :
    ∃ buf' acked, encodeAckRanges pending buf first reservation space = .ok (buf', acked) ∧
      buf'.length ≤ buf.length + space := by
  obtain ⟨hlt, hdesc'⟩ := (descending_cons first pending).mp hdesc
  have hle := first.le
  obtain ⟨buf₁, extra, h₁, hlen⟩ := encodePending_total
    (buf.length + min rangeFrameSpace space) buf (hdesc'.sublist (take_sublist _ _))
    (fun g hg => hlt g (mem_of_mem_take hg)) (by omega) (Nat.le_add_right _ _)
  have hcount : extra.length ≤ maxExtraAckRanges :=
    (encodePending_ok h₁).1.length_le.trans (length_take_le _ _)
  rw [maxExtraAckRanges] at hcount
  refine ⟨buf₁.set reservation (UInt8.ofNat extra.length), first :: extra,
    bind_eq_ok.mpr ⟨_, h₁, ?_⟩, ?_⟩
  · dsimp only
    rw [if_neg (by omega), if_neg (by omega)]
  · rw [length_set]
    omega

/-- A frame is written if there is space for one range, and stays within the limit. -/
lemma encodeAckFrame_total {b : Builder} (hdesc : Descending (first :: pending))
    (hla : first.largest ≤ maxVarint) (had : ackDelay ≤ maxVarint)
    (hecn : ∀ c ∈ ecn, c.ect0 ≤ maxVarint ∧ c.ect1 ≤ maxVarint ∧ c.ce ≤ maxVarint)
    (hspace : fixedLen (ackFrameType ecn) first ackDelay ecn ≤ b.remaining) :
    ∃ out, encodeAckFrame b (ackFrameType ecn) first pending ackDelay ecn
      (b.remaining - fixedLen (ackFrameType ecn) first ackDelay ecn) = .ok out := by
  have hecnLen : (ecn.elim [] encodeEcnCount).length = ecn.elim 0 fun c =>
      varintLen c.ect0 + varintLen c.ect1 + varintLen c.ce := by
    cases ecn with
    | none => rfl
    | some =>
      simp only [Option.elim, encodeEcnCount, length_append, length_encodeVarint]
      omega
  obtain ⟨buf₂, acked, h₂, hlen⟩ := encodeAckRanges_total
    (b.bytes ++ Encoder.encodeVarint (ackFrameType ecn).toNat ++
      Encoder.encodeVarint first.largest ++ Encoder.encodeVarint ackDelay ++ [0] ++
      Encoder.encodeVarint (first.len - 1))
    (b.bytes ++ Encoder.encodeVarint (ackFrameType ecn).toNat ++
      Encoder.encodeVarint first.largest ++ Encoder.encodeVarint ackDelay).length
    (b.remaining - fixedLen (ackFrameType ecn) first ackDelay ecn) hdesc hla
  refine ⟨({ b with bytes := buf₂ ++ ecn.elim [] encodeEcnCount }, acked), ?_⟩
  refine bind_eq_ok.mpr ⟨_, encodeAckFixed_eq hla had, bind_eq_ok.mpr ⟨_, h₂,
    bind_eq_ok.mpr ⟨_, encodeEcn_eq_ok.mpr ⟨hecn, rfl⟩, ?_⟩⟩⟩
  rw [if_neg]
  · simp only [length_append, length_encodeVarint, length_singleton] at hlen ⊢
    unfold fixedLen at hspace hlen
    rw [Builder.remaining, Builder.len] at hspace hlen
    omega

/-! ### Writing frames -/

/-- Either nothing is written, or a frame for the ranges that need acknowledgment. -/
lemma writeFrame_cases (r : RecvdPackets) (now rtt : ℕ) (b : Builder)
    (tokens : List (List PacketRange)) :
    r.writeFrame now rtt b tokens = .ok (r, b, tokens) ∨
      ∃ first pending ackDelay r', r.ranges.filter (·.ackNeeded) = first :: pending ∧
        ackDelay ≤ maxVarint ∧ fixedLen (ackFrameType r.ecn) first ackDelay r.ecn ≤ b.remaining ∧
        r.writeFrame now rtt b tokens = (encodeAckFrame b (ackFrameType r.ecn) first pending
          ackDelay r.ecn (b.remaining - fixedLen (ackFrameType r.ecn) first ackDelay r.ecn)).bind
            fun (b, acked) => .ok (r', b, tokens ++ [acked]) := by
  unfold writeFrame
  split_ifs
  · exact .inl rfl
  split
  case h_1 first pending t hranges ht =>
    dsimp only
    split_ifs with hspace
    · exact .inl rfl
    · exact .inr ⟨first, pending, _, _, hranges, min_le_left _ _, not_lt.mp hspace, rfl⟩
  case h_2 => exact .inl rfl

lemma writeFrame_total {r : RecvdPackets} (hdesc : Descending r.ranges)
    (hpns : ∀ g ∈ r.ranges, g.largest ≤ maxVarint)
    (hecn : r.ecnCount.ect0 ≤ maxVarint ∧ r.ecnCount.ect1 ≤ maxVarint ∧ r.ecnCount.ce ≤ maxVarint)
    (now rtt : ℕ) (b : Builder) (tokens : List (List PacketRange)) :
    ∃ out, r.writeFrame now rtt b tokens = .ok out := by
  have hecn' : ∀ c ∈ r.ecn,
      c.ect0 ≤ maxVarint ∧ c.ect1 ≤ maxVarint ∧ c.ce ≤ maxVarint := by
    intro c hc
    rw [RecvdPackets.ecn] at hc
    split_ifs at hc
    · cases hc
      exact hecn
    · cases hc
  rcases r.writeFrame_cases now rtt b tokens with
    heq | ⟨first, pending, ackDelay, r', hranges, had, hspace, heq⟩ <;> rw [heq]
  · exact ⟨_, rfl⟩
  · have hfirst : first ∈ r.ranges :=
      mem_of_mem_filter (hranges ▸ mem_cons_self)
    have hsub : Descending (first :: pending) := hranges ▸ hdesc.sublist filter_sublist
    obtain ⟨out, hout⟩ := encodeAckFrame_total hsub (hpns first hfirst) had hecn' hspace
    exact ⟨_, bind_eq_ok.mpr ⟨out, hout, rfl⟩⟩

/-- **ACK frames are truthful and decode back.**  If all packet numbers and ECN counts can be
encoded, writing never fails. If a frame is written, it fits; wherever it stands, decoding gives
the ranges of its token, in the same order; the packets in them were received; and they are the
newest ones that need acknowledgment. -/
theorem Reachable.ackFrame_decodes {space : PacketNumberSpace} {r : RecvdPackets} {pns : List ℕ}
    (h : Reachable space r pns) (now rtt : ℕ) (b : Builder) (tokens : List (List PacketRange)) :
    ((∀ pn ∈ pns, pn ≤ maxVarint) → r.ecnCount.ect0 ≤ maxVarint ∧
        r.ecnCount.ect1 ≤ maxVarint ∧ r.ecnCount.ce ≤ maxVarint →
      ∃ out, r.writeFrame now rtt b tokens = .ok out) ∧
    ∀ r' b' tokens', r.writeFrame now rtt b tokens = .ok (r', b', tokens') →
      (b' = b ∧ tokens' = tokens) ∨
      ∃ frame acked, tokens' = tokens ++ [acked] ∧ b'.bytes = b.bytes ++ frame ∧
        b'.limit = b.limit ∧ b'.len ≤ b'.limit ∧
        (∃ la ad fa ranges ecnCount,
          (∀ dec rest, dec.asRef = frame ++ rest →
            Frame.decode dec = .ok (.ack la ad fa ranges ecnCount, dec.skip frame.length)) ∧
          Frame.decodeAckFrame la fa ranges = .ok (acked.map fun g => (g.smallest, g.largest))) ∧
        acked.Pairwise (fun a b => b.largest + 1 < a.smallest) ∧
        (∀ g ∈ acked, ∀ pn, g.contains pn = true → pn ∈ pns) ∧
        acked ≠ [] ∧ acked <+: r.ranges.filter (·.ackNeeded) := by
  have htracks := h.tracks
  refine ⟨fun hpns hecn => ?_, fun r' b' tokens' hwrite => ?_⟩
  · refine writeFrame_total htracks.descending (fun g hg => ?_) hecn now rtt b tokens
    exact hpns _ ((htracks.covers_iff _).mp (covers_largest hg)).1
  rcases r.writeFrame_cases now rtt b tokens with
    heq | ⟨first, pending, ackDelay, _, hranges, -, -, heq⟩ <;> rw [heq] at hwrite
  · cases hwrite
    exact .inl ⟨rfl, rfl⟩
  obtain ⟨⟨b₁, acked⟩, hframe, hwrite⟩ := bind_eq_ok.mp hwrite
  cases hwrite
  obtain ⟨extra, rfl, hpre, hfits, hbytes, hlimit, hlen⟩ := encodeAckFrame_ok hframe
  have hpre' : first :: extra <+: r.ranges.filter (·.ackNeeded) :=
    hranges ▸ cons_prefix_cons.mpr ⟨rfl, hpre⟩
  have hsub : (first :: extra).Sublist r.ranges := hpre'.sublist.trans filter_sublist
  have hdesc : Descending (first :: extra) := htracks.descending.sublist hsub
  refine .inr ⟨_, _, rfl, hbytes, hlimit, hlen, ?_, hdesc, ?_, cons_ne_nil _ _, hpre'⟩
  · exact ⟨_, _, _, _, _, reads_ackFrame hfits, decodeAckFrame_ackRanges hdesc⟩
  · intro g hg pn hpn
    exact ((htracks.covers_iff pn).mp ⟨g, hsub.subset hg, hpn⟩).1

/-- Packets 0 and 2 are acknowledged with two ranges. -/
theorem ackFrame_decodes_of_two :
    ∃ r, Reachable .handshake r [2, 0] ∧
      (r.writeFrame 7 0 { limit := 100 } []).map (·.2) =
        .ok ({ bytes := [2, 2, 0, 1, 0, 0, 0], limit := 100 }, [[.new 2, .new 0]]) ∧
      ∃ out, r.writeFrame 7 0 { limit := 100 } [] = .ok out := by
  have h : Reachable .handshake _ [2, 0] :=
    .setReceived 6 2 true (.setReceived 5 0 true .new rfl rfl) rfl rfl
  exact ⟨_, h, rfl, (h.ackFrame_decodes 7 0 { limit := 100 } []).1 (by decide) (by decide)⟩

end Neqo.RecvdPackets
