import Neqo.SendStream.Equiv.Lifetime
import Neqo.Codec.Equiv

/-!
# `hasDataAt` mirrors `writeFrames`

`hasNextBytes` asks the same questions as `nextBytes` (`hasNextBytes_eq`), so that `hasDataAt` is
true exactly if one of the three writers has something to write: a reset, a blocked or a `STREAM`
frame (`hasDataAt_iff`). Without it they change nothing but what the range tracker has cached
(`uncached`). With it one of them writes, as each of these frames can do with 33 bytes.
-/

namespace Neqo

open Encoder List Option

/-! ### The same questions -/

namespace TxBuffer

variable (b : TxBuffer)

lemma nextBytes_fst_eq (split : ℕ) :
    (b.nextBytes split).2.map Prod.fst = b.firstUnmarkedRange.2.map Prod.fst := by
  unfold nextBytes
  rcases b.firstUnmarkedRange with ⟨b', _ | ⟨start, maybeLen⟩⟩ <;> rfl

lemma hasNextBytes_eq (split : ℕ) : b.hasNextBytes.2 = (b.nextBytes split).2.isSome := by
  rw [← isSome_map, nextBytes_fst_eq, isSome_map]
  rfl

lemma hasNextBytesBefore_eq (limit split : ℕ) :
    (b.hasNextBytesBefore limit).2 = (b.nextBytes split).2.any fun r => r.1 < limit := by
  have h := b.nextBytes_fst_eq split
  unfold hasNextBytesBefore
  cases h1 : b.firstUnmarkedRange.2 <;> cases h2 : (b.nextBytes split).2 <;> simp_all

/-- The buffer, without what its range tracker has cached. -/
def uncached (b : TxBuffer) : TxBuffer :=
  { b with ranges := { b.ranges with firstUnmarked := none } }

lemma nextBytes_uncached (split : ℕ) : (b.nextBytes split).1.uncached = b.uncached := by
  rw [nextBytes_fst]
  unfold firstUnmarkedRange RangeTracker.firstUnmarkedRange
  cases b.ranges.firstUnmarked <;> rfl

end TxBuffer

namespace SendStream

variable (s : SendStream)

/-- **`hasNextBytes` is true exactly if `nextBytes` returns something.** -/
theorem hasNextBytes_eq (retransmissionOnly : Bool) (split : ℕ) :
    (s.hasNextBytes retransmissionOnly).2 = (s.nextBytes retransmissionOnly split).2.isSome := by
  unfold hasNextBytes nextBytes
  cases s.state with
  | send fc sendBuf =>
    have hbefore := sendBuf.hasNextBytesBefore_eq s.retransmissionOffset split
    have hnext := sendBuf.hasNextBytes_eq split
    dsimp only
    split_ifs with hr
    · rw [hbefore]
      cases (sendBuf.nextBytes split).2 with
      | none => rfl
      | some r => by_cases h : r.1 < s.retransmissionOffset <;> simp [h]
    · rw [hnext]
      cases (sendBuf.nextBytes split).2 <;> rfl
  | dataSent sendBuf finSent =>
    simp only [sendBuf.hasNextBytes_eq split]
    cases (sendBuf.nextBytes split).2 <;> cases finSent <;> rfl
  | resetSentReliable sendBuf =>
    dsimp only
    generalize (if retransmissionOnly then _ else _) = limit
    rw [sendBuf.hasNextBytesBefore_eq limit split]
    cases (sendBuf.nextBytes split).2 with
    | none => rfl
    | some r => by_cases h : r.1 < limit <;> simp [h]
  | _ => rfl

/-- **What `hasDataAt` asks**: is a reset due, is a blocked frame due, or is there data to send? -/
theorem hasDataAt_iff (p : TransmissionPriority) (split : ℕ) : (s.hasDataAt p).2 = true ↔
    (s.dueReset p).isSome ∨ (p = s.priority ∧ ∃ fc, s.state.fc? = some fc ∧ fc.isBlocked) ∨
      (p = s.priority ∨ p = s.effectivePriority) ∧
        (s.nextBytes (decide (p ≠ s.priority)) split).2.isSome := by
  have hstream : (hasDataAt.hasStream s p).2 = true ↔ (p = s.priority ∨ p = s.effectivePriority) ∧
      (s.nextBytes (decide (p ≠ s.priority)) split).2.isSome := by
    unfold hasDataAt.hasStream
    split_ifs with h1 h2
    · simp [h1, hasNextBytes_eq _ _ split]
    · rw [hasNextBytes_eq _ _ split, decide_eq_true h1]
      exact (and_iff_right (.inr h2)).symm
    · simp [h1, h2]
  rw [← hstream]
  unfold hasDataAt dueReset State.fc?
  cases hs : s.state with
  | ready fc | send fc =>
    by_cases h : p = s.priority ∧ fc.isBlocked = true
    · simp [h]
    · simp [h]
  | resetSent err finalSize reliableSize priority =>
    have hno : (hasDataAt.hasStream s p).2 = false := by
      simp [hasDataAt.hasStream, hasNextBytes, hs]
    by_cases h : priority = some p <;> simp [h, hno]
  | resetSentReliable sendBuf err finalSize reliableSize priority =>
    by_cases h : priority = some p <;> simp [h]
  | _ => simp

/-! ### Nothing to write -/

/-- The stream, without what its range tracker has cached. -/
def uncached (s : SendStream) : SendStream := { s with state := s.state.mapTxBuf TxBuffer.uncached }

lemma nextBytes_uncached (retransmissionOnly : Bool) (split : ℕ) :
    (s.nextBytes retransmissionOnly split).1.uncached = s.uncached := by
  have hbuf (b : TxBuffer) := b.nextBytes_uncached split
  unfold nextBytes
  cases hs : s.state with
  | send | dataSent | resetSentReliable =>
    dsimp only
    split
    · simp [uncached, State.mapTxBuf, hs, hbuf]
    · split_ifs <;> simp [uncached, State.mapTxBuf, hs, hbuf]
  | _ => rfl

variable {p : TransmissionPriority}

lemma writeResetFrame_of_none (h : s.dueReset p = none) (b : Builder)
    (tokens : Tokens) : s.writeResetFrame p b tokens = (s, b, tokens, false) := by
  unfold dueReset at h
  unfold writeResetFrame
  cases hs : s.state with
  | resetSent | resetSentReliable =>
    rw [hs] at h
    dsimp only at h ⊢
    split_ifs at h with hp
    rw [if_pos hp]
  | _ => rfl

lemma writeBlockedFrame_of_not (h : ¬ (p = s.priority ∧ ∃ fc, s.state.fc? = some fc ∧ fc.isBlocked))
    (b : Builder) (tokens : Tokens) : s.writeBlockedFrame p b tokens = (s, b, tokens) := by
  unfold writeBlockedFrame
  split_ifs with hp
  · rfl
  · rw [not_ne_iff] at hp
    cases hs : s.state with
    | ready fc | send fc =>
      have hno : fc.blockedNeeded = none := by
        simpa [hp, hs, State.fc?, SenderFlowControl.isBlocked] using h
      simp [SenderFlowControl.writeStreamFrames, SenderFlowControl.writeBlocked, hno, ← hs]
    | _ => rfl

/-- **Without data**, `writeFrames` writes nothing and changes nothing but caches. -/
theorem writeFrames_of_not_hasDataAt (h : (s.hasDataAt p).2 = false)
    (connFc : ConnFc) (split : ℕ) (b : Builder) (tokens : Tokens) :
    (s.writeFrames connFc p split b tokens).1.uncached = s.uncached ∧
      (s.writeFrames connFc p split b tokens).2 = (connFc, b, tokens) := by
  have hno := (not_congr (s.hasDataAt_iff p split)).mp (Bool.eq_false_iff.mp h)
  rw [not_or, not_or, not_isSome_iff_eq_none] at hno
  obtain ⟨hreset, hblocked, hstream⟩ := hno
  have hnext := s.nextBytes_uncached (decide (p ≠ s.priority)) split
  unfold writeFrames
  rw [s.writeResetFrame_of_none hreset]
  dsimp only
  rw [if_neg Bool.false_ne_true, s.writeBlockedFrame_of_not hblocked]
  split_ifs
  · exact ⟨rfl, rfl⟩
  · unfold writeStreamFrame nextStreamFrame
    split_ifs with hp
    · exact ⟨rfl, rfl⟩
    · have hnone := not_isSome_iff_eq_none.mp fun hs => hstream ⟨by tauto, hs⟩
      dsimp only
      generalize s.nextBytes (decide (p ≠ s.priority)) split = res at hnone hnext ⊢
      obtain ⟨s', r⟩ := res
      obtain rfl : r = none := hnone
      exact ⟨hnext, rfl⟩

/-! ### Something to write -/

/-- Frames were written, of at least one byte each, with a token for each. -/
structure Wrote (b : Builder) (tokens : Tokens) (b' : Builder)
    (tokens' : Tokens) : Prop where
  bytes : b.bytes <+: b'.bytes
  issued : tokens <+: tokens'
  len : b.len + tokens'.length ≤ b'.len + tokens.length

/-- Each frame takes some of the space that remained. -/
structure Writes (b : Builder) (tokens : Tokens) (b' : Builder)
    (tokens' : Tokens) : Prop extends Wrote b tokens b' tokens' where
  remaining : b'.remaining + tokens'.length ≤ b.remaining + tokens.length

section Writes

variable {b b' b'' : Builder} {tokens tokens' tokens'' : Tokens}

lemma Writes.refl (b : Builder) (tokens : Tokens) : Writes b tokens b tokens :=
  ⟨⟨prefix_rfl, prefix_rfl, le_rfl⟩, le_rfl⟩

lemma Writes.trans (h : Writes b tokens b' tokens') (h' : Writes b' tokens' b'' tokens'') :
    Writes b tokens b'' tokens'' := by
  refine ⟨⟨h.bytes.trans h'.bytes, h.issued.trans h'.issued, ?_⟩, h'.remaining.trans h.remaining⟩
  have := h.len
  have := h'.len
  omega

variable (b : Builder)

lemma writes_encodeFrame (hspace : 0 < b.remaining) (frameType : FrameType) (content : Bytes)
    (tokens : Tokens) (token : StreamRecoveryToken) :
    Writes b tokens (b.encodeFrame frameType content) (tokens ++ [token]) := by
  have := varintLen_pos frameType.toNat
  refine ⟨⟨prefix_append _ _, prefix_append _ _, ?_⟩, ?_⟩
  all_goals
    simp only [Builder.encodeFrame, Builder.encode, Builder.remaining, Builder.len, length_append,
      length_encodeVarint, length_singleton] at *
    omega

lemma writeVarintFrame_cases (frameType : FrameType) (values : List ℕ) :
    (0 < b.remaining ∧
      ∃ content, b.writeVarintFrame frameType values = (b.encodeFrame frameType content, true)) ∨
      (b.writeVarintFrame frameType values = (b, false) ∧
        b.remaining < 8 * (values.length + 1)) := by
  have hsum (l : List ℕ) : (l.map Encoder.varintLen).sum ≤ 8 * l.length := by
    induction l with
    | nil => exact le_rfl
    | cons v =>
      have := varintLen_le v
      simp only [map_cons, sum_cons, length_cons]
      omega
  have hle := hsum (frameType.toNat :: values)
  unfold Builder.writeVarintFrame
  dsimp only
  split_ifs with h
  · have := varintLen_pos frameType.toNat
    rw [map_cons, sum_cons] at h
    exact .inl ⟨by omega, _, rfl⟩
  · exact .inr ⟨rfl, (not_le.mp h).trans_le hle⟩

lemma ResetFrame.write_cases (f : ResetFrame) :
    (0 < b.remaining ∧ ∃ frameType content, f.write b = (b.encodeFrame frameType content, true)) ∨
      (f.write b = (b, false) ∧ b.remaining < 64) := by
  unfold ResetFrame.write
  split_ifs
  all_goals
    rcases writeVarintFrame_cases b _ _ with ⟨hspace, content, h⟩ | ⟨h, hlt⟩
    · exact .inl ⟨hspace, _, content, h⟩
    · exact .inr ⟨h, hlt.trans (by simp)⟩

lemma writeResetFrame_writes (p : TransmissionPriority) (b : Builder) (tokens : Tokens) :
    Writes b tokens (s.writeResetFrame p b tokens).2.1 (s.writeResetFrame p b tokens).2.2.1 ∧
      ((s.dueReset p).isSome → 64 ≤ b.remaining →
        tokens.length < (s.writeResetFrame p b tokens).2.2.1.length) := by
  cases hdue : s.dueReset p with
  | none =>
    rw [s.writeResetFrame_of_none hdue]
    exact ⟨.refl b tokens, nofun⟩
  | some f =>
    have htokens := s.writeResetFrame_tokens p b tokens
    have hb : (s.writeResetFrame p b tokens).2.1 = (f.write b).1 := by
      unfold dueReset at hdue
      unfold writeResetFrame
      cases hs : s.state with
      | resetSent | resetSentReliable =>
        rw [hs] at hdue
        dsimp only at hdue ⊢
        split_ifs at hdue with hp
        obtain rfl := some.inj hdue
        split_ifs <;> rfl
      | _ => simp [hs] at hdue
    rw [hb, htokens, hdue]
    rcases f.write_cases b with ⟨hspace, frameType, content, hw⟩ | ⟨hw, hlt⟩
    · simp only [hw, filter_some, if_true, toList_some, map_singleton]
      exact ⟨writes_encodeFrame _ hspace _ _ _ _, fun _ _ => by simp⟩
    · simp only [hw, filter_some, Bool.false_eq_true, if_false, toList_none,
        map_nil, append_nil]
      exact ⟨.refl b tokens, fun _ hle => absurd hlt (not_lt.mpr hle)⟩

lemma writeBlockedFrame_writes (p : TransmissionPriority) (b : Builder) (tokens : Tokens) :
    Writes b tokens (s.writeBlockedFrame p b tokens).2.1 (s.writeBlockedFrame p b tokens).2.2 ∧
      ((p = s.priority ∧ ∃ fc, s.state.fc? = some fc ∧ fc.isBlocked) → 64 ≤ b.remaining →
        tokens.length < (s.writeBlockedFrame p b tokens).2.2.length) := by
  by_cases hdue : p = s.priority ∧ ∃ fc, s.state.fc? = some fc ∧ fc.isBlocked
  · obtain ⟨hp, fc, hfc, hblocked⟩ := hdue
    have hwrites : Writes b tokens (fc.writeStreamFrames b tokens).2.1
        (fc.writeStreamFrames b tokens).2.2 ∧
        (64 ≤ b.remaining → tokens.length < (fc.writeStreamFrames b tokens).2.2.length) := by
      obtain ⟨limit, hlimit⟩ := isSome_iff_exists.mp hblocked
      unfold SenderFlowControl.writeStreamFrames SenderFlowControl.writeBlocked
      simp only [hlimit]
      rcases writeVarintFrame_cases b .streamDataBlocked ([fc.subject.asU64] ++ [limit]) with
        ⟨hspace, content, h⟩ | ⟨h, hlt⟩
      · rw [h]
        exact ⟨writes_encodeFrame _ hspace _ _ _ _, fun _ => by simp⟩
      · rw [h]
        exact ⟨.refl b tokens, fun hle => absurd (hlt.trans (by simp)) (not_lt.mpr hle)⟩
    unfold writeBlockedFrame
    rw [if_neg (not_ne_iff.mpr hp)]
    cases hs : s.state with
    | ready | send =>
      rw [hs] at hfc
      obtain rfl := some.inj hfc
      exact ⟨hwrites.1, fun _ => hwrites.2⟩
    | _ => simp [hs, State.fc?] at hfc
  · rw [s.writeBlockedFrame_of_not hdue]
    exact ⟨.refl b tokens, fun h => absurd h hdue⟩

lemma StreamFrame.encode_writes (f : StreamFrame) (hspace : 0 < b.remaining)
    (tokens : Tokens) (token : StreamRecoveryToken) :
    Writes b tokens (f.encode b) (tokens ++ [token]) := by
  unfold StreamFrame.encode
  by_cases hfill : f.fill = true
  · simp only [hfill, if_true]
    have hpad : b.bytes <+: (b.padBefore
        (streamOverhead f.streamId f.offset + f.data.length)).bytes := by
      unfold Builder.padBefore
      split_ifs
      · exact prefix_append _ _
      · exact prefix_rfl
    have hlen := hpad.length_le
    refine ⟨⟨hpad.trans (prefix_append _ _), prefix_append _ _, ?_⟩, ?_⟩
    · have := varintLen_pos (Frame.streamType f.fin (f.offset > 0) true).toNat
      simp only [Builder.markFull, Builder.encodeFrame, Builder.encode, Builder.len,
        length_append, length_encodeVarint, length_singleton]
      omega
    · have hfull (b : Builder) : b.markFull.remaining = 0 := Nat.sub_self _
      rw [hfull, length_append, length_singleton]
      omega
  · simp only [hfill, if_false, Bool.false_eq_true]
    exact writes_encodeFrame b hspace _ _ _ _

lemma remaining_pos_of_nextStreamFrame {p : TransmissionPriority} {split remaining : ℕ}
    (h : (s.nextStreamFrame p split remaining).2.isSome) : 0 < remaining := by
  unfold nextStreamFrame at h
  dsimp only at h
  split at h
  · cases h
  · split at h
    · cases h
    · split_ifs at h with hoverhead <;> simp [streamOverhead] at *
      omega

lemma writeStreamFrame_writes (connFc : ConnFc) (p : TransmissionPriority) (split : ℕ)
    (b : Builder) (tokens : Tokens) :
    Writes b tokens (s.writeStreamFrame connFc p split b tokens).2.2.1
        (s.writeStreamFrame connFc p split b tokens).2.2.2 ∧
      ((s.nextStreamFrame p split b.remaining).2.isSome →
        tokens.length < (s.writeStreamFrame connFc p split b tokens).2.2.2.length) := by
  have hspace := @remaining_pos_of_nextStreamFrame s p split b.remaining
  unfold writeStreamFrame
  generalize s.nextStreamFrame p split b.remaining = res at hspace ⊢
  obtain ⟨s', _ | f⟩ := res
  · exact ⟨.refl b tokens, nofun⟩
  · exact ⟨f.encode_writes b (hspace rfl) _ _, fun _ => by simp⟩

lemma writeFrames_writes (connFc : ConnFc) (p : TransmissionPriority) (split : ℕ)
    (b : Builder) (tokens : Tokens) :
    Writes b tokens (s.writeFrames connFc p split b tokens).2.2.1
      (s.writeFrames connFc p split b tokens).2.2.2 := by
  have hreset := (s.writeResetFrame_writes p b tokens).1
  unfold writeFrames
  generalize s.writeResetFrame p b tokens = res at hreset ⊢
  obtain ⟨s₁, b₁, tokens₁, done⟩ := res
  have hblocked := hreset.trans (s₁.writeBlockedFrame_writes p b₁ tokens₁).1
  dsimp only
  split_ifs
  · exact hreset
  · exact hblocked
  · exact hblocked.trans (writeStreamFrame_writes _ connFc p split _ _).1

end Writes

lemma nextStreamFrame_isSome {s : SendStream} {r : Record} {phase : Phase}
    (h : s.state.Tracks r phase) {split remaining : ℕ}
    (hp : p = s.priority ∨ p = s.effectivePriority)
    (hnext : (s.nextBytes (decide (p ≠ s.priority)) split).2.isSome) (hspace : 64 ≤ remaining) :
    (s.nextStreamFrame p split remaining).2.isSome := by
  have hallowed := nextBytes_allowed h (decide (p ≠ s.priority)) split
  unfold nextStreamFrame
  rw [if_neg (by tauto)]
  dsimp only
  generalize s.nextBytes (decide (p ≠ s.priority)) split = res at hnext hallowed ⊢
  obtain ⟨s', _ | ⟨offset, data⟩⟩ := res
  · cases hnext
  have hoverhead : streamOverhead s'.streamId offset ≤ 17 := by
    have := varintLen_le s'.streamId.asU64
    have := varintLen_le offset
    unfold streamOverhead
    split_ifs <;> omega
  dsimp only
  rw [if_neg (by omega), if_neg, isSome_some]
  rintro ⟨hzero, hfin⟩
  by_cases hdata : data = []
  · -- nothing but FIN is sent, at the end of the stream
    obtain ⟨sendBuf, finSent, finAcked, committed, hs, rfl⟩ := (hallowed offset data rfl).2 hdata
    rw [hs, hzero] at hfin
    simp at hfin
  · have := length_pos_iff.mpr hdata
    unfold lengthAndFill at hzero
    split_ifs at hzero <;> dsimp only at hzero <;> omega

end SendStream

namespace Sending

open SendStream

/-- **`hasDataAt` mirrors `writeFrames`.**  If it is false, `writeFrames` writes nothing into any
packet and changes nothing but caches. If it is true and the packet has space for 64 bytes, a frame
is written. `hasNextBytes` is true exactly if `nextBytes` returns something. -/
theorem Reachable.hasDataAt_mirrors {t : Sending} (h : t.Reachable) (p : TransmissionPriority) :
    ((t.stream.hasDataAt p).2 = false → ∀ connFc split b tokens,
      (t.stream.writeFrames connFc p split b tokens).1.uncached = t.stream.uncached ∧
        (t.stream.writeFrames connFc p split b tokens).2 = (connFc, b, tokens)) ∧
    ((t.stream.hasDataAt p).2 = true → ∀ connFc split (b : Builder) tokens, 64 ≤ b.remaining →
      Wrote b tokens (t.stream.writeFrames connFc p split b tokens).2.2.1
          (t.stream.writeFrames connFc p split b tokens).2.2.2 ∧
        tokens.length < (t.stream.writeFrames connFc p split b tokens).2.2.2.length) ∧
    ∀ retransmissionOnly split, (t.stream.hasNextBytes retransmissionOnly).2 =
      (t.stream.nextBytes retransmissionOnly split).2.isSome := by
  refine ⟨t.stream.writeFrames_of_not_hasDataAt, fun hdata connFc split b tokens hspace =>
    ⟨(t.stream.writeFrames_writes connFc p split b tokens).toWrote, ?_⟩, t.stream.hasNextBytes_eq⟩
  obtain ⟨phase, hsound⟩ := h.sound
  have hstream (s : SendStream) (b : Builder) (tokens : Tokens) :=
    s.writeStreamFrame_writes connFc p split b tokens
  unfold writeFrames
  cases hreset : t.stream.dueReset p with
  | some =>
    have hfirst := (t.stream.writeResetFrame_writes p b tokens).2 (hreset ▸ rfl) hspace
    generalize t.stream.writeResetFrame p b tokens = res at hfirst ⊢
    obtain ⟨s₁, b₁, tokens₁, done⟩ := res
    have hmore := hfirst.trans_le (s₁.writeBlockedFrame_writes p b₁ tokens₁).1.issued.length_le
    dsimp only at hfirst ⊢
    split_ifs
    · exact hfirst
    · exact hmore
    · exact hmore.trans_le (hstream _ _ _).1.issued.length_le
  | none =>
    rw [t.stream.writeResetFrame_of_none hreset]
    dsimp only
    rw [if_neg Bool.false_ne_true]
    by_cases hblocked : p = t.stream.priority ∧ ∃ fc, t.stream.state.fc? = some fc ∧ fc.isBlocked
    · have hfirst := (t.stream.writeBlockedFrame_writes p b tokens).2 hblocked hspace
      split_ifs
      · exact hfirst
      · exact hfirst.trans_le (hstream _ _ _).1.issued.length_le
    · rw [t.stream.writeBlockedFrame_of_not hblocked]
      have hfull : b.isFull = false := by
        unfold Builder.remaining at hspace
        exact decide_eq_false (by unfold Builder.minimumFrameSize; omega)
      rw [hfull]
      obtain ⟨hp, hnext⟩ := (((t.stream.hasDataAt_iff p split).mp hdata).resolve_left
        (by simp [hreset])).resolve_left hblocked
      exact (hstream _ _ _).2 (nextStreamFrame_isSome hsound.tracks hp hnext hspace)

/-- A stream that was closed without having sent anything has a FIN to send, at its own priority
only. -/
theorem hasDataAt_mirrors_fin :
    let s := ((Sending.new ⟨0⟩ 100).run [({ subject := (), limit := 100 }, .close)]).stream
    (s.hasDataAt .low).2 = false ∧
      0 < (s.writeFrames { subject := (), limit := 100 } .normal 0 { limit := 100 }
      []).2.2.2.length :=
  ⟨by decide, ((Reachable.hasDataAt_mirrors ⟨⟨0⟩, 100, _, rfl⟩ .normal).2.1 (by decide) _ 0
    { limit := 100 } [] (by decide)).2⟩

end Sending

end Neqo
