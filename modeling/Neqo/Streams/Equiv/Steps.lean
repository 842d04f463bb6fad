import Neqo.RecvStream.Equiv.Basic
import Neqo.SendStream.Equiv.Touched
import Neqo.Streams.Basic

/-!
# Which operations end a stream

A half of a stream that has ended stays so, and few operations end one. On the sending half these
are an acknowledgment of data or of a reset, and `dropCommitment` of a stream whose reset is
acknowledged. On the receiving half they report it in their result.
-/

namespace Neqo

open IndexMap RecvStream RecvStreams SendStreams

/-! ### The sending half -/

namespace SendStream

/-- The peer has acknowledged the reset of this stream, but not yet all of the committed data. -/
def resetAckedEarly (s : SendStream) : Bool :=
  match s.state with
  | .resetSentReliable _ _ _ _ _ resetAcked => resetAcked
  | _ => false

lemma isEnded_new (id : StreamId) (maxStreamData : ℕ) : (new id maxStreamData).isEnded = false :=
  rfl

variable (s : SendStream)

lemma isEnded_close : s.close.isEnded = s.isEnded := by
  unfold close isEnded
  cases h : s.state <;> simp only [h]

lemma isEnded_commit : s.commit.1.isEnded = s.isEnded := by
  unfold commit isEnded
  cases h : s.state <;> simp only [h]

lemma isEnded_makeResetState (err : ℕ) (priority : TransmissionPriority) (sendBuf : TxBuffer)
    (finalSize committed : ℕ) :
    { s with state := makeResetState err priority sendBuf finalSize committed }.isEnded =
      false := by
  unfold makeResetState
  dsimp only
  split_ifs <;> rfl

lemma isEnded_reset (err : ℕ) : (s.reset err).isEnded = s.isEnded := by
  unfold reset
  cases h : s.state with
  | send | dataSent =>
    rw [isEnded_makeResetState]
    simp only [isEnded, h]
  | _ => simp only [isEnded, h]

/-- The one way in which a `STOP_SENDING` ends a stream. -/
lemma isEnded_dropCommitment {s : SendStream} (hs : s.resetAckedEarly = false) :
    s.dropCommitment.isEnded = s.isEnded := by
  unfold resetAckedEarly at hs
  unfold dropCommitment isEnded
  cases h : s.state with
  | resetSentReliable =>
    rw [h] at hs
    simp [hs]
  | _ => simp only [h]

lemma isEnded_enterSend : s.enterSend.isEnded = s.isEnded := by
  unfold enterSend isEnded
  cases h : s.state <;> simp only [h]

lemma isEnded_sendInternal (connFc : ConnFc) (buf : Bytes) (atomic : Bool) :
    (s.sendInternal connFc buf atomic).1.isEnded = s.isEnded := by
  unfold sendInternal
  split_ifs
  · rfl
  · rw [← isEnded_enterSend s]
    dsimp only
    cases h : s.enterSend.state with
    | send =>
      split_ifs
      · rfl
      · exact (sendBlockedIfSpaceNeeded_touched _ _ _).isEnded
      all_goals simp only [isEnded, h]
    | _ => rfl

end SendStream

/-! ### The receiving half -/

namespace RecvStream

open RecvStreamState

lemma isEnded_new (id : StreamId) (maxStreamData : ℕ) : (new id maxStreamData).isEnded = false :=
  rfl

section

variable (s : RecvStream) (sessionFc : SessionFc)

lemma isEnded_flowControlConsumeData (consumed : ℕ) (fin : Bool) :
    { s with state := (s.state.flowControlConsumeData sessionFc consumed fin).1 }.isEnded
      = s.isEnded := by
  rw [Bool.eq_iff_iff, isEnded_iff, isEnded_iff]
  cases hfc : s.state.fc with
  | none => rw [flowControlConsumeData_of_none hfc, hfc]
  | some =>
    have hfin := (noteFin_fc s.state fin).trans hfc
    obtain ⟨fc', _, _, heq, -⟩ := flowControlConsumeData_spec hfc sessionFc consumed fin
    rw [heq, setFc_fc hfin]
    simp

lemma isEnded_inboundStreamFrame (fin : Bool) (offset : ℕ) (data : Bytes) :
    (s.inboundStreamFrame sessionFc fin offset data).1.isEnded = s.isEnded := by
  rw [← isEnded_flowControlConsumeData s sessionFc (offset + data.length) fin]
  unfold inboundStreamFrame
  dsimp only
  generalize s.state.flowControlConsumeData sessionFc (offset + data.length) fin = r
  obtain ⟨state, sessionFc', _ | _⟩ := r
  · rfl
  · rw [Bool.eq_iff_iff, isEnded_iff, isEnded_iff]
    rw [receiveData_fc]

lemma isEnded_completeReliableResetIfDrained :
    (s.completeReliableResetIfDrained sessionFc).1.isEnded
      = (s.isEnded || (s.completeReliableResetIfDrained sessionFc).2.2) := by
  unfold completeReliableResetIfDrained
  cases h : s.state with
  | sizeKnownAt =>
    dsimp only
    split_ifs <;> simp [finishReset, isEnded, h]
  | _ => simp

lemma isEnded_applyReset (applicationErrorCode finalSize reliableSize : ℕ)
    (h : (s.applyReset sessionFc applicationErrorCode finalSize reliableSize).1.isEnded = true) :
    s.isEnded = true ∨
      (s.applyReset sessionFc applicationErrorCode finalSize reliableSize).2.2 = .ok true := by
  have hsettle : ∀ fc recvBuf err finalSize reliableSize,
      (s.settleReset sessionFc fc recvBuf err finalSize reliableSize).1.isEnded = true →
      (s.settleReset sessionFc fc recvBuf err finalSize reliableSize).2.2 = .ok true := by
    intro fc recvBuf err finalSize reliableSize hended
    unfold settleReset at hended ⊢
    dsimp only at hended ⊢
    rw [isEnded_completeReliableResetIfDrained, Bool.or_eq_true] at hended
    obtain hended | hended := hended
    · cases hended
    · rw [hended]
  unfold applyReset at h ⊢
  cases hs : s.state with
  | recv | sizeKnown =>
    rw [hs] at h
    exact .inr (hsettle _ _ _ _ _ h)
  | sizeKnownAt =>
    rw [hs] at h
    dsimp only at h ⊢
    split_ifs at h ⊢
    · exact .inl h
    · exact .inr (hsettle _ _ _ _ _ h)
    · exact .inl h
  | abortReading | waitForReset => exact .inr rfl
  | _ =>
    rw [hs] at h
    exact .inl h

lemma isEnded_reset (applicationErrorCode finalSize reliableSize : ℕ)
    (h : (s.reset sessionFc applicationErrorCode finalSize reliableSize).1.isEnded = true) :
    s.isEnded = true ∨
      (s.reset sessionFc applicationErrorCode finalSize reliableSize).2.2 = .ok true := by
  have hcharge := isEnded_flowControlConsumeData s sessionFc finalSize true
  unfold reset at h ⊢
  split_ifs at h ⊢
  · exact .inl h
  · generalize s.state.flowControlConsumeData sessionFc finalSize true = r at h hcharge ⊢
    obtain ⟨state, sessionFc', _ | _⟩ := r
    · exact .inl (hcharge ▸ h)
    · obtain hended | hended := isEnded_applyReset _ _ _ _ _ h
      · exact .inl (hcharge ▸ hended)
      · exact .inr hended

end

lemma read_error {s : RecvStream} {sessionFc : SessionFc} {bufLen : ℕ} {e : Error}
    (h : (s.read sessionFc bufLen).2.2 = .error e) : (s.read sessionFc bufLen).1 = s := by
  unfold read at h ⊢
  cases hs : s.state with
  | dataRecvd =>
    rw [hs] at h
    dsimp only at h
    split_ifs at h
  | recv | sizeKnown | sizeKnownAt =>
    rw [hs] at h
    cases h
  | _ => rfl

section

variable (s : RecvStream)

lemma isEnded_stopSending (sessionFc : SessionFc) (err : ℕ) :
    (s.stopSending sessionFc err).1.isEnded
      = (s.isEnded || (s.stopSending sessionFc err).2.2) := by
  unfold stopSending
  cases h : s.state <;> simp [abort, finishReset, isEnded, h]

lemma isEnded_stopSendingAcked :
    s.stopSendingAcked.1.isEnded = (s.isEnded || s.stopSendingAcked.2) := by
  unfold stopSendingAcked
  cases h : s.state with
  | abortReading =>
    dsimp only
    split_ifs <;> simp [isEnded, h]
  | _ => simp

lemma isEnded_stopSendingLost : s.stopSendingLost.isEnded = s.isEnded := by
  unfold stopSendingLost isEnded
  cases h : s.state <;> simp only [h]

lemma isEnded_sendFlowcUpdate : s.sendFlowcUpdate.isEnded = s.isEnded := by
  unfold sendFlowcUpdate isEnded
  cases h : s.state <;> simp only [h]

lemma isEnded_maxStreamDataLost (maximumData : ℕ) :
    (s.maxStreamDataLost maximumData).isEnded = s.isEnded := by
  unfold maxStreamDataLost isEnded
  cases h : s.state <;> simp only [h]

lemma isEnded_setStreamMaxData (maxData : ℕ) :
    (s.setStreamMaxData maxData).isEnded = s.isEnded := by
  unfold setStreamMaxData isEnded
  cases h : s.state <;> simp only [h]

lemma isEnded_writeFrame (b : Builder) (tokens : Tokens)
    (now rtt : ℕ) : (s.writeFrame b tokens now rtt).1.isEnded = s.isEnded := by
  unfold writeFrame
  cases h : s.state with
  | recv => simp only [isEnded, h]
  | abortReading =>
    dsimp only
    split_ifs <;> simp only [isEnded, h]
  | _ => rfl

end

end RecvStream

/-!
## What operations do to the streams that are there

Most operations may create streams of the peer and then change streams that are there
(`Streams.Follows`). Such a change keeps the set of streams. It also keeps the flags right that
say that a stream has ended (`SendStreams.Noted`, `RecvStreams.Noted`), except for a `STOP_SENDING`
on a stream whose reset was acknowledged before its committed data: `dropCommitment` then ends the
stream without setting the flag.
-/

/-! ### Sending halves -/

namespace SendStreams

variable {quiet : Prop} {ss : SendStreams} {id : StreamId}

/-- Streams that have ended are noted. -/
def Noted (ss : SendStreams) : Prop :=
  ss.hasEnded = false → ∀ id s, ss.map.Mem id s → s.isEnded = false

/-- The streams in the two maps are the same ones, and those that have ended are still noted, if the
change is a quiet one. -/
structure Same (quiet : Prop) (ss ss' : SendStreams) : Prop where
  keys : ∀ id, (ss'.get? id).isSome = (ss.get? id).isSome
  noted : quiet → ss.Noted → ss'.Noted

lemma Same.refl (ss : SendStreams) : Same quiet ss ss := ⟨fun _ => rfl, fun _ => id⟩

lemma get?_insert (ss : SendStreams) (id id' : StreamId) (stream : SendStream) :
    (ss.insert id stream).get? id' = if id' = id then some stream else ss.get? id' :=
  IndexMap.get?_insert ss.map id id' stream

lemma Noted.insert (h : ss.Noted) {s : SendStream}
    (hs : ss.hasEnded = false → s.isEnded = false) : (ss.insert id s).Noted := by
  intro hflag id' s' hmem
  obtain ⟨-, rfl⟩ | ⟨-, hmem⟩ := mem_insert.mp hmem
  · exact hs hflag
  · exact h hflag id' s' hmem

lemma same_noting {s s' : SendStream} {ended : Bool} (hget : ss.get? id = some s)
    (hs : quiet → s'.isEnded = true → s.isEnded = true ∨ ended = true) :
    Same quiet ss { ss.insert id s' with hasEnded := ss.hasEnded || ended } := by
  refine ⟨fun id' => ?_, fun hq h hor => ?_⟩
  · show ((ss.insert id s').get? id').isSome = _
    rw [get?_insert]
    split_ifs with hid
    · rw [hid, hget]
      rfl
    · rfl
  · obtain ⟨hflag, rfl⟩ := Bool.or_eq_false_iff.mp hor
    refine h.insert (fun _ => ?_) hflag
    rw [← Bool.not_eq_true]
    intro hended
    obtain hold | hnoted := hs hq hended
    · rw [h hflag id s (get?_eq_some_iff.mp hget)] at hold
      cases hold
    · cases hnoted

lemma same_insert {s s' : SendStream} (hget : ss.get? id = some s)
    (hs : quiet → s'.isEnded = s.isEnded) : Same quiet ss (ss.insert id s') := by
  have h := @same_noting quiet ss id s s' false hget fun hq hs' => .inl ((hs hq).symm.trans hs')
  rwa [Bool.or_false] at h

lemma same_modify {f : SendStream → SendStream} (hf : ∀ s, (f s).isEnded = s.isEnded) :
    Same quiet ss (ss.modify id f) := by
  unfold modify
  cases hget : ss.get? id with
  | none => exact .refl ss
  | some s => exact same_insert hget fun _ => hf s

lemma same_modifyNoting (f : SendStream → SendStream) : Same quiet ss (ss.modifyNoting id f) := by
  unfold modifyNoting
  cases hget : ss.get? id with
  | none => exact .refl ss
  | some => exact same_noting hget fun _ => .inr

lemma same_updateInitialLimit (ss : SendStreams) (remote : TransportParameters) :
    Same quiet ss (ss.updateInitialLimit remote) := by
  refine ⟨fun id => ?_, fun _ h hflag id s hmem => ?_⟩
  · rw [Bool.eq_iff_iff]
    show (ss.map.mapValues _).containsKey id = true ↔ ss.map.containsKey id = true
    simp only [containsKey_iff, mem_mapValues]
    exact ⟨fun ⟨_, w, hw, _⟩ => ⟨w, hw⟩, fun ⟨w, hw⟩ => ⟨_, w, hw, rfl⟩⟩
  · obtain ⟨s, hs, rfl⟩ := mem_mapValues.mp hmem
    rw [(SendStream.setMaxStreamData_touched s _).isEnded]
    exact h hflag id s hs

end SendStreams

/-! ### Receiving halves -/

namespace RecvStreams

variable {rs : RecvStreams} {ss ss' : SendStreams} {id : StreamId}

/-- Streams that can be dropped are noted. -/
def Noted (rs : RecvStreams) (ss : SendStreams) : Prop :=
  rs.hasEnded = false → ∀ id s, rs.streams.Mem id s → dead ss id s = false

variable {s s' : RecvStream}

lemma dead_of_not_ended (h : s.isEnded = false) : dead ss id s = false := by
  unfold dead
  rw [h, Bool.false_and]

/-- The streams in the two maps are the same ones, and those that can be dropped are still noted. -/
structure Same (rs rs' : RecvStreams) : Prop where
  role : rs'.role = rs.role
  keys : ∀ id, (rs'.get? id).isSome = (rs.get? id).isSome
  noted : ∀ ss, rs.Noted ss → rs'.Noted ss

lemma Same.refl (rs : RecvStreams) : Same rs rs := ⟨rfl, fun _ => rfl, fun _ => id⟩

lemma Same.trans {rs' rs'' : RecvStreams} (h : Same rs rs') (h' : Same rs' rs'') : Same rs rs'' :=
  ⟨h'.role.trans h.role, fun id => (h'.keys id).trans (h.keys id),
    fun ss hrs => h'.noted ss (h.noted ss hrs)⟩

lemma get?_insert (rs : RecvStreams) (id id' : StreamId) (stream : RecvStream) :
    (rs.insert id stream).get? id' = if id' = id then some stream else rs.get? id' :=
  OrdMap.get?_insert rs.streams id id' stream

lemma Noted.insert (h : rs.Noted ss) (hs : rs.hasEnded = false → dead ss id s = false) :
    (rs.insert id s).Noted ss := by
  intro hflag id' s' hmem
  obtain ⟨rfl, rfl⟩ | ⟨-, hmem⟩ := OrdMap.mem_insert.mp hmem
  · exact hs hflag
  · exact h hflag id' s' hmem

lemma same_noting {ended : Bool} (hget : rs.get? id = some s)
    (hs : s'.isEnded = true → s.isEnded = true ∨ ended = true) :
    Same rs ((rs.insert id s').setEnded ended) := by
  refine ⟨rfl, fun id' => ?_, fun ss h hor => ?_⟩
  · show ((rs.insert id s').get? id').isSome = _
    rw [get?_insert]
    split_ifs with hid
    · rw [hid, hget]
      rfl
    · rfl
  · obtain ⟨hflag, rfl⟩ := Bool.or_eq_false_iff.mp hor
    refine h.insert (fun _ => ?_) hflag
    cases hs' : s'.isEnded with
    | false => exact dead_of_not_ended hs'
    | true =>
      obtain hended | hended := hs hs'
      · have hdead := h hflag id s (OrdMap.get?_eq_some_iff.mp hget)
        rwa [dead, hended, ← hs'] at hdead
      · cases hended

lemma same_insert (hget : rs.get? id = some s) (hs : s'.isEnded = true → s.isEnded = true) :
    Same rs (rs.insert id s') := by
  have h := @same_noting rs id s s' false hget fun hs' => .inl (hs hs')
  rwa [setEnded, Bool.or_false] at h

section

variable (rs : RecvStreams) (sessionFc : SessionFc) (id : StreamId)

lemma same_read (bufLen : ℕ) : Same rs (rs.read sessionFc id bufLen).1 := by
  unfold read
  cases hget : rs.get? id with
  | none => exact .refl rs
  | some s =>
    dsimp only
    cases hr : (s.read sessionFc bufLen).2.2 with
    | error =>
      rw [read_error hr]
      exact same_insert hget fun hs => hs
    | ok => exact same_noting hget .inr

lemma same_stopSending (err : ℕ) : Same rs (rs.stopSending sessionFc id err).1 := by
  unfold stopSending
  cases hget : rs.get? id with
  | none => exact .refl rs
  | some =>
    refine same_noting hget fun hended => ?_
    rwa [isEnded_stopSending, Bool.or_eq_true] at hended

lemma same_reset (applicationErrorCode finalSize reliableSize : ℕ) :
    Same rs (rs.reset sessionFc id applicationErrorCode finalSize reliableSize).1 := by
  unfold reset
  cases hget : rs.get? id with
  | none => exact .refl rs
  | some s =>
    have hended := isEnded_reset s sessionFc applicationErrorCode finalSize reliableSize
    dsimp only
    cases hr : (s.reset sessionFc applicationErrorCode finalSize reliableSize).2.2 with
    | error =>
      rw [hr] at hended
      exact same_insert hget fun hs' => (hended hs').resolve_right nofun
    | ok =>
      rw [hr] at hended
      exact same_noting hget fun hs' => (hended hs').imp_right Except.ok.inj

end

lemma same_stopSendingAcked (rs : RecvStreams) (id : StreamId) :
    Same rs (rs.stopSendingAcked id) := by
  unfold stopSendingAcked
  cases hget : rs.get? id with
  | none => exact .refl rs
  | some s =>
    have hended := isEnded_stopSendingAcked s
    dsimp only
    generalize s.stopSendingAcked = r at hended ⊢
    exact same_noting hget fun hs' => Bool.or_eq_true_iff.mp (hended.symm.trans hs')

lemma same_writeFramesFor (ids : List StreamId) (rs : RecvStreams) (b : Builder)
    (tokens : Tokens) (now rtt : ℕ) :
    Same rs (writeFramesFor ids rs b tokens now rtt).1 := by
  induction ids generalizing rs b tokens with
  | nil => exact .refl rs
  | cons id ids ih =>
    unfold writeFramesFor
    cases hget : rs.get? id with
    | none => exact ih rs b tokens
    | some s =>
      have hsame := same_insert hget (isEnded_writeFrame s b tokens now rtt).symm.trans
      dsimp only
      split_ifs
      · exact hsame
      · exact hsame.trans (ih _ _ _)

end RecvStreams

/-! ### Both halves -/

namespace Streams

variable {quiet : Prop} {s s' : Streams} {id : StreamId}

/-- The streams are the same ones. -/
structure Keeps (quiet : Prop) (s s' : Streams) : Prop where
  role : s'.role = s.role
  roleBit : s'.localStreamLimits.roleBit = s.localStreamLimits.roleBit
  next : ∀ streamType, (s'.remoteStreamLimits.get streamType).nextStream =
    (s.remoteStreamLimits.get streamType).nextStream
  send : s.send.Same quiet s'.send
  recv : s.recv.Same s'.recv

lemma Keeps.refl (s : Streams) : Keeps quiet s s := ⟨rfl, rfl, fun _ => rfl, .refl _, .refl _⟩

lemma keeps_send {send : SendStreams} (h : s.send.Same quiet send) (senderFc : ConnFc) :
    Keeps quiet s { s with send := send, senderFc := senderFc } :=
  ⟨rfl, rfl, fun _ => rfl, h, .refl _⟩

lemma keeps_recv {recv : RecvStreams} (h : s.recv.Same recv) (receiverFc : SessionFc) :
    Keeps quiet s { s with recv := recv, receiverFc := receiverFc } :=
  ⟨rfl, rfl, fun _ => rfl, .refl _, h⟩

lemma keeps_modifyFc (s : Streams) (streamType : StreamType)
    (f : ReceiverFlowControl StreamType → ReceiverFlowControl StreamType) :
    Keeps quiet s { s with remoteStreamLimits :=
      s.remoteStreamLimits.modify streamType fun l => l.modifyFc f } := by
  refine ⟨rfl, rfl, fun streamType' => ?_, .refl _, .refl _⟩
  cases streamType <;> cases streamType' <;> rfl

lemma keeps_modifyLocal (s : Streams) (streamType : StreamType)
    (f : SenderFlowControl StreamType → SenderFlowControl StreamType) :
    Keeps quiet s { s with localStreamLimits := s.localStreamLimits.modify streamType f } :=
  ⟨rfl, rfl, fun _ => rfl, .refl _, .refl _⟩

/-! #### Streams that are created -/

/-- What holds and is kept when a stream of the peer is created holds after any number of them. -/
lemma createWhileNew_induction {P : Streams → Prop}
    (hstep : ∀ s streamType, P s → P (s.createNextRemote streamType)) (fuel : ℕ) (h : P s)
    (id : StreamId) : P (createWhileNew fuel s id).1 := by
  induction fuel generalizing s with
  | zero => exact h
  | succ fuel ih =>
    unfold createWhileNew
    cases (s.remoteStreamLimits.get id.streamType).isNewStream id with
    | error => exact h
    | ok isNew =>
      cases isNew with
      | false => exact h
      | true => exact ih (hstep s _ h)

lemma obtainStream_induction {P : Streams → Prop}
    (hstep : ∀ s streamType, P s → P (s.createNextRemote streamType)) (h : P s) (id : StreamId) :
    P (s.obtainStream id).1 := by
  have hcreated : P (s.ensureCreatedIfRemote id).1 := by
    unfold ensureCreatedIfRemote
    split_ifs
    · exact h
    · exact createWhileNew_induction hstep _ h id
  unfold obtainStream
  generalize s.ensureCreatedIfRemote id = r at hcreated ⊢
  obtain ⟨s', _ | _⟩ := r
  · exact hcreated
  · dsimp only
    split_ifs <;> exact hcreated

lemma obtainStream_get? (s : Streams) (id : StreamId) (ss : Option SendStream)
    (rs : Option RecvStream) (hok : (s.obtainStream id).2 = .ok (ss, rs)) :
    (s.obtainStream id).1.send.get? id = ss ∧ (s.obtainStream id).1.recv.get? id = rs := by
  unfold obtainStream at hok ⊢
  generalize s.ensureCreatedIfRemote id = r at hok ⊢
  obtain ⟨s', _ | _⟩ := r
  · cases hok
  · dsimp only at hok ⊢
    split_ifs at hok ⊢
    exact Prod.mk.inj (Except.ok.inj hok)

lemma mem_obtainStream (s : Streams) (id id' : StreamId) (ss : SendStream)
    (hmem : (s.obtainStream id).1.send.map.Mem id' ss) :
    s.send.map.Mem id' ss ∨ ∃ max, ss = .new id' max := by
  revert hmem
  refine obtainStream_induction (P := fun s' => s'.send.map.Mem id' ss → _)
    (fun s' streamType hs hmem => ?_) Or.inl id
  unfold createNextRemote at hmem
  dsimp only at hmem
  split_ifs at hmem
  · obtain ⟨rfl, rfl⟩ | ⟨-, hmem⟩ := mem_insert.mp hmem
    · exact .inr ⟨_, rfl⟩
    · exact hs hmem
  · exact hs hmem

/-! #### Operations -/

/-- Streams that are there change, perhaps after one was obtained. -/
inductive Follows (quiet : Prop) (s s' : Streams) : Prop
  | keeps (h : Keeps quiet s s')
  | obtain (id : StreamId) (h : Keeps quiet (s.obtainStream id).1 s')

lemma follows_inputReset (s : Streams) (id : StreamId)
    (applicationErrorCode finalSize reliableSize : ℕ) :
    Follows quiet s (s.inputReset id applicationErrorCode finalSize reliableSize).1 := by
  unfold inputReset
  split_ifs
  · exact .keeps (.refl s)
  · refine .obtain id ?_
    generalize s.obtainStream id = r
    obtain ⟨s', _ | ⟨ss, _ | rs⟩⟩ := r
    · exact .refl s'
    · exact .refl s'
    · exact keeps_recv (same_reset ..) _

lemma follows_inputForSend {f : SendStream → SendStream}
    (hf : quiet → ∀ ss, s.send.get? id = some ss ∨ (∃ max, ss = .new id max) →
      (f ss).isEnded = ss.isEnded) : Follows quiet s (s.inputForSend id f).1 := by
  have hget := obtainStream_get? s id
  have hmem := mem_obtainStream s id id
  unfold inputForSend
  split_ifs
  · exact .keeps (.refl s)
  · refine .obtain id ?_
    generalize s.obtainStream id = r at hget hmem ⊢
    obtain ⟨s', _ | ⟨_ | ss, rs⟩⟩ := r
    · exact .refl s'
    · exact .refl s'
    · obtain ⟨hss, -⟩ := hget _ _ rfl
      refine keeps_send (same_insert hss fun hq => hf hq ss ?_) s'.senderFc
      exact (hmem ss (get?_eq_some_iff.mp hss)).imp_left get?_eq_some_iff.mpr

lemma follows_inputForRecv {f : RecvStream → SessionFc → RecvStream × SessionFc × Res}
    (hf : ∀ rs fc, (f rs fc).1.isEnded = rs.isEnded) : Follows quiet s (s.inputForRecv id f).1 := by
  have hget := obtainStream_get? s id
  unfold inputForRecv
  split_ifs
  · exact .keeps (.refl s)
  · refine .obtain id ?_
    generalize s.obtainStream id = r at hget ⊢
    obtain ⟨s', _ | ⟨ss, _ | rs⟩⟩ := r
    · exact .refl s'
    · exact .refl s'
    · obtain ⟨-, hrs⟩ := hget _ _ rfl
      exact keeps_recv (same_insert hrs (hf rs _).symm.trans) _

lemma follows_recvFrameLost {f : RecvStream → RecvStream}
    (hf : ∀ rs, (f rs).isEnded = rs.isEnded) : Follows quiet s (s.recvFrameLost id f) := by
  have hget := obtainStream_get? s id
  unfold recvFrameLost
  refine .obtain id ?_
  generalize s.obtainStream id = r at hget ⊢
  obtain ⟨s', _ | ⟨ss, _ | rs⟩⟩ := r
  · exact .refl s'
  · exact .refl s'
  · obtain ⟨-, hrs⟩ := hget _ _ rfl
    exact keeps_recv (same_insert hrs (hf rs).symm.trans) s'.receiverFc

/-- A `STOP_SENDING` that ends a stream: the peer has already acknowledged the reset. -/
def endsByStopSending (s : Streams) : Op → Bool
  | .inputFrame (.stopSending id _) => (s.send.get? id).any SendStream.resetAckedEarly
  | _ => false

lemma follows_inputFrame (s : Streams) (frame : Frame) :
    Follows (s.endsByStopSending (.inputFrame frame) = false) s (s.inputFrame frame).1 := by
  cases frame with
  | resetStream => exact follows_inputReset ..
  | resetStreamAt =>
    unfold inputFrame
    split_ifs
    · exact .keeps (.refl s)
    · exact follows_inputReset ..
  | stopSending =>
    refine follows_inputForSend fun hstop ss hss => ?_
    rw [SendStream.isEnded_reset]
    apply SendStream.isEnded_dropCommitment
    obtain hget | ⟨max, rfl⟩ := hss
    · simpa [endsByStopSending, hget] using hstop
    · rfl
  | stream fin id offset data =>
    exact follows_inputForRecv fun rs fc => rs.isEnded_inboundStreamFrame fc fin offset data
  | maxStreamData id maximum =>
    exact follows_inputForSend fun _ ss _ => (ss.setMaxStreamData_touched maximum).isEnded
  | streamDataBlocked => exact follows_inputForRecv fun rs _ => rs.isEnded_sendFlowcUpdate
  | maxData => exact .keeps (keeps_send (.refl _) _)
  | maxStreams streamType => exact .keeps (keeps_modifyLocal s streamType _)
  | dataBlocked => exact .keeps (keeps_recv (.refl _) _)
  | streamsBlocked => exact .keeps (.refl s)

lemma follows_lost (s : Streams) (token : StreamRecoveryToken) :
    Follows quiet s (s.lost token) := by
  cases token with
  | stream =>
    refine .keeps (keeps_send (same_modify fun ss => ?_) s.senderFc)
    exact (ss.markAsLost_touched _ _ _).isEnded
  | resetStream =>
    exact .keeps (keeps_send (same_modify fun ss => ss.resetLost_touched.isEnded) _)
  | streamDataBlocked id limit =>
    refine .keeps (keeps_send (same_modify fun ss => ?_) s.senderFc)
    exact (ss.blockedLost_touched limit).isEnded
  | maxStreamData id maxData =>
    exact follows_recvFrameLost fun rs => rs.isEnded_maxStreamDataLost maxData
  | stopSending => exact follows_recvFrameLost isEnded_stopSendingLost
  | streamsBlocked streamType => exact .keeps (keeps_modifyLocal s streamType _)
  | maxStreams streamType => exact .keeps (keeps_modifyFc s streamType _)
  | dataBlocked => exact .keeps (keeps_send (.refl _) _)
  | maxData => exact .keeps (keeps_recv (.refl _) _)

lemma keeps_acked (s : Streams) (token : StreamRecoveryToken) : Keeps quiet s (s.acked token) := by
  cases token with
  | stream token | resetStream id =>
    exact keeps_send (same_modifyNoting _) s.senderFc
  | stopSending => exact keeps_recv (same_stopSendingAcked ..) s.receiverFc
  | _ => exact .refl s

lemma keeps_onSendStream {α : Type} {f : SendStream → ConnFc → SendStream × ConnFc × Except Error α}
    (hf : ∀ ss fc, (f ss fc).1.isEnded = ss.isEnded) : Keeps quiet s (s.onSendStream id f).1 := by
  unfold onSendStream
  cases hget : s.send.get? id with
  | none => exact .refl s
  | some ss => exact keeps_send (same_insert hget fun _ => hf ss _) _

variable (s : Streams)

lemma keeps_setStreamMaxData (id : StreamId) (maxData : ℕ) :
    Keeps quiet s (s.setStreamMaxData id maxData).1 := by
  unfold setStreamMaxData
  cases hget : s.recv.get? id with
  | none => exact .refl s
  | some rs =>
    exact keeps_recv (same_insert hget (rs.isEnded_setStreamMaxData maxData).symm.trans)
      s.receiverFc

lemma keeps_setRemoteMaxStreams (streamType : StreamType) (max : ℕ) :
    Keeps quiet s (s.setRemoteMaxStreams streamType max) := by
  unfold setRemoteMaxStreams
  dsimp only
  split_ifs
  · exact keeps_modifyFc s streamType _
  · exact .refl s

lemma keeps_setInitialLimits (remote : TransportParameters) :
    Keeps quiet s { s with remoteParams := remote }.setInitialLimits := by
  unfold setInitialLimits
  refine ⟨rfl, rfl, fun _ => rfl, ?_, .refl _⟩
  split_ifs
  · exact same_updateInitialLimit ..
  · exact .refl _

lemma keeps_writeStream (id : StreamId) (priority : TransmissionPriority) (split : ℕ)
    (b : Builder) : Keeps quiet s (s.writeStream id priority split b).1 := by
  unfold writeStream
  cases hget : s.send.get? id with
  | none => exact .refl s
  | some ss =>
    refine keeps_send (same_insert hget fun _ => ?_) _
    exact (ss.writeFrames_touched _ _ _ _).isEnded

lemma keeps_writeMaintenanceFrames (b : Builder) (now rtt : ℕ) :
    Keeps quiet s (s.writeMaintenanceFrames b now rtt).1 := by
  have hfc (senderFc : ConnFc) (receiverFc : SessionFc) :
      Keeps quiet s { s with senderFc := senderFc, receiverFc := receiverFc } :=
    ⟨rfl, rfl, fun _ => rfl, .refl _, .refl _⟩
  unfold writeMaintenanceFrames
  dsimp only
  split_ifs
  · exact hfc _ _
  · exact hfc _ _
  -- The remaining exits are all after the receive streams have written their frames.
  all_goals
    refine ⟨rfl, rfl, fun streamType => ?_, .refl _, same_writeFramesFor ..⟩
    cases streamType <;> rfl

/-- Whether the operation adds or drops streams in another way. -/
def Op.restructures : Op → Bool
  | .streamCreate _ | .zeroRttRejected | .clearStreams | .cleanupClosedStreams => true
  | _ => false

/-- **What an operation does**, other than those that add or drop streams. -/
theorem step_follows {op : Op} (hop : op.restructures = false) :
    Follows (s.endsByStopSending op = false) s (s.step op) := by
  cases op with
  | inputFrame frame => exact follows_inputFrame s frame
  | lost token => exact follows_lost s token
  | acked token => exact .keeps (keeps_acked s token)
  | streamSend id data atomic =>
    exact .keeps (keeps_onSendStream fun ss fc => ss.isEnded_sendInternal fc data atomic)
  | streamClose => exact .keeps (keeps_onSendStream fun ss _ => ss.isEnded_close)
  | streamCommit => exact .keeps (keeps_onSendStream fun ss _ => ss.isEnded_commit)
  | streamReset id err => exact .keeps (keeps_onSendStream fun ss _ => ss.isEnded_reset err)
  | streamPriority => exact .keeps (keeps_onSendStream fun _ _ => rfl)
  | recvData => exact .keeps (keeps_recv (same_read ..) _)
  | stopSending => exact .keeps (keeps_recv (same_stopSending ..) _)
  | setStreamMaxData => exact .keeps (keeps_setStreamMaxData ..)
  | setRemoteMaxStreams => exact .keeps (keeps_setRemoteMaxStreams ..)
  | setInitialLimits => exact .keeps (keeps_setInitialLimits ..)
  | writeStream => exact .keeps (keeps_writeStream ..)
  | writeMaintenanceFrames => exact .keeps (keeps_writeMaintenanceFrames ..)
  | streamCreate | zeroRttRejected | clearStreams | cleanupClosedStreams => cases hop

end Streams

end Neqo
