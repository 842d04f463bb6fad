import Neqo.Streams.Equiv.Steps

/-!
# No ended stream is left behind

`cleanupClosedStreams` only looks at the streams if a flag says that one of them has ended. The
invariant is that the flags are right (`Streams.Noted`), which `Streams.step_follows` carries
through all runs without a `STOP_SENDING` that ends a stream.
-/

namespace Neqo

/-! ### The flag of the sending halves -/

namespace SendStreams

variable {ss : SendStreams} {id : StreamId}

lemma Noted.removeEnded (h : ss.Noted) {s : SendStream}
    (hmem : ss.removeEnded.1.map.Mem id s) : s.isEnded = false := by
  unfold SendStreams.removeEnded at hmem
  by_cases hflag : ss.hasEnded = true
  · rw [hflag] at hmem
    obtain ⟨-, hp⟩ := IndexMap.mem_retain.mp hmem
    simpa using hp
  · rw [Bool.not_eq_true] at hflag
    rw [hflag] at hmem
    exact h hflag id s hmem

/-- If `removeEnded` says that it removed nothing, then the same streams exist. -/
lemma exists_removeEnded (hremoved : ss.removeEnded.2 = false) (h : ss.exists id = true) :
    ss.removeEnded.1.exists id = true := by
  unfold SendStreams.removeEnded at hremoved ⊢
  cases hflag : ss.hasEnded with
  | false => exact h
  | true =>
    rw [hflag] at hremoved
    refine IndexMap.containsKey_of_mem (fun s hs => ⟨s, IndexMap.mem_retain.mpr ⟨hs, ?_⟩⟩) h
    have hany := List.any_eq_false.mp hremoved (id, s) hs
    simpa using hany

end SendStreams

/-! ### The flag of the receiving halves -/

namespace RecvStreams

variable {rs : RecvStreams} {ss ss' : SendStreams} {id : StreamId}

lemma Noted.mono (h : rs.Noted ss) (hss : ∀ id, ss.exists id = true → ss'.exists id = true) :
    rs.Noted ss' := by
  intro hflag id s hmem
  have hdead := h hflag id s hmem
  unfold dead at hdead ⊢
  cases hexists : ss.exists id with
  | true =>
    rw [hexists] at hdead
    rw [hss id hexists]
    exact hdead
  | false =>
    rw [hexists, Bool.not_false, Bool.or_true, Bool.and_true] at hdead
    rw [hdead, Bool.false_and]

lemma Noted.removeEnded (h : rs.Noted ss) {s : RecvStream}
    (hmem : (rs.removeEnded ss).1.streams.Mem id s) : dead ss id s = false := by
  unfold RecvStreams.removeEnded at hmem
  by_cases hflag : rs.hasEnded = true
  · rw [hflag] at hmem
    obtain ⟨-, hp⟩ := OrdMap.mem_retain.mp hmem
    simpa using hp
  · rw [Bool.not_eq_true] at hflag
    rw [hflag] at hmem
    exact h hflag id s hmem

end RecvStreams

/-! ### Both flags -/

namespace Streams

variable {s : Streams} {send : SendStreams} {recv : RecvStreams} {id : StreamId}

/-- Both flags are right. -/
structure Noted (ss : SendStreams) (rs : RecvStreams) : Prop where
  send : ss.Noted
  recv : rs.Noted ss

lemma noted_empty (hsend : send.map = .empty)
    (hrecv : recv.streams = .empty) : Noted send recv := by
  constructor
  · intro _ id s hmem
    rw [hsend] at hmem
    exact absurd hmem (IndexMap.not_mem_empty id s)
  · intro _ id s hmem
    rw [hrecv] at hmem
    exact absurd hmem List.not_mem_nil

lemma Noted.insertSend (h : Noted send recv) {ss : SendStream} (hss : ss.isEnded = false) :
    Noted (send.insert id ss) recv :=
  ⟨h.send.insert fun _ => hss,
    h.recv.mono fun _ => IndexMap.containsKey_insert_of_containsKey⟩

lemma Noted.insertRecv (h : Noted send recv) {rs : RecvStream} (hrs : rs.isEnded = false) :
    Noted send (recv.insert id rs) :=
  ⟨h.send, h.recv.insert fun _ => RecvStreams.dead_of_not_ended hrs⟩

/-! #### Creating streams -/

lemma Noted.createNextRemote (h : Noted s.send s.recv) (streamType : StreamType) :
    Noted (s.createNextRemote streamType).send (s.createNextRemote streamType).recv := by
  unfold Streams.createNextRemote
  dsimp only
  split_ifs
  · exact (h.insertSend (SendStream.isEnded_new _ _)).insertRecv (RecvStream.isEnded_new _ _)
  · exact h.insertRecv (RecvStream.isEnded_new _ _)

lemma createNextRemote_nextStream (s : Streams) (streamType : StreamType) :
    ((s.createNextRemote streamType).remoteStreamLimits.get streamType).nextStream.asU64
      = (s.remoteStreamLimits.get streamType).nextStream.asU64 + 4 := by
  cases streamType <;> rfl

/-- With enough fuel the loop runs to its end: the stream is not new any more. -/
lemma createWhileNew_done (fuel : ℕ) (s : Streams) (id : StreamId)
    (hfuel : id.asU64 < fuel + (s.remoteStreamLimits.get id.streamType).nextStream.asU64) :
    ((createWhileNew fuel s id).1.remoteStreamLimits.get id.streamType).isNewStream id
      ≠ .ok true := by
  induction fuel generalizing s with
  | zero =>
    rw [zero_add] at hfuel
    have hlt : ¬ (s.remoteStreamLimits.get id.streamType).nextStream ≤ id := not_le.mpr hfuel
    unfold Streams.createWhileNew RemoteStreamLimit.isNewStream
    split_ifs
    · simp
    · simp [hlt]
  | succ fuel ih =>
    unfold Streams.createWhileNew
    cases hnew : (s.remoteStreamLimits.get id.streamType).isNewStream id with
    | error => simp [hnew]
    | ok isNew =>
      cases isNew with
      | false => simp [hnew]
      | true =>
        apply ih
        rw [createNextRemote_nextStream]
        omega

section

variable (h : Noted s.send s.recv)

include h

lemma Noted.streamCreate (st : StreamType) :
    Noted (s.streamCreate st).1.send (s.streamCreate st).1.recv := by
  unfold Streams.streamCreate
  dsimp only
  cases (s.localStreamLimits.takeStreamId st).2 with
  | none => exact h
  | some =>
    cases st with
    | uniDi => exact h.insertSend (SendStream.isEnded_new _ _)
    | biDi =>
      exact (h.insertSend (SendStream.isEnded_new _ _)).insertRecv (RecvStream.isEnded_new _ _)

/-! ### Cleaning up -/

/-- **A clean-up drops what has ended**, provided that the flags are right. -/
theorem Noted.cleanup :
    (∀ id ss, s.cleanupClosedStreams.send.map.Mem id ss → ss.isEnded = false) ∧
      ∀ id rs, s.cleanupClosedStreams.recv.streams.Mem id rs →
        RecvStreams.dead s.cleanupClosedStreams.send id rs = false := by
  refine ⟨fun id ss => h.send.removeEnded, fun id rs hmem => ?_⟩
  refine RecvStreams.Noted.removeEnded (fun hor => ?_) hmem
  -- If no sending half went away, the receiving halves are as they were.
  obtain ⟨hflag, hremoved⟩ := Bool.or_eq_false_iff.mp hor
  exact h.recv.mono (fun _ => SendStreams.exists_removeEnded hremoved) hflag

lemma Noted.cleanupClosedStreams : Noted s.cleanupClosedStreams.send s.cleanupClosedStreams.recv :=
  ⟨fun _ => h.cleanup.1, fun _ => h.cleanup.2⟩

/-! ### Runs -/

lemma Noted.follows {quiet : Prop} {s' : Streams}
    (hs : Follows quiet s s') (hq : quiet) : Noted s'.send s'.recv := by
  have hkeeps {s : Streams} (h : Noted s.send s.recv) (hs : Keeps quiet s s') :
      Noted s'.send s'.recv :=
    ⟨hs.send.noted hq h.send,
      (hs.recv.noted _ h.recv).mono fun id hid => (hs.send.keys id).trans hid⟩
  cases hs with
  | keeps hs => exact hkeeps h hs
  | obtain id hs =>
    exact hkeeps (obtainStream_induction (P := fun s => Noted s.send s.recv)
      (fun _ streamType h => h.createNextRemote streamType) h id) hs

lemma Noted.step (op : Op) (hstop : s.endsByStopSending op = false) :
    Noted (s.step op).send (s.step op).recv := by
  cases op with
  | streamCreate streamType => exact h.streamCreate streamType
  | zeroRttRejected | clearStreams => exact noted_empty rfl rfl
  | cleanupClosedStreams => exact h.cleanupClosedStreams
  | _ => exact h.follows (step_follows s rfl) hstop

end

/-- No step of a run is a `STOP_SENDING` on a stream whose reset was acknowledged before its
committed data. -/
def stopSendingInTime : Streams → List Op → Bool
  | _, [] => true
  | s, op :: ops => !s.endsByStopSending op && stopSendingInTime (s.step op) ops

lemma Noted.run (ops : List Op) (h : Noted s.send s.recv)
    (hops : stopSendingInTime s ops = true) : Noted (s.run ops).send (s.run ops).recv := by
  induction ops generalizing s with
  | nil => exact h
  | cons op ops ih =>
    simp only [stopSendingInTime, Bool.and_eq_true, Bool.not_eq_true'] at hops
    exact ih (h.step op hops.1) hops.2

/-- **No ended stream is left behind** by a clean-up in a run in which no `STOP_SENDING` comes for a
stream whose reset was acknowledged before its committed data: no sending half that has ended
remains, and no receiving half that has ended and that is unidirectional or has no sending half. -/
theorem no_stranded_stream (role : Role) (localParams : TransportParameters) (ops : List Op)
    (hops : stopSendingInTime (new role localParams) ops = true) :
    (∀ id ss, ((new role localParams).run ops).cleanupClosedStreams.send.map.Mem id ss →
      ss.isEnded = false) ∧
    (∀ id rs, ((new role localParams).run ops).cleanupClosedStreams.recv.streams.Mem id rs →
      ¬ (rs.isEnded = true ∧ (id.isUni = true ∨
        ((new role localParams).run ops).cleanupClosedStreams.send.exists id = false))) := by
  obtain ⟨hsend, hrecv⟩ := (Noted.run ops (noted_empty rfl rfl) hops).cleanup
  refine ⟨hsend, fun id rs hmem => ?_⟩
  simpa [RecvStreams.dead] using hrecv id rs hmem

/-- A client opens a stream, sends and commits to three bytes, and resets the stream. -/
def resetAfterCommit : List Op :=
  [.setInitialLimits
      { initialMaxData := 100, initialMaxStreamDataUni := 100, initialMaxStreamsUni := 1 },
    .streamCreate .uniDi, .streamSend ⟨2⟩ [1, 2, 3] false, .streamCommit ⟨2⟩, .streamReset ⟨2⟩ 0]

/-- The `RESET_STREAM_AT` goes out in a packet with no space for the data. -/
def resetOnly : Op := .writeStream ⟨2⟩ .normal 0 { limit := 6 }

theorem no_stranded_stream_stop_before_ack :
    stopSendingInTime (new .client {})
      (resetAfterCommit ++ [resetOnly, .inputFrame (.stopSending ⟨2⟩ 7), .acked (.resetStream ⟨2⟩)])
      = true ∧
    ∀ id ss, ((new .client {}).run (resetAfterCommit ++
      [resetOnly, .inputFrame (.stopSending ⟨2⟩ 7),
        .acked (.resetStream ⟨2⟩)])).cleanupClosedStreams.send.map.Mem id ss →
      ss.isEnded = false :=
  ⟨by decide, (no_stranded_stream .client {} _ (by decide)).1⟩

/-- The frames in the other order: the `STOP_SENDING` comes when the reset has been acknowledged and
the data has not. The stream ends and stays in the map. -/
theorem stopSending_strands_stream :
    (((new .client {}).run resetAfterCommit).writeStream ⟨2⟩ .normal 0 { limit := 6 }).2.2
      = [.resetStream ⟨2⟩] ∧
    (((new .client {}).run (resetAfterCommit ++
      [resetOnly, .acked (.resetStream ⟨2⟩),
        .inputFrame (.stopSending ⟨2⟩ 7)])).cleanupClosedStreams.send.get? ⟨2⟩).map
      SendStream.isEnded = some true := by
  decide

end Streams

end Neqo
