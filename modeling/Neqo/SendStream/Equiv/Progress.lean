import Neqo.SendStream.Equiv.Lifetime

/-!
# How far a stream has come

What was sent ends with a frame that was emitted, and only such frames are acknowledged or lost
(`Progress`), so the statistics are in order (`stats_grow`). As the first unsent bytes are always
sent first, an unsent byte before the end of an emitted frame was lost: what is sent for
retransmission is never sent for the first time (`nextBytes_retransmits`).
-/

namespace Neqo

open List

namespace SendStream

variable (s : SendStream) (connFc : ConnFc)

lemma nextStreamFrame_fst (p : TransmissionPriority) (split remaining : ℕ) :
    (s.nextStreamFrame p split remaining).1 =
      { s with state := (s.nextStreamFrame p split remaining).1.state } := by
  have hnext (retransmissionOnly : Bool) : (s.nextBytes retransmissionOnly split).1 =
      { s with state := (s.nextBytes retransmissionOnly split).1.state } := by
    unfold nextBytes
    cases s.state with
    | send | dataSent | resetSentReliable =>
      dsimp only
      split
      · rfl
      · split_ifs <;> rfl
    | _ => rfl
  unfold nextStreamFrame
  split_ifs
  · rfl
  · dsimp only
    split
    · exact hnext _
    · split_ifs <;> exact hnext _

lemma markAsSent_offsets (offset len : ℕ) (fin : Bool) :
    (s.markAsSent connFc offset len fin).1.bytesSent = max s.bytesSent (offset + len) ∧
      (s.markAsSent connFc offset len fin).1.retransmissionOffset = s.retransmissionOffset := by
  unfold markAsSent
  cases s.state with
  | dataSent => cases fin <;> exact ⟨rfl, rfl⟩
  | _ => exact ⟨rfl, rfl⟩

lemma tokenLost_offsets (token : StreamRecoveryToken) :
    (s.tokenLost token).bytesSent = s.bytesSent ∧
      ((s.tokenLost token).retransmissionOffset = s.retransmissionOffset ∨
        ∃ token', token = .stream token' ∧ (s.tokenLost token).retransmissionOffset =
          max s.retransmissionOffset (token'.offset + token'.length)) := by
  cases token with
  | stream token =>
    have heq : (s.markAsLost token.offset token.length token.fin).bytesSent = s.bytesSent ∧
        (s.markAsLost token.offset token.length token.fin).retransmissionOffset =
          max s.retransmissionOffset (token.offset + token.length) := by
      unfold markAsLost
      dsimp only
      split
      · split_ifs <;> exact ⟨rfl, rfl⟩
      · exact ⟨rfl, rfl⟩
    exact ⟨heq.1, .inr ⟨token, rfl, heq.2⟩⟩
  | resetStream | streamDataBlocked =>
    unfold tokenLost
    dsimp only [resetLost, blockedLost]
    split <;> exact ⟨rfl, .inl rfl⟩
  | _ => exact ⟨rfl, .inl rfl⟩

lemma writeFrames_offsets (p : TransmissionPriority) (split : ℕ) (b : Builder) :
    (s.writeFrames connFc p split b []).1.retransmissionOffset = s.retransmissionOffset ∧
      s.bytesSent ≤ (s.writeFrames connFc p split b []).1.bytesSent ∧
      (∀ x < (s.writeFrames connFc p split b []).1.bytesSent, x < s.bytesSent ∨
        ∃ f, .stream f ∈ s.emits p split b ∧ x < f.offset + f.data.length) ∧
      ∀ token, .stream token ∈ (s.writeFrames connFc p split b []).2.2.2 →
        token.offset + token.length ≤ (s.writeFrames connFc p split b []).1.bytesSent := by
  obtain ⟨s', b', tokens, resets, hprepared, hcases⟩ := s.writeFrames_cases connFc p split b
  have hno (token : RecoveryToken) : .stream token ∉ tokens := hprepared.tokens (.stream token)
  have hsame := hprepared.same
  have hnone {s'' : SendStream} {state : State} {frames : List Emitted}
      (h : s'' = { s with state := state }) :
      s''.retransmissionOffset = s.retransmissionOffset ∧ s.bytesSent ≤ s''.bytesSent ∧
      (∀ x < s''.bytesSent, x < s.bytesSent ∨
        ∃ f, .stream f ∈ frames ∧ x < f.offset + f.data.length) ∧
      ∀ token, .stream token ∈ tokens → token.offset + token.length ≤ s''.bytesSent := by
    subst h
    exact ⟨rfl, le_rfl, fun _ => .inl, fun token h => (hno token h).elim⟩
  rcases hcases with ⟨heq, -⟩ | ⟨heq, hemits⟩
  · rw [heq]
    exact hnone hsame
  · rw [heq, hemits]
    have hnext := s'.nextStreamFrame_fst p split b'.remaining
    unfold writeStreamFrame
    generalize s'.nextStreamFrame p split b'.remaining = res at hnext ⊢
    rw [hsame] at hnext
    obtain ⟨s'', _ | f⟩ := res
    · exact hnone hnext
    · obtain ⟨hsent, hretransmission⟩ := s''.markAsSent_offsets connFc f.offset f.data.length f.fin
      dsimp only at hnext ⊢
      rw [hsent, hretransmission, hnext]
      refine ⟨rfl, le_max_left _ _, fun x hx => ?_, fun token htoken => ?_⟩
      · exact (lt_max_iff.mp hx).imp_right fun hx => ⟨f, by simp, hx⟩
      · cases (List.mem_append.mp htoken).resolve_left (hno token) with
        | head => exact le_max_right _ _
        | tail _ h => cases h

end SendStream

open SendStream

namespace Sending

variable {t : Sending}

/-- What was sent ends with a frame that was emitted, and only what was sent is acknowledged or
lost. -/
structure Progress (t : Sending) : Prop where
  sent : ∀ x < t.stream.bytesSent, ∃ f, .stream f ∈ t.emitted ∧ x < f.offset + f.data.length
  tokens : ∀ token, .stream token ∈ t.tokens → token.offset + token.length ≤ t.stream.bytesSent
  ackedTokens : ∀ token ∈ t.ackedTokens, token ∈ t.tokens
  retransmission : t.stream.retransmissionOffset ≤ t.stream.bytesSent

lemma progress_new (streamId : StreamId) (maxStreamData : ℕ) :
    (new streamId maxStreamData).Progress :=
  ⟨fun _ hx => absurd hx (Nat.not_lt_zero _), nofun, nofun, le_rfl⟩

/-- **One operation** keeps this up, and no less is sent. -/
theorem Progress.step (h : t.Progress) (connFc : ConnFc) (op : Op) :
    (t.step connFc op).1.Progress ∧ t.stream.bytesSent ≤ (t.step connFc op).1.stream.bytesSent := by
  have hkeep {s : SendStream} (hs : s.bytesSent = t.stream.bytesSent)
      (hs' : s.retransmissionOffset = t.stream.retransmissionOffset) (accepted : Bytes)
      (committed : ℕ) :
      { t with stream := s, accepted := accepted, committed := committed }.Progress ∧
        t.stream.bytesSent ≤ s.bytesSent :=
    ⟨⟨hs ▸ h.sent, hs ▸ h.tokens, h.ackedTokens, hs ▸ hs' ▸ h.retransmission⟩, hs.ge⟩
  cases op with
  | send =>
    have henter : t.stream.enterSend.bytesSent = t.stream.bytesSent ∧
        t.stream.enterSend.retransmissionOffset = t.stream.retransmissionOffset := by
      unfold enterSend
      split <;> exact ⟨rfl, rfl⟩
    rw [Sending.step]
    apply hkeep <;> (unfold sendInternal sendBlockedIfSpaceNeeded; dsimp only; (repeat' split))
    all_goals first | rfl | exact henter.1 | exact henter.2
  | writeFrames p split b =>
    obtain ⟨hretransmission, hle, hsent, htokens⟩ := t.stream.writeFrames_offsets connFc p split b
    refine ⟨⟨fun x hx => ?_, fun token htoken => ?_, fun token htoken =>
      mem_append_left _ (h.ackedTokens token htoken), hretransmission ▸ h.retransmission.trans hle⟩,
        hle⟩
    · rcases hsent x hx with hx | ⟨f, hf, hx⟩
      · obtain ⟨f, hf, hx⟩ := h.sent x hx
        exact ⟨f, mem_append_left _ hf, hx⟩
      · exact ⟨f, mem_append_right _ hf, hx⟩
    · exact (mem_append.mp htoken).elim (fun hmem => (h.tokens token hmem).trans hle)
        (htokens token)
  | acked i =>
    rw [Sending.step]
    cases hi : t.tokens[i]? with
    | none => exact ⟨h, le_rfl⟩
    | some token =>
      have hsame : (t.stream.tokenAcked token).bytesSent = t.stream.bytesSent ∧
          (t.stream.tokenAcked token).retransmissionOffset = t.stream.retransmissionOffset := by
        unfold tokenAcked markAsAcked resetAcked
        dsimp only
        (repeat' split) <;> exact ⟨rfl, rfl⟩
      obtain ⟨hprogress, hle⟩ := hkeep hsame.1 hsame.2 t.accepted t.committed
      exact ⟨{ hprogress with ackedTokens :=
        List.forall_mem_cons.mpr ⟨List.mem_of_getElem? hi, h.ackedTokens⟩ }, hle⟩
  | lost i =>
    rw [Sending.step]
    cases hi : t.tokens[i]? with
    | none => exact ⟨h, le_rfl⟩
    | some token =>
      obtain ⟨hsent, hretransmission⟩ := t.stream.tokenLost_offsets token
      refine ⟨⟨hsent ▸ h.sent, hsent ▸ h.tokens, h.ackedTokens, ?_⟩, hsent.ge⟩
      rw [hsent]
      rcases hretransmission with heq | ⟨token', rfl, heq⟩ <;> rw [heq]
      · exact h.retransmission
      · exact max_le h.retransmission (h.tokens token' (mem_of_getElem? hi))
  | _ =>
    rw [Sending.step]
    apply hkeep <;> (dsimp only [setMaxStreamData, setPriority, close, commit, reset,
      dropCommitment]; (repeat' split)) <;> rfl

lemma Progress.run (h : t.Progress) (ops : List (ConnFc × Op)) :
    (t.run ops).Progress ∧ t.stream.bytesSent ≤ (t.run ops).stream.bytesSent ∧
      t.stream.state.bytesAcked ≤ (t.run ops).stream.state.bytesAcked ∧
      t.accepted.length ≤ (t.run ops).accepted.length := by
  induction ops generalizing t with
  | nil => exact ⟨h, le_rfl, le_rfl, le_rfl⟩
  | cons op ops ih =>
    obtain ⟨hstep, hsent⟩ := h.step op.1 op.2
    obtain ⟨bytes, haccepted, hcharges⟩ := t.step_charges op.1 op.2
    obtain ⟨hrun, hsent', hacked', hwritten'⟩ := ih hstep
    refine ⟨hrun, hsent.trans hsent', hcharges.acked.trans hacked', le_trans ?_ hwritten'⟩
    rw [haccepted, length_append]
    omega

lemma Reachable.progress (h : t.Reachable) : t.Progress := by
  obtain ⟨streamId, maxStreamData, ops, rfl⟩ := h
  exact ((progress_new streamId maxStreamData).run ops).1

/-- **Statistics.**  After every run no more is acknowledged than was sent, and no more sent than
was written. Whatever happens next, none of the numbers decreases. -/
theorem stats_grow (streamId : StreamId) (maxStreamData : ℕ) (ops ops' : List (ConnFc × Op)) :
    let before := ((new streamId maxStreamData).run ops).stream.stats
    let after := (((new streamId maxStreamData).run ops).run ops').stream.stats
    before.bytesAcked ≤ before.bytesSent ∧ before.bytesSent ≤ before.bytesWritten ∧
      before.bytesWritten ≤ after.bytesWritten ∧ before.bytesSent ≤ after.bytesSent ∧
      before.bytesAcked ≤ after.bytesAcked := by
  have hreach : ((new streamId maxStreamData).run ops).Reachable := ⟨_, _, _, rfl⟩
  generalize (new streamId maxStreamData).run ops = t at hreach
  obtain ⟨phase, hsound⟩ := hreach.sound
  obtain ⟨phase', hsound', -⟩ := hsound.run ops'
  have hprogress := hreach.progress
  obtain ⟨-, hsent, hacked, hwritten⟩ := hprogress.run ops'
  refine ⟨le_of_forall_lt fun x hx => ?_, le_of_forall_lt fun x hx => ?_, ?_, hsent, hacked⟩
  · obtain ⟨token, htoken, -, hlt⟩ := hsound.tracks.counts.2 x hx
    exact hlt.trans_le (hprogress.tokens token (hprogress.ackedTokens _ htoken))
  · obtain ⟨f, hf, hlt⟩ := hprogress.sent x hx
    exact (hlt.trans_le (hsound.emitted _ hf).1).trans_eq hsound.tracks.counts.1.symm
  · exact hsound.tracks.counts.1.trans_le (hwritten.trans_eq hsound'.tracks.counts.1.symm)

/-- **Retransmission.**  In a stream that is not closed, what `nextBytes` returns for retransmission
is below the retransmission offset, and each byte of it was in a frame that was declared lost. -/
theorem Reachable.nextBytes_retransmits (h : t.Reachable) (split : ℕ)
    (hopen : ∀ sendBuf finSent finAcked committed,
      t.stream.state ≠ .dataSent sendBuf finSent finAcked committed) :
    ∀ offset data, (t.stream.nextBytes true split).2 = some (offset, data) →
      offset + data.length ≤ t.stream.retransmissionOffset ∧
      ∀ x, offset ≤ x → x < offset + data.length →
        ∃ token, .stream token ∈ t.lostTokens ∧ token.offset ≤ x ∧
        x < token.offset + token.length := by
  intro offset data hr
  obtain ⟨phase, hsound⟩ := h.sound
  have hprogress := h.progress
  rw [nextBytes_snd] at hr
  obtain ⟨b, hb, hr⟩ := Option.bind_eq_some_iff.mp hr
  have htracks := hsound.tracks.txBuf hb
  have hlimit : t.stream.state.finDue = false ∧
      ∃ limit ∈ t.stream.sendLimit true, limit ≤ t.stream.retransmissionOffset := by
    unfold sendLimit
    cases hs : t.stream.state with
    | send => exact ⟨rfl, _, rfl, le_rfl⟩
    | resetSentReliable => exact ⟨rfl, _, rfl, min_le_left _ _⟩
    | dataSent => exact absurd hs (hopen _ _ _ _)
    | _ =>
      rw [hs] at hb
      cases hb
  obtain ⟨hfin, limit, hlimit, hle⟩ := hlimit
  rcases htracks.toCarries.nextBytes_cases split with ⟨hnone, -⟩ | ⟨o, slice, hsome, hnext⟩
  · simp [hnone, hfin] at hr
  · simp only [hsome] at hr
    obtain ⟨rfl, ⟨n, rfl⟩, -, hcut⟩ := cutOff_eq_some hr hnext.ne_nil
    have hend := (hcut limit hlimit).trans hle
    refine ⟨hend, fun x hx hx' => ?_⟩
    have hunsent := hnext.unsent x hx (hx'.trans_le (Nat.add_le_add_left (length_take_le' ..) _))
    rcases htracks.fresh_of_unsent x hunsent with hfresh | ⟨token, htoken, hin⟩
    · -- it is before the end of a frame that was emitted
      obtain ⟨f, hf, hlt⟩ := hprogress.sent x
        ((hx'.trans_le hend).trans_le hprogress.retransmission)
      exact absurd hlt (not_lt.mpr (hfresh f hf))
    · cases token with
      | stream token => exact ⟨token, htoken, hin⟩
      | _ => exact hin.elim

/-- Two bytes are sent and lost, and a third one is accepted: only the first two are sent again. -/
theorem nextBytes_retransmits_of_loss :
    ∃ t : Sending, (t.stream.nextBytes true 8).2 = some (0, [1, 2]) ∧ t.accepted = [1, 2, 3] ∧
      ∃ token, .stream token ∈ t.lostTokens ∧ token.offset ≤ 1 ∧
      1 < token.offset + token.length := by
  let t := (new ⟨0⟩ 100).run [(⟨(), 100, 0, none, false⟩, .send [1, 2] false),
    (⟨(), 100, 2, none, false⟩, .writeFrames .normal 8 { limit := 50 }),
    (⟨(), 100, 2, none, false⟩, .lost 0), (⟨(), 100, 2, none, false⟩, .send [3] false)]
  have hnext : (t.stream.nextBytes true 8).2 = some (0, [1, 2]) := by decide
  refine ⟨t, hnext, by decide, ?_⟩
  exact (Reachable.nextBytes_retransmits ⟨_, _, _, rfl⟩ 8 (fun _ _ _ _ h => by cases h) 0 [1, 2]
    hnext).2 1 (by decide) (by decide)

/-- The cut-off is not made in a stream that is closed: two bytes that were never sent are returned
for retransmission, and sent at its priority. -/
theorem closed_stream_is_not_cut_off :
    ∃ t : Sending, t = (new ⟨0⟩ 100).run [(⟨(), 100, 0, none, false⟩, .send [1, 2] false),
        (⟨(), 100, 2, none, false⟩, .close)] ∧
      (t.stream.nextBytes true 8).2 = some (0, [1, 2]) ∧ t.stream.retransmissionOffset = 0 ∧
      t.emitted = [] ∧ t.stream.priority = .normal ∧
      t.stream.emits .high 8 { limit := 50 } = [.stream ⟨⟨0⟩, 0, [1, 2], true, false⟩] :=
  ⟨_, rfl, by decide⟩

end Sending

end Neqo
