import Neqo.SendStream.Equiv.Tracks

/-!
# The life of a sending stream

Over every run of a stream, all of its frames agree on the final size, and after a reset only
committed data is emitted (`Sending.Reachable.finalSize_consistent`). A stream that was reset is
done only when all that was committed is acknowledged, and until then it can send all of it
(`Sending.Reachable.commitment_kept`).
-/

namespace Neqo

open List Option

namespace SendStream

/-- How the phase of a stream can change. -/
structure Phase.Leads (phase phase' : Phase) : Prop where
  accepting : phase ≠ .accepting → phase' ≠ .accepting
  received : phase = .received → phase' = .received
  reset : phase = .reset → phase' = .reset

lemma Phase.Leads.refl (phase : Phase) : phase.Leads phase := ⟨id, id, id⟩

variable {phase phase' : Phase}

lemma Phase.Leads.trans {phase'' : Phase} (h : phase.Leads phase') (h' : phase'.Leads phase'') :
    phase.Leads phase'' :=
  ⟨h'.accepting ∘ h.accepting, h'.received ∘ h.received, h'.reset ∘ h.reset⟩

/-- The final size that a frame carries. -/
def Emitted.finalSize? : Emitted → Option ℕ
  | .stream f => if f.fin then some (f.offset + f.data.length) else none
  | .reset f => some f.finalSize

/-- A frame that was emitted fits what has happened since. -/
def Emitted.Fits (accepted : Bytes) (phase : Phase) : Emitted → Prop
  | .stream f =>
    f.offset + f.data.length ≤ accepted.length ∧
      (f.fin = true → phase ≠ .accepting ∧ f.offset + f.data.length = accepted.length)
  | .reset f => phase = .reset ∧ f.finalSize = accepted.length

lemma Emitted.Sound.fits {e : Emitted} {state : State} {r : Record} (h : e.Sound state r phase) :
    e.Fits r.accepted phase := by
  cases e with
  | stream =>
    refine ⟨h.piece.end_le, fun hfin => ?_⟩
    obtain ⟨rfl, hend⟩ := h.fin hfin
    exact ⟨nofun, hend⟩
  | reset => exact h

lemma Emitted.Fits.mono {e : Emitted} {accepted bytes : Bytes} (h : e.Fits accepted phase)
    (hleads : phase.Leads phase') (hbytes : phase ≠ .accepting → bytes = []) :
    e.Fits (accepted ++ bytes) phase' := by
  cases e with
  | stream =>
    refine ⟨h.1.trans (by rw [length_append]; omega), fun hfin => ?_⟩
    obtain ⟨hphase, hend⟩ := h.2 hfin
    rw [hbytes hphase, append_nil]
    exact ⟨hleads.accepting hphase, hend⟩
  | reset =>
    obtain ⟨rfl, hsize⟩ := h
    rw [hbytes nofun, append_nil]
    exact ⟨hleads.reset rfl, hsize⟩

lemma Record.Issued.mono {r r' : Record} {token : StreamRecoveryToken} {bytes : Bytes}
    (h : r.Issued phase token) (hleads : phase.Leads phase')
    (haccepted : r'.accepted = r.accepted ++ bytes) : r'.Issued phase' token := by
  cases token with
  | stream token =>
    have hle : token.offset + token.length ≤ r.accepted.length := h
    show token.offset + token.length ≤ r'.accepted.length
    rw [haccepted, length_append]
    omega
  | resetStream => exact hleads.reset h
  | _ => trivial

end SendStream

open SendStream

namespace Sending

/-! ### The record of a run -/

/-- The byte at an offset was in a frame that was acknowledged. -/
def IsAcked (t : Sending) (x : ℕ) : Prop :=
  ∃ token, .stream token ∈ t.ackedTokens ∧ token.offset ≤ x ∧ x < token.offset + token.length

/-- A byte is in the frame that the token stands for. -/
def InFrame (x : ℕ) : StreamRecoveryToken → Prop
  | .stream token => token.offset ≤ x ∧ x < token.offset + token.length
  | _ => False

variable (t : Sending)

lemma isAcked_iff (x : ℕ) : t.IsAcked x ↔ ∃ token ∈ t.ackedTokens, InFrame x token := by
  constructor
  · rintro ⟨token, htoken, hx⟩
    exact ⟨_, htoken, hx⟩
  · rintro ⟨token, htoken, hx⟩
    cases token with
    | stream token => exact ⟨token, htoken, hx⟩
    | _ => exact hx.elim

/-- A reset frame was acknowledged. -/
def ResetAcked (t : Sending) : Prop := ∃ id, .resetStream id ∈ t.ackedTokens

/-- What a run has done. -/
def record (t : Sending) : Record :=
  { accepted := t.accepted, committed := t.committed, acked := t.IsAcked,
    fresh := fun x => (∀ f, .stream f ∈ t.emitted → f.offset + f.data.length ≤ x) ∨
      ∃ token ∈ t.lostTokens, InFrame x token
    resetAcked := t.ResetAcked }

/-- The stream and all that it has emitted agree with the record. -/
structure Sound (t : Sending) (phase : Phase) : Prop where
  tracks : t.stream.state.Tracks t.record phase
  emitted : ∀ e ∈ t.emitted, e.Fits t.accepted phase
  tokens : ∀ token ∈ t.tokens, t.record.Issued phase token

lemma sound_new (streamId : StreamId) (maxStreamData : ℕ) :
    (new streamId maxStreamData).Sound .accepting where
  tracks := .ready _ rfl rfl rfl (fun _ ⟨_, htoken, _⟩ => absurd htoken not_mem_nil)
    fun _ => .inl nofun
  emitted _ he := absurd he not_mem_nil
  tokens _ htoken := absurd htoken not_mem_nil

variable {t : Sending} {phase : Phase}

lemma Sound.of_tracks {t' : Sending} {phase' : Phase} (h : t.Sound phase) {bytes : Bytes}
    (htracks : t'.stream.state.Tracks t'.record phase') (hleads : phase.Leads phase')
    (haccepted : t'.accepted = t.accepted ++ bytes) (hbytes : phase ≠ .accepting → bytes = [])
    (hemitted : t'.emitted = t.emitted) (htokens : t'.tokens = t.tokens) : t'.Sound phase' where
  tracks := htracks
  emitted e he := by
    rw [hemitted] at he
    rw [haccepted]
    exact (h.emitted e he).mono hleads hbytes
  tokens token htoken := by
    rw [htokens] at htoken
    exact (h.tokens token htoken).mono hleads haccepted

lemma Sound.keep {t' : Sending} {phase' : Phase} (h : t.Sound phase) (hleads : phase.Leads phase')
    (htracks : t'.stream.state.Tracks t'.record phase') (haccepted : t'.accepted = t.accepted)
    (hemitted : t'.emitted = t.emitted) (htokens : t'.tokens = t.tokens) :
    ∃ phase', t'.Sound phase' ∧ phase.Leads phase' :=
  ⟨phase', h.of_tracks htracks hleads (haccepted.trans (append_nil _).symm) (fun _ => rfl)
    hemitted htokens, hleads⟩

/-- The record after a token is acknowledged. -/
def noteAcked (t : Sending) (token : StreamRecoveryToken) : Sending :=
  { t with stream := t.stream.tokenAcked token, ackedTokens := token :: t.ackedTokens }

lemma isAcked_noteAcked (token : StreamRecoveryToken) :
    (t.noteAcked token).IsAcked = fun x => InFrame x token ∨ t.IsAcked x := by
  funext x
  simp only [isAcked_iff, noteAcked, exists_mem_cons_iff]

lemma record_acked_stream (token : RecoveryToken) :
    (t.noteAcked (.stream token)).record = t.record.ackRange token.offset token.length := by
  have hreset : (t.noteAcked (.stream token)).ResetAcked ↔ t.ResetAcked :=
    exists_congr fun id => mem_cons.trans (or_iff_right nofun)
  unfold record
  rw [isAcked_noteAcked, propext hreset]
  rfl

lemma record_acked_other (t : Sending) {token : StreamRecoveryToken} (h : ∀ x, ¬ InFrame x token) :
    (t.noteAcked token).record =
    { t.record with resetAcked := (t.noteAcked token).ResetAcked } := by
  unfold record
  simp only [isAcked_noteAcked, h, false_or]
  rfl

/-! ### One operation -/

lemma Sound.acked (h : t.Sound phase) {token : StreamRecoveryToken} (htoken : token ∈ t.tokens) :
    ∃ phase', (t.noteAcked token).Sound phase' ∧ phase.Leads phase' := by
  have hissued := h.tokens token htoken
  have hreset : t.ResetAcked → (t.noteAcked token).ResetAcked :=
    fun ⟨id, hid⟩ => ⟨id, mem_cons_of_mem _ hid⟩
  cases token with
  | stream token =>
    obtain ⟨phase', htracks, hphase⟩ := markAsAcked_tracks h.tracks hissued token.fin
    rw [← record_acked_stream] at htracks
    refine h.keep ?_ htracks rfl rfl rfl
    rcases hphase with rfl | ⟨rfl, rfl⟩
    · exact .refl _
    · exact ⟨nofun, nofun, nofun⟩
  | resetStream streamId =>
    refine h.keep (.refl phase) ?_ rfl rfl rfl
    rw [record_acked_other t fun _ => id]
    exact resetAcked_tracks (h.tracks.mono (fun _ => id) hreset) ⟨streamId, mem_cons_self⟩
  | _ =>
    refine h.keep (.refl phase) ?_ rfl rfl rfl
    rw [record_acked_other t fun _ => id]
    exact h.tracks.mono (fun _ => id) hreset

lemma tokenLost_tracks {s : SendStream} {r : Record} (h : s.state.Tracks r phase)
    (token : StreamRecoveryToken) :
    (s.tokenLost token).state.Tracks { r with fresh := fun x => InFrame x token ∨ r.fresh x }
      phase := by
  cases token with
  | stream token =>
    refine (markAsLost_touched s token.offset token.length token.fin).tracks h ?_
      (fun _ _ => .inr) id
    rintro b _ - rfl htracks
    exact htracks.markAsLost _ _
  | resetStream => exact ((resetLost_touched s).tracks_eq h).mono (fun _ => .inr) id
  | streamDataBlocked _ limit =>
    exact ((blockedLost_touched s limit).tracks_eq h).mono (fun _ => .inr) id
  | _ => exact h.mono (fun _ => .inr) id

/-- **One operation** keeps the record. -/
theorem Sound.step (h : t.Sound phase) (connFc : ConnFc) (op : SendStream.Op) :
    ∃ phase', (t.step connFc op).1.Sound phase' ∧ phase.Leads phase' := by
  cases op with
  | send buf atomic =>
    obtain ⟨htracks, hbytes⟩ := sendInternal_tracks h.tracks connFc buf atomic
    exact ⟨phase, h.of_tracks htracks (.refl phase) rfl hbytes rfl rfl, .refl phase⟩
  | setMaxStreamData limit =>
    exact h.keep (.refl phase) ((setMaxStreamData_touched t.stream limit).tracks_eq h.tracks)
      rfl rfl rfl
  | setPriority => exact h.keep (.refl phase) h.tracks rfl rfl rfl
  | close =>
    refine h.keep ?_ (close_tracks h.tracks) rfl rfl rfl
    cases phase <;> exact ⟨by decide, by decide, by decide⟩
  | commit => exact h.keep (.refl phase) (commit_tracks h.tracks) rfl rfl rfl
  | reset err =>
    refine h.keep ?_ (reset_tracks h.tracks err) rfl rfl rfl
    cases phase <;> exact ⟨by decide, by decide, by decide⟩
  | dropCommitment => exact h.keep (.refl phase) (dropCommitment_tracks h.tracks) rfl rfl rfl
  | writeFrames priority split b =>
    obtain ⟨htracks, hsound, hissued⟩ := writeFrames_tracks h.tracks connFc priority split b
    refine ⟨phase, ⟨htracks.mono (fun x hx => ?_) id, fun e he => ?_, fun token htoken => ?_⟩,
      .refl phase⟩
    · obtain ⟨hx | hx, hx'⟩ := hx
      · exact .inl fun f hf => (mem_append.mp hf).elim (hx f) (hx' f)
      · exact .inr hx
    · rcases mem_append.mp he with he | he
      · exact h.emitted e he
      · exact (hsound e he).fits
    · rcases mem_append.mp htoken with htoken | htoken
      · exact h.tokens token htoken
      · exact hissued token htoken
  | acked i =>
    rw [Sending.step]
    cases hi : t.tokens[i]? with
    | none => exact ⟨phase, h, .refl phase⟩
    | some => exact h.acked (mem_of_getElem? hi)
  | lost i =>
    rw [Sending.step]
    cases hi : t.tokens[i]? with
    | none => exact ⟨phase, h, .refl phase⟩
    | some token =>
      refine h.keep (.refl phase) ((tokenLost_tracks h.tracks token).mono (fun x hx => ?_) id) rfl
        rfl rfl
      rcases hx with hx | hx | ⟨token', htoken', hx⟩
      · exact .inr ⟨token, mem_cons_self, hx⟩
      · exact .inl hx
      · exact .inr ⟨token', mem_cons_of_mem _ htoken', hx⟩

/-! ### Runs -/

lemma Sound.run (h : t.Sound phase) (ops : List (ConnFc × SendStream.Op)) :
    ∃ phase', (t.run ops).Sound phase' ∧ phase.Leads phase' := by
  refine List.foldlRecOn (motive := fun t => ∃ phase', Sound t phase' ∧ phase.Leads phase') ops _
    ⟨phase, h, .refl phase⟩ ?_
  rintro t ⟨phase₁, h₁, hleads₁⟩ ⟨connFc, op⟩ -
  obtain ⟨phase₂, h₂, hleads₂⟩ := h₁.step connFc op
  exact ⟨phase₂, h₂, hleads₁.trans hleads₂⟩

/-- After a reset the stream stays reset, unless everything was acknowledged before. -/
lemma Sound.run_reset (h : t.Sound phase) (connFc : ConnFc) (err : ℕ)
    (ops : List (ConnFc × SendStream.Op)) :
    ∃ phase', (t.run ((connFc, .reset err) :: ops)).Sound phase' ∧
      (phase' = .received ∨ phase' = .reset) := by
  have h₁ : (t.step connFc (.reset err)).1.Sound (if phase = .received then .received
      else .reset) := by
    refine h.of_tracks (reset_tracks h.tracks err) ?_ (append_nil _).symm (fun _ => rfl) rfl rfl
    cases phase <;> exact ⟨by decide, by decide, by decide⟩
  obtain ⟨phase', h', hleads⟩ := h₁.run ops
  refine ⟨phase', h', ?_⟩
  split_ifs at hleads
  · exact .inl (hleads.received rfl)
  · exact .inr (hleads.reset rfl)

lemma wasReset_of_tracks {state : SendStream.State} {r : Record} (h : state.Tracks r .reset) :
    state.wasReset = true := by
  cases h <;> rfl

/-- The stream has had some run. -/
def Reachable (t : Sending) : Prop :=
  ∃ streamId maxStreamData ops, t = (new streamId maxStreamData).run ops

lemma Reachable.run (h : t.Reachable) (ops : List (ConnFc × SendStream.Op)) :
    (t.run ops).Reachable := by
  obtain ⟨streamId, maxStreamData, ops₀, rfl⟩ := h
  exact ⟨streamId, maxStreamData, ops₀ ++ ops, (run_append _ _ _).symm⟩

lemma Reachable.sound (h : t.Reachable) : ∃ phase, t.Sound phase := by
  obtain ⟨streamId, maxStreamData, ops, rfl⟩ := h
  obtain ⟨phase, hsound, -⟩ := (sound_new streamId maxStreamData).run ops
  exact ⟨phase, hsound⟩

/-- **Final size.**  After every run, all frames that carry a final size carry the number of bytes
that were accepted, and no `STREAM` frame goes beyond it. The loss of a reset frame is only
reported to a stream that was reset. After a reset, whatever else happens, a `STREAM` frame has no
FIN and stays below the reliable size. -/
theorem Reachable.finalSize_consistent {t : Sending} (h : t.Reachable) :
    (∀ e ∈ t.emitted, ∀ finalSize, e.finalSize? = some finalSize → finalSize = t.accepted.length) ∧
    (∀ f, .stream f ∈ t.emitted → f.offset + f.data.length ≤ t.accepted.length) ∧
    (∀ id, .resetStream id ∈ t.tokens → t.stream.state.wasReset = true) ∧
    ∀ connFc err ops priority split b f,
      .stream f ∈ (t.run ((connFc, .reset err) :: ops)).stream.emits priority split b →
      f.fin = false ∧ ∃ reliableSize,
        (t.run ((connFc, .reset err) :: ops)).stream.state.reliableSize? = some reliableSize ∧
        f.offset + f.data.length ≤ reliableSize := by
  obtain ⟨phase, h⟩ := h.sound
  refine ⟨fun e he finalSize hsize => ?_, fun f hf => (h.emitted _ hf).1, fun id hid => ?_, ?_⟩
  · have hfits := h.emitted e he
    cases e with
    | stream =>
      rw [Emitted.finalSize?] at hsize
      split_ifs at hsize with hfin
      rw [← some.inj hsize]
      exact (hfits.2 hfin).2
    | reset =>
      rw [← some.inj hsize]
      exact hfits.2
  · obtain rfl : phase = .reset := h.tokens _ hid
    exact wasReset_of_tracks h.tracks
  · intro connFc err ops priority split b f hf
    obtain ⟨phase', h', hphase'⟩ := h.run_reset connFc err ops
    have hsound := (writeFrames_tracks h'.tracks connFc priority split b).2.1 _ hf
    constructor
    · by_contra hfin
      rw [Bool.not_eq_false] at hfin
      obtain ⟨rfl, -⟩ := hsound.fin hfin
      rcases hphase' with hphase' | hphase' <;> cases hphase'
    · rcases hphase' with rfl | rfl
      · exact hsound.reliable nofun nofun
      · exact hsound.reliable nofun nofun

/-- Two bytes are accepted and committed and a third one is accepted. They are sent and lost, and
the stream is reset: the final size is 3, and only the first two bytes are sent again. -/
theorem finalSize_consistent_of_loss :
    .reset ⟨⟨0⟩, 9, 3, 2⟩ ∈ ((new ⟨0⟩ 100).run
      [(⟨(), 100, 0, none, false⟩, .send [1, 2] false), (⟨(), 100, 2, none, false⟩, .commit),
        (⟨(), 100, 2, none, false⟩, .send [3] false),
        (⟨(), 100, 3, none, false⟩, .writeFrames .normal 8 { limit := 50 }),
        (⟨(), 100, 3, none, false⟩, .lost 0), (⟨(), 100, 3, none, false⟩, .reset 9),
        (⟨(), 100, 3, none, false⟩, .writeFrames .normal 8 { limit := 50 })]).emitted ∧
    3 = ((new ⟨0⟩ 100).run
      [(⟨(), 100, 0, none, false⟩, .send [1, 2] false), (⟨(), 100, 2, none, false⟩, .commit),
        (⟨(), 100, 2, none, false⟩, .send [3] false),
        (⟨(), 100, 3, none, false⟩, .writeFrames .normal 8 { limit := 50 }),
        (⟨(), 100, 3, none, false⟩, .lost 0), (⟨(), 100, 3, none, false⟩, .reset 9),
        (⟨(), 100, 3, none, false⟩, .writeFrames .normal 8 { limit := 50 })]).accepted.length := by
  refine ⟨by decide, ?_⟩
  exact (Reachable.finalSize_consistent ⟨_, _, _, rfl⟩).1 (.reset ⟨⟨0⟩, 9, 3, 2⟩) (by decide) 3 rfl

/-! ### Commitments -/

/-- The operation leaves the commitment as it is. -/
def keepsCommitment : SendStream.Op → Bool
  | .commit => false
  | .dropCommitment => false
  | _ => true

lemma step_committed (connFc : ConnFc) {op : SendStream.Op}
    (h : keepsCommitment op = true) : (t.step connFc op).1.committed = t.committed := by
  cases op with
  | commit | dropCommitment => cases h
  | acked | lost =>
    rw [step]
    split <;> rfl
  | _ => rfl

lemma run_committed (t : Sending) {ops : List (ConnFc × SendStream.Op)}
    (h : ops.all (fun op => keepsCommitment op.2) = true) :
    (t.run ops).committed = t.committed := by
  induction ops generalizing t with
  | nil => rfl
  | cons step ops ih =>
    obtain ⟨hop, hops⟩ := Bool.and_eq_true_iff.mp (all_cons ▸ h)
    exact (ih _ hops).trans (t.step_committed step.1 hop)

lemma next_of_unsent {b : TxBuffer} {accepted : Bytes} (h : b.Carries accepted) {x : ℕ}
    (hx : x < accepted.length) (hunsent : b.ranges.stateAt x = .unsent)
    (hbefore : ∀ y < x, b.ranges.stateAt y ≠ .unsent) (split : ℕ) :
    ∃ data, (b.nextBytes split).2 = some (x, data) ∧ data ≠ [] ∧ data <+: accepted.drop x := by
  rcases h.nextBytes_cases split with ⟨-, hmarked⟩ | ⟨offset, data, hr, hnext⟩
  · exact absurd hunsent (hmarked x hx)
  · have heq : offset = x := by
      rcases lt_trichotomy offset x with hlt | heq | hlt
      · exact absurd hnext.first (hbefore offset hlt)
      · exact heq
      · exact absurd hunsent (hnext.marked_before x hlt)
    subst heq
    exact ⟨data, hr, hnext.ne_nil, hnext.piece.2⟩

/-- What was committed is acknowledged or still in the buffer, where it is found once all before it
is sent. -/
lemma committed_obtainable {s : SendStream} {r : Record} (h : s.state.Tracks r phase) {x : ℕ}
    (hx : x < r.committed) (hacked : ¬ r.acked x) :
    ∃ sendBuf, s.state.txBuf = some sendBuf ∧
      (sendBuf.ranges.stateAt x ≠ .sent → (∀ y < x, sendBuf.ranges.stateAt y ≠ .unsent) →
        ∀ split, ∃ data, (s.nextBytes false split).2 = some (x, data) ∧ data ≠ [] ∧
          data <+: r.accepted.drop x) := by
  have hbuf (hbuf? : s.state.txBuf = none) : False := by
    generalize s.state = state at h hbuf?
    cases h with
    | ready => omega
    | dataRecvd total all => exact hacked (all x (by omega))
    | resetSent _ _ _ total acked done | resetRecvd total acked done => exact hacked (done x hx)
    | _ => cases hbuf?
  obtain ⟨b, hb⟩ := ne_none_iff_exists'.mp hbuf
  have htracks := h.txBuf hb
  refine ⟨b, hb, fun hsent hbefore split => ?_⟩
  have hunsent : b.ranges.stateAt x = .unsent := by
    cases hstate : b.ranges.stateAt x with
    | unsent => rfl
    | sent => exact absurd hstate hsent
    | acked => exact absurd ((htracks.acked_iff x).mp hstate) hacked
  have hlen : r.committed ≤ r.accepted.length ∧
      ∀ limit ∈ s.sendLimit false, limit = r.committed := by
    unfold sendLimit
    generalize s.state = state at h hb
    cases h with
    | send fc used buf le | dataSent finSent finAcked buf le => exact ⟨le, nofun⟩
    | resetSentReliable err priority frameAcked buf le =>
      exact ⟨le, fun limit hlimit => (some.inj hlimit).symm⟩
    | _ => cases hb
  obtain ⟨data, hr, hne, hpre⟩ := next_of_unsent htracks.toCarries (hx.trans_le hlen.1) hunsent
    hbefore split
  simp only [nextBytes_snd, hb, bind_some, hr]
  cases hlimit : s.sendLimit false with
  | none => exact ⟨data, rfl, hne, hpre⟩
  | some limit =>
    obtain rfl := hlen.2 limit hlimit
    refine ⟨data.take (r.committed - x), if_pos hx, ?_, (List.take_prefix _ _).trans hpre⟩
    have hpos := length_pos_iff.mpr hne
    rw [← length_pos_iff, length_take]
    omega

/-- **Commitments are kept.**  Let `commit` be accepted, and no other one nor a `STOP_SENDING`
follow. Then the stream is in `resetRecvd` only when every byte that had been accepted at the
`commit`, and a reset frame, are acknowledged. Every such byte that is not acknowledged is in the
buffer, and if it is not marked as sent, `nextBytes` returns it as soon as all bytes before it
are. -/
theorem Reachable.commitment_kept {t : Sending} (h : t.Reachable)
    (hcommit : t.stream.commit.2 = .ok ()) (connFc : ConnFc) (ops : List (ConnFc × SendStream.Op))
    (hkeeps : ops.all (fun op => keepsCommitment op.2) = true) :
    (∀ finalRetired finalWritten,
      (t.run ((connFc, .commit) :: ops)).stream.state = .resetRecvd finalRetired finalWritten →
      (∀ x < t.accepted.length, (t.run ((connFc, .commit) :: ops)).IsAcked x) ∧
        (t.run ((connFc, .commit) :: ops)).ResetAcked) ∧
    ∀ x < t.accepted.length, ¬ (t.run ((connFc, .commit) :: ops)).IsAcked x →
      ∃ sendBuf, (t.run ((connFc, .commit) :: ops)).stream.state.txBuf = some sendBuf ∧
        (sendBuf.ranges.stateAt x ≠ .sent → (∀ y < x, sendBuf.ranges.stateAt y ≠ .unsent) →
          ∀ split, ∃ data,
            ((t.run ((connFc, .commit) :: ops)).stream.nextBytes false split).2 = some (x, data) ∧
            data ≠ [] ∧ data <+: (t.run ((connFc, .commit) :: ops)).accepted.drop x) := by
  obtain ⟨phase, hsound⟩ := (h.run ((connFc, .commit) :: ops)).sound
  have hcommitted : (t.run ((connFc, .commit) :: ops)).committed = t.accepted.length := by
    rw [run_cons, run_committed _ hkeeps]
    show (if t.stream.commit.2.isOk then _ else _) = _
    rw [hcommit]
    rfl
  rw [← hcommitted]
  generalize t.run ((connFc, .commit) :: ops) = t' at hsound ⊢
  refine ⟨fun finalRetired finalWritten hstate => ?_, fun x hx hacked => ?_⟩
  · have htracks := hsound.tracks
    rw [hstate] at htracks
    cases htracks with
    | resetRecvd total acked done reset => exact ⟨done, reset⟩
  · exact committed_obtainable hsound.tracks hx hacked

/-- The first two bytes of three are committed. After the stream is reset, `nextBytes` returns
them. -/
theorem commitment_kept_after_reset :
    ((new ⟨0⟩ 100).run [(⟨(), 100, 0, none, false⟩, .send [1, 2] false)]).stream.commit.2 = .ok () ∧
    ∃ sendBuf, (((new ⟨0⟩ 100).run [(⟨(), 100, 0, none, false⟩, .send [1, 2] false)]).run
        [(⟨(), 100, 2, none, false⟩, .commit), (⟨(), 100, 2, none, false⟩, .send [3] false),
          (⟨(), 100, 3, none, false⟩, .reset 9)]).stream.state.txBuf = some sendBuf := by
  have hcommit : ((new ⟨0⟩ 100).run
      [(⟨(), 100, 0, none, false⟩, .send [1, 2] false)]).stream.commit.2 = .ok () := by
    decide
  obtain ⟨sendBuf, hbuf, -⟩ := (Reachable.commitment_kept ⟨_, _, _, rfl⟩ hcommit
    ⟨(), 100, 2, none, false⟩ [(⟨(), 100, 2, none, false⟩, .send [3] false),
      (⟨(), 100, 3, none, false⟩, .reset 9)] (by decide)).2 0 (by decide)
    fun ⟨_, htoken, _⟩ => not_mem_nil htoken
  exact ⟨hcommit, sendBuf, hbuf⟩

end Sending

end Neqo
