import Neqo.SendStream.Equiv.FlowControl

/-!
# What a `SendStream` remembers, in all of its states

`State.Tracks` relates the state of a stream to what has happened to it: which bytes were accepted,
how many of them are committed, which were acknowledged, which can be unsent, and whether a reset
was acknowledged. Every operation keeps this up.
-/

namespace Neqo

open List Option RangeTracker

/-! ### The buffer -/

namespace TxBuffer

/-- The buffer carries what was accepted, knows which bytes were acknowledged, and has only `fresh`
bytes to send. -/
structure Tracks (b : TxBuffer) (accepted : Bytes) (acked fresh : ℕ → Prop) : Prop extends
    b.Carries accepted where
  acked_iff : ∀ x, b.ranges.stateAt x = .acked ↔ acked x
  fresh_of_unsent : ∀ x, b.ranges.stateAt x = .unsent → fresh x

variable {b : TxBuffer} {accepted : Bytes} {acked fresh : ℕ → Prop}

lemma tracks_new (h : ∀ x, ¬ acked x) (hfresh : ∀ x, fresh x) : Tracks {} [] acked fresh where
  toCarries := carries_new
  acked_iff x := ⟨nofun, fun hx => absurd hx (h x)⟩
  fresh_of_unsent x _ := hfresh x

lemma Tracks.send (h : b.Tracks accepted acked fresh) (buf : Bytes) :
    (b.send buf).1.Tracks (accepted ++ buf.take (b.send buf).2) acked fresh :=
  ⟨h.toCarries.send buf, h.acked_iff, h.fresh_of_unsent⟩

lemma stateAt_nextBytes (h : b.ranges.WF) (split x : ℕ) :
    (b.nextBytes split).1.ranges.stateAt x = b.ranges.stateAt x := by
  rw [nextBytes_fst]
  exact (firstUnmarkedRange_spec h).2.1 x

section

variable (h : b.Tracks accepted acked fresh)

include h

lemma Tracks.nextBytes (split : ℕ) : (b.nextBytes split).1.Tracks accepted acked fresh := by
  refine ⟨h.toCarries.nextBytes split, fun x => ?_, fun x => ?_⟩ <;> rw [stateAt_nextBytes h.wf]
  · exact h.acked_iff x
  · exact h.fresh_of_unsent x

lemma Tracks.markAsSent {offset len : ℕ}
    (hle : offset + len ≤ accepted.length) (hbefore : ∀ x < offset, b.ranges.stateAt x ≠ .unsent) :
    (b.markAsSent offset len).Tracks accepted acked fun x => fresh x ∧ offset + len ≤ x := by
  have hstate (x : ℕ) : (b.markAsSent offset len).ranges.stateAt x = _ :=
    (markSent_spec h.wf offset len).2 x
  refine ⟨h.toCarries.markAsSent hle, fun x => ?_, fun x hx => ?_⟩
  · rw [← h.acked_iff x, hstate]
    split_ifs with hx
    · rw [hx.2.2]
      exact ⟨nofun, nofun⟩
    · rfl
  · rw [hstate] at hx
    split_ifs at hx with hin
    refine ⟨h.fresh_of_unsent x hx, not_lt.mp fun hlt => hin ⟨not_lt.mp fun hlt' => ?_, hlt, hx⟩⟩
    exact hbefore x hlt' hx

lemma Tracks.markAsLost (offset len : ℕ) :
    (b.markAsLost offset len).Tracks accepted acked
      fun x => (offset ≤ x ∧ x < offset + len) ∨ fresh x := by
  have hstate (x : ℕ) : (b.markAsLost offset len).ranges.stateAt x = _ :=
    (unmarkRange_spec h.wf offset len).2 x
  refine ⟨h.toCarries.markAsLost offset len, fun x => ?_, fun x hx => ?_⟩
  · rw [← h.acked_iff x, hstate]
    split_ifs with hx
    · rw [hx.2.2]
      exact ⟨nofun, nofun⟩
    · rfl
  · rw [hstate] at hx
    split_ifs at hx with hin
    · exact .inl ⟨hin.1, hin.2.1⟩
    · exact .inr (h.fresh_of_unsent x hx)

lemma Tracks.markAsAcked {offset len : ℕ} (hle : offset + len ≤ accepted.length) :
    (b.markAsAcked offset len).Tracks accepted
      (fun x => (offset ≤ x ∧ x < offset + len) ∨ acked x) fresh := by
  have hstate (x : ℕ) : (b.markAsAcked offset len).ranges.stateAt x = _ :=
    (markAcked_spec h.wf offset len).2 x
  refine ⟨h.toCarries.markAsAcked hle, fun x => ?_, fun x hx => ?_⟩
  · rw [hstate]
    split_ifs with hx
    · exact ⟨fun _ => .inl hx, fun _ => rfl⟩
    · rw [h.acked_iff x]
      exact ⟨.inr, fun hor => hor.resolve_left hx⟩
  · rw [hstate] at hx
    split_ifs at hx
    exact h.fresh_of_unsent x hx

lemma Tracks.acked_of_lt_retired (x : ℕ) (hx : x < b.retired) :
    acked x := (h.acked_iff x).mp (stateAt_of_lt hx)

lemma Tracks.acked_of_buffered (hbuffered : b.buffered = 0) {x : ℕ}
    (hx : x < accepted.length) : acked x := by
  apply h.acked_of_lt_retired
  have hused := h.used
  rw [TxBuffer.used] at hused
  omega

end

end TxBuffer

namespace SendStream

/-! ### The states -/

/-- What the stream can still do: accept data, emit data with FIN, nothing (everything was
acknowledged), or emit a reset and committed data. -/
inductive Phase where
  | accepting
  | closed
  | received
  | reset
  deriving DecidableEq, Repr

/-- What has happened to a stream. -/
structure Record where
  accepted : Bytes
  committed : ℕ
  /-- The bytes that were acknowledged. -/
  acked : ℕ → Prop
  /-- The bytes that can be unsent: they were not sent yet, or lost. -/
  fresh : ℕ → Prop
  /-- Whether a reset frame was acknowledged. -/
  resetAcked : Prop

/-- **What the state of a stream stands for.** -/
inductive State.Tracks (r : Record) : Phase → State → Prop
  | ready (fc : SenderFlowControl StreamId) (used : fc.used = 0) (empty : r.accepted = [])
      (uncommitted : r.committed = 0) (unacked : ∀ x, ¬ r.acked x) (fresh : ∀ x, r.fresh x) :
      Tracks r .accepting (.ready fc)
  | send (fc : SenderFlowControl StreamId) {sendBuf : TxBuffer}
      (used : fc.used = r.accepted.length) (buf : sendBuf.Tracks r.accepted r.acked r.fresh)
      (le : r.committed ≤ r.accepted.length) :
      Tracks r .accepting (.send fc sendBuf r.committed)
  | dataSent (finSent finAcked : Bool) {sendBuf : TxBuffer}
      (buf : sendBuf.Tracks r.accepted r.acked r.fresh) (le : r.committed ≤ r.accepted.length) :
      Tracks r .closed (.dataSent sendBuf finSent finAcked r.committed)
  | dataRecvd {retired written : ℕ} (total : retired + written = r.accepted.length)
      (all : ∀ x < r.accepted.length, r.acked x) (le : r.committed ≤ r.accepted.length) :
      Tracks r .received (.dataRecvd retired written)
  | resetSent (err reliableSize : ℕ) (priority : Option TransmissionPriority)
      {finalRetired finalWritten : ℕ} (total : finalRetired + finalWritten = r.accepted.length)
      (acked : ∀ x < finalRetired, r.acked x) (done : ∀ x < r.committed, r.acked x) :
      Tracks r .reset
        (.resetSent err r.accepted.length reliableSize priority finalRetired finalWritten)
  | resetSentReliable (err : ℕ) (priority : Option TransmissionPriority) (frameAcked : Bool)
      {sendBuf : TxBuffer} (buf : sendBuf.Tracks r.accepted r.acked r.fresh)
      (le : r.committed ≤ r.accepted.length) (reset : frameAcked = true → r.resetAcked) :
      Tracks r .reset
        (.resetSentReliable sendBuf err r.accepted.length r.committed priority frameAcked)
  | resetRecvd {finalRetired finalWritten : ℕ}
      (total : finalRetired + finalWritten = r.accepted.length)
      (acked : ∀ x < finalRetired, r.acked x) (done : ∀ x < r.committed, r.acked x)
      (reset : r.resetAcked) : Tracks r .reset (.resetRecvd finalRetired finalWritten)

variable {s : SendStream} {r : Record} {phase : Phase}

variable {state state' : State}

lemma State.Tracks.counts (h : state.Tracks r phase) :
    state.bytesWritten = r.accepted.length ∧ ∀ x < state.bytesAcked, r.acked x := by
  cases h with
  | ready fc used empty => exact ⟨by rw [empty]; rfl, nofun⟩
  | send _ _ buf | dataSent _ _ buf | resetSentReliable _ _ _ buf =>
    exact ⟨buf.used, buf.acked_of_lt_retired⟩
  | dataRecvd total all => exact ⟨total,
      fun x hx => all x (hx.trans_le (total ▸ Nat.le_add_right _ _))⟩
  | resetSent _ _ _ total acked | resetRecvd total acked => exact ⟨total, acked⟩

lemma State.Touched.tracks {buf : TxBuffer → TxBuffer → Prop} {fresh : ℕ → Prop}
    {resetAcked : Prop} (h : state.Touched buf state') (ht : state.Tracks r phase)
    (hbuf : ∀ b b', state.txBuf = some b → buf b b' → b.Tracks r.accepted r.acked r.fresh →
      b'.Tracks r.accepted r.acked fresh)
    (hready : r.accepted = [] → ∀ x, r.fresh x → fresh x) (hreset : r.resetAcked → resetAcked) :
    state'.Tracks { r with fresh := fresh, resetAcked := resetAcked } phase := by
  cases h <;> cases ht
  case ready hfc empty uncommitted unacked fresh used =>
    exact .ready _ (hfc.1.trans used) empty uncommitted unacked fun x => hready empty x (fresh x)
  case send hfc hb le used buf => exact .send _ (hfc.1.trans used) (hbuf _ _ rfl hb buf) le
  case dataSent hb le buf => exact .dataSent _ _ (hbuf _ _ rfl hb buf) le
  case dataRecvd all le total => exact .dataRecvd total all le
  case resetSent done acked total => exact .resetSent _ _ _ total acked done
  case resetSentReliable hb le buf reset =>
    exact .resetSentReliable _ _ _ (hbuf _ _ rfl hb buf) le fun hacked => hreset (reset hacked)
  case resetRecvd done reset acked total => exact .resetRecvd total acked done (hreset reset)

lemma State.Touched.tracks_eq (h : state.Touched Eq state') (ht : state.Tracks r phase) :
    state'.Tracks r phase :=
  h.tracks ht (fun _ _ _ hb => hb ▸ id) (fun _ _ => id) id

lemma State.Tracks.mono (h : state.Tracks r phase) {fresh : ℕ → Prop} {resetAcked : Prop}
    (hfresh : ∀ x, r.fresh x → fresh x) (hreset : r.resetAcked → resetAcked) :
    state.Tracks { r with fresh := fresh, resetAcked := resetAcked } phase := by
  have hself : state.Touched Eq state := .of_eq rfl
  refine hself.tracks h ?_ (fun _ => hfresh) hreset
  rintro b _ - rfl hb
  exact { hb with fresh_of_unsent := fun x hx => hfresh x (hb.fresh_of_unsent x hx) }

/-! ### Operations of the application -/

lemma enterSend_tracks (h : s.state.Tracks r phase) : s.enterSend.state.Tracks r phase := by
  cases s
  have hsame := h
  cases h with
  | ready fc used empty uncommitted unacked fresh =>
    obtain ⟨accepted, committed, acked, fresh, resetAcked⟩ := r
    subst empty uncommitted
    exact .send fc used (TxBuffer.tracks_new unacked ‹_›) le_rfl
  | _ => exact hsame

lemma sendInternal_tracks (h : s.state.Tracks r phase) (connFc : ConnFc)
    (buf : Bytes) (atomic : Bool) :
    (s.sendInternal connFc buf atomic).1.state.Tracks
      { r with accepted := r.accepted ++
        acceptedBytes buf (s.sendInternal connFc buf atomic).2.2 } phase ∧
    (phase ≠ .accepting → acceptedBytes buf (s.sendInternal connFc buf atomic).2.2 = []) := by
  have henter := enterSend_tracks h
  obtain ⟨s', connFc', res, heq, hlength, ⟨hnil, htouched | htouched, -⟩ |
    ⟨fc, sendBuf, committed, data, n, hs, rfl, -, htake, hs', rfl, rfl⟩⟩ :=
    s.sendInternal_spec connFc buf atomic <;> rw [heq]
  · rw [hnil, append_nil]
    exact ⟨htouched.tracks_eq h, fun _ => rfl⟩
  · rw [hnil, append_nil]
    exact ⟨htouched.tracks_eq henter, fun _ => rfl⟩
  · rw [hs] at henter
    rw [hs']
    cases henter with
    | send _ used buf' le =>
      refine ⟨?_, fun hne => absurd rfl hne⟩
      have hbuf := buf'.send data
      rw [htake] at hbuf
      refine .send _ ?_ hbuf (le.trans ?_)
      · show fc.used + _ = (r.accepted ++ buf.take _).length
        rw [length_append, length_take_of_le (hlength _ rfl), used]
      · rw [length_append]
        omega

lemma close_tracks (h : s.state.Tracks r phase) :
    s.close.state.Tracks r (if phase = .accepting then .closed else phase) := by
  cases s
  have hsame := h
  cases h with
  | ready fc used empty uncommitted unacked fresh =>
    obtain ⟨accepted, committed, acked, fresh, resetAcked⟩ := r
    subst empty uncommitted
    exact .dataSent false false (TxBuffer.tracks_new unacked ‹_›) le_rfl
  | send fc used buf le => exact .dataSent false false buf le
  | _ => exact hsame

/-- A commitment is for all that was accepted; after a reset there is none. -/
lemma commit_tracks (h : s.state.Tracks r phase) :
    s.commit.1.state.Tracks
      { r with committed := if s.commit.2.isOk then r.accepted.length else r.committed } phase := by
  cases s
  have hsame := h
  cases h with
  | ready fc used empty uncommitted unacked fresh =>
    refine .ready fc used empty ?_ unacked fresh
    show r.accepted.length = 0
    rw [empty]
    rfl
  | @send fc sendBuf used buf le =>
    show State.Tracks { r with committed := r.accepted.length } .accepting
      (.send fc sendBuf sendBuf.used)
    rw [buf.used]
    exact .send fc used buf le_rfl
  | @dataSent finSent finAcked sendBuf buf le =>
    show State.Tracks { r with committed := r.accepted.length } .closed
      (.dataSent sendBuf finSent finAcked sendBuf.used)
    rw [buf.used]
    exact .dataSent finSent finAcked buf le_rfl
  | dataRecvd total all => exact .dataRecvd total all le_rfl
  | _ => exact hsame

/-- The reset state stands for the same as the state before, whether or not the buffer is kept. -/
lemma makeResetState_tracks {sendBuf : TxBuffer} (buf : sendBuf.Tracks r.accepted r.acked r.fresh)
    (le : r.committed ≤ r.accepted.length) (err : ℕ) (priority : TransmissionPriority) :
    (makeResetState err priority sendBuf r.accepted.length r.committed).Tracks r .reset := by
  unfold makeResetState
  dsimp only
  rw [min_eq_left le]
  split_ifs with hdone
  · refine .resetSent err _ _ buf.used buf.acked_of_lt_retired fun x hx =>
      buf.acked_of_lt_retired x ?_
    omega
  · exact .resetSentReliable err _ false buf le nofun

lemma reset_tracks (h : s.state.Tracks r phase) (err : ℕ) :
    (s.reset err).state.Tracks r (if phase = .received then .received else .reset) := by
  obtain ⟨_, state, priority⟩ := s
  have hsame := h
  cases h with
  | ready fc used empty =>
    have hreset : State.Tracks r .reset (.resetSent err r.accepted.length 0 (some priority) 0 0) :=
      .resetSent err 0 _ (by rw [empty]; rfl) nofun fun x hx => by omega
    rw [empty] at hreset
    show State.Tracks r .reset (.resetSent err fc.used 0 (some priority) 0 0)
    rw [used]
    exact hreset
  | @send fc sendBuf used buf le =>
    have hreset := makeResetState_tracks buf le err priority
    rw [← used] at hreset
    exact hreset
  | @dataSent finSent finAcked sendBuf buf le =>
    have hreset := makeResetState_tracks buf le err priority
    rw [← buf.used] at hreset
    exact hreset
  | _ => exact hsame

lemma dropCommitment_tracks (h : s.state.Tracks r phase) :
    s.dropCommitment.state.Tracks { r with committed := 0 } phase := by
  cases s
  cases h with
  | ready fc used empty uncommitted unacked fresh => exact .ready fc used empty rfl unacked fresh
  | send fc used buf => exact .send fc used buf (Nat.zero_le _)
  | dataSent finSent finAcked buf => exact .dataSent finSent finAcked buf (Nat.zero_le _)
  | dataRecvd total all => exact .dataRecvd total all (Nat.zero_le _)
  | resetSent err reliableSize priority total acked =>
    exact .resetSent err reliableSize priority total acked nofun
  | resetSentReliable err priority frameAcked buf le reset =>
    unfold dropCommitment
    dsimp only
    split_ifs with hacked
    · exact .resetRecvd buf.used buf.acked_of_lt_retired nofun (reset hacked)
    · exact .resetSent err 0 priority buf.used buf.acked_of_lt_retired nofun
  | resetRecvd total acked done reset => exact .resetRecvd total acked nofun reset

/-! ### Acknowledgment and loss -/

/-- The stream is done once a reset and all that was committed are acknowledged. -/
lemma resetAcked_tracks (h : s.state.Tracks r phase) (hreset : r.resetAcked) :
    s.resetAcked.state.Tracks r phase := by
  cases s
  have hsame := h
  cases h with
  | resetSent err reliableSize priority total acked done =>
    exact .resetRecvd total acked done hreset
  | resetSentReliable err priority frameAcked buf le =>
    unfold resetAcked
    dsimp only
    split_ifs with hretired
    · exact .resetRecvd buf.used buf.acked_of_lt_retired
        (fun x hx => buf.acked_of_lt_retired x (by omega)) hreset
    · exact .resetSentReliable err priority true buf le fun _ => hreset
  | _ => exact hsame

/-- The bytes of a range are acknowledged too. -/
def Record.ackRange (r : Record) (offset len : ℕ) : Record :=
  { r with acked := fun x => (offset ≤ x ∧ x < offset + len) ∨ r.acked x }

variable {offset len : ℕ}

/-- The acknowledgment of a range can complete a stream that was closed. -/
lemma markAsAcked_tracks (h : s.state.Tracks r phase) (hle : offset + len ≤ r.accepted.length)
    (fin : Bool) :
    ∃ phase', (s.markAsAcked offset len fin).state.Tracks (r.ackRange offset len) phase' ∧
      (phase' = phase ∨ phase = .closed ∧ phase' = .received) := by
  cases s
  cases h with
  | ready fc used empty uncommitted unacked fresh =>
    refine ⟨_, .ready fc used empty uncommitted (fun x hx => ?_) fresh, .inl rfl⟩
    rcases hx with hx | hx
    · rw [empty, length_nil] at hle
      omega
    · exact unacked x hx
  | send fc used buf le =>
    exact ⟨_, .send fc used (buf.markAsAcked hle) le, .inl rfl⟩
  | dataSent finSent finAcked buf le =>
    have buf' := buf.markAsAcked hle
    unfold markAsAcked
    dsimp only
    split_ifs with hdone
    · exact ⟨.received, .dataRecvd buf'.used (fun x hx => buf'.acked_of_buffered hdone.2 hx) le,
        .inr ⟨rfl, rfl⟩⟩
    · exact ⟨_, .dataSent finSent _ buf' le, .inl rfl⟩
  | dataRecvd total all le => exact ⟨_, .dataRecvd total (fun x hx => .inr (all x hx)) le, .inl rfl⟩
  | resetSent err reliableSize priority total acked done =>
    exact ⟨_, .resetSent err reliableSize priority total
      (fun x hx => .inr (acked x hx)) fun x hx => .inr (done x hx), .inl rfl⟩
  | resetSentReliable err priority frameAcked buf le reset =>
    have buf' := buf.markAsAcked hle
    unfold markAsAcked
    dsimp only
    split_ifs with hretired hacked
    · exact ⟨_, .resetRecvd buf'.used buf'.acked_of_lt_retired
        (fun x hx => buf'.acked_of_lt_retired x (lt_of_lt_of_le hx hretired)) (reset hacked),
        .inl rfl⟩
    · exact ⟨_, .resetSent err _ priority buf'.used
        buf'.acked_of_lt_retired fun x hx => buf'.acked_of_lt_retired x
        (lt_of_lt_of_le hx hretired),
        .inl rfl⟩
    · exact ⟨_, .resetSentReliable err priority frameAcked buf' le reset,
        .inl rfl⟩
  | resetRecvd total acked done reset =>
    exact ⟨_, .resetRecvd total (fun x hx => .inr (acked x hx))
      (fun x hx => .inr (done x hx)) reset, .inl rfl⟩

/-! ### Writing frames -/

lemma dueReset_tracks (h : s.state.Tracks r phase) {p : TransmissionPriority} {f : ResetFrame}
    (hdue : s.dueReset p = some f) : phase = .reset ∧ f.finalSize = r.accepted.length := by
  unfold dueReset at hdue
  generalize s.state = state at h hdue
  cases h with
  | resetSent | resetSentReliable =>
    dsimp only at hdue
    split_ifs at hdue
    obtain rfl := some.inj hdue
    exact ⟨rfl, rfl⟩
  | _ => cases hdue

/-- What may be in a `STREAM` frame: accepted bytes, only committed ones after a reset, and none
while others before them are unsent. -/
structure Allowed (state : State) (r : Record) (phase : Phase) (offset : ℕ) (data : Bytes) :
    Prop where
  piece : Piece r.accepted offset data
  reliable : phase ≠ .accepting → phase ≠ .closed →
    ∃ reliableSize, state.reliableSize? = some reliableSize ∧ offset + data.length ≤ reliableSize
  first : ∀ b, state.txBuf = some b → ∀ x < offset, b.ranges.stateAt x ≠ .unsent

lemma Allowed.take {data : Bytes} (h : Allowed state r phase offset data) (n : ℕ) :
    Allowed state r phase offset (data.take n) := by
  refine ⟨h.piece.take n, fun hphase hphase' => ?_, h.first⟩
  obtain ⟨reliableSize, hsize, hle⟩ := h.reliable hphase hphase'
  refine ⟨reliableSize, hsize, le_trans (Nat.add_le_add_left ?_ offset) hle⟩
  exact length_take_le' n data

/-- Where the next bytes are cut off. -/
def sendLimit (s : SendStream) (retransmissionOnly : Bool) : Option ℕ :=
  match s.state with
  | .send _ _ _ => if retransmissionOnly then some s.retransmissionOffset else none
  | .resetSentReliable _ _ _ reliableSize _ _ =>
    some (if retransmissionOnly then min s.retransmissionOffset reliableSize else reliableSize)
  | _ => none

/-- Cut bytes off at a limit. -/
def cutOff : Option ℕ → ℕ × Bytes → Option (ℕ × Bytes)
  | none, r => some r
  | some limit, r => if r.1 < limit then some (r.1, r.2.take (limit - r.1)) else none

/-- FIN has to be sent. -/
def State.finDue : State → Bool
  | dataSent _ finSent _ _ => !finSent
  | _ => false

/-- **What is sent next**: what the buffer has next up to the limit, or else FIN. -/
theorem nextBytes_snd (s : SendStream) (retransmissionOnly : Bool) (split : ℕ) :
    (s.nextBytes retransmissionOnly split).2 = s.state.txBuf.bind fun b =>
      match (b.nextBytes split).2 with
      | some r => cutOff (s.sendLimit retransmissionOnly) r
      | none => if s.state.finDue then some (b.used, []) else none := by
  unfold nextBytes sendLimit
  cases s.state with
  | send fc sendBuf =>
    dsimp only [State.txBuf, bind_some]
    obtain _ | r := (sendBuf.nextBytes split).2
    · rfl
    · cases retransmissionOnly
      · rfl
      · by_cases hlt : r.1 < s.retransmissionOffset <;> simp [cutOff, hlt]
  | dataSent sendBuf finSent =>
    dsimp only [State.txBuf, bind_some]
    obtain _ | r := (sendBuf.nextBytes split).2
    · cases finSent <;> rfl
    · rfl
  | resetSentReliable sendBuf =>
    dsimp only [State.txBuf, bind_some]
    obtain _ | r := (sendBuf.nextBytes split).2
    · rfl
    · dsimp only [cutOff]
      split_ifs <;> rfl
  | _ => rfl

lemma cutOff_eq_some {limit : Option ℕ} {o : ℕ} {slice data : Bytes}
    (h : cutOff limit (o, slice) = some (offset, data)) (hne : slice ≠ []) :
    offset = o ∧ (∃ n, data = slice.take n) ∧ data ≠ [] ∧ ∀ l ∈ limit,
      offset + data.length ≤ l := by
  cases limit with
  | none =>
    cases h
    exact ⟨rfl, ⟨_, take_length.symm⟩, hne, nofun⟩
  | some =>
    dsimp only [cutOff] at h
    split_ifs at h with hlt
    cases h
    have hpos := length_pos_iff.mpr hne
    refine ⟨rfl, ⟨_, rfl⟩, ?_, ?_⟩
    · rw [← length_pos_iff, length_take]
      omega
    · rintro _ ⟨⟩
      rw [length_take]
      omega

lemma State.Tracks.txBuf (h : state.Tracks r phase) {b : TxBuffer} (hb : state.txBuf = some b) :
    b.Tracks r.accepted r.acked r.fresh := by
  cases h <;> cases hb <;> assumption

/-- What is sent next is allowed. It is empty only if it is FIN that has to be sent. -/
lemma nextBytes_allowed (h : s.state.Tracks r phase) (retransmissionOnly : Bool) (split : ℕ) :
    ∀ offset data, (s.nextBytes retransmissionOnly split).2 = some (offset, data) →
      Allowed s.state r phase offset data ∧
        (data = [] → ∃ sendBuf finSent finAcked committed,
          s.state = .dataSent sendBuf finSent finAcked committed ∧ offset = sendBuf.used) := by
  intro offset data hr
  rw [nextBytes_snd] at hr
  obtain ⟨b, hb, hr⟩ := bind_eq_some_iff.mp hr
  have hbuf := h.txBuf hb
  have hfirst {x y : ℕ} {b' : TxBuffer} (h : ∀ x < y, b.ranges.stateAt x ≠ .unsent)
      (hb' : s.state.txBuf = some b') (hx : x < y) : b'.ranges.stateAt x ≠ .unsent :=
    some.inj (hb.symm.trans hb') ▸ h x hx
  rcases hbuf.toCarries.nextBytes_cases split with ⟨hnone, hmarked⟩ | ⟨o, slice, hsome, hnext⟩
  · -- The empty frame that carries FIN alone.
    simp only [hnone] at hr
    split_ifs at hr with hfin
    cases hr
    rw [← hbuf.used] at hmarked
    generalize s.state = state at h hb hfin hfirst
    cases h with
    | dataSent =>
      cases hb
      refine ⟨⟨?_, fun _ hne => absurd rfl hne, fun b' hb' x => hfirst hmarked hb'⟩,
        fun _ => ⟨_, _, _, _, rfl, rfl⟩⟩
      rw [hbuf.used]
      exact ⟨le_rfl, nil_prefix⟩
    | _ => cases hfin
  · simp only [hsome] at hr
    obtain ⟨rfl, ⟨n, rfl⟩, hdata, hlimit⟩ := cutOff_eq_some hr hnext.ne_nil
    refine ⟨⟨hnext.piece.take n, fun haccepting hclosed => ?_,
      fun b' hb' x => hfirst hnext.marked_before hb'⟩, fun hnil => absurd hnil hdata⟩
    unfold sendLimit at hlimit
    generalize s.state = state at h hb hlimit
    cases h with
    | resetSentReliable =>
      refine ⟨_, rfl, (hlimit _ rfl).trans ?_⟩
      split_ifs
      · omega
      · exact le_rfl
    | send => exact absurd rfl haccepting
    | dataSent => exact absurd rfl hclosed
    | _ => cases hb

/-- A `STREAM` frame that the stream may emit. -/
structure StreamFrame.Sound (f : StreamFrame) (state : State) (r : Record) (phase : Phase) :
    Prop extends Allowed state r phase f.offset f.data where
  fin : f.fin = true → phase = .closed ∧ f.offset + f.data.length = r.accepted.length

lemma lengthAndFill_le (dataLen space : ℕ) : (lengthAndFill dataLen space).1 ≤ dataLen := by
  unfold lengthAndFill
  split_ifs with h
  · exact h
  · exact le_rfl

lemma nextStreamFrame_sound (h : s.state.Tracks r phase) {p : TransmissionPriority}
    {split remaining : ℕ} {f : StreamFrame}
    (hf : (s.nextStreamFrame p split remaining).2 = some f) : f.Sound s.state r phase := by
  unfold nextStreamFrame at hf
  split_ifs at hf with hpriority
  dsimp only at hf
  have hallowed := nextBytes_allowed h (decide (p ≠ s.priority)) split
  generalize s.nextBytes (decide (p ≠ s.priority)) split = res at hallowed hf
  obtain ⟨s', _ | ⟨offset, data⟩⟩ := res
  · cases hf
  dsimp only at hf
  split_ifs at hf with hspace hlength
  obtain rfl := some.inj hf
  have hle := lengthAndFill_le data.length (remaining - streamOverhead s'.streamId offset)
  refine ⟨(hallowed offset data rfl).1.take _, fun hfin => ?_⟩
  rw [length_take_of_le hle]
  have hfin' := of_decide_eq_true hfin
  -- Only a stream that is closed has an offset for FIN.
  generalize s.state = state at h hfin'
  cases h with
  | dataSent finSent finAcked buf =>
    have hend := some.inj hfin'
    rw [buf.used] at hend
    exact ⟨rfl, hend.symm⟩
  | _ => cases hfin'

lemma nextStreamFrame_tracks (h : s.state.Tracks r phase) (p : TransmissionPriority)
    (split remaining : ℕ) : (s.nextStreamFrame p split remaining).1.state.Tracks r phase := by
  refine (nextStreamFrame_touched s p split remaining).tracks h ?_ (fun _ _ => id) id
  rintro b _ - (rfl | rfl) hb
  · exact hb
  · exact hb.nextBytes split

lemma markAsSent_tracks (h : s.state.Tracks r phase) (connFc : ConnFc)
    (hle : offset + len ≤ r.accepted.length)
    (hfirst : ∀ b, s.state.txBuf = some b → ∀ x < offset, b.ranges.stateAt x ≠ .unsent) (fin : Bool)
    :
    (s.markAsSent connFc offset len fin).1.state.Tracks
      { r with fresh := fun x => r.fresh x ∧ offset + len ≤ x } phase := by
  refine (markAsSent_touched s connFc offset len fin).tracks h ?_ (fun hempty x hx => ⟨hx, ?_⟩) id
  · rintro b _ hb rfl htracks
    exact htracks.markAsSent hle (hfirst b hb)
  · rw [hempty] at hle
    exact hle.trans (Nat.zero_le x)

/-- What a token of a stream stands for. -/
def Record.Issued (r : Record) (phase : Phase) : StreamRecoveryToken → Prop
  | .stream token => token.offset + token.length ≤ r.accepted.length
  | .resetStream _ => phase = .reset
  | _ => True

/-- A frame that the stream may emit. -/
def Emitted.Sound (state : State) (r : Record) (phase : Phase) : Emitted → Prop
  | .stream f => f.Sound state r phase
  | .reset f => phase = .reset ∧ f.finalSize = r.accepted.length

lemma StreamFrame.Sound.congr {f : StreamFrame} (h : f.Sound state r phase)
    (hsize : state.reliableSize? = state'.reliableSize?) (hbuf : state.txBuf = state'.txBuf) :
    f.Sound state' r phase :=
  ⟨⟨h.piece, fun hphase hphase' => hsize ▸ h.reliable hphase hphase', hbuf ▸ h.first⟩, h.fin⟩

/-- Frames are sent: the bytes up to their ends are not unsent any more. -/
def Record.noteSent (r : Record) (frames : List Emitted) : Record :=
  { r with
    fresh := fun x => r.fresh x ∧ ∀ f, .stream f ∈ frames → f.offset + f.data.length ≤ x }

lemma writeStreamFrame_tracks (h : s.state.Tracks r phase) (connFc : ConnFc)
    (p : TransmissionPriority) (split : ℕ) (b : Builder) {tokens : Tokens}
    (hissued : ∀ token ∈ tokens, r.Issued phase token) :
    (s.writeStreamFrame connFc p split b tokens).1.state.Tracks
        (r.noteSent ((s.nextStreamFrame p split b.remaining).2.toList.map .stream)) phase ∧
      ∀ token ∈ (s.writeStreamFrame connFc p split b tokens).2.2.2, r.Issued phase token := by
  have htracks := nextStreamFrame_tracks h p split b.remaining
  have hsound := fun f => @nextStreamFrame_sound _ _ _ h p split b.remaining f
  have htouched := nextStreamFrame_touched s p split b.remaining
  unfold writeStreamFrame
  generalize s.nextStreamFrame p split b.remaining = res at htracks hsound htouched
  obtain ⟨s', _ | f⟩ := res
  · exact ⟨htracks.mono (fun x hx => ⟨hx, nofun⟩) id, hissued⟩
  · have hend := (hsound f rfl).piece.end_le
    have hfirst : ∀ b', s'.state.txBuf = some b' → ∀ x < f.offset,
        b'.ranges.stateAt x ≠ .unsent := by
      intro b' hb' x hx
      obtain ⟨b, hb, rfl | rfl⟩ := htouched.txBuf hb'
      · exact (hsound f rfl).first _ hb x hx
      · rw [TxBuffer.stateAt_nextBytes (h.txBuf hb).wf]
        exact (hsound f rfl).first b hb x hx
    refine ⟨(markAsSent_tracks htracks connFc hend hfirst f.fin).mono (fun x hx => ⟨hx.1, ?_⟩) id,
      fun token htoken => ?_⟩
    · intro f' hf'
      cases mem_singleton.mp hf'
      exact hx.2
    rcases mem_append.mp htoken with htoken | htoken
    · exact hissued token htoken
    · rw [mem_singleton.mp htoken]
      exact hend

/-- **Writing frames** keeps the record. What is emitted fits it, and so do the tokens. After a
`STREAM` frame all bytes up to its end are sent. -/
theorem writeFrames_tracks (h : s.state.Tracks r phase) (connFc : ConnFc)
    (p : TransmissionPriority) (split : ℕ) (b : Builder) :
    (s.writeFrames connFc p split b []).1.state.Tracks (r.noteSent (s.emits p split b)) phase ∧
      (∀ e ∈ s.emits p split b, e.Sound s.state r phase) ∧
      ∀ token ∈ (s.writeFrames connFc p split b []).2.2.2, r.Issued phase token := by
  obtain ⟨s', b', tokens', resets, hprepared, hemits⟩ := s.writeFrames_cases connFc p split b
  have htracks := hprepared.touched.tracks_eq h
  have hissued : ∀ token ∈ tokens', r.Issued phase token := by
    intro token htoken
    have hdue := hprepared.tokens token htoken
    cases token with
    | stream => exact hdue.elim
    | resetStream =>
      obtain ⟨f, hf⟩ := isSome_iff_exists.mp hdue
      exact (dueReset_tracks h hf).1
    | _ => trivial
  have hresets : ∀ f ∈ resets, Emitted.Sound s.state r phase (.reset f) :=
    fun f hf => dueReset_tracks h (hprepared.resets f hf)
  rcases hemits with ⟨heq, hemits⟩ | ⟨heq, hemits⟩ <;> rw [heq, hemits]
  · exact ⟨htracks.mono (fun x hx => ⟨hx, by simp⟩) id, forall_mem_map.mpr hresets, hissued⟩
  · obtain ⟨hstream, hissued'⟩ := writeStreamFrame_tracks htracks connFc p split b' hissued
    refine ⟨hstream.mono (fun x hx => ⟨hx.1, fun f hf => hx.2 f (by simpa using hf)⟩) id, ?_,
      hissued'⟩
    refine forall_mem_append.mpr ⟨forall_mem_map.mpr hresets, forall_mem_map.mpr ?_⟩
    intro f hf
    exact (nextStreamFrame_sound htracks (mem_toList.mp hf)).congr
      hprepared.touched.reliableSize? hprepared.touched.txBuf_eq

end SendStream

end Neqo
