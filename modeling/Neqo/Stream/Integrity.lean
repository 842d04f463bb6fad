import Neqo.RecvStream.Equiv.Basic
import Neqo.SendStream.Equiv.Tracks

/-!
# Stream integrity across loss and reordering

A `Transfer` is a sending and a receiving stream with a network between them that may lose, reorder
and duplicate the `STREAM` frames that the sender emits. Whatever happens, the bytes that the
receiver has returned are a beginning of the bytes that the sender has accepted, and the receiver
reports the end of the stream only when it has returned all of them and the sender is closed
(`Transfer.integrity`).
-/

namespace Neqo

open List RecvStream RecvStreamState RxStreamOrderer

/-- The bytes that a call of `read` has returned. -/
def RecvStream.returnedBytes : Except Error (Bytes × Bool) → Bytes
  | .ok r => r.1
  | .error _ => []

/-- Whether a call of `read` has reported the end of the stream. -/
def RecvStream.reportedFin : Except Error (Bytes × Bool) → Bool
  | .ok r => r.2
  | .error _ => false

/-- The frame belongs to a stream with these bytes; the flag says whether the stream is closed. -/
structure SendStream.StreamFrame.Of (f : SendStream.StreamFrame) (accepted : Bytes)
    (closed : Bool) : Prop where
  piece : Piece accepted f.offset f.data
  fin : f.fin = true → closed = true ∧ f.offset + f.data.length = accepted.length

/-- A sending and a receiving stream, what has passed between them and what the applications at
either end have seen. -/
structure Transfer where
  sender : SendStream
  connFc : ConnFc
  /-- The bytes that `send` has accepted. -/
  accepted : Bytes := []
  /-- Whether `close` was called. -/
  closed : Bool := false
  /-- The frames that were ever emitted. -/
  emitted : List SendStream.StreamFrame := []
  receiver : RecvStream
  sessionFc : SessionFc
  /-- The bytes that `read` has returned. -/
  returned : Bytes := []
  /-- Whether `read` has reported the end of the stream. -/
  finReported : Bool := false

namespace Transfer

/-- What can happen to a transfer. The flow control of the connections at either end is shared with
other streams, so it can change to anything at any time. -/
inductive Event where
  | send (buf : Bytes) (atomic : Bool)
  | close
  | setMaxStreamData (limit : ℕ)
  | setPriority (transmission : TransmissionPriority) (retransmission : RetransmissionPriority)
  /-- Write a frame into a packet; `split` is where the send buffer wraps around. -/
  | write (priority : TransmissionPriority) (split : ℕ) (builder : Builder)
  /-- The `i`-th frame is declared lost, is acknowledged, or arrives. -/
  | lost (i : ℕ)
  | acked (i : ℕ)
  | deliver (i : ℕ)
  | read (bufLen : ℕ)
  | setConnFc (fc : ConnFc)
  | setSessionFc (fc : SessionFc)

/-- The transfer before anything has happened. -/
def new (streamId : StreamId) (connFc : ConnFc) (sendLimit : ℕ)
    (sessionFc : SessionFc) (recvLimit : ℕ) : Transfer :=
  { sender := SendStream.new streamId sendLimit, connFc := connFc,
    receiver := RecvStream.new streamId recvLimit, sessionFc := sessionFc }

def step (t : Transfer) : Event → Transfer
  | .send buf atomic =>
    let (sender, connFc, r) := t.sender.sendInternal t.connFc buf atomic
    { t with sender := sender, connFc := connFc,
             accepted := t.accepted ++ SendStream.acceptedBytes buf r }
  | .close => { t with sender := t.sender.close, closed := true }
  | .setMaxStreamData limit => { t with sender := t.sender.setMaxStreamData limit }
  | .setPriority transmission retransmission =>
    { t with sender := t.sender.setPriority transmission retransmission }
  | .write priority split builder =>
    let frame := (t.sender.nextStreamFrame priority split builder.remaining).2
    let (sender, connFc, _, _) := t.sender.writeStreamFrame t.connFc priority split builder []
    { t with sender := sender, connFc := connFc, emitted := t.emitted ++ frame.toList }
  | .lost i =>
    match t.emitted[i]? with
    | some f =>
      { t with sender := t.sender.markAsLost f.token.offset f.token.length f.token.fin }
    | none => t
  | .acked i =>
    match t.emitted[i]? with
    | some f =>
      { t with sender := t.sender.markAsAcked f.token.offset f.token.length f.token.fin }
    | none => t
  | .deliver i =>
    match t.emitted[i]? with
    | some f =>
      let (receiver, sessionFc, _) :=
        t.receiver.inboundStreamFrame t.sessionFc f.fin f.offset f.data
      { t with receiver := receiver, sessionFc := sessionFc }
    | none => t
  | .read bufLen =>
    let (receiver, sessionFc, r) := t.receiver.read t.sessionFc bufLen
    { t with receiver := receiver, sessionFc := sessionFc,
             returned := t.returned ++ returnedBytes r,
             finReported := t.finReported || reportedFin r }
  | .setConnFc fc => { t with connFc := fc }
  | .setSessionFc fc => { t with sessionFc := fc }

/-- The transfer after a sequence of events. -/
def run (t : Transfer) (events : List Event) : Transfer := events.foldl step t

end Transfer

/-! ### The receiver -/

open OrdMap

/-- What an orderer stores, and what has been read from it, are bytes of the sender. -/
structure Holding (o : RxStreamOrderer) (accepted returned : Bytes) : Prop where
  wf : o.WF
  retired_le : o.retired ≤ accepted.length
  returned : returned = accepted.take o.retired
  holds : ∀ x b, o.dataRanges.Holds x b → accepted[x]? = some b

namespace Holding

variable {o : RxStreamOrderer} {accepted returned : Bytes}

lemma new (accepted : Bytes) : Holding {} accepted [] where
  wf := wf_new
  retired_le := Nat.zero_le _
  returned := rfl
  holds x _ hb := absurd hb.covers (OrdMap.not_covers_empty x)

lemma append (h : Holding o accepted returned) (more : Bytes) :
    Holding o (accepted ++ more) returned := by
  refine ⟨h.wf, ?_, ?_, fun x b hb => ?_⟩
  · rw [length_append]
    exact h.retired_le.trans (Nat.le_add_right _ _)
  · rw [take_append_of_le_length h.retired_le]
    exact h.returned
  · have hx := h.holds x b hb
    rw [List.getElem?_append_left (List.getElem?_eq_some_iff.mp hx).1]
    exact hx

lemma inboundFrame (h : Holding o accepted returned) {offset : ℕ} {data : Bytes}
    (hpiece : Piece accepted offset data) : Holding (o.inboundFrame offset data).1 accepted
    returned := by
  have hspec := inboundFrame_spec h.wf offset data
  refine ⟨hspec.wf, ?_, ?_, fun x b hb => ?_⟩
  · rw [hspec.retired]
    exact h.retired_le
  · rw [hspec.retired]
    exact h.returned
  · rcases hspec.holds x b hb with h1 | ⟨h1, h2⟩
    · exact h.holds x b h1
    · have hx := hpiece.getElem? h2
      rw [Nat.add_sub_cancel' h1] at hx
      exact hx

lemma read (h : Holding o accepted returned) (bufLen : ℕ) :
    Holding (o.read bufLen).1 accepted (returned ++ (o.read bufLen).2) := by
  have hspec := read_spec h.wf bufLen
  have hpiece : Piece accepted o.retired (o.read bufLen).2 :=
    Piece.of_getElem? h.retired_le fun i b hb => h.holds _ b (hspec.bytes i b hb)
  refine ⟨hspec.wf, ?_, ?_, fun x b hb => ?_⟩
  · rw [hspec.retired]
    exact hpiece.end_le
  · rw [hspec.retired, take_add, ← h.returned, ← prefix_iff_eq_take.mp hpiece.2]
  · obtain ⟨k, v, hm, h1, h2⟩ := hb
    exact h.holds x b ⟨k, v, hspec.subset k v hm, h1, h2⟩

end Holding

/-- The state of the receiver in a transfer: the bytes that the sender has accepted, whether the
sender is closed, the bytes that have been returned and whether the end was reported. -/
inductive RecvStreamState.Receives :
    RecvStreamState → Bytes → Bool → Bytes → Bool → Prop
  | recv {fc : StreamFc} {o : RxStreamOrderer} {accepted returned : Bytes}
      (closed : Bool) (h : Holding o accepted returned) (hle : fc.consumed ≤ accepted.length) :
      Receives (.recv fc o) accepted closed returned false
  | sizeKnown {fc : StreamFc} {o : RxStreamOrderer}
      {accepted returned : Bytes} (h : Holding o accepted returned)
      (heq : fc.consumed = accepted.length) :
      Receives (.sizeKnown fc o) accepted true returned false
  | dataRecvd {fc : StreamFc} {o : RxStreamOrderer}
      {accepted returned : Bytes} (h : Holding o accepted returned)
      (all : ∀ x, o.retired ≤ x → x < accepted.length → o.dataRanges.Covers x) :
      Receives (.dataRecvd fc o) accepted true returned false
  | dataRead (accepted : Bytes) (finalReceived finalRead : ℕ) :
      Receives (.dataRead finalReceived finalRead) accepted true accepted true

namespace RecvStreamState.Receives

variable {s : RecvStreamState} {accepted returned : Bytes} {closed fin : Bool}

lemma returned_prefix (h : s.Receives accepted closed returned fin) : returned <+: accepted := by
  cases h with
  | recv _ h | sizeKnown h | dataRecvd h =>
    rw [h.returned]
    exact take_prefix _ _
  | dataRead => exact prefix_rfl

lemma of_fin (h : s.Receives accepted closed returned true) :
    returned = accepted ∧ closed = true := by
  cases h
  exact ⟨rfl, rfl⟩

/-- The sender accepts more bytes, which it only does before it is closed. -/
lemma append (h : s.Receives accepted closed returned fin) {more : Bytes}
    (hmore : closed = true → more = []) : s.Receives (accepted ++ more) closed returned fin := by
  have hsame := h
  cases h with
  | recv _ h =>
    refine .recv _ (h.append more) ?_
    rw [length_append]
    omega
  | _ =>
    rw [hmore rfl, append_nil]
    exact hsame

lemma close (h : s.Receives accepted closed returned fin) :
    s.Receives accepted true returned fin := by
  cases h with
  | recv _ h hle => exact .recv _ h hle
  | sizeKnown h heq => exact .sizeKnown h heq
  | dataRecvd h all => exact .dataRecvd h all
  | dataRead => exact .dataRead _ _ _

/-- All bytes up to the end are there once as many are ready. -/
lemma withFinalSize {fc : StreamFc} {o : RxStreamOrderer}
    (h : Holding o accepted returned) (heq : fc.consumed = accepted.length) :
    (withFinalSize fc o).Receives accepted true returned false := by
  unfold RecvStreamState.withFinalSize
  split_ifs with hall
  · refine .dataRecvd h fun x h1 h2 => (bytesReady_spec h.wf).1 x h1 ?_
    omega
  · exact .sizeKnown h heq

/-- Storing the data of a frame, once the stream has been charged for it. -/
lemma receiveData (h : s.Receives accepted closed returned fin) {f : SendStream.StreamFrame}
    (hf : f.Of accepted closed)
    (hsize : f.fin = true → ∀ fc, s.fc = some fc → fc.consumed = accepted.length) :
    (s.receiveData f.fin f.offset f.data).1.Receives accepted closed returned fin := by
  cases h with
  | @recv fc o _ _ _ h hle =>
    have hnew := h.inboundFrame hf.piece
    dsimp only [receiveData]
    generalize o.inboundFrame f.offset f.data = r at hnew
    obtain ⟨o', _ | _⟩ := r
    · exact .recv _ hnew hle
    · split_ifs with hfin
      · rw [(hf.fin hfin).1]
        exact Receives.withFinalSize hnew (hsize hfin fc rfl)
      · exact .recv _ hnew hle
  | @sizeKnown fc o _ _ h heq =>
    have hnew := h.inboundFrame hf.piece
    dsimp only [receiveData]
    generalize o.inboundFrame f.offset f.data = r at hnew
    obtain ⟨o', _ | _⟩ := r
    · exact .sizeKnown hnew heq
    · exact Receives.withFinalSize hnew heq
  | dataRecvd h all => exact .dataRecvd h all
  | dataRead => exact .dataRead _ _ _

lemma setFc (h : s.Receives accepted closed returned fin)
    {fc fc' : StreamFc} (hfc : s.fc = some fc) {newEnd : ℕ}
    (hend : newEnd ≤ accepted.length) (hconsumed : fc'.consumed = fc.consumed ∨
      fc'.consumed = max fc.consumed newEnd) :
    (s.setFc fc').Receives accepted closed returned fin := by
  cases h with
  | recv _ h =>
    obtain rfl := Option.some.inj hfc
    exact .recv _ h (by omega)
  | sizeKnown h =>
    obtain rfl := Option.some.inj hfc
    exact .sizeKnown h (by omega)
  | dataRecvd h all => exact .dataRecvd h all
  | dataRead => exact .dataRead _ _ _

lemma noteFin_eq (h : s.Receives accepted closed returned fin) (f : Bool) : s.noteFin f = s := by
  cases h <;> rfl

/-- A frame arrives. It may be refused, but it cannot do harm. -/
lemma inboundStreamFrame {r : RecvStream} (h : r.state.Receives accepted closed returned fin)
    {f : SendStream.StreamFrame} (hf : f.Of accepted closed) (sessionFc : SessionFc) :
    (r.inboundStreamFrame sessionFc f.fin f.offset f.data).1.state.Receives accepted closed returned
      fin := by
  unfold RecvStream.inboundStreamFrame
  dsimp only
  cases hfc : r.state.fc with
  | none =>
    rw [flowControlConsumeData_of_none hfc]
    exact h.receiveData hf fun _ fc hsome => by rw [hfc] at hsome; cases hsome
  | some =>
    obtain ⟨fc', sessionFc', result, heq, hconsumed, -, -, -, hcharged⟩ :=
      flowControlConsumeData_spec hfc sessionFc (f.offset + f.data.length) f.fin
    rw [heq, h.noteFin_eq]
    have hset := h.setFc hfc hf.piece.end_le hconsumed
    cases result with
    | error => exact hset
    | ok =>
      apply hset.receiveData hf
      -- A frame with FIN ends where the bytes end, and the stream is charged up to there.
      intro hfin fc'' hfc''
      rw [setFc_fc hfc] at hfc''
      obtain rfl := Option.some.inj hfc''
      rw [hfin] at hcharged
      exact (hcharged rfl).consumed_of_fin.trans (hf.fin hfin).2

lemma read {r : RecvStream} (h : r.state.Receives accepted closed returned fin)
    (sessionFc : SessionFc) (bufLen : ℕ) :
    (r.read sessionFc bufLen).1.state.Receives accepted closed
      (returned ++ returnedBytes (r.read sessionFc bufLen).2.2)
      (fin || RecvStream.reportedFin (r.read sessionFc bufLen).2.2) := by
  unfold RecvStream.read
  cases hs : r.state <;> rw [hs] at h <;> cases h <;> dsimp only
  case recv.recv fc o hle h =>
    refine .recv _ (h.read bufLen) ?_
    rw [(flowControlRetireData_spec _ _ _).2.2]
    exact hle
  case sizeKnown.sizeKnown fc o heq h =>
    refine .sizeKnown (h.read bufLen) ?_
    rw [(flowControlRetireData_spec _ _ _).2.2]
    exact heq
  case dataRecvd.dataRecvd fc o all h =>
    have hread := h.read bufLen
    have hspec := read_spec h.wf bufLen
    have hall : ∀ x, (o.read bufLen).1.retired ≤ x → x < accepted.length →
        (o.read bufLen).1.dataRanges.Covers x := by
      intro x h1 h2
      rw [hspec.covers x h1]
      have := hspec.retired
      exact all x (by omega) h2
    split_ifs with hzero
    · -- Nothing is left, so everything has been returned.
      have hend : accepted.length ≤ (o.read bufLen).1.retired := by
        by_contra hlt
        exact not_covers_of_buffered_eq_zero hspec.wf hzero _
          (hall _ le_rfl (by omega))
      have hreturned := hread.returned
      rw [take_of_length_le hend] at hreturned
      show Receives _ accepted true (returned ++ (o.read bufLen).2) true
      rw [hreturned]
      exact .dataRead _ _ _
    · exact .dataRecvd hread hall
  · rw [hs]
    simp only [returnedBytes, reportedFin, append_nil, Bool.or_false]
    exact .dataRead _ _ _

end RecvStreamState.Receives

/-! ### The transfer -/

namespace Transfer

open SendStream in
/-- The sender tracks what it has accepted, and is closed if it does not accept more. -/
def Carries (s : SendStream) (accepted : Bytes) (closed : Bool) : Prop :=
  ∃ r phase, s.state.Tracks r phase ∧ r.accepted = accepted ∧ (closed = true ↔ phase ≠ .accepting)

/-- **The invariant** of a transfer. -/
structure Sound (t : Transfer) : Prop where
  sender : Carries t.sender t.accepted t.closed
  emitted : ∀ f ∈ t.emitted, f.Of t.accepted t.closed
  receiver : t.receiver.state.Receives t.accepted t.closed t.returned t.finReported

lemma sound_new (streamId : StreamId) (connFc : ConnFc) (sendLimit : ℕ)
    (sessionFc : SessionFc) (recvLimit : ℕ) :
    (new streamId connFc sendLimit sessionFc recvLimit).Sound where
  sender := ⟨⟨[], 0, fun _ => False, fun _ => True, False⟩, _,
    .ready _ rfl rfl rfl (fun _ => id) fun _ => trivial, rfl, nofun, absurd rfl⟩
  emitted f hf := by cases hf
  receiver := .recv _ (Holding.new _) (Nat.zero_le _)

variable {t : Transfer}

section

variable (h : t.Sound)

include h

lemma Sound.send (buf : Bytes) (atomic : Bool) : (t.step (.send buf atomic)).Sound := by
  obtain ⟨r, phase, htracks, haccepted, hclosed⟩ := h.sender
  obtain ⟨htracks', hmore⟩ := SendStream.sendInternal_tracks htracks t.connFc buf atomic
  refine ⟨⟨_, phase, htracks', congrArg (· ++ _) haccepted, hclosed⟩, fun f hf => ?_,
    h.receiver.append fun hc => hmore (hclosed.mp hc)⟩
  have hof := h.emitted f hf
  refine ⟨hof.piece.append _, fun hfin => ?_⟩
  obtain ⟨hc, hend⟩ := hof.fin hfin
  refine ⟨hc, hend.trans ?_⟩
  dsimp only [Transfer.step]
  rw [hmore (hclosed.mp hc), append_nil]

lemma Sound.close : (t.step .close).Sound := by
  obtain ⟨r, phase, htracks, haccepted, -⟩ := h.sender
  refine ⟨⟨r, _, SendStream.close_tracks htracks, haccepted, iff_of_true rfl ?_⟩, fun f hf =>
    ⟨(h.emitted f hf).piece, fun hfin => ⟨rfl, ((h.emitted f hf).fin hfin).2⟩⟩, h.receiver.close⟩
  split_ifs with hphase
  · exact nofun
  · exact hphase

lemma Sound.write (priority : TransmissionPriority) (split : ℕ)
    (builder : Builder) : (t.step (.write priority split builder)).Sound := by
  obtain ⟨r, phase, htracks, haccepted, hclosed⟩ := h.sender
  have hsender := (@SendStream.writeStreamFrame_tracks _ _ _ htracks t.connFc priority split builder
    [] nofun).1
  refine ⟨⟨_, phase, hsender, haccepted, hclosed⟩, fun f hf => ?_, h.receiver⟩
  rcases mem_append.mp hf with h1 | h1
  · exact h.emitted f h1
  · have hsound := SendStream.nextStreamFrame_sound htracks (Option.mem_toList.mp h1)
    refine ⟨haccepted ▸ hsound.piece, fun hfin => ?_⟩
    obtain ⟨rfl, hend⟩ := hsound.fin hfin
    exact ⟨hclosed.mpr nofun, hend.trans (congrArg List.length haccepted)⟩

lemma Sound.lost (i : ℕ) : (t.step (.lost i)).Sound := by
  dsimp only [Transfer.step]
  cases hf : t.emitted[i]? with
  | none => exact h
  | some f =>
    obtain ⟨r, phase, htracks, hsender⟩ := h.sender
    have htracks' := (SendStream.markAsLost_touched t.sender f.token.offset f.token.length
      f.token.fin).tracks htracks (fun _ _ _ hb hbuf => hb ▸ hbuf.markAsLost _ _) (fun _ _ => .inr)
      id
    exact ⟨⟨_, phase, htracks', hsender⟩, h.emitted, h.receiver⟩

lemma Sound.acked (i : ℕ) : (t.step (.acked i)).Sound := by
  dsimp only [Transfer.step]
  cases hf : t.emitted[i]? with
  | none => exact h
  | some f =>
    obtain ⟨r, phase, htracks, haccepted, hclosed⟩ := h.sender
    have hof := h.emitted f (mem_of_getElem? hf)
    obtain ⟨phase', htracks', hphase⟩ := SendStream.markAsAcked_tracks htracks
      (haccepted ▸ hof.piece.end_le) f.token.fin
    refine ⟨⟨_, phase', htracks', haccepted, hclosed.trans ?_⟩, h.emitted, h.receiver⟩
    rcases hphase with rfl | ⟨rfl, rfl⟩
    · rfl
    · exact iff_of_true nofun nofun

lemma Sound.deliver (i : ℕ) : (t.step (.deliver i)).Sound := by
  dsimp only [Transfer.step]
  cases hf : t.emitted[i]? with
  | none => exact h
  | some f =>
    have hof := h.emitted f (mem_of_getElem? hf)
    exact ⟨h.sender, h.emitted, h.receiver.inboundStreamFrame hof t.sessionFc⟩

lemma Sound.step (e : Event) : (t.step e).Sound := by
  cases e with
  | send buf atomic => exact h.send buf atomic
  | close => exact h.close
  | setMaxStreamData limit =>
    obtain ⟨r, phase, htracks, hsender⟩ := h.sender
    have htracks' := (SendStream.setMaxStreamData_touched t.sender limit).tracks_eq htracks
    exact ⟨⟨r, phase, htracks', hsender⟩, h.emitted, h.receiver⟩
  | setPriority | setConnFc | setSessionFc => exact { h with }
  | write priority split builder => exact h.write priority split builder
  | lost i => exact h.lost i
  | acked i => exact h.acked i
  | deliver i => exact h.deliver i
  | read bufLen => exact ⟨h.sender, h.emitted, h.receiver.read t.sessionFc bufLen⟩

lemma Sound.run (events : List Event) : (t.run events).Sound :=
  List.foldlRecOn events _ h fun _ h e _ => h.step e

end

/-- **Stream integrity**: after any sequence of events, the bytes returned by `read` are a beginning
of the bytes accepted by `send`, and `read` has reported the end of the stream only if it has
returned all of them and the stream was closed. -/
theorem integrity (streamId : StreamId) (connFc : ConnFc) (sendLimit : ℕ)
    (sessionFc : SessionFc) (recvLimit : ℕ) (events : List Event) :
    let t := (new streamId connFc sendLimit sessionFc recvLimit).run events
    t.returned <+: t.accepted ∧ (t.finReported = true → t.returned = t.accepted ∧
      t.closed = true) := by
  have h := (sound_new streamId connFc sendLimit sessionFc recvLimit).run events
  refine ⟨h.receiver.returned_prefix, fun hfin => ?_⟩
  have hreceiver := h.receiver
  rw [hfin] at hreceiver
  exact hreceiver.of_fin

end Transfer

end Neqo
