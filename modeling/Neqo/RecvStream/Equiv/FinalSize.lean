import Neqo.RecvStream.Equiv.Basic

/-!
# The final size of a receiving stream

Once a stream has accepted its final size, it is what the stream has consumed, and stays so until
the stream ends (`Fixed`). The exception is a `FIN` that arrives in `waitForReset`: that state has
no place for the final size.
-/

namespace Neqo

open RecvStreamState

namespace RecvStreamState

/-! ### States that know the final size -/

/-- The final size is known, and is what was consumed as long as the stream has not ended. -/
def Fixed (s : RecvStreamState) (finalSize : ℕ) : Prop :=
  s.finalSizeReached = true ∧ ∀ fc, s.fc = some fc → fc.consumed = finalSize

variable {s : RecvStreamState} {fc : StreamFc} {finalSize : ℕ}

lemma fixed_of_fc (hreached : s.finalSizeReached = true) (hfc : s.fc = some fc)
    (hconsumed : fc.consumed = finalSize) : s.Fixed finalSize :=
  ⟨hreached, fun _ hfc' => Option.some.inj (hfc.symm.trans hfc') ▸ hconsumed⟩

lemma Fixed.noteFin (h : s.Fixed finalSize) (fin : Bool) : (s.noteFin fin).Fixed finalSize := by
  cases s with
  | abortReading => exact ⟨Bool.or_eq_true_iff.mpr (.inl h.1), h.2⟩
  | _ => exact h

lemma Fixed.setFc (h : s.Fixed finalSize) (hfc : fc.consumed = finalSize) :
    (s.setFc fc).Fixed finalSize := by
  cases s with
  | dataRead | resetRecvd => exact h
  | _ => exact fixed_of_fc h.1 rfl hfc

/-- Data that ends beyond the final size is refused, and so is another final size. -/
lemma Fixed.refuses (h : s.Fixed finalSize) (hfc : s.fc = some fc) (sessionFc : SessionFc)
    {consumed : ℕ}
    {fin : Bool} (hbad : finalSize < consumed ∨ (fin = true ∧ consumed ≠ finalSize)) :
    s.flowControlConsumeData sessionFc consumed fin =
      (s.noteFin fin, sessionFc, .error .finalSize) := by
  have hno : finalSizeOk fin s.finalSizeReached consumed fc.consumed = false := by
    rw [h.1, h.2 fc hfc]
    cases fin <;> simp only [finalSizeOk, decide_eq_false_iff_not] <;> simp at hbad <;> omega
  simp [flowControlConsumeData, hfc, hno]

/-- **Charging keeps the final size**, also when it fails. -/
theorem Fixed.charge (h : s.Fixed finalSize) (sessionFc : SessionFc) (consumed : ℕ)
    (fin : Bool) : (s.flowControlConsumeData sessionFc consumed fin).1.Fixed finalSize := by
  cases hfc : s.fc with
  | none =>
    rw [flowControlConsumeData_of_none hfc]
    exact h
  | some fc =>
    by_cases hle : consumed ≤ finalSize
    · obtain ⟨fc', _, _, heq, hconsumed, -⟩ :=
        flowControlConsumeData_spec hfc sessionFc consumed fin
      have hfixed := h.2 fc hfc
      rw [heq]
      exact (h.noteFin fin).setFc (by omega)
    · rw [h.refuses hfc sessionFc (.inl (not_le.mp hle))]
      exact h.noteFin fin

lemma fixed_withFinalSize (fc : StreamFc) (recvBuf : RxStreamOrderer) :
    (withFinalSize fc recvBuf).Fixed fc.consumed := by
  unfold withFinalSize
  split_ifs <;> exact fixed_of_fc rfl rfl rfl

lemma Fixed.receiveData (h : s.Fixed finalSize) (fin : Bool) (offset : ℕ) (data : Bytes) :
    (s.receiveData fin offset data).1.Fixed finalSize := by
  refine ⟨?_, fun fc hfc => h.2 fc (receiveData_fc s fin offset data ▸ hfc)⟩
  cases s with
  | recv => cases h.1
  | sizeKnown _ o =>
    dsimp only [RecvStreamState.receiveData]
    obtain ⟨o', _ | _⟩ := o.inboundFrame offset data
    · rfl
    · exact (fixed_withFinalSize _ o').1
  | sizeKnownAt =>
    dsimp only [RecvStreamState.receiveData]
    split_ifs <;> rfl
  | _ => exact h.1

end RecvStreamState

namespace RecvStream

open RecvStreamState

variable {s : RecvStream} {finalSize : ℕ}

/-! ### Operations -/

lemma consumed_retireData (n : ℕ) (fc : StreamFc) (sessionFc : SessionFc) :
    (flowControlRetireData n fc sessionFc).1.consumed = fc.consumed :=
  (flowControlRetireData_spec n fc sessionFc).2.2

variable {fc : StreamFc}

lemma fixed_settleReset (s : RecvStream) (sessionFc : SessionFc)
    (hfc : fc.consumed = finalSize) (recvBuf : RxStreamOrderer) (err finalSize' reliableSize : ℕ) :
    (s.settleReset sessionFc fc recvBuf err finalSize' reliableSize).1.state.Fixed finalSize := by
  unfold settleReset completeReliableResetIfDrained
  dsimp only
  split_ifs
  · exact fixed_of_fc rfl rfl ((consumed_retireData ..).trans hfc)
  · exact ⟨rfl, nofun⟩

section

variable (h : s.state.Fixed finalSize) (sessionFc : SessionFc)

include h

lemma fixed_applyReset (err finalSize' reliableSize : ℕ) :
    (s.applyReset sessionFc err finalSize' reliableSize).1.state.Fixed finalSize := by
  obtain ⟨_, state⟩ := s
  cases state with
  | recv => cases h.1
  | sizeKnown => exact fixed_settleReset _ _ (h.2 _ rfl) ..
  | sizeKnownAt =>
    unfold applyReset
    dsimp only
    split_ifs
    · exact h
    · exact fixed_settleReset _ _ (h.2 _ rfl) ..
    · exact h
  | dataRecvd | dataRead | resetRecvd => exact h
  | abortReading | waitForReset => exact ⟨rfl, nofun⟩

lemma fixed_reset (err finalSize' reliableSize : ℕ) :
    (s.reset sessionFc err finalSize' reliableSize).1.state.Fixed finalSize := by
  have hcharge := h.charge sessionFc finalSize' true
  unfold reset
  split_ifs with hgt
  · exact h
  · generalize s.state.flowControlConsumeData sessionFc finalSize' true = r at hcharge
    obtain ⟨state, sessionFc', _ | _⟩ := r
    · exact hcharge
    · exact fixed_applyReset hcharge ..

lemma fixed_inboundStreamFrame (fin : Bool) (offset : ℕ) (data : Bytes) :
    (s.inboundStreamFrame sessionFc fin offset data).1.state.Fixed finalSize := by
  have hcharge := h.charge sessionFc (offset + data.length) fin
  unfold inboundStreamFrame
  dsimp only
  generalize s.state.flowControlConsumeData sessionFc (offset + data.length) fin = r at hcharge
  obtain ⟨state, sessionFc', _ | _⟩ := r
  · exact hcharge
  · exact hcharge.receiveData fin offset data

lemma fixed_read (bufLen : ℕ) : (s.read sessionFc bufLen).1.state.Fixed finalSize := by
  obtain ⟨_, state⟩ := s
  unfold read completeReliableResetIfDrained
  cases state with
  | recv => cases h.1
  | sizeKnown => exact fixed_of_fc rfl rfl ((consumed_retireData ..).trans (h.2 _ rfl))
  | sizeKnownAt =>
    dsimp only
    split_ifs
    · exact fixed_of_fc rfl rfl ((consumed_retireData ..).trans (h.2 _ rfl))
    · exact ⟨rfl, nofun⟩
  | dataRecvd =>
    dsimp only
    split_ifs
    · exact ⟨rfl, nofun⟩
    · exact fixed_of_fc rfl rfl ((consumed_retireData ..).trans (h.2 _ rfl))
  | _ => exact h

lemma fixed_stopSending (err : ℕ) : (s.stopSending sessionFc err).1.state.Fixed finalSize := by
  obtain ⟨_, state⟩ := s
  cases state with
  | recv => cases h.1
  | sizeKnown => exact fixed_of_fc rfl rfl ((consumed_retireData ..).trans (h.2 _ rfl))
  | sizeKnownAt | dataRecvd => exact ⟨rfl, nofun⟩
  | _ => exact h

/-- **The final size stays known.** -/
theorem fixed_apply (op : Op) : (s.apply sessionFc op).state.Fixed finalSize := by
  cases op with
  | frame => exact fixed_inboundStreamFrame h ..
  | reset => exact fixed_reset h ..
  | read => exact fixed_read h ..
  | stopSending => exact fixed_stopSending h ..
  | stopSendingAcked =>
    obtain ⟨_, state⟩ := s
    cases state with
    | abortReading _ reached =>
      obtain rfl : reached = true := h.1
      exact ⟨rfl, nofun⟩
    | _ => exact h
  | writeFrame =>
    obtain ⟨_, state⟩ := s
    cases state with
    | recv => cases h.1
    | abortReading =>
      unfold apply writeFrame
      dsimp only
      split_ifs <;> exact h
    | _ => exact h
  | stopSendingLost | streamDataBlocked | maxStreamDataLost | setStreamMaxData =>
    -- These change no more than which frames are pending.
    obtain ⟨_, state⟩ := s
    cases state with
    | recv => cases h.1
    | _ => exact h

end

lemma fixed_run (h : s.state.Fixed finalSize) (ops : List (SessionFc × Op)) :
    (s.run ops).state.Fixed finalSize := by
  induction ops generalizing s with
  | nil => exact h
  | cons step ops ih => exact ih (fixed_apply h step.1 step.2)

/-! ### Accepting a final size -/

/-- The final size that a frame announces. -/
def Op.finalSize? : Op → Option ℕ
  | .frame true offset data => some (offset + data.length)
  | .reset _ finalSize _ => some finalSize
  | _ => none

/-- The frame does not agree with the final size. The reliable size in a `RESET_STREAM_AT` frame is
at most its final size, or the frame is not decoded. -/
def Op.Violates (finalSize : ℕ) : Op → Prop
  | .frame fin offset data =>
    finalSize < offset + data.length ∨ (fin = true ∧ offset + data.length ≠ finalSize)
  | .reset _ finalSize' reliableSize => finalSize' ≠ finalSize ∧ reliableSize ≤ finalSize'
  | _ => False

/-- The final size in a `STREAM` frame is not kept in `waitForReset`. -/
def forgets (s : RecvStream) : Op → Bool
  | .frame _ _ _ =>
    match s.state with
    | .waitForReset _ _ _ => true
    | _ => false
  | _ => false

variable {sessionFc : SessionFc}

lemma exists_fc (hended : s.isEnded = false) : ∃ fc, s.state.fc = some fc := by
  rw [← Option.ne_none_iff_exists', ne_eq, ← isEnded_iff, hended]
  exact nofun

lemma fixed_of_fin (hended : s.isEnded = false) {offset : ℕ} {data : Bytes}
    (hkeeps : s.forgets (.frame true offset data) = false)
    (hok : (s.inboundStreamFrame sessionFc true offset data).2.2 = .ok ()) :
    (s.inboundStreamFrame sessionFc true offset data).1.state.Fixed (offset + data.length) := by
  obtain ⟨fc, hfc⟩ := exists_fc hended
  obtain ⟨fc', _, r, heq, -, -, -, -, hcharged⟩ :=
    flowControlConsumeData_spec hfc sessionFc (offset + data.length) true
  unfold inboundStreamFrame at hok ⊢
  dsimp only at hok ⊢
  rw [heq] at hok ⊢
  cases r with
  | error => cases hok
  | ok => ?_
  have hconsumed := (hcharged rfl).consumed_of_fin
  cases hs : s.state with
  | recv fc₀ o =>
    rw [hs] at hok
    dsimp only [noteFin, setFc, receiveData] at hok ⊢
    generalize o.inboundFrame offset data = r at hok ⊢
    obtain ⟨o', _ | _⟩ := r
    · cases hok
    · rw [← hconsumed]
      exact fixed_withFinalSize fc' o'
  | waitForReset =>
    rw [forgets, hs] at hkeeps
    cases hkeeps
  | dataRead | resetRecvd => exact ⟨rfl, nofun⟩
  | abortReading => exact Fixed.receiveData (fixed_of_fc (by exact Bool.or_true _) rfl hconsumed) ..
  | _ => exact (fixed_of_fc rfl rfl hconsumed).receiveData ..

lemma fixed_of_reset (hended : s.isEnded = false) {err reliableSize : ℕ}
    (hok : ∃ ended, (s.reset sessionFc err finalSize reliableSize).2.2 = .ok ended) :
    (s.reset sessionFc err finalSize reliableSize).1.state.Fixed finalSize := by
  obtain ⟨ended, hok⟩ := hok
  obtain ⟨fc, hfc⟩ := exists_fc hended
  unfold reset at hok ⊢
  split_ifs at hok ⊢ with hgt
  obtain ⟨fc', _, r, heq, -, -, -, -, hcharged⟩ :=
    flowControlConsumeData_spec hfc sessionFc finalSize true
  rw [heq] at hok ⊢
  cases r with
  | error => cases hok
  | ok =>
    have hconsumed := (hcharged rfl).consumed_of_fin
    cases hs : s.state with
    | recv => exact fixed_settleReset _ _ hconsumed ..
    | waitForReset | abortReading | dataRead | resetRecvd => exact ⟨rfl, nofun⟩
    | _ => exact fixed_applyReset (fixed_of_fc rfl rfl hconsumed) ..

lemma fixed_of_finalSize (hended : s.isEnded = false) {op : Op}
    (hop : op.finalSize? = some finalSize) (hkeeps : s.forgets op = false)
    (hok : s.result sessionFc op = .ok ()) : (s.apply sessionFc op).state.Fixed finalSize := by
  cases op with
  | frame fin =>
    cases fin with
    | false => cases hop
    | true =>
      obtain rfl := Option.some.inj hop
      exact fixed_of_fin hended hkeeps hok
  | reset err finalSize' reliableSize =>
    obtain rfl := Option.some.inj hop
    refine fixed_of_reset hended ?_
    rw [result] at hok
    generalize (s.reset sessionFc err finalSize' reliableSize).2.2 = r at hok
    cases r with
    | error => cases hok
    | ok ended => exact ⟨ended, rfl⟩
  | _ => cases hop

lemma result_of_violates (h : s.state.Fixed finalSize) (hended : s.isEnded = false)
    (sessionFc : SessionFc) {op : Op} (hop : op.Violates finalSize) :
    s.result sessionFc op = .error .finalSize := by
  obtain ⟨fc, hfc⟩ := exists_fc hended
  cases op with
  | frame =>
    rw [result, inboundStreamFrame]
    rw [h.refuses hfc sessionFc hop]
  | reset =>
    rw [result, reset, if_neg (not_lt.mpr hop.2), h.refuses hfc sessionFc (.inr ⟨rfl, hop.1⟩)]
    rfl
  | _ => exact hop.elim

lemma waitForReset_inboundStreamFrame {finalReceived finalRead : ℕ}
    (hs : s.state = .waitForReset fc finalReceived finalRead) (sessionFc : SessionFc)
    (fin : Bool) (offset : ℕ) (data : Bytes) :
    ∃ fc', (s.inboundStreamFrame sessionFc fin offset data).1.state =
      .waitForReset fc' finalReceived finalRead := by
  have hfc : s.state.fc = some fc := by
    rw [hs]
    rfl
  obtain ⟨fc', _, r, heq, -⟩ :=
    flowControlConsumeData_spec hfc sessionFc (offset + data.length) fin
  unfold inboundStreamFrame
  dsimp only
  rw [heq, hs]
  cases r with
  | error | ok => exact ⟨fc', rfl⟩

/-- A stream that forgets the final size accepts data beyond it, up to the limits. -/
lemma result_of_waitForReset {finalReceived finalRead : ℕ}
    (hs : s.state = .waitForReset fc finalReceived finalRead) (sessionFc : SessionFc)
    (offset : ℕ) (data : Bytes) :
    s.result sessionFc (.frame false offset data) ≠ .error .finalSize := by
  unfold result inboundStreamFrame flowControlConsumeData
  rw [hs]
  dsimp only [RecvStreamState.fc, RecvStreamState.finalSizeReached, finalSizeOk, retireData]
  cases hset : fc.setConsumed (offset + data.length) with
  | error =>
    unfold ReceiverFlowControl.setConsumed at hset
    split_ifs at hset
    cases hset
    simp
  | ok r =>
    obtain ⟨fc', n⟩ := r
    dsimp only
    cases hconsume : sessionFc.consume n with
    | error =>
      unfold ReceiverFlowControl.consume at hconsume
      split_ifs at hconsume
      cases hconsume
      simp
    | ok => simp [receiveData, noteFin, setFc]

/-- **The final size is enforced**, unless it is a `FIN` that arrives in `waitForReset`. Once the
stream has accepted a final size, and until it ends, every frame that does not agree with the final
size is refused with `finalSize`, if and only if the stream does not forget the final size. -/
theorem finalSize_enforced_iff (streamId : StreamId) (maxStreamData : ℕ)
    (before : List (SessionFc × Op)) (sessionFc : SessionFc) (op : Op)
    (finalSize : ℕ) (hop : op.finalSize? = some finalSize)
    (hended : ((new streamId maxStreamData).run before).isEnded = false)
    (hok : ((new streamId maxStreamData).run before).result sessionFc op = .ok ()) :
    (∀ after sessionFc' op',
      ((((new streamId maxStreamData).run before).apply sessionFc op).run after).isEnded = false →
      op'.Violates finalSize →
      ((((new streamId maxStreamData).run before).apply sessionFc op).run after).result sessionFc'
        op' = .error .finalSize) ↔
    ((new streamId maxStreamData).run before).forgets op = false := by
  generalize (new streamId maxStreamData).run before = s at hended hok ⊢
  constructor
  · intro h
    by_contra hforgets
    rw [Bool.not_eq_false] at hforgets
    -- The stream is still in `waitForReset`, and one byte more is not refused.
    cases op with
    | frame fin offset data =>
      cases hs : s.state with
      | waitForReset =>
        obtain ⟨fc', hs'⟩ := waitForReset_inboundStreamFrame hs sessionFc fin offset data
        refine result_of_waitForReset hs' sessionFc finalSize [0]
          (h [] sessionFc (.frame false finalSize [0]) ?_ (.inl (Nat.lt_succ_self finalSize)))
        show (s.inboundStreamFrame sessionFc fin offset data).1.isEnded = false
        rw [isEnded, hs']
      | _ =>
        rw [forgets, hs] at hforgets
        cases hforgets
    | _ => cases hforgets
  · intro hkeeps after sessionFc' op' hended' hop'
    have hfixed := fixed_run (fixed_of_finalSize hended hop hkeeps hok) after
    exact result_of_violates hfixed hended' sessionFc' hop'

/-- The final size is known in all other states: here, data at offset 3 is refused after a `FIN` at
offset 3 in `recv`, also once the application stops reading. -/
theorem finalSize_enforced_after_abort :
    ((((new ⟨0⟩ 100).run []).apply (.new () 100) (.frame true 1 [2, 3])).run
        [(.new () 100, .stopSending 0)]).result (.new () 100) (.frame false 3 [4]) =
      .error .finalSize :=
  (finalSize_enforced_iff ⟨0⟩ 100 [] (.new () 100) (.frame true 1 [2, 3]) 3 rfl rfl (by decide)).mpr
    rfl [(.new () 100, .stopSending 0)] (.new () 100) (.frame false 3 [4]) (by decide)
    (.inl (by decide))

/-- The application stops reading and the peer acknowledges `STOP_SENDING`. Then a `FIN` at offset
3 is accepted, and after it another byte. -/
theorem finalSize_forgotten :
    ((new ⟨0⟩ 100).run [(.new () 100, .stopSending 0), (.new () 100, .stopSendingAcked)]).isEnded =
      false ∧
    ((new ⟨0⟩ 100).run [(.new () 100, .stopSending 0), (.new () 100, .stopSendingAcked)]).result
      (.new () 100) (.frame true 0 [1, 2, 3]) = .ok () ∧
    (Op.frame false 3 [4]).Violates 3 ∧
    ((new ⟨0⟩ 100).run [(.new () 100, .stopSending 0), (.new () 100, .stopSendingAcked),
      (.new () 100, .frame true 0 [1, 2, 3])]).isEnded = false ∧
    ((new ⟨0⟩ 100).run [(.new () 100, .stopSending 0), (.new () 100, .stopSendingAcked),
      (.new () 100, .frame true 0 [1, 2, 3])]).result (.new () 100) (.frame false 3 [4]) =
        .ok () := by
  refine ⟨?_, ?_, .inl (by decide), ?_, ?_⟩ <;> decide

end RecvStream

end Neqo
