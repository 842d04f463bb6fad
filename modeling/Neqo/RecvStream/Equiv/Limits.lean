import Neqo.FlowControl.Equiv
import Neqo.RecvStream.Equiv.Basic

/-!
# Limits that a receiving stream announces

While a stream is in `recv`, the limits in its `MAX_STREAM_DATA` frames do not shrink, as long as no
`setStreamMaxData` reduces the window below what was announced.
-/

namespace Neqo.RecvStream

open List ReceiverFlowControl RecvStreamState

/-! ### Runs in `recv` -/

/-- The limit in a token. -/
def limit? : StreamRecoveryToken → Option ℕ
  | .maxStreamData _ limit => some limit
  | _ => none

/-- The limit that an operation announces. -/
def limits (s : RecvStream) : Op → List ℕ
  | .writeFrame b now rtt => (s.writeFrame b [] now rtt).2.2.filterMap limit?
  | _ => []

/-- The limits that are announced during a run, in order. -/
def announcedLimits (s : RecvStream) : List (SessionFc × Op) → List ℕ
  | [] => []
  | (sessionFc, op) :: ops => s.limits op ++ (s.apply sessionFc op).announcedLimits ops

/-- The stream is in `recv`. -/
def inRecv (s : RecvStream) : Bool :=
  match s.state with
  | .recv _ _ => true
  | _ => false

/-- The stream is in `recv` during the whole run. -/
def staysInRecv (s : RecvStream) : List (SessionFc × Op) → Bool
  | [] => s.inRecv
  | (sessionFc, op) :: ops => s.inRecv && (s.apply sessionFc op).staysInRecv ops

/-- The new window reaches as far as the limit that was announced, and can be announced. -/
def keepsCredit (s : RecvStream) : Op → Bool
  | .setStreamMaxData maxData =>
    match s.state with
    | .recv fc _ => fc.maxAllowed ≤ fc.retired + maxData ∧ maxData ≤ Encoder.maxVarint
    | _ => true
  | _ => true

/-- Every `setStreamMaxData` of the run does so. -/
def alwaysKeepsCredit (s : RecvStream) : List (SessionFc × Op) → Bool
  | [] => true
  | (sessionFc, op) :: ops => s.keepsCredit op && (s.apply sessionFc op).alwaysKeepsCredit ops

variable {s : RecvStream}

lemma inRecv_iff : s.inRecv = true ↔ ∃ fc recvBuf, s.state = .recv fc recvBuf := by
  unfold inRecv
  cases s.state with
  | recv fc recvBuf => exact ⟨fun _ => ⟨fc, recvBuf, rfl⟩, fun _ => rfl⟩
  | _ => exact ⟨nofun, nofun⟩

/-! ### One operation -/

/-- What an operation that stays in `recv` does to the flow control and announces. -/
structure Announces (fc fc' : StreamFc) (limits : List ℕ) : Prop where
  generous : fc'.Generous
  le : fc.maxAllowed ≤ fc'.maxAllowed
  limits : limits = [] ∨ limits = [fc'.maxAllowed]

variable {fc fc' : StreamFc}

lemma announces_of_le (h : fc.Generous) (hallowed : fc'.maxAllowed = fc.maxAllowed)
    (hretired : fc.retired ≤ fc'.retired) (hactive : fc.maxActive ≤ fc'.maxActive) :
    Announces fc fc' [] :=
  ⟨h.of_le hallowed hretired hactive, hallowed.ge, .inl rfl⟩

lemma flowControlConsumeData_recv (h : fc.Generous) (recvBuf : RxStreamOrderer)
    (sessionFc : SessionFc) (consumed : ℕ) (fin : Bool) :
    ∃ fc' sessionFc' r, (RecvStreamState.recv fc recvBuf).flowControlConsumeData sessionFc consumed
      fin = (.recv fc' recvBuf, sessionFc', r) ∧ Announces fc fc' [] := by
  obtain ⟨fc', sessionFc', r, heq, -, hallowed, hactive, hretired, -⟩ :=
    flowControlConsumeData_spec (s := .recv fc recvBuf) rfl sessionFc consumed fin
  exact ⟨fc', sessionFc', r, heq, announces_of_le h hallowed hretired hactive.ge⟩

variable {recvBuf recvBuf' : RxStreamOrderer}

variable {sessionFc : SessionFc}

section

variable (hs : s.state = .recv fc recvBuf) (h : fc.Generous)

include hs h

lemma announces_frame {fin : Bool} {offset : ℕ} {data : Bytes}
    (hs' : (s.inboundStreamFrame sessionFc fin offset data).1.state = .recv fc' recvBuf') :
    Announces fc fc' [] := by
  obtain ⟨fc₁, _, r, hcharge, hannounces⟩ :=
    flowControlConsumeData_recv h recvBuf sessionFc (offset + data.length) fin
  unfold inboundStreamFrame at hs'
  dsimp only at hs'
  rw [hs, hcharge] at hs'
  cases r with
  | error =>
    cases hs'
    exact hannounces
  | ok =>
    have hfc := receiveData_fc (.recv fc₁ recvBuf) fin offset data
    dsimp only at hs'
    rw [hs'] at hfc
    cases hfc
    exact hannounces

lemma announces_reset {err finalSize reliableSize : ℕ}
    (hs' : (s.reset sessionFc err finalSize reliableSize).1.state = .recv fc' recvBuf') :
    Announces fc fc' [] := by
  obtain ⟨fc₁, _, r, hcharge, hannounces⟩ :=
    flowControlConsumeData_recv h recvBuf sessionFc finalSize true
  unfold reset at hs'
  split_ifs at hs' with hgt
  · rw [hs] at hs'
    cases hs'
    exact announces_of_le h rfl le_rfl le_rfl
  · rw [hs, hcharge] at hs'
    cases r with
    | error =>
      cases hs'
      exact hannounces
    | ok =>
      -- A reset that is accepted takes the stream out of `recv`.
      dsimp only [applyReset, settleReset, completeReliableResetIfDrained] at hs'
      split_ifs at hs'
      cases hs'

/-- **An operation that stays in `recv`** announces at most once, and no less than before. -/
theorem announces_apply {op : Op}
    (hkeeps : s.keepsCredit op = true) (hs' : (s.apply sessionFc op).state = .recv fc' recvBuf') :
    Announces fc fc' (s.limits op) := by
  cases op with
  | frame => exact announces_frame hs h hs'
  | reset => exact announces_reset hs h hs'
  | read =>
    rw [apply, read, hs] at hs'
    dsimp only at hs'
    injection hs' with hfc
    rw [← hfc]
    unfold flowControlRetireData
    split_ifs
    · exact ⟨h.addRetired _, (addRetired_maxAllowed _ _).ge, .inl rfl⟩
    · exact announces_of_le h rfl le_rfl le_rfl
  | stopSending =>
    rw [apply, stopSending, hs] at hs'
    cases hs'
  | stopSendingAcked =>
    rw [apply, stopSendingAcked, hs] at hs'
    rw [hs] at hs'
    cases hs'
    exact announces_of_le h rfl le_rfl le_rfl
  | stopSendingLost =>
    rw [apply, stopSendingLost, hs] at hs'
    rw [hs] at hs'
    cases hs'
    exact announces_of_le h rfl le_rfl le_rfl
  | streamDataBlocked =>
    rw [apply, sendFlowcUpdate, hs] at hs'
    cases hs'
    refine ⟨h.sendFlowcUpdate, ?_, .inl rfl⟩
    unfold ReceiverFlowControl.sendFlowcUpdate
    split_ifs <;> exact le_rfl
  | maxStreamDataLost maximumData =>
    rw [apply, maxStreamDataLost, hs] at hs'
    cases hs'
    refine ⟨h.frameLost maximumData, ?_, .inl rfl⟩
    unfold frameLost
    split_ifs <;> exact le_rfl
  | setStreamMaxData =>
    rw [apply, setStreamMaxData, hs] at hs'
    cases hs'
    rw [keepsCredit, hs] at hkeeps
    exact ⟨⟨(of_decide_eq_true hkeeps).1, h.le_maxVarint⟩, le_rfl, .inl rfl⟩
  | writeFrame b now rtt =>
    have hupdated : fc.Updated (.maxStreamData fc.subject) [] (fc.writeStreamFrames b [] now rtt).1
      (fc.writeStreamFrames b [] now rtt).2.2 := writeMaxData_updated ..
    rw [apply, writeFrame, hs] at hs'
    rw [limits, writeFrame, hs]
    dsimp only at hs' ⊢
    generalize fc.writeStreamFrames b [] now rtt = r at hupdated hs' ⊢
    obtain ⟨fc'', b', tokens⟩ := r
    cases hs'
    obtain ⟨hgenerous, hle⟩ := h.updated hupdated
    refine ⟨hgenerous, hle, ?_⟩
    dsimp only at hupdated
    cases hupdated with
    | unneeded | noSpace => exact .inl rfl
    | sent => exact .inr rfl

/-! ### Runs -/

/-- The limits that are announced lie between those at both ends of the run. -/
lemma announced_sorted {ops : List (SessionFc × Op)} (hstays : s.staysInRecv ops = true)
    (hkeeps : s.alwaysKeepsCredit ops = true) (hs' : (s.run ops).state = .recv fc' recvBuf') :
    (fc.maxAllowed :: s.announcedLimits ops).Pairwise (· ≤ ·) ∧
      ∀ limit ∈ fc.maxAllowed :: s.announcedLimits ops, limit ≤ fc'.maxAllowed := by
  induction ops generalizing s fc recvBuf with
  | nil =>
    rw [run_nil, hs] at hs'
    cases hs'
    refine ⟨pairwise_singleton _ _, fun limit hlimit => ?_⟩
    exact (mem_singleton.mp hlimit).le
  | cons step ops ih =>
    obtain ⟨sessionFc, op⟩ := step
    rw [staysInRecv, Bool.and_eq_true] at hstays
    rw [alwaysKeepsCredit, Bool.and_eq_true] at hkeeps
    have hnext : (s.apply sessionFc op).inRecv = true := by
      have hstays' := hstays.2
      cases ops with
      | nil => exact hstays'
      | cons => exact (Bool.and_eq_true_iff.mp hstays').1
    obtain ⟨fc₁, recvBuf₁, hs₁⟩ := inRecv_iff.mp hnext
    obtain ⟨hgenerous, hle, hlimits⟩ := announces_apply hs h hkeeps.1 hs₁
    obtain ⟨hsorted, hbound⟩ := ih hs₁ hgenerous hstays.2 hkeeps.2 hs'
    obtain ⟨hfirst, hrest⟩ := pairwise_cons.mp hsorted
    obtain ⟨hend, hbound⟩ := forall_mem_cons.mp hbound
    have hlater : ∀ limit ∈ (s.apply sessionFc op).announcedLimits ops, fc.maxAllowed ≤ limit :=
      fun limit hlimit => hle.trans (hfirst limit hlimit)
    rw [announcedLimits]
    rcases hlimits with hlimits | hlimits
    · rw [hlimits]
      exact ⟨pairwise_cons.mpr ⟨hlater, hrest⟩,
        forall_mem_cons.mpr ⟨hle.trans hend, hbound⟩⟩
    · rw [hlimits]
      exact ⟨pairwise_cons.mpr ⟨forall_mem_cons.mpr ⟨hle, hlater⟩, hsorted⟩,
        forall_mem_cons.mpr ⟨hle.trans hend, forall_mem_cons.mpr ⟨hend, hbound⟩⟩⟩

end

/-- **Announced limits do not shrink.**  For a stream that stays in `recv`, if no `setStreamMaxData`
reduces the window below what was announced, the initial limit and those in its `MAX_STREAM_DATA`
frames ascend, and none is above the limit that the stream enforces. For the connection this holds
in every run. -/
theorem limits_never_shrink (streamId : StreamId) {maxStreamData maxData : ℕ}
    (hstream : maxStreamData ≤ Encoder.maxVarint) (hdata : maxData ≤ Encoder.maxVarint) :
    (∀ ops fc recvBuf, (new streamId maxStreamData).staysInRecv ops = true →
      (new streamId maxStreamData).alwaysKeepsCredit ops = true →
      ((new streamId maxStreamData).run ops).state = .recv fc recvBuf →
      (maxStreamData :: (new streamId maxStreamData).announcedLimits ops).Pairwise (· ≤ ·) ∧
        ∀ limit ∈ maxStreamData :: (new streamId maxStreamData).announcedLimits ops,
          limit ≤ fc.maxAllowed) ∧
    ∀ ops s, (MaxData.new maxData).run ops = some s →
      s.announced.Pairwise (· ≥ ·) ∧ maxData ∈ s.announced ∧
        ∀ limit ∈ s.announced, limit ≤ s.fc.maxAllowed := by
  constructor
  · intro ops fc recvBuf hstays hkeeps hs
    have hnew : (new streamId maxStreamData).state = .recv (.new streamId maxStreamData) {} := rfl
    exact announced_sorted hnew (generous_new streamId hstream) hstays hkeeps hs
  · intro ops s hrun
    have hordered := (MaxData.ordered_new hdata).run hrun
    exact ⟨hordered.sorted, hordered.max_mem, hordered.le_maxAllowed⟩

/-- A wider window is announced. -/
theorem limits_never_shrink_of_wider :
    (new ⟨0⟩ 100).announcedLimits [(.new () 100, .setStreamMaxData 200),
      (.new () 100, .writeFrame { limit := 50 } 0 0)] = [200] ∧
    [100, 200].Pairwise (· ≤ ·) :=
  ⟨by decide, ((limits_never_shrink ⟨0⟩ (show 100 ≤ _ by decide) (show 100 ≤ _ by decide)).1
    [(.new () 100, .setStreamMaxData 200), (.new () 100, .writeFrame { limit := 50 } 0 0)] _ _
    (by decide) (by decide) rfl).1⟩

/-- The window is raised to 200 and then set to 50. The update that the first call made pending
announces 50, less than the initial 100; and what the peer was allowed to send is then refused. -/
theorem limits_shrink :
    (new ⟨0⟩ 100).announcedLimits [(.new () 100, .setStreamMaxData 200),
      (.new () 100, .setStreamMaxData 50), (.new () 100, .writeFrame { limit := 50 } 0 0)] = [50] ∧
    ((new ⟨0⟩ 100).run [(.new () 100, .setStreamMaxData 200), (.new () 100, .setStreamMaxData 50),
      (.new () 100, .writeFrame { limit := 50 } 0 0)]).result (.new () 100)
        (.frame false 60 [1]) = .error .flowControl := by
  decide

end Neqo.RecvStream
