import Neqo.RecvStream.Equiv.Orderer

/-!
# The steps that receiving streams are made of

Every function of a `RecvStream` moves the flow control of the stream and that of the connection by
the same amounts (`Moves`). Here are the specifications of the steps that they share: retiring,
charging for data, and the end of reading.
-/

namespace Neqo

open ReceiverFlowControl

namespace RecvStream

/-- The flow control of a stream and that of the connection change by the same amounts, and their
limits not at all. -/
structure Moves (fc fc' : StreamFc)
    (sessionFc sessionFc' : SessionFc) : Prop where
  maxAllowed : fc'.maxAllowed = fc.maxAllowed
  maxActive : fc'.maxActive = fc.maxActive
  sessionMaxAllowed : sessionFc'.maxAllowed = sessionFc.maxAllowed
  consumed : sessionFc'.consumed + fc.consumed = sessionFc.consumed + fc'.consumed
  retired : sessionFc'.retired + fc.retired = sessionFc.retired + fc'.retired

lemma Moves.refl (fc : StreamFc) (sessionFc : SessionFc) :
    Moves fc fc sessionFc sessionFc := ⟨rfl, rfl, rfl, rfl, rfl⟩

lemma Moves.trans {fc fc' fc'' : StreamFc} {sessionFc sessionFc' sessionFc'' : SessionFc}
    (h : Moves fc fc' sessionFc sessionFc') (h' : Moves fc' fc'' sessionFc' sessionFc'') :
    Moves fc fc'' sessionFc sessionFc'' := by
  refine ⟨h'.maxAllowed.trans h.maxAllowed, h'.maxActive.trans h.maxActive,
    h'.sessionMaxAllowed.trans h.sessionMaxAllowed, ?_, ?_⟩
  · have h1 := h.consumed
    have h2 := h'.consumed
    omega
  · have h1 := h.retired
    have h2 := h'.retired
    omega

lemma flowControlRetireData_spec (n : ℕ) (fc : StreamFc) (sessionFc : SessionFc) :
    Moves fc (flowControlRetireData n fc sessionFc).1 sessionFc
        (flowControlRetireData n fc sessionFc).2 ∧
      (flowControlRetireData n fc sessionFc).1.retired = fc.retired + n ∧
      (flowControlRetireData n fc sessionFc).1.consumed = fc.consumed := by
  unfold flowControlRetireData
  split_ifs with hn
  · refine ⟨⟨?_, ?_, ?_, ?_, ?_⟩, ?_, ?_⟩ <;>
      simp only [addRetired_retired, addRetired_consumed, addRetired_maxAllowed,
        addRetired_maxActive]
    omega
  · exact ⟨Moves.refl _ _, by dsimp only; omega, rfl⟩

end RecvStream

namespace ReceiverFlowControl

lemma setConsumed_ok {fc fc' : StreamFc} {consumed n : ℕ}
    (h : fc.setConsumed consumed = .ok (fc', n)) :
    fc' = { fc with consumed := max fc.consumed consumed } ∧
      n = max fc.consumed consumed - fc.consumed ∧
      (fc.consumed ≤ fc.maxAllowed → max fc.consumed consumed ≤ fc.maxAllowed) := by
  unfold setConsumed at h
  split_ifs at h with hle hgt
  · obtain ⟨rfl, rfl⟩ := Prod.mk.inj (Except.ok.inj h)
    rw [max_eq_left hle]
    exact ⟨rfl, by omega, id⟩
  · obtain ⟨rfl, rfl⟩ := Prod.mk.inj (Except.ok.inj h)
    rw [max_eq_right (by omega)]
    exact ⟨rfl, rfl, fun _ => by omega⟩

end ReceiverFlowControl

namespace RecvStreamState

variable {s : RecvStreamState} {fc : StreamFc}

lemma setFc_fc (hfc : s.fc = some fc) (fc' : StreamFc) : (s.setFc fc').fc = some fc' := by
  cases s <;> first | rfl | cases hfc

lemma setFc_self (hfc : s.fc = some fc) : s.setFc fc = s := by
  cases s <;> cases hfc <;> rfl

lemma noteFin_fc (s : RecvStreamState) (fin : Bool) : (s.noteFin fin).fc = s.fc := by
  cases s <;> rfl

/-- A stream that has dropped its flow control ignores what it is charged. -/
lemma flowControlConsumeData_of_none (hfc : s.fc = none) (sessionFc : SessionFc)
    (consumed : ℕ) (fin : Bool) :
    s.flowControlConsumeData sessionFc consumed fin = (s, sessionFc, .ok ()) := by
  unfold flowControlConsumeData
  rw [hfc]

/-- A stream that is charged with success: the final size was respected, the stream and the
connection are charged for what is new, and both stay within their limits. -/
structure Charged (s : RecvStreamState) (fc fc' : StreamFc)
    (sessionFc sessionFc' : SessionFc) (consumed : ℕ) (fin : Bool) : Prop where
  finalSizeOk : finalSizeOk fin s.finalSizeReached consumed fc.consumed = true
  moves : RecvStream.Moves fc fc' sessionFc sessionFc'
  consumed : fc'.consumed = max fc.consumed consumed
  retired : fc'.retired =
    if s.retireData then fc.retired + (fc'.consumed - fc.retired) else fc.retired
  le_max : fc.consumed ≤ fc.maxAllowed → fc'.consumed ≤ fc'.maxAllowed
  session_le_max : sessionFc'.consumed ≤ sessionFc'.maxAllowed

/-- **What charging a stream does.**  Whatever its result, it can only raise the offset that was
consumed to the one that is charged, and retire. -/
theorem flowControlConsumeData_spec (hfc : s.fc = some fc) (sessionFc : SessionFc)
    (consumed : ℕ) (fin : Bool) :
    ∃ fc' sessionFc' r, s.flowControlConsumeData sessionFc consumed fin =
        ((s.noteFin fin).setFc fc', sessionFc', r) ∧
      (fc'.consumed = fc.consumed ∨ fc'.consumed = max fc.consumed consumed) ∧
      fc'.maxAllowed = fc.maxAllowed ∧ fc'.maxActive = fc.maxActive ∧ fc.retired ≤ fc'.retired ∧
      (r = .ok () → Charged s fc fc' sessionFc sessionFc' consumed fin) := by
  unfold flowControlConsumeData
  rw [hfc]
  dsimp only
  have hself := setFc_self ((noteFin_fc s fin).trans hfc)
  by_cases hfinal : finalSizeOk fin s.finalSizeReached consumed fc.consumed = true
  swap
  · rw [if_neg hfinal]
    exact ⟨fc, _, .error _, by rw [hself], .inl rfl, rfl, rfl, le_rfl, nofun⟩
  rw [if_pos hfinal]
  cases hset : fc.setConsumed consumed with
  | error e => exact ⟨fc, _, .error e, by rw [hself], .inl rfl, rfl, rfl, le_rfl, nofun⟩
  | ok r =>
    obtain ⟨fc₁, n⟩ := r
    obtain ⟨rfl, hn, hmax⟩ := setConsumed_ok hset
    dsimp only
    cases hcons : sessionFc.consume n with
    | error e => exact ⟨_, _, .error e, rfl, .inr rfl, rfl, rfl, le_rfl, nofun⟩
    | ok sessionFc₁ =>
      unfold consume at hcons
      split_ifs at hcons with hgt
      obtain rfl := Except.ok.inj hcons
      have hsmax := Nat.le_of_not_gt hgt
      have hmoves : RecvStream.Moves fc { fc with consumed := max fc.consumed consumed } sessionFc
          { sessionFc with consumed := sessionFc.consumed + n } :=
        ⟨rfl, rfl, rfl, by dsimp only; omega, rfl⟩
      dsimp only
      split_ifs with hret
      · obtain ⟨hmoves', hretired, hconsumed⟩ := RecvStream.flowControlRetireData_spec
          (max fc.consumed consumed - fc.retired) { fc with consumed := max fc.consumed consumed }
          { sessionFc with consumed := sessionFc.consumed + n }
        refine ⟨_, _, _, rfl, .inr hconsumed, hmoves'.maxAllowed, hmoves'.maxActive,
          Nat.le.intro hretired.symm, fun _ => ⟨hfinal, hmoves.trans hmoves', hconsumed, ?_,
          ?_, ?_⟩⟩
        · rw [if_pos hret, hretired, hconsumed]
        · rw [hconsumed, hmoves'.maxAllowed]
          exact hmax
        · rw [hmoves'.sessionMaxAllowed]
          have hsession := hmoves'.consumed
          rw [hconsumed] at hsession
          exact (add_right_cancel hsession).trans_le hsmax
      · exact ⟨_, _, _, rfl, .inr rfl, rfl, rfl, le_rfl,
          fun _ => ⟨hfinal, hmoves, rfl, (if_neg hret).symm, hmax, hsmax⟩⟩

section Charged

variable {fc' : StreamFc} {sessionFc sessionFc' : SessionFc}
  {consumed : ℕ} {fin : Bool}

lemma Charged.consumed_eq (h : Charged s fc fc' sessionFc sessionFc' consumed fin)
    (hreached : s.finalSizeReached = true) : fc'.consumed = fc.consumed := by
  have hok := h.finalSizeOk
  rw [hreached] at hok
  rw [h.consumed]
  cases fin <;> simp only [RecvStreamState.finalSizeOk, decide_eq_true_eq] at hok <;> omega

lemma Charged.consumed_of_fin (h : Charged s fc fc' sessionFc sessionFc' consumed true) :
    fc'.consumed = consumed := by
  have hok := h.finalSizeOk
  rw [h.consumed]
  cases hreached : s.finalSizeReached <;>
    simp only [hreached, RecvStreamState.finalSizeOk, decide_eq_true_eq] at hok <;> omega

lemma Charged.consumed_le (h : Charged s fc fc' sessionFc sessionFc' consumed fin) :
    fc.consumed ≤ fc'.consumed := by
  rw [h.consumed]
  omega

end Charged

lemma receiveData_fc (s : RecvStreamState) (fin : Bool) (offset : ℕ) (data : Bytes) :
    (s.receiveData fin offset data).1.fc = s.fc := by
  have hsize : ∀ (fc : StreamFc) o, (withFinalSize fc o).fc = some fc := by
    intro fc o
    unfold withFinalSize
    split_ifs <;> rfl
  cases s <;> dsimp only [receiveData]
  case recv fc o =>
    cases (o.inboundFrame offset data).2 with
    | error => rfl
    | ok =>
      split_ifs
      · exact hsize fc _
      · rfl
  case sizeKnown fc o =>
    cases (o.inboundFrame offset data).2 with
    | error => rfl
    | ok => exact hsize fc _
  case sizeKnownAt => split_ifs <;> rfl

end RecvStreamState

namespace RecvStream

lemma isEnded_iff (s : RecvStream) : s.isEnded = true ↔ s.state.fc = none := by
  unfold isEnded
  cases s.state <;> simp [RecvStreamState.fc]

end RecvStream

end Neqo
