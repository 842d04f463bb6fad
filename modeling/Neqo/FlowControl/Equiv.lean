import Neqo.FlowControl

/-!
# Limits that a receiver announces

An update announces at least as much as the last one, as long as the window was not reduced below
what was announced (`Generous`). For the connection, whose window is only ever tuned up, the last
update always arrives or is sent again (`no_stall`).
-/

namespace Neqo.ReceiverFlowControl

variable {T : Type}

/-! ### One update -/

/-- The parts of a flow control that tuning and sending updates leave alone. -/
structure SameCounts (fc fc' : ReceiverFlowControl T) : Prop where
  subject : fc'.subject = fc.subject
  consumed : fc'.consumed = fc.consumed
  retired : fc'.retired = fc.retired

variable (fc : ReceiverFlowControl T)

lemma autoTuneInner_spec (now rtt maxWindow : ℕ) :
    SameCounts fc (fc.autoTuneInner now rtt maxWindow) ∧
      (fc.autoTuneInner now rtt maxWindow).maxAllowed = fc.maxAllowed ∧
      (fc.autoTuneInner now rtt maxWindow).framePending = fc.framePending ∧
      fc.maxActive ≤ (fc.autoTuneInner now rtt maxWindow).maxActive := by
  unfold autoTuneInner
  cases fc.lastUpdate with
  | none => exact ⟨⟨rfl, rfl, rfl⟩, rfl, rfl, le_rfl⟩
  | some =>
    dsimp only
    split_ifs with hrtt hused hle
    · exact ⟨⟨rfl, rfl, rfl⟩, rfl, rfl, le_rfl⟩
    · exact ⟨⟨rfl, rfl, rfl⟩, rfl, rfl, le_rfl⟩
    · exact ⟨⟨rfl, rfl, rfl⟩, rfl, rfl, le_rfl⟩
    · exact ⟨⟨rfl, rfl, rfl⟩, rfl, rfl, (not_le.mp hle).le⟩

lemma writeLimit_cases (frameType : FrameType) (values : List ℕ) (limit : ℕ)
    (token : StreamRecoveryToken) (b : Builder) (tokens : Tokens) :
    ∃ b', fc.writeLimit frameType values limit token b tokens = (fc, b', tokens, false) ∨
      fc.writeLimit frameType values limit token b tokens =
        (fc.frameSent limit, b', tokens ++ [token], true) := by
  unfold writeLimit
  obtain ⟨b', _ | _⟩ := b.writeVarintFrame frameType (values ++ [limit])
  · exact ⟨b', .inl rfl⟩
  · exact ⟨b', .inr rfl⟩

/-- What an attempt to write an update comes to: none was needed, there was no space, or the limit
of the tuned window was announced. -/
inductive Updated (fc : ReceiverFlowControl T) (token : ℕ → StreamRecoveryToken)
    (tokens : Tokens) :
    ReceiverFlowControl T → Tokens → Prop
  | unneeded {fc' : ReceiverFlowControl T} (h : fc.framePending = false) (eq : fc' = fc) :
      Updated fc token tokens fc' tokens
  | noSpace {fc' : ReceiverFlowControl T} (h : fc.framePending = true) (same : SameCounts fc fc')
      (pending : fc'.framePending = true) (maxAllowed : fc'.maxAllowed = fc.maxAllowed)
      (maxActive : fc.maxActive ≤ fc'.maxActive) : Updated fc token tokens fc' tokens
  | sent {fc' : ReceiverFlowControl T} (h : fc.framePending = true) (same : SameCounts fc fc')
      (pending : fc'.framePending = false) (maxAllowed : fc'.maxAllowed = fc'.nextLimit)
      (maxActive : fc.maxActive ≤ fc'.maxActive) :
      Updated fc token tokens fc' (tokens ++ [token fc'.maxAllowed])

variable {fc fc' : ReceiverFlowControl T} {token : ℕ → StreamRecoveryToken}
  {tokens tokens' : Tokens}

lemma Updated.same (h : Updated fc token tokens fc' tokens') : SameCounts fc fc' := by
  cases h with
  | unneeded _ eq =>
    subst eq
    exact ⟨rfl, rfl, rfl⟩
  | noSpace _ same | sent _ same => exact same

lemma writeMaxData_updated (maxWindow : ℕ) (frameType : FrameType) (values : List ℕ)
    (token : ℕ → StreamRecoveryToken) (b : Builder) (tokens : Tokens) (now rtt : ℕ) :
    Updated fc token tokens
      (fc.writeMaxData maxWindow frameType values token b tokens now rtt).1
      (fc.writeMaxData maxWindow frameType values token b tokens now rtt).2.2 := by
  unfold writeMaxData
  cases hpending : fc.framePending with
  | false => exact .unneeded hpending rfl
  | true =>
    obtain ⟨hsame, hallowed, hpending', hactive⟩ := autoTuneInner_spec fc now rtt maxWindow
    dsimp only
    generalize fc.autoTuneInner now rtt maxWindow = tuned at *
    obtain ⟨b', h | h⟩ := tuned.writeLimit_cases frameType values tuned.nextLimit
      (token tuned.nextLimit) b tokens
    · rw [h]
      exact .noSpace hpending hsame (hpending'.trans hpending) hallowed hactive
    · rw [h]
      exact .sent hpending { hsame with } rfl rfl hactive

/-! ### Limits do not shrink -/

/-- The window reaches as far as the last limit that was announced, which is one that can be
announced. -/
structure Generous (fc : ReceiverFlowControl T) : Prop where
  le_window : fc.maxAllowed ≤ fc.retired + fc.maxActive
  le_maxVarint : fc.maxAllowed ≤ Encoder.maxVarint

lemma generous_new (subject : T) {max : ℕ} (h : max ≤ Encoder.maxVarint) :
    (new subject max).Generous where
  le_window := Nat.le_add_left max 0
  le_maxVarint := h

lemma Generous.of_le (h : fc.Generous) (hallowed : fc'.maxAllowed = fc.maxAllowed)
    (hretired : fc.retired ≤ fc'.retired) (hactive : fc.maxActive ≤ fc'.maxActive) :
    fc'.Generous := by
  have hwindow := h.le_window
  exact ⟨by omega, hallowed ▸ h.le_maxVarint⟩

/-- **An update does not go back** behind the last one. -/
theorem Generous.updated (h : fc.Generous) (hupdated : Updated fc token tokens fc' tokens') :
    fc'.Generous ∧ fc.maxAllowed ≤ fc'.maxAllowed := by
  cases hupdated with
  | unneeded _ eq =>
    subst eq
    exact ⟨h, le_rfl⟩
  | noSpace _ same _ maxAllowed maxActive =>
    exact ⟨h.of_le maxAllowed same.retired.ge maxActive, maxAllowed.ge⟩
  | sent _ same _ maxAllowed =>
    have hwindow := h.le_window
    have hretired := same.retired
    refine ⟨⟨maxAllowed ▸ min_le_left _ _, maxAllowed ▸ min_le_right _ _⟩, ?_⟩
    rw [maxAllowed]
    exact le_min (by omega) h.le_maxVarint

lemma Generous.addRetired (h : fc.Generous) (count : ℕ) : (fc.addRetired count).Generous := by
  refine h.of_le (addRetired_maxAllowed fc count) ?_ (addRetired_maxActive fc count).ge
  rw [addRetired_retired]
  omega

lemma Generous.sendFlowcUpdate (h : fc.Generous) : fc.sendFlowcUpdate.Generous := by
  unfold ReceiverFlowControl.sendFlowcUpdate
  split_ifs
  · exact h.of_le rfl le_rfl le_rfl
  · exact h

lemma Generous.frameLost (h : fc.Generous) (maximumData : ℕ) :
    (fc.frameLost maximumData).Generous := by
  unfold ReceiverFlowControl.frameLost
  split_ifs
  · exact h.of_le rfl le_rfl le_rfl
  · exact h

end Neqo.ReceiverFlowControl

/-!
## Updates of the connection's data limit

A run of the flow control of a connection, with the `MAX_DATA` tokens written. As long as no update
is pending, the last limit is the initial one, or its token is acknowledged or still outstanding,
and it leaves room for most of the window (`Fresh`).
-/

namespace Neqo

open List ReceiverFlowControl

/-- The flow control of a connection and its `MAX_DATA` tokens. -/
structure MaxData where
  fc : SessionFc
  /-- The limits in tokens that were neither acknowledged nor lost yet. -/
  outstanding : List ℕ := []
  /-- The limits in tokens that were acknowledged. -/
  acknowledged : List ℕ := []
  /-- All limits that were announced, the last one first. -/
  announced : List ℕ
  deriving DecidableEq

namespace MaxData

/-- The initial limit is announced in a transport parameter. -/
def new (max : ℕ) : MaxData := { fc := .new () max, announced := [max] }

/-- An event at the receiver. -/
inductive Op where
  | consume (count : ℕ)
  | addRetired (count : ℕ)
  /-- The peer sends `DATA_BLOCKED`. -/
  | dataBlocked
  | writeFrames (b : Builder) (now rtt : ℕ)
  | lost (limit : ℕ)
  | acked (limit : ℕ)

/-- The limit in a token. -/
def limit? : StreamRecoveryToken → Option ℕ
  | .maxData limit => some limit
  | _ => none

/-- One step. More than what was consumed cannot be retired, and only what was sent is lost or
acknowledged. -/
def step (s : MaxData) : Op → Option MaxData
  | .consume count =>
    match s.fc.consume count with
    | .ok fc => some { s with fc := fc }
    | .error _ => some s
  | .addRetired count =>
    if s.fc.retired + count ≤ s.fc.consumed then some { s with fc := s.fc.addRetired count }
      else none
  | .dataBlocked => some { s with fc := s.fc.sendFlowcUpdate }
  | .writeFrames b now rtt =>
    let (fc, _, tokens) := s.fc.writeFrames b [] now rtt
    let limits := tokens.filterMap limit?
    some { s with
      fc := fc
      outstanding := limits ++ s.outstanding
      announced := limits ++ s.announced }
  | .lost limit =>
    if limit ∈ s.outstanding then
      some { s with fc := s.fc.frameLost limit, outstanding := s.outstanding.erase limit }
    else none
  | .acked limit =>
    if limit ∈ s.outstanding then
      some { s with
        outstanding := s.outstanding.erase limit
        acknowledged := limit :: s.acknowledged }
    else none

/-- A run, unless a step is not possible. -/
def run (s : MaxData) : List Op → Option MaxData
  | [] => some s
  | op :: ops => (s.step op).bind fun s' => s'.run ops

/-- What a step can do to the flow control and the tokens. -/
inductive Step (s : MaxData) : MaxData → Prop
  | counted {fc : SessionFc} (count : ℕ) (h : s.fc.consume count = .ok fc) :
      Step s { s with fc := fc }
  | refused : Step s s
  | retired (count : ℕ) (h : s.fc.retired + count ≤ s.fc.consumed) :
      Step s { s with fc := s.fc.addRetired count }
  | blocked : Step s { s with fc := s.fc.sendFlowcUpdate }
  | unsent {fc : SessionFc} (h : s.fc.Updated .maxData [] fc []) :
      Step s { s with fc := fc }
  | sent {fc : SessionFc} (h : s.fc.Updated .maxData [] fc [.maxData fc.maxAllowed]) :
      Step s { s with
        fc := fc
        outstanding := fc.maxAllowed :: s.outstanding
        announced := fc.maxAllowed :: s.announced }
  | lost (limit : ℕ) (h : limit ∈ s.outstanding) :
      Step s { s with fc := s.fc.frameLost limit, outstanding := s.outstanding.erase limit }
  | acked (limit : ℕ) (h : limit ∈ s.outstanding) :
      Step s { s with
        outstanding := s.outstanding.erase limit
        acknowledged := limit :: s.acknowledged }

variable {s s' : MaxData}

lemma step_cases {op : Op} (h : s.step op = some s') : Step s s' := by
  cases op with
  | consume count =>
    rw [step] at h
    cases hconsume : s.fc.consume count with
    | ok =>
      simp only [hconsume, Option.some.injEq] at h
      subst h
      exact .counted count hconsume
    | error =>
      simp only [hconsume, Option.some.injEq] at h
      subst h
      exact .refused
  | addRetired count =>
    rw [step] at h
    split_ifs at h with hle
    obtain rfl := Option.some.inj h
    exact .retired count hle
  | dataBlocked =>
    obtain rfl := Option.some.inj h
    exact .blocked
  | writeFrames b now rtt =>
    have hupdated : s.fc.Updated .maxData [] (s.fc.writeFrames b [] now rtt).1
      (s.fc.writeFrames b [] now rtt).2.2 := writeMaxData_updated ..
    rw [step] at h
    generalize s.fc.writeFrames b [] now rtt = r at h hupdated
    obtain ⟨fc, b', tokens⟩ := r
    obtain rfl := Option.some.inj h
    dsimp only at hupdated ⊢
    cases hupdated with
    | unneeded hpending eq => exact .unsent (.unneeded hpending eq)
    | noSpace hpending same pending maxAllowed maxActive =>
      exact .unsent (.noSpace hpending same pending maxAllowed maxActive)
    | sent hpending same pending maxAllowed maxActive =>
      exact .sent (.sent hpending same pending maxAllowed maxActive)
  | lost limit =>
    rw [step] at h
    split_ifs at h with hmem
    obtain rfl := Option.some.inj h
    exact .lost limit hmem
  | acked limit =>
    rw [step] at h
    split_ifs at h with hmem
    obtain rfl := Option.some.inj h
    exact .acked limit hmem

/-! ### Announced limits -/

/-- The limits that were announced descend from the last one, which what was consumed keeps to. -/
structure Ordered (s : MaxData) (max : ℕ) : Prop where
  generous : s.fc.Generous
  sorted : s.announced.Pairwise (· ≥ ·)
  le_maxAllowed : ∀ limit ∈ s.announced, limit ≤ s.fc.maxAllowed
  max_mem : max ∈ s.announced
  retired_le : s.fc.retired ≤ s.fc.consumed
  consumed_le : s.fc.consumed ≤ s.fc.maxAllowed

variable {max : ℕ}

lemma ordered_new (h : max ≤ Encoder.maxVarint) : (new max).Ordered max where
  generous := generous_new () h
  sorted := pairwise_singleton _ _
  le_maxAllowed _ hlimit := (mem_singleton.mp hlimit).le
  max_mem := mem_singleton_self max
  retired_le := le_rfl
  consumed_le := Nat.zero_le _

lemma Ordered.of_fc (h : s.Ordered max) (hfc : s'.fc.Generous)
    (hannounced : s'.announced = s.announced) (hallowed : s'.fc.maxAllowed = s.fc.maxAllowed)
    (hretired : s'.fc.retired ≤ s'.fc.consumed) (hconsumed : s'.fc.consumed ≤ s'.fc.maxAllowed) :
    s'.Ordered max where
  generous := hfc
  sorted := hannounced ▸ h.sorted
  le_maxAllowed := by
    rw [hannounced, hallowed]
    exact h.le_maxAllowed
  max_mem := hannounced ▸ h.max_mem
  retired_le := hretired
  consumed_le := hconsumed

lemma Ordered.step (h : s.Ordered max) (hstep : Step s s') : s'.Ordered max := by
  have hretired := h.retired_le
  have hconsumed := h.consumed_le
  cases hstep with
  | @counted fc count hcount =>
    unfold consume at hcount
    split_ifs at hcount with hgt
    obtain rfl := Except.ok.inj hcount
    exact h.of_fc (h.generous.of_le rfl le_rfl le_rfl) rfl rfl (by dsimp only; omega)
      (not_lt.mp hgt)
  | refused => exact h
  | retired count hle =>
    refine h.of_fc (h.generous.addRetired count) rfl
      (addRetired_maxAllowed _ _) ?_ ?_
    · rw [addRetired_retired, addRetired_consumed]
      exact hle
    · rw [addRetired_consumed, addRetired_maxAllowed]
      exact hconsumed
  | blocked =>
    unfold sendFlowcUpdate
    split_ifs
    · exact h.of_fc (h.generous.of_le rfl le_rfl le_rfl) rfl rfl hretired hconsumed
    · exact h
  | @unsent fc hupdated =>
    obtain ⟨hgenerous, hle⟩ := h.generous.updated hupdated
    cases hupdated with
    | unneeded _ eq =>
      subst eq
      exact h
    | noSpace _ same _ maxAllowed =>
      exact h.of_fc hgenerous rfl maxAllowed (by rw [same.retired, same.consumed]; exact hretired)
        (by rw [same.consumed, maxAllowed]; exact hconsumed)
  | @sent fc hupdated =>
    obtain ⟨hgenerous, hle⟩ := h.generous.updated hupdated
    obtain ⟨-, hsameConsumed, hsameRetired⟩ : s.fc.SameCounts fc := hupdated.same
    refine ⟨hgenerous, ?_, ?_, ?_, ?_, ?_⟩
    · exact pairwise_cons.mpr ⟨fun limit hlimit => (h.le_maxAllowed limit hlimit).trans hle,
        h.sorted⟩
    · intro limit hlimit
      rcases mem_cons.mp hlimit with rfl | hlimit
      · exact le_rfl
      · exact (h.le_maxAllowed limit hlimit).trans hle
    · exact mem_cons_of_mem _ h.max_mem
    · dsimp only
      omega
    · dsimp only
      omega
  | lost =>
    unfold frameLost
    split_ifs
    · exact h.of_fc (h.generous.of_le rfl le_rfl le_rfl) rfl rfl hretired hconsumed
    · exact h.of_fc h.generous rfl rfl hretired hconsumed
  | acked => exact h.of_fc h.generous rfl rfl hretired hconsumed

variable {ops : List Op}

lemma Ordered.run (h : s.Ordered max) (hrun : s.run ops = some s') : s'.Ordered max := by
  induction ops generalizing s with
  | nil =>
    obtain rfl := Option.some.inj hrun
    exact h
  | cons op ops ih =>
    obtain ⟨s₁, hstep, hrun⟩ := Option.bind_eq_some_iff.mp hrun
    exact ih (h.step (step_cases hstep)) hrun

/-! ### No stall -/

/-- Some of the window may be used before an update is sent. -/
def threshold (fc : SessionFc) : ℕ :=
  fc.maxActive - fc.maxActive / windowUpdateFraction

lemma threshold_le (fc : SessionFc) : threshold fc ≤ fc.maxActive := Nat.sub_le _ _

/-- Unless an update is pending, the last limit is known to the peer or on its way, and leaves room
for most of the window. -/
structure Fresh (s : MaxData) (max : ℕ) : Prop where
  known : s.fc.framePending = false →
    s.fc.maxAllowed = max ∨ s.fc.maxAllowed ∈ s.outstanding ∨ s.fc.maxAllowed ∈ s.acknowledged
  room : s.fc.framePending = false → s.fc.retired + threshold s.fc ≤ s.fc.maxAllowed

lemma fresh_new (max : ℕ) : (new max).Fresh max where
  known _ := .inl rfl
  room _ := (zero_add _).le.trans (threshold_le _)

lemma fresh_of_pending (h : s.fc.framePending = true) : s.Fresh max where
  known hpending := absurd (h.symm.trans hpending) nofun
  room hpending := absurd (h.symm.trans hpending) nofun

lemma Fresh.addRetired {count : ℕ} (h : s.Fresh max) (hordered : s.Ordered max)
    (hle : s.fc.retired + count ≤ s.fc.consumed) :
    ({ s with fc := s.fc.addRetired count } : MaxData).Fresh max := by
  have hconsumed := hordered.consumed_le
  unfold ReceiverFlowControl.addRetired
  dsimp only
  split_ifs with hsend
  · exact fresh_of_pending rfl
  · refine ⟨h.known, fun _ => ?_⟩
    simp only [shouldSendUpdate, decide_eq_true_eq, not_lt] at hsend
    simp only [threshold]
    omega

lemma fresh_sent {fc : SessionFc} (hupdated : s.fc.Updated .maxData [] fc [.maxData fc.maxAllowed])
    (hrange : fc.retired + fc.maxActive < 2 ^ 62) :
    ({ s with
        fc := fc
        outstanding := fc.maxAllowed :: s.outstanding
        announced := fc.maxAllowed :: s.announced } : MaxData).Fresh max := by
  refine ⟨fun _ => .inr (.inl mem_cons_self), fun _ => ?_⟩
  generalize htokens : [StreamRecoveryToken.maxData fc.maxAllowed] = tokens at hupdated
  cases hupdated with
  | unneeded | noSpace => cases htokens
  | sent _ _ _ maxAllowed =>
    have hmax : Encoder.maxVarint = 2 ^ 62 - 1 := rfl
    rw [nextLimit] at maxAllowed
    have hthreshold := threshold_le fc
    dsimp only
    omega

lemma Fresh.step (h : s.Fresh max) (hordered : s.Ordered max) (hstep : Step s s')
    (hrange : s'.fc.retired + s'.fc.maxActive < 2 ^ 62) : s'.Fresh max := by
  cases hstep with
  | @counted fc count hcount =>
    unfold consume at hcount
    split_ifs at hcount
    obtain rfl := Except.ok.inj hcount
    exact ⟨h.known, h.room⟩
  | refused => exact h
  | retired count hle => exact h.addRetired hordered hle
  | blocked =>
    unfold sendFlowcUpdate
    split_ifs
    · exact fresh_of_pending rfl
    · exact h
  | unsent hupdated =>
    cases hupdated with
    | unneeded _ eq =>
      subst eq
      exact h
    | noSpace _ _ pending => exact fresh_of_pending pending
  | sent hupdated => exact fresh_sent hupdated hrange
  | lost limit =>
    unfold frameLost
    split_ifs with hlast
    · exact fresh_of_pending rfl
    · -- The token with the last limit is another one.
      refine ⟨fun hpending => ?_, h.room⟩
      rcases h.known hpending with hknown | hknown | hknown
      · exact .inl hknown
      · exact .inr (.inl ((mem_erase_of_ne (Ne.symm hlast)).mpr hknown))
      · exact .inr (.inr hknown)
  | acked limit =>
    refine ⟨fun hpending => ?_, h.room⟩
    rcases h.known hpending with hknown | hknown | hknown
    · exact .inl hknown
    · by_cases hlast : s.fc.maxAllowed = limit
      · exact .inr (.inr (hlast ▸ mem_cons_self))
      · exact .inr (.inl ((mem_erase_of_ne hlast).mpr hknown))
    · exact .inr (.inr (mem_cons_of_mem _ hknown))

/-- `retired + maxActive` stays below 2^62 during a run. -/
def inRange (s : MaxData) : List Op → Bool
  | [] => s.fc.retired + s.fc.maxActive < 2 ^ 62
  | op :: ops =>
    s.fc.retired + s.fc.maxActive < 2 ^ 62 && (s.step op).all fun s' => s'.inRange ops

lemma lt_of_inRange (h : s.inRange ops = true) : s.fc.retired + s.fc.maxActive < 2 ^ 62 := by
  cases ops with
  | nil => exact of_decide_eq_true h
  | cons => exact of_decide_eq_true (Bool.and_eq_true_iff.mp h).1

lemma inRange_of_step {op : Op} (h : s.inRange (op :: ops) = true) (hstep : s.step op = some s') :
    s'.inRange ops = true := by
  have hall := (Bool.and_eq_true_iff.mp h).2
  rw [hstep] at hall
  exact hall

lemma Fresh.run (h : s.Fresh max) (hordered : s.Ordered max) (hrange : s.inRange ops = true)
    (hrun : s.run ops = some s') : s'.Fresh max := by
  induction ops generalizing s with
  | nil =>
    obtain rfl := Option.some.inj hrun
    exact h
  | cons op ops ih =>
    obtain ⟨s₁, hstep, hrun⟩ := Option.bind_eq_some_iff.mp hrun
    have hrange' := inRange_of_step hrange hstep
    exact ih (h.step hordered (step_cases hstep) (lt_of_inRange hrange'))
      (hordered.step (step_cases hstep)) hrange' hrun

/-- **No flow control stall.**  When no update is pending and every `MAX_DATA` token was
acknowledged or reported lost, the last limit is the initial one or in an acknowledged token, and
leaves room for all of the window but the fraction that may be used before an update is sent. -/
theorem no_stall (max : ℕ) (ops : List Op) (s : MaxData) (hrun : (new max).run ops = some s)
    (hrange : (new max).inRange ops = true) (hpending : s.fc.framePending = false)
    (houtstanding : s.outstanding = []) :
    (s.fc.maxAllowed = max ∨ s.fc.maxAllowed ∈ s.acknowledged) ∧
      s.fc.retired + (s.fc.maxActive - s.fc.maxActive / windowUpdateFraction) ≤
        s.fc.maxAllowed := by
  have hmax : max ≤ Encoder.maxVarint := by
    have hhere : 0 + max < 2 ^ 62 := lt_of_inRange hrange
    have hvarint : Encoder.maxVarint = 2 ^ 62 - 1 := rfl
    omega
  have hfresh := (fresh_new max).run (ordered_new hmax) hrange hrun
  refine ⟨?_, hfresh.room hpending⟩
  rcases hfresh.known hpending with h | h | h
  · exact .inl h
  · rw [houtstanding] at h
    cases h
  · exact .inr h

/-- An update that was lost is sent again with what was retired since. -/
theorem no_stall_after_loss :
    ((new 100).run [.consume 80, .addRetired 60, .writeFrames { limit := 50 } 3 10, .lost 160,
        .addRetired 10, .writeFrames { limit := 50 } 9 10, .acked 170]).map
      (fun s => (s.fc.maxAllowed, s.fc.retired, s.acknowledged)) = some (170, 70, [170]) ∧
    (170 = 100 ∨ 170 ∈ [170]) ∧ 70 + (100 - 100 / windowUpdateFraction) ≤ 170 :=
  ⟨by decide, no_stall 100 [.consume 80, .addRetired 60, .writeFrames { limit := 50 } 3 10,
    .lost 160,
    .addRetired 10, .writeFrames { limit := 50 } 9 10, .acked 170] _ rfl (by decide) rfl rfl⟩

end MaxData

/-!
## Both ends of a connection

`MAX_DATA` frames may be lost, late or repeated on their way to the peer.
-/

/-- The receiver of a connection's data, and the credit of the peer that sends it. -/
structure Link where
  receiver : MaxData
  sender : ConnFc

namespace Link

/-- An event at either end. -/
inductive Op where
  | receiver (op : MaxData.Op)
  /-- A `MAX_DATA` frame arrives. -/
  | update (limit : ℕ)
  | send (count : ℕ)

/-- One step. Only announced limits arrive, and the peer sends within its credit; anything else
changes nothing. -/
def step (l : Link) : Op → Link
  | .receiver op => (l.receiver.step op).elim l fun r => { l with receiver := r }
  | .update limit =>
    if limit ∈ l.receiver.announced then { l with sender := (l.sender.update limit).1 } else l
  | .send count =>
    if count ≤ l.sender.available then { l with sender := l.sender.consume count } else l

def run (max : ℕ) (ops : List Op) : Link :=
  ops.foldl step ⟨.new max, { subject := (), limit := max }⟩

/-- The peer keeps to a limit that was announced. -/
structure Keeps (l : Link) (max : ℕ) : Prop where
  ordered : l.receiver.Ordered max
  limit_mem : l.sender.limit ∈ l.receiver.announced
  used_le : l.sender.used ≤ l.sender.limit

lemma Keeps.step {l : Link} {max : ℕ} (h : l.Keeps max) (op : Op) : (l.step op).Keeps max := by
  cases op with
  | receiver op =>
    rw [Link.step]
    cases hr : l.receiver.step op with
    | none => exact h
    | some r =>
      have hcases := MaxData.step_cases hr
      refine ⟨h.ordered.step hcases, ?_, h.used_le⟩
      cases hcases with
      | sent => exact mem_cons_of_mem _ h.limit_mem
      | _ => exact h.limit_mem
  | update limit =>
    rw [Link.step]
    unfold SenderFlowControl.update
    split_ifs with hmem hgt
    · exact ⟨h.ordered, hmem, h.used_le.trans hgt.le⟩
    · exact h
    · exact h
  | send count =>
    rw [Link.step]
    split_ifs with hle
    · exact ⟨h.ordered, h.limit_mem, (Nat.le_sub_iff_add_le' h.used_le).mp hle⟩
    · exact h

lemma keeps_run {max : ℕ} (hmax : max ≤ Encoder.maxVarint) (ops : List Op) :
    (run max ops).Keeps max :=
  foldlRecOn (motive := (Keeps · max)) ops step
    ⟨MaxData.ordered_new hmax, mem_singleton_self max, Nat.zero_le _⟩ fun _ h op _ => h.step op

/-- **A peer that keeps to its credit is never refused**, in whatever order its data and the updates
arrive. -/
theorem consume_of_sent (max : ℕ) (hmax : max ≤ Encoder.maxVarint) (ops : List Op) (count : ℕ)
    (hsent : (run max ops).receiver.fc.consumed + count ≤ (run max ops).sender.used) :
    ∃ fc, (run max ops).receiver.fc.consume count = .ok fc := by
  obtain ⟨hordered, hmem, hused⟩ := keeps_run hmax ops
  have hlimit := hordered.le_maxAllowed _ hmem
  exact ⟨_, if_neg (not_lt.mpr (hsent.trans (hused.trans hlimit)))⟩

/-- The peer uses the credit of an update. -/
theorem consume_of_sent_update :
    ∃ fc, (run 8 [.send 8, .receiver (.consume 8), .receiver (.addRetired 8),
      .receiver (.writeFrames { limit := 50 } 3 10), .update 16, .send 8]).receiver.fc.consume 8 =
        .ok fc :=
  consume_of_sent 8 (by decide) _ 8 (by decide)

end Link

end Neqo
