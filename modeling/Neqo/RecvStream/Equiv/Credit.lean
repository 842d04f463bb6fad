import Neqo.RecvStream.Equiv.Basic

/-!
# Flow control credit of a receiving stream

Each state of a receiving stream says how much of what the stream has consumed it has retired
(`Balanced`): what the application has read, everything but the unread part of the reliable prefix
after a reset, or all of it once reading was abandoned. Every operation moves from such a state to
another one, moves the flow control of the stream and of the connection by the same amounts, and,
when it ends the stream, leaves it with its final size consumed and retired (`Outcome`).
-/

namespace Neqo

open RecvStreamState RxStreamOrderer RecvStream OrdMap

/-- What is stored, and not read yet, lies below a bound. -/
structure Stored (o : RxStreamOrderer) (n : ℕ) : Prop where
  wf : o.WF
  le : o.retired ≤ n
  lt : ∀ x, o.dataRanges.Covers x → x < n

/-- A stream from which the application reads: what was read is what was retired. -/
structure Buffered (fc : StreamFc) (o : RxStreamOrderer) : Prop extends
    Stored o fc.consumed where
  retired : fc.retired = o.retired

/-- A stream that was reset: all but the unread part of the reliable prefix was retired. -/
structure Prefixed (fc : StreamFc) (o : RxStreamOrderer) (reliableSize : ℕ) :
    Prop extends Stored o reliableSize where
  reliable_le : reliableSize ≤ fc.consumed
  unread : o.retired < reliableSize
  retired : fc.retired + (reliableSize - o.retired) = fc.consumed

namespace RecvStreamState

/-- **The invariant** of the flow control of a stream, whose final size is the second argument once
the peer has announced it. -/
inductive Balanced : RecvStreamState → Option ℕ → Prop
  | recv {fc : StreamFc} {o : RxStreamOrderer} (h : Buffered fc o) :
      Balanced (.recv fc o) none
  | sizeKnown {fc : StreamFc} {o : RxStreamOrderer} (h : Buffered fc o) :
      Balanced (.sizeKnown fc o) (some fc.consumed)
  | sizeKnownAt {fc : StreamFc} {o : RxStreamOrderer} {finalSize : ℕ}
      {reliableSize : ℕ} (err : ℕ) (h : Prefixed fc o reliableSize)
      (hsize : fc.consumed = finalSize) :
      Balanced (.sizeKnownAt fc o err finalSize reliableSize) (some finalSize)
  | dataRecvd {fc : StreamFc} {o : RxStreamOrderer} (h : Buffered fc o)
      (all : ∀ x, o.retired ≤ x → x < fc.consumed → o.dataRanges.Covers x) :
      Balanced (.dataRecvd fc o) (some fc.consumed)
  /-- The stream is no longer read: everything was retired. -/
  | abortReading {fc : StreamFc} {finalSize : Option ℕ}
      (finalSizeReached frameNeeded : Bool) (err finalReceived finalRead : ℕ)
      (h : fc.retired = fc.consumed) (hsize : finalSizeReached = true →
        finalSize = some fc.consumed) :
      Balanced (.abortReading fc finalSizeReached frameNeeded err finalReceived finalRead) finalSize
  | waitForReset {fc : StreamFc} (finalSize : Option ℕ)
      (finalReceived finalRead : ℕ) (h : fc.retired = fc.consumed) :
      Balanced (.waitForReset fc finalReceived finalRead) finalSize
  | dataRead (finalSize finalReceived finalRead : ℕ) :
      Balanced (.dataRead finalReceived finalRead) (some finalSize)
  | resetRecvd (finalSize finalReceived finalRead : ℕ) :
      Balanced (.resetRecvd finalReceived finalRead) (some finalSize)

/-- How much the stream has consumed: its final size once it has ended. -/
def consumed (s : RecvStreamState) (finalSize : Option ℕ) : ℕ :=
  match s.fc with
  | some fc => fc.consumed
  | none => finalSize.getD 0

/-- How much the stream has retired: its final size once it has ended. -/
def retired (s : RecvStreamState) (finalSize : Option ℕ) : ℕ :=
  match s.fc with
  | some fc => fc.retired
  | none => finalSize.getD 0

lemma Balanced.retired_le {s : RecvStreamState} {finalSize : Option ℕ} (h : s.Balanced finalSize)
    {fc : StreamFc} (hfc : s.fc = some fc) : fc.retired ≤ fc.consumed := by
  cases h <;> cases hfc
  case recv h | sizeKnown h | dataRecvd h _ => exact h.retired ▸ h.le
  case sizeKnownAt h _ => exact Nat.le.intro h.retired
  case abortReading h _ | waitForReset h => exact h.le

end RecvStreamState

/-- What an operation on a stream with flow control `fc` comes to, when it leaves the stream in the
state `s`. -/
structure Outcome (fc : StreamFc) (sessionFc sessionFc' : SessionFc)
    (s : RecvStreamState) (finalSize : Option ℕ) : Prop where
  consumed : sessionFc'.consumed + fc.consumed = sessionFc.consumed + s.consumed finalSize
  consumed_le : fc.consumed ≤ s.consumed finalSize
  retired : sessionFc'.retired + fc.retired = sessionFc.retired + s.retired finalSize
  retired_le : fc.retired ≤ s.retired finalSize
  le_max : fc.consumed ≤ fc.maxAllowed → ∀ fc', s.fc = some fc' → fc'.consumed ≤ fc'.maxAllowed
  session_le : sessionFc.consumed ≤ sessionFc.maxAllowed →
    sessionFc'.consumed ≤ sessionFc'.maxAllowed
  balanced : s.Balanced finalSize

namespace Outcome

variable {fc fc' : StreamFc}
  {sessionFc sessionFc' sessionFc'' : SessionFc} {s : RecvStreamState}
  {finalSize : Option ℕ}

lemma after_moves (hm : RecvStream.Moves fc fc' sessionFc sessionFc')
    (hconsumed : fc.consumed ≤ fc'.consumed) (hretired : fc.retired ≤ fc'.retired)
    (hmax : fc.consumed ≤ fc.maxAllowed → fc'.consumed ≤ fc'.maxAllowed)
    (hsession : sessionFc.consumed ≤ sessionFc.maxAllowed →
      sessionFc'.consumed ≤ sessionFc'.maxAllowed)
    (h : Outcome fc' sessionFc' sessionFc'' s finalSize) :
    Outcome fc sessionFc sessionFc'' s finalSize where
  consumed := by
    have h1 := hm.consumed
    have h2 := h.consumed
    omega
  consumed_le := hconsumed.trans h.consumed_le
  retired := by
    have h1 := hm.retired
    have h2 := h.retired
    omega
  retired_le := hretired.trans h.retired_le
  le_max hle := h.le_max (hmax hle)
  session_le hle := h.session_le (hsession hle)
  balanced := h.balanced

lemma after_charge {s₀ : RecvStreamState} {consumed : ℕ} {fin : Bool}
    (hc : s₀.Charged fc fc' sessionFc sessionFc' consumed fin) (hretired : fc.retired ≤ fc'.retired)
    (h : Outcome fc' sessionFc' sessionFc'' s finalSize) :
    Outcome fc sessionFc sessionFc'' s finalSize :=
  h.after_moves hc.moves hc.consumed_le hretired hc.le_max fun _ => hc.session_le_max

lemma after_retire {n : ℕ}
    (h : Outcome (flowControlRetireData n fc sessionFc).1 (flowControlRetireData n fc sessionFc).2
      sessionFc'' s finalSize) :
    Outcome fc sessionFc sessionFc'' s finalSize := by
  obtain ⟨hmoves, hretired, hconsumed⟩ := flowControlRetireData_spec n fc sessionFc
  have hsession := hmoves.consumed
  refine h.after_moves hmoves hconsumed.ge (Nat.le.intro hretired.symm) ?_ ?_
  · rw [hconsumed, hmoves.maxAllowed]
    exact id
  · rw [hmoves.sessionMaxAllowed]
    omega

lemma same (hfc : s.fc = some fc) (h : s.Balanced finalSize)
    (sessionFc : SessionFc) : Outcome fc sessionFc sessionFc s finalSize := by
  have hconsumed : s.consumed finalSize = fc.consumed := by rw [RecvStreamState.consumed, hfc]
  have hretired : s.retired finalSize = fc.retired := by rw [RecvStreamState.retired, hfc]
  refine ⟨by rw [hconsumed], hconsumed.ge, by rw [hretired], hretired.ge, ?_, id, h⟩
  intro hle fc' hfc'
  rwa [← Option.some.inj (hfc.symm.trans hfc')]

lemma retire {n : ℕ} (hfc : s.fc = some (flowControlRetireData n fc sessionFc).1)
    (h : s.Balanced finalSize) :
    Outcome fc sessionFc (flowControlRetireData n fc sessionFc).2 s finalSize :=
  after_retire (same hfc h _)

lemma ended {finalSize : ℕ} (hfc : s.fc = none) (h : s.Balanced (some finalSize))
    (hconsumed : fc.consumed = finalSize) (hretired : fc.retired = finalSize) :
    Outcome fc sessionFc sessionFc s (some finalSize) := by
  have hconsumed' : s.consumed (some finalSize) = finalSize := by
    rw [RecvStreamState.consumed, hfc]
    rfl
  have hretired' : s.retired (some finalSize) = finalSize := by
    rw [RecvStreamState.retired, hfc]
    rfl
  refine ⟨by rw [hconsumed', hconsumed], (hconsumed.trans hconsumed'.symm).le,
    by rw [hretired', hretired], (hretired.trans hretired'.symm).le, ?_, id, h⟩
  intro _ fc' hfc'
  exact nomatch hfc.symm.trans hfc'

/-- A step that retires `n` bytes, up to the final size, and ends the stream. -/
lemma finish {n finalSize : ℕ} (hfc : s.fc = none) (h : s.Balanced (some finalSize))
    (hconsumed : fc.consumed = finalSize) (hretired : fc.retired + n = finalSize) :
    Outcome fc sessionFc (flowControlRetireData n fc sessionFc).2 s (some finalSize) := by
  obtain ⟨-, hretired', hconsumed'⟩ := flowControlRetireData_spec n fc sessionFc
  exact after_retire (ended hfc h (hconsumed'.trans hconsumed) (hretired'.trans hretired))

end Outcome

/-! ### Frames -/

variable {fc fc' : StreamFc} {o : RxStreamOrderer} {offset reliableSize n : ℕ}

lemma Stored.inboundFrame (h : Stored o n) {m : ℕ} (hle : n ≤ m) {data : Bytes}
    (hend : offset + data.length ≤ m) : Stored (o.inboundFrame offset data).1 m := by
  have hspec := inboundFrame_spec h.wf offset data
  refine ⟨hspec.wf, hspec.retired ▸ h.le.trans hle, fun x hx => ?_⟩
  rcases (hspec.covers x).mp hx with hx | ⟨_, _, hx⟩
  · exact (h.lt x hx).trans_le hle
  · omega

lemma Buffered.inboundFrame (h : Buffered fc o) {data : Bytes}
    (hconsumed : fc'.consumed = max fc.consumed (offset + data.length))
    (hretired : fc'.retired = fc.retired) : Buffered fc' (o.inboundFrame offset data).1 where
  toStored := h.toStored.inboundFrame (hconsumed ▸ le_max_left _ _) (hconsumed ▸ le_max_right _ _)
  retired := (hretired.trans h.retired).trans (inboundFrame_spec h.wf offset data).retired.symm

lemma Prefixed.inboundFrame (h : Prefixed fc o reliableSize) (data : Bytes)
    (hlt : offset < reliableSize) :
    Prefixed fc (o.inboundFrame offset (data.take (reliableSize - offset))).1 reliableSize := by
  have hread := (inboundFrame_spec h.wf offset (data.take (reliableSize - offset))).retired
  refine ⟨h.toStored.inboundFrame le_rfl ?_, h.reliable_le, hread ▸ h.unread, hread ▸ h.retired⟩
  rw [List.length_take]
  omega

lemma Prefixed.of_eq (h : Prefixed fc o reliableSize) (hconsumed : fc'.consumed = fc.consumed)
    (hretired : fc'.retired = fc.retired) : Prefixed fc' o reliableSize :=
  ⟨h.toStored, hconsumed ▸ h.reliable_le, h.unread, by rw [hconsumed, hretired]; exact h.retired⟩

lemma RecvStreamState.Charged.drained {s : RecvStreamState}
    {sessionFc sessionFc' : SessionFc} {consumed : ℕ} {fin : Bool}
    (hc : s.Charged fc fc' sessionFc sessionFc' consumed fin) (hretire : s.retireData = true)
    (h : fc.retired = fc.consumed) : fc'.retired = fc'.consumed := by
  have hle := hc.consumed_le
  have hretired := hc.retired
  rw [if_pos hretire] at hretired
  omega

namespace RecvStreamState

lemma Balanced.withFinalSize {fc : StreamFc} {o : RxStreamOrderer}
    (h : Buffered fc o) : (RecvStreamState.withFinalSize fc o).Balanced (some fc.consumed) := by
  unfold RecvStreamState.withFinalSize
  split_ifs with hall
  · refine .dataRecvd h fun x h1 h2 => (bytesReady_spec h.wf).1 x h1 ?_
    omega
  · exact .sizeKnown h

variable {s : RecvStreamState} {known : Option ℕ} {fc fc' : StreamFc}
  {sessionFc sessionFc' : SessionFc} {fin : Bool} {offset : ℕ} {data : Bytes}

lemma Balanced.receiveData (h : s.Balanced known) (hfc : s.fc = some fc)
    (hc : Charged s fc fc' sessionFc sessionFc' (offset + data.length) fin)
    (hok : (((s.noteFin fin).setFc fc').receiveData fin offset data).2 = .ok ()) :
    (((s.noteFin fin).setFc fc').receiveData fin offset data).1.Balanced
      (if fin then some (offset + data.length) else known) := by
  have hfin : fin = true → fc'.consumed = offset + data.length := by
    rintro rfl
    exact hc.consumed_of_fin
  have hknown : ∀ n, s.finalSizeReached = true → n = fc.consumed →
      (if fin then some (offset + data.length) else some n) = some fc'.consumed := by
    intro n hreached hn
    split_ifs with h1
    · rw [hfin h1]
    · rw [hc.consumed_eq hreached, hn]
  cases h <;> cases hfc
  case recv o h =>
    have hnew := h.inboundFrame hc.consumed hc.retired
    dsimp only [noteFin, setFc, receiveData] at hok ⊢
    generalize o.inboundFrame offset data = r at hnew hok ⊢
    obtain ⟨o', _ | _⟩ := r
    · cases hok
    · dsimp only
      split_ifs with h1
      · rw [← hfin h1]
        exact .withFinalSize hnew
      · exact .recv hnew
  case sizeKnown o h =>
    have hnew := h.inboundFrame hc.consumed hc.retired
    rw [hknown _ rfl rfl]
    dsimp only [noteFin, setFc, receiveData] at hok ⊢
    generalize o.inboundFrame offset data = r at hnew hok ⊢
    obtain ⟨o', _ | _⟩ := r
    · cases hok
    · exact .withFinalSize hnew
  case sizeKnownAt err h hsize =>
    have h' := h.of_eq (hc.consumed_eq rfl) hc.retired
    have hsize' := (hc.consumed_eq rfl).trans hsize
    rw [hknown _ rfl hsize.symm, hsize']
    dsimp only [noteFin, setFc, receiveData]
    split_ifs with hkeep
    · exact .sizeKnownAt err (h'.inboundFrame data (by omega)) hsize'
    · exact .sizeKnownAt err h' hsize'
  case dataRecvd h all =>
    have heq := hc.consumed_eq rfl
    rw [hknown _ rfl rfl]
    exact .dataRecvd ⟨heq ▸ h.toStored, hc.retired.trans h.retired⟩ (heq ▸ all)
  case abortReading h hsize =>
    refine .abortReading _ _ _ _ _ (hc.drained rfl h) fun hreached => ?_
    rcases Bool.or_eq_true_iff.mp hreached with h1 | h1
    · rw [hsize h1]
      exact hknown _ h1 rfl
    · rw [if_pos h1, hfin h1]
  case waitForReset h => exact .waitForReset _ _ _ (hc.drained rfl h)

end RecvStreamState

namespace RecvStream

variable {s : RecvStream} {known : Option ℕ} {fc : StreamFc}
  {sessionFc : SessionFc}

lemma inboundStreamFrame_outcome (h : s.state.Balanced known) (hfc : s.state.fc = some fc)
    {fin : Bool} {offset : ℕ} {data : Bytes}
    (hok : (s.inboundStreamFrame sessionFc fin offset data).2.2 = .ok ()) :
    Outcome fc sessionFc (s.inboundStreamFrame sessionFc fin offset data).2.1
      (s.inboundStreamFrame sessionFc fin offset data).1.state
      (if fin then some (offset + data.length) else known) := by
  obtain ⟨fc', sessionFc', r, heq, -, -, -, hretired, hcharged⟩ :=
    flowControlConsumeData_spec hfc sessionFc (offset + data.length) fin
  unfold inboundStreamFrame at hok ⊢
  dsimp only at hok ⊢
  rw [heq] at hok ⊢
  cases r with
  | error => cases hok
  | ok =>
    refine Outcome.after_charge (hcharged rfl) hretired
      (Outcome.same ?_ (h.receiveData hfc (hcharged rfl) hok) _)
    rw [receiveData_fc]
    exact setFc_fc ((noteFin_fc _ fin).trans hfc) fc'

/-! ### Resets -/

variable {finalSize reliableSize err : ℕ}

/-- All that will never be delivered is retired; if nothing is left to deliver, the stream ends. -/
lemma settleReset_outcome (s : RecvStream) {o : RxStreamOrderer} (hwf : o.WF) (err : ℕ)
    (hconsumed : fc.consumed = finalSize) (hle : reliableSize ≤ finalSize)
    (hretired : fc.retired ≤ finalSize - (reliableSize - o.retired)) :
    Outcome fc sessionFc (s.settleReset sessionFc fc o err finalSize reliableSize).2.1
      (s.settleReset sessionFc fc o err finalSize reliableSize).1.state (some finalSize) := by
  unfold settleReset retireUndeliverable completeReliableResetIfDrained
  dsimp only
  rw [discardAfter_retired]
  obtain ⟨-, hretired', hconsumed'⟩ := flowControlRetireData_spec
    (finalSize - (reliableSize - o.retired) - fc.retired) fc sessionFc
  split_ifs with hlt
  · obtain ⟨hwf', hcovers⟩ := discardAfter_spec hwf hlt
    have hread := discardAfter_retired o reliableSize
    exact Outcome.retire rfl (.sizeKnownAt err ⟨⟨hwf', by omega, hcovers⟩, by omega, by omega,
      by omega⟩ (by omega))
  · exact Outcome.after_retire (Outcome.finish rfl (.resetRecvd _ _ _) (by omega) (by omega))

lemma applyReset_outcome {state : RecvStreamState} {fc' : StreamFc}
    {sessionFc' : SessionFc} {ended : Bool} (h : state.Balanced known)
    (hfc : state.fc = some fc) (hs : s.state = (state.noteFin true).setFc fc')
    (hc : state.Charged fc fc' sessionFc sessionFc' finalSize true) (hle : reliableSize ≤ finalSize)
    (hok : (s.applyReset sessionFc' err finalSize reliableSize).2.2 = .ok ended) :
    Outcome fc' sessionFc' (s.applyReset sessionFc' err finalSize reliableSize).2.1
      (s.applyReset sessionFc' err finalSize reliableSize).1.state (some finalSize) := by
  have hconsumed := hc.consumed_of_fin
  unfold applyReset at hok ⊢
  cases h <;> cases hfc <;> simp only [hs, noteFin, setFc, finishReset] at hok ⊢
  case recv h | sizeKnown h =>
    have h1 : fc'.retired = fc.retired := hc.retired
    have h2 := h.retired
    have h3 := h.le
    have h4 := hc.consumed_le
    exact settleReset_outcome s h.wf err hconsumed hle (by omega)
  case sizeKnownAt o n stored err' h hsize =>
    have hretired : fc'.retired = fc.retired := hc.retired
    have heq := hc.consumed_eq rfl
    obtain rfl : n = finalSize := by omega
    split_ifs at hok ⊢ with herr hlt
    · have h1 := h.retired
      exact settleReset_outcome s h.wf err' hconsumed hle (by omega)
    · rw [hs]
      exact Outcome.same rfl (.sizeKnownAt err' (h.of_eq heq hretired) hconsumed) _
  case dataRecvd h all =>
    have heq := hc.consumed_eq rfl
    refine Outcome.same rfl ?_ _
    rw [← hconsumed]
    exact .dataRecvd ⟨heq ▸ h.toStored, hc.retired.trans h.retired⟩ (heq ▸ all)
  case abortReading h _ | waitForReset h =>
    have h1 := hc.drained rfl h
    exact Outcome.finish rfl (.resetRecvd _ _ _) hconsumed (by omega)

lemma reset_outcome {ended : Bool} (h : s.state.Balanced known) (hfc : s.state.fc = some fc)
    (hok : (s.reset sessionFc err finalSize reliableSize).2.2 = .ok ended) :
    Outcome fc sessionFc (s.reset sessionFc err finalSize reliableSize).2.1
      (s.reset sessionFc err finalSize reliableSize).1.state (some finalSize) := by
  unfold reset at hok ⊢
  split_ifs at hok ⊢ with hgt
  obtain ⟨fc', sessionFc', r, heq, -, -, -, hretired, hcharged⟩ :=
    flowControlConsumeData_spec hfc sessionFc finalSize true
  rw [heq] at hok ⊢
  cases r with
  | error => cases hok
  | ok =>
    exact Outcome.after_charge (hcharged rfl) hretired
      (applyReset_outcome h hfc rfl (hcharged rfl) (Nat.le_of_not_lt hgt) hok)

end RecvStream

/-! ### Reading -/

lemma Stored.read_le (h : Stored o n) (bufLen : ℕ) : o.retired + (o.read bufLen).2.length ≤ n := by
  have hspec := read_spec h.wf bufLen
  have hle := h.le
  by_cases hzero : (o.read bufLen).2.length = 0
  · omega
  · have hlast : (o.read bufLen).2.length - 1 < (o.read bufLen).2.length := by omega
    have hholds := hspec.bytes _ _ (List.getElem?_eq_getElem hlast)
    have := h.lt _ hholds.covers
    omega

lemma Stored.read (h : Stored o n) (bufLen : ℕ) : Stored (o.read bufLen).1 n := by
  have hspec := read_spec h.wf bufLen
  refine ⟨hspec.wf, hspec.retired.trans_le (h.read_le bufLen), ?_⟩
  rintro x ⟨k, v, hm, hx⟩
  exact h.lt x ⟨k, v, hspec.subset k v hm, hx⟩

namespace RecvStream

variable {s : RecvStream} {known : Option ℕ} {fc : StreamFc}
  {sessionFc : SessionFc}

lemma read_outcome {bufLen : ℕ} {r : Bytes × Bool} (h : s.state.Balanced known)
    (hfc : s.state.fc = some fc) (hok : (s.read sessionFc bufLen).2.2 = .ok r) :
    Outcome fc sessionFc (s.read sessionFc bufLen).2.1 (s.read sessionFc bufLen).1.state known := by
  unfold read at hok ⊢
  generalize s.state = state at h hfc hok
  have hspec := fun o : RxStreamOrderer =>
    flowControlRetireData_spec (o.read bufLen).2.length fc sessionFc
  -- Reading moves what was retired as it moves the buffer.
  have hread : ∀ {o}, Buffered fc o →
      Buffered (flowControlRetireData (o.read bufLen).2.length fc sessionFc).1
      (o.read bufLen).1 := by
    intro o h
    obtain ⟨-, hretired, hconsumed⟩ := hspec o
    refine ⟨hconsumed ▸ h.toStored.read bufLen, ?_⟩
    rw [hretired, h.retired, (read_spec h.wf bufLen).retired]
  cases h <;> cases hfc
  case recv h => exact Outcome.retire rfl (.recv (hread h))
  case sizeKnown o h =>
    rw [← (hspec o).2.2]
    exact Outcome.retire rfl (.sizeKnown (hread h))
  case sizeKnownAt o n reliableSize err h hsize =>
    obtain ⟨-, hretired, hconsumed⟩ := hspec o
    have hmoved := (read_spec h.wf bufLen).retired
    have hold := h.retired
    have hle := h.toStored.read_le bufLen
    have hreliable := h.reliable_le
    dsimp only [completeReliableResetIfDrained]
    split_ifs with hlt
    · exact Outcome.retire rfl (.sizeKnownAt err ⟨h.toStored.read bufLen, by omega, hlt, by omega⟩
        (hconsumed.trans hsize))
    · -- The prefix has been read to its end.
      exact Outcome.after_retire (Outcome.finish rfl (.resetRecvd _ _ _) (hconsumed.trans hsize)
        (by omega))
  case dataRecvd o h all =>
    obtain ⟨-, hretired, hconsumed⟩ := hspec o
    have hspec' := read_spec h.wf bufLen
    have hmoved := hspec'.retired
    have hall : ∀ x, (o.read bufLen).1.retired ≤ x → x < fc.consumed →
        (o.read bufLen).1.dataRanges.Covers x := by
      intro x h1 h2
      rw [hspec'.covers x h1]
      exact all x (by omega) h2
    dsimp only
    split_ifs with hzero
    · -- Nothing is left, so everything has been read.
      have hend : fc.consumed ≤ (o.read bufLen).1.retired := by
        by_contra hlt
        exact not_covers_of_buffered_eq_zero hspec'.wf hzero _ (hall _ le_rfl (by omega))
      have hle := h.toStored.read_le bufLen
      have hold := h.retired
      exact Outcome.finish rfl (.dataRead _ _ _) rfl (by omega)
    · rw [← hconsumed] at hall ⊢
      exact Outcome.retire rfl (.dataRecvd (hread h) hall)
  case abortReading | waitForReset => cases hok

/-! ### Abandoning -/

lemma abort_outcome (s : RecvStream) {o : RxStreamOrderer} (h : Buffered fc o) (err : ℕ)
    (hsize : s.state.finalSizeReached = true → known = some fc.consumed) :
    Outcome fc sessionFc (s.abort sessionFc fc o err).2 (s.abort sessionFc fc o err).1.state
      known := by
  obtain ⟨-, hretired, hconsumed⟩ :=
    flowControlRetireData_spec (fc.consumed - fc.retired) fc sessionFc
  have h1 := h.retired
  have h2 := h.le
  unfold abort
  refine Outcome.retire rfl (.abortReading _ _ _ _ _ (by omega) ?_)
  rw [hconsumed]
  exact hsize

lemma stopSending_outcome (h : s.state.Balanced known) (hfc : s.state.fc = some fc) (err : ℕ) :
    Outcome fc sessionFc (s.stopSending sessionFc err).2.1 (s.stopSending sessionFc err).1.state
      known := by
  unfold stopSending
  generalize hs : s.state = state at h hfc
  have hsame := Outcome.same hfc h sessionFc
  have hle := h.retired_le hfc
  cases h <;> cases hfc
  case recv h =>
    apply abort_outcome s h err
    rw [hs]
    exact nofun
  case sizeKnown h => exact abort_outcome s h err fun _ => rfl
  case sizeKnownAt h hsize =>
    dsimp only [finishReset]
    rw [hs]
    exact Outcome.finish rfl (.resetRecvd _ _ _) hsize (by omega)
  case dataRecvd h all => exact Outcome.finish rfl (.dataRead _ _ _) rfl (Nat.add_sub_cancel' hle)
  case abortReading | waitForReset =>
    rw [hs]
    exact hsame

lemma stopSendingAcked_outcome (h : s.state.Balanced known) (hfc : s.state.fc = some fc)
    (sessionFc : SessionFc) :
    Outcome fc sessionFc sessionFc s.stopSendingAcked.1.state known := by
  unfold stopSendingAcked
  generalize hs : s.state = state at h hfc
  have hsame := Outcome.same hfc h sessionFc
  cases h <;> cases hfc
  case abortReading h hsize =>
    dsimp only
    split_ifs with hreached
    · rw [hsize hreached]
      exact Outcome.ended rfl (.resetRecvd _ _ _) rfl h
    · exact Outcome.same rfl (.waitForReset _ _ _ h) _
  all_goals
    rw [hs]
    exact hsame

end RecvStream

end Neqo
