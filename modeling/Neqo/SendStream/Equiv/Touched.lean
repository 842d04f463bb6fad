import Neqo.SendStream.Basic
import Neqo.SendStream.Equiv.TxBuffer

/-!
# Operations that leave a stream in its state

Most operations leave a stream in the state in which it is: they change its flow control without
using or taking back credit, its buffer, whether FIN or a reset has to be sent again, and no more.
`State.Touched` says so, and what follows for the flow control, for the end of the stream and for
what is reliable.
-/

namespace Neqo

open Option

/-- No credit is used or taken back. -/
def SenderFlowControl.Keeps {T : Type} (fc fc' : SenderFlowControl T) : Prop :=
  fc'.used = fc.used ∧ fc.limit ≤ fc'.limit

lemma SenderFlowControl.keeps_ite_blocked {T : Type} (fc : SenderFlowControl T) (p : Prop)
    [Decidable p] : fc.Keeps (if p then fc.blocked else fc) := by
  split_ifs
  · exact ⟨fc.blocked_credit.1, fc.blocked_credit.2.ge⟩
  · exact ⟨rfl, le_rfl⟩

namespace SendStream

/-- The stream stays in its state, and its buffer changes as given. -/
inductive State.Touched (buf : TxBuffer → TxBuffer → Prop) : State → State → Prop
  | ready {fc fc' : SenderFlowControl StreamId} (hfc : fc.Keeps fc') :
    Touched buf (.ready fc) (.ready fc')
  | send {fc fc' : SenderFlowControl StreamId} {b b' : TxBuffer} {committed : ℕ}
      (hfc : fc.Keeps fc')
    (hb : buf b b') : Touched buf (.send fc b committed) (.send fc' b' committed)
  | dataSent {b b' : TxBuffer} {finSent finSent' finAcked : Bool} {committed : ℕ} (hb : buf b b') :
    Touched buf (.dataSent b finSent finAcked committed) (.dataSent b' finSent' finAcked committed)
  | dataRecvd {retired written : ℕ} :
    Touched buf (.dataRecvd retired written) (.dataRecvd retired written)
  | resetSent {err finalSize reliableSize finalRetired finalWritten : ℕ}
    {priority priority' : Option TransmissionPriority} :
    Touched buf (.resetSent err finalSize reliableSize priority finalRetired finalWritten)
      (.resetSent err finalSize reliableSize priority' finalRetired finalWritten)
  | resetSentReliable {b b' : TxBuffer} {err finalSize reliableSize : ℕ}
    {priority priority' : Option TransmissionPriority} {resetAcked : Bool} (hb : buf b b') :
    Touched buf (.resetSentReliable b err finalSize reliableSize priority resetAcked)
      (.resetSentReliable b' err finalSize reliableSize priority' resetAcked)
  | resetRecvd {finalRetired finalWritten : ℕ} :
    Touched buf (.resetRecvd finalRetired finalWritten) (.resetRecvd finalRetired finalWritten)

namespace State.Touched

variable {buf buf' : TxBuffer → TxBuffer → Prop} {state state' state'' : State}

lemma of_eq [Std.Refl buf] (h : state' = state) : state.Touched buf state' := by
  subst h
  have hfc : ∀ fc : SenderFlowControl StreamId, fc.Keeps fc := fun _ => ⟨rfl, le_rfl⟩
  cases state' with
  | ready fc => exact .ready (hfc fc)
  | send fc b => exact .send (hfc fc) (Std.Refl.refl b)
  | dataSent b => exact .dataSent (Std.Refl.refl b)
  | dataRecvd => exact .dataRecvd
  | resetSent => exact .resetSent
  | resetSentReliable b => exact .resetSentReliable (Std.Refl.refl b)
  | resetRecvd => exact .resetRecvd

lemma comp {buf'' : TxBuffer → TxBuffer → Prop} (h : state.Touched buf state')
    (h' : state'.Touched buf' state'') (hbuf : ∀ b b' b'', buf b b' → buf' b' b'' → buf'' b b'') :
    state.Touched buf'' state'' := by
  cases h <;> cases h'
  case ready hfc _ hfc' => exact .ready ⟨hfc'.1.trans hfc.1, hfc.2.trans hfc'.2⟩
  case send hfc hb _ _ hfc' hb' =>
    exact .send ⟨hfc'.1.trans hfc.1, hfc.2.trans hfc'.2⟩ (hbuf _ _ _ hb hb')
  case dataSent hb _ _ hb' => exact .dataSent (hbuf _ _ _ hb hb')
  case dataRecvd => exact .dataRecvd
  case resetSent => exact .resetSent
  case resetSentReliable hb _ _ hb' => exact .resetSentReliable (hbuf _ _ _ hb hb')
  case resetRecvd => exact .resetRecvd

lemma mono (h : state.Touched buf state') (hbuf : ∀ b b', buf b b' → buf' b b') :
    state.Touched buf' state' := by
  have hself : state'.Touched Eq state' := of_eq rfl
  refine h.comp hself ?_
  rintro b b' _ hb rfl
  exact hbuf b b' hb

lemma trans [IsTrans TxBuffer buf] (h : state.Touched buf state')
    (h' : state'.Touched buf state'') : state.Touched buf state'' :=
  h.comp h' IsTrans.trans

lemma fc? (h : state.Touched buf state') {fc' : SenderFlowControl StreamId}
    (hfc' : state'.fc? = some fc') : ∃ fc, state.fc? = some fc ∧ fc.Keeps fc' := by
  cases h <;> cases hfc'
  case ready hfc | send _ hfc => exact ⟨_, rfl, hfc⟩

lemma txBuf (h : state.Touched buf state') {b' : TxBuffer} (hb' : state'.txBuf = some b') :
    ∃ b, state.txBuf = some b ∧ buf b b' := by
  cases h <;> cases hb' <;> exact ⟨_, rfl, ‹_›⟩

lemma txBuf_eq (h : state.Touched Eq state') : state'.txBuf = state.txBuf := by
  cases h <;> subst_vars <;> rfl

lemma reliableSize? (h : state.Touched buf state') :
    state'.reliableSize? = state.reliableSize? := by
  cases h <;> rfl

lemma isEnded {s s' : SendStream} (h : s.state.Touched buf s'.state) : s'.isEnded = s.isEnded := by
  unfold SendStream.isEnded
  generalize s.state = state at h
  generalize s'.state = state' at h
  cases h <;> rfl

end State.Touched

variable (s : SendStream) (connFc : ConnFc)

/-! ### Flow control -/

lemma sendBlockedIfSpaceNeeded_touched (neededSpace : ℕ) :
    s.state.Touched Eq (s.sendBlockedIfSpaceNeeded connFc neededSpace).1.state := by
  unfold sendBlockedIfSpaceNeeded
  cases h : s.state with
  | ready fc => exact .ready (fc.keeps_ite_blocked _)
  | send fc => exact .send (fc.keeps_ite_blocked _) rfl
  | _ => exact .of_eq h

lemma setMaxStreamData_touched (limit : ℕ) :
    s.state.Touched Eq (s.setMaxStreamData limit).state := by
  unfold setMaxStreamData
  cases h : s.state with
  | ready fc => exact .ready (fc.update_credit limit)
  | send fc => exact .send (fc.update_credit limit) rfl
  | _ => exact .of_eq h

lemma blockedLost_touched (limit : ℕ) : s.state.Touched Eq (s.blockedLost limit).state := by
  have hlost (fc : SenderFlowControl StreamId) : fc.Keeps (fc.frameLost limit) :=
    ⟨(fc.frameLost_credit limit).1, (fc.frameLost_credit limit).2.ge⟩
  unfold blockedLost
  cases h : s.state with
  | ready fc => exact .ready (hlost fc)
  | send fc => exact .send (hlost fc) rfl
  | _ => exact .of_eq h

variable (p : TransmissionPriority)

lemma writeBlockedFrame_touched (b : Builder) (tokens : Tokens) :
    s.state.Touched Eq (s.writeBlockedFrame p b tokens).1.state := by
  have hwrite (fc : SenderFlowControl StreamId) : fc.Keeps (fc.writeStreamFrames b tokens).1 := by
    obtain ⟨hused, hlimit⟩ := fc.writeBlocked_credit .streamDataBlocked [fc.subject.asU64]
      (.streamDataBlocked fc.subject) b tokens
    exact ⟨hused, hlimit.ge⟩
  unfold writeBlockedFrame
  split_ifs
  · exact .of_eq rfl
  · cases h : s.state with
    | ready fc => exact .ready (hwrite fc)
    | send fc => exact .send (hwrite fc) rfl
    | _ => exact .of_eq h

/-! ### Resets -/

lemma resetLost_touched : s.state.Touched Eq s.resetLost.state := by
  unfold resetLost
  cases h : s.state with
  | resetSent => exact .resetSent
  | resetSentReliable => exact .resetSentReliable rfl
  | _ => exact .of_eq h

lemma writeResetFrame_touched (b : Builder) (tokens : Tokens) :
    s.state.Touched Eq (s.writeResetFrame p b tokens).1.state := by
  unfold writeResetFrame
  cases h : s.state with
  | resetSent =>
    dsimp only
    split_ifs
    · exact .of_eq h
    · exact .resetSent
    · exact .of_eq h
  | resetSentReliable =>
    dsimp only
    split_ifs
    · exact .of_eq h
    · exact .resetSentReliable rfl
    · exact .of_eq h
  | _ => exact .of_eq h

/-! ### Data -/

/-- The buffer is the same, or what the function makes of it. -/
def Perhaps (f : TxBuffer → TxBuffer) (b b' : TxBuffer) : Prop := b' = b ∨ b' = f b

instance (f : TxBuffer → TxBuffer) : Std.Refl (Perhaps f) := ⟨fun _ => .inl rfl⟩

lemma nextBytes_touched (retransmissionOnly : Bool) (split : ℕ) :
    s.state.Touched (Perhaps fun b => (b.nextBytes split).1)
      (s.nextBytes retransmissionOnly split).1.state := by
  unfold nextBytes
  cases h : s.state with
  | send =>
    dsimp only
    split
    · exact .send ⟨rfl, le_rfl⟩ (.inr rfl)
    · split_ifs <;> exact .send ⟨rfl, le_rfl⟩ (.inr rfl)
  | dataSent =>
    dsimp only
    split <;> exact .dataSent (.inr rfl)
  | resetSentReliable =>
    dsimp only
    split
    · exact .resetSentReliable (.inr rfl)
    · split_ifs <;> exact .resetSentReliable (.inr rfl)
  | _ => exact .of_eq h

lemma nextStreamFrame_touched (split remaining : ℕ) :
    s.state.Touched (Perhaps fun b => (b.nextBytes split).1)
      (s.nextStreamFrame p split remaining).1.state := by
  unfold nextStreamFrame
  split_ifs
  · exact .of_eq rfl
  · have hnext := nextBytes_touched s (decide (p ≠ s.priority)) split
    dsimp only
    split
    · exact hnext
    · split_ifs <;> exact hnext

lemma markAsSent_touched (offset len : ℕ) (fin : Bool) :
    s.state.Touched (fun b b' => b' = b.markAsSent offset len)
      (s.markAsSent connFc offset len fin).1.state := by
  unfold markAsSent
  cases h : s.state with
  | ready => exact .ready ⟨rfl, le_rfl⟩
  | send fc => exact .send (fc.keeps_ite_blocked _) rfl
  | dataSent =>
    dsimp only [State.txBuf, State.mapTxBuf]
    split_ifs <;> exact .dataSent rfl
  | dataRecvd => exact .dataRecvd
  | resetSent => exact .resetSent
  | resetSentReliable => exact .resetSentReliable rfl
  | resetRecvd => exact .resetRecvd

lemma markAsLost_touched (offset len : ℕ) (fin : Bool) :
    s.state.Touched (fun b b' => b' = b.markAsLost offset len)
    (s.markAsLost offset len fin).state := by
  unfold markAsLost
  cases h : s.state with
  | ready => exact .ready ⟨rfl, le_rfl⟩
  | send => exact .send ⟨rfl, le_rfl⟩ rfl
  | dataSent =>
    split_ifs <;> exact .dataSent rfl
  | dataRecvd => exact .dataRecvd
  | resetSent => exact .resetSent
  | resetSentReliable => exact .resetSentReliable rfl
  | resetRecvd => exact .resetRecvd

/-- The same bytes are retired. -/
def Retains (b b' : TxBuffer) : Prop := b'.retired = b.retired

instance : IsTrans TxBuffer Retains := ⟨fun _ _ _ h h' => Eq.trans h' h⟩

lemma retains_of_eq (b b' : TxBuffer) (h : b = b') : Retains b b' :=
  congrArg TxBuffer.retired h.symm

lemma writeStreamFrame_touched (split : ℕ) (b : Builder) (tokens : Tokens) :
    s.state.Touched Retains (s.writeStreamFrame connFc p split b tokens).1.state := by
  have hnext : s.state.Touched Retains (s.nextStreamFrame p split b.remaining).1.state := by
    apply (nextStreamFrame_touched s p split b.remaining).mono
    rintro b _ (rfl | rfl)
    · rfl
    · exact b.nextBytes_retired split
  unfold writeStreamFrame
  dsimp only
  split
  · exact hnext
  · exact hnext.trans ((markAsSent_touched _ _ _ _ _).mono fun b _ hb =>
      hb ▸ RangeTracker.markSent_acked b.ranges _ _)

lemma writeResetFrame_tokens (s : SendStream) (p : TransmissionPriority) (b : Builder)
    (tokens : Tokens) :
    (s.writeResetFrame p b tokens).2.2.1 =
      tokens ++ ((s.dueReset p).filter fun f => (f.write b).2).toList.map
        fun _ => .resetStream s.streamId := by
  have hwrite (err finalSize reliableSize : ℕ) :
    writeResetFrame.writeFrame s b err finalSize reliableSize =
      ResetFrame.write ⟨s.streamId, err, finalSize, reliableSize⟩ b := rfl
  unfold writeResetFrame dueReset
  cases hs : s.state with
  | resetSent | resetSentReliable =>
    dsimp only
    split_ifs with hp hw
    · exact (List.append_nil _).symm
    · rw [hwrite] at hw
      rw [filter_some, if_pos hw]
      rfl
    · rw [hwrite] at hw
      rw [filter_some, if_neg hw]
      exact (List.append_nil _).symm
  | _ => exact (List.append_nil _).symm

lemma writeBlockedFrame_forall {P : StreamRecoveryToken → Prop}
    (hP : ∀ id limit, P (.streamDataBlocked id limit)) {tokens : Tokens}
    (h : ∀ token ∈ tokens, P token) (s : SendStream) (p : TransmissionPriority) (b : Builder) :
    ∀ token ∈ (s.writeBlockedFrame p b tokens).2.2, P token := by
  have hwrite (fc : SenderFlowControl StreamId) :
      ∀ token ∈ (fc.writeStreamFrames b tokens).2.2, P token := by
    unfold SenderFlowControl.writeStreamFrames SenderFlowControl.writeBlocked
    cases fc.blockedNeeded with
    | none => exact h
    | some =>
      dsimp only
      split_ifs
      · exact List.forall_mem_append.mpr ⟨h, List.forall_mem_singleton.mpr (hP _ _)⟩
      · exact h
  unfold writeBlockedFrame
  split_ifs
  · exact h
  · cases s.state with
    | ready fc | send fc => exact hwrite fc
    | _ => exact h

/-- A token of a frame other than `STREAM`. -/
def DueToken (p : TransmissionPriority) : StreamRecoveryToken → Prop
  | .resetStream _ => (s.dueReset p).isSome
  | .streamDataBlocked _ _ => True
  | _ => False

/-- What is written before a `STREAM` frame. -/
structure Prepared (p : TransmissionPriority) (s' : SendStream) (tokens : Tokens)
    (resets : List ResetFrame) : Prop where
  same : s' = { s with state := s'.state }
  touched : s.state.Touched Eq s'.state
  tokens : ∀ token ∈ tokens, s.DueToken p token
  resets : ∀ f ∈ resets, s.dueReset p = some f

/-- **What `writeFrames` writes**: other frames, and then perhaps a `STREAM` frame. -/
theorem writeFrames_cases (split : ℕ) (b : Builder) :
    ∃ s' b' tokens resets, s.Prepared p s' tokens resets ∧
      (s.writeFrames connFc p split b [] = (s', connFc, b', tokens) ∧
          s.emits p split b = resets.map .reset ∨
        s.writeFrames connFc p split b [] = s'.writeStreamFrame connFc p split b' tokens ∧
          s.emits p split b =
            resets.map .reset ++ (s'.nextStreamFrame p split b'.remaining).2.toList.map
            .stream) := by
  have htouched := writeResetFrame_touched s p b []
  have htokens := writeResetFrame_tokens s p b []
  have hsame : (s.writeResetFrame p b []).1 =
      { s with state := (s.writeResetFrame p b []).1.state } := by
    unfold writeResetFrame
    (repeat' split) <;> rfl
  have hdue : ∀ f, (s.dueReset p).filter (fun f => (f.write b).2) = some f →
      s.dueReset p = some f :=
    fun f hf => (filter_eq_some_iff.mp hf).1
  unfold writeFrames emits
  generalize (s.dueReset p).filter (fun f => (f.write b).2) = due at hdue htokens ⊢
  generalize s.writeResetFrame p b [] = res at htouched htokens hsame ⊢
  obtain ⟨s₁, b₁, tokens₁, done⟩ := res
  dsimp only at htouched htokens hsame ⊢
  have hdueTokens : ∀ token ∈ tokens₁, s.DueToken p token := by
    intro token htoken
    rw [htokens] at htoken
    obtain ⟨f, hf, rfl⟩ := List.mem_map.mp htoken
    exact congrArg Option.isSome (hdue f (mem_toList.mp hf))
  have hresets : ∀ f ∈ due.toList, s.dueReset p = some f := fun f hf => hdue f (mem_toList.mp hf)
  cases done with
  | true => exact ⟨s₁, b₁, tokens₁, due.toList, ⟨hsame, htouched, hdueTokens, hresets⟩,
      .inl ⟨rfl, rfl⟩⟩
  | false =>
    have htouched₂ := htouched.trans (writeBlockedFrame_touched s₁ p b₁ tokens₁)
    have hsame₂ : (s₁.writeBlockedFrame p b₁ tokens₁).1 =
        { s with state := (s₁.writeBlockedFrame p b₁ tokens₁).1.state } := by
      rw [hsame]
      unfold writeBlockedFrame
      (repeat' split) <;> rfl
    have hdueTokens₂ := writeBlockedFrame_forall (fun _ _ => trivial)
      hdueTokens s₁ p b₁
    generalize s₁.writeBlockedFrame p b₁ tokens₁ = res at htouched₂ hsame₂ hdueTokens₂ ⊢
    obtain ⟨s₂, b₂, tokens₂⟩ := res
    refine ⟨s₂, b₂, tokens₂, due.toList, ⟨hsame₂, htouched₂, hdueTokens₂, hresets⟩, ?_⟩
    cases b₂.isFull <;> simp

lemma writeFrames_touched (split : ℕ) (b : Builder) :
    s.state.Touched Retains (s.writeFrames connFc p split b []).1.state := by
  obtain ⟨s', b', tokens, _, hprepared, ⟨heq, -⟩ | ⟨heq, -⟩⟩ := s.writeFrames_cases connFc p split b
  all_goals
    have htouched := hprepared.touched.mono retains_of_eq
    rw [heq]
  · exact htouched
  · exact htouched.trans (writeStreamFrame_touched ..)

end SendStream

end Neqo
