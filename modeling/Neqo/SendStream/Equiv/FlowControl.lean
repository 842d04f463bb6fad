import Neqo.SendStream.Equiv.Touched
import Neqo.Util.IndexMap

/-!
# Flow control of sending streams

Each stream, and the connection, counts exactly the bytes that were accepted, and neither goes over
its limit (`Senders.accepts_within_limits`).
-/

namespace Neqo

namespace SendStream

open State

/-- What an operation that accepts `n` bytes does to the flow control of the connection and of the
stream. No acknowledgment is forgotten. -/
structure Charges (connFc connFc' : ConnFc) (state state' : State) (n : ℕ) :
    Prop where
  connLimit : connFc'.limit = connFc.limit
  connUsed : connFc'.used = connFc.used + n
  le_connAvailable : n ≤ connFc.available
  le_available : ∀ fc, state.fc? = some fc → n ≤ fc.available
  stream : ∀ fc', state'.fc? = some fc' →
    ∃ fc, state.fc? = some fc ∧ fc'.used = fc.used + n ∧ fc.limit ≤ fc'.limit
  acked : state.bytesAcked ≤ state'.bytesAcked

variable {connFc connFc' : ConnFc} {state state' : State}

lemma charges_zero (hconn : connFc'.used = connFc.used ∧ connFc'.limit = connFc.limit)
    (hstream : ∀ fc', state'.fc? = some fc' → ∃ fc, state.fc? = some fc ∧ fc'.used = fc.used ∧
    fc.limit ≤ fc'.limit)
    (hacked : state.bytesAcked ≤ state'.bytesAcked) : Charges connFc connFc' state state' 0 :=
  ⟨hconn.2, hconn.1, Nat.zero_le _, fun _ _ => Nat.zero_le _, hstream, hacked⟩

lemma State.Touched.charges (h : state.Touched Retains state')
    (hconn : connFc'.used = connFc.used ∧ connFc'.limit = connFc.limit) :
    Charges connFc connFc' state state' 0 := by
  refine charges_zero hconn (fun _ => h.fc?) ?_
  cases h with
  | send _ hb | dataSent hb | resetSentReliable hb => exact hb.ge
  | _ => exact le_rfl

lemma State.Touched.charges_eq (h : state.Touched Eq state') (connFc : ConnFc) :
    Charges connFc connFc state state' 0 :=
  (h.mono retains_of_eq).charges ⟨rfl, rfl⟩

/-! ### Operations that accept nothing -/

lemma sendBlockedIfSpaceNeeded_connFc (s : SendStream) (connFc : ConnFc) (neededSpace : ℕ) :
    (s.sendBlockedIfSpaceNeeded connFc neededSpace).2.used = connFc.used ∧
      (s.sendBlockedIfSpaceNeeded connFc neededSpace).2.limit = connFc.limit := by
  unfold sendBlockedIfSpaceNeeded
  cases s.state with
  | ready | send =>
    split_ifs <;> first | exact connFc.blocked_credit | exact ⟨rfl, rfl⟩
  | _ => exact ⟨rfl, rfl⟩

/-- The flow control is left alone or dropped, and no acknowledgment is forgotten. -/
def Leads (state state' : State) : Prop :=
  (state'.fc? = state.fc? ∨ state'.fc? = none) ∧ state.bytesAcked ≤ state'.bytesAcked

lemma leads_of_eq (h : state' = state) : Leads state state' :=
  h ▸ ⟨.inl rfl, le_rfl⟩

lemma Leads.charges (h : Leads state state') (connFc : ConnFc) :
    Charges connFc connFc state state' 0 := by
  refine charges_zero ⟨rfl, rfl⟩ (fun fc' hfc' => ?_) h.2
  rcases h.1 with hfc | hfc <;> rw [hfc] at hfc'
  · exact ⟨fc', hfc', rfl, le_rfl⟩
  · cases hfc'

lemma charges_refl (connFc : ConnFc) (state : State) :
    Charges connFc connFc state state 0 := (leads_of_eq rfl).charges connFc

section

variable (s : SendStream)

lemma close_leads : Leads s.state s.close.state := by
  unfold close
  cases hs : s.state with
  | ready | send => exact ⟨.inr rfl, le_rfl⟩
  | _ => exact leads_of_eq hs

lemma reset_leads (err : ℕ) : Leads s.state (s.reset err).state := by
  unfold reset makeResetState
  cases hs : s.state with
  | ready => exact ⟨.inr rfl, le_rfl⟩
  | send | dataSent =>
    dsimp only
    split_ifs <;> exact ⟨.inr rfl, le_rfl⟩
  | _ => exact leads_of_eq hs

lemma commit_leads : Leads s.state s.commit.1.state := by
  unfold commit
  cases hs : s.state with
  | send | dataSent => exact ⟨.inl rfl, le_rfl⟩
  | _ => exact leads_of_eq hs

lemma dropCommitment_leads : Leads s.state s.dropCommitment.state := by
  unfold dropCommitment
  cases hs : s.state with
  | send | dataSent => exact ⟨.inl rfl, le_rfl⟩
  | resetSentReliable =>
    dsimp only
    split_ifs <;> exact ⟨.inl rfl, le_rfl⟩
  | _ => exact leads_of_eq hs

lemma resetAcked_leads : Leads s.state s.resetAcked.state := by
  unfold resetAcked
  cases hs : s.state with
  | resetSent => exact ⟨.inl rfl, le_rfl⟩
  | resetSentReliable =>
    dsimp only
    split_ifs <;> exact ⟨.inl rfl, le_rfl⟩
  | _ => exact leads_of_eq hs

lemma markAsAcked_leads (offset len : ℕ) (fin : Bool) :
    Leads s.state (s.markAsAcked offset len fin).state := by
  have hle (b : TxBuffer) : b.retired ≤ (b.markAsAcked offset len).retired :=
    RangeTracker.le_markAcked_acked b.ranges offset len
  unfold markAsAcked
  cases hs : s.state with
  | send _ b => exact ⟨.inl rfl, hle b⟩
  | dataSent b | resetSentReliable b =>
    dsimp only
    split_ifs <;> exact ⟨.inl rfl, hle b⟩
  | _ => exact leads_of_eq hs

lemma tokenAcked_leads (token : StreamRecoveryToken) :
    Leads s.state (s.tokenAcked token).state := by
  cases token with
  | stream token => exact markAsAcked_leads s token.offset token.length token.fin
  | resetStream => exact resetAcked_leads s
  | _ => exact leads_of_eq rfl

variable (connFc : ConnFc)

lemma tokenLost_charges (token : StreamRecoveryToken) :
    Charges connFc connFc s.state (s.tokenLost token).state 0 := by
  cases token with
  | stream token =>
    refine ((markAsLost_touched s token.offset token.length token.fin).mono ?_).charges ⟨rfl, rfl⟩
    rintro b _ rfl
    exact RangeTracker.unmarkRange_acked b.ranges _ _
  | resetStream => exact (resetLost_touched s).charges_eq connFc
  | streamDataBlocked _ limit => exact (blockedLost_touched s limit).charges_eq connFc
  | _ => exact charges_refl _ _

/-! ### Writing frames -/

lemma markAsSent_connFc (offset len : ℕ) (fin : Bool) :
    (s.markAsSent connFc offset len fin).2.used = connFc.used ∧
      (s.markAsSent connFc offset len fin).2.limit = connFc.limit := by
  unfold markAsSent sendBlockedIfSpaceNeeded
  cases s.state with
  | send =>
    split_ifs <;> first | exact connFc.blocked_credit | exact ⟨rfl, rfl⟩
  | dataSent =>
    dsimp only [txBuf, mapTxBuf]
    split_ifs <;> exact ⟨rfl, rfl⟩
  | _ => exact ⟨rfl, rfl⟩

lemma writeFrames_charges (priority : TransmissionPriority) (split : ℕ) (b : Builder) :
    Charges connFc (s.writeFrames connFc priority split b []).2.1 s.state
      (s.writeFrames connFc priority split b []).1.state 0 := by
  refine (writeFrames_touched s connFc priority split b).charges ?_
  obtain ⟨s', b', tokens, _, -, ⟨heq, -⟩ | ⟨heq, -⟩⟩ := s.writeFrames_cases connFc priority split b
  · rw [heq]
    exact ⟨rfl, rfl⟩
  · rw [heq]
    unfold writeStreamFrame
    dsimp only
    split
    · exact ⟨rfl, rfl⟩
    · exact markAsSent_connFc ..

/-! ### Accepting data -/

lemma enterSend_fc : s.enterSend.state.fc? = s.state.fc? ∧
    s.enterSend.state.bytesAcked = s.state.bytesAcked := by
  unfold enterSend
  cases hs : s.state with
  | ready => exact ⟨rfl, rfl⟩
  | _ => exact ⟨congrArg fc? hs, congrArg bytesAcked hs⟩

end

/-- **What sending does**: it accepts nothing, or the beginning of the data as far as is
available. -/
theorem sendInternal_spec (s : SendStream) (connFc : ConnFc) (buf : Bytes) (atomic : Bool) :
    ∃ s' connFc' res, s.sendInternal connFc buf atomic = (s', connFc', res) ∧
      (∀ n, res = .ok n → n ≤ buf.length) ∧
      (acceptedBytes buf res = [] ∧
          (s.state.Touched Eq s'.state ∨ s.enterSend.state.Touched Eq s'.state) ∧
          connFc'.used = connFc.used ∧ connFc'.limit = connFc.limit ∨
        ∃ fc sendBuf committed data n, s.enterSend.state = .send fc sendBuf committed ∧
          (sendBuf.send data).2 = n ∧ n ≤ s.enterSend.avail connFc ∧ data.take n = buf.take n ∧
          s'.state = .send (fc.consume n) (sendBuf.send data).1 committed ∧
          connFc' = connFc.consume n ∧ res = .ok n) := by
  unfold sendInternal
  split_ifs with hempty
  · exact ⟨_, _, _, rfl, nofun, .inl ⟨rfl, .inl (.of_eq rfl), rfl, rfl⟩⟩
  generalize s.enterSend = s'
  dsimp only
  cases hs : s'.state with
  | send fc sendBuf committed =>
    split_ifs with hzero hatomic havail
    · exact ⟨_, _, _, rfl, by rintro _ ⟨⟩; exact Nat.zero_le _,
        .inl ⟨rfl, .inr (.of_eq hs), rfl, rfl⟩⟩
    · exact ⟨_, _, _, rfl, by rintro _ ⟨⟩; exact Nat.zero_le _,
        .inl ⟨rfl, .inr (hs ▸ sendBlockedIfSpaceNeeded_touched s' connFc buf.length),
          sendBlockedIfSpaceNeeded_connFc s' connFc buf.length⟩⟩
    · have hle : (sendBuf.send (buf.take (s'.avail connFc))).2 ≤
          (buf.take (s'.avail connFc)).length :=
        min_le_right _ _
      rw [List.length_take, le_min_iff] at hle
      refine ⟨_, _, _, rfl, by rintro _ ⟨⟩; exact hle.2,
        .inr ⟨fc, sendBuf, committed, buf.take (s'.avail connFc), _, rfl, rfl, hle.1, ?_, rfl,
        rfl, rfl⟩⟩
      rw [List.take_take, min_eq_left hle.1]
    · have hle : (sendBuf.send buf).2 ≤ buf.length := min_le_right _ _
      exact ⟨_, _, _, rfl, by rintro _ ⟨⟩; exact hle,
        .inr ⟨fc, sendBuf, committed, buf, _, rfl, rfl, hle.trans (not_lt.mp havail), rfl, rfl,
        rfl, rfl⟩⟩
  | _ => exact ⟨_, _, _, rfl, nofun, .inl ⟨rfl, .inr (.of_eq hs), rfl, rfl⟩⟩

/-- **Sending** charges what it accepts to the stream and to the connection, each within its
credit. -/
theorem sendInternal_charges (s : SendStream) (connFc : ConnFc) (buf : Bytes) (atomic : Bool) :
    Charges connFc (s.sendInternal connFc buf atomic).2.1 s.state
      (s.sendInternal connFc buf atomic).1.state
      (acceptedBytes buf (s.sendInternal connFc buf atomic).2.2).length := by
  obtain ⟨hfc, hacked⟩ := enterSend_fc s
  obtain ⟨s', connFc', res, heq, hlength, ⟨hnil, htouched | htouched, hconn⟩ |
    ⟨fc, sendBuf, committed, data, n, hs, rfl, hle, -, hs', rfl, rfl⟩⟩ :=
    s.sendInternal_spec connFc buf atomic <;> rw [heq]
  · rw [hnil]
    exact (htouched.mono retains_of_eq).charges hconn
  · rw [hnil]
    have hcharges := (htouched.mono retains_of_eq).charges hconn
    exact { hcharges with
      le_available := hfc ▸ hcharges.le_available
      stream := hfc ▸ hcharges.stream
      acked := hacked ▸ hcharges.acked }
  · unfold avail at hle
    rw [hs] at hle
    change _ ≤ min (min fc.available connFc.available) sendBuf.avail at hle
    rw [hs] at hfc hacked
    rw [hs', acceptedBytes, List.length_take_of_le (hlength _ rfl)]
    refine ⟨rfl, rfl, ?_, fun fc' hfc' => ?_, fun fc' hfc' => ⟨fc, hfc.symm, ?_⟩, hacked.ge⟩
    · omega
    · cases hfc.trans hfc'
      omega
    · cases hfc'
      exact ⟨rfl, le_rfl⟩

end SendStream

open SendStream

namespace Sending

/-- **One operation**: what it accepts is charged. -/
theorem step_charges (t : Sending) (connFc : ConnFc) (op : SendStream.Op) :
    ∃ bytes, (t.step connFc op).1.accepted = t.accepted ++ bytes ∧
      Charges connFc (t.step connFc op).2 t.stream.state (t.step connFc op).1.stream.state
        bytes.length := by
  have hnil := (List.append_nil t.accepted).symm
  cases op with
  | send buf atomic => exact ⟨_, rfl, sendInternal_charges t.stream connFc buf atomic⟩
  | setMaxStreamData limit =>
    exact ⟨[], hnil, (setMaxStreamData_touched t.stream limit).charges_eq connFc⟩
  | setPriority => exact ⟨[], hnil, charges_refl _ _⟩
  | close => exact ⟨[], hnil, (close_leads t.stream).charges connFc⟩
  | commit => exact ⟨[], hnil, (commit_leads t.stream).charges connFc⟩
  | reset err => exact ⟨[], hnil, (reset_leads t.stream err).charges connFc⟩
  | dropCommitment => exact ⟨[], hnil, (dropCommitment_leads t.stream).charges connFc⟩
  | writeFrames priority split b =>
    exact ⟨[], hnil, writeFrames_charges t.stream connFc priority split b⟩
  | acked =>
    refine ⟨[], ?_⟩
    rw [step, List.append_nil]
    split
    · exact ⟨rfl, (tokenAcked_leads t.stream _).charges connFc⟩
    · exact ⟨rfl, charges_refl _ _⟩
  | lost =>
    refine ⟨[], ?_⟩
    rw [step, List.append_nil]
    split
    · exact ⟨rfl, tokenLost_charges t.stream connFc _⟩
    · exact ⟨rfl, charges_refl _ _⟩

/-- The stream counts what it has accepted, and stays within its limit. -/
def Metered (t : Sending) : Prop :=
  ∀ fc, t.stream.state.fc? = some fc → fc.used = t.accepted.length ∧ fc.used ≤ fc.limit

lemma metered_new (streamId : StreamId) (maxStreamData : ℕ) :
    (new streamId maxStreamData).Metered := by
  intro fc hfc
  obtain rfl := Option.some.inj hfc
  exact ⟨rfl, Nat.zero_le _⟩

lemma Metered.step {t : Sending} (h : t.Metered) (connFc : ConnFc)
    (op : SendStream.Op) : (t.step connFc op).1.Metered := by
  obtain ⟨bytes, haccepted, hcharges⟩ := t.step_charges connFc op
  intro fc' hfc'
  obtain ⟨fc, hfc, hused, hlimit⟩ := hcharges.stream fc' hfc'
  obtain ⟨hcount, hle⟩ := h fc hfc
  have havail := hcharges.le_available fc hfc
  rw [SenderFlowControl.available] at havail
  rw [haccepted, List.length_append]
  omega

end Sending

namespace Senders

/-- Every stream and the connection count what was accepted, and stay within their limits. -/
structure Metered (p : Senders) : Prop where
  streams : ∀ t ∈ p.streams, t.Metered
  used : p.connFc.used = (p.streams.map (·.accepted.length)).sum
  used_le : p.connFc.used ≤ p.connFc.limit

variable {p : Senders}

lemma Metered.step (h : p.Metered) (op : Op) : (p.step op).Metered := by
  have hused_le := h.used_le
  cases op with
  | newStream streamId maxStreamData =>
    refine ⟨fun t ht => ?_, ?_, hused_le⟩
    · rcases List.mem_append.mp ht with ht | ht
      · exact h.streams t ht
      · rw [List.mem_singleton.mp ht]
        exact Sending.metered_new streamId maxStreamData
    · rw [Senders.step, List.map_append, List.sum_append]
      exact h.used
  | stream i op =>
    rw [Senders.step]
    cases hi : p.streams[i]? with
    | none => exact h
    | some t =>
      obtain ⟨bytes, haccepted, hcharges⟩ := t.step_charges p.connFc op
      have ht := (h.streams t (List.mem_of_getElem? hi)).step p.connFc op
      have havail := hcharges.le_connAvailable
      rw [SenderFlowControl.available] at havail
      refine ⟨fun t' ht' => ?_, ?_, ?_⟩
      · rcases List.mem_or_eq_of_mem_set ht' with ht' | rfl
        · exact h.streams t' ht'
        · exact ht
      · have hsum := sum_map_set (·.accepted.length) hi (t.step p.connFc op).1
        have hlength := congrArg List.length haccepted
        rw [List.length_append] at hlength
        have hconn := hcharges.connUsed
        rw [h.used] at hconn
        dsimp only at hsum ⊢
        omega
      · show (t.step p.connFc op).2.used ≤ (t.step p.connFc op).2.limit
        rw [hcharges.connUsed, hcharges.connLimit]
        omega
  | handleMaxData maximumData =>
    obtain ⟨hused, hlimit⟩ := p.connFc.update_credit maximumData
    exact ⟨h.streams, hused.trans h.used, hused.trans_le (hused_le.trans hlimit)⟩
  | writeFrames b =>
    obtain ⟨hused, hlimit⟩ := p.connFc.writeBlocked_credit .dataBlocked [] .dataBlocked b []
    exact ⟨h.streams, hused.trans h.used, hused.trans_le (hused_le.trans hlimit.ge)⟩
  | dataBlockedLost limit =>
    obtain ⟨hused, hlimit⟩ := p.connFc.frameLost_credit limit
    exact ⟨h.streams, hused.trans h.used, hused.trans_le (hused_le.trans hlimit.ge)⟩

lemma metered_new (maxData : ℕ) : (new maxData).Metered where
  streams _ ht := absurd ht List.not_mem_nil
  used := rfl
  used_le := Nat.zero_le _

lemma Metered.run (h : p.Metered) (ops : List Op) : (p.run ops).Metered :=
  List.foldlRecOn ops _ h fun _ h op _ => h.step op

lemma le_step_limit (p : Senders) (op : Op) : p.connFc.limit ≤ (p.step op).connFc.limit := by
  cases op with
  | newStream => exact le_rfl
  | stream i op =>
    rw [step]
    cases p.streams[i]? with
    | none => exact le_rfl
    | some t =>
      obtain ⟨bytes, -, hcharges⟩ := t.step_charges p.connFc op
      exact hcharges.connLimit.ge
  | handleMaxData maximumData => exact (p.connFc.update_credit maximumData).2
  | writeFrames b => exact (p.connFc.writeBlocked_credit .dataBlocked [] .dataBlocked b []).2.ge
  | dataBlockedLost limit => exact (p.connFc.frameLost_credit limit).2.ge

lemma step_stream_cases {i j : ℕ} {op : SendStream.Op} {t t' : Sending}
    (ht : p.streams[i]? = some t) (ht' : (p.step (.stream j op)).streams[i]? = some t') :
    (i = j ∧ t' = (t.step p.connFc op).1 ∧
      (p.step (.stream j op)).connFc = (t.step p.connFc op).2) ∨
      t' = t ∧ ((p.step (.stream j op)).connFc = p.connFc ∨
        ∃ t₀ : Sending, (p.step (.stream j op)).connFc = (t₀.step p.connFc op).2) := by
  rw [step] at ht' ⊢
  cases hj : p.streams[j]? with
  | none =>
    rw [hj] at ht'
    exact .inr ⟨Option.some.inj (ht'.symm.trans ht), .inl rfl⟩
  | some t₀ =>
    rw [hj] at ht'
    by_cases hji : j = i
    · subst hji
      obtain rfl := Option.some.inj (hj.symm.trans ht)
      rw [List.getElem?_set_self (List.getElem?_eq_some_iff.mp ht).1] at ht'
      exact .inl ⟨rfl, (Option.some.inj ht').symm, rfl⟩
    · rw [List.getElem?_set_ne hji] at ht'
      exact .inr ⟨Option.some.inj (ht'.symm.trans ht), .inr ⟨t₀, rfl⟩⟩

lemma le_step_streamLimit {op : Op} {i : ℕ} {t t' : Sending} {fc' : SenderFlowControl StreamId}
    (ht : p.streams[i]? = some t) (ht' : (p.step op).streams[i]? = some t')
    (hfc' : t'.stream.state.fc? = some fc') :
    ∃ fc, t.stream.state.fc? = some fc ∧ fc.limit ≤ fc'.limit := by
  have hsame : t' = t ∨ ∃ connFc op', t' = (t.step connFc op').1 := by
    cases op with
    | newStream =>
      rw [step, List.getElem?_append_left (List.getElem?_eq_some_iff.mp ht).1, ht] at ht'
      exact .inl (Option.some.inj ht').symm
    | stream j op' =>
      rcases step_stream_cases ht ht' with ⟨-, heq, -⟩ | ⟨heq, -⟩
      · exact .inr ⟨p.connFc, op', heq⟩
      · exact .inl heq
    | _ => exact .inl (Option.some.inj (ht'.symm.trans ht))
  rcases hsame with rfl | ⟨connFc, op', rfl⟩
  · exact ⟨fc', hfc', le_rfl⟩
  · obtain ⟨bytes, -, hcharges⟩ := t.step_charges connFc op'
    obtain ⟨fc, hfc, -, hlimit⟩ := hcharges.stream fc' hfc'
    exact ⟨fc, hfc, hlimit⟩

/-- **Sending keeps to the limits.**  At any point of any run, each stream and the connection count
the bytes that were accepted, and no more than their limits allow (so `available` does not
underflow); what a call of `send` consumes keeps to both limits; and no operation reduces a
limit. -/
theorem accepts_within_limits (maxData : ℕ) (ops : List Op) :
    (∀ t ∈ ((new maxData).run ops).streams, ∀ fc, t.stream.state.fc? = some fc →
      fc.used = t.accepted.length ∧ fc.used ≤ fc.limit) ∧
    ((new maxData).run ops).connFc.used =
      (((new maxData).run ops).streams.map (·.accepted.length)).sum ∧
    ((new maxData).run ops).connFc.used ≤ ((new maxData).run ops).connFc.limit ∧
    (∀ t ∈ ((new maxData).run ops).streams, ∀ fc buf atomic n, t.stream.state.fc? = some fc →
      (t.stream.sendInternal ((new maxData).run ops).connFc buf atomic).2.2 = .ok n →
        fc.used + n ≤ fc.limit ∧
          ((new maxData).run ops).connFc.used + n ≤ ((new maxData).run ops).connFc.limit) ∧
    ∀ op, ((new maxData).run ops).connFc.limit ≤ (((new maxData).run ops).step op).connFc.limit ∧
      ∀ (i : ℕ) (t t' : Sending) fc', ((new maxData).run ops).streams[i]? = some t →
        (((new maxData).run ops).step op).streams[i]? = some t' → t'.stream.state.fc? = some fc' →
        ∃ fc, t.stream.state.fc? = some fc ∧ fc.limit ≤ fc'.limit := by
  have hmetered := (metered_new maxData).run ops
  generalize (new maxData).run ops = p at hmetered ⊢
  refine ⟨hmetered.streams, hmetered.used, hmetered.used_le, ?_, fun op =>
    ⟨le_step_limit p op, fun i t t' fc' ht ht' hfc' => le_step_streamLimit ht ht' hfc'⟩⟩
  intro t ht fc buf atomic n hfc hn
  have hcharges := sendInternal_charges t.stream p.connFc buf atomic
  obtain ⟨_, _, _, heq, hlength, -⟩ := t.stream.sendInternal_spec p.connFc buf atomic
  rw [hn, acceptedBytes, List.length_take_of_le (hlength n (by rw [← hn, heq]))] at hcharges
  have havail := hcharges.le_available fc hfc
  have hconn := hcharges.le_connAvailable
  have hused := (hmetered.streams t ht fc hfc).2
  have hused' := hmetered.used_le
  rw [SenderFlowControl.available] at havail hconn
  omega

end Senders

/-!
## Writable events

What is available on a stream is the least of three limits: the credit of the stream, the credit of
the connection and the space in its buffer. Each handler compares only the limit that it raises
with the low watermark. That is enough, as the other two are the same as before
(`Senders.writable_of_raised`).
-/

open Option

namespace SendStream

variable {s s' : SendStream} {connFc connFc' : ConnFc} {w : ℕ}

/-- Only the limit that has changed can have been below the watermark. -/
lemma maybeEmitWritableEvent_of_raised {r previousLimit currentLimit : ℕ}
    (havail : s.avail connFc = min r previousLimit)
    (havail' : s'.avail connFc' = min r currentLimit)
    (hbelow : s.avail connFc < w) (hraised : w ≤ s'.avail connFc') :
    s'.maybeEmitWritableEvent connFc' w previousLimit currentLimit = true := by
  simp only [maybeEmitWritableEvent, Bool.not_eq_true', Bool.or_eq_false_iff,
    decide_eq_false_iff_not]
  omega

lemma resetAcked_avail_le (s : SendStream) (connFc : ConnFc) :
    s.resetAcked.avail connFc ≤ s.avail connFc := by
  unfold resetAcked
  (repeat' split) <;> first | exact le_rfl | exact Nat.zero_le _

lemma avail_eq (s : SendStream) (connFc : ConnFc) :
    s.avail connFc =
      min ((s.state.fc?.map fun fc => min fc.available s.state.txAvail).getD 0)
      connFc.available := by
  unfold avail
  cases s.state with
  | ready | send =>
    simp only [State.fc?, map_some, getD_some]
    omega
  | _ => exact (Nat.zero_min _).symm

lemma markAsAckedWritable_of_raised (offset len : ℕ) (fin : Bool) (hbelow : s.avail connFc < w)
    (hraised : w ≤ (s.markAsAcked offset len fin).avail connFc) :
    s.markAsAckedWritable connFc w offset len fin = true := by
  unfold markAsAckedWritable
  have hfc := (s.markAsAcked_leads offset len fin).1
  cases hs : s.state with
  | ready =>
    rw [show s.markAsAcked offset len fin = s by simp [markAsAcked, hs]] at hraised
    omega
  | send fc =>
    refine maybeEmitWritableEvent_of_raised (r := min fc.available connFc.available) ?_ ?_ hbelow
      hraised
    · simp [avail, hs, State.txAvail]
    · simp [avail, markAsAcked, hs, State.txAvail]
  | _ =>
    rw [hs] at hfc
    rw [avail_eq, show (s.markAsAcked offset len fin).state.fc? = none
      from or_self_iff.mp hfc] at hraised
    simp at hraised
    omega

lemma setMaxStreamDataWritable_of_raised (limit : ℕ) (hbelow : s.avail connFc < w)
    (hraised : w ≤ (s.setMaxStreamData limit).avail connFc) :
    s.setMaxStreamDataWritable connFc w limit = true := by
  have hupdate {fc : SenderFlowControl StreamId} {r : ℕ}
      (havail : s.avail connFc = min r fc.available)
      (havail' : (s.setMaxStreamData limit).avail connFc = min r (fc.update limit).1.available) :
      (fc.update limit).2.any (fun currentLimit =>
        (s.setMaxStreamData limit).maybeEmitWritableEvent connFc w fc.available currentLimit) := by
    unfold SenderFlowControl.update at havail' ⊢
    split_ifs at havail' ⊢
    · exact maybeEmitWritableEvent_of_raised havail havail' hbelow hraised
    · dsimp only at havail'
      omega
  unfold setMaxStreamDataWritable
  cases hs : s.state with
  | ready =>
    apply hupdate (r := min connFc.available TxBuffer.maxSize)
    all_goals
      simp only [avail, setMaxStreamData, hs, State.txAvail]
      omega
  | send fc sendBuf =>
    apply hupdate (r := min connFc.available sendBuf.avail)
    all_goals
      simp only [avail, setMaxStreamData, hs, State.txAvail]
      omega
  | _ =>
    rw [show s.setMaxStreamData limit = s by simp [setMaxStreamData, hs]] at hraised
    omega

end SendStream

namespace Senders

/-- **No writable event is lost.**  If an acknowledgment, a `MAX_STREAM_DATA` or a `MAX_DATA` raises
what is available on a stream to its low watermark, a writable event is emitted for the stream. -/
theorem writable_of_raised {p : Senders} {op : Op} {w i : ℕ} {t t' : Sending}
    (hop : (∃ j k, op = .stream j (.acked k)) ∨
    (∃ j limit, op = .stream j (.setMaxStreamData limit)) ∨ ∃ maximumData,
      op = .handleMaxData maximumData)
    (ht : p.streams[i]? = some t) (ht' : (p.step op).streams[i]? = some t')
    (hbelow : t.stream.avail p.connFc < w) (hraised : w ≤ t'.stream.avail (p.step op).connFc) :
    p.writable w i op = true := by
  have hkept {op : SendStream.Op} (hconn : ∀ t : Sending, (t.step p.connFc op).2 = p.connFc) {j : ℕ}
      (ht' : (p.step (.stream j op)).streams[i]? = some t')
      (hraised : w ≤ t'.stream.avail (p.step (.stream j op)).connFc) :
      i = j ∧ w ≤ (t.step p.connFc op).1.stream.avail p.connFc := by
    rcases step_stream_cases ht ht' with ⟨hij, rfl, hfc⟩ | ⟨rfl, hfc | ⟨t₀, hfc⟩⟩
    · rw [hfc, hconn] at hraised
      exact ⟨hij, hraised⟩
    · rw [hfc] at hraised
      omega
    · rw [hfc, hconn] at hraised
      omega
  rcases hop with ⟨j, k, rfl⟩ | ⟨j, limit, rfl⟩ | ⟨maximumData, rfl⟩
  · obtain ⟨rfl, hstream⟩ := hkept (fun t => by rw [Sending.step]; split <;> rfl) ht' hraised
    simp only [writable, ht, decide_true, Bool.true_and, any_some]
    rw [Sending.step] at hstream
    cases hk : t.tokens[k]? with
    | none =>
      simp only [hk] at hstream
      omega
    | some token =>
      simp only [hk] at hstream
      cases token with
      | stream => exact SendStream.markAsAckedWritable_of_raised _ _ _ hbelow hstream
      | resetStream =>
        have hle := t.stream.resetAcked_avail_le p.connFc
        exact absurd (hstream.trans hle) (not_le.mpr hbelow)
      | _ => exact absurd hstream (not_le.mpr hbelow)
  · obtain ⟨rfl, hstream⟩ := hkept (fun t => rfl) ht' hraised
    simp only [writable, ht, decide_true, Bool.true_and, any_some]
    exact SendStream.setMaxStreamDataWritable_of_raised _ hbelow hstream
  · obtain rfl := some.inj (ht.symm.trans ht')
    have havail := t.stream.avail_eq p.connFc
    have havail' := t.stream.avail_eq (p.connFc.update maximumData).1
    simp only [writable, ht, any_some]
    rw [step] at hraised
    unfold SenderFlowControl.update at havail' hraised ⊢
    split_ifs at havail' hraised ⊢
    · exact SendStream.maybeEmitWritableEvent_of_raised havail havail' hbelow hraised
    · exact absurd hraised (not_le.mpr hbelow)

/-- The stream waits for one byte, for which the connection has no credit before a `MAX_DATA`. -/
theorem writable_of_raised_maxData :
    ((new 0).run [.newStream ⟨0⟩ 100]).writable 1 0 (.handleMaxData 5) = true :=
  writable_of_raised (.inr (.inr ⟨5, rfl⟩)) rfl rfl (by decide) (by decide)

end Senders

end Neqo
