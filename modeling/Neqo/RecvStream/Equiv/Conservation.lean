import Neqo.RecvStream.Equiv.Credit
import Neqo.Util.IndexMap

/-!
# Receive flow control credit is conserved

A connection has one flow control for all of its receiving streams. In every run of the streams in
which all operations succeed, what the connection has consumed and retired is the sum of what its
streams have, at either level no more is retired than consumed and no more is consumed than allowed,
and a stream that has ended has consumed and retired exactly its final size
(`RecvConnection.credit_conserved`).
-/

namespace Neqo

open List Option RecvStreamState

namespace RecvStream

/-- What can happen to a receiving stream. -/
inductive Event where
  | frame (fin : Bool) (offset : ℕ) (data : Bytes)
  | reset (err finalSize reliableSize : ℕ)
  | read (bufLen : ℕ)
  | stopSending (err : ℕ)
  | stopSendingAcked

/-- The stream and the flow control of the connection after an event, if it succeeds. -/
def handle (s : RecvStream) (sessionFc : SessionFc) : Event → Option (RecvStream × SessionFc)
  | .frame fin offset data =>
    let (s, sessionFc, r) := s.inboundStreamFrame sessionFc fin offset data
    if r.isOk then some (s, sessionFc) else none
  | .reset err finalSize reliableSize =>
    let (s, sessionFc, r) := s.reset sessionFc err finalSize reliableSize
    if r.isOk then some (s, sessionFc) else none
  | .read bufLen =>
    let (s, sessionFc, r) := s.read sessionFc bufLen
    if r.isOk then some (s, sessionFc) else none
  | .stopSending err =>
    let (s, sessionFc, _) := s.stopSending sessionFc err
    some (s, sessionFc)
  | .stopSendingAcked => some (s.stopSendingAcked.1, sessionFc)

/-- The final size that the peer has announced, after an event. A stream that has ended takes no
notice. -/
def announced (s : RecvStream) (known : Option ℕ) : Event → Option ℕ
  | .frame fin offset data =>
    if s.isEnded then known else if fin then some (offset + data.length) else known
  | .reset _ finalSize _ => if s.isEnded then known else some finalSize
  | _ => known

lemma exists_ok {α : Type} {r : Except Error α} (h : r.isOk = true) : ∃ a, r = .ok a := by
  cases r with
  | error => cases h
  | ok a => exact ⟨a, rfl⟩

variable {s s' : RecvStream} {known : Option ℕ} {sessionFc sessionFc' : SessionFc}

lemma handle_outcome {fc : StreamFc} (h : s.state.Balanced known)
    (hfc : s.state.fc = some fc) {e : Event} (hh : s.handle sessionFc e = some (s', sessionFc')) :
    Outcome fc sessionFc sessionFc' s'.state (s.announced known e) := by
  have hlive : ¬ s.isEnded = true := by
    rw [isEnded_iff, hfc]
    exact some_ne_none fc
  cases e with
  | frame | reset | read =>
    simp only [handle, ite_none_right_eq_some, some.injEq] at hh
    obtain ⟨hok, hs⟩ := hh
    obtain ⟨_, hok⟩ := exists_ok hok
    obtain ⟨rfl, rfl⟩ := Prod.mk.inj hs
    simp only [announced, if_neg hlive]
    first
    | exact inboundStreamFrame_outcome h hfc hok
    | exact reset_outcome h hfc hok
    | exact read_outcome h hfc hok
  | stopSending err =>
    obtain ⟨rfl, rfl⟩ := Prod.mk.inj (some.inj hh)
    exact stopSending_outcome h hfc err
  | stopSendingAcked =>
    obtain ⟨rfl, rfl⟩ := Prod.mk.inj (some.inj hh)
    exact stopSendingAcked_outcome h hfc sessionFc

lemma handle_of_ended (known : Option ℕ) (hfc : s.state.fc = none) {e : Event}
    (hh : s.handle sessionFc e = some (s', sessionFc')) :
    s' = s ∧ sessionFc' = sessionFc ∧ s.announced known e = known := by
  have hended := (isEnded_iff s).mpr hfc
  have hannounced : s.announced known e = known := by
    cases e <;> simp only [announced, if_pos hended]
  obtain ⟨id, state⟩ := s
  cases state <;> try cases hfc
  all_goals
    cases e with
    | frame | stopSending | stopSendingAcked =>
      obtain ⟨rfl, rfl⟩ := Prod.mk.inj (some.inj hh)
      exact ⟨rfl, rfl, hannounced⟩
    | reset =>
      simp only [handle, reset, ite_none_right_eq_some, some.injEq] at hh
      obtain ⟨hok, hs⟩ := hh
      split_ifs at hok hs
      · cases hok
      · obtain ⟨rfl, rfl⟩ := Prod.mk.inj hs
        exact ⟨rfl, rfl, hannounced⟩
    | read => cases hh

end RecvStream

/-! ### The connection -/

/-- A receiving stream and what is known about it from outside. -/
structure RecvAccount where
  stream : RecvStream
  /-- The final size that the peer has announced. -/
  finalSize : Option ℕ := none
  /-- By how much operations on this stream have raised what the connection has consumed. -/
  charged : ℕ := 0
  /-- By how much operations on this stream have raised what the connection has retired. -/
  returned : ℕ := 0

namespace RecvAccount

/-- The account after an event that has left `stream` and the flow control of the connection. -/
def update (a : RecvAccount) (e : RecvStream.Event) (stream : RecvStream)
    (sessionFc sessionFc' : SessionFc) : RecvAccount :=
  { stream := stream
    finalSize := a.stream.announced a.finalSize e
    charged := a.charged + (sessionFc'.consumed - sessionFc.consumed)
    returned := a.returned + (sessionFc'.retired - sessionFc.retired) }

/-- The account agrees with the stream's own flow control. -/
structure Settled (a : RecvAccount) : Prop where
  balanced : a.stream.state.Balanced a.finalSize
  charged : a.charged = a.stream.state.consumed a.finalSize
  returned : a.returned = a.stream.state.retired a.finalSize
  le_max : ∀ fc, a.stream.state.fc = some fc → fc.consumed ≤ fc.maxAllowed

/-- What an event does to the connection is recorded in the account of the stream. -/
structure Recorded (a a' : RecvAccount) (sessionFc sessionFc' : SessionFc) :
    Prop where
  settled : a'.Settled
  consumed : sessionFc'.consumed + a.charged = sessionFc.consumed + a'.charged
  retired : sessionFc'.retired + a.returned = sessionFc.retired + a'.returned
  session_le : sessionFc.consumed ≤ sessionFc.maxAllowed →
    sessionFc'.consumed ≤ sessionFc'.maxAllowed

lemma Settled.handle {a : RecvAccount} (h : a.Settled) {e : RecvStream.Event}
    {stream : RecvStream} {sessionFc sessionFc' : SessionFc}
    (hh : a.stream.handle sessionFc e = some (stream, sessionFc')) :
    Recorded a (a.update e stream sessionFc sessionFc') sessionFc sessionFc' := by
  have hcharged := h.charged
  have hreturned := h.returned
  cases hfc : a.stream.state.fc with
  | none =>
    obtain ⟨rfl, rfl, hknown⟩ := RecvStream.handle_of_ended a.finalSize hfc hh
    have hsame : a.update e a.stream sessionFc' sessionFc' = a := by
      simp only [update, hknown, Nat.sub_self, Nat.add_zero]
    rw [hsame]
    exact ⟨h, rfl, rfl, id⟩
  | some fc =>
    have ho := RecvStream.handle_outcome h.balanced hfc hh
    have h1 := ho.consumed
    have h2 := ho.retired
    have h3 := ho.consumed_le
    have h4 := ho.retired_le
    simp only [consumed, hfc] at hcharged
    simp only [retired, hfc] at hreturned
    refine ⟨⟨ho.balanced, ?_, ?_, ho.le_max (h.le_max fc hfc)⟩, ?_, ?_, ho.session_le⟩ <;>
      dsimp only [update] <;>
      omega

lemma settled_new (streamId : StreamId) (maxStreamData : ℕ) :
    Settled { stream := RecvStream.new streamId maxStreamData } where
  balanced := .recv ⟨⟨RxStreamOrderer.wf_new, Nat.zero_le _,
    fun _ ⟨k, v, hk, _⟩ => absurd hk (OrdMap.not_mem_empty k v)⟩, rfl⟩
  charged := rfl
  returned := rfl
  le_max _ hfc := some.inj hfc ▸ Nat.zero_le _

lemma Settled.returned_le {a : RecvAccount} (h : a.Settled) : a.returned ≤ a.charged := by
  rw [h.charged, h.returned]
  unfold consumed retired
  cases hfc : a.stream.state.fc with
  | none => exact le_rfl
  | some => exact h.balanced.retired_le hfc

lemma Settled.of_ended {a : RecvAccount} (h : a.Settled) (hended : a.stream.isEnded = true) :
    ∃ n, a.finalSize = some n ∧ a.charged = n ∧ a.returned = n := by
  have hfc := (RecvStream.isEnded_iff _).mp hended
  have hcharged := h.charged
  have hreturned := h.returned
  simp only [consumed, hfc] at hcharged
  simp only [retired, hfc] at hreturned
  have hknown : ∃ n, a.finalSize = some n := by
    have hb := h.balanced
    generalize a.stream.state = state at hb hfc
    generalize a.finalSize = known at hb
    cases hb <;> first | exact ⟨_, rfl⟩ | cases hfc
  obtain ⟨n, hn⟩ := hknown
  rw [hn] at hcharged hreturned
  exact ⟨n, hn, hcharged, hreturned⟩

end RecvAccount

/-- A connection's receiving streams and the flow control that they share. -/
structure RecvConnection where
  sessionFc : SessionFc
  accounts : List RecvAccount := []

namespace RecvConnection

/-- What can happen to a connection: a stream is created, or something happens to the `i`-th
stream. -/
inductive Op where
  | create (streamId : StreamId) (maxStreamData : ℕ)
  | event (i : ℕ) (e : RecvStream.Event)

/-- The connection after an operation, if it succeeds. -/
def step (c : RecvConnection) : Op → Option RecvConnection
  | .create streamId maxStreamData =>
    some { c with accounts := c.accounts ++ [{ stream := RecvStream.new streamId maxStreamData }] }
  | .event i e => do
    let a ← c.accounts[i]?
    let (stream, sessionFc) ← a.stream.handle c.sessionFc e
    return { sessionFc := sessionFc
             accounts := c.accounts.set i (a.update e stream c.sessionFc sessionFc) }

/-- The connection after a sequence of operations, if all of them succeed. -/
def run (c : RecvConnection) (ops : List Op) : Option RecvConnection := ops.foldlM step c

/-- **The invariant** of a connection. -/
structure Conserved (c : RecvConnection) : Prop where
  settled : ∀ a ∈ c.accounts, a.Settled
  consumed : c.sessionFc.consumed = (c.accounts.map RecvAccount.charged).sum
  retired : c.sessionFc.retired = (c.accounts.map RecvAccount.returned).sum
  le_max : c.sessionFc.consumed ≤ c.sessionFc.maxAllowed

lemma Conserved.step {c c' : RecvConnection} (h : c.Conserved) {op : Op}
    (hstep : c.step op = some c') : c'.Conserved := by
  have hconsumed := h.consumed
  have hretired := h.retired
  cases op with
  | create streamId maxStreamData =>
    obtain rfl := some.inj hstep
    refine ⟨fun a ha => ?_, ?_, ?_, h.le_max⟩
    · rcases mem_append.mp ha with h1 | h1
      · exact h.settled a h1
      · rw [mem_singleton.mp h1]
        exact RecvAccount.settled_new streamId maxStreamData
    · simpa using hconsumed
    · simpa using hretired
  | event i e =>
    simp only [RecvConnection.step, Option.pure_def, Option.bind_eq_bind,
      Option.bind_eq_some_iff, Option.some.injEq] at hstep
    obtain ⟨a, ha, ⟨stream, sessionFc⟩, hh, rfl⟩ := hstep
    have hrec := (h.settled a (mem_of_getElem? ha)).handle hh
    have hcharged := sum_map_set RecvAccount.charged ha (a.update e stream c.sessionFc sessionFc)
    have hreturned := sum_map_set RecvAccount.returned ha (a.update e stream c.sessionFc sessionFc)
    have h1 := hrec.consumed
    have h2 := hrec.retired
    refine ⟨fun b hb => ?_, ?_, ?_, hrec.session_le h.le_max⟩
    · rcases mem_or_eq_of_mem_set hb with h3 | rfl
      · exact h.settled b h3
      · exact hrec.settled
    · dsimp only
      omega
    · dsimp only
      omega

lemma Conserved.run {c c' : RecvConnection} (h : c.Conserved) {ops : List Op}
    (hrun : c.run ops = some c') : c'.Conserved := by
  induction ops generalizing c with
  | nil =>
    obtain rfl := some.inj hrun
    exact h
  | cons op rest ih =>
    simp only [RecvConnection.run, foldlM_cons, bind_eq_bind,
      bind_eq_some_iff] at hrun
    obtain ⟨c₁, hstep, hrest⟩ := hrun
    exact ih (h.step hstep) hrest

lemma conserved_new (maxData : ℕ) :
    Conserved { sessionFc := ReceiverFlowControl.new () maxData } where
  settled a ha := by cases ha
  consumed := rfl
  retired := rfl
  le_max := Nat.zero_le _

/-- **Receive flow control credit is conserved**: in every run whose operations all succeed,

* the connection has consumed and retired the sum of what its streams have;
* at both levels, no more is retired than consumed, and no more consumed than allowed;
* each stream has charged to the connection what it has consumed, and returned to it what it has
  retired, and both are its final size once it has ended. -/
theorem credit_conserved {maxData : ℕ} {ops : List Op} {c : RecvConnection}
    (hrun : run { sessionFc := ReceiverFlowControl.new () maxData } ops = some c) :
    c.sessionFc.consumed =
      (c.accounts.map fun a => a.stream.state.consumed a.finalSize).sum ∧
    c.sessionFc.retired =
      (c.accounts.map fun a => a.stream.state.retired a.finalSize).sum ∧
    c.sessionFc.retired ≤ c.sessionFc.consumed ∧ c.sessionFc.consumed ≤ c.sessionFc.maxAllowed ∧
    ∀ a ∈ c.accounts,
      a.charged = a.stream.state.consumed a.finalSize ∧
      a.returned = a.stream.state.retired a.finalSize ∧
      (∀ fc, a.stream.state.fc = some fc →
        fc.retired ≤ fc.consumed ∧ fc.consumed ≤ fc.maxAllowed) ∧
      (a.stream.isEnded = true →
        ∃ n, a.finalSize = some n ∧ a.charged = n ∧ a.returned = n) := by
  have h := (conserved_new maxData).run hrun
  have hcharged : c.accounts.map RecvAccount.charged =
      c.accounts.map fun a => a.stream.state.consumed a.finalSize :=
    map_congr_left fun a ha => (h.settled a ha).charged
  have hreturned : c.accounts.map RecvAccount.returned =
      c.accounts.map fun a => a.stream.state.retired a.finalSize :=
    map_congr_left fun a ha => (h.settled a ha).returned
  refine ⟨hcharged ▸ h.consumed, hreturned ▸ h.retired, ?_, h.le_max, fun a ha => ?_⟩
  · rw [h.consumed, h.retired]
    exact sum_le_sum fun a ha => (h.settled a ha).returned_le
  · have hs := h.settled a ha
    exact ⟨hs.charged, hs.returned,
      fun fc hfc => ⟨hs.balanced.retired_le hfc, hs.le_max fc hfc⟩, hs.of_ended⟩

/-- Two streams: one is read to its end, the other is reset with a reliable prefix, of which the
application reads a part before it abandons the stream. -/
def twoStreams : List Op :=
  [.create ⟨0⟩ 50, .create ⟨4⟩ 50, .event 0 (.frame false 2 [3, 4]),
    .event 1 (.frame false 0 [1, 2, 3]), .event 0 (.frame true 0 [1, 2, 3, 4]),
    .event 1 (.reset 7 20 5), .event 1 (.read 2), .event 0 (.read 9), .event 1 (.stopSending 0)]

theorem credit_conserved_two_streams :
    ∃ c, run { sessionFc := ReceiverFlowControl.new () 100 } twoStreams = some c ∧
      (c.sessionFc.consumed, c.sessionFc.retired) = (24, 24) ∧
      c.sessionFc.consumed = (c.accounts.map fun a => a.stream.state.consumed a.finalSize).sum := by
  have hsome : (run { sessionFc := ReceiverFlowControl.new () 100 } twoStreams).isSome = true := by
    decide
  obtain ⟨c, hc⟩ := isSome_iff_exists.mp hsome
  have hcredit : (run { sessionFc := ReceiverFlowControl.new () 100 } twoStreams).map
      (fun c => (c.sessionFc.consumed, c.sessionFc.retired)) = some (24, 24) := by decide
  rw [hc] at hcredit
  exact ⟨c, hc, some.inj hcredit, (credit_conserved hc).1⟩

end RecvConnection

end Neqo
