import Mathlib.Data.List.Nodup
import Neqo.Crypto.Keys
import Neqo.Util.Run

/-!
# Key epochs

After the application keys have been installed, the next read keys are one epoch after the current
ones and the write keys are of the epoch of either (`InStep`), so each key phase selects one of the
two read keys. A key update of the peer advances the write keys at most once, however often its
packets are duplicated: its epoch is remembered when it is noticed (`InStep.keyUpdateReceived`).
-/

namespace Neqo

open CryptoStates KeyedConnection Option

/-! ### Epochs of the keys of one direction -/

namespace CryptoDxState

variable (dx : CryptoDxState)

lemma epoch_used (pn : ℕ) : (dx.used pn).1.epoch = dx.epoch := by
  unfold used
  split_ifs <;> rfl

lemma epoch_decrypt (packet : ProtectedPacket) : (dx.decrypt packet).1.epoch = dx.epoch ∧
    ((dx.decrypt packet).2 = .ok () → packet.epoch = some dx.epoch) := by
  unfold decrypt invoked
  split_ifs
  · exact ⟨rfl, nofun⟩
  · dsimp only
    split_ifs with hepoch
    · exact ⟨epoch_used _ _, fun _ => hepoch⟩
    · exact ⟨rfl, nofun⟩

lemma epoch_encrypt (bodyLen : ℕ) : (dx.encrypt bodyLen).1.epoch = dx.epoch := by
  unfold encrypt invoked
  dsimp only
  split_ifs <;> first | rfl | exact epoch_used _ _

lemma invocations_encrypt {bodyLen : ℕ} (hlen : bodyLen ≤ dx.largestPacketLen) :
    (dx.encrypt bodyLen).1.invocations = dx.invocations - 1 := by
  unfold encrypt invoked used
  rw [if_neg hlen.not_gt]
  dsimp only
  by_cases hzero : dx.invocations = 0
  · rw [if_pos hzero, hzero]
  · rw [if_neg hzero]
    dsimp only
    split_ifs <;> rfl

/-- The keys after `n` packets have been encrypted, none of them large. -/
def spent (n : ℕ) : CryptoDxState :=
  { dx with invocations := dx.invocations - n, usedPn := ⟨dx.usedPn.start, dx.usedPn.stop + n⟩ }

lemma encrypt_eq {bodyLen : ℕ} (hlen : bodyLen ≤ dx.largestPacketLen) (hleft : dx.invocations ≠ 0)
    (hpn : dx.minPn ≤ dx.nextPn) : dx.encrypt bodyLen = (dx.spent 1, .ok ()) := by
  have hstart : (if dx.usedPn.start = dx.usedPn.stop then dx.nextPn else dx.usedPn.start) =
      dx.usedPn.start := ite_eq_right_iff.mpr Eq.symm
  unfold encrypt invoked used
  rw [if_neg hlen.not_gt]
  dsimp only
  rw [if_neg hleft]
  dsimp only
  rw [if_neg hpn.not_gt, hstart,
    max_eq_left (show dx.usedPn.stop ≤ dx.nextPn + 1 from Nat.le_succ _)]
  rfl

lemma epoch_continuation (dx prev : CryptoDxState) : (dx.continuation prev).1.epoch = dx.epoch := by
  unfold continuation
  dsimp only
  split_ifs <;> rfl

lemma keyPhase_of_epoch_succ {dx next : CryptoDxState} (h : next.epoch = dx.epoch + 1) :
    next.keyPhase = !dx.keyPhase := by
  unfold keyPhase
  rw [h]
  by_cases hodd : dx.epoch % 2 = 1
  · have heven : (dx.epoch + 1) % 2 = 0 := by omega
    simp [hodd, heven]
  · have hsucc : (dx.epoch + 1) % 2 = 1 := by omega
    simp [hodd, hsucc]

end CryptoDxState

/-! ### Epochs of the application keys -/

namespace CryptoStates

/-- The next read keys are one epoch after the current ones, and the write keys are of the epoch of
either. During a key update they have been updated, and the update was noticed; with 0-RTT read
keys the timer was started without an update. -/
inductive InStep : CryptoStates → Prop where
  | intro {zeroRtt : Option CryptoDxState} {cipher : Cipher} {write read next : CryptoDxAppData}
    {time epoch : Option ℕ} (next_eq : next.dx.epoch = read.dx.epoch + 1)
    (ahead : write.dx.epoch = read.dx.epoch ∨ write.dx.epoch = read.dx.epoch + 1)
    (noticed : 3 < read.dx.epoch → ∃ e, epoch = some e ∧ read.dx.epoch ≤ e)
    (update : time.isSome = true → zeroRtt.any (fun z => z.direction = .read) = true ∨
      write.dx.epoch = read.dx.epoch + 1 ∧ ∃ e, epoch = some e ∧ read.dx.epoch + 1 ≤ e) :
    InStep ⟨zeroRtt, cipher, some write, some read, some next, time, epoch⟩

/-- A key update with which the peer reached the epoch or a later one has been noticed. -/
def Noticed (s : CryptoStates) (epoch : ℕ) : Prop := ∃ e, s.readUpdateEpoch = some e ∧ epoch ≤ e

/-- Updates that were noticed are not forgotten, and the keys are in step or the connection is
closed. -/
structure Keeps (s s' : CryptoStates) (closes : Bool) : Prop where
  noticed : ∀ e, s.Noticed e → s'.Noticed e
  inStep : closes = false → InStep s'

/-- The epoch of the write keys. -/
def writeEpoch (s : CryptoStates) : ℕ := (s.appWrite.map fun write => write.dx.epoch).getD 0

/-- What the packet of an epoch can do to the epoch of the write keys: advance it by one if the
update was not noticed before. -/
structure Responds (s : CryptoStates) (r : CryptoStates × Res) (packet : Option ℕ) : Prop
    extends Keeps s r.1 (fatal r.2) where
  write : r.1.writeEpoch = s.writeEpoch ∨
    r.1.writeEpoch = s.writeEpoch + 1 ∧ ∃ e, packet = some e ∧ ¬ s.Noticed e ∧ r.1.Noticed e

variable {s s' : CryptoStates}

lemma InStep.keeps (h : InStep s) (closes : Bool) : Keeps s s closes := ⟨fun _ he => he, fun _ => h⟩

lemma InStep.responds (h : InStep s) (res : Res) (packet : Option ℕ) : Responds s (s, res) packet :=
  { h.keeps _ with write := .inl rfl }

lemma noticed_iff {epoch : ℕ} :
    s.readUpdateEpoch.any (fun e => epoch ≤ e) = true ↔ s.Noticed epoch := by
  unfold Noticed
  cases s.readUpdateEpoch with
  | none | some => simp

lemma readKeys_setReadKeys (s : CryptoStates) (keys : ReadKeys) (app : CryptoDxAppData) :
    (s.setReadKeys keys app).readKeys keys = some app := by
  cases keys <;> rfl

lemma InStep.setReadKeys (h : InStep s) {keys : ReadKeys} {app : CryptoDxAppData}
    (happ : s.readKeys keys = some app) {dx : CryptoDxState} (hdx : dx.epoch = app.dx.epoch) :
    InStep (s.setReadKeys keys { app with dx := dx }) := by
  obtain ⟨hnext, hahead, hnoticed, hupdate⟩ := h
  cases keys with
  | current =>
    cases happ
    rw [← hdx] at hnext hahead hnoticed hupdate
    exact .intro hnext hahead hnoticed hupdate
  | next =>
    cases happ
    exact .intro (hdx.trans hnext) hahead hnoticed hupdate

lemma InStep.of_not_noticed (h : InStep s) {keys : ReadKeys} {app : CryptoDxAppData}
    (happ : s.readKeys keys = some app) (hepoch : 3 < app.dx.epoch)
    (hnew : ¬ s.Noticed app.dx.epoch) :
    s.appRead.map (fun read => read.dx.epoch + 1) = some app.dx.epoch := by
  obtain ⟨hnext, -, hnoticed, -⟩ := h
  cases keys with
  | current =>
    cases happ
    exact absurd (hnoticed hepoch) hnew
  | next =>
    cases happ
    exact congrArg some hnext.symm

lemma InStep.maybeUpdateWrite (h : InStep s) :
    s.maybeUpdateWrite = .error .keysExhausted ∨
      ∃ write b, s.maybeUpdateWrite = .ok ({ s with appWrite := some write }, b) ∧
        s.appRead.map (fun read => read.dx.epoch + 1) = some write.dx.epoch := by
  obtain @⟨_, _, write, _, _, _, _, -, hahead, -, -⟩ := h
  unfold maybeUpdateWrite CryptoDxAppData.next
  dsimp only
  split_ifs with heq
  · exact .inl rfl
  · exact .inr ⟨_, true, rfl, congrArg (fun e => some (e + 1)) heq.symm⟩
  · exact .inr ⟨write, false, rfl, congrArg some (hahead.resolve_left heq).symm⟩

lemma InStep.keeps_write (h : InStep s) {b closes : Bool}
    (hupdate : s.maybeUpdateWrite = .ok (s', b)) : Keeps s s' closes := by
  rcases h.maybeUpdateWrite with herror | ⟨write, b, hok, hwrite⟩
  · exact nomatch hupdate.symm.trans herror
  · cases hupdate.symm.trans hok
    obtain ⟨hnext, -, hnoticed, hresponds⟩ := h
    have hahead := some.inj hwrite.symm
    exact ⟨fun _ he => he, fun _ => .intro hnext (.inr hahead) hnoticed
      fun htime => (hresponds htime).imp_right fun h => ⟨hahead, h.2⟩⟩

/-- **Respond to each key update once.**  Either the update was noticed before and nothing changes,
or the write keys are ahead of the read keys afterwards. -/
theorem InStep.keyUpdateReceived (h : InStep s) {epoch : ℕ} (expiration : ℕ)
    (hepoch : ¬ s.Noticed epoch → s.appRead.map (fun read => read.dx.epoch + 1) = some epoch) :
    Responds s (s.keyUpdateReceived epoch expiration) (some epoch) := by
  unfold CryptoStates.keyUpdateReceived
  by_cases hnoticed : s.readUpdateEpoch.any (fun e => epoch ≤ e) = true
  · rw [if_pos hnoticed]
    exact h.responds _ _
  rw [if_neg hnoticed]
  rw [noticed_iff] at hnoticed
  have hmono (e : ℕ) : s.Noticed e → ∃ e', some epoch = some e' ∧ e ≤ e' := fun ⟨e', he', hle⟩ =>
    ⟨epoch, rfl, hle.trans (Nat.le_of_not_le fun hepoch => hnoticed ⟨e', he', hepoch⟩)⟩
  have hread := hepoch hnoticed
  obtain @⟨_, cipher, _, read, next, _, _, hnext, hahead, -, hupdate⟩ := h
  have hle := (some.inj hread).le
  have hnoticed' : 3 < read.dx.epoch → ∃ e, some epoch = some e ∧ read.dx.epoch ≤ e :=
    fun _ => ⟨epoch, rfl, Nat.le_of_succ_le hle⟩
  dsimp only
  rcases InStep.maybeUpdateWrite (.intro hnext hahead hnoticed' fun htime =>
    (hupdate htime).imp_right fun h => ⟨h.1, epoch, rfl, hle⟩) with herror
      | ⟨write', b, hok, hwrite⟩
  · rw [herror]
    exact ⟨⟨hmono, nofun⟩, .inl rfl⟩
  · rw [hok]
    dsimp only
    have hwrite' := some.inj hwrite.symm
    split_ifs <;>
      exact ⟨⟨hmono, fun _ => .intro hnext (.inr hwrite') hnoticed'
          fun _ => .inr ⟨hwrite', epoch, rfl, hle⟩⟩,
        hahead.symm.imp (fun heq => hwrite'.trans heq.symm) fun heq =>
          ⟨hwrite'.trans (congrArg (· + 1) heq.symm), epoch, rfl, hnoticed, epoch, rfl, le_rfl⟩⟩

lemma Responds.checkPnOverlap {packet : Option ℕ} (h : Responds s (s', .ok ()) packet) :
    Responds s s'.checkPnOverlap packet := by
  obtain @⟨_, _, _, _, _, time, _, hnext, hahead, hnoticed, hupdate⟩ := h.inStep rfl
  cases time with
  | none => exact h
  | some =>
    exact ⟨⟨h.noticed, fun _ => .intro ((CryptoDxState.epoch_continuation _ _).trans hnext) hahead
      hnoticed hupdate⟩, h.write⟩

section

variable (h : InStep s)

include h

lemma InStep.decrypted {dx : CryptoDxState} (releaseAt : ℕ) (hdx : dx.needsUpdate = true →
      ¬ s.Noticed dx.epoch → s.appRead.map (fun read => read.dx.epoch + 1) = some dx.epoch) :
    Responds s (s.decrypted dx releaseAt) (some dx.epoch) := by
  unfold CryptoStates.decrypted
  split_ifs with hneeds
  · have hreceived := h.keyUpdateReceived releaseAt (hdx hneeds)
    generalize s.keyUpdateReceived dx.epoch releaseAt = result at hreceived ⊢
    obtain ⟨s', _ | _⟩ := result
    · exact hreceived
    · exact hreceived.checkPnOverlap
  · exact (h.responds _ _).checkPnOverlap

lemma InStep.decrypt (packet : ProtectedPacket) (releaseAt : ℕ) :
    Responds s (s.decrypt packet releaseAt) packet.epoch := by
  have hset {keys : ReadKeys} {app : CryptoDxAppData} {dx : CryptoDxState} {res : Res}
      (hkeys : s.readKeys keys = some app) (hres : app.dx.decrypt packet = (dx, res)) :
      InStep (s.setReadKeys keys { app with dx := dx }) :=
    h.setReadKeys hkeys (by rw [← (app.dx.epoch_decrypt packet).1, hres])
  fun_cases CryptoStates.decrypt s packet releaseAt with
  | case1 | case2 | case3 => exact h.responds _ _
  | case4 _ keys _ _ hkeys _ _ _ hres | case5 _ keys _ _ hkeys _ _ _ _ hres =>
    cases keys <;> exact ⟨⟨fun _ he => he, fun _ => hset hkeys hres⟩, .inl rfl⟩
  | case6 _ keys _ app hkeys dx _ _ _ hres =>
    obtain ⟨hepoch, hauthentic⟩ := app.dx.epoch_decrypt packet
    rw [hres] at hepoch hauthentic
    rw [hauthentic rfl, ← hepoch]
    have hdecrypted := (hset hkeys hres).decrypted releaseAt fun hneeds =>
      (hset hkeys hres).of_not_noticed (readKeys_setReadKeys _ _ _) (of_decide_eq_true hneeds).2
    cases keys <;> exact { hdecrypted with }

lemma InStep.checkKeyUpdate (now : ℕ) :
    Keeps s (s.checkKeyUpdate now).1 (failed (s.checkKeyUpdate now).2) := by
  obtain @⟨_, _, _, _, _, time, _, hnext, hahead, hnoticed, hupdate⟩ := id h
  cases time with
  | none => exact h.keeps _
  | some =>
    unfold checkKeyUpdate CryptoDxAppData.next
    dsimp only
    split_ifs with hnow hzero
    · exact ⟨fun _ he => he, fun _ => .intro hnext hahead hnoticed nofun⟩
    · exact ⟨fun _ he => he, nofun⟩
    · obtain ⟨hwrite, hnew⟩ := (hupdate rfl).resolve_left hzero
      rw [← hnext] at hwrite hnew
      exact ⟨fun _ he => he, fun _ => .intro rfl (.inl hwrite) (fun _ => hnew) nofun⟩
    · exact h.keeps _

lemma InStep.initiateKeyUpdate (largestAcknowledged : Option ℕ) :
    Keeps s (s.initiateKeyUpdate largestAcknowledged).1 false := by
  fun_cases CryptoStates.initiateKeyUpdate s largestAcknowledged with
  | case3 _ _ _ _ hupdate | case4 _ _ _ _ hupdate => exact h.keeps_write hupdate
  | _ => exact h.keeps _

lemma InStep.autoUpdate : Keeps s s.autoUpdate.1 (failed s.autoUpdate.2) := by
  fun_cases CryptoStates.autoUpdate s with
  | case2 _ _ hupdate | case3 _ _ hupdate => exact h.keeps_write hupdate
  | _ => exact h.keeps _

lemma InStep.encrypt (bodyLen : ℕ) :
    Keeps s (s.encrypt bodyLen).1 (failed (s.encrypt bodyLen).2) := by
  obtain @⟨_, _, write, _, _, _, _, hnext, hahead, hnoticed, hupdate⟩ := h
  rw [← write.dx.epoch_encrypt bodyLen] at hahead hupdate
  exact ⟨fun _ he => he, fun _ => .intro hnext hahead hnoticed hupdate⟩

end

end CryptoStates

/-! ### Runs -/

namespace KeyedConnection

/-- The epoch of the write keys. -/
def writeEpoch (c : KeyedConnection) : ℕ :=
  (c.states.appWrite.map fun write => write.dx.epoch).getD 0

/-- The epoch of the packet in response to which an operation advances the epoch of the write keys,
as often as it does. -/
def advanced (c : KeyedConnection) (op : KeyOp) : List (Option ℕ) :=
  match op with
  | .decrypt packet _ =>
    List.replicate ((c.step op).1.writeEpoch - c.writeEpoch) packet.epoch
  | _ => []

/-- The epochs of all packets in response to which the epoch of the write keys was advanced. -/
def responses : KeyedConnection → List KeyOp → List (Option ℕ)
  | _, [] => []
  | c, op :: ops => c.advanced op ++ responses (c.step op).1 ops

/-- The connection is closed or its keys are in step. -/
def Stepping (c : KeyedConnection) : Prop := c.closed = true ∨ c.states.InStep

variable {c : KeyedConnection}

lemma step_of_closed (h : c.closed = true) (op : KeyOp) : c.step op = (c, .ok ()) := by
  unfold step
  rw [if_pos h]

lemma Stepping.of_keeps {s : CryptoStates} {closes : Bool} (h : c.states.Keeps s closes) :
    Stepping { states := s, closed := closes } ∧ ∀ e, c.states.Noticed e → s.Noticed e := by
  refine ⟨?_, h.noticed⟩
  cases closes with
  | true => exact .inl rfl
  | false => exact .inr (h.inStep rfl)

lemma Stepping.step (h : c.Stepping) (op : KeyOp) :
    (c.step op).1.Stepping ∧ ∀ e, c.states.Noticed e → (c.step op).1.states.Noticed e := by
  by_cases hclosed : c.closed = true
  · rw [step_of_closed hclosed]
    exact ⟨h, fun _ he => he⟩
  have hstep := h.resolve_left hclosed
  unfold KeyedConnection.step
  rw [if_neg hclosed]
  cases op with
  | decrypt packet releaseAt => exact Stepping.of_keeps (hstep.decrypt packet releaseAt).toKeeps
  | checkKeyUpdate now => exact Stepping.of_keeps (hstep.checkKeyUpdate now)
  | initiateKeyUpdate acked => exact Stepping.of_keeps (hstep.initiateKeyUpdate acked)
  | autoUpdate => exact Stepping.of_keeps hstep.autoUpdate
  | encrypt bodyLen => exact Stepping.of_keeps (hstep.encrypt bodyLen)

/-- The epoch of the write keys is advanced by one, in response to an update that was not noticed
before. -/
lemma Stepping.advanced_cases (h : c.Stepping) (op : KeyOp) :
    c.advanced op = [] ∨
      ∃ e, c.advanced op = [some e] ∧ ¬ c.states.Noticed e ∧ (c.step op).1.states.Noticed e := by
  cases op with
  | decrypt packet releaseAt =>
    by_cases hclosed : c.closed = true
    · rw [advanced, step_of_closed hclosed, Nat.sub_self]
      exact .inl rfl
    have hstates : (c.step (.decrypt packet releaseAt)).1.states =
        (c.states.decrypt packet releaseAt).1 := by
      rw [KeyedConnection.step, if_neg hclosed]
    have hadvanced : c.advanced (.decrypt packet releaseAt) = List.replicate
        ((c.states.decrypt packet releaseAt).1.writeEpoch - c.states.writeEpoch) packet.epoch := by
      rw [← hstates]
      rfl
    rw [hadvanced, hstates]
    rcases ((h.resolve_left hclosed).decrypt packet releaseAt).write with
      hwrite | ⟨hwrite, e, hpacket, hnew, hold⟩
    · rw [hwrite, Nat.sub_self]
      exact .inl rfl
    · rw [hwrite, Nat.add_sub_cancel_left, hpacket]
      exact .inr ⟨e, rfl, hnew, hold⟩
  | checkKeyUpdate | initiateKeyUpdate | autoUpdate | encrypt => exact .inl rfl

lemma Stepping.responses_nodup (h : c.Stepping) (ops : List KeyOp) :
    (c.responses ops).Nodup ∧ ∀ p ∈ c.responses ops, ∃ e, p = some e ∧ ¬ c.states.Noticed e := by
  induction ops generalizing c with
  | nil => exact ⟨List.nodup_nil, nofun⟩
  | cons op ops ih =>
    obtain ⟨hnodup, hnew⟩ := ih (h.step op).1
    have hbefore : ∀ p ∈ (c.step op).1.responses ops, ∃ e, p = some e ∧ ¬ c.states.Noticed e := by
      intro p hp
      obtain ⟨e, rfl, he⟩ := hnew p hp
      exact ⟨e, rfl, fun hnoticed => he ((h.step op).2 e hnoticed)⟩
    unfold responses
    rcases h.advanced_cases op with hnone | ⟨e, hone, hfresh, hnoticed⟩
    · rw [hnone]
      exact ⟨hnodup, hbefore⟩
    · rw [hone]
      refine ⟨List.nodup_cons.mpr ⟨?_, hnodup⟩, ?_⟩
      · intro hmem
        obtain ⟨e', heq, he'⟩ := hnew _ hmem
        cases heq
        exact he' hnoticed
      · intro p hp
        rcases List.mem_cons.mp hp with rfl | hp
        · exact ⟨e, rfl, hfresh⟩
        · exact hbefore p hp

lemma Stepping.run (h : c.Stepping) (ops : List KeyOp) : (c.run ops).Stepping :=
  List.foldlRecOn ops _ h fun _ h op _ => (h.step op).1

lemma stepping_installed (cipher : Cipher) (zeroRtt lateZeroRtt : Option CryptoDxState)
    (expire0rtt : ℕ) : (installed cipher zeroRtt lateZeroRtt expire0rtt).Stepping := by
  obtain ⟨write, hstates, hepoch⟩ : ∃ write : CryptoDxAppData,
      ({ cipher := cipher, zeroRtt := zeroRtt } : CryptoStates).setApplicationWriteKey.1 =
        { cipher := cipher, appWrite := some write } ∧ write.dx.epoch = 3 := by
    rcases zeroRtt with _ | z
    · exact ⟨_, rfl, rfl⟩
    · unfold setApplicationWriteKey
      dsimp only
      cases z.direction with
      | read | write => exact ⟨_, rfl, rfl⟩
  right
  unfold installed
  dsimp only
  rw [hstates]
  cases lateZeroRtt with
  | none => exact .intro rfl (.inl hepoch) nofun nofun
  | some => exact .intro rfl (.inl hepoch) nofun fun _ => .inl rfl

/-- **Key epochs stay in step.**  While the connection is open, the next read keys are one epoch
after the current ones, the write keys are of the epoch of either, and each key phase selects the
one set of read keys that has it. The epoch of the write keys is advanced at most once in response
to the packets of an epoch. -/
theorem keyEpochs_in_step (cipher : Cipher) (zeroRtt lateZeroRtt : Option CryptoDxState)
    (expire0rtt : ℕ) (ops : List KeyOp) :
    ((installed cipher zeroRtt lateZeroRtt expire0rtt).responses ops).Nodup ∧
      (((installed cipher zeroRtt lateZeroRtt expire0rtt).run ops).closed = false →
        ∃ write read next,
          ((installed cipher zeroRtt lateZeroRtt expire0rtt).run ops).states.appWrite = some write ∧
          ((installed cipher zeroRtt lateZeroRtt expire0rtt).run ops).states.appRead = some read ∧
          ((installed cipher zeroRtt lateZeroRtt expire0rtt).run ops).states.appReadNext =
            some next ∧
          next.dx.epoch = read.dx.epoch + 1 ∧
          (write.dx.epoch = read.dx.epoch ∨ write.dx.epoch = read.dx.epoch + 1) ∧
          ∀ phase,
            (read.dx.keyPhase = phase ∧ next.dx.keyPhase ≠ phase ∧
              ((installed cipher zeroRtt lateZeroRtt expire0rtt).run ops).states.rx phase =
                some .current) ∨
            (read.dx.keyPhase ≠ phase ∧ next.dx.keyPhase = phase ∧
              ((installed cipher zeroRtt lateZeroRtt expire0rtt).run ops).states.rx phase =
                some .next)) := by
  have hstart := stepping_installed cipher zeroRtt lateZeroRtt expire0rtt
  refine ⟨(hstart.responses_nodup ops).1, ?_⟩
  intro hopen
  have hstep := (hstart.run ops).resolve_left (by rw [hopen]; exact nofun)
  generalize ((installed cipher zeroRtt lateZeroRtt expire0rtt).run ops).states = s at hstep ⊢
  obtain @⟨_, _, write, read, next, _, _, hepoch, hahead, -, -⟩ := hstep
  refine ⟨write, read, next, rfl, rfl, rfl, hepoch, hahead, fun phase => ?_⟩
  have hphase := CryptoDxState.keyPhase_of_epoch_succ hepoch
  cases hread : read.dx.keyPhase <;> cases phase <;> simp [rx, hphase, hread]

/-- A packet of epoch 4 that arrives twice. -/
def decryptTwice : List KeyOp :=
  let packet : ProtectedPacket := { keyPhase := true, pn := 7, epoch := some 4 }
  [.decrypt packet 100, .decrypt packet 100]

/-- The write keys are updated once for a packet that arrives twice. -/
theorem keyEpochs_in_step_duplicate :
    ((installed .tlsAes128GcmSha256 none none 0).run decryptTwice).closed = false ∧
      (installed .tlsAes128GcmSha256 none none 0).responses decryptTwice = [some 4] ∧
      ((installed .tlsAes128GcmSha256 none none 0).responses decryptTwice).Nodup ∧
      ∃ write read next,
        ((installed .tlsAes128GcmSha256 none none 0).run decryptTwice).states.appWrite =
          some write ∧
        ((installed .tlsAes128GcmSha256 none none 0).run decryptTwice).states.appRead = some read ∧
        ((installed .tlsAes128GcmSha256 none none 0).run decryptTwice).states.appReadNext =
          some next ∧
        next.dx.epoch = read.dx.epoch + 1 := by
  obtain ⟨hnodup, h⟩ := keyEpochs_in_step .tlsAes128GcmSha256 none none 0 decryptTwice
  obtain ⟨write, read, next, hwrite, hread, hnext, hepoch, -⟩ := h (by decide)
  exact ⟨by decide, by decide, hnodup, write, read, next, hwrite, hread, hnext, hepoch⟩

end KeyedConnection

/-!
## Assertions about the key update timer

When write keys are updated the timer should not run. After an update of the peer it runs until the
read keys are replaced, and no other update is noticed before (`InStep.readUpdateTime_eq_none`).
But it also runs for 0-RTT keys, and write keys can run low while it runs
(`keyUpdate_asserts_fail`).
-/

namespace CryptoStates

/-- The assertion in `maybeUpdateWrite`. -/
def maybeUpdateWriteAsserts (s : CryptoStates) : Bool := s.readUpdateTime.isNone

/-- The assertions in `autoUpdate`. -/
def autoUpdateAsserts (s : CryptoStates) : Bool :=
  if s.appWrite.any fun write => write.dx.shouldUpdate then s.maybeUpdateWriteAsserts else true

/-- The assertions in `initiateKeyUpdate`. -/
def initiateKeyUpdateAsserts (s : CryptoStates) (largestAcknowledged : Option ℕ) : Bool :=
  if s.appWrite.any fun write => write.dx.canUpdate largestAcknowledged &&
      s.readUpdateTime.isNone then
    s.maybeUpdateWriteAsserts
  else true

/-- The assertions in `keyUpdateReceived`. -/
def keyUpdateReceivedAsserts (s : CryptoStates) (epoch : ℕ) : Bool :=
  if s.readUpdateEpoch.any fun e => epoch ≤ e then true
  else s.maybeUpdateWriteAsserts && s.readUpdateTime.isSome == s.has0rttRead

/-- The assertions in `decrypt`, if it comes to `keyUpdateReceived`. -/
def decryptAsserts (s : CryptoStates) (packet : ProtectedPacket) : Bool :=
  if s.appRead.isNone then true
  else ((s.rx packet.keyPhase).bind s.readKeys).all fun app =>
    match app.dx.decrypt packet with
    | (_, .error _) => true
    | (dx, .ok _) => packet.reserved || !dx.needsUpdate || s.keyUpdateReceivedAsserts dx.epoch

variable {s : CryptoStates}

/-- No packet of the next epoch arrives while 0-RTT keys for reading are kept. -/
def NoUpdate (s : CryptoStates) (packet : ProtectedPacket) : Prop :=
  s.has0rttRead = true → ∀ next ∈ s.appReadNext, packet.epoch ≠ some next.dx.epoch

/-- Without 0-RTT keys, an update that was not noticed is noticed when no timer runs. -/
lemma InStep.readUpdateTime_eq_none (h : InStep s) {keys : ReadKeys} {app : CryptoDxAppData}
    (happ : s.readKeys keys = some app) (hepoch : 3 < app.dx.epoch)
    (hnew : ¬ s.Noticed app.dx.epoch)
    {packet : ProtectedPacket} (hpacket : packet.epoch = some app.dx.epoch)
    (hzero : s.NoUpdate packet) : s.readUpdateTime = none ∧ s.has0rttRead = false := by
  have hread := h.of_not_noticed happ hepoch hnew
  obtain @⟨_, _, _, read, next, time, _, hnext, -, -, hupdate⟩ := h
  replace hread : read.dx.epoch + 1 = _ := some.inj hread
  have hkept := mt hzero fun hkept => hkept next rfl (by rw [hpacket, ← hread, hnext])
  refine ⟨?_, Bool.eq_false_iff.mpr hkept⟩
  cases time with
  | none => rfl
  | some =>
    obtain ⟨-, hnoticed⟩ := (hupdate rfl).resolve_left hkept
    rw [hread] at hnoticed
    exact absurd hnoticed hnew

lemma InStep.decryptAsserts (h : InStep s) {packet : ProtectedPacket} (hzero : s.NoUpdate packet) :
    s.decryptAsserts packet = true := by
  unfold CryptoStates.decryptAsserts
  rw [ite_eq_left_iff, all_eq_true]
  intro _ app happ
  obtain ⟨keys, -, hkeys⟩ := bind_eq_some_iff.mp happ
  obtain ⟨hepoch, hauthentic⟩ := app.dx.epoch_decrypt packet
  generalize app.dx.decrypt packet = result at hepoch hauthentic ⊢
  obtain ⟨dx, _ | _⟩ := result
  · rfl
  dsimp only at hepoch ⊢
  cases hneeds : dx.needsUpdate with
  | false => rw [Bool.not_false, Bool.or_true, Bool.true_or]
  | true =>
    rw [Bool.or_eq_true_iff]
    right
    unfold keyUpdateReceivedAsserts maybeUpdateWriteAsserts
    split_ifs with hnoticed
    · rfl
    rw [noticed_iff, hepoch] at hnoticed
    obtain ⟨htime, hkept⟩ := h.readUpdateTime_eq_none hkeys (hepoch ▸ (of_decide_eq_true hneeds).2)
      hnoticed (hauthentic rfl) hzero
    rw [htime, hkept]
    rfl

lemma appWrite_checkPnOverlap (s : CryptoStates) : s.checkPnOverlap.1.appWrite = s.appWrite := by
  unfold checkPnOverlap
  split_ifs
  · split <;> rfl
  · rfl

/-- While the timer runs, what arrives does not change the write keys. -/
lemma InStep.appWrite_decrypt (h : InStep s) {packet : ProtectedPacket} (releaseAt : ℕ)
    (htime : s.readUpdateTime.isSome = true) (hzero : s.NoUpdate packet) :
    (s.decrypt packet releaseAt).1.appWrite = s.appWrite := by
  fun_cases CryptoStates.decrypt s packet releaseAt with
  | case1 | case2 | case3 => rfl
  | case4 _ keys | case5 _ keys => cases keys <;> rfl
  | case6 _ keys _ app hkeys dx set _ _ hres =>
    obtain ⟨hepoch, hauthentic⟩ := app.dx.epoch_decrypt packet
    rw [hres] at hepoch hauthentic
    have hset : set.appWrite = s.appWrite ∧ set.readUpdateEpoch = s.readUpdateEpoch := by
      cases keys <;> exact ⟨rfl, rfl⟩
    unfold CryptoStates.decrypted
    split_ifs with hneeds
    · have hnoticed : set.readUpdateEpoch.any (fun e => dx.epoch ≤ e) = true := by
        rw [hset.2, noticed_iff, show dx.epoch = app.dx.epoch from hepoch]
        by_contra hnew
        have hnone := (h.readUpdateTime_eq_none hkeys (hepoch ▸ (of_decide_eq_true hneeds).2) hnew
          (hauthentic rfl) hzero).1
        rw [hnone] at htime
        cases htime
      rw [CryptoStates.keyUpdateReceived, if_pos hnoticed]
      exact (appWrite_checkPnOverlap _).trans hset.1
    · exact (appWrite_checkPnOverlap _).trans hset.1

end CryptoStates

namespace KeyedConnection

variable {c : KeyedConnection}

/-- The number of packets that are encrypted. -/
def encrypted (ops : List KeyOp) : ℕ := ops.countP fun
  | .encrypt _ => true
  | _ => false

/-- While the timer runs, no packet is larger than those that the limit of the write keys is for,
and none of the next epoch arrives while 0-RTT read keys are kept. -/
def Undisturbed (c : KeyedConnection) (op : KeyOp) : Prop :=
  c.states.readUpdateTime.isSome = true ∧
    match op with
    | .encrypt bodyLen => ∀ write ∈ c.states.appWrite, bodyLen ≤ write.dx.largestPacketLen
    | .decrypt packet _ => c.states.NoUpdate packet
    | _ => True

/-- The write keys are not low after the given number of packets. -/
def Lasts (c : KeyedConnection) (n : ℕ) : Prop :=
  ∀ write ∈ c.states.appWrite, CryptoDxState.updateWriteKeysAt + n < write.dx.invocations

lemma Lasts.step {n : ℕ} {op : KeyOp} (h : c.Lasts (n + encrypted [op])) (hstep : c.Stepping)
    (hop : c.Undisturbed op) : (c.step op).1.Lasts n := by
  obtain ⟨htime, hop⟩ := hop
  by_cases hclosed : c.closed = true
  · rw [step_of_closed hclosed]
    exact fun write hwrite => (Nat.add_le_add_left (Nat.le_add_right _ _) _).trans_lt
      (h write hwrite)
  replace hstep := hstep.resolve_left hclosed
  have hsame : ∀ s : CryptoStates, s.appWrite = c.states.appWrite → ∀ closed,
      Lasts { states := s, closed := closed } n := fun s hs _ write hwrite =>
    (Nat.add_le_add_left (Nat.le_add_right _ _) _).trans_lt (h write (hs ▸ hwrite))
  unfold KeyedConnection.step
  rw [if_neg hclosed]
  cases op with
  | decrypt packet releaseAt => exact hsame _ (hstep.appWrite_decrypt releaseAt htime hop) _
  | checkKeyUpdate now =>
    refine hsame _ ?_ _
    fun_cases checkKeyUpdate c.states now <;> rfl
  | initiateKeyUpdate acked =>
    refine hsame _ ?_ _
    fun_cases initiateKeyUpdate c.states acked <;> simp_all
  | autoUpdate =>
    refine hsame _ ?_ _
    unfold autoUpdate
    rw [if_neg]
    rw [any_eq_true]
    rintro ⟨write, hwrite, hlow⟩
    have hlasts := h write hwrite
    have hle : write.dx.invocations ≤ _ := of_decide_eq_true hlow
    omega
  | encrypt bodyLen =>
    cases hwrite : c.states.appWrite with
    | none => simp [encrypt, Lasts, hwrite]
    | some write =>
      have hlasts := h write hwrite
      have hused := write.dx.invocations_encrypt (hop write hwrite)
      have hone : encrypted [.encrypt bodyLen] = 1 := rfl
      simp only [encrypt, hwrite, Lasts, mem_some_iff, forall_eq']
      omega

lemma Lasts.run {n : ℕ} {ops : List KeyOp} (h : c.Lasts (n + encrypted ops))
    (hstep : c.Stepping) (hops : Run.Along (fun c op => (c.step op).1) Undisturbed c ops) :
    (c.run ops).Lasts n := by
  induction ops generalizing c with
  | nil => exact h
  | cons op ops ih =>
    rw [encrypted, ← List.singleton_append, List.countP_append, add_left_comm, add_comm] at h
    exact ih (h.step hstep hops.1) (hstep.step op).1 hops.2

/-- **The assertions about the timer hold** if the peer does not update its keys while 0-RTT read
keys are kept, and the write keys last for the packets encrypted while the timer runs. -/
theorem keyUpdate_asserts (cipher : Cipher) (zeroRtt lateZeroRtt : Option CryptoDxState)
    (expire0rtt : ℕ) (ops : List KeyOp) :
    let start := installed cipher zeroRtt lateZeroRtt expire0rtt
    (∀ packet, (start.run ops).closed = false → (start.run ops).states.NoUpdate packet →
      (start.run ops).states.decryptAsserts packet = true) ∧
    (∀ largestAcknowledged,
      (start.run ops).states.initiateKeyUpdateAsserts largestAcknowledged = true) ∧
    (∀ timed, Run.Along (fun c op => (c.step op).1) Undisturbed (start.run ops) timed →
      (start.run ops).Lasts (encrypted timed) →
      ((start.run ops).run timed).states.autoUpdateAsserts = true) := by
  intro start
  have hstep := (stepping_installed cipher zeroRtt lateZeroRtt expire0rtt).run ops
  refine ⟨fun packet hopen hzero => ?_, fun largestAcknowledged => ?_,
    fun timed htimed hlasts => ?_⟩
  · exact (hstep.resolve_left (ne_true_of_eq_false hopen)).decryptAsserts hzero
  · unfold initiateKeyUpdateAsserts maybeUpdateWriteAsserts
    cases (start.run ops).states.readUpdateTime <;> simp
  · have hlasts' := Lasts.run (n := 0) ((Nat.zero_add _).symm ▸ hlasts) hstep htimed
    unfold autoUpdateAsserts
    rw [if_neg]
    rw [any_eq_true]
    rintro ⟨write, hwrite, hlow⟩
    exact absurd (hlasts' write hwrite) (of_decide_eq_true hlow).not_gt

/-- The timer runs after an update of the peer, and a packet is sent. -/
theorem keyUpdate_asserts_of_update :
    let c := (installed .tlsAes128GcmSha256 none none 0).run
      [.decrypt { keyPhase := true, pn := 7, epoch := some 4 } 100]
    c.states.readUpdateTime = some 100 ∧
      (c.run [.encrypt 1200]).states.autoUpdateAsserts = true := by
  refine ⟨by decide, (keyUpdate_asserts .tlsAes128GcmSha256 none none 0
    [.decrypt { keyPhase := true, pn := 7, epoch := some 4 } 100]).2.2 [.encrypt 1200] ?_ ?_⟩
  · refine ⟨⟨rfl, ?_⟩, trivial⟩
    rintro write ⟨⟩
    decide
  · rintro write ⟨⟩
    decide

/-! ### Write keys that run low -/

lemma run_append (c : KeyedConnection) (ops ops' : List KeyOp) :
    c.run (ops ++ ops') = (c.run ops).run ops' := List.foldl_append

lemma run_encrypts {write : CryptoDxAppData} {n : ℕ} (hopen : c.closed = false)
    (hwrite : c.states.appWrite = some write) (hn : n ≤ write.dx.invocations)
    (hlen : 1 ≤ write.dx.largestPacketLen) (hpn : write.dx.minPn ≤ write.dx.nextPn) :
    c.run (List.replicate n (.encrypt 1)) =
      { c with states :=
          { c.states with appWrite := some { write with dx := write.dx.spent n } } } := by
  induction n with
  | zero =>
    rw [show write.dx.spent 0 = write.dx from rfl, ← hwrite]
    rfl
  | succ n ih =>
    rw [List.replicate_succ', run_append, ih (Nat.le_of_succ_le hn), run, List.foldl_cons,
      List.foldl_nil, step, if_neg (ne_true_of_eq_false hopen)]
    dsimp only [encrypt]
    rw [(write.dx.spent n).encrypt_eq hlen (Nat.sub_ne_zero_of_lt hn)
      (hpn.trans (Nat.le_add_right _ n)), hopen]
    rfl

/-- The peer updates its keys while a server keeps 0-RTT read keys. Or it responds to an update
when the write keys are almost used up, and then they run low. -/
theorem keyUpdate_asserts_fail :
    let packet : ProtectedPacket := { keyPhase := true, pn := 7, epoch := some 4 }
    let server := installed .tlsAes128GcmSha256 none
      (some (.new .read .zeroRtt .tlsAes128GcmSha256 0)) 100
    let c := (installed .tlsAes128GcmSha256 none none 0).run
      ([.initiateKeyUpdate none] ++ (List.replicate 268435355 (.encrypt 1) ++
        [.decrypt packet 100, .encrypt 1]))
    server.closed = false ∧ server.states.decryptAsserts packet = false ∧
      c.closed = false ∧ c.states.autoUpdateAsserts = false := by
  -- The number of packets stays a variable until they have been encrypted.
  generalize hn : 268435355 = n
  dsimp only
  rw [run_append, run_append, @run_encrypts _ ⟨(CryptoDxState.new .write .applicationData
    .tlsAes128GcmSha256 0).next .tlsAes128GcmSha256, .tlsAes128GcmSha256⟩ n (by decide) (by decide)
    (hn ▸ by decide) (by decide) (by decide), ← hn]
  decide

end KeyedConnection

end Neqo
