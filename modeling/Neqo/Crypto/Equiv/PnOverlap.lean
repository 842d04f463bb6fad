import Neqo.Crypto.Keys

/-!
# Packet numbers across key updates

If packets of a later epoch have higher numbers, the packet numbers of two sets of keys do not
overlap. During a key update, the check for this compares the numbers used with the old keys with
the start of the range of the new keys. But each check moves that start down to where the range of
the old keys stops, so it reports an overlap exactly if a packet protected with the old keys has a
higher number than all those before it (`no_overlap_iff_noneLate`).
-/

namespace Neqo

open CryptoStates KeyedConnection

namespace CryptoDxState

/-- Whether the keys remove the protection of a packet. -/
def decrypts (dx : CryptoDxState) (packet : ProtectedPacket) : Bool :=
  dx.invocations ≠ 0 && packet.epoch = some dx.epoch

/-- The keys after they have removed the protection of a packet. -/
def mark (dx : CryptoDxState) (pn : ℕ) : CryptoDxState :=
  { dx with
    invocations := dx.invocations - 1
    usedPn := ⟨if dx.usedPn.start = dx.usedPn.stop then pn else dx.usedPn.start,
      max (pn + 1) dx.usedPn.stop⟩ }

variable {dx prev : CryptoDxState} {packet : ProtectedPacket}

lemma decrypt_of_decrypts (h : dx.decrypts packet = true) (hmin : dx.minPn ≤ packet.pn) :
    dx.decrypt packet = (dx.mark packet.pn, .ok ()) := by
  obtain ⟨hnonzero, hepoch⟩ : dx.invocations ≠ 0 ∧ packet.epoch = some dx.epoch := by
    simpa [decrypts] using h
  simp [decrypt, invoked, hnonzero, hepoch, used, not_lt.mpr hmin, mark]

lemma decrypt_of_not_decrypts (h : dx.decrypts packet = false) :
    ∃ e n, dx.decrypt packet = ({ dx with invocations := n }, .error e) ∧
      e ≠ .packetNumberOverlap := by
  unfold decrypt invoked
  by_cases hzero : dx.invocations = 0
  · rw [if_pos hzero]
    exact ⟨_, _, rfl, nofun⟩
  · have hepoch : packet.epoch ≠ some dx.epoch := by simpa [decrypts, hzero] using h
    simp only [if_neg hzero, if_neg hepoch]
    exact ⟨_, _, rfl, nofun⟩

lemma continuation_of_le (hused : dx.usedPn.start < dx.usedPn.stop)
    (hle : prev.usedPn.stop ≤ dx.usedPn.start) :
    dx.continuation prev =
      ({ dx with minPn := prev.usedPn.stop, usedPn := ⟨prev.usedPn.stop, dx.usedPn.stop⟩ },
        .ok ()) := by
  simp [continuation, PnRange.isEmpty, nextPn, hused, not_lt.mpr hle]

lemma continuation_of_lt (hused : dx.usedPn.start < dx.usedPn.stop)
    (hlt : dx.usedPn.start < prev.usedPn.stop) :
    (dx.continuation prev).2 = .error .packetNumberOverlap := by
  simp [continuation, PnRange.isEmpty, hused, hlt]

end CryptoDxState

open CryptoDxState

/-! ### The invariant -/

/-- Which packet numbers the packets of each epoch have: those of later epochs are higher. -/
structure Numbering where
  mem : ℕ → ℕ → Prop
  lt : ∀ {e pn e' pn'}, mem e pn → mem e' pn' → e < e' → pn < pn'

/-- What the ranges of the current and of the next read keys say about the packet numbers. -/
structure ReadKeysInv (g : Numbering) (read next : CryptoDxState) (updating : Bool)
    (updateEpoch : Option ℕ) : Prop where
  epoch : next.epoch = read.epoch + 1
  minEpoch : 3 ≤ read.epoch
  readMin : ∀ pn, g.mem read.epoch pn → read.minPn ≤ pn
  readStop : ∀ e pn, g.mem e pn → read.epoch < e → read.usedPn.stop ≤ pn
  nextMin : ∀ pn, g.mem next.epoch pn → next.minPn ≤ pn
  nextStop : ∀ e pn, g.mem e pn → next.epoch < e → next.usedPn.stop ≤ pn
  /-- The update to the current keys has been responded to. -/
  responded : read.epoch ≤ 3 ∨ updateEpoch.any (fun e => read.epoch ≤ e) = true
  idle : updating = false →
    next.usedPn.start = next.usedPn.stop ∧ next.usedPn.stop ≤ read.usedPn.stop ∨
      updateEpoch.any (fun e => next.epoch ≤ e) = true
  update : updating = true →
    next.usedPn.start = read.usedPn.stop ∧ read.usedPn.stop < next.usedPn.stop ∧
      updateEpoch.any (fun e => next.epoch ≤ e) = true

namespace ReadKeysInv

variable {g : Numbering} {read next : CryptoDxState} {updating : Bool} {updateEpoch : Option ℕ}
  {pn : ℕ}

section

variable (h : ReadKeysInv g read next updating updateEpoch)

include h

/-- Packets that the next keys protect come after all that were read with the current ones. -/
lemma readStop_le (hpn : g.mem next.epoch pn) : read.usedPn.stop ≤ pn :=
  h.readStop _ pn hpn (h.epoch ▸ Nat.lt_succ_self _)

lemma markRead (hpn : g.mem read.epoch pn) (hstop : updating = true → pn < read.usedPn.stop) :
    ReadKeysInv g (read.mark pn) next updating updateEpoch :=
  { h with
    readStop := fun e pn' hmem hlt => max_le (g.lt hpn hmem hlt) (h.readStop e pn' hmem hlt)
    idle := fun hidle => (h.idle hidle).imp_left fun hempty =>
      ⟨hempty.1, hempty.2.trans (le_max_right _ _)⟩
    update := fun hupdating => by
      rw [mark, max_eq_right (Nat.succ_le_of_lt (hstop hupdating))]
      exact h.update hupdating }

lemma markNext (hpn : g.mem next.epoch pn)
    (hnoticed : updateEpoch.any (fun e => next.epoch ≤ e) = true) :
    ReadKeysInv g read (next.mark pn) updating updateEpoch :=
  { h with
    nextStop := fun e pn' hmem hlt => max_le (g.lt hpn hmem hlt) (h.nextStop e pn' hmem hlt)
    idle := fun _ => .inr hnoticed
    update := fun hupdating => by
      obtain ⟨hstart, hlt, -⟩ := h.update hupdating
      rw [mark, if_neg (by omega)]
      exact ⟨hstart, lt_of_lt_of_le hlt (le_max_right _ _), hnoticed⟩ }

end

/-- The check for overlap passes while the start of the next range is where the current one
stops. -/
lemma continuation_ok (h : ReadKeysInv g read next true updateEpoch) :
    (next.continuation read).2 = .ok () ∧
      ReadKeysInv g read (next.continuation read).1 true updateEpoch := by
  obtain ⟨hstart, hlt, hnoticed⟩ := h.update rfl
  rw [continuation_of_le (by omega) (by omega)]
  exact ⟨rfl, { h with
    nextMin := fun pn => h.readStop_le, idle := nofun, update := fun _ => ⟨rfl, hlt, hnoticed⟩ }⟩

lemma startUpdate (h : ReadKeysInv g read next false updateEpoch)
    (hempty : next.usedPn.start = next.usedPn.stop)
    (hstop : next.usedPn.stop ≤ read.usedPn.stop) (hpn : g.mem next.epoch pn) :
    (next.mark pn).needsUpdate = true ∧ ((next.mark pn).continuation read).2 = .ok () ∧
      ReadKeysInv g read ((next.mark pn).continuation read).1 true (some next.epoch) := by
  have hlower := h.readStop_le hpn
  have hused : (next.mark pn).usedPn = ⟨pn, pn + 1⟩ := by
    rw [mark, if_pos hempty, max_eq_left (by omega)]
  refine ⟨?_, ?_⟩
  · have hepoch : (next.mark pn).epoch > 3 := h.epoch ▸ Nat.lt_succ_of_le h.minEpoch
    simp [needsUpdate, hused, Epoch.toNat, hepoch]
  · rw [continuation_of_le (by rw [hused]; exact Nat.lt_succ_self pn) (by rw [hused]; exact hlower)]
    rw [hused]
    exact ⟨rfl, { h with
      nextMin := fun pn' => h.readStop_le
      nextStop := fun e pn' hmem hlt => g.lt hpn hmem hlt
      responded := .inr (decide_eq_true (h.epoch ▸ Nat.le_succ _))
      idle := nofun
      update := fun _ => ⟨rfl, Nat.lt_succ_of_le hlower, decide_eq_true le_rfl⟩ }⟩

lemma rotate (h : ReadKeysInv g read next true updateEpoch) (cipher : Cipher) :
    ReadKeysInv g next (next.next cipher) false updateEpoch where
  epoch := rfl
  minEpoch := h.epoch ▸ Nat.le_succ_of_le h.minEpoch
  readMin := h.nextMin
  readStop := h.nextStop
  nextMin := fun pn hmem => h.nextStop _ pn hmem (Nat.lt_succ_self _)
  nextStop := fun e pn hmem hlt => h.nextStop e pn hmem (Nat.lt_of_succ_lt hlt)
  responded := .inr (h.update rfl).2.2
  idle := fun _ => .inl ⟨rfl, le_refl _⟩
  update := nofun

end ReadKeysInv

/-! ### The keys of a connection -/

namespace CryptoStates

/-- Application keys are installed, and the ranges of packet numbers are as they should be. -/
inductive Inv (g : Numbering) : CryptoStates → Prop where
  | intro {cipher : Cipher} {write read next : CryptoDxAppData} {time epoch : Option ℕ}
    (hwrite : write.dx.minPn ≤ write.dx.usedPn.stop)
    (hkeys : ReadKeysInv g read.dx next.dx time.isSome epoch) :
    Inv g ⟨none, cipher, some write, some read, some next, time, epoch⟩

/-- A packet that is decrypted with the current read keys during a key update, although its number
is higher than all those before it. -/
def late (s : CryptoStates) (packet : ProtectedPacket) : Bool :=
  s.readUpdateTime.isSome && s.rx packet.keyPhase = some .current && !packet.reserved &&
    s.appRead.any fun read =>
      read.dx.decrypts packet && read.dx.usedPn.stop ≤ packet.pn

variable {g : Numbering} {s : CryptoStates} {cipher : Cipher} {write read next : CryptoDxAppData}
  {time epoch : Option ℕ} {pn : ℕ}

lemma decrypted_of_noticed {dx : CryptoDxState} (releaseAt : ℕ)
    (h : dx.needsUpdate = true → s.readUpdateEpoch.any (fun e => dx.epoch ≤ e) = true) :
    s.decrypted dx releaseAt = s.checkPnOverlap := by
  unfold decrypted
  cases hneeds : dx.needsUpdate with
  | false => rfl
  | true =>
    rw [if_pos rfl, keyUpdateReceived, if_pos (h hneeds)]

lemma maybeUpdateWrite_cases (hwrite : write.dx.minPn ≤ write.dx.usedPn.stop) :
    maybeUpdateWrite ⟨none, cipher, some write, some read, some next, time, epoch⟩ =
        .error .keysExhausted ∨
      ∃ write' b, maybeUpdateWrite ⟨none, cipher, some write, some read, some next, time, epoch⟩ =
          .ok (⟨none, cipher, some write', some read, some next, time, epoch⟩, b) ∧
        write'.dx.minPn ≤ write'.dx.usedPn.stop := by
  unfold maybeUpdateWrite CryptoDxAppData.next
  dsimp only
  split_ifs
  · exact .inl rfl
  · exact .inr ⟨_, true, rfl, le_refl _⟩
  · exact .inr ⟨write, false, rfl, hwrite⟩

section

variable (hwrite : write.dx.minPn ≤ write.dx.usedPn.stop)
  (hkeys : ReadKeysInv g read.dx next.dx time.isSome epoch)

include hwrite hkeys

lemma decrypted_current (hpn : g.mem read.dx.epoch pn) (releaseAt : ℕ) {r : CryptoStates × Res}
    (hr : r = (⟨none, cipher, some write, some { read with dx := read.dx.mark pn }, some next, time,
      epoch⟩ : CryptoStates).decrypted (read.dx.mark pn) releaseAt) :
    if time.isSome = true ∧ read.dx.usedPn.stop ≤ pn then r.2 = .error .packetNumberOverlap
    else r.2 = .ok () ∧ Inv g r.1 := by
  obtain rfl := hr.trans (decrypted_of_noticed releaseAt fun hneeds =>
    hkeys.responded.resolve_left (not_le.mpr (of_decide_eq_true hneeds).2))
  cases time with
  | none =>
    rw [if_neg nofun]
    exact ⟨rfl, .intro hwrite (hkeys.markRead hpn nofun)⟩
  | some t =>
    obtain ⟨hstart, hlt, -⟩ := hkeys.update rfl
    split_ifs with hlate
    · refine continuation_of_lt (hstart ▸ hlt) (hstart ▸ ?_)
      exact lt_of_lt_of_le (Nat.lt_succ_of_le hlate.2) (le_max_left _ _)
    · obtain ⟨hok, hcontinued⟩ := (hkeys.markRead hpn fun _ =>
        Nat.lt_of_not_le fun hle => hlate ⟨rfl, hle⟩).continuation_ok
      exact ⟨hok, .intro hwrite hcontinued⟩

lemma decrypted_next (hpn : g.mem next.dx.epoch pn) (releaseAt : ℕ) {r : CryptoStates × Res}
    (hr : r = (⟨none, cipher, some write, some read, some { next with dx := next.dx.mark pn }, time,
      epoch⟩ : CryptoStates).decrypted (next.dx.mark pn) releaseAt) :
    r.2 = .error .keysExhausted ∨ r.2 = .ok () ∧ Inv g r.1 := by
  cases hnoticed : epoch.any fun e => (next.dx.mark pn).epoch ≤ e with
  | true =>
    obtain rfl := hr.trans (decrypted_of_noticed releaseAt fun _ => hnoticed)
    right
    have hmarked := hkeys.markNext hpn hnoticed
    cases time with
    | none => exact ⟨rfl, .intro hwrite hmarked⟩
    | some t =>
      obtain ⟨hok, hcontinued⟩ := hmarked.continuation_ok
      exact ⟨hok, .intro hwrite hcontinued⟩
  | false =>
    -- No update has been noticed, so that no packet has been read with the next keys.
    cases time with
    | some t => exact absurd (hkeys.update rfl).2.2 ((Bool.not_eq_true _).mpr hnoticed)
    | none =>
      obtain ⟨hempty, hstop⟩ := (hkeys.idle rfl).resolve_right ((Bool.not_eq_true _).mpr hnoticed)
      obtain ⟨hneeds, hok, hcontinued⟩ := hkeys.startUpdate hempty hstop hpn
      simp only [decrypted, if_pos hneeds, keyUpdateReceived, hnoticed, Bool.false_eq_true,
        if_false] at hr
      rcases maybeUpdateWrite_cases hwrite with herror | ⟨write', b, hupdate, hwrite'⟩
      · rw [herror] at hr
        exact .inl (congrArg Prod.snd hr)
      · rw [hupdate] at hr
        subst hr
        exact .inr ⟨hok, .intro hwrite' hcontinued⟩

end

/-! ### Operations -/

section

variable {packet : ProtectedPacket} {keys : ReadKeys} {app : CryptoDxAppData}
  (hread : s.appRead = some read) (hrx : s.rx packet.keyPhase = some keys)
  (happ : s.readKeys keys = some app) (releaseAt : ℕ)

include hread hrx happ

lemma decrypt_of_not_decrypts (h : app.dx.decrypts packet = false) :
    ∃ e n, s.decrypt packet releaseAt =
        (s.setReadKeys keys { app with dx := { app.dx with invocations := n } }, .error e) ∧
      e ≠ .packetNumberOverlap := by
  obtain ⟨e, n, hres, hne⟩ := CryptoDxState.decrypt_of_not_decrypts h
  simp only [decrypt, hread, hrx, happ, hres]
  exact ⟨e, n, rfl, hne⟩

lemma decrypt_of_decrypts (h : app.dx.decrypts packet = true) (hmin : app.dx.minPn ≤ packet.pn) :
    s.decrypt packet releaseAt =
      let s := s.setReadKeys keys { app with dx := app.dx.mark packet.pn }
      if packet.reserved then (s, .error .protocolViolation)
      else s.decrypted (app.dx.mark packet.pn) releaseAt := by
  simp [decrypt, hread, hrx, happ, CryptoDxState.decrypt_of_decrypts h hmin]

end

/-- What an operation does if packets are numbered in order: it does not fail for an overlap, and it
keeps the invariant or closes the connection. -/
structure Safe (g : Numbering) (r : CryptoStates × Res) (closes : Bool) : Prop where
  noOverlap : r.2 ≠ .error .packetNumberOverlap
  inv : closes = false → Inv g r.1

lemma Safe.of_ok {r : CryptoStates × Res} {closes : Bool} (h : r.2 = .ok () ∧ Inv g r.1) :
    Safe g r closes :=
  ⟨by rw [h.1]; exact nofun, fun _ => h.2⟩

lemma Safe.of_exhausted {r : CryptoStates × Res} (h : r.2 = .error .keysExhausted) :
    Safe g r (fatal r.2) :=
  ⟨by rw [h]; exact nofun, by rw [h]; exact nofun⟩

/-- A packet is rejected for its number exactly if it is late. -/
lemma Inv.decrypt (h : Inv g s) {packet : ProtectedPacket}
    (hpacket : ∀ e, packet.epoch = some e → g.mem e packet.pn) (releaseAt : ℕ) :
    s.late packet = true ∧ (s.decrypt packet releaseAt).2 = .error .packetNumberOverlap ∨
      s.late packet = false ∧ Safe g (s.decrypt packet releaseAt)
        (fatal (s.decrypt packet releaseAt).2) := by
  have hmem {dx : CryptoDxState} (h : dx.decrypts packet = true) : g.mem dx.epoch packet.pn :=
    hpacket _ (of_decide_eq_true (Bool.and_eq_true_iff.mp h).2)
  obtain @⟨cipher, write, read, next, time, epoch, hwrite, hkeys⟩ := h
  cases hrx : rx ⟨none, cipher, some write, some read, some next, time, epoch⟩ packet.keyPhase with
  | none =>
    refine .inr ⟨by simp [late, hrx], ?_⟩
    simp only [decrypt, hrx]
    exact ⟨nofun, fun _ => .intro hwrite hkeys⟩
  | some keys =>
    cases keys with
    | current =>
      cases hdecrypts : read.dx.decrypts packet with
      | false =>
        obtain ⟨e, n, heq, hne⟩ := decrypt_of_not_decrypts rfl hrx rfl releaseAt hdecrypts
        refine .inr ⟨by simp [late, hdecrypts], ?_⟩
        rw [heq]
        exact ⟨fun herror => hne (Except.error.inj herror), fun _ => .intro hwrite { hkeys with }⟩
      | true =>
        rw [decrypt_of_decrypts rfl hrx rfl releaseAt hdecrypts (hkeys.readMin _ (hmem hdecrypts))]
        cases hreserved : packet.reserved with
        | true => exact .inr ⟨by simp [late, hreserved], nofun, nofun⟩
        | false =>
          have hafter := @decrypted_current _ cipher _ _ _ _ _ _ hwrite hkeys
            (hmem hdecrypts) releaseAt _ rfl
          split_ifs at hafter with hcond
          · exact .inl ⟨by simp [late, hrx, hdecrypts, hreserved, hcond], hafter⟩
          · exact .inr ⟨by simpa [late, hrx, hdecrypts, hreserved] using hcond, .of_ok hafter⟩
    | next =>
      refine .inr ⟨by simp [late, hrx], ?_⟩
      cases hdecrypts : next.dx.decrypts packet with
      | false =>
        obtain ⟨e, n, heq, hne⟩ := decrypt_of_not_decrypts rfl hrx rfl releaseAt hdecrypts
        rw [heq]
        exact ⟨fun herror => hne (Except.error.inj herror), fun _ => .intro hwrite { hkeys with }⟩
      | true =>
        rw [decrypt_of_decrypts rfl hrx rfl releaseAt hdecrypts (hkeys.nextMin _ (hmem hdecrypts))]
        cases packet.reserved with
        | true => exact ⟨nofun, nofun⟩
        | false =>
          rcases decrypted_next hwrite hkeys (hmem hdecrypts) releaseAt rfl with hexhausted | hok
          · exact .of_exhausted hexhausted
          · exact .of_ok hok

lemma Inv.checkKeyUpdate (h : Inv g s) (now : ℕ) :
    Safe g (s.checkKeyUpdate now) (failed (s.checkKeyUpdate now).2) := by
  obtain ⟨hwrite, hkeys⟩ := id h
  rename_i time _
  cases time with
  | none => exact ⟨nofun, fun _ => h⟩
  | some =>
    unfold checkKeyUpdate CryptoDxAppData.next
    simp only [has0rttRead, Option.any_none, Bool.false_eq_true, if_false]
    split_ifs
    · exact ⟨nofun, nofun⟩
    · exact ⟨nofun, fun _ => .intro hwrite (hkeys.rotate _)⟩
    · exact ⟨nofun, fun _ => h⟩

lemma Inv.initiateKeyUpdate (h : Inv g s) (largestAcknowledged : Option ℕ) :
    Safe g (s.initiateKeyUpdate largestAcknowledged) false := by
  obtain ⟨hwrite, hkeys⟩ := id h
  unfold initiateKeyUpdate
  dsimp only
  split_ifs
  · rcases maybeUpdateWrite_cases hwrite with herror | ⟨write', b, hok, hwrite'⟩
    · rw [herror]
      exact ⟨nofun, fun _ => h⟩
    · rw [hok]
      cases b <;> exact ⟨nofun, fun _ => .intro hwrite' hkeys⟩
  · exact ⟨nofun, fun _ => h⟩

lemma Inv.autoUpdate (h : Inv g s) : Safe g s.autoUpdate (failed s.autoUpdate.2) := by
  obtain ⟨hwrite, hkeys⟩ := id h
  unfold autoUpdate
  split_ifs
  · rcases maybeUpdateWrite_cases hwrite with herror | ⟨write', b, hok, hwrite'⟩
    · rw [herror]
      exact ⟨nofun, nofun⟩
    · rw [hok]
      cases b <;> exact ⟨nofun, fun _ => .intro hwrite' hkeys⟩
  · exact ⟨nofun, fun _ => h⟩

lemma encrypt_cases {dx : CryptoDxState} (h : dx.minPn ≤ dx.usedPn.stop) (bodyLen : ℕ) :
    (dx.encrypt bodyLen).2 = .error .keysExhausted ∨
      (dx.encrypt bodyLen).2 = .ok () ∧
        (dx.encrypt bodyLen).1.minPn ≤ (dx.encrypt bodyLen).1.usedPn.stop := by
  have hused (dx' : CryptoDxState) (hmin : dx'.minPn ≤ dx.nextPn) :
      (dx'.used dx.nextPn).2 = .ok () ∧
      (dx'.used dx.nextPn).1.minPn ≤ (dx'.used dx.nextPn).1.usedPn.stop := by
    rw [used, if_neg (not_lt.mpr hmin)]
    exact ⟨rfl, hmin.trans ((Nat.le_succ _).trans (le_max_left _ _))⟩
  unfold CryptoDxState.encrypt invoked
  dsimp only
  split_ifs <;> first | exact .inl rfl | exact .inr (hused _ h)

lemma Inv.encrypt (h : Inv g s) (bodyLen : ℕ) :
    Safe g (s.encrypt bodyLen) (failed (s.encrypt bodyLen).2) := by
  obtain ⟨hwrite, hkeys⟩ := h
  unfold encrypt
  dsimp only
  rcases encrypt_cases hwrite bodyLen with hexhausted | ⟨hok, hwrite'⟩
  · rw [hexhausted]
    exact ⟨nofun, nofun⟩
  · rw [hok]
    exact ⟨nofun, fun _ => .intro hwrite' hkeys⟩

end CryptoStates

/-! ### Runs -/

/-- The packet that an operation decrypts has a number as it should. -/
def KeyOp.Numbered (g : Numbering) : KeyOp → Prop
  | .decrypt packet _ => ∀ e, packet.epoch = some e → g.mem e packet.pn
  | _ => True

namespace KeyedConnection

/-- Whether the operation decrypts a late packet. -/
def late (c : KeyedConnection) : KeyOp → Bool
  | .decrypt packet _ => !c.closed && c.states.late packet
  | _ => false

/-- Whether no operation decrypts a late packet. -/
def noneLate : KeyedConnection → List KeyOp → Bool
  | _, [] => true
  | c, op :: ops => !c.late op && noneLate (c.step op).1 ops

def failsWith (e : Error) : Res → Bool
  | .error e' => e' = e
  | .ok _ => false

lemma failsWith_iff {e : Error} {res : Res} : failsWith e res = true ↔ res = .error e := by
  cases res with
  | ok => exact iff_of_false nofun nofun
  | error => simp [failsWith]

/-- Whether an operation fails for an overlap of packet numbers. -/
def overlaps : KeyedConnection → List KeyOp → Bool
  | _, [] => false
  | c, op :: ops => failsWith .packetNumberOverlap (c.step op).2 || overlaps (c.step op).1 ops

/-- The connection is closed or its packet number ranges are as they should be. -/
def Inv (g : Numbering) (c : KeyedConnection) : Prop :=
  c.closed = true ∨ c.states.Inv g

lemma Inv.of_safe {g : Numbering} {r : CryptoStates × Res} {closes : Bool}
    (h : CryptoStates.Safe g r closes) :
    r.2 ≠ .error .packetNumberOverlap ∧ Inv g { states := r.1, closed := closes } := by
  refine ⟨h.noOverlap, ?_⟩
  cases closes with
  | true => exact .inl rfl
  | false => exact .inr (h.inv rfl)

/-- An operation fails for an overlap exactly if it decrypts a late packet; otherwise the invariant
is kept. -/
lemma Inv.step {g : Numbering} {c : KeyedConnection} (h : c.Inv g) {op : KeyOp}
    (hop : op.Numbered g) :
    c.late op = true ∧ (c.step op).2 = .error .packetNumberOverlap ∨
      c.late op = false ∧ (c.step op).2 ≠ .error .packetNumberOverlap ∧ (c.step op).1.Inv g := by
  unfold KeyedConnection.step
  cases hclosed : c.closed with
  | true =>
    have hlate : c.late op = false := by
      cases op <;> simp [late, hclosed]
    exact .inr ⟨hlate, nofun, .inl hclosed⟩
  | false =>
    have hinv := h.resolve_left (by rw [hclosed]; exact nofun)
    cases op with
    | decrypt packet releaseAt =>
      have hlate : c.late (.decrypt packet releaseAt) = c.states.late packet := by
        simp [late, hclosed]
      rw [hlate]
      rcases hinv.decrypt hop releaseAt with hoverlap | ⟨hnot, hsafe⟩
      · exact .inl hoverlap
      · exact .inr ⟨hnot, Inv.of_safe hsafe⟩
    | checkKeyUpdate now => exact .inr ⟨rfl, Inv.of_safe (hinv.checkKeyUpdate now)⟩
    | initiateKeyUpdate acked => exact .inr ⟨rfl, Inv.of_safe (hinv.initiateKeyUpdate acked)⟩
    | autoUpdate => exact .inr ⟨rfl, Inv.of_safe hinv.autoUpdate⟩
    | encrypt bodyLen => exact .inr ⟨rfl, Inv.of_safe (hinv.encrypt bodyLen)⟩

lemma Inv.overlaps_eq_false_iff {g : Numbering} {c : KeyedConnection} (h : c.Inv g)
    {ops : List KeyOp} (hops : ∀ op ∈ ops, op.Numbered g) :
    c.overlaps ops = false ↔ c.noneLate ops = true := by
  induction ops generalizing c with
  | nil => exact iff_of_true rfl rfl
  | cons op ops ih =>
    have hrest : ∀ op ∈ ops, op.Numbered g := fun op' hop' => hops op' (List.mem_cons_of_mem _ hop')
    unfold overlaps noneLate
    rcases h.step (hops op List.mem_cons_self) with ⟨hlate, hoverlap⟩ | ⟨hlate, hne, hinv⟩
    · rw [hlate, hoverlap]
      exact iff_of_false nofun nofun
    · have hfails : failsWith .packetNumberOverlap (c.step op).2 = false := by
        rw [Bool.eq_false_iff, Ne, failsWith_iff]
        exact hne
      rw [hlate, hfails]
      exact ih hinv hrest

lemma readKeysInv_new (g : Numbering) (cipher : Cipher) :
    ReadKeysInv g (CryptoDxState.new .read .applicationData cipher 0)
      ((CryptoDxState.new .read .applicationData cipher 0).next cipher) false none where
  epoch := rfl
  minEpoch := le_refl _
  readMin := fun pn _ => Nat.zero_le pn
  readStop := fun _ pn _ _ => Nat.zero_le pn
  nextMin := fun pn _ => Nat.zero_le pn
  nextStop := fun _ pn _ _ => Nat.zero_le pn
  responded := .inl (le_refl _)
  idle := fun _ => .inl ⟨rfl, le_refl _⟩
  update := nofun

/-- Installing the write keys removes 0-RTT keys, from which their packet numbers are continued. -/
lemma inv_new (g : Numbering) (cipher : Cipher) (zeroRtt : Option CryptoDxState)
    (expire0rtt : ℕ) : (new cipher zeroRtt expire0rtt).Inv g := by
  right
  unfold new setApplicationWriteKey
  cases zeroRtt with
  | none => exact .intro le_rfl (readKeysInv_new g cipher)
  | some z =>
    dsimp only
    cases z.direction with
    | read | write => exact .intro le_rfl (readKeysInv_new g cipher)

/-- The packets that are decrypted. -/
def packets (ops : List KeyOp) : List ProtectedPacket :=
  ops.filterMap fun op => match op with
    | .decrypt packet _ => some packet
    | _ => none

/-- Packets that are protected with later keys have higher numbers. -/
def PnsInOrder (ops : List KeyOp) : Prop :=
  ∀ p ∈ packets ops, ∀ q ∈ packets ops, ∀ e ∈ p.epoch, ∀ e' ∈ q.epoch, e < e' → p.pn < q.pn

instance (ops : List KeyOp) : Decidable (PnsInOrder ops) :=
  inferInstanceAs (Decidable (∀ p ∈ packets ops, ∀ q ∈ packets ops, ∀ e ∈ p.epoch, ∀ e' ∈ q.epoch,
    e < e' → p.pn < q.pn))

/-- **No false overlaps, unless a packet is late.**  If packets protected with later keys have
higher numbers, then none is rejected for an overlap of packet numbers if and only if, during a key
update, no packet is decrypted with the old keys whose number is higher than all those decrypted
with them before. The start excludes a server that keeps 0-RTT read keys. -/
theorem no_overlap_iff_noneLate (cipher : Cipher) (zeroRtt : Option CryptoDxState)
    (expire0rtt : ℕ) (ops : List KeyOp) (h : PnsInOrder ops) :
    (new cipher zeroRtt expire0rtt).overlaps ops = false ↔
      (new cipher zeroRtt expire0rtt).noneLate ops = true := by
  let g : Numbering :=
    { mem := fun e pn => ∃ p ∈ packets ops, p.epoch = some e ∧ p.pn = pn
      lt := by
        rintro e pn e' pn' ⟨p, hp, hpe, rfl⟩ ⟨q, hq, hqe, rfl⟩ hlt
        exact h p hp q hq e hpe e' hqe hlt }
  apply (inv_new g cipher zeroRtt expire0rtt).overlaps_eq_false_iff
  intro op hop
  cases op with
  | decrypt packet =>
    intro e he
    exact ⟨packet, List.mem_filterMap.mpr ⟨_, hop, rfl⟩, he, rfl⟩
  | checkKeyUpdate | initiateKeyUpdate | autoUpdate | encrypt => trivial

/-- Decrypt a packet of epoch 3, which has key phase 0. -/
def decryptOld (pn : ℕ) : KeyOp := .decrypt { keyPhase := false, pn := pn, epoch := some 3 } 100

/-- Decrypt a packet of epoch 4, which has key phase 1. -/
def decryptNew (pn : ℕ) : KeyOp := .decrypt { keyPhase := true, pn := pn, epoch := some 4 } 100

/-- A packet that is delayed past a key update is accepted if a later one arrived before the
update. -/
theorem no_overlap_delayed :
    (new .tlsAes128GcmSha256 none 0).overlaps
      [decryptOld 0, decryptOld 6, decryptNew 10, decryptOld 5, decryptNew 11] = false :=
  (no_overlap_iff_noneLate .tlsAes128GcmSha256 none 0
    [decryptOld 0, decryptOld 6, decryptNew 10, decryptOld 5, decryptNew 11] (by decide)).mpr
    (by decide)

/-- Otherwise it is rejected. -/
theorem overlap_delayed :
    PnsInOrder [decryptOld 0, decryptNew 10, decryptOld 5] ∧
      (new .tlsAes128GcmSha256 none 0).overlaps [decryptOld 0, decryptNew 10,
      decryptOld 5] = true :=
  ⟨by decide, by decide⟩

end KeyedConnection

end Neqo
