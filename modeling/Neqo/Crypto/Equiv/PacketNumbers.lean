import Neqo.Crypto.Keys
import Neqo.Util.Run

/-!
# Packet numbers under write keys

The next packet number of the keys selected for writing is above all numbers used in the packet
number space (`Carries`). Keys that replace others either continue from them or nothing was sent in
the space before. So packet numbers only increase, whichever keys they are used with, and no nonce
is used twice with the same keys (`sent_strictly_increasing`). This needs the keys used for Initial
packets to be those of the version from which the confirmed version continues, which are not the
same after a token for another version was used (`sent_repeats`).
-/

namespace Neqo

open CryptoDxState CryptoStates Function Option

/-- The keys can be used for the next packet after some with the given numbers. -/
def Carries (sent : List ℕ) : Option CryptoDxState → Prop
  | none => sent = []
  | some dx => dx.minPn ≤ dx.nextPn ∧ ∀ pn ∈ sent, pn < dx.nextPn

/-! ### Keys of one direction -/

namespace CryptoDxState

variable {sent : List ℕ} {dx prev : CryptoDxState}

lemma carries_new (direction : CryptoDxDirection) (epoch : Epoch) (cipher : Cipher) (minPn : ℕ) :
    Carries [] (some (new direction epoch cipher minPn)) :=
  ⟨le_refl _, nofun⟩

lemma carries_continuation {dx' : CryptoDxState} {u : Unit} (hprev : Carries sent (some prev))
    (h : dx.continuation prev = (dx', .ok u)) : Carries sent (some dx') := by
  unfold continuation at h
  dsimp only at h
  split_ifs at h with hempty hoverlap
  · cases h
    exact ⟨le_refl _, hprev.2⟩
  · cases h
  · cases h
    have hle : prev.usedPn.stop ≤ dx.usedPn.stop := by
      have : dx.usedPn.start < dx.usedPn.stop := by simpa [PnRange.isEmpty] using hempty
      omega
    exact ⟨hle, fun pn hpn => (hprev.2 pn hpn).trans_le hle⟩

lemma carries_encrypt (h : Carries sent (some dx)) {bodyLen : ℕ} {dx' : CryptoDxState} {u : Unit}
    (hok : dx.encrypt bodyLen = (dx', .ok u)) :
    Carries (sent ++ [dx.nextPn]) (some dx') ∧ dx'.direction = dx.direction := by
  have hused (n l : ℕ)
      (hused : used { dx with invocations := n, largestPacketLen := l } dx.nextPn = (dx', .ok u)) :
      Carries (sent ++ [dx.nextPn]) (some dx') ∧ dx'.direction = dx.direction := by
    unfold used at hused
    rw [if_neg (not_lt.mpr h.1)] at hused
    cases hused
    refine ⟨⟨h.1.trans (le_max_right _ _), fun pn hpn => lt_of_lt_of_le ?_ (le_max_left _ _)⟩, rfl⟩
    rcases List.mem_append.mp hpn with hpn | hpn
    · exact (h.2 pn hpn).trans (Nat.lt_succ_self _)
    · rw [List.mem_singleton.mp hpn]
      omega
  unfold encrypt invoked at hok
  dsimp only at hok
  split_ifs at hok
  · cases hok
  · exact hused _ _ hok
  · cases hok
  · exact hused _ _ hok

end CryptoDxState

/-! ### Keys for application data -/

namespace CryptoStates

/-- The keys for writing: those for 1-RTT packets, or else those for 0-RTT packets. -/
def writeKey (s : CryptoStates) : Option CryptoDxState :=
  match s.appWrite with
  | some app => some app.dx
  | none => s.zeroRtt.filter fun z => z.direction = .write

lemma filter_write (z : CryptoDxState) :
    Option.filter (fun z : CryptoDxState => z.direction = .write) (some z) =
      if z.direction = .write then some z else none := by
  simp [Option.filter]

/-- Whatever was sent before, the new keys can be used if the old ones could. -/
def KeepsNumbers (s s' : CryptoStates) : Prop :=
  ∀ sent, Carries sent s.writeKey → Carries sent s'.writeKey

variable {s s' : CryptoStates}

lemma KeepsNumbers.refl (s : CryptoStates) : KeepsNumbers s s := fun _ h => h

lemma KeepsNumbers.trans {s'' : CryptoStates} (h : KeepsNumbers s s')
    (h' : KeepsNumbers s' s'') : KeepsNumbers s s'' :=
  fun sent hsent => h' sent (h sent hsent)

lemma keepsNumbers_of_eq (hwrite : s'.appWrite = s.appWrite) (hzero : s'.zeroRtt = s.zeroRtt) :
    KeepsNumbers s s' := by
  intro sent h
  unfold writeKey
  rw [hwrite, hzero]
  exact h

lemma keepsNumbers_of_has0rttRead (h : s.has0rttRead = true) (hwrite : s'.appWrite = s.appWrite)
    (hzero : s'.zeroRtt = none) : KeepsNumbers s s' := by
  have hkey : s'.writeKey = s.writeKey := by
    unfold writeKey
    rw [hwrite, hzero]
    unfold has0rttRead at h
    rcases s.appWrite with _ | app
    · rcases hz : s.zeroRtt with _ | z
      · rfl
      · rw [hz] at h
        have hread : z.direction = .read := by simpa using h
        rw [filter_write, if_neg (by rw [hread]; exact nofun)]
        rfl
    · rfl
  intro sent hsent
  rw [hkey]
  exact hsent

lemma keepsNumbers_maybeUpdateWrite {b : Bool} (h : s.maybeUpdateWrite = .ok (s', b)) :
    KeepsNumbers s s' := by
  revert h
  fun_cases maybeUpdateWrite s with
  | case1 | case4 => exact nofun
  | case2 write _ _ hwrite _ next hnext =>
    rintro ⟨⟩ sent hsent
    rw [writeKey, hwrite] at hsent
    rw [CryptoDxAppData.next] at hnext
    split_ifs at hnext
    cases hnext
    exact ⟨le_refl _, hsent.2⟩
  | case3 =>
    rintro ⟨⟩
    exact .refl s

section

variable (s : CryptoStates)

lemma keepsNumbers_keyUpdateReceived (epoch expiration : ℕ) :
    KeepsNumbers s (s.keyUpdateReceived epoch expiration).1 := by
  fun_cases keyUpdateReceived s epoch expiration with
  | case1 => exact .refl s
  | case2 => exact keepsNumbers_of_eq rfl rfl
  | case3 _ noted s' _ hupdate kept =>
    have hnoted : KeepsNumbers s noted := keepsNumbers_of_eq rfl rfl
    refine (hnoted.trans (keepsNumbers_maybeUpdateWrite hupdate)).trans ?_
    by_cases hzero : s'.has0rttRead = true
    · exact keepsNumbers_of_has0rttRead hzero (by simp [kept, hzero]) (by simp [kept, hzero])
    · exact keepsNumbers_of_eq (by simp [kept, hzero]) (by simp [kept, hzero])

lemma keepsNumbers_checkPnOverlap : KeepsNumbers s s.checkPnOverlap.1 := by
  fun_cases checkPnOverlap s <;> exact keepsNumbers_of_eq rfl rfl

lemma keepsNumbers_decrypted (dx : CryptoDxState) (releaseAt : ℕ) :
    KeepsNumbers s (s.decrypted dx releaseAt).1 := by
  unfold decrypted
  split_ifs
  · have hreceived := keepsNumbers_keyUpdateReceived s dx.epoch releaseAt
    generalize s.keyUpdateReceived dx.epoch releaseAt = result at hreceived ⊢
    obtain ⟨s', _ | _⟩ := result
    · exact hreceived
    · exact hreceived.trans (keepsNumbers_checkPnOverlap s')
  · exact keepsNumbers_checkPnOverlap s

lemma keepsNumbers_decrypt (packet : ProtectedPacket) (releaseAt : ℕ) :
    KeepsNumbers s (s.decrypt packet releaseAt).1 := by
  have hset : ∀ keys app, KeepsNumbers s (s.setReadKeys keys app) := by
    intro keys app
    cases keys <;> exact keepsNumbers_of_eq rfl rfl
  fun_cases decrypt s packet releaseAt with
  | case1 | case2 | case3 => exact .refl s
  | case4 | case5 => exact hset _ _
  | case6 => exact (hset _ _).trans (keepsNumbers_decrypted _ _ releaseAt)

lemma keepsNumbers_checkKeyUpdate (now : ℕ) : KeepsNumbers s (s.checkKeyUpdate now).1 := by
  fun_cases checkKeyUpdate s now with
  | case2 _ _ _ hzero => exact keepsNumbers_of_has0rttRead hzero rfl rfl
  | _ => exact keepsNumbers_of_eq rfl rfl

lemma keepsNumbers_initiateKeyUpdate (largestAcknowledged : Option ℕ) :
    KeepsNumbers s (s.initiateKeyUpdate largestAcknowledged).1 := by
  fun_cases initiateKeyUpdate s largestAcknowledged with
  | case3 _ _ _ _ hupdate | case4 _ _ _ _ hupdate => exact keepsNumbers_maybeUpdateWrite hupdate
  | _ => exact .refl s

lemma keepsNumbers_autoUpdate : KeepsNumbers s s.autoUpdate.1 := by
  fun_cases autoUpdate s with
  | case2 _ _ hupdate | case3 _ _ hupdate => exact keepsNumbers_maybeUpdateWrite hupdate
  | _ => exact .refl s

/-- **0-RTT to 1-RTT.**  1-RTT keys continue from those for 0-RTT packets. -/
theorem keepsNumbers_setApplicationWriteKey : KeepsNumbers s s.setApplicationWriteKey.1 := by
  have hkey : ¬ s.appWrite.isSome = true →
      s.writeKey = s.zeroRtt.filter fun z => z.direction = .write := by
    intro hnone
    rw [writeKey, not_isSome_iff_eq_none.mp hnone]
  fun_cases setApplicationWriteKey s with
  | case1 | case2 => exact .refl s
  | case3 hnone app z hzero hwrite dx _ hcontinued =>
    intro sent hsent
    rw [hkey hnone, hzero, filter_write, if_pos hwrite] at hsent
    exact carries_continuation hsent hcontinued
  | case4 hnone app z hzero hread =>
    intro sent hsent
    rw [hkey hnone, hzero, filter_write, if_neg hread] at hsent
    obtain rfl : sent = [] := hsent
    exact carries_new _ _ _ _
  | case5 hnone app hzero =>
    intro sent hsent
    rw [hkey hnone, hzero] at hsent
    obtain rfl : sent = [] := hsent
    exact carries_new _ _ _ _

lemma keepsNumbers_setApplicationReadKey (expire0rtt : ℕ) :
    KeepsNumbers s (s.setApplicationReadKey expire0rtt).1 := by
  fun_cases setApplicationReadKey s expire0rtt <;> exact keepsNumbers_of_eq rfl rfl

end

end CryptoStates

/-! ### Keys of all spaces -/

namespace Crypto

variable {c c' : Crypto}

/-- The keys that are used for writing in a space. -/
def writeKey (c : Crypto) : PacketNumberSpace → Option CryptoDxState
  | .initial => c.tx c.version .initial
  | .handshake => c.tx c.version .handshake
  | .applicationData => c.states.writeKey

/-- The numbers used do not prevent the use of the keys, also of those for Initial packets of other
versions. The version of the connection is the one that was configured or confirmed. -/
structure Inv (c : Crypto) (version : Version) (sent : PacketNumberSpace → List ℕ) : Prop where
  agrees : c.version = version
  initial : Carries (sent .initial) (c.writeKey .initial)
  handshake : Carries (sent .handshake) (c.writeKey .handshake)
  applicationData : Carries (sent .applicationData) (c.writeKey .applicationData)
  initials : ∀ v state, c.initials v = some state → state.tx.minPn ≤ state.tx.nextPn

variable {version : Version} {sent : PacketNumberSpace → List ℕ} {state : CryptoState}

lemma Inv.carries (h : c.Inv version sent) : (space : PacketNumberSpace) →
    Carries (sent space) (c.writeKey space)
  | .initial => h.initial
  | .handshake => h.handshake
  | .applicationData => h.applicationData

lemma Inv.setInitial (h : c.Inv version sent) (v : Version)
    (hmin : state.tx.minPn ≤ state.tx.nextPn)
    (hcarries : v = c.version → Carries (sent .initial) (some state.tx)) :
    (c.setInitial v state).Inv version sent := by
  refine { h with initial := ?_, initials := fun v' state' hstate => ?_ }
  · show Carries _ ((update c.initials v (some state) c.version).map CryptoState.tx)
    rw [update_apply]
    split_ifs with hv
    · exact hcarries hv.symm
    · exact h.initial
  · change update c.initials v (some state) v' = some state' at hstate
    rw [update_apply] at hstate
    split_ifs at hstate
    · cases hstate
      exact hmin
    · exact h.initials v' state' hstate

lemma Inv.carries_initial (h : c.Inv version sent) {initial : Option CryptoState}
    (hinitial : c.initials c.version = initial) :
    Carries (sent .initial) (initial.map CryptoState.tx) := by
  rw [← hinitial]
  exact h.initial

/-- **Retry.**  New Initial keys continue from those that were there. -/
theorem Inv.initVersion (h : c.Inv version sent) (minPn : ℕ) (v : Version) :
    (c.initVersion minPn v).1.Inv version sent := by
  fun_cases Crypto.initVersion c minPn v with
  | case1 initial hprev =>
    refine h.setInitial v (le_refl _) ?_
    rintro rfl
    rw [show sent .initial = [] from h.carries_initial hprev]
    exact carries_new _ _ _ _
  | case2 | case3 => exact h
  | case4 initial prev hprev rx _ _ tx _ htx =>
    have hmin : Carries [] (some prev.tx) := ⟨h.initials v prev hprev, nofun⟩
    refine h.setInitial v (carries_continuation hmin htx).1 ?_
    rintro rfl
    exact carries_continuation (h.carries_initial hprev) htx

lemma Inv.init (h : c.Inv version sent) (minPn : ℕ) (versions : List Version) :
    (c.init minPn versions).1.Inv version sent := by
  fun_induction Crypto.init c minPn versions with
  | case1 => exact h
  | case2 c v versions c' e hversion =>
    have h' := h.initVersion minPn v
    rw [hversion] at h'
    exact h'
  | case3 c v versions c' _ hversion ih =>
    have h' := h.initVersion minPn v
    rw [hversion] at h'
    exact ih h'

lemma Inv.initServer (h : c.Inv version sent) (minPn : ℕ) (v : Version) :
    (c.initServer minPn v).1.Inv version sent := by
  unfold Crypto.initServer
  split_ifs
  · exact h.init minPn [v]
  · exact h

variable {confirmed v : Version}

section

variable (h : c.Inv version sent)

include h

lemma Inv.setVersion
    (hcarries : Carries (sent .initial) ((c.initials confirmed).map CryptoState.tx)) :
    ({ c with version := confirmed } : Crypto).Inv confirmed sent :=
  { h with initial := hcarries, agrees := rfl }

/-- **Compatible version negotiation.**  The keys of the new version continue from those in use. -/
theorem Inv.confirmVersion (hok : (c.confirmVersion confirmed).2 = .ok ()) :
    (c.confirmVersion confirmed).1.Inv confirmed sent := by
  revert hok
  fun_cases Crypto.confirmVersion c confirmed with
  | case1 => exact nofun
  | case2 c' _ hcontinued =>
    intro _
    revert hcontinued
    fun_cases continueVersion c confirmed with
    | case1 hne hprev =>
      rintro ⟨⟩
      refine h.setVersion ?_
      rw [show sent .initial = [] from h.carries_initial hprev]
      rcases hnext : c.initials confirmed with _ | next
      · rfl
      · exact ⟨h.initials confirmed next hnext, nofun⟩
    | case2 | case3 => exact nofun
    | case4 hne prev hprev next hnext rx _ _ tx res htx =>
      rintro ⟨⟩
      have hcarries := carries_continuation (h.carries_initial hprev) htx
      refine (h.setInitial confirmed hcarries.1 fun _ => hcarries).setVersion ?_
      show Carries _ ((update c.initials confirmed _ confirmed).map CryptoState.tx)
      rw [update_self]
      exact hcarries
    | case5 hsame =>
      rintro ⟨⟩
      rw [not_not] at hsame
      subst hsame
      exact { h with agrees := rfl }

lemma Inv.setInitialRx (hstate : c.initials v = some state) (rx : CryptoDxState) :
    (c.setInitial v { state with rx := rx }).Inv version sent := by
  refine Inv.setInitial h v (h.initials v state hstate) ?_
  rintro rfl
  exact h.carries_initial hstate

lemma Inv.decryptInitial (v : Version) (packet : ProtectedPacket) :
    (c.decryptInitial v packet).1.Inv version sent := by
  have hcontinue : (c.maybeContinueInitialRx v).Inv version sent := by
    fun_cases maybeContinueInitialRx c v with
    | case5 next hnext => exact h.setInitialRx hnext _
    | _ => exact h
  fun_cases Crypto.decryptInitial c v packet with
  | case1 => exact hcontinue
  | case2 c' state hstate | case3 c' state hstate => exact hcontinue.setInitialRx hstate _

lemma Inv.setStates {s : CryptoStates} (hs : c.states.KeepsNumbers s) :
    ({ c with states := s } : Crypto).Inv version sent :=
  { h with applicationData := hs _ h.applicationData }

lemma Inv.set0rttKeys {direction : CryptoDxDirection} (cipher : Cipher)
    (hzero : c.states.zeroRtt = none) :
    (c.set0rttKeys direction cipher).Inv version sent := by
  apply h.setStates
  intro sent hsent
  unfold CryptoStates.writeKey at hsent ⊢
  rw [hzero] at hsent
  rcases happ : c.states.appWrite with _ | app
  · rw [happ] at hsent
    rw [filter_write]
    have hnone : sent = [] := hsent
    rw [hnone]
    split_ifs
    · exact carries_new _ _ _ _
    · rfl
  · rw [happ] at hsent
    exact hsent

lemma Inv.setHandshakeKeys (cipher : Cipher) (hnone : c.handshake = none) :
    (c.setHandshakeKeys cipher).Inv version sent := by
  have hunsent := h.handshake
  rw [writeKey, tx, hnone] at hunsent
  refine { h with handshake := ?_ }
  rw [show sent .handshake = [] from hunsent]
  exact carries_new _ _ _ _

end

variable {space : PacketNumberSpace} {dx dx' : CryptoDxState}

lemma writeKey_of_selectTx {epoch : Epoch} (h : c.selectTx c.version space = some (epoch, dx))
    (htx : c.tx c.version epoch = some dx') : dx' = dx ∧ c.writeKey space = some dx := by
  revert h
  fun_cases selectTx c c.version space with
  | case1 | case2 =>
    intro h
    obtain ⟨key, hkey, ⟨⟩⟩ := map_eq_some_iff.mp h
    exact ⟨some.inj (htx.symm.trans hkey), hkey⟩
  | case3 app happ =>
    rintro ⟨⟩
    rw [tx, happ] at htx
    rw [writeKey, CryptoStates.writeKey, happ]
    exact ⟨(some.inj htx).symm, rfl⟩
  | case4 happ =>
    intro h
    obtain ⟨key, hkey, ⟨⟩⟩ := map_eq_some_iff.mp h
    rw [tx, hkey, filter_write] at htx
    split_ifs at htx with hwrite
    rw [writeKey, CryptoStates.writeKey, happ, hkey]
    exact ⟨(some.inj htx).symm, (filter_write _).trans (if_pos hwrite)⟩

lemma writeKey_setTx {epoch : Epoch} (h : c.selectTx c.version space = some (epoch, dx))
    (htx : c.tx c.version epoch = some dx) (hdirection : dx'.direction = dx.direction) :
    (c.setTx c.version epoch dx').writeKey = update c.writeKey space (some dx') := by
  ext1 space'
  revert h
  fun_cases selectTx c c.version space with
  | case1 | case2 =>
    intro h
    obtain ⟨key, hkey, ⟨⟩⟩ := map_eq_some_iff.mp h
    obtain ⟨state, hstate, -⟩ := map_eq_some_iff.mp hkey
    cases space' <;> simp [setTx, hstate, writeKey, tx, setInitial]
  | case3 app happ =>
    rintro ⟨⟩
    cases space' <;> simp [setTx, writeKey, CryptoStates.writeKey, happ, tx]
  | case4 happ =>
    intro h
    obtain ⟨key, hkey, ⟨⟩⟩ := map_eq_some_iff.mp h
    rw [tx, hkey, CryptoStates.filter_write] at htx
    split_ifs at htx with hwrite
    cases space' <;>
      simp [setTx, writeKey, CryptoStates.writeKey, happ, tx, hdirection, hwrite]

lemma initials_setTx {epoch : Epoch}
    (h : ∀ v state, c.initials v = some state → state.tx.minPn ≤ state.tx.nextPn)
    (hdx : dx.minPn ≤ dx.nextPn) (hstate : (c.setTx c.version epoch dx).initials v = some state) :
    state.tx.minPn ≤ state.tx.nextPn := by
  revert hstate
  fun_cases setTx c c.version epoch dx with
  | case2 keys hkeys =>
    intro hstate
    change update c.initials c.version _ v = some state at hstate
    rw [update_apply] at hstate
    split_ifs at hstate
    · cases hstate
      exact hdx
    · exact h v state hstate
  | _ => exact h v state

lemma version_setTx (epoch : Epoch) (dx : CryptoDxState) :
    (c.setTx version epoch dx).version = c.version := by
  fun_cases setTx c version epoch dx <;> rfl

lemma Inv.encrypt (h : c.Inv version sent) {bodyLen : ℕ} {pn : ℕ}
    (hok : (c.encrypt version space bodyLen).2 = .ok (some pn)) :
    (c.encrypt version space bodyLen).1.Inv version
        (update sent space (sent space ++ [pn])) ∧
      ∀ earlier ∈ sent space, earlier < pn := by
  obtain rfl := h.agrees
  revert hok
  fun_cases Crypto.encrypt c c.version space bodyLen with
  | case1 | case2 => exact nofun
  | case3 epoch dx hselect _ dx' htx next res hencrypt =>
    cases res with
    | error => exact nofun
    | ok =>
      intro hok
      obtain rfl : dx.nextPn = pn := some.inj (Except.ok.inj hok)
      obtain ⟨rfl, hkey⟩ := writeKey_of_selectTx hselect htx
      have hcarries := h.carries space
      rw [hkey] at hcarries
      obtain ⟨hsent, hdirection⟩ := carries_encrypt hcarries hencrypt
      have hcarries' (space' : PacketNumberSpace) :
          Carries (update sent space (sent space ++ [dx'.nextPn]) space')
            ((c.setTx c.version epoch next).writeKey space') := by
        rw [writeKey_setTx hselect htx hdirection, update_apply, update_apply]
        split_ifs with hspace
        · exact hsent
        · exact h.carries space'
      exact ⟨⟨version_setTx _ _, hcarries' _, hcarries' _, hcarries' _,
        fun v state => initials_setTx h.initials hsent.1⟩, hcarries.2⟩

end Crypto

/-! ### Runs -/

namespace CryptoRun

variable {c : CryptoRun}

/-- Packet numbers increased so far, and the keys carry them unless the connection is closed. -/
structure Inv (c : CryptoRun) : Prop where
  sorted : ∀ space, (c.sent space).Pairwise (· < ·)
  crypto : c.closed = true ∨ c.crypto.Inv c.version c.sent

lemma Inv.update (h : c.Inv) {result : Crypto × Res}
    (hresult : result.2 = .ok () → result.1.Inv c.version c.sent) : (c.update result).Inv := by
  refine ⟨h.sorted, ?_⟩
  obtain ⟨crypto, _ | _⟩ := result
  · exact .inl rfl
  · exact .inr (hresult rfl)

lemma Inv.compatibleUpgrade (h : c.Inv) (hcrypto : c.crypto.Inv c.version c.sent)
    (confirmed : Version) : (c.compatibleUpgrade confirmed).Inv := by
  fun_cases CryptoRun.compatibleUpgrade c confirmed with
  | case1 => exact ⟨h.sorted, .inl rfl⟩
  | case2 crypto _ hconfirm =>
    have hinv := hcrypto.confirmVersion (congrArg Prod.snd hconfirm)
    rw [hconfirm] at hinv
    exact ⟨h.sorted, .inr hinv⟩

lemma Inv.updateStates (h : c.Inv) (hcrypto : c.crypto.Inv c.version c.sent) {s : CryptoStates}
    (hs : c.crypto.states.KeepsNumbers s) (closed : Bool) : (c.updateStates s closed).Inv :=
  ⟨h.sorted, .inr (hcrypto.setStates hs)⟩

lemma Inv.encrypt (h : c.Inv) (hcrypto : c.crypto.Inv c.version c.sent) (space : PacketNumberSpace)
    (bodyLen : ℕ) : (c.encrypt space bodyLen).Inv := by
  have hnone : (c.crypto.encrypt c.version space bodyLen).2 = .ok none →
      (c.crypto.encrypt c.version space bodyLen).1 = c.crypto := by
    fun_cases Crypto.encrypt c.crypto c.version space bodyLen with
    | case1 | case2 => exact fun _ => rfl
    | case3 _ _ _ _ _ _ _ res => cases res <;> exact nofun
  fun_cases CryptoRun.encrypt c space bodyLen with
  | case1 => exact ⟨h.sorted, .inl rfl⟩
  | case2 crypto hencrypt =>
    rw [hencrypt] at hnone
    refine ⟨h.sorted, .inr ?_⟩
    rw [show crypto = c.crypto from hnone rfl]
    exact hcrypto
  | case3 crypto pn hencrypt =>
    obtain ⟨hinv, habove⟩ := hcrypto.encrypt (congrArg Prod.snd hencrypt)
    rw [hencrypt] at hinv
    refine ⟨fun space' => ?_, .inr hinv⟩
    show (Function.update c.sent space _ space').Pairwise _
    rw [update_apply]
    split_ifs
    · exact List.pairwise_append.mpr ⟨h.sorted space, List.pairwise_singleton _ _,
        by simpa using habove⟩
    · exact h.sorted space'

lemma Inv.step (h : c.Inv) {op : CryptoOp} (hop : c.NotReplaced op) : (c.step op).Inv := by
  by_cases hclosed : c.closed = true
  · unfold CryptoRun.step
    rw [if_pos hclosed]
    exact h
  have hcrypto := h.crypto.resolve_left hclosed
  unfold CryptoRun.step
  rw [if_neg hclosed]
  cases op with
  | enableResumption version =>
    cases hop
    exact ⟨h.sorted, .inr { hcrypto with agrees := rfl }⟩
  | init versions minPn => exact h.update fun _ => hcrypto.init minPn versions
  | initServer version minPn => exact h.update fun _ => hcrypto.initServer minPn version
  | confirmVersion confirmed => exact h.compatibleUpgrade hcrypto confirmed
  | decryptInitial version packet => exact ⟨h.sorted, .inr (hcrypto.decryptInitial version packet)⟩
  | set0rttKeys direction cipher => exact ⟨h.sorted, .inr (hcrypto.set0rttKeys cipher hop)⟩
  | setHandshakeKeys cipher => exact ⟨h.sorted, .inr (hcrypto.setHandshakeKeys cipher hop)⟩
  | setApplicationWriteKey =>
    exact h.updateStates hcrypto (keepsNumbers_setApplicationWriteKey _) _
  | setApplicationReadKey expire0rtt =>
    exact h.updateStates hcrypto (keepsNumbers_setApplicationReadKey _ _) _
  | decrypt =>
    exact h.updateStates hcrypto (keepsNumbers_decrypt _ _ _) _
  | checkKeyUpdate =>
    exact h.updateStates hcrypto (keepsNumbers_checkKeyUpdate _ _) _
  | initiateKeyUpdate =>
    exact h.updateStates hcrypto (keepsNumbers_initiateKeyUpdate _ _) _
  | autoUpdate => exact h.updateStates hcrypto (keepsNumbers_autoUpdate _) _
  | encrypt space bodyLen => exact h.encrypt hcrypto space bodyLen

lemma inv_start (version : Version) (cipher : Cipher) : (start version cipher).Inv :=
  ⟨fun _ => List.Pairwise.nil, .inr ⟨rfl, rfl, rfl, rfl, nofun⟩⟩

/-- **Packet numbers never repeat under a write key**, if no token for another version than the
configured one is used. The numbers used in a packet number space increase strictly across all keys
of the space, whatever packets are received and however keys are updated. -/
theorem sent_strictly_increasing (version : Version) (cipher : Cipher) (ops : List CryptoOp)
    (h : Run.Along step NotReplaced (start version cipher) ops) (space : PacketNumberSpace) :
    (((start version cipher).run ops).sent space).Pairwise (· < ·) := by
  have hinv : ((start version cipher).run ops).Inv :=
    h.invariant (fun _ _ hinv hop => hinv.step hop) (inv_start version cipher)
  exact hinv.sorted space

/-- A client sends an Initial packet, repeats it after a Retry, and changes the version; then 0-RTT
packets, 1-RTT packets, and one after a key update. -/
def handshakeOps : List CryptoOp :=
  [.enableResumption .version1, .init [.version2, .version1] 5, .encrypt .initial 1200,
    .set0rttKeys .write .tlsAes128GcmSha256,
    .encrypt .applicationData 100, .encrypt .applicationData 100,
    .init [.version2, .version1] 0, .encrypt .initial 1200,
    .confirmVersion .version2, .encrypt .initial 1200,
    .setApplicationWriteKey, .setApplicationReadKey 0, .encrypt .applicationData 100,
    .initiateKeyUpdate none, .encrypt .applicationData 100]

/-- Numbers continue at each of these changes. -/
theorem sent_strictly_increasing_handshake :
    ((start .version1 .tlsAes128GcmSha256).run handshakeOps).sent .initial = [5, 6, 7] ∧
      ((start .version1 .tlsAes128GcmSha256).run handshakeOps).sent .applicationData =
        [0, 1, 2, 3] ∧
      (((start .version1 .tlsAes128GcmSha256).run handshakeOps).sent .applicationData).Pairwise
        (· < ·) :=
  ⟨by decide, by decide,
    sent_strictly_increasing .version1 .tlsAes128GcmSha256 handshakeOps (by decide)
      .applicationData⟩

/-- A client configured for version 1 uses a token for version 2. The server answers with version
1, so that nothing continues from the keys of version 2. -/
theorem sent_repeats :
    ((start .version1 .tlsAes128GcmSha256).run [.init [.version2, .version1] 0,
      .enableResumption .version2, .encrypt .initial 1200, .confirmVersion .version1,
      .encrypt .initial 1200]).sent .initial = [0, 0] := by
  decide

end CryptoRun

end Neqo
