import Neqo.Codec.Equiv
import Neqo.Qpack.Session

/-!
# Settings

The settings that an endpoint sends, their encoding, and the token with which a server remembers the
settings of a connection that may be resumed with 0-RTT.
-/

namespace Neqo.Http3

/-- The errors that the modelled functions can return. -/
inductive Error where
  | httpExcessiveLoad
  | httpFrame
  | httpFrameUnexpected
  | httpGeneralProtocolStream
  | httpSettings
  | internal
  | invalidHeader
  | notEnoughData
  | qpack (error : Qpack.Error)
  /-- An assertion does not hold, or unreachable code is reached. -/
  | assertion
  deriving DecidableEq, Repr

abbrev Res (α : Type) := Except Error α

/-! ### Settings -/

open Encoder

/-- The settings that are known. -/
inductive HSettingType where
  | maxHeaderListSize
  | maxTableCapacity
  | blockedStreams
  | enableWebTransport
  | enableH3Datagram
  | enableConnect
  deriving DecidableEq, Repr

def settingsZeroRttVersion : ℕ := 1
def settingsMaxHeaderListSize : ℕ := 0x6
def settingsQpackMaxTableCapacity : ℕ := 0x1
def settingsQpackBlockedStreams : ℕ := 0x7
def settingsEnableWebTransport : ℕ := 0x2b603742
def settingsH3DatagramDraft04 : ℕ := 0xffd277
def settingsH3Datagram : ℕ := 0x33
def settingsEnableConnectProtocol : ℕ := 0x08

def h3ReservedSettings : List ℕ := [0x2, 0x3, 0x4, 0x5]

def hsettingDefault : HSettingType → ℕ
  | .maxHeaderListSize => 1 <<< 62
  | .maxTableCapacity | .blockedStreams | .enableWebTransport | .enableH3Datagram
  | .enableConnect => 0

/-- A setting and its value. -/
structure HSetting where
  settingType : HSettingType
  value : ℕ
  deriving DecidableEq, Repr

/-- The settings of an endpoint. -/
structure HSettings where
  settings : List HSetting := []
  deriving DecidableEq, Repr

namespace HSettings

variable (s : HSettings)

variable (setting : HSettingType)

/-- The value of a setting: the first one, or the default. -/
def get : ℕ :=
  match s.settings.find? fun s => s.settingType = setting with
  | none => hsettingDefault setting
  | some v => v.value

def push (value : ℕ) : HSettings :=
  ⟨s.settings ++ [⟨setting, value⟩]⟩

/-- A setting that is not more than a flag. -/
def pushFlag (value : ℕ) : Res HSettings :=
  if value > 1 then .error .httpSettings else .ok (s.push setting value)

/-- The setting for datagrams has two code points; only the first of them counts. -/
def pushDatagram (value : ℕ) : Res HSettings :=
  if value > 1 then .error .httpSettings
  else if s.settings.any fun s => s.settingType = .enableH3Datagram then .ok s
  else .ok (s.push .enableH3Datagram value)

/-- Decode one setting. Unknown settings are ignored. -/
def decodeSetting (t value : ℕ) : Res HSettings :=
  if t = settingsMaxHeaderListSize then .ok (s.push .maxHeaderListSize value)
  else if t = settingsQpackMaxTableCapacity then .ok (s.push .maxTableCapacity value)
  else if t = settingsQpackBlockedStreams then .ok (s.push .blockedStreams value)
  else if t = settingsEnableWebTransport then s.pushFlag .enableWebTransport value
  else if t = settingsH3DatagramDraft04 then s.pushDatagram value
  else if t = settingsH3Datagram then s.pushDatagram value
  else if t = settingsEnableConnectProtocol then s.pushFlag .enableConnect value
  else .ok s

/-- Decode settings until nothing remains. There is fuel for as many settings as there are
bytes. -/
def decodeLoop : ℕ → HSettings → Decoder → Res HSettings
  | 0, _, _ => .error .assertion
  | fuel + 1, s, dec =>
    if dec.remaining > 0 then
      match dec.decodeVarint with
      | none => .error .notEnoughData
      | some (t, dec) =>
        let v := dec.decodeVarint
        if t ∈ h3ReservedSettings then .error .httpSettings
        else
          match v with
          | none => .error .notEnoughData
          | some (v, dec) =>
            match s.decodeSetting t v with
            | .error e => .error e
            | .ok s => decodeLoop fuel s dec
    else .ok s

def decodeFrameContents (dec : Decoder) : Res HSettings :=
  decodeLoop (dec.remaining + 1) s dec

end HSettings

/-! ### Parameters -/

/-- The configuration of an endpoint. Of the parameters of the connection, those are kept that
settings depend on. -/
structure Http3Parameters where
  qpackSettings : Qpack.Settings := {}
  webtransport : Bool := false
  connect : Bool := false
  http3Datagram : Bool := true
  /-- The largest datagram that the connection accepts. -/
  datagramSize : ℕ := 65535
  reliableStreamReset : Bool := true
  /-- WebTransport runs over extended CONNECT. -/
  connect_of_webtransport : webtransport = true → connect = true := by decide

namespace Http3Parameters

variable (p : Http3Parameters)

def getMaxTableSizeDecoder : ℕ := p.qpackSettings.maxTableSizeDecoder

def getMaxBlockedStreams : ℕ := p.qpackSettings.maxBlockedStreams

/-- Whether WebTransport is configured together with everything that it requires. -/
def webtransportEnabled : Bool :=
  p.webtransport && p.http3Datagram && decide (p.datagramSize ≠ 0) && p.reliableStreamReset

def connectEnabled : Bool := p.connect

def getHttp3Datagram : Bool := p.http3Datagram

end Http3Parameters

/-- The settings that an endpoint sends. -/
def HSettings.fromParams (p : Http3Parameters) : HSettings :=
  ⟨[⟨.maxTableCapacity, p.getMaxTableSizeDecoder⟩, ⟨.blockedStreams, p.getMaxBlockedStreams⟩,
    ⟨.enableWebTransport, p.webtransportEnabled.toNat⟩,
    ⟨.enableH3Datagram, p.getHttp3Datagram.toNat⟩, ⟨.enableConnect, p.connectEnabled.toNat⟩]⟩

/-! ### 0-RTT -/

/-- What a server does with 0-RTT data. -/
inductive ZeroRttCheckResult where
  | accept
  | reject
  | fail
  deriving DecidableEq, Repr

/-- The server's check whether its settings permit the 0-RTT data of a client. -/
structure HttpZeroRttChecker where
  settings : Http3Parameters

namespace HttpZeroRttChecker

/-- Save the settings that matter for 0-RTT. -/
def save (p : Http3Parameters) : Bytes :=
  encodeVarint settingsZeroRttVersion ++
    encodeVarint settingsQpackMaxTableCapacity ++
    encodeVarint p.getMaxTableSizeDecoder ++
    encodeVarint settingsQpackBlockedStreams ++
    encodeVarint p.getMaxBlockedStreams ++
    (if p.webtransportEnabled then
      encodeVarint settingsEnableWebTransport ++ encodeVarint 1 else []) ++
    (if p.getHttp3Datagram then
      encodeVarint settingsH3Datagram ++ encodeVarint 1 else [])

/-- A flag that was set has to be set still. -/
def permitsFlag (enabled : Bool) (value : ℕ) : Bool :=
  if value > 1 then false else enabled || !decide (value = 1)

/-- Whether the current settings permit what a remembered setting permits. -/
def permits (c : HttpZeroRttChecker) (s : HSetting) : Bool :=
  match s.settingType with
  | .blockedStreams => c.settings.getMaxBlockedStreams ≥ s.value
  | .maxTableCapacity => c.settings.getMaxTableSizeDecoder ≥ s.value
  | .enableWebTransport => permitsFlag c.settings.webtransportEnabled s.value
  | .enableH3Datagram => permitsFlag c.settings.getHttp3Datagram s.value
  | .enableConnect => permitsFlag c.settings.connectEnabled s.value
  | .maxHeaderListSize => true

def check (c : HttpZeroRttChecker) (token : Bytes) : ZeroRttCheckResult :=
  match (Decoder.new token).decodeVarint with
  | none => .fail
  | some (version, dec) =>
    if version ≠ settingsZeroRttVersion then .reject
    else
      match HSettings.decodeFrameContents {} dec with
      | .error _ => .fail
      | .ok settings => if settings.settings.all c.permits then .accept else .reject

end HttpZeroRttChecker

/-!
## The settings of the peer

What `Http3Connection` does with the settings of the peer: the QPACK encoder whose limits they set,
and the features that they negotiate, without their listeners.
-/

/-! ### Features -/

/-- The negotiation of a feature. -/
inductive NegotiationState where
  | disabled
  | negotiating
  | negotiated
  | failed
  deriving DecidableEq, Repr

namespace NegotiationState

def new (enable : Bool) : NegotiationState := if enable then .negotiating else .disabled

def negotiate (s : NegotiationState) (conditionsMet : Bool) : NegotiationState :=
  match s with
  | .negotiating => if conditionsMet then .negotiated else .failed
  | s => s

end NegotiationState

/-- What extended CONNECT is used for. -/
inductive ExtendedConnectType where
  | webTransport
  | connectUdp
  deriving DecidableEq, Repr

/-- What the transport offers. -/
structure TransportPrerequisites where
  datagrams : Bool
  reliableReset : Bool
  deriving DecidableEq, Repr

/-- The negotiation of one use of extended CONNECT. -/
structure ExtendedConnectFeature where
  featureNegotiation : NegotiationState
  connectType : ExtendedConnectType
  role : Role
  deriving DecidableEq, Repr

namespace ExtendedConnectFeature

def new (connectType : ExtendedConnectType) (role : Role) (enable : Bool) :
    ExtendedConnectFeature :=
  ⟨.new enable, connectType, role⟩

/-- Whether the peer's settings and transport permit the feature. -/
def conditionsMet (f : ExtendedConnectFeature) (settings : HSettings)
    (prereqs : TransportPrerequisites) : Bool :=
  match f.connectType with
  | .webTransport =>
    prereqs.datagrams && decide (settings.get .enableH3Datagram = 1) &&
      (decide (f.role = .server) ||
        (decide (settings.get .enableConnect = 1) && decide (settings.get .enableWebTransport = 1)))
  | .connectUdp => decide (f.role = .server) || decide (settings.get .enableConnect = 1)

def handleSettings (f : ExtendedConnectFeature) (settings : HSettings)
    (prereqs : TransportPrerequisites) : ExtendedConnectFeature :=
  { f with featureNegotiation := f.featureNegotiation.negotiate (f.conditionsMet settings prereqs) }

end ExtendedConnectFeature

/-! ### The connection -/

/-- What is known of the settings of the peer. -/
inductive Http3RemoteSettingsState where
  | notReceived
  | received (settings : HSettings)
  | zeroRtt (settings : HSettings)
  deriving DecidableEq, Repr

/-- The part of a connection that settings affect. -/
structure Http3Connection where
  qpackEncoder : Qpack.Encoder
  webtransport : ExtendedConnectFeature
  connectUdp : ExtendedConnectFeature
  settingsState : Http3RemoteSettingsState := .notReceived

namespace Http3Connection

def new (p : Http3Parameters) (role : Role) : Http3Connection where
  qpackEncoder := .new p.qpackSettings true
  webtransport := .new .webTransport role p.webtransportEnabled
  connectUdp := .new .connectUdp role p.connectEnabled

/-- An error of the QPACK encoder is an error of the connection. -/
def qpackRes : Qpack.Res Unit → Res Unit
  | .ok () => .ok ()
  | .error e => .error (.qpack e)

variable (c : Http3Connection)

def setQpackSettings (settings : HSettings) : Http3Connection × Res Unit :=
  match c.qpackEncoder.setMaxCapacity (settings.get .maxTableCapacity) with
  | (e, .error err) => ({ c with qpackEncoder := e }, .error (.qpack err))
  | (e, .ok ()) =>
    let (e, res) := e.setMaxBlockedStreams (settings.get .blockedStreams)
    ({ c with qpackEncoder := e }, qpackRes res)

/-- The settings in the order in which they are compared. -/
def comparedSettings : List HSettingType :=
  [.maxHeaderListSize, .maxTableCapacity, .blockedStreams, .enableConnect, .enableWebTransport,
    .enableH3Datagram]

/-- Compare the settings with those that were used for 0-RTT.  The result says whether those of
QPACK have changed. -/
def compareSettings (settings newSettings : HSettings) : List HSettingType → Bool → Res Bool
  | [], qpackChanged => .ok qpackChanged
  | st :: sts, qpackChanged =>
    let zeroRttValue := settings.get st
    let newValue := newSettings.get st
    if zeroRttValue = newValue then compareSettings settings newSettings sts qpackChanged
    else if zeroRttValue > newValue then .error .httpSettings
    else
      match st with
      | .maxTableCapacity =>
        if zeroRttValue ≠ 0 then .error (.qpack .decoderStream)
        else compareSettings settings newSettings sts true
      | .blockedStreams => compareSettings settings newSettings sts true
      | .maxHeaderListSize | .enableWebTransport | .enableH3Datagram | .enableConnect =>
        compareSettings settings newSettings sts qpackChanged

/-- The peer's settings have an effect on the features. -/
def negotiate (settings : HSettings) (prereqs : TransportPrerequisites) : Http3Connection :=
  { c with
    webtransport := c.webtransport.handleSettings settings prereqs
    connectUdp := c.connectUdp.handleSettings settings prereqs }

def handleSettings (prereqs : TransportPrerequisites)
    (newSettings : HSettings) : Http3Connection × Res Unit :=
  match c.settingsState with
  | .notReceived =>
    match c.setQpackSettings newSettings with
    | (c, .error e) => (c, .error e)
    | (c, .ok ()) =>
      ({ c.negotiate newSettings prereqs with settingsState := .received newSettings }, .ok ())
  | .zeroRtt settings =>
    let c := c.negotiate newSettings prereqs
    match compareSettings settings newSettings comparedSettings false with
    | .error e => (c, .error e)
    | .ok qpackChanged =>
      match (if qpackChanged then c.setQpackSettings newSettings else (c, .ok ())) with
      | (c, .error e) => (c, .error e)
      | (c, .ok ()) => ({ c with settingsState := .received newSettings }, .ok ())
  | .received _ => (c, .error .httpFrameUnexpected)

/-- A resumption token remembers earlier settings, which are used for 0-RTT. -/
def set0rttSettings (settings : HSettings) : Http3Connection × Res Unit :=
  match c.setQpackSettings settings with
  | (c, .error e) => (c, .error e)
  | (c, .ok ()) => ({ c with settingsState := .zeroRtt settings }, .ok ())

end Http3Connection

/-!
## Settings and 0-RTT

A server decides with `check` whether to accept 0-RTT, and the client decides with `handleSettings`
whether the settings that the server then sends are compatible with those that it used.

Decoding the token gives back the settings that were saved (`decodeLoop_encodePairs`), and the
server demands that each is still permitted (`check_save`). The client demands that every setting
agrees (`compareSettings_isOk`) and that no limit exceeds what QPACK permits, which holds
(`handleSettings_isOk`). It demands more in two respects (`handleSettings_of_accepted`): the
capacity of the dynamic table must not change unless it was zero, and extended CONNECT must not have
been switched off, which the token does not save.
-/

open Decoder Encoder HSettings HttpZeroRttChecker List

/-! ### Decoding settings -/

namespace HSettings

def encodePair (p : ℕ × ℕ) : Bytes := encodeVarint p.1 ++ encodeVarint p.2

lemma decodeLoop_encodePairs {pairs : List (ℕ × ℕ)}
    (hpairs : ∀ p ∈ pairs, p.1 ≤ maxVarint ∧ p.2 ≤ maxVarint ∧ p.1 ∉ h3ReservedSettings)
    {fuel : ℕ} (hfuel : pairs.length < fuel) {dec : Decoder} (s : HSettings)
    (hdec : dec.asRef = pairs.flatMap encodePair) :
    decodeLoop fuel s dec = pairs.foldlM (fun s p => s.decodeSetting p.1 p.2) s := by
  induction pairs generalizing fuel s dec with
  | nil =>
    obtain ⟨fuel, rfl⟩ := Nat.exists_eq_succ_of_ne_zero hfuel.ne_bot
    have hremaining : dec.remaining = 0 := by
      rw [← length_asRef, hdec]
      rfl
    rw [decodeLoop, if_neg (by omega)]
    rfl
  | cons p pairs ih =>
    obtain ⟨t, v⟩ := p
    obtain ⟨ht, hv, hreserved⟩ := hpairs (t, v) mem_cons_self
    obtain ⟨fuel, rfl⟩ := Nat.exists_eq_succ_of_ne_zero (Nat.ne_zero_of_lt hfuel)
    rw [flatMap_cons, encodePair, append_assoc] at hdec
    dsimp only at hdec
    have hremaining : dec.remaining > 0 := by
      rw [← length_asRef, hdec, length_append, length_encodeVarint]
      have := varintLen_pos t
      omega
    have hskip : (dec.skip (varintLen t)).asRef = encodeVarint v ++ pairs.flatMap encodePair := by
      rw [← length_encodeVarint]
      exact asRef_skip hdec
    have hrest : ((dec.skip (varintLen t)).skip (varintLen v)).asRef =
        pairs.flatMap encodePair := by
      rw [← length_encodeVarint v]
      exact asRef_skip hskip
    rw [decodeLoop, if_pos hremaining, decodeVarint_of_asRef ht hdec]
    dsimp only
    rw [if_neg hreserved, decodeVarint_of_asRef hv hskip, foldlM_cons]
    dsimp only
    cases s.decodeSetting t v with
    | error => rfl
    | ok s =>
      exact ih (fun p hp => hpairs p (mem_cons_of_mem _ hp))
        (by simpa using hfuel) s hrest

lemma decodeFrameContents_encodePairs {pairs : List (ℕ × ℕ)}
    (hpairs : ∀ p ∈ pairs, p.1 ≤ maxVarint ∧ p.2 ≤ maxVarint ∧ p.1 ∉ h3ReservedSettings)
    {dec : Decoder} (s : HSettings) (hdec : dec.asRef = pairs.flatMap encodePair) :
    s.decodeFrameContents dec = pairs.foldlM (fun s p => s.decodeSetting p.1 p.2) s := by
  have hlength : pairs.length ≤ (pairs.flatMap encodePair).length := by
    rw [length_flatMap]
    refine le_trans (by simp) (length_le_sum_of_one_le _ ?_)
    intro n hn
    obtain ⟨p, -, rfl⟩ := mem_map.mp hn
    rw [encodePair, length_append, length_encodeVarint]
    have := varintLen_pos p.1
    omega
  refine decodeLoop_encodePairs hpairs ?_ s hdec
  rw [← length_asRef, hdec]
  omega

end HSettings

/-! ### What the server demands -/

namespace HttpZeroRttChecker

/-- The settings in a token. -/
def savedPairs (p : Http3Parameters) : List (ℕ × ℕ) :=
  [(settingsQpackMaxTableCapacity, p.getMaxTableSizeDecoder),
    (settingsQpackBlockedStreams, p.getMaxBlockedStreams)] ++
    (if p.webtransportEnabled then [(settingsEnableWebTransport, 1)] else []) ++
    (if p.getHttp3Datagram then [(settingsH3Datagram, 1)] else [])

variable (p : Http3Parameters)

lemma save_eq :
    save p = encodeVarint settingsZeroRttVersion ++ (savedPairs p).flatMap encodePair := by
  unfold save savedPairs
  cases p.webtransportEnabled <;> cases p.getHttp3Datagram <;>
    simp [encodePair]

lemma savedPairs_encodable :
    ∀ q ∈ savedPairs p, q.1 ≤ maxVarint ∧ q.2 ≤ maxVarint ∧ q.1 ∉ h3ReservedSettings := by
  have htable : p.getMaxTableSizeDecoder ≤ maxVarint :=
    p.qpackSettings.maxTableSizeDecoder_le.trans (by decide)
  have hblocked : p.getMaxBlockedStreams ≤ maxVarint :=
    p.qpackSettings.maxBlockedStreams_lt.le.trans (by decide)
  intro q hq
  simp only [savedPairs, mem_append, mem_cons, not_mem_nil, or_false] at hq
  rcases hq with ((rfl | rfl) | hq) | hq
  · exact ⟨(by decide : settingsQpackMaxTableCapacity ≤ maxVarint), htable,
      (by decide : settingsQpackMaxTableCapacity ∉ h3ReservedSettings)⟩
  · exact ⟨(by decide : settingsQpackBlockedStreams ≤ maxVarint), hblocked,
      (by decide : settingsQpackBlockedStreams ∉ h3ReservedSettings)⟩
  · split at hq
    · rw [mem_singleton] at hq
      subst hq
      decide
    · exact absurd hq not_mem_nil
  · split at hq
    · rw [mem_singleton] at hq
      subst hq
      decide
    · exact absurd hq not_mem_nil

/-- The settings that a token gives back. -/
def remembered (p : Http3Parameters) : HSettings :=
  ⟨[⟨.maxTableCapacity, p.getMaxTableSizeDecoder⟩, ⟨.blockedStreams, p.getMaxBlockedStreams⟩] ++
    (if p.webtransportEnabled then [⟨.enableWebTransport, 1⟩] else []) ++
    (if p.getHttp3Datagram then [⟨.enableH3Datagram, 1⟩] else [])⟩

lemma decode_savedPairs :
    (savedPairs p).foldlM (fun s p => decodeSetting s p.1 p.2) {} =
      .ok (remembered p) := by
  unfold savedPairs remembered
  cases p.webtransportEnabled <;> cases p.getHttp3Datagram <;> rfl

/-- **The server accepts 0-RTT just if no setting that it saved has been lowered.** -/
theorem check_save (old new : Http3Parameters) :
    check ⟨new⟩ (save old) = .accept ↔
      old.getMaxTableSizeDecoder ≤ new.getMaxTableSizeDecoder ∧
        old.getMaxBlockedStreams ≤ new.getMaxBlockedStreams ∧
        (old.webtransportEnabled → new.webtransportEnabled) ∧
        (old.getHttp3Datagram → new.getHttp3Datagram) := by
  have hdec : (Decoder.new (save old)).asRef = encodeVarint settingsZeroRttVersion ++
      (savedPairs old).flatMap encodePair := by
    rw [← save_eq]
    rfl
  have hrest : ((Decoder.new (save old)).skip (varintLen settingsZeroRttVersion)).asRef =
      (savedPairs old).flatMap encodePair := by
    exact asRef_skip hdec
  unfold check
  rw [decodeVarint_of_asRef (by decide) hdec]
  dsimp only
  rw [decodeFrameContents_encodePairs (savedPairs_encodable old) {} hrest,
    decode_savedPairs]
  unfold remembered
  cases old.webtransportEnabled <;> cases old.getHttp3Datagram <;>
    simp [permits, permitsFlag]

end HttpZeroRttChecker

/-! ### What the client demands -/

namespace Http3Connection

/-- The new value of a setting is compatible with the one that was used for 0-RTT. -/
def Agrees (settings newSettings : HSettings) (st : HSettingType) : Prop :=
  settings.get st ≤ newSettings.get st ∧
    (st = .maxTableCapacity → settings.get st = 0 ∨ settings.get st = newSettings.get st)

lemma compareSettings_isOk (settings newSettings : HSettings) (sts : List HSettingType)
    (qpackChanged : Bool) :
    (∃ changed, compareSettings settings newSettings sts qpackChanged = .ok changed) ↔
      ∀ st ∈ sts, Agrees settings newSettings st := by
  induction sts generalizing qpackChanged with
  | nil => simp [compareSettings]
  | cons st sts ih =>
    rw [compareSettings.eq_def]
    dsimp only
    rcases lt_trichotomy (settings.get st) (newSettings.get st) with hlt | heq | hgt
    · rw [if_neg hlt.ne, if_neg hlt.not_gt]
      cases st with
      | maxTableCapacity =>
        by_cases hzero : settings.get .maxTableCapacity = 0
        · simp [hzero, ih, Agrees]
        · simp [hzero, hlt.ne, Agrees]
      | blockedStreams | maxHeaderListSize | enableWebTransport | enableH3Datagram
      | enableConnect => simp [ih, Agrees, hlt.le]
    · rw [if_pos heq, ih]
      simp [Agrees, heq]
    · rw [if_neg hgt.ne', if_pos hgt]
      simp [Agrees, hgt.not_ge]

/-- The limits that a server sends never exceed what QPACK permits. -/
lemma setQpackSettings_fromParams (c : Http3Connection) (p : Http3Parameters) :
    (c.setQpackSettings (.fromParams p)).2 = .ok () := by
  have htable : ¬ (fromParams p).get .maxTableCapacity > (1 <<< 30) - 1 :=
    p.qpackSettings.maxTableSizeDecoder_le.not_gt
  have hblocked : ¬ (fromParams p).get .blockedStreams ≥ 2 ^ 16 :=
    p.qpackSettings.maxBlockedStreams_lt.not_ge
  unfold setQpackSettings Qpack.Encoder.setMaxCapacity Qpack.Encoder.setMaxBlockedStreams
  dsimp only
  split_ifs <;> rfl

/-- **The client accepts the settings of a server just if each of them agrees.** -/
theorem handleSettings_isOk {c : Http3Connection} {settings : HSettings}
    (hc : c.settingsState = .zeroRtt settings) (prereqs : TransportPrerequisites)
    (new : Http3Parameters) :
    (c.handleSettings prereqs (.fromParams new)).2 = .ok () ↔
      ∀ st ∈ comparedSettings, Agrees settings (.fromParams new) st := by
  rw [← compareSettings_isOk _ _ _ false]
  unfold handleSettings
  rw [hc]
  dsimp only
  cases compareSettings settings (.fromParams new) comparedSettings false with
  | error => simp
  | ok qpackChanged =>
    have hqpack := setQpackSettings_fromParams (c.negotiate (.fromParams new) prereqs) new
    generalize (c.negotiate (.fromParams new) prereqs).setQpackSettings (.fromParams new) = r
      at hqpack ⊢
    obtain ⟨c', res⟩ := r
    subst hqpack
    cases qpackChanged <;> simp

lemma toNat_le_toNat {a b : Bool} : a.toNat ≤ b.toNat ↔ (a → b) := by
  cases a <;> cases b <;> decide

lemma agrees_fromParams (old new : Http3Parameters) :
    (∀ st ∈ comparedSettings, Agrees (.fromParams old) (.fromParams new) st) ↔
      (old.getMaxTableSizeDecoder ≤ new.getMaxTableSizeDecoder ∧
        (old.getMaxTableSizeDecoder = 0 ∨
          old.getMaxTableSizeDecoder = new.getMaxTableSizeDecoder)) ∧
      old.getMaxBlockedStreams ≤ new.getMaxBlockedStreams ∧
      (old.connectEnabled → new.connectEnabled) ∧
      (old.webtransportEnabled → new.webtransportEnabled) ∧
      (old.getHttp3Datagram → new.getHttp3Datagram) := by
  simp [comparedSettings, Agrees, HSettings.get, HSettings.fromParams, toNat_le_toNat]

/-- **A client whose 0-RTT was accepted accepts the settings of the server just if the capacity of
the dynamic table is the one it remembers or that was zero, and extended CONNECT is not switched
off.** -/
theorem handleSettings_of_accepted {old new : Http3Parameters}
    (haccept : check ⟨new⟩ (save old) = .accept) {c : Http3Connection}
    (hc : c.settingsState = .zeroRtt (.fromParams old)) (prereqs : TransportPrerequisites) :
    (c.handleSettings prereqs (.fromParams new)).2 = .ok () ↔
      (old.getMaxTableSizeDecoder = 0 ∨
        old.getMaxTableSizeDecoder = new.getMaxTableSizeDecoder) ∧
      (old.connectEnabled → new.connectEnabled) := by
  rw [check_save] at haccept
  obtain ⟨htable, hblocked, hwebtransport, hdatagram⟩ := haccept
  rw [handleSettings_isOk hc, agrees_fromParams]
  constructor
  · rintro ⟨⟨-, hsame⟩, -, hconnect, -⟩
    exact ⟨hsame, hconnect⟩
  · rintro ⟨hsame, hconnect⟩
    exact ⟨⟨htable, hsame⟩, hblocked, hconnect, hwebtransport, hdatagram⟩

/-- A server with the default parameters is restarted with a limit of 40 blocked streams. -/
theorem handleSettings_of_accepted_blockedStreams :
    let new : Http3Parameters := { qpackSettings := { maxBlockedStreams := 40 } }
    let client := ((Http3Connection.new {} .client).set0rttSettings (.fromParams {})).1
    (client.handleSettings ⟨true, true⟩ (.fromParams new)).2 = .ok () := by
  intro new client
  exact (@handleSettings_of_accepted {} new (by decide +kernel) client rfl ⟨true, true⟩).mpr
    ⟨.inr rfl, id⟩

/-- A server that raises the capacity of the dynamic table accepts 0-RTT, and so does one that
switches off extended CONNECT.  In both cases the client fails. -/
theorem handleSettings_of_accepted_fails :
    let raised : Http3Parameters := { qpackSettings := { maxTableSizeDecoder := 131072 } }
    let client := ((Http3Connection.new {} .client).set0rttSettings (.fromParams {})).1
    let withConnect : Http3Parameters := { connect := true }
    let connectClient :=
      ((Http3Connection.new withConnect .client).set0rttSettings (.fromParams withConnect)).1
    (client.settingsState = .zeroRtt (.fromParams {}) ∧
      check ⟨raised⟩ (save {}) = .accept ∧
      (client.handleSettings ⟨true, true⟩ (.fromParams raised)).2 =
        .error (.qpack .decoderStream)) ∧
    (connectClient.settingsState = .zeroRtt (.fromParams withConnect) ∧
      check ⟨{}⟩ (save withConnect) = .accept ∧
      (connectClient.handleSettings ⟨true, true⟩ (.fromParams {})).2 = .error .httpSettings) := by
  decide +kernel

end Http3Connection

end Neqo.Http3
