import Neqo.Basic
import Neqo.Rtt

/-!
# Packet protection keys

The keys of one direction and one epoch, and the 1-RTT keys of a connection with their updates.

Secrets, AEADs and header protection are not modelled. Keys are identified by their epoch, and a
packet says under the keys of which epoch it is authentic.
-/

namespace Neqo

/-- What keys are for. -/
inductive CryptoDxDirection where
  | read
  | write
  deriving DecidableEq, Repr

/-- The cipher suites. -/
inductive Cipher where
  | tlsAes128GcmSha256
  | tlsAes256GcmSha384
  | tlsChacha20Poly1305Sha256
  deriving DecidableEq, Repr

/-- The TLS epochs. -/
inductive Epoch where
  | initial
  | zeroRtt
  | handshake
  | applicationData
  deriving DecidableEq, Repr

def Epoch.toNat : Epoch → ℕ
  | .initial => 0
  | .zeroRtt => 1
  | .handshake => 2
  | .applicationData => 3

/-- A range of packet numbers, without the number at which it stops. -/
structure PnRange where
  start : ℕ
  stop : ℕ
  deriving DecidableEq, Repr

namespace PnRange

def isEmpty (r : PnRange) : Bool := !(r.start < r.stop)

def contains (r : PnRange) (pn : ℕ) : Bool := r.start ≤ pn && pn < r.stop

end PnRange

/-- A packet with protection. -/
structure ProtectedPacket where
  keyPhase : Bool
  pn : ℕ
  /-- Whether a reserved bit is set. -/
  reserved : Bool := false
  /-- The epoch of the keys under which the packet is authentic, if it is. -/
  epoch : Option ℕ
  deriving DecidableEq, Repr

/-! ### Keys of one direction -/

/-- Keys for packets in one direction. -/
structure CryptoDxState where
  /-- Whether packets protected with this state will be read or written. -/
  direction : CryptoDxDirection
  /-- The epoch of this crypto state. -/
  epoch : ℕ
  /-- The range of packet numbers seen, to verify that those before a key update are lower than
  those after. -/
  usedPn : PnRange
  /-- The minimum packet number that is allowed. -/
  minPn : ℕ
  /-- The number of operations that are remaining before the keys become exhausted. -/
  invocations : ℕ
  /-- The basis of the invocation limits in `invocations`. -/
  largestPacketLen : ℕ
  deriving DecidableEq, Repr

namespace CryptoDxState

def initialLargestPacketLen : ℕ := 1 <<< 11

/-- The number of invocations that remain when write keys are updated. -/
def updateWriteKeysAt : ℕ := 100

/-- The confidentiality and integrity limits for the cipher. -/
def limit (direction : CryptoDxDirection) (cipher : Cipher) : ℕ :=
  match direction, cipher with
  -- This uses the smaller limits for 2^16 byte packets as we don't control incoming packet size.
  | .read, .tlsAes128GcmSha256 => 1 <<< 52
  | .read, .tlsAes256GcmSha384 => 2 ^ 64 - 1
  | .read, .tlsChacha20Poly1305Sha256 => 1 <<< 36
  -- This uses the larger limits for 2^11 byte packets.
  | .write, .tlsAes128GcmSha256 => 1 <<< 28
  | .write, .tlsAes256GcmSha384 => 1 <<< 28
  | .write, .tlsChacha20Poly1305Sha256 => 2 ^ 64 - 1

def new (direction : CryptoDxDirection) (epoch : Epoch) (cipher : Cipher) (minPn : ℕ) :
    CryptoDxState :=
  { direction := direction
    epoch := epoch.toNat
    usedPn := ⟨minPn, minPn⟩
    minPn := minPn
    invocations := limit direction cipher
    largestPacketLen := initialLargestPacketLen }

variable (dx : CryptoDxState)

def nextPn : ℕ := dx.usedPn.stop

def invoked : CryptoDxState × Res :=
  if dx.invocations = 0 then (dx, .error .keysExhausted)
  else ({ dx with invocations := dx.invocations - 1 }, .ok ())

/-- Whether we should initiate a key update. -/
def shouldUpdate : Bool := dx.invocations ≤ updateWriteKeysAt

def next (cipher : Cipher) : CryptoDxState :=
  let pn := dx.nextPn
  { direction := dx.direction
    epoch := dx.epoch + 1
    usedPn := ⟨pn, pn⟩
    minPn := pn
    -- All invocations to read count toward a single limit.
    invocations := if dx.direction = .read then dx.invocations else limit .write cipher
    largestPacketLen := initialLargestPacketLen }

/-- Epoch 3 has phase 0, 4 has 1, 5 has 0, 6 has 1, and so on. -/
def keyPhase : Bool := dx.epoch % 2 ≠ 1

/-- This is a continuation of a previous one, so adjust the range accordingly. Fail if the two
ranges overlap. -/
def continuation (prev : CryptoDxState) : CryptoDxState × Res :=
  let next := prev.nextPn
  let dx := { dx with minPn := next }
  if dx.usedPn.isEmpty then ({ dx with usedPn := ⟨next, next⟩ }, .ok ())
  else if prev.usedPn.stop > dx.usedPn.start then (dx, .error .packetNumberOverlap)
  else ({ dx with usedPn := { dx.usedPn with start := next } }, .ok ())

/-- Mark a packet number as used. If this is too low, reject it. -/
def used (pn : ℕ) : CryptoDxState × Res :=
  if pn < dx.minPn then (dx, .error .packetNumberOverlap)
  else
    let start := if dx.usedPn.start = dx.usedPn.stop then pn else dx.usedPn.start
    ({ dx with usedPn := ⟨start, max (pn + 1) dx.usedPn.stop⟩ }, .ok ())

def needsUpdate : Bool :=
  -- Only initiate a key update if we have processed exactly one packet and we are in an epoch
  -- greater than 3.
  dx.usedPn.start + 1 = dx.usedPn.stop ∧ dx.epoch > Epoch.applicationData.toNat

def canUpdate (largestAcknowledged : Option ℕ) : Bool :=
  match largestAcknowledged with
  | none => dx.epoch = Epoch.applicationData.toNat
  | some la => dx.usedPn.contains la

/-- Protect the next packet. -/
def encrypt (bodyLen : ℕ) : CryptoDxState × Res :=
  let pn := dx.nextPn
  -- The limits assume a maximum packet size. Adjust them as we encounter larger packets.
  let dx :=
    if bodyLen > dx.largestPacketLen then
      let newBits := (bodyLen - 1).log2 - (dx.largestPacketLen - 1).log2
      { dx with invocations := dx.invocations >>> newBits, largestPacketLen := bodyLen }
    else dx
  match dx.invoked with
  | (dx, .error e) => (dx, .error e)
  | (dx, .ok _) => dx.used pn

/-- Remove the protection of a packet. -/
def decrypt (packet : ProtectedPacket) : CryptoDxState × Res :=
  match dx.invoked with
  | (dx, .error e) => (dx, .error e)
  | (dx, .ok _) => if packet.epoch = some dx.epoch then dx.used packet.pn else (dx, .error .decrypt)

end CryptoDxState

/-- The state necessary for one direction of application data keys. -/
structure CryptoDxAppData where
  dx : CryptoDxState
  cipher : Cipher
  deriving DecidableEq, Repr

namespace CryptoDxAppData

def new (direction : CryptoDxDirection) (cipher : Cipher) : CryptoDxAppData :=
  { dx := .new direction .applicationData cipher 0, cipher := cipher }

def next (app : CryptoDxAppData) : Except Error CryptoDxAppData :=
  -- Guard against too many key updates.
  if app.dx.epoch = usizeMax then .error .keysExhausted
  else .ok { app with dx := app.dx.next app.cipher }

end CryptoDxAppData

/-! ### Keys of a connection -/

/-- The keys for application data. -/
structure CryptoStates where
  /-- One direction only. -/
  zeroRtt : Option CryptoDxState := none
  cipher : Cipher
  appWrite : Option CryptoDxAppData := none
  appRead : Option CryptoDxAppData := none
  appReadNext : Option CryptoDxAppData := none
  /-- If this is set, then we have noticed a genuine update. Once this time passes, we should
  switch in new keys. -/
  readUpdateTime : Option ℕ := none
  /-- The read epoch of the most recent key update we have responded to. -/
  readUpdateEpoch : Option ℕ := none
  deriving DecidableEq, Repr

/-- The read keys that can be selected for a packet. -/
inductive ReadKeys where
  | current
  | next
  deriving DecidableEq, Repr

namespace CryptoStates

variable (s : CryptoStates)

def readKeys : ReadKeys → Option CryptoDxAppData
  | .current => s.appRead
  | .next => s.appReadNext

def setReadKeys (keys : ReadKeys) (app : CryptoDxAppData) : CryptoStates :=
  match keys with
  | .current => { s with appRead := some app }
  | .next => { s with appReadNext := some app }

/-- Which keys are used to read a packet with the given key phase. -/
def rx (keyPhase : Bool) : Option ReadKeys :=
  let f (a : Option CryptoDxAppData) := a.any fun ar => ar.dx.keyPhase = keyPhase
  -- Either the current keys or the next ones, but not if both match.
  match f s.appRead, f s.appReadNext with
  | true, false => some .current
  | false, true => some .next
  | _, _ => none

/-- The source asserts that there are no application keys yet; otherwise nothing is done here. -/
def setApplicationWriteKey : CryptoStates × Res :=
  if s.appWrite.isSome then (s, .ok ())
  else
    let app := CryptoDxAppData.new .write s.cipher
    match s.zeroRtt with
    | some z =>
      if z.direction = .write then
        match app.dx.continuation z with
        | (_, .error e) => (s, .error e)
        | (dx, .ok _) => ({ s with zeroRtt := none, appWrite := some { app with dx := dx } },
            .ok ())
      else ({ s with zeroRtt := none, appWrite := some app }, .ok ())
    | none => ({ s with zeroRtt := none, appWrite := some app }, .ok ())

/-- Install read keys after 0-RTT keys, if there are any. -/
def continueReadKey (expire0rtt : ℕ) : Except Error (CryptoDxAppData × Option ℕ) :=
  let app := CryptoDxAppData.new .read s.cipher
  match s.zeroRtt with
  | some z =>
    if z.direction = .read then
      match app.dx.continuation z with
      | (_, .error e) => .error e
      | (dx, .ok _) => .ok ({ app with dx := dx }, some expire0rtt)
    else .ok (app, some expire0rtt)
  | none => .ok (app, s.readUpdateTime)

/-- The source asserts that write keys are installed and read keys are not; otherwise nothing is
done here. -/
def setApplicationReadKey (expire0rtt : ℕ) : CryptoStates × Res :=
  if s.appWrite.isNone ∨ s.appRead.isSome then (s, .ok ())
  else
    match s.continueReadKey expire0rtt with
    | .error e => (s, .error e)
    | .ok (app, readUpdateTime) =>
      let s := { s with readUpdateTime := readUpdateTime }
      match app.next with
      | .error e => (s, .error e)
      | .ok next => ({ s with appRead := some app, appReadNext := some next }, .ok ())

/-- Try to update the write keys, and return true if it happened. -/
def maybeUpdateWrite : Except Error (CryptoStates × Bool) :=
  match s.appWrite, s.appRead with
  | some write, some read =>
    -- Only do so if the write keys are not already ahead of the read keys.
    if write.dx.epoch = read.dx.epoch then
      match write.next with
      | .error e => .error e
      | .ok write => .ok ({ s with appWrite := some write }, true)
    else .ok (s, false)
  | _, _ => .error .internal

/-- Update the write keys. -/
def initiateKeyUpdate (largestAcknowledged : Option ℕ) : CryptoStates × Res :=
  match s.appWrite with
  | none => (s, .error .internal)
  | some write =>
    if write.dx.canUpdate largestAcknowledged && s.readUpdateTime.isNone then
      match s.maybeUpdateWrite with
      | .error e => (s, .error e)
      | .ok (s, true) => (s, .ok ())
      | .ok (s, false) => (s, .error .keyUpdateBlocked)
    else (s, .error .keyUpdateBlocked)

/-- If write keys are close to running out of invocations, update them. -/
def autoUpdate : CryptoStates × Res :=
  if s.appWrite.any fun write => write.dx.shouldUpdate then
    match s.maybeUpdateWrite with
    | .error e => (s, .error e)
    | .ok (s, true) => (s, .ok ())
    | .ok (s, false) => (s, .error .keysExhausted)
  else (s, .ok ())

/-- Protect a packet with the write keys. -/
def encrypt (bodyLen : ℕ) : CryptoStates × Res :=
  match s.appWrite with
  | none => (s, .ok ())
  | some write =>
    let (dx, res) := write.dx.encrypt bodyLen
    ({ s with appWrite := some { write with dx := dx } }, res)

def has0rttRead : Bool := s.zeroRtt.any fun z => z.direction = .read

/-- Prepare to update read keys. Delayed packets that use the old keys can still be received, so
this just sets a timer. -/
def keyUpdateReceived (epoch expiration : ℕ) : CryptoStates × Res :=
  -- Respond to each key update once.
  if s.readUpdateEpoch.any fun e => epoch ≤ e then (s, .ok ())
  else
    let s := { s with readUpdateEpoch := some epoch }
    match s.maybeUpdateWrite with
    | .error e => (s, .error e)
    | .ok (s, _) =>
      let s := if s.has0rttRead then { s with zeroRtt := none } else s
      ({ s with readUpdateTime := some expiration }, .ok ())

/-- Check if time has passed for updating keys. If so, swap keys and allow more key updates. -/
def checkKeyUpdate (now : ℕ) : CryptoStates × Res :=
  match s.readUpdateTime with
  | none => (s, .ok ())
  | some expiry =>
    if now ≥ expiry then
      if s.has0rttRead then ({ s with zeroRtt := none, readUpdateTime := none }, .ok ())
      else
        let s := { s with appRead := s.appReadNext, appReadNext := s.appRead }
        match s.appRead with
        | none => (s, .error .internal)
        | some read =>
          match read.next with
          | .error e => (s, .error e)
          | .ok next => ({ s with appReadNext := some next, readUpdateTime := none }, .ok ())
    else (s, .ok ())

/-- While the completion of a key update is awaited, valid packets protected with old keys may
arrive. Ensure that their numbers are not higher than those of packets protected with the newer
keys. -/
def checkPnOverlap : CryptoStates × Res :=
  if s.readUpdateTime.isSome then
    match s.appReadNext, s.appRead with
    | some next, some read =>
      let (dx, res) := next.dx.continuation read.dx
      ({ s with appReadNext := some { next with dx := dx } }, res)
    | _, _ => (s, .error .internal)
  else (s, .ok ())

/-- What is done after the protection of a packet was removed with the given keys. -/
def decrypted (dx : CryptoDxState) (releaseAt : ℕ) : CryptoStates × Res :=
  -- If this is the first packet ever successfully decrypted, make sure to initiate a key update.
  let (s, res) :=
    if dx.needsUpdate then s.keyUpdateReceived dx.epoch releaseAt else (s, .ok ())
  match res with
  | .error e => (s, .error e)
  | .ok _ => s.checkPnOverlap

/-- Remove the protection of a packet with a short header. -/
def decrypt (packet : ProtectedPacket) (releaseAt : ℕ) : CryptoStates × Res :=
  if s.appRead.isNone then (s, .error .keysPending)
  else
    match s.rx packet.keyPhase with
    | none => (s, .error .decrypt)
    | some keys =>
      match s.readKeys keys with
      | none => (s, .error .decrypt)
      | some app =>
        let (dx, res) := app.dx.decrypt packet
        let s := s.setReadKeys keys { app with dx := dx }
        match res with
        | .error e => (s, .error e)
        | .ok _ =>
          -- The reserved bits can only be checked now that protection has been removed.
          if packet.reserved then (s, .error .protocolViolation) else s.decrypted dx releaseAt

end CryptoStates

/-! ### Runs -/

/-- What a connection does with its keys for application data. -/
inductive KeyOp where
  | decrypt (packet : ProtectedPacket) (releaseAt : ℕ)
  | checkKeyUpdate (now : ℕ)
  | initiateKeyUpdate (largestAcknowledged : Option ℕ)
  | autoUpdate
  | encrypt (bodyLen : ℕ)
  deriving DecidableEq, Repr

/-- The keys of a connection and whether it has been closed. -/
structure KeyedConnection where
  states : CryptoStates
  closed : Bool := false
  deriving DecidableEq, Repr

namespace KeyedConnection

/-- A connection with application keys. -/
def new (cipher : Cipher) (zeroRtt : Option CryptoDxState) (expire0rtt : ℕ) : KeyedConnection :=
  let s : CryptoStates := { cipher := cipher, zeroRtt := zeroRtt }
  { states := (s.setApplicationWriteKey.1.setApplicationReadKey expire0rtt).1 }

/-- A connection with application keys, on which a server may have installed 0-RTT read keys after
the write keys. -/
def installed (cipher : Cipher) (zeroRtt lateZeroRtt : Option CryptoDxState) (expire0rtt : ℕ) :
    KeyedConnection :=
  let s : CryptoStates := { cipher := cipher, zeroRtt := zeroRtt }
  let s := s.setApplicationWriteKey.1
  let s :=
    match lateZeroRtt with
    | some z => { s with zeroRtt := some { z with direction := .read } }
    | none => s
  { states := (s.setApplicationReadKey expire0rtt).1 }

/-- Errors for which the connection is closed when a packet could not be decrypted. Otherwise the
packet is dropped. -/
def fatal : Res → Bool
  | .error .keysExhausted => true
  | .error .protocolViolation => true
  | _ => false

def failed : Res → Bool
  | .error _ => true
  | .ok _ => false

/-- An operation and its result. Nothing is done once the connection is closed. -/
def step (c : KeyedConnection) (op : KeyOp) : KeyedConnection × Res :=
  if c.closed then (c, .ok ())
  else
    match op with
    | .decrypt packet releaseAt =>
      let (s, res) := c.states.decrypt packet releaseAt
      ({ states := s, closed := fatal res }, res)
    | .checkKeyUpdate now =>
      let (s, res) := c.states.checkKeyUpdate now
      ({ states := s, closed := failed res }, res)
    | .initiateKeyUpdate largestAcknowledged =>
      let (s, res) := c.states.initiateKeyUpdate largestAcknowledged
      ({ states := s }, res)
    | .autoUpdate =>
      let (s, res) := c.states.autoUpdate
      ({ states := s, closed := failed res }, res)
    | .encrypt bodyLen =>
      let (s, res) := c.states.encrypt bodyLen
      ({ states := s, closed := failed res }, res)

def run (c : KeyedConnection) (ops : List KeyOp) : KeyedConnection :=
  ops.foldl (fun c op => (c.step op).1) c

end KeyedConnection

/-!
## Keys of all packet number spaces

Initial keys depend on the version. They are replaced after a Retry, and when the version changes
during the handshake, those of the new version continue from those of the old one. The old version
is that of `Crypto`, but the write keys are selected by the version of the connection.
-/

open KeyedConnection

/-- The versions of QUIC. -/
inductive Version where
  | version2
  | version1
  | draft29
  deriving DecidableEq, Repr

def Version.all : List Version := [.version2, .version1, .draft29]

/-- The keys of both directions. -/
structure CryptoState where
  tx : CryptoDxState
  rx : CryptoDxState
  deriving DecidableEq, Repr

/-- The version that was configured or confirmed, and the keys. `states` has those for application
data. -/
structure Crypto where
  version : Version
  initials : Version → Option CryptoState := fun _ => none
  handshake : Option CryptoState := none
  states : CryptoStates

namespace Crypto

variable (c : Crypto)

def setInitial (v : Version) (state : CryptoState) : Crypto :=
  { c with initials := Function.update c.initials v (some state) }

/-- Create the initial crypto state for one version. -/
def initVersion (minPn : ℕ) (v : Version) : Crypto × Res :=
  let initial : CryptoState :=
    { tx := .new .write .initial .tlsAes128GcmSha256 minPn
      rx := .new .read .initial .tlsAes128GcmSha256 0 }
  match c.initials v with
  | none => (c.setInitial v initial, .ok ())
  | some prev =>
    match initial.rx.continuation prev.rx with
    | (_, .error e) => (c, .error e)
    | (rx, .ok _) =>
      match initial.tx.continuation prev.tx with
      | (_, .error e) => (c, .error e)
      | (tx, .ok _) => (c.setInitial v { tx := tx, rx := rx }, .ok ())

/-- Create the initial crypto state. `minPn` is 0 or chosen at random. -/
def init (c : Crypto) (minPn : ℕ) : List Version → Crypto × Res
  | [] => (c, .ok ())
  | v :: versions =>
    match c.initVersion minPn v with
    | (c, .error e) => (c, .error e)
    | (c, .ok _) => init c minPn versions

/-- At a server, keys are initialized on demand. -/
def initServer (minPn : ℕ) (version : Version) : Crypto × Res :=
  if (c.initials version).isNone then c.init minPn [version] else (c, .ok ())

/-- The keys of the confirmed version continue from those of the version before. -/
def continueVersion (confirmed : Version) : Crypto × Res :=
  if c.version ≠ confirmed then
    match c.initials c.version with
    -- A server might not have keys for the original version.
    | none => (c, .ok ())
    | some prev =>
      match c.initials confirmed with
      | none => (c, .error .versionNegotiation)
      | some next =>
        match next.rx.continuation prev.rx with
        | (rx, .error e) => (c.setInitial confirmed { next with rx := rx }, .error e)
        | (rx, .ok _) =>
          let (tx, res) := next.tx.continuation prev.tx
          (c.setInitial confirmed { tx := tx, rx := rx }, res)
  else (c, .ok ())

def confirmVersion (confirmed : Version) : Crypto × Res :=
  match c.continueVersion confirmed with
  | (c, .error e) => (c, .error e)
  | (c, .ok _) => ({ c with version := confirmed }, .ok ())

variable (version : Version)

/-- If no packet was received in this version but some were in another, then packet numbers are
continued. -/
def maybeContinueInitialRx : Crypto :=
  match c.initials version with
  | none => c
  | some next =>
    if next.rx.nextPn ≠ 0 then c
    else
      match Version.all.find? fun v => (c.initials v).any fun z => z.rx.nextPn > 0 with
      | none => c
      | some other =>
        match c.initials other with
        | none => c
        -- This ignores errors.
        | some prev =>
          c.setInitial version { next with rx := (next.rx.continuation prev.rx).1 }

/-- Remove the protection of an Initial packet. -/
def decryptInitial (packet : ProtectedPacket) : Crypto × Res :=
  let c := c.maybeContinueInitialRx version
  match c.initials version with
  | none => (c, .error .decrypt)
  | some state =>
    let (rx, res) := state.rx.decrypt packet
    let c := c.setInitial version { state with rx := rx }
    match res with
    | .error e => (c, .error e)
    | .ok _ => (c, if packet.reserved then .error .protocolViolation else .ok ())

def set0rttKeys (direction : CryptoDxDirection) (cipher : Cipher) : Crypto :=
  { c with states := { c.states with zeroRtt := some (.new direction .zeroRtt cipher 0) } }

def setHandshakeKeys (cipher : Cipher) : Crypto :=
  { c with
    states := { c.states with cipher := cipher }
    handshake :=
      some { tx := .new .write .handshake cipher 0, rx := .new .read .handshake cipher 0 } }

/-- The keys for writing in an epoch. -/
def tx : Epoch → Option CryptoDxState
  | .initial => (c.initials version).map CryptoState.tx
  | .zeroRtt => c.states.zeroRtt.filter fun z => z.direction = .write
  | .handshake => c.handshake.map CryptoState.tx
  | .applicationData => c.states.appWrite.map CryptoDxAppData.dx

def setTx (epoch : Epoch) (dx : CryptoDxState) : Crypto :=
  match epoch with
  | .initial =>
    match c.initials version with
    | none => c
    | some state => c.setInitial version { state with tx := dx }
  | .zeroRtt => { c with states := { c.states with zeroRtt := some dx } }
  | .handshake => { c with handshake := c.handshake.map fun state => { state with tx := dx } }
  | .applicationData =>
    { c with
      states :=
        { c.states with appWrite := c.states.appWrite.map fun app => { app with dx := dx } } }

/-- The keys that are selected for writing in a packet number space. -/
def selectTx : PacketNumberSpace → Option (Epoch × CryptoDxState)
  | .initial => (c.tx version .initial).map fun dx => (.initial, dx)
  | .handshake => (c.tx version .handshake).map fun dx => (.handshake, dx)
  | .applicationData =>
    match c.states.appWrite with
    | some app => some (.applicationData, app.dx)
    | none => c.states.zeroRtt.map fun dx => (.zeroRtt, dx)

/-- Protect a packet. It has the next number of the selected keys; without keys there is none. -/
def encrypt (space : PacketNumberSpace) (bodyLen : ℕ) : Crypto × Except Error (Option ℕ) :=
  match c.selectTx version space with
  | none => (c, .ok none)
  | some (epoch, dx) =>
    let pn := dx.nextPn
    match c.tx version epoch with
    | none => (c, .error .internal)
    | some dx =>
      let (dx, res) := dx.encrypt bodyLen
      (c.setTx version epoch dx, res.map fun _ => some pn)

end Crypto

/-! ### Runs -/

/-- What a connection does with its keys. -/
inductive CryptoOp where
  /-- A client uses a token from an earlier connection, before it has sent anything. -/
  | enableResumption (version : Version)
  | init (versions : List Version) (minPn : ℕ)
  | initServer (version : Version) (minPn : ℕ)
  | confirmVersion (confirmed : Version)
  | decryptInitial (version : Version) (packet : ProtectedPacket)
  | set0rttKeys (direction : CryptoDxDirection) (cipher : Cipher)
  | setHandshakeKeys (cipher : Cipher)
  | setApplicationWriteKey
  | setApplicationReadKey (expire0rtt : ℕ)
  | decrypt (packet : ProtectedPacket) (releaseAt : ℕ)
  | checkKeyUpdate (now : ℕ)
  | initiateKeyUpdate (largestAcknowledged : Option ℕ)
  | autoUpdate
  | encrypt (space : PacketNumberSpace) (bodyLen : ℕ)
  deriving DecidableEq, Repr

/-- The version of the connection, its keys, whether it is closed, and the packet numbers used in
each space. -/
structure CryptoRun where
  version : Version
  crypto : Crypto
  closed : Bool := false
  sent : PacketNumberSpace → List ℕ := fun _ => []

namespace CryptoRun

/-- A connection without keys. -/
def start (version : Version) (cipher : Cipher) : CryptoRun :=
  { version := version, crypto := { version := version, states := { cipher := cipher } } }

variable (c : CryptoRun)

/-- The keys have changed. If that failed, the connection is closed. -/
def update (result : Crypto × Res) : CryptoRun :=
  { c with crypto := result.1, closed := failed result.2 }

/-- The keys for application data have changed. -/
def updateStates (states : CryptoStates) (closed : Bool) : CryptoRun :=
  { c with crypto := { c.crypto with states := states }, closed := closed }

/-- Commit to a particular version. -/
def compatibleUpgrade (confirmed : Version) : CryptoRun :=
  match c.crypto.confirmVersion confirmed with
  | (crypto, .error _) => { c with crypto := crypto, closed := true }
  | (crypto, .ok _) => { c with crypto := crypto, version := confirmed }

/-- A packet is protected, and its number noted. -/
def encrypt (space : PacketNumberSpace) (bodyLen : ℕ) : CryptoRun :=
  match c.crypto.encrypt c.version space bodyLen with
  | (crypto, .error _) => { c with crypto := crypto, closed := true }
  | (crypto, .ok none) => { c with crypto := crypto }
  | (crypto, .ok (some pn)) =>
    { c with
      crypto := crypto
      sent := Function.update c.sent space (c.sent space ++ [pn]) }

/-- Nothing is done once the connection is closed. -/
def step (op : CryptoOp) : CryptoRun :=
  if c.closed then c
  else
    match op with
    | .enableResumption version => { c with version := version }
    | .init versions minPn => c.update (c.crypto.init minPn versions)
    | .initServer version minPn => c.update (c.crypto.initServer minPn version)
    | .confirmVersion confirmed => c.compatibleUpgrade confirmed
    | .decryptInitial version packet =>
      let (crypto, res) := c.crypto.decryptInitial version packet
      { c with crypto := crypto, closed := fatal res }
    | .set0rttKeys direction cipher => { c with crypto := c.crypto.set0rttKeys direction cipher }
    | .setHandshakeKeys cipher => { c with crypto := c.crypto.setHandshakeKeys cipher }
    | .setApplicationWriteKey =>
      let (s, res) := c.crypto.states.setApplicationWriteKey
      c.updateStates s (failed res)
    | .setApplicationReadKey expire0rtt =>
      let (s, res) := c.crypto.states.setApplicationReadKey expire0rtt
      c.updateStates s (failed res)
    | .decrypt packet releaseAt =>
      let (s, res) := c.crypto.states.decrypt packet releaseAt
      c.updateStates s (fatal res)
    | .checkKeyUpdate now =>
      let (s, res) := c.crypto.states.checkKeyUpdate now
      c.updateStates s (failed res)
    | .initiateKeyUpdate largestAcknowledged =>
      c.updateStates (c.crypto.states.initiateKeyUpdate largestAcknowledged).1 false
    | .autoUpdate =>
      let (s, res) := c.crypto.states.autoUpdate
      c.updateStates s (failed res)
    | .encrypt space bodyLen => c.encrypt space bodyLen

/-- Handshake and 0-RTT keys are not installed in place of others, and a token is for the configured
version. -/
def NotReplaced : CryptoOp → Prop
  | .enableResumption version => version = c.crypto.version
  | .set0rttKeys _ _ => c.crypto.states.zeroRtt = none
  | .setHandshakeKeys _ => c.crypto.handshake = none
  | _ => True

instance (c : CryptoRun) : (op : CryptoOp) → Decidable (c.NotReplaced op)
  | .enableResumption version => inferInstanceAs (Decidable (version = c.crypto.version))
  | .set0rttKeys .. => inferInstanceAs (Decidable (c.crypto.states.zeroRtt = none))
  | .setHandshakeKeys _ => inferInstanceAs (Decidable (c.crypto.handshake = none))
  | .init .. | .initServer .. | .confirmVersion _ | .decryptInitial .. | .setApplicationWriteKey
  | .setApplicationReadKey _ | .decrypt .. | .checkKeyUpdate _ | .initiateKeyUpdate _ | .autoUpdate
  | .encrypt .. => isTrue trivial

def run (ops : List CryptoOp) : CryptoRun := ops.foldl step c

end CryptoRun

end Neqo
