import Neqo.Codec.Equiv
import Neqo.Ecn

/-!
# Decoding frames

Numbers are those of `u64` and `usize`, both of 64 bits. Where an operation on them overflows, or
an offset is out of bounds, decoding panics.
-/

namespace Neqo

open Decoder

/-- A range of acknowledged packets, as it is encoded. -/
structure AckRange where
  gap : ℕ
  range : ℕ
  deriving DecidableEq, Repr

/-- The error with which a connection is closed. -/
inductive CloseError where
  | transport (code : ℕ)
  | application (code : ℕ)
  deriving DecidableEq, Repr

/-- The length of the data carried by `PATH_CHALLENGE` and `PATH_RESPONSE` frames. -/
def pathChallengeLen : ℕ := 8

/-- The length of a stateless reset token. -/
def statelessResetTokenLen : ℕ := 16

/-- The largest length of a connection ID. -/
def connectionIdMaxLen : ℕ := 20

namespace Frame

/-- A frame of any type. The reason phrase of `CONNECTION_CLOSE` is kept as bytes. -/
inductive Decoded where
  | padding (len : ℕ)
  | ping
  | ack (largestAcknowledged ackDelay firstAckRange : ℕ) (ackRanges : List AckRange)
      (ecnCount : Option Ecn.Count)
  | resetStream (streamId : StreamId) (applicationErrorCode finalSize : ℕ)
  | resetStreamAt (streamId : StreamId) (applicationErrorCode finalSize reliableSize : ℕ)
  | stopSending (streamId : StreamId) (applicationErrorCode : ℕ)
  | crypto (offset : ℕ) (data : Bytes)
  | newToken (token : Bytes)
  | stream (streamId : StreamId) (offset : ℕ) (data : Bytes) (fin fill : Bool)
  | maxData (maximumData : ℕ)
  | maxStreamData (streamId : StreamId) (maximumStreamData : ℕ)
  | maxStreams (streamType : StreamType) (maximumStreams : ℕ)
  | dataBlocked (dataLimit : ℕ)
  | streamDataBlocked (streamId : StreamId) (streamDataLimit : ℕ)
  | streamsBlocked (streamType : StreamType) (streamLimit : ℕ)
  | newConnectionId (sequenceNumber retirePrior : ℕ) (connectionId statelessResetToken : Bytes)
  | retireConnectionId (sequenceNumber : ℕ)
  | pathChallenge (data : Bytes)
  | pathResponse (data : Bytes)
  | connectionClose (errorCode : CloseError) (frameType : ℕ) (reasonPhrase : Bytes)
  | handshakeDone
  | ackFrequency (seqno tolerance delay : ℕ) (ignoreOrder : Bool)
  | datagram (data : Bytes) (lenFieldLen : Option ℕ)
  deriving DecidableEq, Repr

/-- Decoding moves the decoder, or it fails or panics. -/
abbrev DecodeM := StateT Decoder (Except Failure)

def fail {α : Type} (e : Error) : DecodeM α := throw (.error e)

/-- A decoder that runs out of data is an error. It panics if it has moved beyond its end. -/
def d {α : Type} (v : Decoder → Option (α × Decoder)) : DecodeM α := fun dec =>
  if dec.buf.length < dec.offset then .error .assertion
  else
    match v dec with
    | some r => .ok r
    | none => .error (.error .noMoreData)

/-- The sum of two numbers. -/
def add (a b : ℕ) : DecodeM ℕ := if a + b < 2 ^ 64 then pure (a + b) else throw .assertion

/-- The difference of two numbers. -/
def sub (a b : ℕ) : DecodeM ℕ := if b ≤ a then pure (a - b) else throw .assertion

/-- Decode a varint. -/
def dv : DecodeM ℕ := d decodeVarint

/-- The length of a varint, which has 62 bits at most. -/
def checkedVarintLen (v : ℕ) : DecodeM ℕ :=
  if v ≤ Encoder.maxVarint then pure (Encoder.varintLen v) else throw .assertion

/-- Maximum ACK Range Count in ACK frame. -/
def maxAckRangeCount : ℕ := 32 * 1024

/-- The given number of ranges of an ACK frame. -/
def decodeAckRanges : ℕ → DecodeM (List AckRange)
  | 0 => pure []
  | n + 1 => do
    let gap ← dv
    let range ← dv
    let arr ← decodeAckRanges n
    pure (⟨gap, range⟩ :: arr)

def decodeEcnCount : DecodeM Ecn.Count := do
  let ect0 ← dv
  let ect1 ← dv
  let ce ← dv
  pure { ect0 := ect0, ect1 := ect1, ce := ce }

/-- The fields of an ACK frame before its ranges. A vector is then allocated for so many ranges. -/
def decodeAckHead : DecodeM (ℕ × ℕ × ℕ × ℕ) := do
  let la ← dv
  let ad ← dv
  let nr ← dv
  if ¬ nr < maxAckRangeCount then
    fail .tooMuchData
  let fa ← dv
  pure (la, ad, nr, fa)

def decodeAck (ecn : Bool) : DecodeM Decoded := do
  let (la, ad, nr, fa) ← decodeAckHead
  let arr ← decodeAckRanges nr
  -- Now check for the values for ACK_ECN.
  let ecnCount ← if ecn then some <$> decodeEcnCount else pure none
  pure (.ack la ad fa arr ecnCount)

def decodeRemainder : DecodeM Bytes := d fun dec => some dec.decodeRemainder

/-- `STREAM`, with or without a length or an offset. -/
def decodeStream (fin len off : Bool) : DecodeM Decoded := do
  let s ← dv
  let o ← if off then dv else pure 0
  let fill := !len
  let data ← if fill then decodeRemainder else d decodeVvec
  if (← add o data.length) > Encoder.maxVarint then
    fail .frameEncoding
  pure (.stream ⟨s⟩ o data fin fill)

/-- The content of a frame of the given type. -/
def decodeContent : FrameType → DecodeM Decoded
  | .padding => do
    -- The type itself and any additional padding.
    let n ← add 1 (← d fun dec => some (dec.skipWhile 0))
    if n ≥ 2 ^ 16 then
      fail .tooMuchData
    pure (.padding n)
  | .ping => pure .ping
  | .resetStream => do
    let streamId ← dv
    let applicationErrorCode ← dv
    let finalSize ← dv
    pure (.resetStream ⟨streamId⟩ applicationErrorCode finalSize)
  | .resetStreamAt => do
    let streamId ← dv
    let applicationErrorCode ← dv
    let finalSize ← dv
    let reliableSize ← dv
    if reliableSize > finalSize then
      fail .frameEncoding
    pure (.resetStreamAt ⟨streamId⟩ applicationErrorCode finalSize reliableSize)
  | .ack => decodeAck false
  | .ackEcn => decodeAck true
  | .stopSending => do
    let streamId ← dv
    let applicationErrorCode ← dv
    pure (.stopSending ⟨streamId⟩ applicationErrorCode)
  | .crypto => do
    let offset ← dv
    let data ← d decodeVvec
    if (← add offset data.length) > Encoder.maxVarint then
      fail .frameEncoding
    pure (.crypto offset data)
  | .newToken => do
    let token ← d decodeVvec
    if token.isEmpty then
      fail .frameEncoding
    pure (.newToken token)
  | .stream fin len off => decodeStream fin len off
  | .maxData => return .maxData (← dv)
  | .maxStreamData => do
    let streamId ← dv
    let maximumStreamData ← dv
    pure (.maxStreamData ⟨streamId⟩ maximumStreamData)
  | .maxStreams streamType => do
    let m ← dv
    if m > StreamId.maxStreamsLimit then
      fail .streamLimit
    pure (.maxStreams streamType m)
  | .dataBlocked => return .dataBlocked (← dv)
  | .streamDataBlocked => do
    let streamId ← dv
    let streamDataLimit ← dv
    pure (.streamDataBlocked ⟨streamId⟩ streamDataLimit)
  | .streamsBlocked streamType => do
    let m ← dv
    if m > StreamId.maxStreamsLimit then
      fail .streamLimit
    pure (.streamsBlocked streamType m)
  | .newConnectionId => do
    let sequenceNumber ← dv
    let retirePrior ← dv
    if retirePrior > sequenceNumber then
      fail .frameEncoding
    let connectionId ← d (decodeVec · 1)
    if connectionId.isEmpty ∨ connectionId.length > connectionIdMaxLen then
      fail .frameEncoding
    let statelessResetToken ← d (decode · statelessResetTokenLen)
    pure (.newConnectionId sequenceNumber retirePrior connectionId statelessResetToken)
  | .retireConnectionId => return .retireConnectionId (← dv)
  | .pathChallenge => return .pathChallenge (← d (decode · pathChallengeLen))
  | .pathResponse => return .pathResponse (← d (decode · pathChallengeLen))
  | .connectionCloseTransport => do
    let errorCode ← dv
    let frameType ← dv
    let reasonPhrase ← d decodeVvec
    pure (.connectionClose (.transport errorCode) frameType reasonPhrase)
  | .connectionCloseApplication => do
    let errorCode ← dv
    let reasonPhrase ← d decodeVvec
    pure (.connectionClose (.application errorCode) 0 reasonPhrase)
  | .handshakeDone => pure .handshakeDone
  | .ackFrequency => do
    let seqno ← dv
    let tolerance ← dv
    if tolerance = 0 then
      fail .frameEncoding
    let delay ← dv
    let ignoreOrder ← d (decodeN · 1)
    if ignoreOrder > 1 then
      fail .frameEncoding
    pure (.ackFrequency seqno tolerance delay (ignoreOrder = 1))
  | .datagram => return .datagram (← decodeRemainder) none
  | .datagramWithLen => do
    let lenStart := (← get).offset
    let data ← d decodeVvec
    let lenFieldLen ← sub (← sub (← get).offset lenStart) data.length
    pure (.datagram data (if lenFieldLen = 0 then none else some lenFieldLen))

/-- Decode the type of a frame. -/
def decodeType : DecodeM FrameType := do
  let pos := (← get).offset
  let t ← dv
  -- A frame type uses the shortest possible encoding.
  if (← checkedVarintLen t) ≠ (← sub (← get).offset pos) then
    fail .protocolViolation
  match FrameType.fromRepr t with
  | none => fail .unknownFrameType
  | some t => pure t

/-- Decode a frame. -/
def decode : DecodeM Decoded := do
  let t ← decodeType
  decodeContent t

/-! ### Ranges of acknowledged packets -/

/-- The ranges that follow the first one; `cur` is the largest number that the next gap can hold. -/
def decodeAckFrameFrom (cur : ℕ) : List AckRange → Except Error (List (ℕ × ℕ))
  | [] => .ok []
  | r :: ackRanges =>
    if cur < r.gap + 1 then .error .frameEncoding
    else
      let cur := cur - r.gap - 1
      if cur < r.range then .error .frameEncoding
      else
        let next := if cur > r.range + 1 then cur - (r.range + 1) else cur - r.range
        (decodeAckFrameFrom next ackRanges).map ((cur - r.range, cur) :: ·)

/-- Converts the ranges of an ACK frame into inclusive ranges `(start, end)` of acked packets. -/
def decodeAckFrame (largestAcked firstAckRange : ℕ) (ackRanges : List AckRange) :
    Except Error (List (ℕ × ℕ)) :=
  if largestAcked < firstAckRange then .error .frameEncoding
  else if !ackRanges.isEmpty ∧ largestAcked < firstAckRange + 1 then .error .frameEncoding
  else
    let cur := if ackRanges.isEmpty then 0 else largestAcked - firstAckRange - 1
    (decodeAckFrameFrom cur ackRanges).map ((largestAcked - firstAckRange, largestAcked) :: ·)

/-! ### The frames of a packet -/

namespace Decoded

def ackEliciting : Decoded → Bool
  | .ack .. | .padding _ | .connectionClose .. => false
  | _ => true

/-- If the frame can be sent in a path probe without initiating migration to that path. -/
def pathProbing : Decoded → Bool
  | .padding _ | .newConnectionId .. | .pathChallenge _ | .pathResponse _ => true
  | _ => false

end Decoded

/-- The loop of `process_packet`: every frame is decoded and handed to the connection. Returns the
connection, whether a frame was ack-eliciting and whether all were probing. There is no result if
`fuel` does not suffice. -/
def processFrames {C : Type} (inputFrame : C → Decoded → Except Failure C) :
    ℕ → C → Bool → Bool → Decoder → Option (Except Failure (C × Bool × Bool))
  | fuel, c, ackEliciting, probing, dec =>
    if dec.remaining > 0 then
      match fuel with
      | 0 => none
      | fuel + 1 =>
        match decode dec with
        | .error e => some (.error e)
        | .ok (f, dec) =>
          match inputFrame c f with
          | .error e => some (.error e)
          | .ok c =>
            processFrames inputFrame fuel c (ackEliciting || f.ackEliciting)
              (probing && f.pathProbing) dec
    else some (.ok (c, ackEliciting, probing))

end Frame

/-!
## Decoding what was encoded

`Reads m bytes a` says that decoding with `m` wherever `bytes` stand gives `a` and moves behind
them. Decoders that read are put together as they are run.
-/

namespace Frame

open Encoder

/-- Where `bytes` stand next, `m` gives `a` and moves behind them. -/
def Reads {α : Type} (m : DecodeM α) (bytes : Bytes) (a : α) : Prop :=
  ∀ (dec : Decoder) (rest : Bytes), dec.asRef = bytes ++ rest →
    m dec = .ok (a, dec.skip bytes.length)

variable {α β : Type} {m : DecodeM α} {bytes bytes' : Bytes} {a : α} {b : β}

lemma Reads.pure (a : α) : Reads (pure a) [] a := by
  intro dec rest _
  rfl

lemma Reads.bind {f : α → DecodeM β} (hm : Reads m bytes a) (hf : Reads (f a) bytes' b) :
    Reads (m >>= f) (bytes ++ bytes') b := by
  intro dec rest h
  rw [List.append_assoc] at h
  have hnext := hf (dec.skip bytes.length) rest (Decoder.asRef_skip h)
  show (m dec).bind (fun p => f p.1 p.2) = _
  rw [hm dec _ h]
  show f a (dec.skip bytes.length) = _
  rw [hnext, List.length_append]
  simp only [Decoder.skip, add_assoc]

lemma Reads.bind_pure {f : α → DecodeM β} (hm : Reads m bytes a) (hf : Reads (f a) [] b) :
    Reads (m >>= f) bytes b := by
  have h := hm.bind hf
  rwa [List.append_nil] at h

lemma Reads.map (f : α → β) (hm : Reads m bytes a) : Reads (f <$> m) bytes (f a) := by
  intro dec rest h
  show (m dec).bind (fun p => .ok (f p.1, p.2)) = _
  rw [hm dec rest h]
  rfl

lemma reads_dv {v : ℕ} (hv : v ≤ maxVarint) : Reads dv (encodeVarint v) v := by
  intro dec rest h
  have hlt : dec.offset < dec.buf.length := by
    have hlen := congrArg List.length h
    have hpos := varintLen_pos v
    rw [List.length_append, length_encodeVarint, Decoder.asRef, List.length_drop] at hlen
    omega
  rw [dv, d, if_neg (by omega), Decoder.decodeVarint_of_asRef hv h, length_encodeVarint]

lemma reads_decodeType (t : FrameType) : Reads decodeType (encodeVarint t.toNat) t := by
  have hlt : t.toNat ≤ maxVarint := by
    cases t with
    | stream fin len off => cases fin <;> cases len <;> cases off <;> decide
    | maxStreams streamType | streamsBlocked streamType => cases streamType <;> decide
    | _ => decide
  intro dec rest h
  have hchecked : checkedVarintLen t.toNat = pure (varintLen t.toNat) := if_pos hlt
  have hsub : sub (dec.skip (encodeVarint t.toNat).length).offset dec.offset =
      pure (varintLen t.toNat) := by
    rw [Decoder.skip, sub, if_pos (Nat.le_add_right _ _), Nat.add_sub_cancel_left,
      length_encodeVarint]
  have hget (f : Decoder → DecodeM FrameType) (dec : Decoder) : (get >>= f) dec = f dec dec := rfl
  unfold decodeType
  rw [hget]
  show (dv dec).bind _ = _
  rw [reads_dv hlt dec rest h]
  show (checkedVarintLen t.toNat >>= _) _ = _
  rw [hchecked, pure_bind, hget, hsub, pure_bind, if_neg (not_not.mpr rfl),
    FrameType.fromRepr_toNat]
  rfl

/-! ### `ACK` frames -/

/-- A range as it is encoded. -/
def AckRange.encode (r : AckRange) : Bytes :=
  encodeVarint r.gap ++ encodeVarint r.range

lemma reads_decodeAckRanges {ranges : List AckRange}
    (h : ∀ r ∈ ranges, r.gap ≤ maxVarint ∧ r.range ≤ maxVarint) :
    Reads (decodeAckRanges ranges.length) (ranges.flatMap AckRange.encode) ranges := by
  induction ranges with
  | nil => exact .pure []
  | cons r ranges ih =>
    obtain ⟨hgap, hrange⟩ := h r List.mem_cons_self
    have hrest := ih fun r' hr' => h r' (List.mem_cons_of_mem r hr')
    rw [List.flatMap_cons, AckRange.encode, List.append_assoc]
    exact (reads_dv hgap).bind ((reads_dv hrange).bind (hrest.bind_pure (.pure _)))

/-- The ECN counts of an `ACK_ECN` frame. -/
def encodeEcnCount (c : Ecn.Count) : Bytes :=
  encodeVarint c.ect0 ++ (encodeVarint c.ect1 ++ encodeVarint c.ce)

/-- The content of an ACK frame. -/
def encodeAck (la ad fa : ℕ) (ranges : List AckRange) (ecnCount : Option Ecn.Count) : Bytes :=
  encodeVarint la ++ (encodeVarint ad ++ (encodeVarint ranges.length ++
    (encodeVarint fa ++ (ranges.flatMap AckRange.encode ++
      ecnCount.elim [] encodeEcnCount))))

/-- The values of an ACK frame can be encoded. -/
structure AckFits (la ad fa : ℕ) (ranges : List AckRange) (ecnCount : Option Ecn.Count) : Prop where
  la : la ≤ maxVarint
  ad : ad ≤ maxVarint
  fa : fa ≤ maxVarint
  length : ranges.length < maxAckRangeCount
  ranges : ∀ r ∈ ranges, r.gap ≤ maxVarint ∧ r.range ≤ maxVarint
  ecnCount : ∀ c ∈ ecnCount,
    c.ect0 ≤ maxVarint ∧ c.ect1 ≤ maxVarint ∧ c.ce ≤ maxVarint

lemma reads_decodeAckHead {la ad fa : ℕ} {ranges : List AckRange} {ecnCount : Option Ecn.Count}
    (h : AckFits la ad fa ranges ecnCount) :
    Reads decodeAckHead (encodeVarint la ++ (encodeVarint ad ++
      (encodeVarint ranges.length ++ encodeVarint fa)))
      (la, ad, ranges.length, fa) := by
  have hcount : ranges.length ≤ maxVarint :=
    (le_of_lt h.length).trans (by decide)
  refine (reads_dv h.la).bind ((reads_dv h.ad).bind ((reads_dv hcount).bind ?_))
  simp only [h.length, not_true_eq_false, if_false]
  exact (reads_dv h.fa).bind_pure (.pure _)

lemma reads_decodeAck {la ad fa : ℕ} {ranges : List AckRange} {ecnCount : Option Ecn.Count}
    (h : AckFits la ad fa ranges ecnCount) :
    Reads (decodeAck ecnCount.isSome) (encodeAck la ad fa ranges ecnCount)
      (.ack la ad fa ranges ecnCount) := by
  have hbytes : encodeAck la ad fa ranges ecnCount =
      (encodeVarint la ++ (encodeVarint ad ++ (encodeVarint ranges.length ++
        encodeVarint fa))) ++ (ranges.flatMap AckRange.encode ++
          ecnCount.elim [] encodeEcnCount) := by
    simp only [encodeAck, List.append_assoc]
  rw [hbytes]
  refine (reads_decodeAckHead h).bind ((reads_decodeAckRanges h.ranges).bind ?_)
  cases ecnCount with
  | none => exact .pure _
  | some c =>
    obtain ⟨h0, h1, hce⟩ := h.ecnCount c rfl
    have hcount : Reads decodeEcnCount (encodeEcnCount c) c :=
      (reads_dv h0).bind ((reads_dv h1).bind ((reads_dv hce).bind_pure (.pure _)))
    exact (hcount.map some).bind_pure (.pure _)

end Frame

end Neqo
