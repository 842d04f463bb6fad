import Mathlib.Data.Nat.PSub
import Neqo.Frame.Decode
import Neqo.Util.Run

/-!
# Decoding frames is total

No bytes make `decode` panic: offsets stay in bounds and sums fit, as offsets of streams and lengths
of buffers are limited (`decodeContent_total`). A frame takes at least the byte of its type, so the
frames of a packet are processed in at most as many steps as it has bytes (`processFrames_total`).
-/

namespace Neqo.Frame

open Decoder

open Decoder (Ahead Within)

/-- The parts of a frame that are slices of the bytes it was decoded from. -/
def Decoded.slices : Decoded → List Bytes
  | .crypto _ data | .newToken data | .stream _ _ data _ _ | .pathChallenge data
  | .pathResponse data | .connectionClose _ _ data | .datagram data _ => [data]
  | .newConnectionId _ _ connectionId statelessResetToken => [connectionId, statelessResetToken]
  | _ => []

/-- The ranges of an ACK frame. -/
def Decoded.ackRanges : Decoded → List AckRange
  | .ack _ _ _ ackRanges _ => ackRanges
  | _ => []

/-- Decoding a frame has moved from `dec` to `dec'`. -/
structure Sound (dec : Decoder) (f : Decoded) (dec' : Decoder) : Prop where
  ahead : Ahead dec dec'
  slices : ∀ s ∈ f.slices, Within dec.buf dec.offset dec'.offset s
  ackRanges : f.ackRanges.length < maxAckRangeCount

/-- A failure that is not a panic. -/
abbrev NoPanic (f : Failure) : Prop := f ≠ .assertion

section Steps

variable {α β : Type} {dec₀ dec : Decoder} {post : β → Decoder → Prop}

lemma wp_d {v : Decoder → Option (α × Decoder)} {f : α → DecodeM β} (h : Ahead dec₀ dec)
    (hv : ∀ a dec', v dec = some (a, dec') → wp NoPanic (f a) post dec') :
    wp NoPanic (d v >>= f) post dec := by
  have hin := h.inBounds
  rw [wp_bind]
  unfold wp d
  rw [if_neg (by rw [h.buf]; omega)]
  cases hd : v dec with
  | none => exact nofun
  | some r => exact hv r.1 r.2 hd

lemma wp_dv {f : ℕ → DecodeM β} (h : Ahead dec₀ dec)
    (hv : ∀ v dec', Ahead dec₀ dec' → dec.offset < dec'.offset → v ≤ Encoder.maxVarint →
      wp NoPanic (f v) post dec') : wp NoPanic (dv >>= f) post dec :=
  wp_d h fun v dec' hd => by
    obtain ⟨h', hlt, hle⟩ := ahead_decodeVarint h hd
    exact hv v dec' h' hlt hle

lemma wp_add {a b : ℕ} {f : ℕ → DecodeM β} (hlt : a + b < 2 ^ 64)
    (h : wp NoPanic (f (a + b)) post dec) : wp NoPanic (add a b >>= f) post dec := by
  unfold add
  rwa [if_pos hlt]

lemma wp_sub {a b : ℕ} {f : ℕ → DecodeM β} (hle : b ≤ a)
    (h : wp NoPanic (f (a - b)) post dec) : wp NoPanic (sub a b >>= f) post dec := by
  unfold sub
  rwa [if_pos hle]

lemma wp_checkedVarintLen {v : ℕ} {f : ℕ → DecodeM β} (hle : v ≤ Encoder.maxVarint)
    (h : wp NoPanic (f (Encoder.varintLen v)) post dec) :
    wp NoPanic (checkedVarintLen v >>= f) post dec := by
  unfold checkedVarintLen
  rwa [if_pos hle]

lemma wp_check {p : Prop} [Decidable p] {e : Error} {f : α → DecodeM β} {m : DecodeM β}
    (h : ¬ p → wp NoPanic m post dec) :
    wp NoPanic (if p then fail e >>= f else m) post dec := by
  split_ifs with hp
  · exact nofun
  · exact h hp

end Steps

section Content

variable {dec dec' : Decoder} {f : Decoded}

lemma Sound.numbers (h : Ahead dec dec') (hs : f.slices = []) (hr : f.ackRanges = []) :
    Sound dec f dec' :=
  ⟨h, by simp [hs], by simp [hr, maxAckRangeCount]⟩

lemma Sound.slice {d₁ : Decoder} {s : Bytes} (h₁ : Ahead dec d₁)
    (h : Ahead dec dec' ∧ Within dec.buf d₁.offset dec'.offset s) (hs : f.slices = [s])
    (hr : f.ackRanges = []) : Sound dec f dec' :=
  ⟨h.1, by simpa [hs] using h.2.mono h₁.le le_rfl, by simp [hr, maxAckRangeCount]⟩

lemma add_lt {offset : ℕ} {s : Bytes} {lo : ℕ} (hlen : dec.buf.length < 2 ^ 63)
    (h : Ahead dec dec' ∧ Within dec.buf lo dec'.offset s) (ho : offset ≤ Encoder.maxVarint) :
    offset + s.length < 2 ^ 64 := by
  obtain ⟨h, i, -, hle, -⟩ := h
  have := h.inBounds
  have hmax : Encoder.maxVarint = 2 ^ 62 - 1 := rfl
  omega

lemma wp_decodeAckHead (h : Ahead dec dec') {β : Type} {f : ℕ × ℕ × ℕ × ℕ → DecodeM β}
    {post : β → Decoder → Prop}
    (hf : ∀ la ad nr fa d, Ahead dec d → nr < maxAckRangeCount →
      wp NoPanic (f (la, ad, nr, fa)) post d) : wp NoPanic (decodeAckHead >>= f) post dec' := by
  rw [wp_bind]
  refine wp_dv h fun la _ h _ _ => wp_dv h fun ad _ h _ _ => wp_dv h fun nr _ h _ _ => ?_
  refine wp_check fun hnr => wp_dv h fun fa _ h _ _ => ?_
  exact hf la ad nr fa _ h (Decidable.not_not.mp hnr)

lemma wp_decodeAckRanges (n : ℕ) (h : Ahead dec dec') {β : Type} {f : List AckRange → DecodeM β}
    {post : β → Decoder → Prop}
    (hf : ∀ arr d, Ahead dec d → arr.length = n → wp NoPanic (f arr) post d) :
    wp NoPanic (decodeAckRanges n >>= f) post dec' := by
  induction n generalizing dec' f with
  | zero => exact hf [] dec' h rfl
  | succ n ih =>
    simp only [decodeAckRanges, bind_assoc, pure_bind]
    refine wp_dv h fun gap _ h _ _ => wp_dv h fun range _ h _ _ => ih h fun arr d h hlen => ?_
    exact hf (⟨gap, range⟩ :: arr) d h (congrArg (· + 1) hlen)

lemma decodeAck_total (ecn : Bool) (h : Ahead dec dec') :
    wp NoPanic (decodeAck ecn) (Sound dec) dec' := by
  refine wp_decodeAckHead h fun la ad nr fa _ h hnr => wp_decodeAckRanges nr h
    fun arr _ h hlen => ?_
  have hsound : ∀ d ecnCount, Ahead dec d → Sound dec (.ack la ad fa arr ecnCount) d :=
    fun d _ h => ⟨h, nofun, hlen.trans_lt hnr⟩
  cases ecn with
  | false => exact hsound _ none h
  | true =>
    simp only [if_true, decodeEcnCount, map_bind, bind_assoc]
    exact wp_dv h fun _ _ h _ _ => wp_dv h fun _ _ h _ _ => wp_dv h fun _ d h _ _ => hsound d _ h

lemma decodeStream_total (fin len off : Bool) (h : Ahead dec dec')
    (hlen : dec.buf.length < 2 ^ 63) : wp NoPanic (decodeStream fin len off) (Sound dec) dec' := by
  have hrest : ∀ s o d₁, Ahead dec d₁ → o ≤ Encoder.maxVarint → ∀ data d₂,
      Ahead dec d₂ ∧ Within dec.buf d₁.offset d₂.offset data →
      wp NoPanic (do
        if (← add o data.length) > Encoder.maxVarint then
          fail .frameEncoding
        pure (.stream ⟨s⟩ o data fin !len)) (Sound dec) d₂ := by
    intro s o d₁ h₁ ho data d₂ h₂
    exact wp_add (add_lt hlen h₂ ho) (wp_check fun _ => .slice h₁ h₂ rfl rfl)
  have hdata : ∀ s o d₁, Ahead dec d₁ → o ≤ Encoder.maxVarint → wp NoPanic (do
      let data ← if !len then decodeRemainder else d decodeVvec
      if (← add o data.length) > Encoder.maxVarint then
        fail .frameEncoding
      pure (.stream ⟨s⟩ o data fin !len)) (Sound dec) d₁ := by
    intro s o d₁ h₁ ho
    cases len with
    | false =>
      exact wp_d h₁ fun data d₂ hd =>
        hrest s o d₁ h₁ ho data d₂ (ahead_decodeRemainder h₁ hd)
    | true =>
      exact wp_d h₁ fun data d₂ hd => hrest s o d₁ h₁ ho data d₂ (ahead_decodeVvec h₁ hd)
  refine wp_dv h fun s _ h _ _ => ?_
  cases off with
  | false => exact hdata s 0 _ h (Nat.zero_le _)
  | true => exact wp_dv h fun o d h _ ho => hdata s o d h ho

lemma decodeContent_total (t : FrameType) (h : Ahead dec dec') (hlen : dec.buf.length < 2 ^ 63) :
    wp NoPanic (decodeContent t) (Sound dec) dec' := by
  cases t with
  | padding =>
    refine wp_d h fun n d hd => ?_
    have h' := ahead_skipWhile h 0
    cases hd
    refine wp_add ?_ (wp_check fun _ => .numbers h' rfl rfl)
    have := h'.inBounds
    have : dec'.offset + (dec'.asRef.takeWhile (· == 0)).length ≤ dec.buf.length := this
    omega
  | ping | handshakeDone => exact .numbers h rfl rfl
  | resetStream =>
    exact wp_dv h fun _ _ h _ _ => wp_dv h fun _ _ h _ _ => wp_dv h fun _ _ h _ _ =>
      .numbers h rfl rfl
  | resetStreamAt =>
    exact wp_dv h fun _ _ h _ _ => wp_dv h fun _ _ h _ _ => wp_dv h fun _ _ h _ _ =>
      wp_dv h fun _ _ h _ _ => wp_check fun _ => .numbers h rfl rfl
  | ack => exact decodeAck_total false h
  | ackEcn => exact decodeAck_total true h
  | stopSending | maxStreamData | streamDataBlocked =>
    exact wp_dv h fun _ _ h _ _ => wp_dv h fun _ _ h _ _ => .numbers h rfl rfl
  | crypto =>
    refine wp_dv h fun offset _ h _ ho => wp_d h fun data _ hd => ?_
    have h' := ahead_decodeVvec h hd
    exact wp_add (add_lt hlen h' ho) (wp_check fun _ => .slice h h' rfl rfl)
  | newToken =>
    exact wp_d h fun _ _ hd => wp_check fun _ => .slice h (ahead_decodeVvec h hd) rfl rfl
  | stream fin len off => exact decodeStream_total fin len off h hlen
  | maxData | dataBlocked | retireConnectionId => exact wp_dv h fun _ _ h _ _ => .numbers h rfl rfl
  | maxStreams streamType | streamsBlocked streamType =>
    exact wp_dv h fun _ _ h _ _ => wp_check fun _ => .numbers h rfl rfl
  | newConnectionId =>
    refine wp_dv h fun _ _ h _ _ => wp_dv h fun _ _ h _ _ => wp_check fun _ =>
      wp_d h fun cid d₁ hd => ?_
    obtain ⟨h₁, hcid⟩ := ahead_decodeVec h hd
    refine wp_check fun _ => wp_d h₁ fun srt d₂ hd => ?_
    obtain ⟨h₂, hsrt⟩ := ahead_decode h₁ hd
    refine ⟨h₂, ?_, Nat.zero_lt_of_ne_zero (by decide)⟩
    have hle : d₁.offset ≤ d₂.offset := by
      obtain ⟨i, hlo, hhi, -⟩ := hsrt
      omega
    simpa [Decoded.slices] using ⟨hcid.mono h.le hle, hsrt.mono h₁.le le_rfl⟩
  | pathChallenge | pathResponse =>
    exact wp_d h fun _ _ hd => .slice h (ahead_decode h hd) rfl rfl
  | connectionCloseTransport =>
    exact wp_dv h fun _ _ h _ _ => wp_dv h fun _ _ h _ _ => wp_d h fun _ _ hd =>
      .slice h (ahead_decodeVvec h hd) rfl rfl
  | connectionCloseApplication =>
    exact wp_dv h fun _ _ h _ _ => wp_d h fun _ _ hd =>
      .slice h (ahead_decodeVvec h hd) rfl rfl
  | ackFrequency =>
    exact wp_dv h fun _ _ h _ _ => wp_dv h fun _ _ h _ _ => wp_check fun _ =>
        wp_dv h fun _ _ h _ _ =>
      wp_d h fun _ _ hd => wp_check fun _ => .numbers (ahead_decodeN h hd).1 rfl rfl
  | datagram => exact wp_d h fun _ _ hd => .slice h (ahead_decodeRemainder h hd) rfl rfl
  | datagramWithLen =>
    refine wp_bind.mpr (wp_get.mpr (wp_d h fun data d₁ hd => ?_))
    have h' := ahead_decodeVvec h hd
    obtain ⟨-, i, hlo, hhi, -⟩ := id h'
    refine wp_bind.mpr (wp_get.mpr (wp_sub (by omega) (wp_sub (by omega) ?_)))
    exact .slice h h' rfl rfl

lemma decodeType_total (h : dec.offset ≤ dec.buf.length) : wp NoPanic decodeType
    (fun _ dec' => Ahead dec dec' ∧ dec.offset < dec'.offset) dec := by
  refine wp_bind.mpr (wp_get.mpr (wp_dv ⟨rfl, le_rfl, h⟩ fun t d h hlt hle => ?_))
  refine wp_checkedVarintLen hle (wp_bind.mpr (wp_get.mpr (wp_sub hlt.le (wp_check fun _ => ?_))))
  cases FrameType.fromRepr t with
  | none => exact nofun
  | some => exact ⟨h, hlt⟩

/-- **A frame takes at least one byte**, and decoding it does not panic. -/
theorem decode_total (h : dec.offset ≤ dec.buf.length) (hlen : dec.buf.length < 2 ^ 63) :
    wp NoPanic decode (fun f dec' => Sound dec f dec' ∧ dec.offset < dec'.offset) dec := by
  refine wp_bind.mpr (wp_mono (decodeType_total h) fun t d ⟨h₁, hlt⟩ => ?_)
  have hd : Ahead d d := ⟨rfl, le_rfl, by rw [h₁.buf]; exact h₁.inBounds⟩
  refine wp_mono (decodeContent_total t hd (by rwa [h₁.buf])) fun f dec' hsound => ?_
  obtain ⟨⟨hbuf, hle, hin⟩, hslices, hranges⟩ := hsound
  rw [h₁.buf] at hbuf hin hslices
  exact ⟨⟨⟨hbuf, hlt.le.trans hle, hin⟩, fun s hs => (hslices s hs).mono hlt.le le_rfl, hranges⟩,
    hlt.trans_le hle⟩

end Content

/-- The frames of a packet are processed in as many steps as there are bytes, none of which panics
while decoding. -/
lemma processFrames_total {C : Type} (inputFrame : C → Decoded → Except Failure C) (fuel : ℕ)
    (c : C) (ackEliciting probing : Bool) {dec : Decoder} (h : dec.offset ≤ dec.buf.length)
    (hlen : dec.buf.length < 2 ^ 63) (hfuel : dec.remaining ≤ fuel) :
    ∃ r, processFrames inputFrame fuel c ackEliciting probing dec = some r ∧
      ((∀ c f, inputFrame c f ≠ .error .assertion) → r ≠ .error .assertion) := by
  induction fuel generalizing c ackEliciting probing dec with
  | zero =>
    rw [processFrames, if_neg (by omega)]
    exact ⟨_, rfl, fun _ => nofun⟩
  | succ fuel ih =>
    rw [processFrames]
    split_ifs with hrest
    · have htotal := decode_total h hlen
      unfold wp at htotal
      rcases hd : decode dec with e | ⟨f, dec'⟩
      · rw [hd] at htotal
        exact ⟨_, rfl, fun _ heq => htotal (Except.error.inj heq)⟩
      rw [hd] at htotal
      obtain ⟨⟨⟨hbuf, -, hin⟩, -, -⟩, hlt⟩ := htotal
      dsimp only
      rcases hc : inputFrame c f with e | c'
      · exact ⟨_, rfl, fun hinput heq => hinput c f (hc.trans (congrArg _ (Except.error.inj heq)))⟩
      · unfold remaining at hfuel
        refine ih c' _ _ (by rw [hbuf]; exact hin) (by rwa [hbuf]) ?_
        rw [remaining, hbuf]
        omega
    · exact ⟨_, rfl, fun _ => nofun⟩

/-- **Decoding frames is total and progresses.**  Whatever the bytes are, a frame is decoded or an
error is returned; there is no panic. A frame takes at least one byte and none beyond the end, its
slices are among the bytes it takes, and it never has more ranges than the limit; nor is space for
more ranges allocated if the frame is cut short. Runs of padding are skipped in chunks, which is in
bounds whatever the alignment. So the frames of a packet are processed in at most as many steps as
it has bytes, without a panic unless the connection panics. Lengths of slices are below 2^63. -/
theorem decode_progresses (buf : Bytes) (hlen : buf.length < 2 ^ 63) :
    (∀ offset ≤ buf.length,
      ((∃ e, decode ⟨buf, offset⟩ = .error (.error e)) ∨
        ∃ f offset', decode ⟨buf, offset⟩ = .ok (f, ⟨buf, offset'⟩) ∧
          offset < offset' ∧ offset' ≤ buf.length ∧
          (∀ s ∈ f.slices, s <:+: (buf.drop offset).take (offset' - offset)) ∧
          f.ackRanges.length < maxAckRangeCount) ∧
      (∀ la ad nr fa dec', decodeAckHead ⟨buf, offset⟩ = .ok ((la, ad, nr, fa), dec') →
        nr < maxAckRangeCount) ∧
      ∀ alignOffset, (mk buf offset).skipWhileChunked alignOffset 0 =
        some ((mk buf offset).skipWhile 0)) ∧
    ∀ (C : Type) (inputFrame : C → Decoded → Except Failure C) (c : C),
      ∃ r, processFrames inputFrame buf.length c false true (.new buf) = some r ∧
        ((∀ c f, inputFrame c f ≠ .error .assertion) → r ≠ .error .assertion) := by
  refine ⟨fun offset hoff => ⟨?_, fun la ad nr fa dec' hhead => ?_, fun alignOffset => ?_⟩,
    fun C inputFrame c => ?_⟩
  · have htotal : wp NoPanic decode _ ⟨buf, offset⟩ := decode_total hoff hlen
    unfold wp at htotal
    rcases hd : decode ⟨buf, offset⟩ with (_ | e) | ⟨f, buf', offset'⟩
    · rw [hd] at htotal
      exact absurd rfl htotal
    · exact .inl ⟨e, rfl⟩
    · rw [hd] at htotal
      obtain ⟨⟨⟨rfl, -, hin⟩, hslices, hranges⟩, hlt⟩ := htotal
      exact .inr ⟨f, offset', rfl, hlt, hin, fun s hs => (hslices s hs).isInfix, hranges⟩
  · have hwp : wp NoPanic (decodeAckHead >>= pure) (fun r _ => r.2.2.1 < maxAckRangeCount)
        ⟨buf, offset⟩ :=
      wp_decodeAckHead ⟨rfl, le_rfl, hoff⟩ fun _ _ _ _ _ _ hnr => hnr
    rw [bind_pure] at hwp
    unfold wp at hwp
    rwa [hhead] at hwp
  · exact skipWhileChunked_eq _ _ _
  · exact processFrames_total inputFrame buf.length c false true (Nat.zero_le _) hlen
      (Nat.sub_le _ _)

/-- Padding, a PING and a STREAM frame with a length that takes less than what there is. -/
theorem decode_progresses_three :
    processFrames (fun n _ => .ok (n + 1)) 6 0 false true (.new [0, 0, 1, 0x0a, 4, 0]) =
      some (.ok (3, true, false)) ∧
    ∃ r, processFrames (fun n _ => .ok (n + 1)) 6 0 false true (.new [0, 0, 1, 0x0a, 4, 0]) =
      some r := by
  obtain ⟨r, hr, -⟩ := (decode_progresses [0, 0, 1, 0x0a, 4, 0] (by decide)).2 ℕ
    (fun n _ => .ok (n + 1)) 0
  exact ⟨by decide, r, hr⟩

/-!
## The ranges of an ACK frame

RFC 9000 computes the ranges of an ACK frame by subtraction; the frame is invalid if a packet number
goes negative. `decodeAckFrame` keeps the largest number that the next gap can hold, one less than
the start of the last range, unless a range other than the first starts at 0 or 1. Then it is not
reduced (`decodeAckFrameFrom_low`), which only matters for a range that starts at 1 and has packet 0
right below it as the last range.
-/

/-- The ranges after one that starts at `smallest`, as RFC 9000 computes them, or none if a packet
number is negative. -/
def rfcRangesFrom (smallest : ℕ) : List AckRange → Option (List (ℕ × ℕ))
  | [] => some []
  | r :: ackRanges => do
    let largest ← smallest.psub (r.gap + 2)
    let smallest ← largest.psub r.range
    let ranges ← rfcRangesFrom smallest ackRanges
    some ((smallest, largest) :: ranges)

/-- The ranges of an ACK frame as RFC 9000 computes them, `(smallest, largest)`. -/
def rfcRanges (largestAcked firstAckRange : ℕ) (ackRanges : List AckRange) :
    Option (List (ℕ × ℕ)) := do
  let smallest ← largestAcked.psub firstAckRange
  let ranges ← rfcRangesFrom smallest ackRanges
  some ((smallest, largestAcked) :: ranges)

/-- A range starts at 1, and the last range is packet 0 right below it. `smallest` is where the
last range starts. -/
def AdjoinsZero (smallest : ℕ) : List AckRange → Prop
  | [] => False
  | r :: ackRanges => (smallest = 1 ∧ r = ⟨0, 0⟩ ∧ ackRanges = []) ∨
      AdjoinsZero (smallest - (r.gap + 2) - r.range) ackRanges

/-- The same for a range after the one that starts at `smallest`. -/
def LaterAdjoinsZero (smallest : ℕ) : List AckRange → Prop
  | [] => False
  | r :: ackRanges => AdjoinsZero (smallest - (r.gap + 2) - r.range) ackRanges

lemma not_adjoinsZero_zero (rs : List AckRange) : ¬ AdjoinsZero 0 rs := by
  induction rs with
  | nil => exact id
  | cons r rs ih => simpa [AdjoinsZero] using ih

lemma adjoinsZero_iff {s : ℕ} (hs : 2 ≤ s) (rs : List AckRange) :
    AdjoinsZero s rs ↔ LaterAdjoinsZero s rs := by
  cases rs with
  | nil => exact Iff.rfl
  | cons r rs => exact or_iff_right fun h => absurd h.1 (by omega)

/-- Ranges are computed downwards, and leave out at least one packet number in between. -/
lemma rfcRangesFrom_below {s : ℕ} {rs : List AckRange} {x : List (ℕ × ℕ)}
    (h : rfcRangesFrom s rs = some x) :
    (∀ b ∈ x, b.2 + 1 < s) ∧ x.Pairwise fun a b => b.2 + 1 < a.1 := by
  induction rs generalizing s x with
  | nil =>
    cases h
    exact ⟨nofun, .nil⟩
  | cons r rs ih =>
    simp only [rfcRangesFrom, Option.bind_eq_bind, Option.bind_eq_some_iff, Nat.psub_eq_some] at h
    obtain ⟨largest, rfl, smallest, rfl, x, hx, heq⟩ := h
    cases heq
    obtain ⟨hbelow, hpair⟩ := ih hx
    refine ⟨List.forall_mem_cons.mpr ⟨?_, fun b hb => ?_⟩, .cons hbelow hpair⟩
    · dsimp only
      omega
    · have hb' := hbelow b hb
      omega

lemma toOption_map_cons {m : Except Error (List (ℕ × ℕ))} {ranges : Option (List (ℕ × ℕ))}
    (b : ℕ × ℕ) : (m.map (b :: ·)).toOption = ranges.bind (fun ranges => some (b :: ranges)) ↔
      m.toOption = ranges := by
  cases m <;> cases ranges <;> simp [Except.map, Except.toOption]

lemma rfcRangesFrom_eq_none {s : ℕ} {r : AckRange} (rs : List AckRange)
    (h : s < r.gap + 2 + r.range) : rfcRangesFrom s (r :: rs) = none := by
  rw [rfcRangesFrom]
  by_cases hgap : s < r.gap + 2
  · rw [Nat.psub_eq_none.mpr hgap, Option.bind_eq_bind, Option.bind_none]
  · rw [Nat.psub_eq_sub (not_lt.mp hgap), Option.bind_eq_bind, Option.bind_some,
      Nat.psub_eq_none.mpr (by omega), Option.bind_eq_bind, Option.bind_none]

lemma decodeAckFrameFrom_eq_error {cur : ℕ} {r : AckRange} (rs : List AckRange)
    (h : cur < r.gap + 1 + r.range) :
    decodeAckFrameFrom cur (r :: rs) = .error .frameEncoding := by
  rw [decodeAckFrameFrom]
  dsimp only
  split_ifs <;> first | rfl | omega

/-- Below a range that starts at 0 or 1 there is no room for a gap, but packet 0 is accepted as the
last range. -/
lemma decodeAckFrameFrom_low {s : ℕ} (hs : s ≤ 1) (rs : List AckRange) :
    (decodeAckFrameFrom s rs).toOption = rfcRangesFrom s rs ↔ ¬ AdjoinsZero s rs := by
  cases rs with
  | nil => exact ⟨fun _ => id, fun _ => rfl⟩
  | cons r rs =>
    obtain ⟨gap, range⟩ := r
    have hrest : s - (gap + 2) - range = 0 := by omega
    rw [rfcRangesFrom_eq_none rs (by dsimp only; omega), AdjoinsZero, hrest,
      or_iff_left (not_adjoinsZero_zero rs)]
    by_cases hzero : s = 1 ∧ gap = 0 ∧ range = 0
    · obtain ⟨rfl, rfl, rfl⟩ := hzero
      cases rs with
      | nil => exact ⟨nofun, fun h => absurd ⟨rfl, rfl, rfl⟩ h⟩
      | cons => exact ⟨fun _ => nofun, fun _ => rfl⟩
    · rw [decodeAckFrameFrom_eq_error rs (by dsimp only; omega)]
      refine ⟨fun _ h => hzero ?_, fun _ => rfl⟩
      obtain ⟨hs, hr, -⟩ := h
      cases hr
      exact ⟨hs, rfl, rfl⟩

lemma decodeAckFrameFrom_toOption {cur : ℕ} {rs : List AckRange} :
    (decodeAckFrameFrom cur rs).toOption = rfcRangesFrom (cur + 1) rs ↔
      ¬ LaterAdjoinsZero (cur + 1) rs := by
  induction rs generalizing cur with
  | nil => exact ⟨fun _ => id, fun _ => rfl⟩
  | cons r rs ih =>
    obtain ⟨gap, range⟩ := r
    have hlargest : cur + 1 - (gap + 2) = cur - gap - 1 := by omega
    rw [LaterAdjoinsZero, hlargest]
    by_cases hfit : gap + 1 + range ≤ cur
    · rw [decodeAckFrameFrom, rfcRangesFrom]
      dsimp only
      rw [if_neg (by omega), if_neg (by omega), Nat.psub_eq_sub (by omega), hlargest,
        Option.bind_eq_bind, Option.bind_some, Nat.psub_eq_sub (by omega)]
      refine (toOption_map_cons _).trans ?_
      split_ifs with hlow
      · -- The next range starts at 2 or more, so that the computations stay in step.
        have hnext : cur - gap - 1 - range = cur - gap - 1 - (range + 1) + 1 := by omega
        rw [hnext, adjoinsZero_iff (by omega)]
        exact ih
      · exact decodeAckFrameFrom_low (by omega) rs
    · rw [decodeAckFrameFrom_eq_error rs (by dsimp only; omega),
        rfcRangesFrom_eq_none rs (by dsimp only; omega)]
      have hrest : cur - gap - 1 - range = 0 := by omega
      rw [hrest]
      exact ⟨fun _ => not_adjoinsZero_zero rs, fun _ => rfl⟩

/-- **Decoding accepts the valid encodings.**  Ranges are returned if no packet number in the
computation of RFC 9000 is negative, and only then, exactly unless a range after the first starts at
1 and the last range is packet 0 right below it. They are the ranges of that computation,
descending and never adjacent. -/
theorem decodeAckFrame_eq_rfcRanges_iff (largestAcked firstAckRange : ℕ)
    (ackRanges : List AckRange) :
    ((decodeAckFrame largestAcked firstAckRange ackRanges).toOption =
        rfcRanges largestAcked firstAckRange ackRanges ↔
      ¬ LaterAdjoinsZero (largestAcked - firstAckRange) ackRanges) ∧
    ∀ ranges, rfcRanges largestAcked firstAckRange ackRanges = some ranges →
      ranges.Pairwise fun a b => b.2 + 1 < a.1 := by
  constructor
  · unfold decodeAckFrame rfcRanges
    by_cases hfirst : largestAcked < firstAckRange
    · rw [if_pos hfirst, Nat.psub_eq_none.mpr hfirst, Nat.sub_eq_zero_of_le hfirst.le]
      refine ⟨fun _ => ?_, fun _ => rfl⟩
      cases ackRanges with
      | nil => exact id
      | cons r rs => simpa [LaterAdjoinsZero] using not_adjoinsZero_zero rs
    rw [if_neg hfirst, Nat.psub_eq_sub (not_lt.mp hfirst), Option.bind_eq_bind, Option.bind_some]
    cases ackRanges with
    | nil => exact ⟨fun _ => id, fun _ => rfl⟩
    | cons r rs =>
      cases hsmallest : largestAcked - firstAckRange with
      | zero =>
        -- The first range starts at 0, and there is another one.
        rw [if_pos ⟨rfl, by omega⟩, rfcRangesFrom_eq_none rs (by omega)]
        refine ⟨fun _ => ?_, fun _ => rfl⟩
        simpa [LaterAdjoinsZero] using not_adjoinsZero_zero rs
      | succ cur =>
        rw [if_neg (by omega)]
        exact (toOption_map_cons _).trans decodeAckFrameFrom_toOption
  · intro ranges hranges
    simp only [rfcRanges, Option.bind_eq_bind, Option.bind_eq_some_iff] at hranges
    obtain ⟨smallest, -, rest, hrest, heq⟩ := hranges
    cases heq
    obtain ⟨hbelow, hpair⟩ := rfcRangesFrom_below hrest
    exact .cons hbelow hpair

/-- Packets 7, 3 and 4, 0 and 1. -/
theorem decodeAckFrame_eq_rfcRanges_of_three :
    (decodeAckFrame 7 0 [⟨1, 1⟩, ⟨0, 1⟩]).toOption = some [(7, 7), (3, 4), (0, 1)] :=
  (decodeAckFrame_eq_rfcRanges_iff 7 0 [⟨1, 1⟩, ⟨0, 1⟩]).1.mpr
    (by simp [LaterAdjoinsZero, AdjoinsZero])

/-- After a range that starts at 1, a gap of 0 is followed by packet -1, which is taken for 0. -/
theorem decodeAckFrame_accepts_negative :
    decodeAckFrame 5 0 [⟨0, 2⟩, ⟨0, 0⟩] = .ok [(5, 5), (1, 3), (0, 0)] ∧
      rfcRanges 5 0 [⟨0, 2⟩, ⟨0, 0⟩] = none := ⟨rfl, rfl⟩

end Neqo.Frame
