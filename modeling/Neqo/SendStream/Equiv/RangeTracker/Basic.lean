import Neqo.SendStream.TxBuffer
import Neqo.Util.IntervalMap

/-!
# The meaning of a `RangeTracker`

A tracker denotes a map from offsets to byte states (`stateAt`): everything below `acked` is
acknowledged, the entries of `used` say what they say, and every other byte is unsent. The
well-formedness invariant `WF` asks for tidy entries that are not part of the acknowledged prefix,
and for a correct cache.
-/

namespace Neqo

namespace RangeTracker

open OrdMap

/-- What is known about one byte of the stream. -/
inductive ByteState where
  | unsent
  | sent
  | acked
  deriving DecidableEq, Repr

/-- The state of the bytes of a range. -/
def ofRangeState : RangeState → ByteState
  | .sent => .sent
  | .acked => .acked

/-- The state of the byte at offset `x`. -/
def stateAt (t : RangeTracker) (x : ℕ) : ByteState :=
  if x < t.acked then .acked
  else
    match t.used.entries.find? (fun e => e.1 ≤ x ∧ x < e.1 + e.2.1) with
    | some e => ofRangeState e.2.2
    | none => .unsent

/-- The cached answer, when there is one, is what the scan would find. -/
def CacheOk (t : RangeTracker) : Prop :=
  ∀ r, t.firstUnmarked = some r → r = scanUnmarked t.acked t.used.entries

/-- **Well-formedness** of a tracker: its entries are tidy and lie at or above the acknowledged
prefix, which does not go on with an acked entry, and the cache is valid. -/
structure WF (t : RangeTracker) : Prop where
  tidy : t.used.Tidy
  ge : ∀ k v, t.used.Mem k v → t.acked ≤ k
  acked : ∀ n, ¬ t.used.Mem t.acked (n, .acked)
  cache : t.CacheOk

variable {t : RangeTracker} {x : ℕ}

lemma stateAt_of_lt (hx : x < t.acked) : t.stateAt x = .acked := by simp only [stateAt, if_pos hx]

lemma stateAt_of_at (h : t.used.Tidy) (hx : t.acked ≤ x) {s : RangeState} (hs : t.used.At x s) :
    t.stateAt x = ofRangeState s := by
  obtain ⟨k, n, hm, hk, hn⟩ := hs
  have hsome : (t.used.entries.find? (fun e => e.1 ≤ x ∧ x < e.1 + e.2.1)).isSome := by
    rw [List.find?_isSome]
    exact ⟨(k, (n, s)), hm, by simpa using ⟨hk, hn⟩⟩
  obtain ⟨e, he⟩ := Option.isSome_iff_exists.mp hsome
  have hcov : e.1 ≤ x ∧ x < e.1 + e.2.1 := by simpa using List.find?_some he
  have hat : t.used.At x e.2.2 := ⟨e.1, e.2.1, List.mem_of_find?_eq_some he, hcov⟩
  rw [stateAt, if_neg (not_lt.mpr hx), he, h.at_unique ⟨k, n, hm, hk, hn⟩ hat]

lemma stateAt_of_not_at (hx : t.acked ≤ x) (hs : ∀ s, ¬ t.used.At x s) : t.stateAt x = .unsent := by
  rw [stateAt, if_neg (not_lt.mpr hx)]
  cases hf : t.used.entries.find? (fun e => e.1 ≤ x ∧ x < e.1 + e.2.1) with
  | none => rfl
  | some e =>
    have hcov : e.1 ≤ x ∧ x < e.1 + e.2.1 := by simpa using List.find?_some hf
    exact absurd ⟨e.1, e.2.1, List.mem_of_find?_eq_some hf, hcov⟩ (hs e.2.2)

lemma WF.le_of_at (h : t.WF) {s : RangeState} (hs : t.used.At x s) : t.acked ≤ x := by
  obtain ⟨k, n, hm, hk, -⟩ := hs
  exact (h.ge k _ hm).trans hk

/-- A tracker stays well-formed when its entries are replaced by tidy ones that give no byte of the
prefix a state and acknowledge nothing new right after it. -/
lemma WF.of_used (h : t.WF) {r : RangeMap} (hr : r.Tidy)
    (hge : ∀ x s, r.At x s → t.acked ≤ x) (hacked : r.At t.acked .acked →
    t.used.At t.acked .acked) :
    WF { t with firstUnmarked := none, used := r } := by
  have hat {k n : ℕ} {s : RangeState} (hk : r.Mem k (n, s)) : r.At k s :=
    ⟨k, n, hk, le_rfl, Nat.lt_add_of_pos_right (hr.pos hk)⟩
  refine ⟨hr, fun k v hk => hge k v.2 (hat hk), fun n hn => ?_, fun r hr => nomatch hr⟩
  obtain ⟨k, l, hk, hle, -⟩ := hacked (hat hn)
  obtain rfl : k = t.acked := le_antisymm hle (h.ge k _ hk)
  exact h.acked l hk

lemma WF.stateAt_eq (h : t.WF) {b : ByteState}
    (hacked : b = .acked ↔ x < t.acked ∨ t.used.At x .acked)
    (hsent : b = .sent ↔ t.used.At x .sent) :
    t.stateAt x = b := by
  by_cases hx : x < t.acked
  · rw [stateAt_of_lt hx, hacked.mpr (.inl hx)]
  · rw [not_lt] at hx
    cases b with
    | unsent =>
      refine stateAt_of_not_at hx fun s hs => ?_
      cases s with
      | sent => exact nomatch hsent.mpr hs
      | acked => exact nomatch hacked.mpr (.inr hs)
    | sent => exact stateAt_of_at h.tidy hx (hsent.mp rfl)
    | acked => exact stateAt_of_at h.tidy hx ((hacked.mp rfl).resolve_left (not_lt.mpr hx))

lemma WF.stateAt_eq_acked (h : t.WF) : t.stateAt x = .acked ↔ x < t.acked ∨ t.used.At x .acked := by
  refine ⟨fun hst => ?_, fun hs => ?_⟩
  · by_contra hno
    rw [not_or, not_lt] at hno
    by_cases hs : t.used.At x .sent
    · exact nomatch (stateAt_of_at h.tidy hno.1 hs).symm.trans hst
    · exact nomatch (stateAt_of_not_at hno.1 (by rintro (_ | _) <;> simp [hs, hno.2])).symm.trans
        hst
  · rcases hs with hx | hs
    · exact stateAt_of_lt hx
    · exact stateAt_of_at h.tidy (h.le_of_at hs) hs

lemma WF.stateAt_eq_sent (h : t.WF) : t.stateAt x = .sent ↔ t.used.At x .sent := by
  refine ⟨fun hst => ?_, fun hs => stateAt_of_at h.tidy (h.le_of_at hs) hs⟩
  by_contra hno
  by_cases hs : x < t.acked ∨ t.used.At x .acked
  · exact nomatch (h.stateAt_eq_acked.mpr hs).symm.trans hst
  · rw [not_or, not_lt] at hs
    exact nomatch (stateAt_of_not_at hs.1 (by rintro (_ | _) <;> simp [hs.2, hno])).symm.trans hst

lemma WF.stateAt_ne_unsent (h : t.WF) :
    t.stateAt x ≠ .unsent ↔ x < t.acked ∨ ∃ s, t.used.At x s := by
  cases hst : t.stateAt x with
  | unsent =>
    refine ⟨fun hne => absurd rfl hne, fun hs _ => ?_⟩
    rcases hs with hx | ⟨s, hs⟩
    · exact nomatch (stateAt_of_lt hx).symm.trans hst
    · have := (stateAt_of_at h.tidy (h.le_of_at hs) hs).symm.trans hst
      cases s <;> cases this
  | sent => exact ⟨fun _ => .inr ⟨_, h.stateAt_eq_sent.mp hst⟩, fun _ => nofun⟩
  | acked => exact ⟨fun _ => (h.stateAt_eq_acked.mp hst).imp_right fun hs => ⟨_, hs⟩,
      fun _ => nofun⟩

/-!
## Correctness of `RangeTracker.unmarkRange`

The loop walks backwards through the entries below the end of the range and stops at the first one
that starts before the range. `Cutting` says what it has collected from the entries that it has
left behind; when it stops, that and the head that it has cut (`Unmarked`) amount to taking the sent
bytes out of the range (`Unmarked.cutOf`).
-/

open List OrdMap

/-- **Loop invariant** of `unmarkLoop`, with `l` left to visit: what has been collected to be
removed and to be added. -/
structure Cutting (U : RangeMap) (off endOff : ℕ) (l : List (ℕ × (ℕ × RangeState)))
    (acc : UnmarkAcc) : Prop where
  toRemove : ∀ k, k ∈ acc.toRemove ↔
    ∃ n, U.Mem k (n, .sent) ∧ (k, (n, RangeState.sent)) ∉ l ∧ off ≤ k ∧ k < endOff
  toAdd : ∀ e, acc.toAdd = some e ↔ ∃ k n, U.Mem k (n, .sent) ∧ (k, (n, RangeState.sent)) ∉ l ∧
    k < endOff ∧ endOff < k + n ∧ e = (endOff, k + n - endOff, .sent)

/-- What the loop returns: the head of an entry that starts before the range has been cut. -/
structure Unmarked (U : RangeMap) (off endOff : ℕ) (acc : UnmarkAcc) : Prop where
  cutting : Cutting U off endOff [] acc
  used : ∀ k m s, acc.used.Mem k (m, s) ↔ ∃ n, U.Mem k (n, s) ∧
    ((s = .sent ∧ k < off ∧ k + m = min (k + n) off) ∨ (¬ (s = .sent ∧ k < off) ∧ m = n))
  unmarked : acc.unmarked = true ↔ ∃ k n, U.Mem k (n, .sent) ∧ k < off ∧ off < k + n

variable {U : RangeMap} {off endOff c n : ℕ} {acc : UnmarkAcc}
  {l : List (ℕ × (ℕ × RangeState))}

/-- The effect of visiting one sent entry. -/
def visitSent (off endOff curOff curLen : ℕ) (acc : UnmarkAcc) : UnmarkAcc where
  used := if curOff < off then acc.used.insert curOff (off - curOff, .sent) else acc.used
  toRemove := if curOff < off then acc.toRemove else acc.toRemove ++ [curOff]
  toAdd := if curOff + curLen > endOff then some (endOff, curOff + curLen - endOff, .sent)
    else acc.toAdd
  unmarked := decide (curOff < off) || acc.unmarked

lemma unmarkLoop_sent (h : off < c + n ∨ off ≤ c) :
    unmarkLoop off endOff ((c, (n, .sent)) :: l) acc =
      if c < off then visitSent off endOff c n acc
      else unmarkLoop off endOff l (visitSent off endOff c n acc) := by
  have h1 : ¬ (decide (c < off) = true ∧ c + n ≤ off) := by
    rw [decide_eq_true_iff]
    omega
  rw [unmarkLoop, if_neg h1]
  by_cases hhead : c < off <;> by_cases hover : c + n > endOff <;> simp [visitSent, hhead, hover]

lemma unmarkLoop_acked : unmarkLoop off endOff ((c, (n, .acked)) :: l) acc =
    if c < off then acc else unmarkLoop off endOff l acc := by
  rw [unmarkLoop]
  by_cases h : c < off <;> simp [h]

lemma Cutting.of_acked (h : Cutting U off endOff ((c, (n, .acked)) :: l) acc) :
    Cutting U off endOff l acc :=
  ⟨fun k => by simpa using h.toRemove k, fun e => by simpa using h.toAdd e⟩

/-- Visiting a sent entry. Only the first one that is visited can reach beyond the range. -/
lemma Cutting.visit (hU : U.Tidy) (h : Cutting U off endOff ((c, (n, .sent)) :: l) acc)
    (hc : U.Mem c (n, .sent)) (hlt : c < endOff) (hl : ∀ e ∈ l, e.1 < c) :
    Cutting U off endOff l (visitSent off endOff c n acc) := by
  have hnot : (c, (n, RangeState.sent)) ∉ l := fun hin => lt_irrefl c (hl _ hin)
  refine ⟨fun k => ?_, fun e => ?_⟩
  · have hk := h.toRemove k
    dsimp only [visitSent]
    by_cases hkc : k = c
    · subst hkc
      have hn (n' : ℕ) (hm : U.Mem k (n', .sent)) : n' = n := (Prod.mk.inj (hm.unique hc)).1
      have hno : k ∉ acc.toRemove := by
        rw [hk]
        rintro ⟨n', hm, hin, -⟩
        exact hin (hn n' hm ▸ mem_cons_self ..)
      split_ifs with hlt'
      · simp only [hno, false_iff]
        rintro ⟨n', -, -, hle, -⟩
        omega
      · simp only [mem_append, mem_singleton, or_true, true_iff]
        exact ⟨n, hc, hnot, by omega, hlt⟩
    · split_ifs <;> simp [hk, hkc]
  · dsimp only [visitSent]
    split_ifs with hover
    · constructor
      · intro he
        exact ⟨c, n, hc, hnot, hlt, hover, (Option.some.inj he).symm⟩
      · rintro ⟨k, n', hm, -, h1, h2, rfl⟩
        have := hU.cases hm hc
        obtain ⟨rfl, rfl⟩ : k = c ∧ n' = n := by omega
        rfl
    · refine (h.toAdd e).trans (exists_congr fun k => exists_congr fun n' =>
          and_congr_right fun _ =>
        and_congr_left fun ⟨_, hk, _⟩ => ?_)
      rw [mem_cons, not_or, Prod.mk.injEq, Prod.mk.injEq]
      exact and_iff_right fun heq => by omega

/-- The loop may stop when what is left ends before the range. -/
lemma Cutting.stop (h : Cutting U off endOff l acc)
    (hl : ∀ k n, (k, (n, RangeState.sent)) ∈ l → k < off ∧ k + n ≤ endOff) :
    Cutting U off endOff [] acc := by
  refine ⟨fun k => (h.toRemove k).trans ?_, fun e => (h.toAdd e).trans ?_⟩
  · refine exists_congr fun n => and_congr_right fun _ => and_congr_left fun hk => ?_
    simp only [not_mem_nil, not_false_eq_true, iff_true]
    intro hin
    have := hl k n hin
    omega
  · refine exists_congr fun k => exists_congr fun n => and_congr_right fun _ =>
      and_congr_left fun hk => ?_
    simp only [not_mem_nil, not_false_eq_true, iff_true]
    intro hin
    have := hl k n hin
    omega

lemma Unmarked.of_stop (h : Cutting U off endOff l acc) (hlt : off < endOff) (hused : acc.used = U)
    (hun : acc.unmarked = false) (hl : ∀ e ∈ l, U.Mem e.1 e.2 ∧ e.1 < off)
    (hend : ∀ k n, U.Mem k (n, .sent) → k < off → k + n ≤ off) : Unmarked U off endOff acc := by
  refine ⟨h.stop fun k n hk => ?_, fun k m s => ?_, ?_⟩
  · obtain ⟨hm, hk'⟩ := hl _ hk
    exact ⟨hk', (hend k n hm hk').trans hlt.le⟩
  · rw [hused]
    constructor
    · intro hk
      refine ⟨m, hk, ?_⟩
      by_cases hs : s = .sent ∧ k < off
      · obtain ⟨rfl, hk'⟩ := hs
        exact .inl ⟨rfl, hk', (min_eq_left (hend k m hk hk')).symm⟩
      · exact .inr ⟨hs, rfl⟩
    · rintro ⟨n, hk, ⟨rfl, h1, h2⟩ | ⟨-, rfl⟩⟩
      · rw [min_eq_left (hend k n hk h1)] at h2
        obtain rfl : m = n := by omega
        exact hk
      · exact hk
  · simp only [hun, Bool.false_eq_true, false_iff]
    rintro ⟨k, n, hk, h1, h2⟩
    exact absurd (hend k n hk h1) (not_le.mpr h2)

lemma Unmarked.of_head (hU : U.Tidy) (h : Cutting U off endOff l (visitSent off endOff c n acc))
    (hlt : off < endOff) (hused : acc.used = U) (hc : U.Mem c (n, .sent)) (hhead : c < off)
    (hend : off < c + n) (hl : ∀ e ∈ l, U.Mem e.1 e.2 ∧ e.1 < c) :
    Unmarked U off endOff (visitSent off endOff c n acc) := by
  refine ⟨h.stop fun k j hk => ?_, fun k m s => ?_, ?_⟩
  · obtain ⟨hm, hk'⟩ := hl _ hk
    have := hU.apart hm hc hk'
    omega
  · rw [visitSent, if_pos hhead, hused, mem_insert, Prod.mk.injEq]
    constructor
    · rintro (⟨rfl, rfl, rfl⟩ | ⟨hne, hk⟩)
      · exact ⟨n, hc, .inl ⟨rfl, hhead, by omega⟩⟩
      · have := hU.cases hk hc
        by_cases hs : s = .sent ∧ k < off
        · exact ⟨m, hk, .inl ⟨hs.1, hs.2, by omega⟩⟩
        · exact ⟨m, hk, .inr ⟨hs, rfl⟩⟩
    · rintro ⟨j, hk, ⟨rfl, h1, h2⟩ | ⟨hs, rfl⟩⟩
      · rcases hU.cases hk hc with ⟨rfl, rfl, -⟩ | hcase | hcase
        · exact .inl ⟨rfl, by omega, rfl⟩
        · obtain rfl : m = j := by omega
          exact .inr ⟨by omega, hk⟩
        · omega
      · refine .inr ⟨?_, hk⟩
        rintro rfl
        exact hs ⟨(Prod.mk.inj (hk.unique hc)).2, hhead⟩
  · simp only [visitSent, hhead, decide_true, Bool.true_or, true_iff]
    exact ⟨c, n, hc, hhead, hend⟩

/-- **The loop of `unmarkRange`**, on the entries in descending order. -/
theorem unmarkLoop_spec (hU : U.Tidy) (hlt : off < endOff) (l : List (ℕ × (ℕ × RangeState)))
    (acc : UnmarkAcc) (hl : l.Pairwise (fun a b => b.1 < a.1))
    (hmem : ∀ e ∈ l, U.Mem e.1 e.2 ∧ e.1 < endOff) (hleft : ∀ k v, U.Mem k v → k < off → (k, v) ∈ l)
    (h : Cutting U off endOff l acc) (hused : acc.used = U) (hun : acc.unmarked = false) :
    Unmarked U off endOff (unmarkLoop off endOff l acc) := by
  induction l generalizing acc with
  | nil => exact .of_stop h hlt hused hun nofun fun k n hk hlt => absurd (hleft k _ hk hlt) nofun
  | cons e rest ih =>
    obtain ⟨c, n, s⟩ := e
    obtain ⟨hfirst, hrest⟩ := pairwise_cons.mp hl
    obtain ⟨hc, hcur⟩ := hmem _ (mem_cons_self ..)
    have hmem' : ∀ e ∈ rest, U.Mem e.1 e.2 ∧ e.1 < endOff := fun e he =>
      hmem e (mem_cons_of_mem _ he)
    by_cases hhead : c < off
    · have hbelow : ∀ e ∈ (c, (n, s)) :: rest, U.Mem e.1 e.2 ∧ e.1 < off := by
        intro e he
        refine ⟨(hmem e he).1, ?_⟩
        rcases mem_cons.mp he with rfl | he
        · exact hhead
        · exact (hfirst e he).trans hhead
      -- of the entries before the range, all but the one at `c` end before that one
      have hend (k j : ℕ) (s' : RangeState) (hk : U.Mem k (j, s')) (hk' : k < off) :
          (k = c ∧ j = n ∧ s' = s) ∨ k + j ≤ c := by
        rcases mem_cons.mp (hleft k _ hk hk') with heq | hin
        · exact .inl (by simpa using heq)
        · have := hU.apart hk hc (hfirst _ hin)
          omega
      by_cases hdone : c + n ≤ off
      · rw [show unmarkLoop off endOff ((c, (n, s)) :: rest) acc = acc by
          simp [unmarkLoop, hhead, hdone]]
        refine .of_stop h hlt hused hun hbelow fun k j hk hk' => ?_
        have := hend k j _ hk hk'
        omega
      · cases s with
        | acked =>
          rw [unmarkLoop_acked, if_pos hhead]
          refine .of_stop h hlt hused hun hbelow fun k j hk hk' => ?_
          rcases hend k j _ hk hk' with ⟨-, -, hs⟩ | hle
          · cases hs
          · omega
        | sent =>
          rw [unmarkLoop_sent (by omega), if_pos hhead]
          exact .of_head hU (h.visit hU hc hcur hfirst) hlt hused hc hhead (by omega)
            fun e he => ⟨(hmem' e he).1, hfirst e he⟩
    · have hleft' (k : ℕ) (v : ℕ × RangeState) (hk : U.Mem k v) (hk' : k < off) :
          (k, v) ∈ rest := by
        refine (mem_cons.mp (hleft k v hk hk')).resolve_left fun heq => hhead ?_
        rwa [← (Prod.mk.inj heq).1]
      cases s with
      | acked =>
        rw [unmarkLoop_acked, if_neg hhead]
        exact ih acc hrest hmem' hleft' h.of_acked hused hun
      | sent =>
        rw [unmarkLoop_sent (by omega), if_neg hhead]
        refine ih _ hrest hmem' hleft' (h.visit hU hc hcur hfirst) ?_ ?_
        · rw [visitSent, if_neg hhead, hused]
        · rw [visitSent, hun, decide_eq_false hhead]
          rfl

lemma unmarked_walk (hU : U.Tidy) (hlt : off < endOff) : Unmarked U off endOff
    (unmarkLoop off endOff (U.rangeBelow endOff).reverse { used := U }) := by
  have hwalk (e : ℕ × (ℕ × RangeState)) :
      e ∈ (U.rangeBelow endOff).reverse ↔ U.Mem e.1 e.2 ∧ e.1 < endOff := by
    rw [mem_reverse, mem_rangeBelow]
  refine unmarkLoop_spec hU hlt _ _ (pairwise_reverse.mpr (U.rangeBelow_sorted endOff))
    (fun e he => (hwalk e).mp he) (fun k v hk hk' => (hwalk (k, v)).mpr ⟨hk, hk'.trans hlt⟩)
    ⟨fun k => ?_, fun e => ?_⟩ rfl rfl
  · simp only [not_mem_nil, false_iff]
    rintro ⟨n, hm, hno, -, hk⟩
    exact hno ((hwalk _).mpr ⟨hm, hk⟩)
  · simp only [reduceCtorEq, false_iff]
    rintro ⟨k, n, hm, hno, hk, -⟩
    exact hno ((hwalk _).mpr ⟨hm, hk⟩)

lemma UnmarkAcc.mem_apply (acc : UnmarkAcc) (k : ℕ) (v : ℕ × RangeState) :
    acc.apply.Mem k v ↔ acc.toAdd = some (k, v) ∨
      ((∀ e, acc.toAdd = some e → k ≠ e.1) ∧ k ∉ acc.toRemove ∧ acc.used.Mem k v) := by
  unfold UnmarkAcc.apply
  cases hadd : acc.toAdd with
  | none => simp
  | some e =>
    obtain ⟨off, n, s⟩ := e
    simp [mem_insert, eq_comm]

lemma Unmarked.cutOf (hU : U.Tidy) (hlt : off < endOff) (h : Unmarked U off endOff acc) :
    CutOf U off endOff (· = .sent) acc.apply := by
  have hadd := h.cutting.toAdd
  have hrem := h.cutting.toRemove
  simp only [not_mem_nil, not_false_eq_true, true_and] at hadd hrem
  -- no entry starts where the tail of one is put back
  have hfree {e : ℕ × ℕ × RangeState} (he : acc.toAdd = some e) :
      e.1 = endOff ∧ ∀ v, ¬ U.Mem endOff v := by
    obtain ⟨k, n, hk, h1, h2, rfl⟩ := (hadd e).mp he
    refine ⟨rfl, fun v hv => ?_⟩
    have := hU.apart hk hv h1
    omega
  have hkeep {k n : ℕ} {s : RangeState} (hk : U.Mem k (n, s)) :
      ∀ e, acc.toAdd = some e → k ≠ e.1 := by
    rintro e he rfl
    exact (hfree he).2 _ ((hfree he).1 ▸ hk)
  intro k m s
  rw [acc.mem_apply, hadd, hrem, h.used]
  constructor
  · rintro (⟨a, n, ha, h1, h2, heq⟩ | ⟨-, hno, n, hk, ⟨rfl, h1, h2⟩ | ⟨hs, rfl⟩⟩)
    · obtain ⟨rfl, rfl, rfl⟩ : k = endOff ∧ m = a + n - endOff ∧ s = .sent := by simpa using heq
      exact ⟨a, n, ha, .inl ⟨rfl, .inr (by omega)⟩⟩
    · exact ⟨k, n, hk, .inl ⟨rfl, .inl ⟨rfl, h1, h2⟩⟩⟩
    · refine ⟨k, m, hk, ?_⟩
      by_cases hsent : s = .sent
      · subst hsent
        have := hU.pos hk
        have : endOff ≤ k := by
          by_contra hlt'
          exact hno ⟨m, hk, by simpa using hs, not_le.mp hlt'⟩
        exact .inl ⟨rfl, .inr (by omega)⟩
      · exact .inr ⟨hsent, rfl, rfl⟩
  · rintro ⟨a, n, ha, ⟨rfl, ⟨rfl, h1, h2⟩ | ⟨h1, h2, h3⟩⟩ | ⟨hs, rfl, rfl⟩⟩
    · exact .inr ⟨hkeep ha, fun ⟨_, _, hle, _⟩ => by omega, n, ha, .inl ⟨rfl, h1, h2⟩⟩
    · by_cases haE : a < endOff
      · refine .inl ⟨a, n, ha, haE, h2, ?_⟩
        obtain ⟨rfl, rfl⟩ : k = endOff ∧ m = a + n - endOff := by omega
        rfl
      · obtain ⟨rfl, rfl⟩ : k = a ∧ m = n := by omega
        exact .inr ⟨hkeep ha, fun ⟨_, _, _, hlt'⟩ => by omega, m, ha, .inr ⟨by omega, rfl⟩⟩
    · refine .inr ⟨hkeep ha, ?_, m, ha, .inr ⟨fun hc => hs hc.1, rfl⟩⟩
      rintro ⟨n, hk, -⟩
      exact hs (Prod.mk.inj (ha.unique hk)).2

lemma unmarkRange_snd {t : RangeTracker} (h : t.WF) (off len : ℕ) :
    (t.unmarkRange off len).2 = true ↔
      ∃ x, off ≤ x ∧ x < off + len ∧ t.stateAt x = .sent := by
  simp only [h.stateAt_eq_sent]
  unfold unmarkRange
  split_ifs with h0
  · simp only [false_iff]
    rintro ⟨x, h1, h2, -⟩
    omega
  · have hU := unmarked_walk h.tidy (show off < off + len by omega)
    rw [Bool.or_eq_true, hU.unmarked, Bool.not_eq_true', isEmpty_eq_false_iff_exists_mem]
    simp only [hU.cutting.toRemove, not_mem_nil, not_false_eq_true, true_and]
    constructor
    · rintro (⟨k, n, h1, h2, h3⟩ | ⟨k, n, h1, h2, h3⟩)
      · exact ⟨off, le_rfl, by omega, k, n, h1, by omega, h3⟩
      · exact ⟨k, h2, h3, k, n, h1, le_rfl, Nat.lt_add_of_pos_right (h.tidy.pos h1)⟩
    · rintro ⟨x, h1, h2, k, n, hm, hk, hx⟩
      by_cases hko : off ≤ k
      · exact .inr ⟨k, n, hm, hko, by omega⟩
      · exact .inl ⟨k, n, hm, by omega, by omega⟩

/-- **`unmarkRange`** keeps the tracker well-formed and turns exactly the sent bytes of its range
into unsent ones. -/
theorem unmarkRange_spec {t : RangeTracker} (h : t.WF) (off len : ℕ) :
    (t.unmarkRange off len).1.WF ∧ ∀ x, (t.unmarkRange off len).1.stateAt x =
      if off ≤ x ∧ x < off + len ∧ t.stateAt x = .sent then .unsent else t.stateAt x := by
  unfold unmarkRange
  split_ifs with h0
  · exact ⟨h, fun x => (if_neg (by omega)).symm⟩
  · have hlt : off < off + len := by omega
    have hcut := (unmarked_walk h.tidy hlt).cutOf h.tidy hlt
    set r := (unmarkLoop off (off + len) (t.used.rangeBelow (off + len)).reverse
      { used := t.used }).apply
    have hat (x : ℕ) (s : RangeState) : r.At x s ↔ _ := at_cut hcut x s
    have hwf : WF { t with firstUnmarked := none, used := r } :=
      h.of_used (h.tidy.cut hlt hcut) (fun x s hs => h.le_of_at ((hat x s).mp hs).1)
        fun hs => ((hat _ _).mp hs).1
    refine ⟨hwf, fun x => hwf.stateAt_eq ?_ ?_⟩
    · have := h.stateAt_eq_acked (x := x)
      grind
    · have := h.stateAt_eq_sent (x := x)
      grind

end RangeTracker

end Neqo
