import Neqo.SendStream.Equiv.RangeTracker.MarkAcked

/-!
# Correctness of `RangeTracker.markSent`

The new range is first merged with the entry right after it (`NextMerged`), then merged with or cut
by the one before it. The loop `interleaveSent` then visits the entries that start within the
range; `Interleaving` is its invariant, and each step leaves the bytes that the whole run will mark
as sent (`SentIn`) unchanged.
-/

namespace Neqo

namespace RangeTracker

open List OrdMap

/-- The effect of marking `[o, e)` as sent in a map: bytes that an entry covers keep their state,
the others of the range become sent. -/
def SentIn (m : RangeMap) (o e x : ℕ) (s : RangeState) : Prop :=
  m.At x s ∨ (s = .sent ∧ o ≤ x ∧ x < e ∧ ¬ m.At x .acked)

section SentIn

variable {m r : RangeMap} {o o' e c d : ℕ}

lemma sentIn_acked (x : ℕ) : SentIn m o e x .acked ↔ m.At x .acked := by simp [SentIn]

lemma sentIn_skip (hr : ∀ x s, r.At x s ↔ SentIn m o c x s)
    (hacked : ∀ x, c ≤ x → x < d → m.At x .acked) (hoc : o ≤ c) (hcd : c ≤ d) (hce : c ≤ e) (x : ℕ)
    (s : RangeState) : SentIn r d e x s ↔ SentIn m o e x s := by
  rw [SentIn, hr, hr, sentIn_acked, SentIn, SentIn]
  grind

lemma sentIn_absorb (h : m.Tidy) (hm : ∀ x s, m.At x s ↔ r.At x s ∨ (s = .sent ∧ c ≤ x ∧ x < d))
    (hoc : o ≤ c) (hce : c ≤ e) (x : ℕ) (s : RangeState) :
    SentIn r o (max e d) x s ↔ SentIn m o e x s := by
  have hdisj : c ≤ x → x < d → ¬ r.At x .acked := fun h1 h2 hx =>
    nomatch h.at_unique ((hm x .acked).mpr (.inl hx)) ((hm x .sent).mpr (.inr ⟨rfl, h1, h2⟩))
  rw [SentIn, SentIn]
  grind

/-- The range may start earlier over sent bytes or later over acked ones. -/
lemma sentIn_start (hsent : ∀ x, o' ≤ x → x < o → m.At x .sent)
    (hacked : ∀ x, o ≤ x → x < o' → m.At x .acked) (x : ℕ) (s : RangeState) :
    SentIn m o' e x s ↔ SentIn m o e x s := by
  rw [SentIn, SentIn]
  grind

lemma insert_sent (h : m.Tidy) (hlt : o < e)
    (hentry : ∀ k l s, m.Mem k (l, s) → (k + l < o ∨ k + l = o ∧ s ≠ .sent) ∨
      (k = o ∧ s = .sent ∧ k + l ≤ e) ∨ e < k ∨ e = k ∧ s ≠ .sent) :
    (m.insert o (e - o, .sent)).Tidy ∧
      ∀ x s, (m.insert o (e - o, .sent)).At x s ↔ SentIn m o e x s := by
  have hput : PutOf m o e .sent (m.insert o (e - o, .sent)) := by
    intro k l s
    rw [mem_insert, Prod.mk.injEq]
    constructor
    · rintro (⟨rfl, rfl, rfl⟩ | ⟨hne, hk⟩)
      · exact .inl ⟨rfl, by omega, rfl⟩
      · have := hentry k l s hk
        have := h.pos hk
        exact .inr ⟨k, l, hk, by unfold Piece; omega⟩
    · rintro (⟨rfl, h1, rfl⟩ | ⟨a, j, ha, hp⟩)
      · exact .inl ⟨rfl, by omega, rfl⟩
      · have := hentry a j s ha
        unfold Piece at hp
        obtain ⟨rfl, rfl⟩ : k = a ∧ l = j := by omega
        exact .inr ⟨by omega, ha⟩
  refine ⟨h.put hlt hput (fun a j ha h1 => ?_) (fun a j ha h1 => ?_), fun x s => ?_⟩
  · have := hentry a j _ ha
    simp only [ne_eq, not_true_eq_false, and_false, or_false] at this
    omega
  · have := hentry a j _ ha
    simp only [ne_eq, not_true_eq_false, and_false, or_false] at this
    omega
  · -- what covers an offset of the range is sent
    have hcov (s : RangeState) : m.At x s → o ≤ x → x < e → s = .sent := by
      rintro ⟨k, l, hk, h1, h2⟩ h3 h4
      rcases hentry k l s hk with h5 | ⟨-, hs, -⟩ | h5
      · omega
      · exact hs
      · omega
    rw [at_put hlt hput, SentIn]
    grind

lemma at_remove {l : ℕ} {t : RangeState} (hc : m.Mem c (l, t)) (x : ℕ) (s : RangeState) :
    m.At x s ↔ (m.remove c).At x s ∨ (s = t ∧ c ≤ x ∧ x < c + l) := by
  constructor
  · rintro ⟨k, j, hk, hx⟩
    by_cases hkc : k = c
    · subst hkc
      obtain ⟨rfl, rfl⟩ := Prod.mk.inj (hk.unique hc)
      exact .inr ⟨rfl, hx⟩
    · exact .inl ⟨k, j, mem_remove.mpr ⟨hkc, hk⟩, hx⟩
  · rintro (⟨k, j, hk, hx⟩ | ⟨rfl, hx⟩)
    · exact ⟨k, j, (mem_remove.mp hk).2, hx⟩
    · exact ⟨c, l, hc, hx⟩

end SentIn

/-! ### The loop -/

/-- **Loop invariant** of `interleaveSent`: apart from what is left to visit, the entries end before
the current offset, start at it as a shorter sent range, or start after the range. Those that touch
the range are not sent. -/
structure Interleaving (m : RangeMap) (o e : ℕ) (cs : List ℕ) : Prop where
  tidy : m.Tidy
  lt : o < e
  sorted : cs.Pairwise (· < ·)
  covered : ∀ c ∈ cs, o ≤ c ∧ c < e ∧ ∃ v, m.Mem c v
  entry : ∀ k l s, m.Mem k (l, s) → (k + l < o ∨ k + l = o ∧ s ≠ .sent) ∨
    (k = o ∧ s = .sent ∧ k + l ≤ e) ∨ k ∈ cs ∨ e < k ∨ e = k ∧ s ≠ .sent

section Interleave

variable {m : RangeMap} {o e c l : ℕ} {cs : List ℕ}

/-- The map after an acked entry at `c` has been visited: the gap before it is filled. -/
def fillGap (m : RangeMap) (o c : ℕ) : RangeMap :=
  if c - o > 0 then m.insert o (c - o, .sent) else m

lemma mem_fillGap {k : ℕ} {v : ℕ × RangeState} (hk : (fillGap m o c).Mem k v) :
    (k = o ∧ o + v.1 = c) ∨ m.Mem k v := by
  unfold fillGap at hk
  split_ifs at hk with h
  · rcases mem_insert.mp hk with ⟨rfl, rfl⟩ | ⟨-, hk⟩
    · exact .inl ⟨rfl, by omega⟩
    · exact .inr hk
  · exact .inr hk

lemma Interleaving.le_of_mem (hI : Interleaving m o e (c :: cs)) {k : ℕ} (hk : k ∈ c :: cs) :
    k = c ∨ (c < k ∧ k ∈ cs) :=
  (mem_cons.mp hk).imp_right fun h => ⟨rel_of_pairwise_cons hI.sorted h, h⟩

lemma Interleaving.fillGap (hI : Interleaving m o e (c :: cs)) (hc : m.Mem c (l, .acked)) :
    (fillGap m o c).Tidy ∧ ∀ x s, (fillGap m o c).At x s ↔ SentIn m o c x s := by
  obtain ⟨hoc, hce, -⟩ := hI.covered c (mem_cons_self ..)
  unfold RangeTracker.fillGap
  split_ifs with hgap
  · refine insert_sent hI.tidy (by omega) fun k j s hk => ?_
    rcases hI.tidy.cases hk hc with ⟨rfl, _, rfl⟩ | hlt | hlt
    · exact .inr (.inr (.inr ⟨rfl, nofun⟩))
    · rcases hI.entry k j s hk with h | ⟨rfl, rfl, _⟩ | h | h
      · exact .inl h
      · exact .inr (.inl ⟨rfl, rfl, by omega⟩)
      · have := hI.le_of_mem h
        omega
      · omega
    · exact .inr (.inr (.inl hlt.1))
  · refine ⟨hI.tidy, fun x s => ?_⟩
    obtain rfl : o = c := by omega
    exact ⟨.inl, fun h => h.elim id fun h => by omega⟩

/-- Visiting an acked entry: the gap before it is filled and the range goes on after it. -/
lemma Interleaving.acked_step (hI : Interleaving m o e (c :: cs)) (hc : m.Mem c (l, .acked))
    (hmore : c + l < e) : Interleaving (RangeTracker.fillGap m o c) (c + l) e cs := by
  have hl := hI.tidy.pos hc
  obtain ⟨hoc, hce, -⟩ := hI.covered c (mem_cons_self ..)
  refine ⟨(hI.fillGap hc).1, hmore, hI.sorted.tail, fun d hd => ?_, fun k j s hk => ?_⟩
  · obtain ⟨h1, h2, v, hv⟩ := hI.covered d (mem_cons_of_mem _ hd)
    have hcd := rel_of_pairwise_cons hI.sorted hd
    have := hI.tidy.apart hc hv hcd
    refine ⟨by omega, h2, v, ?_⟩
    unfold RangeTracker.fillGap
    split_ifs
    · exact mem_insert.mpr (.inr ⟨by omega, hv⟩)
    · exact hv
  · rcases mem_fillGap hk with ⟨rfl, h1⟩ | hk
    · exact .inl (.inl (by omega))
    · rcases hI.tidy.cases hk hc with ⟨rfl, rfl, rfl⟩ | hlt | hlt
      · exact .inl (.inr ⟨rfl, nofun⟩)
      · exact .inl (.inl (by omega))
      · rcases hI.entry k j s hk with h | h | h | h
        · omega
        · omega
        · rcases hI.le_of_mem h with rfl | h
          · omega
          · exact .inr (.inr (.inl h.2))
        · exact .inr (.inr (.inr h))

/-- The map after a sent entry at `c` has been visited: only the one at the start stays. -/
def absorb (m : RangeMap) (o c : ℕ) : RangeMap :=
  if c ≠ o then m.remove c else m

lemma mem_absorb {k : ℕ} {v : ℕ × RangeState} :
    (absorb m o c).Mem k v ↔ (k = c → c = o) ∧ m.Mem k v := by
  unfold absorb
  split_ifs with h
  · simp [h]
  · simp [not_ne_iff.mp h]

/-- Visiting a sent entry: it is absorbed by the range, which grows over what sticks out. -/
lemma Interleaving.sent_step (hI : Interleaving m o e (c :: cs)) (hc : m.Mem c (l, .sent)) :
    Interleaving (absorb m o c) o (max e (c + l)) cs ∧
      ∀ x s, SentIn (absorb m o c) o (max e (c + l)) x s ↔ SentIn m o e x s := by
  obtain ⟨hoc, hce, -⟩ := hI.covered c (mem_cons_self ..)
  refine ⟨⟨hI.tidy.of_subset fun k v h => (mem_absorb.mp h).2, by omega, hI.sorted.tail,
    fun d hd => ?_, fun k j s hk => ?_⟩, sentIn_absorb hI.tidy (fun x s => ?_) hoc hce.le⟩
  · obtain ⟨h1, h2, v, hv⟩ := hI.covered d (mem_cons_of_mem _ hd)
    have hcd := rel_of_pairwise_cons hI.sorted hd
    exact ⟨h1, by omega, v, mem_absorb.mpr ⟨by omega, hv⟩⟩
  · obtain ⟨hne, hk⟩ := mem_absorb.mp hk
    rcases hI.tidy.cases hk hc with ⟨rfl, rfl, rfl⟩ | hlt | hlt
    · exact .inr (.inl ⟨hne rfl, rfl, le_max_right ..⟩)
    · rcases hI.entry k j s hk with h | ⟨h1, h2, h3⟩ | h | h
      · exact .inl h
      · exact .inr (.inl ⟨h1, h2, by omega⟩)
      · have := hI.le_of_mem h
        omega
      · omega
    · rcases hI.entry k j s hk with h | h | h | h
      · omega
      · omega
      · rcases hI.le_of_mem h with h | h
        · omega
        · exact .inr (.inr (.inl h.2))
      · refine .inr (.inr (.inr ?_))
        rcases hlt.2 with h' | ⟨h', hs⟩
        · rcases h with h | ⟨h, hs⟩
          · exact .inl (by omega)
          · exact .inr ⟨by omega, hs⟩
        · rcases h with h | ⟨h, _⟩
          · exact .inr ⟨by omega, hs.symm⟩
          · exact .inr ⟨by omega, hs.symm⟩
  · unfold absorb
    split_ifs
    · exact at_remove hc x s
    · exact ⟨.inl, fun h => h.elim id fun ⟨hs, hx⟩ => ⟨c, l, hs ▸ hc, hx⟩⟩

/-- **`interleaveSent`** turns the bytes of its range that are not acknowledged into sent ones. -/
theorem interleaveSent_spec (cs : List ℕ) (m : RangeMap) (o n : ℕ)
    (hI : Interleaving m o (o + n) cs) :
    (interleaveSent m o n cs).Tidy ∧
      ∀ x s, (interleaveSent m o n cs).At x s ↔ SentIn m o (o + n) x s := by
  induction cs generalizing m o n with
  | nil =>
    have := insert_sent hI.tidy hI.lt fun k l s hk => by simpa using hI.entry k l s hk
    rwa [Nat.add_sub_cancel_left] at this
  | cons c cs ih =>
    obtain ⟨hc1, hc2, ⟨l, s⟩, hc⟩ := hI.covered c (mem_cons_self ..)
    have hget := get?_eq_some_iff.mpr hc
    cases s with
    | acked =>
      have hstep : interleaveSent m o n (c :: cs) = if n - (c - o + l) = 0 then fillGap m o c
          else interleaveSent (fillGap m o c) (o + (c - o + l)) (n - (c - o + l)) cs := by
        rw [interleaveSent, hget]
        rfl
      obtain ⟨htidy, hat⟩ := hI.fillGap hc
      have hskip := sentIn_skip hat (fun x h1 h2 => ⟨c, l, hc, h1, h2⟩) hc1
        (Nat.le_add_right c l) hc2.le
      rw [hstep, show o + (c - o + l) = c + l by omega]
      split_ifs with hz
      · refine ⟨htidy, fun x s => Iff.trans ⟨.inl, fun h => h.elim id fun h => ?_⟩ (hskip x s)⟩
        omega
      · have hend : c + l + (n - (c - o + l)) = o + n := by omega
        obtain ⟨htidy', hat'⟩ := ih (fillGap m o c) (c + l) (n - (c - o + l))
          (hend ▸ hI.acked_step hc (by omega))
        exact ⟨htidy', fun x s => (hat' x s).trans (hend ▸ hskip x s)⟩
    | sent =>
      rw [interleaveSent, hget]
      obtain ⟨hI', hsent⟩ := hI.sent_step hc
      have hend : o + (n + (c + l - (o + n))) = max (o + n) (c + l) := by omega
      obtain ⟨htidy, hat⟩ := ih (absorb m o c) o (n + (c + l - (o + n))) (hend ▸ hI')
      exact ⟨htidy, fun x s => (hat x s).trans (hend ▸ hsent x s)⟩

end Interleave

/-! ### Entering the loop -/

/-- What the merge with the entry that starts where the range ends leaves; the range now ends at
`E`. -/
structure NextMerged (used U : RangeMap) (hi E : ℕ) : Prop where
  le : hi ≤ E
  subset : ∀ k v, U.Mem k v → used.Mem k v
  kept : ∀ k v, used.Mem k v → k < hi → U.Mem k v
  next : ∀ k l s, U.Mem k (l, s) → hi ≤ k → E < k ∨ E = k ∧ s ≠ .sent
  before : hi < E → ∀ k v, used.Mem k v → k < hi → k + v.1 ≤ hi
  sentIn : ∀ lo ≤ hi, ∀ x s, SentIn U lo E x s ↔ SentIn used lo hi x s

section

variable {used U : RangeMap} {lo hi E off : ℕ}

lemma mergeNext_spec (h : used.Tidy) (hlt : lo < hi) :
    ∃ U E, mergeNext used hi (hi - lo) = (U, E - lo) ∧ NextMerged used U hi E := by
  have hsame (hno : ∀ l, ¬ used.Mem hi (l, .sent)) : NextMerged used used hi hi := by
    refine ⟨le_rfl, fun _ _ h => h, fun _ _ h _ => h, fun k l s hk hle => ?_, fun h => ?_,
      fun _ _ _ _ => Iff.rfl⟩
    · refine hle.lt_or_eq.imp_right fun heq => ⟨heq, ?_⟩
      rintro rfl
      exact hno l (heq ▸ hk)
    · omega
  unfold mergeNext
  cases hget : used.get? hi with
  | none => exact ⟨used, hi, rfl, hsame fun l => get?_eq_none_iff.mp hget _⟩
  | some v =>
    obtain ⟨l, s⟩ := v
    have hm : used.Mem hi (l, s) := get?_eq_some_iff.mp hget
    cases s with
    | acked => exact ⟨used, hi, rfl, hsame fun l' hl => nomatch hm.unique hl⟩
    | sent =>
      refine ⟨used.remove hi, hi + l, by rw [Nat.sub_add_comm hlt.le], Nat.le_add_right ..,
          fun k v hk =>
        (mem_remove.mp hk).2, fun k v hk hne => mem_remove.mpr ⟨hne.ne, hk⟩, fun k j s hk hle => ?_,
        fun _ k v hk hlt => ?_, fun lo hlo => ?_⟩
      · obtain ⟨hne, hk⟩ := mem_remove.mp hk
        exact (h.apart hm hk (lt_of_le_of_ne hle (Ne.symm hne))).imp_right fun h => ⟨h.1, h.2.symm⟩
      · have := h.apart hk hm hlt
        omega
      · have := sentIn_absorb h (at_remove hm) hlo le_rfl
        rwa [max_eq_right (Nat.le_add_right hi l)] at this

lemma NextMerged.run (h : used.Tidy) (hN : NextMerged used U hi E) (hlt : lo < hi) (hoff : off < E)
    (hprev : ∀ k l s, U.Mem k (l, s) → k < lo → (k + l < off ∨ k + l = off ∧ s ≠ .sent) ∨
    (k = off ∧ s = .sent ∧ k + l ≤ E))
    (hstart : ∀ k v, U.Mem k v → lo ≤ k → off ≤ k) (hsent : ∀ x, off ≤ x → x < lo → U.At x .sent)
    (hacked : ∀ x, lo ≤ x → x < off → U.At x .acked) :
    let r := interleaveSent U off (E - off) ((used.range lo hi).map Prod.fst)
    r.Tidy ∧ ∀ x s, r.At x s ↔ SentIn used lo hi x s := by
  have hI : Interleaving U off (off + (E - off)) ((used.range lo hi).map Prod.fst) := by
    rw [Nat.add_sub_cancel' hoff.le]
    refine ⟨h.of_subset hN.subset, hoff, pairwise_map.mpr (used.range_sorted lo hi), fun c hc => ?_,
      fun k l s hk => ?_⟩
    · obtain ⟨⟨v, hv⟩, h1, h2⟩ := mem_covered.mp hc
      have hcU := hN.kept c v hv h2
      exact ⟨hstart c v hcU h1, h2.trans_le hN.le, v, hcU⟩
    · by_cases h1 : k < lo
      · exact (hprev k l s hk h1).imp_right .inl
      · by_cases h2 : k < hi
        · exact .inr (.inr (.inl (mem_covered.mpr ⟨⟨_, hN.subset k _ hk⟩, not_lt.mp h1, h2⟩)))
        · exact .inr (.inr (.inr (hN.next k l s hk (not_lt.mp h2))))
  obtain ⟨htidy, hat⟩ := interleaveSent_spec _ _ _ _ hI
  rw [Nat.add_sub_cancel' hoff.le] at hat
  exact ⟨htidy, fun x s => (hat x s).trans ((sentIn_start hsent hacked x s).trans
    (hN.sentIn lo hlt.le x s))⟩

lemma markSent_of_map {t : RangeTracker} (h : t.WF) (hlo : t.acked ≤ lo)
    {r : RangeMap} (hr : r.Tidy ∧ ∀ x s, r.At x s ↔ SentIn t.used lo hi x s) :
    WF { t with firstUnmarked := none, used := r } ∧
      ∀ x, stateAt { t with firstUnmarked := none, used := r } x =
        if lo ≤ x ∧ x < hi ∧ t.stateAt x = .unsent then .sent else t.stateAt x := by
  obtain ⟨htidy, hat⟩ := hr
  have hwf : WF { t with firstUnmarked := none, used := r } := by
    refine h.of_used htidy (fun x s hs => ?_) fun hs => (sentIn_acked _).mp ((hat _ _).mp hs)
    rcases (hat x s).mp hs with hs | ⟨-, hx, -⟩
    · exact h.le_of_at hs
    · exact hlo.trans hx
  refine ⟨hwf, fun x => hwf.stateAt_eq ?_ ?_⟩
  · rw [hat, sentIn_acked, ← h.stateAt_eq_acked]
    grind
  · rw [hat, SentIn, ← h.stateAt_eq_sent]
    have := h.stateAt_eq_acked (x := x)
    cases hst : t.stateAt x <;> grind

/-- **`markSent`** keeps the tracker well-formed and turns exactly the unsent bytes of its range
into sent ones. -/
theorem markSent_spec {t : RangeTracker} (h : t.WF) (off len : ℕ) :
    (t.markSent off len).WF ∧ ∀ x, (t.markSent off len).stateAt x =
      if off ≤ x ∧ x < off + len ∧ t.stateAt x = .unsent then .sent else t.stateAt x := by
  -- bytes of the range below the prefix are not unsent, so the range may start at `lo`
  have hclip (x : ℕ) : (off ≤ x ∧ x < off + len ∧ t.stateAt x = .unsent) ↔
      (max t.acked off ≤ x ∧ x < off + len ∧ t.stateAt x = .unsent) := by
    refine ⟨fun ⟨h1, h2, h3⟩ => ⟨?_, h2, h3⟩, fun ⟨h1, h2, h3⟩ => ⟨by omega, h2, h3⟩⟩
    by_contra hlt
    rw [stateAt_of_lt (by omega)] at h3
    cases h3
  simp only [hclip]
  unfold markSent
  dsimp only
  split_ifs with h0
  · exact ⟨h, fun x => (if_neg (by omega)).symm⟩
  · set lo := max t.acked off
    set hi := off + len
    have hlt : lo < hi := by omega
    have hlo : t.acked ≤ lo := le_max_left ..
    rw [Nat.add_sub_cancel' hlt.le]
    obtain ⟨U, E, hmatch, hN⟩ := mergeNext_spec h.tidy hlt
    have hU : U.Tidy := h.tidy.of_subset hN.subset
    have hle := hN.le
    rw [hmatch]
    cases hprev : U.lastBelow lo with
    | none =>
      refine markSent_of_map h hlo (hN.run h.tidy hlt (by omega) (fun k l s hk hk' => ?_)
        (fun k v _ hk => hk) (fun x h1 h2 => by omega) (fun x h1 h2 => by omega))
      have := lastBelow_eq_none_iff.mp hprev k _ hk
      omega
    | some e =>
      obtain ⟨p, n, s⟩ := e
      obtain ⟨hp, hplo⟩ := lastBelow_mem hprev
      have hlast (k : ℕ) (v : ℕ × RangeState) (hk : U.Mem k v) (hlt : k < lo) : k ≤ p :=
        le_lastBelow hprev hk hlt
      dsimp only
      split_ifs with hreach hz hst
      · -- the preceding entry covers the whole range, so nothing was merged after it either
        obtain rfl : E = hi := by
          by_contra hne
          have : p + n ≤ hi := hN.before (by omega) p _ (hN.subset _ _ hp) (by omega)
          omega
        refine markSent_of_map h hlo ⟨hU, fun x s' => ?_⟩
        rw [← hN.sentIn lo hlt.le]
        refine ⟨.inl, ?_⟩
        rintro (h1 | ⟨rfl, h1, h2, h3⟩)
        · exact h1
        · have hx : U.At x s := ⟨p, n, hp, by omega, by omega⟩
          cases s with
          | sent => exact hx
          | acked => exact absurd hx h3
      · subst hst
        rw [show lo + (p + n - lo) = p + n by omega,
          show E - lo - (p + n - lo) = E - (p + n) by omega]
        refine markSent_of_map h hlo (hN.run h.tidy hlt (by omega) (fun k l s hk hk' => .inl ?_)
          (fun k v hk hk' => ?_) (fun x h1 h2 => by omega)
          (fun x h1 h2 => ⟨p, n, hp, by omega, h2⟩))
        · rcases hU.cases hk hp with ⟨rfl, rfl, rfl⟩ | hc | hc
          · exact .inr ⟨rfl, nofun⟩
          · exact .inl (by omega)
          · omega
        · have := hU.apart hp hk (by omega)
          omega
      · obtain rfl : s = .sent := by cases s <;> trivial
        rw [show E - lo - (p + n - lo) + n = E - p by omega]
        refine markSent_of_map h hlo (hN.run h.tidy hlt (by omega) (fun k l s hk hk' => ?_)
          (fun k v hk hk' => by omega) (fun x h1 h2 => ⟨p, n, hp, h1, by omega⟩)
          (fun x h1 h2 => by omega))
        rcases hU.cases hk hp with ⟨rfl, rfl, rfl⟩ | hc | hc
        · exact .inr ⟨rfl, rfl, by omega⟩
        · exact .inl hc.2
        · omega
      · refine markSent_of_map h hlo (hN.run h.tidy hlt (by omega) (fun k l s hk hk' => ?_)
          (fun k v _ hk => hk) (fun x h1 h2 => by omega) (fun x h1 h2 => by omega))
        have := hlast k _ hk hk'
        have := hU.cases hk hp
        exact .inl (.inl (by omega))

end

end RangeTracker

end Neqo
