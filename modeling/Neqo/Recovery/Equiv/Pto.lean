import Neqo.Recovery.Equiv.Step

/-!
# What a PTO marks and what it returns

A PTO marks packets while it collects those that fit into its budget. The packet that exceeds the
budget has been marked before it is found not to fit, so it is not returned, and it will not be
returned by a later PTO either.
-/

namespace Neqo

open PacketNumberSpace Sent Recovery

/-- The packet with the mark that a PTO leaves on it. -/
def Sent.Packet.marked (p : Packet) : Packet := { p with ptoFired := true }

/-- Whether a PTO takes the packet. -/
def Sent.Packet.ptoDue (p : Packet) : Bool := !(p.ptoFired || p.lost)

lemma key_of_marked {p q : Packet} (h : p.marked = q.marked) : p.key = q.key := by
  have hkey : p.marked.key = q.marked.key := congrArg Packet.key h
  exact hkey

/-- The packet after a PTO that takes those for which `due` holds. -/
def Sent.Packet.markIf (due : Packet → Bool) (p : Packet) : Packet := if due p then p.marked else p

namespace LossRecoverySpace

/-! ### One space -/

/-- What a PTO makes of the packets of a space, of which it returns `out`, and then `n` of its
budget is used. -/
inductive Collects (due : Packet → Bool) (budget size : ℕ) : Packets → Packets → Packets → ℕ → Prop
  /-- All packets that are due are marked and returned. -/
  | all {ps : Packets} (h : size ≤ budget → size + bytesOf due ps ≤ budget) :
      Collects due budget size ps (ps.map (Packet.markIf due)) ((ps.filter due).map Packet.marked)
        (size + bytesOf due ps)
  /-- A packet does not fit: it is marked and not returned. -/
  | exceeds (before after : Packets) {p : Packet} (hdue : due p = true)
      (h : budget < size + bytesOf due before + p.len) :
      Collects due budget size (before ++ p :: after)
        (before.map (Packet.markIf due) ++ p.marked :: after)
        ((before.filter due).map Packet.marked) (size + bytesOf due before + p.len)

namespace Collects

variable {due : Packet → Bool} {budget size n : ℕ} {ps ps' out : Packets} {p p' : Packet}

lemma cons_of_not_due (hdue : due p = false) (h : Collects due budget size ps ps' out n) :
    Collects due budget size (p :: ps) (p :: ps') out n := by
  cases h with
  | all h =>
    have hall := @all due budget size (p :: ps)
    simp_all [bytesOf_cons, Packet.markIf]
  | @exceeds before after q hdue' h =>
    have hexceeds := @exceeds due budget size (p :: before) after q hdue'
    simp_all [bytesOf_cons, Packet.markIf]

lemma cons_of_fits (hdue : due p = true) (hfits : size + p.len ≤ budget)
    (h : Collects due budget (size + p.len) ps ps' out n) :
    Collects due budget size (p :: ps) (p.marked :: ps') (p.marked :: out) n := by
  cases h with
  | all h =>
    have hall := @all due budget size (p :: ps)
    simp_all [bytesOf_cons, Packet.markIf, add_assoc]
  | @exceeds before after q hdue' h =>
    have hexceeds := @exceeds due budget size (p :: before) after q hdue'
    simp_all [bytesOf_cons, Packet.markIf, add_assoc]

lemma keys_eq (h : Collects due budget size ps ps' out n) : ps'.keys = ps.keys := by
  have hkey : ∀ p : Packet, (p.markIf due).key = p.key := by
    intro p
    unfold Packet.markIf
    split_ifs <;> rfl
  cases h with
  | all => simp [Packets.keys, hkey]
  | exceeds => simp [Packets.keys, hkey, show ∀ p : Packet, p.marked.key = p.key from fun _ => rfl]

lemma mem (h : Collects due budget size ps ps' out n) (hp : p' ∈ ps') :
    p' ∈ ps ∨ ∃ p ∈ ps, due p = true ∧ p' = p.marked := by
  have hmark : ∀ {l : Packets}, p' ∈ l.map (Packet.markIf due) →
      p' ∈ l ∨ ∃ p ∈ l, due p = true ∧ p' = p.marked := by
    intro l hl
    obtain ⟨p, hmem, rfl⟩ := List.mem_map.mp hl
    unfold Packet.markIf
    split_ifs with hdue
    · exact .inr ⟨p, hmem, hdue, rfl⟩
    · exact .inl hmem
  cases h with
  | all => exact hmark hp
  | exceeds before after hdue =>
    rcases List.mem_append.mp hp with hp | hp
    · exact (hmark hp).imp (List.mem_append_left _)
        fun ⟨p, hp, hmarked⟩ => ⟨p, List.mem_append_left _ hp, hmarked⟩
    · rcases List.mem_cons.mp hp with rfl | hp
      · exact .inr ⟨_, List.mem_append_right _ List.mem_cons_self, hdue, rfl⟩
      · exact .inl (List.mem_append_right _ (List.mem_cons_of_mem _ hp))

lemma key_mem (h : Collects due budget size ps ps' out n) (hp : p' ∈ out) : p'.key ∈ ps.keys := by
  cases h with
  | all =>
    obtain ⟨p, hdue, rfl⟩ := List.mem_map.mp hp
    exact (List.mem_map_of_mem (List.mem_of_mem_filter hdue) : p.key ∈ _)
  | exceeds =>
    obtain ⟨p, hdue, rfl⟩ := List.mem_map.mp hp
    exact (List.mem_map_of_mem (List.mem_append_left _ (List.mem_of_mem_filter hdue)) : p.key ∈ _)

lemma of_fits (h : Collects due budget size ps ps' out n) (hfits : size + bytesOf due ps ≤ budget) :
    out = (ps.filter due).map Packet.marked ∧ n = size + bytesOf due ps := by
  cases h with
  | all => exact ⟨rfl, rfl⟩
  | exceeds before after hdue h =>
    rw [bytesOf_append, bytesOf_cons, if_pos hdue] at hfits
    omega

/-- If not everything fits, then a packet that is due is marked and is not returned. -/
lemma swallows (h : Collects due budget size ps ps' out n)
    (hincreasing : ps.keys.Pairwise fun k k' => k.2 < k'.2) (hsize : size ≤ budget)
    (hexceeds : budget < size + bytesOf due ps) :
    ∃ p ∈ ps, due p = true ∧ p.marked ∈ ps' ∧ p.marked ∉ out := by
  cases h with
  | all h => omega
  | exceeds before after hdue =>
    refine ⟨_, List.mem_append_right _ List.mem_cons_self, hdue,
      List.mem_append_right _ List.mem_cons_self, fun hin => ?_⟩
    -- Those that are returned were sent before it.
    obtain ⟨q, hq, hqp⟩ := List.mem_map.mp hin
    rw [Packets.keys, List.map_append] at hincreasing
    have hlt := (List.pairwise_append.mp hincreasing).2.2 q.key
      (List.mem_map_of_mem (List.mem_of_mem_filter hq)) _ List.mem_cons_self
    rw [key_of_marked hqp] at hlt
    omega

end Collects

lemma collects_ptoPackets (budget size : ℕ) (ps : Packets) :
    Collects Packet.ptoDue budget size ps (ptoPackets budget size ps).1
      (ptoPackets budget size ps).2.1 (ptoPackets budget size ps).2.2 := by
  induction ps generalizing size with
  | nil => exact .all id
  | cons p ps ih =>
    have hfired : (p.ptoFired || p.lost) = !p.ptoDue := (Bool.not_not _).symm
    unfold ptoPackets Packet.pto
    rw [hfired]
    cases hdue : p.ptoDue with
    | false => exact (ih size).cons_of_not_due hdue
    | true =>
      simp only [Bool.not_true, Bool.false_eq_true, if_false]
      split_ifs with hfits
      · exact (ih _).cons_of_fits hdue hfits
      · exact .exceeds [] ps hdue (Nat.lt_of_not_le hfits)

end LossRecoverySpace

/-! ### All spaces -/

namespace Loss

open LossRecoverySpace

variable {l : Loss} {budget size : ℕ} {retransmit : PacketNumberSpaceSet}
  {spaces : List PacketNumberSpace}

/-- The total length of the packets that are due in those of the given spaces in which packets are
retransmitted. -/
def dueIn (l : Loss) (retransmit : PacketNumberSpace → Bool) (spaces : List PacketNumberSpace) :
    ℕ :=
  ((spaces.filter retransmit).map fun space => bytesOf Packet.ptoDue (l.tracked space)).sum

/-- Packets are numbered in the order of sending and are in the space that their type says. -/
def Numbered (l : Loss) : Prop :=
  ∀ space, ((l.tracked space).keys.Pairwise fun k k' => k.2 < k'.2) ∧
    ∀ k ∈ (l.tracked space).keys, ofType k.1 = space

variable {space : PacketNumberSpace}

lemma Numbered.space_unique (h : l.Numbered) {space' : PacketNumberSpace} {k : PacketType × ℕ}
    (hk : k ∈ (l.tracked space).keys) (hk' : k ∈ (l.tracked space').keys) : space = space' :=
  ((h space).2 k hk).symm.trans ((h space').2 k hk')

lemma Numbered.of_keys {l' : Loss} (h : l.Numbered)
    (hkeys : ∀ space, (l'.tracked space).keys.Sublist (l.tracked space).keys) : l'.Numbered :=
  fun space => ⟨(h space).1.sublist (hkeys space),
    fun k hk => (h space).2 k ((hkeys space).subset hk)⟩

lemma Numbered.eq_of_key (h : l.Numbered) {p q : Packet} (hp : p ∈ l.tracked space)
    (hq : q ∈ l.tracked space) (hkey : p.key = q.key) : p = q := by
  have hnodup : ((l.tracked space).map Packet.key).Nodup :=
    (h space).1.imp fun hlt heq => by rw [heq] at hlt; exact lt_irrefl _ hlt
  exact List.inj_on_of_nodup_map hnodup hp hq hkey

/-- Whether a PTO takes the packet of the space. -/
def dueAt (retransmit : PacketNumberSpaceSet) (space : PacketNumberSpace) (p : Packet) : Bool :=
  retransmit.contains space && p.ptoDue

lemma collectPto_cons (budget size : ℕ) (retransmit : PacketNumberSpaceSet)
    (space : PacketNumberSpace) (spaces : List PacketNumberSpace) (l : Loss) :
    ∃ (l₁ : Loss) (out : Packets) (n : ℕ),
      Collects (dueAt retransmit space) budget size (l.tracked space) (l₁.tracked space) out n ∧
      (∀ space', space' ≠ space → l₁.tracked space' = l.tracked space') ∧
      collectPto budget retransmit (space :: spaces) size l =
        ((collectPto budget retransmit spaces n l₁).1,
          out ++ (collectPto budget retransmit spaces n l₁).2) := by
  cases hmem : retransmit.contains space with
  | false =>
    have hdue : dueAt retransmit space = fun _ => false := by
      funext p
      rw [dueAt, hmem, Bool.false_and]
    refine ⟨l, [], size, ?_, fun _ _ => rfl, by simp [collectPto, hmem]⟩
    have hall := @Collects.all (fun _ => false) budget size (l.tracked space)
    simpa [hdue, bytesOf, show (Packet.markIf fun _ => false) = id from rfl] using hall
  | true =>
    have hdue : dueAt retransmit space = Packet.ptoDue := by
      funext p
      rw [dueAt, hmem, Bool.true_and]
    rw [hdue]
    cases hget : l.spaces.get space with
    | none =>
      have htracked : l.tracked space = [] := by
        rw [tracked, hget]
        rfl
      refine ⟨l, [], size, ?_, fun _ _ => rfl, by simp [collectPto, hmem, hget]⟩
      rw [htracked]
      exact .all id
    | some s =>
      rw [tracked_of_get hget]
      refine ⟨l.setSpace space { s with sentPackets := (ptoPackets budget size s.sentPackets).1 },
        _, _, ?_, ?_, by simp [collectPto, hmem, hget]; exact ⟨rfl, rfl⟩⟩
      · rw [tracked_setSpace, if_pos rfl]
        exact collects_ptoPackets budget size s.sentPackets
      · intro space' hne
        rw [tracked_setSpace, if_neg hne]

lemma tracked_collectPto (h : space ∉ spaces) :
    (collectPto budget retransmit spaces size l).1.tracked space = l.tracked space := by
  induction spaces generalizing l size with
  | nil => rfl
  | cons first rest ih =>
    obtain ⟨hne, hrest⟩ := List.ne_and_not_mem_of_not_mem_cons h
    obtain ⟨l₁, out, n, -, hother, heq⟩ := collectPto_cons budget size retransmit first rest l
    rw [heq, ih hrest, hother space hne]

lemma mem_tracked_collectPto {p' : Packet}
    (h : p' ∈ (collectPto budget retransmit spaces size l).1.tracked space) :
    p' ∈ l.tracked space ∨
      ∃ p ∈ l.tracked space, dueAt retransmit space p = true ∧ p' = p.marked := by
  induction spaces generalizing l size with
  | nil => exact .inl h
  | cons first rest ih =>
    obtain ⟨l₁, out, n, hcollects, hother, heq⟩ :=
      collectPto_cons budget size retransmit first rest l
    rw [heq] at h
    by_cases hspace : space = first
    · subst hspace
      rcases ih h with hold | ⟨q, hq, hdue, rfl⟩
      · exact hcollects.mem hold
      · -- A packet that is still due was not marked before.
        rcases hcollects.mem hq with hq | ⟨q', -, -, rfl⟩
        · exact .inr ⟨q, hq, hdue, rfl⟩
        · cases (Bool.and_eq_true_iff.mp hdue).2
    · have hrest := ih h
      rwa [hother space hspace] at hrest

lemma keys_of_collects {l₁ : Loss} {out : Packets} {n : ℕ} {due : Packet → Bool}
    (hcollects : Collects due budget size (l.tracked space) (l₁.tracked space) out n)
    (hother : ∀ space', space' ≠ space → l₁.tracked space' = l.tracked space')
    (space' : PacketNumberSpace) : (l₁.tracked space').keys = (l.tracked space').keys := by
  by_cases hspace : space' = space
  · rw [hspace, hcollects.keys_eq]
  · rw [hother space' hspace]

lemma mem_collectPto_out {p' : Packet} (h : p' ∈ (collectPto budget retransmit spaces size l).2) :
    ∃ space ∈ spaces, p'.key ∈ (l.tracked space).keys := by
  induction spaces generalizing l size with
  | nil => cases h
  | cons first rest ih =>
    obtain ⟨l₁, out, n, hcollects, hother, heq⟩ :=
      collectPto_cons budget size retransmit first rest l
    rw [heq] at h
    rcases List.mem_append.mp h with h | h
    · exact ⟨first, List.mem_cons_self, hcollects.key_mem h⟩
    · obtain ⟨space, hspace, hkey⟩ := ih h
      rw [keys_of_collects hcollects hother] at hkey
      exact ⟨space, List.mem_cons_of_mem _ hspace, hkey⟩

lemma dueIn_congr {l' : Loss} {f : PacketNumberSpace → Bool}
    (h : ∀ space ∈ spaces, l'.tracked space = l.tracked space) :
    l'.dueIn f spaces = l.dueIn f spaces := by
  unfold dueIn
  congr 1
  apply List.map_congr_left
  intro space hspace
  rw [h space (List.mem_of_mem_filter hspace)]

lemma dueIn_cons (l : Loss) (retransmit : PacketNumberSpaceSet) (space : PacketNumberSpace)
    (spaces : List PacketNumberSpace) :
    l.dueIn retransmit.contains (space :: spaces) =
      bytesOf (dueAt retransmit space) (l.tracked space) + l.dueIn retransmit.contains spaces := by
  unfold dueIn dueAt
  cases hmem : retransmit.contains space <;> simp [hmem, bytesOf]

lemma collectPto_of_fits (hnodup : spaces.Nodup)
    (h : size + l.dueIn retransmit.contains spaces ≤ budget) (hspace : space ∈ spaces) {p : Packet}
    (hp : p ∈ l.tracked space) (hdue : dueAt retransmit space p = true) :
    p.marked ∈ (collectPto budget retransmit spaces size l).2 := by
  induction spaces generalizing l size with
  | nil => cases hspace
  | cons first rest ih =>
    obtain ⟨hnotin, hnodup⟩ := List.nodup_cons.mp hnodup
    rw [dueIn_cons] at h
    obtain ⟨l₁, out, n, hcollects, hother, heq⟩ :=
      collectPto_cons budget size retransmit first rest l
    obtain ⟨rfl, rfl⟩ := hcollects.of_fits (by omega)
    rw [heq, List.mem_append]
    rcases List.mem_cons.mp hspace with rfl | hspace
    · exact .inl (List.mem_map_of_mem (List.mem_filter.mpr ⟨hp, hdue⟩))
    · have hne : ∀ space' ∈ rest, space' ≠ first := fun _ hmem heq => hnotin (heq ▸ hmem)
      refine .inr (ih hnodup ?_ hspace ?_)
      · rw [dueIn_congr fun space' hspace' => hother space' (hne space' hspace')]
        omega
      · rw [hother space (hne space hspace)]
        exact hp

/-- If not all that is due fits, then a packet is marked that is not returned. -/
lemma collectPto_of_exceeds (hl : l.Numbered) (hnodup : spaces.Nodup) (hsize : size ≤ budget)
    (h : budget < size + l.dueIn retransmit.contains spaces) :
    ∃ space ∈ spaces, ∃ p ∈ l.tracked space, dueAt retransmit space p = true ∧
      p.marked ∈ (collectPto budget retransmit spaces size l).1.tracked space ∧
      p.marked ∉ (collectPto budget retransmit spaces size l).2 := by
  induction spaces generalizing l size with
  | nil => exact absurd h (not_lt.mpr hsize)
  | cons first rest ih =>
    obtain ⟨hnotin, hnodup⟩ := List.nodup_cons.mp hnodup
    rw [dueIn_cons] at h
    obtain ⟨l₁, out, n, hcollects, hother, heq⟩ :=
      collectPto_cons budget size retransmit first rest l
    have hne : ∀ space' ∈ rest, space' ≠ first := fun _ hmem heq => hnotin (heq ▸ hmem)
    have hkeys := keys_of_collects hcollects hother
    rw [heq]
    by_cases hfits : size + bytesOf (dueAt retransmit first) (l.tracked first) ≤ budget
    · -- The packets of the first space fit, so that the one that does not is in another space.
      obtain ⟨-, rfl⟩ := hcollects.of_fits hfits
      have hdue := @dueIn_congr l rest l₁ retransmit.contains
        fun space' hspace' => hother space' (hne space' hspace')
      obtain ⟨space, hspace, p, hp, hpdue, hmem, hout⟩ :=
        ih (hl.of_keys fun space => by rw [hkeys space]) hnodup hfits (by omega)
      rw [hother space (hne space hspace)] at hp
      refine ⟨space, List.mem_cons_of_mem _ hspace, p, hp, hpdue, hmem, fun hin => ?_⟩
      rcases List.mem_append.mp hin with hin | hin
      · have hkey := hcollects.key_mem hin
        exact hne space hspace (hl.space_unique (List.mem_map_of_mem hp : p.key ∈ _) hkey)
      · exact hout hin
    · obtain ⟨p, hp, hpdue, hmem, hout⟩ :=
        hcollects.swallows (hl first).1 hsize (Nat.lt_of_not_le hfits)
      refine ⟨first, List.mem_cons_self, p, hp, hpdue, ?_, fun hin => ?_⟩
      · rw [tracked_collectPto hnotin]
        exact hmem
      · rcases List.mem_append.mp hin with hin | hin
        · exact hout hin
        · obtain ⟨space', hspace', hkey⟩ := mem_collectPto_out hin
          rw [hkeys space'] at hkey
          exact hne space' hspace' (hl.space_unique hkey (List.mem_map_of_mem hp : p.key ∈ _))

/-! ### When nothing is swallowed -/

/-- Whether the PTO of a space has expired. -/
def ptoExpired (l : Loss) (rtt : RttEstimate) (now : ℕ) (space : PacketNumberSpace) : Bool :=
  (l.ptoTime rtt space).any fun t => t ≤ now

/-- Whether a PTO takes packets from a space: its PTO has expired, or it is the Initial space and
that of the Handshake space has. -/
def retransmits (l : Loss) (rtt : RttEstimate) (now : ℕ) (space : PacketNumberSpace) : Bool :=
  l.ptoExpired rtt now space || space = .initial && l.ptoExpired rtt now .handshake

/-- The total length of the packets that a PTO is to return. -/
def ptoDemand (l : Loss) (rtt : RttEstimate) (now : ℕ) : ℕ :=
  l.dueIn (l.retransmits rtt now) all

section

variable (l : Loss) (rtt : RttEstimate) (now : ℕ)

lemma ptoSpacesStep_eq (r : PtoSpaces) (space space' : PacketNumberSpace) :
    (l.ptoSpacesStep rtt now r space).retransmit.contains space' =
        (r.retransmit.contains space' || l.ptoExpired rtt now space &&
          (space' = space || space' = .initial && space = .handshake)) ∧
      (l.ptoSpacesStep rtt now r space).ptoSpace.isSome =
        (r.ptoSpace.isSome || l.ptoExpired rtt now space) := by
  unfold ptoSpacesStep ptoExpired
  cases l.ptoTime rtt space with
  | none => simp
  | some t =>
    by_cases hfuture : t > now
    · simp [hfuture, not_le.mpr hfuture]
    · cases space <;> cases space' <;>
        simp [hfuture, not_lt.mp hfuture, PacketNumberSpaceSet.contains,
          PacketNumberSpaceSet.insert, SpaceMap.get, SpaceMap.set]

lemma contains_ptoSpaces (space : PacketNumberSpace) :
    (l.ptoSpaces rtt now).retransmit.contains space = l.retransmits rtt now space := by
  simp only [ptoSpaces, all, List.foldl_cons, List.foldl_nil,
    (ptoSpacesStep_eq l rtt now _ _ _).1, retransmits]
  cases space <;> simp [PacketNumberSpaceSet.contains, PacketNumberSpaceSet.empty, SpaceMap.get]

lemma ptoSpace_ptoSpaces :
    (l.ptoSpaces rtt now).ptoSpace.isSome =
      all.any (l.ptoExpired rtt now) := by
  simp only [ptoSpaces, all, List.foldl_cons, List.foldl_nil,
    (ptoSpacesStep_eq l rtt now _ _ .initial).2]
  simp [Bool.or_assoc]

lemma ptoDemand_eq :
    l.ptoDemand rtt now =
      l.dueIn (l.ptoSpaces rtt now).retransmit.contains all := by
  have hcontains : (l.ptoSpaces rtt now).retransmit.contains = l.retransmits rtt now :=
    funext (l.contains_ptoSpaces rtt now)
  rw [hcontains]
  rfl

end

variable {S T : Type}

/-- A PTO that does not fire leaves everything as it is, and otherwise it collects the packets that
are due. -/
lemma maybeFirePto_cases (l : Loss) (path : Path S T) (now : ℕ) (hasHandshakeKeys : Bool) :
    ((∀ space, l.retransmits path.rtt now space = false) ∧
      l.maybeFirePto path now hasHandshakeKeys = (l, [])) ∨
    ((∀ space, (l.maybeFirePto path now hasHandshakeKeys).1.tracked space =
        (collectPto (maxPtoPacketCount * path.plpmtu) (l.ptoSpaces path.rtt now).retransmit
          all 0 l).1.tracked space) ∧
      (l.maybeFirePto path now hasHandshakeKeys).2 =
        (collectPto (maxPtoPacketCount * path.plpmtu) (l.ptoSpaces path.rtt now).retransmit
          all 0 l).2) := by
  have hsome := l.ptoSpace_ptoSpaces path.rtt now
  unfold maybeFirePto
  dsimp only
  cases hspace : (l.ptoSpaces path.rtt now).ptoSpace with
  | none =>
    rw [hspace] at hsome
    refine .inl ⟨fun space => ?_, rfl⟩
    have hnone := List.any_eq_false.mp hsome.symm
    have hexpired : ∀ space, l.ptoExpired path.rtt now space = false := by
      intro space
      exact Bool.eq_false_iff.mpr (hnone space (by cases space <;> decide))
    simp [retransmits, hexpired]
  | some =>
    refine .inr ⟨fun space' => ?_, rfl⟩
    dsimp only
    split_ifs
    · rw [tracked_maybePrimeHandshakePto, tracked_firePto]
    · rw [tracked_firePto]

end Loss

namespace Recovery.Endpoint

variable {S T : Type}

/-- A PTO marks a tracked packet and does not return it. -/
structure Swallows (e : Endpoint S T) (now : ℕ) (hasHandshakeKeys : Bool)
    (space : PacketNumberSpace) (p : Packet) : Prop where
  tracked : p ∈ e.loss.tracked space
  notFired : p.ptoFired = false
  fired : p.marked ∈ (e.loss.maybeFirePto e.path now hasHandshakeKeys).1.tracked space
  notReturned : p.marked ∉ (e.loss.maybeFirePto e.path now hasHandshakeKeys).2

lemma marked_not_mem_tracked {l : Loss} (h : l.Numbered) {space : PacketNumberSpace} {p : Packet}
    (hp : p ∈ l.tracked space) (hfired : p.ptoFired = false) : p.marked ∉ l.tracked space := by
  intro hmarked
  have heq : p.marked = p := h.eq_of_key hmarked hp rfl
  have hcontra : p.marked.ptoFired = false := by rw [heq, hfired]
  cases hcontra

variable {e : Endpoint S T}

lemma swallows_none_iff (h : e.loss.Numbered) (now : ℕ) (hasHandshakeKeys : Bool) :
    (∀ space p, ¬ e.Swallows now hasHandshakeKeys space p) ↔
      e.loss.ptoDemand e.path.rtt now ≤ maxPtoPacketCount * e.path.plpmtu := by
  have hnodup : all.Nodup := by decide
  have hdemand := e.loss.ptoDemand_eq e.path.rtt now
  rcases e.loss.maybeFirePto_cases e.path now hasHandshakeKeys with ⟨hnone, hsame⟩ | ⟨hloss, hout⟩
  · have hzero : e.loss.ptoDemand e.path.rtt now = 0 := by
      simp [Loss.ptoDemand, Loss.dueIn, all, hnone]
    refine iff_of_true (fun space p hp => ?_) (by omega)
    have hfired := hp.fired
    rw [hsame] at hfired
    exact marked_not_mem_tracked h hp.tracked hp.notFired hfired
  · constructor
    · intro hswallows
      by_contra hexceeds
      have hlt : maxPtoPacketCount * e.path.plpmtu < 0 + e.loss.dueIn
          (e.loss.ptoSpaces e.path.rtt now).retransmit.contains all := by
        omega
      obtain ⟨space, -, p, hp, hdue, hmem, hnotin⟩ :=
        Loss.collectPto_of_exceeds h hnodup (Nat.zero_le _) hlt
      have hfired : p.ptoFired = false := by
        cases hfired : p.ptoFired with
        | false => rfl
        | true => simp [Loss.dueAt, Packet.ptoDue, hfired] at hdue
      exact hswallows space p ⟨hp, hfired, by rw [hloss]; exact hmem, by rw [hout]; exact hnotin⟩
    · intro hfits space p hp
      have hfired := hp.fired
      have hnotin := hp.notReturned
      rw [hloss] at hfired
      rw [hout] at hnotin
      rcases Loss.mem_tracked_collectPto hfired with hold | ⟨q, hq, hdue, hmarked⟩
      · exact marked_not_mem_tracked h hp.tracked hp.notFired hold
      · obtain rfl := h.eq_of_key hp.tracked hq (key_of_marked hmarked)
        exact hnotin (Loss.collectPto_of_fits hnodup (by omega) (by cases space <;> decide) hq hdue)

/-! ### Reachable states -/

variable [SlowStart S] [WindowAdjustment T]

/-- The first part of a timeout, in which packets are declared lost. -/
def detectLost (e : Endpoint S T) (now : ℕ) : Endpoint S T :=
  let lossDelay := e.path.rtt.lossDelay
  let (l, path, _) := e.loss.timeoutSpace e.path .initial lossDelay now
  let (l, path, _) := l.timeoutSpace path .handshake lossDelay now
  let (l, path, _) := l.timeoutSpace path .applicationData lossDelay now
  { loss := l, path := path }

/-- Whether the packet that an operation sends has a larger number than those that are tracked in
its space. -/
def inOrder (e : Endpoint S T) (op : Op) : Bool :=
  op.sent?.all fun k => (e.loss.tracked (.ofType k.1)).all fun p => p.pn < k.2

/-- The states between operations, if packets are numbered in order, and those inside of a
timeout. -/
inductive Reachable (e₀ : Endpoint S T) : Endpoint S T → Prop where
  | start : Reachable e₀ e₀
  | step {e : Endpoint S T} (op : Op) (h : Reachable e₀ e) (hop : e.inOrder op = true) :
      Reachable e₀ (e.step op)
  | detectLost {e : Endpoint S T} (now : ℕ) (h : Reachable e₀ e) : Reachable e₀ (e.detectLost now)

lemma numbered_step (h : e.loss.Numbered) {op : Op} (hop : e.inOrder op = true) :
    (e.step op).loss.Numbered := by
  rcases e.step_cases op with ⟨n, hreleases, -⟩ | ⟨p, hsent, htracks⟩
  · exact h.of_keys hreleases.keys
  · have hlarger : ∀ k ∈ (e.loss.tracked p.space).keys, k.2 < p.pn := by
      unfold inOrder at hop
      rw [hsent, Option.all_some, List.all_eq_true] at hop
      intro k hk
      obtain ⟨q, hq, rfl⟩ := List.mem_map.mp hk
      exact of_decide_eq_true (hop q hq)
    have hkeys : ((e.step op).loss.tracked p.space).keys =
        (e.loss.tracked p.space).keys ++ [p.key] := by
      rw [htracks.tracked]
      exact List.map_append
    intro space
    by_cases hspace : space = p.space
    · subst hspace
      rw [hkeys]
      refine ⟨List.pairwise_append.mpr ⟨(h _).1, List.pairwise_singleton _ _, ?_⟩,
        List.forall_mem_append.mpr ⟨(h _).2, List.forall_mem_singleton.mpr rfl⟩⟩
      intro k hk k' hk'
      rw [List.mem_singleton.mp hk']
      exact hlarger k hk
    · rw [htracks.other space hspace]
      exact h space

lemma numbered_detectLost (h : e.loss.Numbered) (now : ℕ) : (e.detectLost now).loss.Numbered := by
  obtain ⟨n, hreleases, -⟩ := ((e.loss.timeoutSpace_evolves e.path .initial
    e.path.rtt.lossDelay now).trans (Loss.timeoutSpace_evolves _ _ .handshake
    e.path.rtt.lossDelay now)).trans (Loss.timeoutSpace_evolves _ _ .applicationData
    e.path.rtt.lossDelay now)
  exact h.of_keys hreleases.keys

lemma Reachable.numbered {sender : PacketSender S T} {initialRtt fastPto : ℕ}
    (h : Reachable (Endpoint.new sender initialRtt fastPto) e) : e.loss.Numbered := by
  induction h with
  | start =>
    have hnil : ∀ space, ((Endpoint.new sender initialRtt fastPto).loss.tracked space).keys =
        [] := by
      rintro (_ | _ | _) <;> rfl
    intro space
    rw [hnil]
    exact ⟨List.Pairwise.nil, nofun⟩
  | step op _ hop ih => exact numbered_step ih hop
  | detectLost now _ ih => exact numbered_detectLost ih now

/-- In every reachable state, a PTO returns all packets that it marks if and only if the packets
that are due, in the spaces whose packets are retransmitted, fit into the PTO packets. -/
theorem pto_returns_marked_iff {sender : PacketSender S T} {initialRtt fastPto : ℕ}
    {e : Endpoint S T} (h : Reachable (Endpoint.new sender initialRtt fastPto) e) (now : ℕ)
    (hasHandshakeKeys : Bool) :
    (∀ space p, ¬ e.Swallows now hasHandshakeKeys space p) ↔
      e.loss.ptoDemand e.path.rtt now ≤ maxPtoPacketCount * e.path.plpmtu :=
  swallows_none_iff h.numbered now hasHandshakeKeys

/-- An endpoint with an MTU of 1280 bytes and the default settings. -/
def newDefault : Endpoint ClassicSlowStart NewReno :=
  .new (.new {} {} false false (.new .v6 none) 0) (100 * millisecond) fastPtoScale

/-- Send a packet of 1200 bytes. -/
def sendLarge (pn : ℕ) : Op := .packetSent .short pn 0 true false [] 1200

theorem pto_returns_two_packets :
    ¬ ((newDefault.run [sendLarge 0, sendLarge 1]).detectLost second).Swallows second true
      .applicationData
      { pt := .short, pn := 1, ackEliciting := true, timeSent := 0, tokens := [], len := 1200 } :=
  (pto_returns_marked_iff (.detectLost second (.step (sendLarge 1) (.step (sendLarge 0) .start rfl)
    rfl)) second true).mpr (by decide) .applicationData _

/-- Of three packets, the last one is marked and not returned. -/
theorem pto_swallows_third_packet :
    Reachable newDefault
        ((newDefault.run [sendLarge 0, sendLarge 1, sendLarge 2]).detectLost second) ∧
      ((newDefault.run [sendLarge 0, sendLarge 1, sendLarge 2]).detectLost second).Swallows second
        true .applicationData
        { pt := .short, pn := 2, ackEliciting := true, timeSent := 0, tokens := [], len := 1200 } :=
  ⟨.detectLost second (.step (sendLarge 2) (.step (sendLarge 1) (.step (sendLarge 0) .start rfl)
    rfl) rfl), by decide, rfl, by decide, by decide⟩

end Recovery.Endpoint

end Neqo
