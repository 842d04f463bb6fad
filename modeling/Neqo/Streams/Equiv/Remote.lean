import Neqo.Streams.Equiv.Cleanup

/-!
# What holds of the streams of the peer

`Streams.Remote` is the invariant: the next stream of a type that the peer may open has the two low
bits of that type, all streams of the peer that are there come before it, and the sending half of
such a stream is only there together with the receiving half. Most operations keep the streams of
the peer as they are (`Streams.SameStreams`).
-/

namespace Neqo

open Bool OrdMap RecvStreams RemoteStreamLimit

namespace StreamId

/-! ### Stream IDs by type and role -/

variable (id : StreamId)

lemma isBidi_iff : id.isBidi = true ↔ id.asU64 / 2 % 2 = 0 := by
  unfold isBidi
  rw [decide_eq_true_iff]
  have hdiv : (id.asU64 &&& 0x02) / 2 = id.asU64 / 2 % 2 := by
    rw [Nat.and_div_two, Nat.and_one_is_mod]
  have hmod : (id.asU64 &&& 0x02) % 2 = 0 := by
    rw [← Nat.and_one_is_mod, Nat.and_assoc]
    exact Nat.and_zero _
  omega

lemma isClientInitiated_iff : id.isClientInitiated = true ↔ id.asU64 % 2 = 0 := by
  unfold isClientInitiated
  rw [decide_eq_true_iff, Nat.and_one_is_mod]

lemma index_eq : id.index = id.asU64 / 4 := Nat.shiftRight_eq_div_pow _ _

/-- The type of a stream, and who opened it, are in the two low bits of its ID. -/
lemma remote_iff (streamType : StreamType) (role : Role) :
    (id.streamType = streamType ∧ id.isRemoteInitiated role = true) ↔
      id.asU64 % 4 = (init streamType role.remote).asU64 := by
  have hbidi := isBidi_iff id
  have hclient := isClientInitiated_iff id
  unfold StreamId.streamType isRemoteInitiated isSelfInitiated isServerInitiated init
  generalize id.isBidi = bidi at *
  generalize id.isClientInitiated = client at *
  cases bidi <;> cases client <;> cases streamType <;> cases role <;>
    simp [StreamType.toNat, roleBit, Role.remote] at * <;> omega

lemma eq_of_index_eq {a b : StreamId} (hmod : a.asU64 % 4 = b.asU64 % 4)
    (hindex : a.index = b.index) : a = b := by
  rw [index_eq, index_eq] at hindex
  obtain ⟨a⟩ := a
  obtain ⟨b⟩ := b
  simp only [mk.injEq] at *
  omega

lemma local_not_remote (n : ℕ) (streamType : StreamType) (role : Role) :
    isRemoteInitiated ⟨(n <<< 2) + streamType.toNat + roleBit role⟩ role = false := by
  have hclient := isClientInitiated_iff ⟨(n <<< 2) + streamType.toNat + roleBit role⟩
  unfold isRemoteInitiated isSelfInitiated isServerInitiated
  generalize isClientInitiated _ = client at *
  cases client <;> cases streamType <;> cases role <;>
    simp [StreamType.toNat, roleBit] at * <;> omega

end StreamId

namespace Streams

variable {s s' : Streams}

/-! ### Streams of the peer -/

/-- How many streams of a type the peer has opened. -/
def opened (s : Streams) (streamType : StreamType) : ℕ :=
  (s.remoteStreamLimits.get streamType).nextStream.index

/-- The stream has a half that is still there. -/
def present (s : Streams) (id : StreamId) : Bool :=
  (s.send.get? id).isSome || (s.recv.get? id).isSome

/-- What holds of the streams of the peer at any time. -/
structure Remote (s : Streams) : Prop where
  recvRole : s.recv.role = s.role
  roleBit : s.localStreamLimits.roleBit = StreamId.roleBit s.role
  next : ∀ streamType, (s.remoteStreamLimits.get streamType).nextStream.asU64 % 4 =
    (StreamId.init streamType s.role.remote).asU64
  recv_lt : ∀ id, id.isRemoteInitiated s.role = true → (s.recv.get? id).isSome = true →
    id.index < s.opened id.streamType
  send_recv : ∀ id, id.isRemoteInitiated s.role = true → (s.send.get? id).isSome = true →
    id.isBidi = true ∧ (s.recv.get? id).isSome = true

/-- Two states with the same streams of the peer. -/
structure SameStreams (s s' : Streams) : Prop where
  role : s'.role = s.role
  recvRole : s'.recv.role = s.recv.role
  roleBit : s'.localStreamLimits.roleBit = s.localStreamLimits.roleBit
  next : ∀ streamType, (s'.remoteStreamLimits.get streamType).nextStream =
    (s.remoteStreamLimits.get streamType).nextStream
  recv : ∀ id, id.isRemoteInitiated s.role = true →
    (s'.recv.get? id).isSome = (s.recv.get? id).isSome
  send : ∀ id, id.isRemoteInitiated s.role = true →
    (s'.send.get? id).isSome = (s.send.get? id).isSome

lemma Keeps.same {quiet : Prop} (h : Keeps quiet s s') : SameStreams s s' :=
  ⟨h.role, h.recv.role, h.roleBit, h.next, fun id _ => h.recv.keys id, fun id _ => h.send.keys id⟩

lemma SameStreams.opened (h : SameStreams s s') (streamType : StreamType) :
    s'.opened streamType = s.opened streamType := congrArg StreamId.index (h.next streamType)

lemma SameStreams.remote (h : SameStreams s s') (hs : s.Remote) : s'.Remote where
  recvRole := by rw [h.recvRole, h.role, hs.recvRole]
  roleBit := by rw [h.roleBit, h.role, hs.roleBit]
  next streamType := by rw [h.next, h.role, hs.next]
  recv_lt id hid hrecv := by
    rw [h.role] at hid
    rw [h.recv id hid] at hrecv
    rw [h.opened]
    exact hs.recv_lt id hid hrecv
  send_recv id hid hsend := by
    rw [h.role] at hid
    rw [h.send id hid] at hsend
    rw [h.recv id hid]
    exact hs.send_recv id hid hsend

lemma Remote.same_streamCreate (h : s.Remote) (st : StreamType) :
    SameStreams s (s.streamCreate st).1 := by
  unfold streamCreate LocalStreamLimits.takeStreamId
  dsimp only
  split_ifs
  · rw [h.roleBit]
    have hlocal := StreamId.local_not_remote (s.localStreamLimits.limits.get st).used st s.role
    generalize (⟨_⟩ : StreamId) = newId at hlocal ⊢
    have hne {id : StreamId} (hid : id.isRemoteInitiated s.role = true) : id ≠ newId := by
      rintro rfl
      rw [hid] at hlocal
      cases hlocal
    have hsend (id : StreamId) (hid : id.isRemoteInitiated s.role = true) (ss : SendStream) :
        ((s.send.insert newId ss).get? id).isSome = (s.send.get? id).isSome := by
      rw [SendStreams.get?_insert, if_neg (hne hid)]
    cases st with
    | uniDi =>
      exact ⟨rfl, rfl, h.roleBit.symm, fun _ => rfl, fun _ _ => rfl, fun id hid => hsend id hid _⟩
    | biDi =>
      refine ⟨rfl, rfl, h.roleBit.symm, fun _ => rfl, fun id hid => ?_,
        fun id hid => hsend id hid _⟩
      rw [get?_insert, if_neg (hne hid)]
  · exact ⟨rfl, rfl, rfl, fun _ => rfl, fun _ _ => rfl, fun _ _ => rfl⟩

/-!
## Creating the streams of the peer

A stream of the peer that is used for the first time brings all those before it into being:
`Streams.Opens` says exactly what `obtainStream` changes.
-/

variable {s s' : Streams}

/-! ### Opening streams -/

/-- The stream is one of the peer that `s'` has opened and `s` had not. -/
def Fresh (s s' : Streams) (id : StreamId) : Prop :=
  id.isRemoteInitiated s.role = true ∧ s.opened id.streamType ≤ id.index ∧
    id.index < s'.opened id.streamType

instance (s s' : Streams) (id : StreamId) : Decidable (Fresh s s' id) :=
  inferInstanceAs (Decidable (_ ∧ _))

/-- From `s` to `s'`, streams of the peer were opened, and nothing else happened. -/
structure Opens (s s' : Streams) : Prop where
  rest : s' = { s with
    send := s'.send, recv := s'.recv, remoteStreamLimits := s'.remoteStreamLimits }
  recvRole : s'.recv.role = s.recv.role
  streamsFc : ∀ streamType, (s'.remoteStreamLimits.get streamType).streamsFc =
    (s.remoteStreamLimits.get streamType).streamsFc
  next : ∀ streamType, (s'.remoteStreamLimits.get streamType).nextStream.asU64 % 4 =
    (s.remoteStreamLimits.get streamType).nextStream.asU64 % 4
  opened_le : ∀ streamType, s.opened streamType ≤ s'.opened streamType
  recv : ∀ id, s'.recv.get? id =
    if Fresh s s' id then some (.new id (s.recvInitialMaxStreamData id.streamType))
    else s.recv.get? id
  send : ∀ id, s'.send.get? id =
    if Fresh s s' id ∧ id.isBidi = true then
      some (.new id s.remoteParams.initialMaxStreamDataBidiLocal)
    else s.send.get? id

lemma not_fresh_self (s : Streams) (id : StreamId) : ¬ Fresh s s id :=
  fun h => absurd h.2.2 (not_lt.mpr h.2.1)

lemma Opens.refl (s : Streams) : Opens s s where
  rest := rfl
  recvRole := rfl
  streamsFc _ := rfl
  next _ := rfl
  opened_le _ := le_rfl
  recv id := (if_neg (not_fresh_self s id)).symm
  send id := (if_neg fun h => not_fresh_self s id h.1).symm

lemma Opens.role (h : Opens s s') : s'.role = s.role := by
  rw [h.rest]

lemma Opens.localParams (h : Opens s s') : s'.localParams = s.localParams := by
  rw [h.rest]

lemma Opens.remoteParams (h : Opens s s') : s'.remoteParams = s.remoteParams := by
  rw [h.rest]

lemma fresh_trans {s'' : Streams} (hrole : s'.role = s.role)
    (h : ∀ streamType, s.opened streamType ≤ s'.opened streamType)
    (h' : ∀ streamType, s'.opened streamType ≤ s''.opened streamType) (id : StreamId) :
    Fresh s s'' id ↔ Fresh s s' id ∨ Fresh s' s'' id := by
  have hle := h id.streamType
  have hle' := h' id.streamType
  unfold Fresh
  rw [hrole]
  constructor
  · rintro ⟨hid, hlo, hhi⟩
    by_cases hmid : id.index < s'.opened id.streamType
    · exact .inl ⟨hid, hlo, hmid⟩
    · exact .inr ⟨hid, not_lt.mp hmid, hhi⟩
  · rintro (⟨hid, hlo, hhi⟩ | ⟨hid, hlo, hhi⟩)
    · exact ⟨hid, hlo, by omega⟩
    · exact ⟨hid, by omega, hhi⟩

lemma Opens.trans {s'' : Streams} (h : Opens s s') (h' : Opens s' s'') : Opens s s'' where
  rest := by
    have hrest := h'.rest
    rw [h.rest] at hrest
    exact hrest
  recvRole := h'.recvRole.trans h.recvRole
  streamsFc streamType := (h'.streamsFc streamType).trans (h.streamsFc streamType)
  next streamType := (h'.next streamType).trans (h.next streamType)
  opened_le streamType := (h.opened_le streamType).trans (h'.opened_le streamType)
  recv id := by
    rw [h'.recv, h.recv]
    have hnew : s'.recvInitialMaxStreamData id.streamType =
        s.recvInitialMaxStreamData id.streamType := by
      unfold recvInitialMaxStreamData
      rw [h.localParams]
    simp only [fresh_trans h.role h.opened_le h'.opened_le, hnew]
    by_cases hfresh : Fresh s s' id <;> by_cases hfresh' : Fresh s' s'' id <;>
      simp [hfresh, hfresh']
  send id := by
    rw [h'.send, h.send, h.remoteParams]
    simp only [fresh_trans h.role h.opened_le h'.opened_le]
    by_cases hfresh : Fresh s s' id <;> by_cases hfresh' : Fresh s' s'' id <;>
      cases id.isBidi <;> simp [hfresh, hfresh']

lemma opened_createNextRemote (s : Streams) (streamType streamType' : StreamType) :
    (s.createNextRemote streamType).opened streamType' =
      s.opened streamType' + if streamType' = streamType then 1 else 0 := by
  have hindex (id : StreamId) : id.next.index = id.index + 1 := by
    rw [StreamId.index_eq, StreamId.index_eq]
    exact Nat.add_div_right _ (by decide)
  cases streamType <;> cases streamType'
  · exact hindex _
  · rfl
  · rfl
  · exact hindex _

lemma Remote.fresh_createNextRemote (h : s.Remote) (streamType : StreamType) (id : StreamId) :
    Fresh s (s.createNextRemote streamType) id ↔
      id = (s.remoteStreamLimits.get streamType).nextStream := by
  have hnext := h.next streamType
  obtain ⟨htype, hremote⟩ := (StreamId.remote_iff _ _ _).mpr hnext
  unfold Fresh
  rw [opened_createNextRemote]
  constructor
  · rintro ⟨hid, hlo, hhi⟩
    have hsame : id.streamType = streamType := by
      by_contra hne
      rw [if_neg hne] at hhi
      omega
    rw [if_pos hsame, hsame] at hhi
    rw [hsame] at hlo
    apply StreamId.eq_of_index_eq
    · rw [hnext]
      exact (StreamId.remote_iff id streamType s.role).mp ⟨hsame, hid⟩
    · exact le_antisymm (Nat.le_of_lt_succ hhi) hlo
  · rintro rfl
    rw [htype, if_pos rfl]
    exact ⟨hremote, le_rfl, Nat.lt_succ_self _⟩

lemma Remote.createNextRemote_opens (h : s.Remote) (streamType : StreamType) :
    Opens s (s.createNextRemote streamType) := by
  have hfresh := h.fresh_createNextRemote streamType
  obtain ⟨htype, -⟩ := (StreamId.remote_iff _ _ _).mpr (h.next streamType)
  refine ⟨rfl, rfl, fun streamType' => ?_, fun streamType' => ?_, fun streamType' => ?_,
    fun id => ?_, fun id => ?_⟩
  · cases streamType <;> cases streamType' <;> rfl
  · cases streamType <;> cases streamType' <;>
      first | rfl | exact Nat.add_mod_right _ 4
  · rw [opened_createNextRemote]
    omega
  · simp only [hfresh]
    show (s.recv.insert _ _).get? id = _
    rw [get?_insert]
    split_ifs with hid
    · rw [hid, htype]
    · rfl
  · simp only [hfresh]
    generalize hnext : (s.remoteStreamLimits.get streamType).nextStream = newId at htype ⊢
    have hsend : (s.createNextRemote streamType).send = if newId.isBidi = true then
        s.send.insert newId (.new newId s.remoteParams.initialMaxStreamDataBidiLocal)
        else s.send := by
      rw [← hnext]
      rfl
    rw [hsend]
    by_cases hbidi : newId.isBidi = true
    · rw [if_pos hbidi, SendStreams.get?_insert]
      by_cases hid : id = newId
      · rw [if_pos hid, if_pos ⟨hid, hid ▸ hbidi⟩, hid]
      · rw [if_neg hid, if_neg fun h => hid h.1]
    · rw [if_neg hbidi, if_neg]
      rintro ⟨rfl, hid⟩
      exact hbidi hid

lemma Opens.remote (h : Opens s s') (hs : s.Remote) : s'.Remote where
  recvRole := by rw [h.recvRole, h.role, hs.recvRole]
  roleBit := by rw [h.role, ← hs.roleBit, h.rest]
  next streamType := by rw [h.next, hs.next, h.role]
  recv_lt id hid hrecv := by
    rw [h.recv] at hrecv
    split_ifs at hrecv with hfresh
    · exact hfresh.2.2
    · rw [h.role] at hid
      exact (hs.recv_lt id hid hrecv).trans_le (h.opened_le _)
  send_recv id hid hsend := by
    rw [h.role] at hid
    rw [h.send] at hsend
    rw [h.recv]
    split_ifs at hsend with hfresh
    · rw [if_pos hfresh.1]
      exact ⟨hfresh.2, rfl⟩
    · obtain ⟨hbidi, hrecv⟩ := hs.send_recv id hid hsend
      refine ⟨hbidi, ?_⟩
      split_ifs
      · rfl
      · exact hrecv

lemma Remote.createWhileNew_opens (fuel : ℕ) (h : s.Remote) (id : StreamId) :
    Opens s (createWhileNew fuel s id).1 :=
  createWhileNew_induction (fun _ streamType hs =>
    hs.trans ((hs.remote h).createNextRemote_opens streamType)) fuel (.refl s) id

lemma Remote.obtainStream_opens (h : s.Remote) (id : StreamId) : Opens s (s.obtainStream id).1 :=
  obtainStream_induction (fun _ streamType hs =>
    hs.trans ((hs.remote h).createNextRemote_opens streamType)) (.refl s) id

/-- The limit on the streams of the peer that was announced. -/
def advertised (s : Streams) (streamType : StreamType) : ℕ :=
  (s.remoteStreamLimits.get streamType).streamsFc.maxAllowed

lemma isAllowed_iff (s : Streams) (id : StreamId) :
    (s.remoteStreamLimits.get id.streamType).isAllowed id = true ↔
      id.index < s.advertised id.streamType := by
  exact decide_eq_true_iff

/-- **A stream beyond the limit is refused**, and no stream is created. -/
theorem obtainStream_limit (s : Streams) {id : StreamId}
    (hid : id.isRemoteInitiated s.role = true) (hlimit : s.advertised id.streamType ≤ id.index) :
    s.obtainStream id = (s, .error .streamLimit) := by
  have hnot : (s.remoteStreamLimits.get id.streamType).isAllowed id = false := by
    rw [← not_eq_true, isAllowed_iff]
    omega
  have herror : (s.remoteStreamLimits.get id.streamType).isNewStream id = .error .streamLimit := by
    simp [isNewStream, hnot]
  have hcreate : s.ensureCreatedIfRemote id = (s, .error .streamLimit) := by
    unfold ensureCreatedIfRemote
    rw [hid]
    show createWhileNew (id.asU64 + 1) s id = _
    rw [createWhileNew, herror]
  unfold obtainStream
  rw [hcreate]

lemma createWhileNew_ok (fuel : ℕ) (s : Streams) (id : StreamId)
    (hlimit : id.index < s.advertised id.streamType) : (createWhileNew fuel s id).2 = .ok () := by
  induction fuel generalizing s with
  | zero => rfl
  | succ fuel ih =>
    have hnew : (s.remoteStreamLimits.get id.streamType).isNewStream id =
        .ok ((s.remoteStreamLimits.get id.streamType).nextStream ≤ id) := by
      simp [isNewStream, (isAllowed_iff s id).mpr hlimit]
    rw [createWhileNew, hnew]
    cases decide ((s.remoteStreamLimits.get id.streamType).nextStream ≤ id) with
    | false => rfl
    | true =>
      apply ih
      have hkeep : (s.createNextRemote id.streamType).advertised id.streamType =
          s.advertised id.streamType := by
        cases id.streamType <;> rfl
      rwa [hkeep]

/-- **A stream within the limit is obtained**, and counts as opened from then on. -/
theorem Remote.obtainStream_ok (h : s.Remote) {id : StreamId}
    (hid : id.isRemoteInitiated s.role = true) (hlimit : id.index < s.advertised id.streamType) :
    (∃ halves, (s.obtainStream id).2 = .ok halves) ∧
      id.index < (s.obtainStream id).1.opened id.streamType := by
  have hcreate : s.ensureCreatedIfRemote id = createWhileNew (id.asU64 + 1) s id := by
    unfold ensureCreatedIfRemote
    rw [hid]
    rfl
  have hopens := h.createWhileNew_opens (id.asU64 + 1) id
  have hok := createWhileNew_ok (id.asU64 + 1) s id hlimit
  have hdone := createWhileNew_done (id.asU64 + 1) s id (by omega)
  unfold obtainStream
  rw [hcreate]
  generalize createWhileNew (id.asU64 + 1) s id = r at hopens hok hdone ⊢
  obtain ⟨s', r⟩ := r
  dsimp only at hopens hok hdone ⊢
  subst hok
  rw [if_neg (by rw [hopens.role, hid]; simp)]
  refine ⟨⟨_, rfl⟩, ?_⟩
  have hallowed : (s'.remoteStreamLimits.get id.streamType).isAllowed id = true := by
    rw [isAllowed_iff]
    unfold advertised
    rwa [hopens.streamsFc]
  have hlt : id < (s'.remoteStreamLimits.get id.streamType).nextStream := by
    by_contra hle
    apply hdone
    simp [isNewStream, hallowed, not_lt.mp hle]
  have hlt' : id.asU64 < (s'.remoteStreamLimits.get id.streamType).nextStream.asU64 := hlt
  have hmod := (StreamId.remote_iff id _ s.role).mp ⟨rfl, hid⟩
  have hnext := (hopens.remote h).next id.streamType
  rw [hopens.role] at hnext
  show id.index < (s'.remoteStreamLimits.get id.streamType).nextStream.index
  rw [StreamId.index_eq, StreamId.index_eq]
  omega

lemma Remote.obtainStream_keeps (h : s.Remote) (id : StreamId) :
    (∀ id' ss, s.send.get? id' = some ss → (s.obtainStream id).1.send.get? id' = some ss) ∧
      ∀ id' rs, s.recv.get? id' = some rs → (s.obtainStream id).1.recv.get? id' = some rs := by
  have hopens := h.obtainStream_opens id
  have hold (id' : StreamId) (hget : (s.recv.get? id').isSome = true) :
      ¬ Fresh s (s.obtainStream id).1 id' :=
    fun hfresh => absurd (h.recv_lt id' hfresh.1 hget) (not_lt.mpr hfresh.2.1)
  refine ⟨fun id' ss hget => ?_, fun id' rs hget => ?_⟩
  · rw [hopens.send, if_neg, hget]
    rintro ⟨hfresh, -⟩
    have hsome : (s.send.get? id').isSome = true := by rw [hget]; rfl
    exact hold id' (h.send_recv id' hfresh.1 hsome).2 hfresh
  · rw [hopens.recv, if_neg, hget]
    exact hold id' (by rw [hget]; rfl)

end Streams

/-!
## The streams of the peer in a run

Streams of the peer are created in the order of their index, each of them once, and only within the
limit that was announced; when one is removed, the peer is allowed another one
(`Streams.remote_streams_once`).
-/

open List

/-! ### Removing streams -/

namespace SendStreams

lemma get?_of_removeEnded {ss : SendStreams} {id : StreamId} {stream : SendStream}
    (hget : ss.removeEnded.1.get? id = some stream) : ss.get? id = some stream := by
  unfold removeEnded at hget
  split_ifs at hget
  · exact hget
  · rw [get?, IndexMap.get?_eq_some_iff] at hget ⊢
    exact (IndexMap.mem_retain.mp hget).1

end SendStreams

namespace RecvStreams

variable (rs : RecvStreams) (sendStreams : SendStreams)

lemma removeEnded_role : (rs.removeEnded sendStreams).1.role = rs.role := by
  unfold removeEnded
  split_ifs <;> rfl

lemma get?_removeEnded (id : StreamId) (stream : RecvStream) :
    (rs.removeEnded sendStreams).1.get? id = some stream ↔
      rs.get? id = some stream ∧ (rs.hasEnded = true → dead sendStreams id stream = false) := by
  unfold removeEnded
  split_ifs with hended
  · simp only [not_eq_true'] at hended
    simp [hended]
  · simp only [not_eq_true', not_eq_false] at hended
    simp only [get?, get?_eq_some_iff, mem_retain, not_eq_true', hended,
      true_implies]

/-- The streams of the peer, of a type, that are removed. -/
def gone (rs : RecvStreams) (sendStreams : SendStreams) (streamType : StreamType) : List StreamId :=
  rs.streams.keys.filter fun id => id.isRemoteInitiated rs.role && id.streamType = streamType &&
    !((rs.removeEnded sendStreams).1.get? id).isSome

lemma isSome_get?_removeEnded {rs : RecvStreams} {sendStreams : SendStreams}
    {e : StreamId × RecvStream} (he : e ∈ rs.streams.entries) :
    ((rs.removeEnded sendStreams).1.get? e.1).isSome = true ↔
      (rs.hasEnded = true → dead sendStreams e.1 e.2 = false) := by
  have hget : rs.get? e.1 = some e.2 := get?_eq_some_iff.mpr he
  rw [Option.isSome_iff_exists]
  simp only [get?_removeEnded, hget, Option.some.injEq]
  constructor
  · rintro ⟨_, rfl, hdead⟩
    exact hdead
  · intro hdead
    exact ⟨e.2, rfl, hdead⟩

lemma removeEnded_count :
    (rs.removeEnded sendStreams).2 =
      ((rs.gone sendStreams .biDi).length, (rs.gone sendStreams .uniDi).length) := by
  have hgone (streamType : StreamType) : (rs.gone sendStreams streamType).length =
      (rs.streams.entries.filter fun e => e.1.isRemoteInitiated rs.role &&
        e.1.streamType = streamType && (rs.hasEnded && dead sendStreams e.1 e.2)).length := by
    unfold gone OrdMap.keys
    rw [filter_map, length_map]
    congr 1
    apply filter_congr
    intro e he
    have hdead : (!((rs.removeEnded sendStreams).1.get? e.1).isSome) =
        (rs.hasEnded && dead sendStreams e.1 e.2) := by
      rw [Bool.eq_iff_iff, Bool.not_eq_true', ← Bool.not_eq_true, isSome_get?_removeEnded he]
      simp
    rw [← hdead]
    rfl
  rw [hgone, hgone]
  unfold removeEnded
  cases rs.hasEnded with
  | false => simp
  | true =>
    simp only [Bool.not_true, Bool.false_eq_true, if_false, filter_filter, Bool.true_and]
    congr 3
    all_goals
      funext e
      unfold StreamId.streamType
      cases e.1.isBidi <;> simp [Bool.and_comm]

end RecvStreams

namespace Streams

variable {s s' : Streams} (id : StreamId)

lemma get?_cleanup_recv (s : Streams) (rs : RecvStream) :
    s.cleanupClosedStreams.recv.get? id = some rs ↔
      s.recv.get? id = some rs ∧
        ((s.recv.setEnded s.send.removeEnded.2).hasEnded = true →
          dead s.cleanupClosedStreams.send id rs = false) :=
  get?_removeEnded (s.recv.setEnded s.send.removeEnded.2) s.send.removeEnded.1 id rs

lemma next_cleanup (s : Streams) (streamType : StreamType) :
    (s.cleanupClosedStreams.remoteStreamLimits.get streamType).nextStream =
      (s.remoteStreamLimits.get streamType).nextStream := by
  cases streamType <;> rfl

/-- A receiving half of a bidirectional stream outlives the sending half. -/
lemma Remote.cleanupClosedStreams (h : s.Remote) : s.cleanupClosedStreams.Remote where
  recvRole := by
    rw [show s.cleanupClosedStreams.role = s.role from rfl, ← h.recvRole]
    exact removeEnded_role _ _
  roleBit := h.roleBit
  next streamType := by
    rw [next_cleanup]
    exact h.next streamType
  recv_lt id hid hrecv := by
    obtain ⟨rs, hget⟩ := Option.isSome_iff_exists.mp hrecv
    obtain ⟨hget, -⟩ := (s.get?_cleanup_recv id rs).mp hget
    have hlt := h.recv_lt id hid (Option.isSome_iff_exists.mpr ⟨rs, hget⟩)
    unfold opened at hlt ⊢
    rwa [next_cleanup]
  send_recv id hid hsend := by
    obtain ⟨ss, hget⟩ := Option.isSome_iff_exists.mp hsend
    have hbefore := SendStreams.get?_of_removeEnded hget
    obtain ⟨hbidi, hrecv⟩ := h.send_recv id hid (Option.isSome_iff_exists.mpr ⟨ss, hbefore⟩)
    obtain ⟨rs, hrs⟩ := Option.isSome_iff_exists.mp hrecv
    refine ⟨hbidi, Option.isSome_iff_exists.mpr ⟨rs, (s.get?_cleanup_recv id rs).mpr ⟨hrs, ?_⟩⟩⟩
    have hexists : s.cleanupClosedStreams.send.exists id = true := hsend
    intro _
    simp [dead, StreamId.isUni, hbidi, hexists]

/-- The streams of the peer, of a type, that a clean-up removes. -/
def removed (s : Streams) (streamType : StreamType) : List StreamId :=
  s.recv.streams.keys.filter fun id =>
    id.isRemoteInitiated s.role && id.streamType = streamType && !s.cleanupClosedStreams.present id

lemma Remote.present_eq (h : s.Remote) {id : StreamId} (hid : id.isRemoteInitiated s.role = true) :
    s.present id = (s.recv.get? id).isSome := by
  unfold present
  cases hsend : (s.send.get? id).isSome with
  | false => rfl
  | true => rw [(h.send_recv id hid hsend).2, Bool.or_self]

variable (streamType : StreamType)

lemma Remote.mem_removed (h : s.Remote) :
    id ∈ s.removed streamType ↔ id.isRemoteInitiated s.role = true ∧ id.streamType = streamType ∧
      s.present id = true ∧ s.cleanupClosedStreams.present id = false := by
  unfold removed
  rw [mem_filter, mem_keys_iff]
  simp only [and_eq_true, decide_eq_true_iff, not_eq_true']
  constructor
  · rintro ⟨hget, ⟨hid, htype⟩, hgone⟩
    refine ⟨hid, htype, ?_, hgone⟩
    rw [h.present_eq hid]
    exact hget
  · rintro ⟨hid, htype, hthere, hgone⟩
    rw [h.present_eq hid] at hthere
    exact ⟨hthere, ⟨hid, htype⟩, hgone⟩

lemma Remote.removed_eq_gone (h : s.Remote) :
    s.removed streamType = gone (s.recv.setEnded s.send.removeEnded.2)
      s.send.removeEnded.1 streamType := by
  apply filter_congr
  intro id _
  show _ = (id.isRemoteInitiated s.recv.role && _ && !(s.cleanupClosedStreams.recv.get? id).isSome)
  rw [h.recvRole]
  cases hid : id.isRemoteInitiated s.role with
  | false => simp
  | true => rw [h.cleanupClosedStreams.present_eq hid]

/-- **The peer gets back a stream for each that is removed.** -/
theorem Remote.cleanup_credit (h : s.Remote) :
    (s.cleanupClosedStreams.remoteStreamLimits.get streamType).streamsFc =
      (s.remoteStreamLimits.get streamType).streamsFc.addRetiredStreams
        (s.removed streamType).length := by
  have hcount := removeEnded_count (s.recv.setEnded s.send.removeEnded.2)
    s.send.removeEnded.1
  rw [h.removed_eq_gone]
  cases streamType with
  | biDi =>
    exact congrArg s.remoteStreamLimits.biDi.streamsFc.addRetiredStreams (congrArg Prod.fst hcount)
  | uniDi =>
    exact congrArg s.remoteStreamLimits.uniDi.streamsFc.addRetiredStreams (congrArg Prod.snd hcount)

/-! ### Steps -/

/-- What a step does to the streams of the peer. -/
structure Evolves (s s' : Streams) : Prop where
  remote : s'.Remote
  role : s'.role = s.role
  opened_le : ∀ streamType, s.opened streamType ≤ s'.opened streamType
  old_or_fresh : ∀ id, id.isRemoteInitiated s.role = true → (s'.recv.get? id).isSome = true →
    (s.recv.get? id).isSome = true ∨ Fresh s s' id
  fresh : ∀ id, Fresh s s' id → (s'.recv.get? id).isSome = true

lemma evolves_of_next (hremote : s'.Remote) (hrole : s'.role = s.role)
    (hnext : ∀ streamType, (s'.remoteStreamLimits.get streamType).nextStream =
      (s.remoteStreamLimits.get streamType).nextStream)
    (hrecv : ∀ id, id.isRemoteInitiated s.role = true → (s'.recv.get? id).isSome = true →
      (s.recv.get? id).isSome = true) : Evolves s s' := by
  have hopened (streamType : StreamType) : s'.opened streamType = s.opened streamType :=
    congrArg StreamId.index (hnext streamType)
  refine ⟨hremote, hrole, fun streamType => (hopened streamType).ge,
    fun id hid hsome => .inl (hrecv id hid hsome), fun id hfresh => ?_⟩
  have hlt := hfresh.2.2
  rw [hopened] at hlt
  exact absurd hlt (not_lt.mpr hfresh.2.1)

lemma SameStreams.evolves (h : SameStreams s s') (hs : s.Remote) : Evolves s s' :=
  evolves_of_next (h.remote hs) h.role h.next fun id hid hsome => by rwa [h.recv id hid] at hsome

lemma Opens.evolves (h : Opens s s') (hs : s.Remote) : Evolves s s' := by
  refine ⟨h.remote hs, h.role, h.opened_le, fun id _ hsome => ?_, fun id hfresh => ?_⟩
  · by_cases hfresh : Fresh s s' id
    · exact .inr hfresh
    · rw [h.recv, if_neg hfresh] at hsome
      exact .inl hsome
  · rw [h.recv, if_pos hfresh]
    rfl

lemma Evolves.same {s'' : Streams} (h : Evolves s s') (h' : SameStreams s' s'') :
    Evolves s s'' := by
  have hfresh (id : StreamId) : Fresh s s'' id ↔ Fresh s s' id := by
    unfold Fresh
    rw [h'.opened]
  refine ⟨h'.remote h.remote, h'.role.trans h.role, fun streamType => ?_, fun id hid hsome => ?_,
    fun id hid => ?_⟩
  · rw [h'.opened]
    exact h.opened_le streamType
  · rw [h'.recv id (by rwa [h.role])] at hsome
    rw [hfresh]
    exact h.old_or_fresh id hid hsome
  · rw [h'.recv id (by rw [h.role]; exact hid.1)]
    exact h.fresh id ((hfresh id).mp hid)

lemma Remote.obtainStream_evolves (h : s.Remote) : Evolves s (s.obtainStream id).1 :=
  (h.obtainStream_opens id).evolves h

lemma Follows.evolves {quiet : Prop} (hs : Follows quiet s s') (h : s.Remote) : Evolves s s' := by
  cases hs with
  | keeps hs => exact hs.same.evolves h
  | obtain id hs => exact (h.obtainStream_evolves id).same hs.same

lemma Remote.cleanup_evolves (h : s.Remote) : Evolves s s.cleanupClosedStreams := by
  refine evolves_of_next h.cleanupClosedStreams rfl (next_cleanup s) fun id _ hsome => ?_
  obtain ⟨rs, hget⟩ := Option.isSome_iff_exists.mp hsome
  exact Option.isSome_iff_exists.mpr ⟨rs, ((s.get?_cleanup_recv id rs).mp hget).1⟩

/-- All streams may be dropped: those of the peer still count as opened. -/
lemma Remote.empty_evolves (h : s.Remote) (hrole : s'.role = s.role)
    (hbit : s'.localStreamLimits.roleBit = StreamId.roleBit s.role)
    (hlimits : s'.remoteStreamLimits = s.remoteStreamLimits)
    (hsend : s'.send = {}) (hrecv : s'.recv = s.recv.clear) : Evolves s s' := by
  have hnone (id : StreamId) : s'.recv.get? id = none := by
    rw [hrecv]
    rfl
  refine evolves_of_next ⟨?_, ?_, fun streamType => ?_, fun id _ hsome => ?_, fun id _ hsome => ?_⟩
    hrole (fun streamType => by rw [hlimits]) fun id _ hsome => ?_
  · rw [hrecv, hrole]
    exact h.recvRole
  · rw [hbit, hrole]
  · rw [hlimits, hrole]
    exact h.next streamType
  · rw [hnone] at hsome
    cases hsome
  · rw [hsend] at hsome
    cases hsome
  · rw [hnone] at hsome
    cases hsome

lemma Remote.step_evolves (h : s.Remote) (op : Op) : Evolves s (s.step op) := by
  cases op with
  | streamCreate streamType => exact (h.same_streamCreate streamType).evolves h
  | zeroRttRejected => exact h.empty_evolves rfl rfl rfl rfl rfl
  | clearStreams => exact h.empty_evolves rfl h.roleBit rfl rfl rfl
  | cleanupClosedStreams => exact h.cleanup_evolves
  | _ => exact (step_follows s rfl).evolves h

/-! ### Runs -/

lemma remote_new (role : Role) (localParams : TransportParameters) :
    (new role localParams).Remote where
  recvRole := rfl
  roleBit := rfl
  next streamType := by cases streamType <;> cases role <;> rfl
  recv_lt id _ hsome := by cases hsome
  send_recv id _ hsome := by cases hsome

/-- The streams of the peer that came into being from `s` to `s'`. -/
def created (s s' : Streams) : List StreamId :=
  s'.recv.streams.keys.filter fun id => id.isRemoteInitiated s.role && !s.present id

/-- The streams of the peer that were created in a run. -/
def everCreated : Streams → List Op → List StreamId
  | _, [] => []
  | s, op :: ops => created s (s.step op) ++ everCreated (s.step op) ops

lemma Evolves.mem_created (h : Evolves s s') (hs : s.Remote) (id : StreamId) :
    id ∈ created s s' ↔ Fresh s s' id := by
  unfold created
  rw [mem_filter, mem_keys_iff, and_eq_true, not_eq_true']
  constructor
  · rintro ⟨hsome, hid, hnot⟩
    rw [hs.present_eq hid] at hnot
    obtain hold | hfresh := h.old_or_fresh id hid hsome
    · rw [hnot] at hold
      cases hold
    · exact hfresh
  · intro hfresh
    refine ⟨h.fresh id hfresh, hfresh.1, ?_⟩
    rw [hs.present_eq hfresh.1, ← not_eq_true]
    exact fun hold => absurd (hs.recv_lt id hfresh.1 hold) (not_lt.mpr hfresh.2.1)

lemma nodup_created (s s' : Streams) : (created s s').Nodup := (nodup_keys _).filter _

/-- What a run preserves: the streams of the peer that it creates are those between the counts at
its ends, each created once. -/
lemma Remote.run (ops : List Op) (h : s.Remote) :
    (s.run ops).Remote ∧ (s.run ops).role = s.role ∧
      (∀ streamType, s.opened streamType ≤ (s.run ops).opened streamType) ∧
      (∀ id, id ∈ everCreated s ops ↔ Fresh s (s.run ops) id) ∧ (everCreated s ops).Nodup := by
  induction ops generalizing s with
  | nil =>
    refine ⟨h, rfl, fun _ => le_rfl, fun id => ?_, nodup_nil⟩
    exact iff_of_false not_mem_nil (not_fresh_self s id)
  | cons op ops ih =>
    have hstep := h.step_evolves op
    obtain ⟨hremote, hrole, hle, hmem, hnodup⟩ := ih hstep.remote
    refine ⟨hremote, hrole.trans hstep.role,
      fun streamType => (hstep.opened_le streamType).trans (hle streamType), fun id => ?_, ?_⟩
    · rw [everCreated, mem_append, hstep.mem_created h, hmem]
      exact (fresh_trans hstep.role hstep.opened_le hle id).symm
    · refine nodup_append'.mpr ⟨nodup_created s _, hnodup, fun id hid hid' => ?_⟩
      have hlt := ((hstep.mem_created h id).mp hid).2.2
      exact absurd hlt (not_lt.mpr ((hmem id).mp hid').2.1)

/-- The list has the streams of the peer of each type up to some index, each of them once. -/
def Contiguous (role : Role) (ids : List StreamId) : Prop :=
  ids.Nodup ∧ ∀ streamType, ∃ k, ∀ id, (id ∈ ids ∧ id.streamType = streamType) ↔
    (id.isRemoteInitiated role = true ∧ id.streamType = streamType ∧ id.index < k)

lemma opened_new (role : Role) (localParams : TransportParameters) :
    (new role localParams).opened streamType = 0 := by
  have hinit (streamType : StreamType) (role : Role) :
      (StreamId.init streamType role).index = 0 := by
    cases streamType <;> cases role <;> decide
  cases streamType <;> exact hinit _ role.remote

lemma contiguous_of_fresh {role : Role} {localParams : TransportParameters}
    {ids : List StreamId} (hnodup : ids.Nodup)
    (hmem : ∀ id, id ∈ ids ↔ Fresh (new role localParams) s id) : Contiguous role ids := by
  refine ⟨hnodup, fun streamType => ⟨s.opened streamType, fun id => ?_⟩⟩
  rw [hmem]
  unfold Fresh
  rw [opened_new]
  constructor
  · rintro ⟨⟨hid, -, hlt⟩, rfl⟩
    exact ⟨hid, rfl, hlt⟩
  · rintro ⟨hid, rfl, hlt⟩
    exact ⟨⟨hid, Nat.zero_le _, hlt⟩, rfl⟩

/-- **Streams of the peer are created in order, once, and within the limit.**  At any time:

* those ever created are, for each type, the ones up to some index, also after a stream was
  obtained, and each came into being once; obtaining a stream leaves those that are there alone;
* a stream at or beyond the limit that was announced is refused, and nothing is created; a stream
  within the limit is obtained, and has been created then;
* a clean-up adds the number of the streams of a type that it removes to those that are retired, and
  thereby to the limit that is announced next; a frame is pending for a higher limit then. -/
theorem remote_streams_once (role : Role) (localParams : TransportParameters) (ops : List Op) :
    let s := (new role localParams).run ops
    let ever := everCreated (new role localParams) ops
    Contiguous role ever ∧
    (∀ id, Contiguous role (ever ++ created s (s.obtainStream id).1) ∧
      (∀ id' ss, s.send.get? id' = some ss → (s.obtainStream id).1.send.get? id' = some ss) ∧
      ∀ id' rs, s.recv.get? id' = some rs → (s.obtainStream id).1.recv.get? id' = some rs) ∧
    (∀ id, id.isRemoteInitiated role = true →
      (s.advertised id.streamType ≤ id.index → s.obtainStream id = (s, .error .streamLimit)) ∧
      (id.index < s.advertised id.streamType →
        (∃ halves, (s.obtainStream id).2 = .ok halves) ∧
          id ∈ ever ++ created s (s.obtainStream id).1)) ∧
    ∀ streamType,
      let fc := (s.remoteStreamLimits.get streamType).streamsFc
      let fc' := (s.cleanupClosedStreams.remoteStreamLimits.get streamType).streamsFc
      fc'.retired = fc.retired + (s.removed streamType).length ∧ fc'.maxActive = fc.maxActive ∧
        (s.removed streamType ≠ [] → fc'.maxAllowed < fc'.nextLimit → fc'.framePending = true) ∧
        (s.removed streamType).Nodup ∧
        ∀ id, id ∈ s.removed streamType ↔ id.isRemoteInitiated role = true ∧
          id.streamType = streamType ∧ s.present id = true ∧
          s.cleanupClosedStreams.present id = false := by
  intro s ever
  obtain ⟨hremote, hrole, hle, hmem, hnodup⟩ := (remote_new role localParams).run ops
  have hrole : s.role = role := hrole
  -- What is created when a stream is obtained comes after all that was created before.
  have hobtain (id id' : StreamId) : id' ∈ ever ++ created s (s.obtainStream id).1 ↔
      Fresh (new role localParams) (s.obtainStream id).1 id' := by
    have hevolves := hremote.obtainStream_evolves id
    rw [mem_append, hmem, hevolves.mem_created hremote]
    exact (fresh_trans hrole hle hevolves.opened_le id').symm
  refine ⟨contiguous_of_fresh hnodup hmem, fun id => ⟨contiguous_of_fresh ?_ (hobtain id),
    hremote.obtainStream_keeps id⟩, fun id hid => ⟨fun hlimit => ?_, fun hlimit => ?_⟩,
    fun streamType => ?_⟩
  · refine nodup_append'.mpr ⟨hnodup, nodup_created s _, fun id' hold hnew => ?_⟩
    have hlo := (((hremote.obtainStream_evolves id).mem_created hremote id').mp hnew).2.1
    exact absurd ((hmem id').mp hold).2.2 (not_lt.mpr hlo)
  · exact obtainStream_limit s (by rwa [hrole]) hlimit
  · obtain ⟨hok, hlt⟩ := hremote.obtainStream_ok (by rwa [hrole]) hlimit
    refine ⟨hok, (hobtain id id).mpr ⟨hid, ?_, hlt⟩⟩
    rw [opened_new]
    omega
  · intro fc fc'
    have hcredit : fc' = fc.addRetiredStreams (s.removed streamType).length :=
      hremote.cleanup_credit streamType
    obtain ⟨hretired, hactive, hpending⟩ := fc.addRetiredStreams_spec (s.removed streamType).length
    rw [← hcredit] at hretired hactive hpending
    refine ⟨hretired, hactive, fun hne => hpending (length_pos_iff.mpr hne),
      (nodup_keys _).filter _, fun id => ?_⟩
    rw [hremote.mem_removed, hrole]

end Streams

end Neqo
