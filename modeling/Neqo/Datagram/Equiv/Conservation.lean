import Neqo.Codec.Equiv
import Neqo.Datagram.Equiv.Run

/-!
# No datagram is lost

A session's datagrams are queued, written, dropped as too big, expired, evicted or, when the queue
is removed, discarded. Each operation is accounted for by a ledger of each session (`Op.ledger`,
`step_spec`), and so is every run (`run_conserves`). No assertion fails if time does not go
backwards: active queues have a next datagram, what is written with a length fits into the packet,
and a datagram that is queued is not older than those that are.
-/

namespace Neqo.QuicDatagrams

open DatagramQueue Moves Multiset Option OrdMap

open DatagramQueue (Moves takenLedger)

variable {dg dg' : QuicDatagrams} {sid session : StreamId}

/-! ### The queues of sessions -/

/-- The queues of all sessions are right, including those that would be created. -/
def Inv (dg : QuicDatagrams) : Prop := ∀ sid, (dg.queueMut sid).Inv

variable {queue q : DatagramQueue}

lemma queueMut_of_get? (h : dg.queues.get? session = some queue) : dg.queueMut session = queue := by
  rw [queueMut, h]
  rfl

lemma queueMut_insert (sid session : StreamId) (queue : DatagramQueue)
    (hqueues : dg'.queues = dg.queues.insert session queue) :
    dg'.queueMut sid = if sid = session then queue else dg.queueMut sid := by
  unfold queueMut
  rw [hqueues, get?_insert]
  split_ifs <;> rfl

lemma moves_refl (hinv : dg.Inv) (sid : StreamId) : Moves (dg.queueMut sid) {} (dg.queueMut sid) :=
  counts (hinv sid) ⟨rfl, rfl, rfl, rfl, rfl⟩ rfl rfl rfl

lemma moves_insert {δ : Ledger} (hinv : dg.Inv) (h : Moves (dg.queueMut session) δ queue)
    (hqueues : dg'.queues = dg.queues.insert session queue) (sid : StreamId) :
    Moves (dg.queueMut sid) (if session = sid then δ else {}) (dg'.queueMut sid) := by
  rw [queueMut_insert sid session queue hqueues]
  by_cases hsid : sid = session
  · rw [hsid, if_pos rfl, if_pos rfl]
    exact h
  · rw [if_neg (Ne.symm hsid), if_neg hsid]
    exact moves_refl hinv sid

lemma Moves.expireQueue (h : queue.Inv) (now defaultMaxAge : ℕ) :
    Moves queue (queue.expiryLedger now defaultMaxAge) (expireQueue queue now defaultMaxAge) :=
  (expire h now defaultMaxAge).resumeIfUnblocked

/-! ### Writing -/

/-- The ledger of what was taken off the queue of a session. -/
def takenBy (sid : StreamId) : Taken → Ledger
  | [] => {}
  | (session, disposition, d) :: taken =>
    (if session = sid then takenLedger d disposition else {}).add (takenBy sid taken)

lemma nextActiveSessionFrom_eq_some (hinv : dg.Inv) {start : StreamId}
    (h : dg.nextActiveSessionFrom start = some session) :
    ∃ queue, dg.queues.get? session = some queue ∧ queue.entries ≠ [] := by
  obtain ⟨e, he, rfl⟩ := map_eq_some_iff.mp h
  have hmem : dg.queues.Mem e.1 e.2 := by
    rcases List.mem_append.mp (List.mem_of_find?_eq_some he) with hmem | hmem
    · exact (mem_rangeFrom.mp hmem).1
    · exact (mem_rangeBelow.mp hmem).1
  have hget := get?_eq_some_iff.mpr hmem
  have hqueue : e.2.Inv := queueMut_of_get? hget ▸ hinv e.1
  refine ⟨e.2, hget, fun hnil => ?_⟩
  have hempty : e.2.isEmpty = true := by
    unfold isEmpty
    rw [hqueue.count, hnil]
    rfl
  have hactive := List.find?_some he
  rw [hempty] at hactive
  cases hactive

lemma length_datagrams_insert {queue' : DatagramQueue} (hget : dg.queues.get? session = some queue)
    (hlength : queue.entries.length = 1 + queue'.entries.length)
    (hqueues : dg'.queues = dg.queues.insert session queue') :
    dg.datagrams.length = 1 + dg'.datagrams.length := by
  unfold datagrams
  have hold := (gather_of_get? (f := fun _ q => DatagramQueue.datagrams q) hget).length_eq
  have hnew := (gather_insert (fun _ q => DatagramQueue.datagrams q) dg.queues session
    queue').length_eq
  rw [List.length_append, length_datagrams] at hold hnew
  rw [hqueues]
  omega

lemma takeFromSessionQueue_spec (hinv : dg.Inv) (hget : dg.queues.get? session = some queue)
    (hne : queue.entries ≠ []) (disposition : Disposition) :
    ∃ d dg', dg.takeFromSessionQueue session disposition = .ok (some (d, dg')) ∧
      queue.peekNextLen = some d.data.bytes.length ∧
      dg.datagrams.length = 1 + dg'.datagrams.length ∧
      ∀ sid, Moves (dg.queueMut sid) (if session = sid then takenLedger d disposition else {})
        (dg'.queueMut sid) := by
  have hqueue : queue.Inv := queueMut_of_get? hget ▸ hinv session
  obtain ⟨d, queue', htake, hpeek⟩ := exists_takeNext hqueue hne
  have hmoves := (takeNext hqueue htake disposition).resumeIfUnblocked
  obtain ⟨e, -, hsheds⟩ := DatagramQueue.Sheds.takeNext hqueue htake
  have hlength : queue.entries.length = 1 + queue'.entries.length := by
    rw [hsheds.perm.length_eq, List.length_append]
    rfl
  unfold takeFromSessionQueue
  rw [hget]
  dsimp only
  rw [htake]
  refine ⟨d, _, rfl, hpeek, length_datagrams_insert hget ?_ rfl,
    moves_insert hinv (queueMut_of_get? hget ▸ hmoves) rfl⟩
  rw [(resumeIfUnblocked_sameContents _).entries, hlength]
  cases disposition <;> rfl

/-- A frame with a length is encoded within the limit of the packet; one without fills it. -/
lemma exists_encodeDatagram (dg : QuicDatagrams) (builder : Builder) (data : Bytes) :
    ∃ builder', encodeDatagram data (dg.frameTypeFor data.length builder) builder =
    .ok builder' := by
  unfold frameTypeFor
  dsimp only
  split_ifs with hlen
  · have hspace : data.length + 1 + Encoder.varintLen data.length + 2 ≤
        builder.limit - builder.bytes.length := hlen.2
    have hlimit : (builder.encodeFrame .datagramWithLen (Encoder.encodeVvec data)).len ≤
        builder.limit := by
      unfold Builder.encodeFrame Builder.encode Builder.len Encoder.encodeVvec
      simp only [List.length_append, Encoder.length_encodeVarint]
      change builder.bytes.length + (1 + _) ≤ builder.limit
      omega
    exact ⟨_, if_pos hlimit⟩
  · exact ⟨_, if_pos (le_refl _)⟩

/-- Writing frames succeeds, and the ledgers of the sessions account for what was taken. -/
def Writes (dg : QuicDatagrams) (taken : Taken)
    (result : Except Failure (QuicDatagrams × Builder × Taken)) : Prop :=
  ∃ dg' builder' new, result = .ok (dg', builder', taken ++ new) ∧
    ∀ sid, Moves (dg.queueMut sid) (takenBy sid new) (dg'.queueMut sid)

lemma writeLoop_spec (headerEnd : ℕ) (fullMtu : Bool) {fuel : ℕ} (hinv : dg.Inv)
    (hfuel : dg.datagrams.length < fuel) (builder : Builder) (taken : Taken) :
    Writes dg taken (writeLoop headerEnd fullMtu fuel dg builder taken) := by
  induction fuel generalizing dg builder taken with
  | zero => omega
  | succ fuel ih =>
    have hstop : Writes dg taken (.ok (dg, builder, taken)) :=
      ⟨dg, builder, [], by rw [List.append_nil], moves_refl hinv⟩
    unfold writeLoop
    cases hnext : dg.nextActiveSessionFrom dg.queueRrNext with
    | none => exact hstop
    | some session =>
      obtain ⟨queue, hget, hne⟩ := nextActiveSessionFrom_eq_some hinv hnext
      -- One datagram is taken, and then the loop goes on.
      have hgo {d : QueuedDatagram} {dg₁ : QuicDatagrams} {disposition : Disposition}
          (hlength : dg.datagrams.length = 1 + dg₁.datagrams.length)
          (hmoves : ∀ sid, Moves (dg.queueMut sid)
            (if session = sid then takenLedger d disposition else {}) (dg₁.queueMut sid))
          (builder : Builder) : Writes dg taken
            (writeLoop headerEnd fullMtu fuel dg₁ builder
            (taken ++ [(session, disposition, d)])) := by
        obtain ⟨dg', builder', new, heq, hrest⟩ :=
          ih (fun sid => (hmoves sid).inv) (by omega) builder (taken ++ [(session, disposition, d)])
        refine ⟨dg', builder', (session, disposition, d) :: new, ?_,
          fun sid => (hmoves sid).trans (hrest sid)⟩
        rw [heq, List.append_assoc]
        rfl
      dsimp only
      rw [hget, bind_some]
      obtain ⟨d, dg₁, hdrop, hpeek, hlength, hmoves⟩ :=
        takeFromSessionQueue_spec hinv hget hne .dropTooBig
      obtain ⟨d', dg₂, hsend, hpeek', hlength', hmoves'⟩ :=
        takeFromSessionQueue_spec hinv hget hne .send
      rw [hpeek']
      dsimp only
      split_ifs with hleave hbig
      · exact hstop
      · rw [hdrop]
        exact hgo hlength hmoves builder
      · obtain ⟨builder', hencode⟩ := exists_encodeDatagram dg₂ builder d'.data.bytes
        rw [hsend]
        dsimp only
        rw [hencode]
        exact hgo hlength' hmoves' builder'

/-! ### Operations -/

/-- The operations on the datagrams of a connection. -/
inductive Op where
  | enqueueDatagram (session : StreamId) (data : ByteVec) (id : Option DatagramId) (now : ℕ)
      (sendGroupId : SendGroupId) (sendOrder : SendOrder) (minRtt : ℕ)
  | writeFrames (builder : Builder) (headerEnd : ℕ) (fullMtu : Bool)
  | expireDatagrams (now minRtt : ℕ)
  | expireSessionDatagrams (session : StreamId) (now minRtt : ℕ)
  | setDatagramMaxAge (session : StreamId) (maxAge : Option ℕ) (now minRtt : ℕ)
  | setMaxBufferedDatagrams (session : StreamId) (mark : Option ℕ+)
  | setRemoteDatagramSize (v : ℕ)
  | takeSessionSentCount (session : StreamId)
  | takeSessionTooBigCount (session : StreamId)
  | takeSessionExpiredCount (session : StreamId)
  | dropSessionDatagrams (session : StreamId)

/-- The time that is passed to an operation. -/
def Op.time : Op → Option ℕ
  | .enqueueDatagram _ _ _ now _ _ _ => some now
  | .expireDatagrams now _ => some now
  | .expireSessionDatagrams _ now _ => some now
  | .setDatagramMaxAge _ _ now _ => some now
  | _ => none

/-- The state after an operation. It fails if an assertion does; a returned error changes
nothing. -/
def step (dg : QuicDatagrams) : Op → Except Failure QuicDatagrams
  | .enqueueDatagram session data id now sendGroupId sendOrder minRtt =>
    match dg.enqueueDatagram session data id now sendGroupId sendOrder minRtt with
    | .ok (dg, _) => .ok dg
    | .error (.error _) => .ok dg
    | .error .assertion => .error .assertion
  | .writeFrames builder headerEnd fullMtu =>
    (dg.writeFrames builder headerEnd fullMtu).map Prod.fst
  | .expireDatagrams now minRtt => .ok (dg.expireDatagrams now minRtt)
  | .expireSessionDatagrams session now minRtt =>
    .ok (dg.expireSessionDatagrams session now minRtt).2
  | .setDatagramMaxAge session maxAge now minRtt =>
    .ok (dg.setDatagramMaxAge session maxAge now minRtt)
  | .setMaxBufferedDatagrams session mark => .ok (dg.setMaxBufferedDatagrams session mark)
  | .setRemoteDatagramSize v => .ok (dg.setRemoteDatagramSize v)
  | .takeSessionSentCount session => .ok (dg.takeSessionSentCount session).2
  | .takeSessionTooBigCount session => .ok (dg.takeSessionTooBigCount session).2
  | .takeSessionExpiredCount session => .ok (dg.takeSessionExpiredCount session).2
  | .dropSessionDatagrams session => .ok (dg.dropSessionDatagrams session).2

/-- The session whose queue an operation changes, if it is only one. -/
def Op.target : Op → Option StreamId
  | .enqueueDatagram session .. => some session
  | .expireSessionDatagrams session .. => some session
  | .setDatagramMaxAge session .. => some session
  | .setMaxBufferedDatagrams session _ => some session
  | .takeSessionSentCount session => some session
  | .takeSessionTooBigCount session => some session
  | .takeSessionExpiredCount session => some session
  | .dropSessionDatagrams session => some session
  | _ => none

/-- What an operation does to the datagrams of a session whose queue it changes, and what it reports
about them. -/
def targetLedger (sid : StreamId) (dg : QuicDatagrams) : Op → Ledger
  | .enqueueDatagram session data id now sendGroupId sendOrder minRtt =>
    match dg.enqueueDatagram session data id now sendGroupId sendOrder minRtt with
    | .ok _ =>
      ((dg.queueMut sid).expiryLedger now (defaultMaxAge minRtt)).add
        ((expireQueue (dg.queueMut sid) now (defaultMaxAge minRtt)).enqueueLedger ⟨data, id, now⟩
          sendGroupId sendOrder)
    | .error _ => {}
  | .writeFrames builder headerEnd fullMtu =>
    match dg.writeFrames builder headerEnd fullMtu with
    | .ok (_, _, taken) => takenBy sid taken
    | .error _ => {}
  | .expireDatagrams now minRtt => (dg.queueMut sid).expiryLedger now (defaultMaxAge minRtt)
  | .expireSessionDatagrams session now minRtt =>
    ((dg.queueMut sid).expiryLedger now (defaultMaxAge minRtt)).add
      { expiredCount := (dg.expireSessionDatagrams session now minRtt).1 }
  | .setDatagramMaxAge _ maxAge now minRtt =>
    expiryLedger
      { dg.queueMut sid with maxAge := maxAge.map fun v => max v explicitMaxAgeFloor } now
      (defaultMaxAge minRtt)
  | .takeSessionSentCount session => { sentCount := (dg.takeSessionSentCount session).1 }
  | .takeSessionTooBigCount session => { tooBigCount := (dg.takeSessionTooBigCount session).1 }
  | .takeSessionExpiredCount session => { expiredCount := (dg.takeSessionExpiredCount session).1 }
  | .dropSessionDatagrams session =>
    let dropped := (dg.dropSessionDatagrams session).1
    { discarded := (dg.queueMut sid).contents
      sentCount := dropped.sent
      tooBigCount := dropped.tooBig
      expiredCount := dropped.expired
      discardedCount := dropped.queued }
  | .setMaxBufferedDatagrams .. | .setRemoteDatagramSize _ => {}

/-- What an operation does to the datagrams of a session. -/
def ledger (sid : StreamId) (dg : QuicDatagrams) (op : Op) : Ledger :=
  if op.target.all fun session => session = sid then targetLedger sid dg op else {}

/-- Every queue is accounted for after an operation. -/
def Accounted (dg : QuicDatagrams) (op : Op) (dg' : QuicDatagrams) : Prop :=
  ∀ sid, Moves (dg.queueMut sid) (ledger sid dg op) (dg'.queueMut sid)

variable {op : Op}

lemma Accounted.all (htarget : op.target = none)
    (h : ∀ sid, Moves (dg.queueMut sid) (targetLedger sid dg op) (dg'.queueMut sid)) :
    Accounted dg op dg' := by
  intro sid
  unfold ledger
  rw [htarget]
  exact h sid

variable {take : DatagramQueue → ℕ × DatagramQueue}

lemma takeCount_spec (htake : take {} = (0, {})) (dg : QuicDatagrams) (session : StreamId) :
    (dg.takeCount session take).1 = (take (dg.queueMut session)).1 ∧
      (dg.takeCount session take).2.queueMut session = (take (dg.queueMut session)).2 ∧
      ∀ sid, sid ≠ session → (dg.takeCount session take).2.queueMut sid = dg.queueMut sid := by
  unfold takeCount
  cases hget : dg.queues.get? session with
  | none =>
    have hempty : dg.queueMut session = {} := by
      rw [queueMut, hget]
      rfl
    rw [hempty, htake]
    exact ⟨rfl, rfl, fun _ _ => rfl⟩
  | some =>
    rw [queueMut_of_get? hget]
    refine ⟨rfl, ?_, fun sid hsid => ?_⟩
    · exact (queueMut_insert session session _ rfl).trans (if_pos rfl)
    · exact (queueMut_insert sid session _ rfl).trans (if_neg hsid)

lemma queueMut_dropSessionDatagrams (dg : QuicDatagrams) (session sid : StreamId) :
    (dg.dropSessionDatagrams session).2.queueMut sid =
      if sid = session then {} else dg.queueMut sid := by
  have hqueues : (dg.dropSessionDatagrams session).2.queues = dg.queues.remove session := by
    unfold dropSessionDatagrams
    cases hget : dg.queues.get? session with
    | none => exact (remove_of_get? hget).symm
    | some => rfl
  unfold queueMut
  rw [hqueues, get?_remove]
  split_ifs <;> rfl

/-- Everything that is queued was queued at a time that has passed. -/
def NotAfter (dg : QuicDatagrams) (now : ℕ) : Prop :=
  ∀ sid, ∀ d ∈ (dg.queueMut sid).contents, d.timestamp ≤ now

/-- A datagram that is queued is not older than those in its bucket. -/
lemma pushAsserts_of_le {now : ℕ} (h : ∀ d ∈ q.contents, d.timestamp ≤ now) (id : SendGroupId)
    (o : SendOrder) : q.pushAsserts now id o = true := by
  unfold pushAsserts
  cases hbucket : (q.groups.get? id).bind fun g => g.byOrder.get? o with
  | none => rfl
  | some queue =>
    have hqueue : q.bucket id o = queue := by
      obtain ⟨g, hg, ho⟩ := bind_eq_some_iff.mp hbucket
      unfold bucket group GroupQueue.bucket
      rw [hg, getD_some, ho, getD_some]
    rw [all_eq_true]
    intro last hlast
    have hmem : last ∈ q.bucket id o := by
      rw [hqueue]
      exact List.mem_of_getLast? hlast
    exact decide_eq_true (h last (List.mem_map.mpr ⟨⟨id, o, last⟩, mem_entries_iff.mpr hmem, rfl⟩))

/-! #### Each operation -/

section

variable (hinv : dg.Inv)

include hinv

lemma Accounted.target (htarget : op.target = some session)
    (h : Moves (dg.queueMut session) (targetLedger session dg op) (dg'.queueMut session))
    (hothers : ∀ sid, sid ≠ session → dg'.queueMut sid = dg.queueMut sid) :
    Accounted dg op dg' := by
  intro sid
  unfold ledger
  rw [htarget]
  by_cases hsid : session = sid
  · subst hsid
    rw [if_pos (by simp)]
    exact h
  · rw [if_neg (by simpa using hsid), hothers sid (Ne.symm hsid)]
    exact moves_refl hinv sid

lemma Accounted.setQueue (htarget : op.target = some session)
    (h : Moves (dg.queueMut session) (targetLedger session dg op) queue) :
    Accounted dg op (dg.setQueue session queue) := by
  have hqueue (sid : StreamId) : (dg.setQueue session queue).queueMut sid =
      if sid = session then queue else dg.queueMut sid := queueMut_insert sid session queue rfl
  refine Accounted.target hinv htarget ?_ fun sid hsid => ?_
  · rw [hqueue, if_pos rfl]
    exact h
  · rw [hqueue, if_neg hsid]

lemma Accounted.takeCount (δ : ℕ → Ledger) (htake : take {} = (0, {}))
    (htarget : op.target = some session)
    (hledger : targetLedger session dg op = δ (dg.takeCount session take).1)
    (h : Moves (dg.queueMut session) (δ (take (dg.queueMut session)).1)
      (take (dg.queueMut session)).2) :
    Accounted dg op (dg.takeCount session take).2 := by
  obtain ⟨hcount, hqueue, hothers⟩ := takeCount_spec htake dg session
  refine Accounted.target hinv htarget ?_ hothers
  rw [hledger, hcount, hqueue]
  exact h

lemma accounted_expireDatagrams (now minRtt : ℕ) :
    Accounted dg (.expireDatagrams now minRtt) (dg.expireDatagrams now minRtt) := by
  refine Accounted.all rfl fun sid => ?_
  have hqueue : (dg.expireDatagrams now minRtt).queueMut sid =
      expireQueue (dg.queueMut sid) now (defaultMaxAge minRtt) := by
    unfold queueMut expireDatagrams
    rw [get?_update]
    cases dg.queues.get? sid with
    | none | some => rfl
  rw [hqueue]
  exact Moves.expireQueue (hinv sid) now (defaultMaxAge minRtt)

lemma accounted_dropSessionDatagrams (session : StreamId) :
    Accounted dg (.dropSessionDatagrams session) (dg.dropSessionDatagrams session).2 := by
  refine Accounted.target hinv rfl ?_ fun sid hsid => ?_
  · have hledger : targetLedger session dg (.dropSessionDatagrams session) =
        (dg.queueMut session).dropLedger := by
      unfold targetLedger
      dsimp only
      unfold dropSessionDatagrams queueMut
      cases dg.queues.get? session with
      | none | some => rfl
    rw [hledger, queueMut_dropSessionDatagrams, if_pos rfl]
    exact drop _
  · rw [queueMut_dropSessionDatagrams, if_neg hsid]

lemma accounted_writeFrames (builder : Builder) (headerEnd : ℕ) (fullMtu : Bool) :
    ∃ dg', dg.step (.writeFrames builder headerEnd fullMtu) = .ok dg' ∧
      Accounted dg (.writeFrames builder headerEnd fullMtu) dg' := by
  obtain ⟨dg', builder', taken, heq, hmoves⟩ := writeLoop_spec headerEnd fullMtu hinv
    (Nat.lt_succ_self _) builder []
  have hwrite : dg.writeFrames builder headerEnd fullMtu = .ok (dg', builder', taken) := heq
  refine ⟨dg', ?_, Accounted.all rfl fun sid => ?_⟩
  · unfold step
    dsimp only
    rw [hwrite]
    rfl
  · unfold targetLedger
    dsimp only
    rw [hwrite]
    exact hmoves sid

lemma accounted_enqueueDatagram (session : StreamId) (data : ByteVec) (id : Option DatagramId)
    {now : ℕ} (hnow : dg.NotAfter now) (sendGroupId : SendGroupId) (sendOrder : SendOrder)
    (minRtt : ℕ) :
    ∃ dg', dg.step (.enqueueDatagram session data id now sendGroupId sendOrder minRtt) = .ok dg' ∧
      Accounted dg (.enqueueDatagram session data id now sendGroupId sendOrder minRtt) dg' := by
  have hexpire := Moves.expireQueue (hinv session) now (defaultMaxAge minRtt)
  obtain ⟨r, gone, outranked, hr, hevictions, -⟩ :=
    makeSpace_spec hexpire.inv (charge data.capacity) sendOrder
  have hasserts : r.pushAsserts now sendGroupId sendOrder = true := by
    refine pushAsserts_of_le (fun d hd => ?_) sendGroupId sendOrder
    have hd' : d ∈ (expireQueue (dg.queueMut session) now (defaultMaxAge minRtt)).contents := by
      rw [contents_perm (hevictions.evicts hexpire.inv).perm, mem_add]
      exact .inr hd
    exact hnow session d ((hexpire.mem hd').resolve_right (notMem_zero d))
  by_cases hbig : data.bytes.length + datagramFrameTypeVarintLen > dg.remoteDatagramSize
  · have hres : dg.enqueueDatagram session data id now sendGroupId sendOrder minRtt =
      .error (.error .tooMuchData) := if_pos hbig
    refine ⟨dg, by simp only [step, hres], Accounted.target hinv rfl ?_ fun _ _ => rfl⟩
    simp only [targetLedger, hres]
    exact moves_refl hinv session
  · obtain ⟨outcome, hres⟩ : ∃ outcome, dg.enqueueDatagram session data id now sendGroupId sendOrder
        minRtt = .ok (dg.setQueue session ((expireQueue (dg.queueMut session) now
          (defaultMaxAge minRtt)).enqueue data id now sendGroupId sendOrder).1, outcome) := by
      unfold enqueueDatagram
      dsimp only
      rw [if_neg hbig, hr, if_neg fun h => h.2 hasserts]
      exact ⟨_, rfl⟩
    refine ⟨_, by simp only [step, hres]; rfl, Accounted.setQueue hinv rfl ?_⟩
    simp only [targetLedger, hres]
    exact hexpire.trans (Moves.enqueue hexpire.inv ⟨data, id, now⟩ sendGroupId sendOrder)

/-- **Each operation** succeeds if time does not go backwards, and is accounted for. -/
theorem step_spec (hnow : ∀ now ∈ op.time, dg.NotAfter now) :
    ∃ dg', dg.step op = .ok dg' ∧ Accounted dg op dg' := by
  cases op with
  | enqueueDatagram session data id now sendGroupId sendOrder minRtt =>
    exact accounted_enqueueDatagram hinv session data id (hnow now rfl) sendGroupId sendOrder minRtt
  | writeFrames builder headerEnd fullMtu =>
    exact accounted_writeFrames hinv builder headerEnd fullMtu
  | expireDatagrams now minRtt => exact ⟨_, rfl, accounted_expireDatagrams hinv now minRtt⟩
  | expireSessionDatagrams session now minRtt =>
    have hexpire := Moves.expireQueue (hinv session) now (defaultMaxAge minRtt)
    exact ⟨_, rfl, Accounted.takeCount hinv (fun n => Ledger.add _ { expiredCount := n }) rfl
      rfl rfl (hexpire.trans (Moves.takeExpiredCount hexpire.inv))⟩
  | setDatagramMaxAge session maxAge now minRtt =>
    exact ⟨_, rfl, Accounted.setQueue hinv rfl
      (setMaxAge (hinv session) maxAge now (defaultMaxAge minRtt)).resumeIfUnblocked⟩
  | setMaxBufferedDatagrams session mark =>
    have hsame := @Moves.counts _ ((dg.queueMut session).setMaxBufferedDatagrams mark)
      (hinv session) ⟨rfl, rfl, rfl, rfl, rfl⟩ 0 0 0 rfl rfl rfl
    exact ⟨_, rfl, Accounted.setQueue hinv rfl hsame.resumeIfUnblocked⟩
  | setRemoteDatagramSize =>
    exact ⟨_, rfl, Accounted.all rfl fun sid => moves_refl hinv sid⟩
  | takeSessionSentCount session =>
    exact ⟨_, rfl, Accounted.takeCount hinv (fun n => { sentCount := n }) rfl rfl rfl
      (takeSentCount (hinv session))⟩
  | takeSessionTooBigCount session =>
    exact ⟨_, rfl, Accounted.takeCount hinv (fun n => { tooBigCount := n }) rfl rfl rfl
      (takeTooBigCount (hinv session))⟩
  | takeSessionExpiredCount session =>
    exact ⟨_, rfl, Accounted.takeCount hinv (fun n => { expiredCount := n }) rfl rfl rfl
      (takeExpiredCount (hinv session))⟩
  | dropSessionDatagrams session => exact ⟨_, rfl, accounted_dropSessionDatagrams hinv session⟩

end

lemma Accounted.inv (h : Accounted dg op dg') : dg'.Inv := fun sid => (h sid).inv

lemma admitted_takenBy (sid : StreamId) (taken : Taken) : (takenBy sid taken).admitted = 0 := by
  induction taken with
  | nil => rfl
  | cons a taken ih =>
    obtain ⟨session, disposition, d⟩ := a
    show (if session = sid then takenLedger d disposition else {}).admitted + _ = 0
    rw [ih]
    split_ifs
    · cases disposition <;> rfl
    · rfl

lemma timestamp_of_mem_admitted {d : QueuedDatagram} (h : d ∈ (ledger sid dg op).admitted) :
    op.time = some d.timestamp := by
  have hnone {δ : Ledger} (hδ : δ.admitted = 0) (h : d ∈ δ.admitted) : op.time = some d.timestamp :=
    absurd (hδ ▸ h) (notMem_zero d)
  revert h
  unfold ledger
  split_ifs
  · fun_cases targetLedger sid dg op with
    | case1 session data id now sendGroupId sendOrder minRtt =>
      intro h
      rw [Ledger.add, expiryLedger, zero_add] at h
      unfold enqueueLedger at h
      dsimp only at h
      split_ifs at h
      · exact absurd h (notMem_zero d)
      · rw [mem_singleton.mp h]
        rfl
    | case3 => exact hnone (admitted_takenBy ..)
    | _ => exact hnone rfl
  · exact hnone rfl

/-! ### Runs -/

/-- The state after some operations. -/
def run : QuicDatagrams → List Op → Except Failure QuicDatagrams
  | dg, [] => .ok dg
  | dg, op :: ops =>
    match dg.step op with
    | .ok dg => run dg ops
    | .error e => .error e

/-- What operations do to the datagrams of a session. -/
def runLedger (sid : StreamId) : QuicDatagrams → List Op → Ledger
  | _, [] => {}
  | dg, op :: ops =>
    match dg.step op with
    | .ok dg' => (ledger sid dg op).add (runLedger sid dg' ops)
    | .error _ => {}

lemma Accounted.notAfter (h : Accounted dg op dg') {now : ℕ} (hnow : dg.NotAfter now)
    (htime : ∀ t ∈ op.time, t ≤ now) : dg'.NotAfter now := by
  intro sid d hd
  rcases (h sid).mem hd with hold | hadmitted
  · exact hnow sid d hold
  · exact htime d.timestamp (timestamp_of_mem_admitted hadmitted)

lemma run_spec {ops : List Op} (hinv : dg.Inv)
    (htime : ops.Pairwise fun op op' => ∀ t ∈ op.time, ∀ t' ∈ op'.time, t ≤ t')
    (hnow : ∀ op ∈ ops, ∀ now ∈ op.time, dg.NotAfter now) :
    ∃ dg', run dg ops = .ok dg' ∧
      ∀ sid, Moves (dg.queueMut sid) (runLedger sid dg ops) (dg'.queueMut sid) := by
  induction ops generalizing dg with
  | nil => exact ⟨dg, rfl, moves_refl hinv⟩
  | cons op ops ih =>
    obtain ⟨hfirst, hrest⟩ := List.pairwise_cons.mp htime
    obtain ⟨hop, hops⟩ := List.forall_mem_cons.mp hnow
    obtain ⟨dg₁, hstep, haccounted⟩ := step_spec hinv hop
    obtain ⟨dg', hrun, hmoves⟩ := ih haccounted.inv hrest fun op' hop' now h =>
      haccounted.notAfter (hops op' hop' now h) fun t ht => hfirst op' hop' t ht now h
    unfold run runLedger
    simp only [hstep]
    exact ⟨dg', hrun, fun sid => (haccounted sid).trans (hmoves sid)⟩

/-- **No datagram is lost or counted twice.**  A run in which time does not go backwards does not
fail. The datagrams that a session has admitted are those that were written, were too big, have
expired, were evicted, were discarded with the queue, or are queued, each once. The counters handed
out and what they still hold are the numbers of the first three, and the outcomes and removals have
reported the numbers of the next two. The totals are the sums over what is queued, nothing that is
kept is empty, and no subtraction went below zero. -/
theorem run_conserves {ops : List Op} (htime : (ops.filterMap Op.time).Pairwise (· ≤ ·))
    (sid : StreamId) :
    ∃ dg, run {} ops = .ok dg ∧
      let fates := runLedger sid {} ops
      let q := dg.queueMut sid
      fates.admitted = fates.written + fates.tooBig + fates.expired + fates.evicted +
        fates.discarded + q.contents ∧
      fates.admitted.card = fates.written.card + fates.tooBig.card + fates.expired.card +
        fates.evictedCount + fates.discardedCount + q.totalCount ∧
      fates.written.card = fates.sentCount + q.sent ∧
      fates.tooBig.card = fates.tooBigCount + q.tooBig ∧
      fates.expired.card = fates.expiredCount + q.expired ∧
      fates.evicted.card = fates.evictedCount ∧ fates.discarded.card = fates.discardedCount ∧
      q.totalCount = q.entries.length ∧ q.totalBytes = charges q.entries ∧
      (∀ id g, q.groups.Mem id g → g.isEmpty = false ∧ ∀ o queue, g.byOrder.Mem o queue →
        queue ≠ []) ∧
      q.underflow = false := by
  have hnow (now : ℕ) : NotAfter {} now := fun _ d hd => absurd hd (notMem_zero d)
  have hinv : Inv {} := fun _ => DatagramQueue.Inv.new _
  obtain ⟨dg, hrun, hmoves⟩ := run_spec hinv (List.pairwise_filterMap.mp htime) fun _ _ now _ =>
    hnow now
  refine ⟨dg, hrun, ?_⟩
  intro fates q
  have hsession : Moves {} fates q := hmoves sid
  have hcontents : fates.admitted = fates.left + q.contents := by
    rw [← hsession.contents]
    exact (zero_add _).symm
  have hcard : q.contents.card = q.totalCount := by
    rw [hsession.inv.count]
    exact List.length_map ..
  have hcount {a b c : ℕ} (h : 0 + a = b + c) : a = c + b := by omega
  refine ⟨hcontents, ?_, hcount hsession.sent, hcount hsession.tooBig, hcount hsession.expired,
    hsession.evicted, hsession.discarded, hsession.inv.count, hsession.inv.bytes,
    hsession.inv.kept, hsession.inv.underflow⟩
  rw [hcontents]
  unfold Ledger.left
  simp only [card_add]
  rw [hsession.evicted, hsession.discarded, hcard]

/-- Two datagrams are queued, at the start and after 30 ms, and a packet is written. -/
def twoDatagrams : List Op :=
  [.setRemoteDatagramSize 1200,
    .enqueueDatagram ⟨0⟩ ⟨[1, 2, 3], 3, le_refl 3⟩ none 0 ⟨0⟩ 0 millisecond,
    .enqueueDatagram ⟨0⟩ ⟨[4], 1, le_refl 1⟩ none (30 * millisecond) ⟨0⟩ 0 millisecond,
    .writeFrames { limit := 1200 } 0 true]

theorem run_conserves_twoDatagrams :
    (twoDatagrams.filterMap Op.time).Pairwise (· ≤ ·) ∧
      let fates := runLedger ⟨0⟩ {} twoDatagrams
      fates.admitted.card = 2 ∧ fates.expired.card = 1 ∧
      ∃ dg, run {} twoDatagrams = .ok dg ∧ fates.written.card = fates.sentCount +
        (dg.queueMut ⟨0⟩).sent ∧
        fates.admitted.card = fates.written.card + fates.tooBig.card + fates.expired.card +
          fates.evictedCount + fates.discardedCount + (dg.queueMut ⟨0⟩).totalCount := by
  have htime : (twoDatagrams.filterMap Op.time).Pairwise (· ≤ ·) := by decide
  obtain ⟨dg, hrun, -, hcard, hsent, -⟩ := run_conserves htime ⟨0⟩
  exact ⟨htime, by decide +kernel, by decide +kernel, dg, hrun, hsent, hcard⟩

end Neqo.QuicDatagrams
