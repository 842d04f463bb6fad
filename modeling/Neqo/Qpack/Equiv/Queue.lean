import Neqo.Qpack.Session
import Neqo.Qpack.Equiv.Table
import Neqo.Qpack.Equiv.Instructions

/-!
# The dynamic table as a bounded queue

Apart from references, a table is a bounded queue of headers (`toFifo`). Instructions change the
encoder's table as they change the queue, and then the decoder's table in the same way. The
decoder's table never has to keep an entry, so it can execute all of them.
-/

namespace Neqo.Qpack

open DynamicTableEntry List

/-- The size of a header in the table. -/
def pairSize (p : Bytes × Bytes) : ℕ := p.1.length + p.2.length + additionalTableEntrySize

/-- The header field of an entry. -/
def DynamicTableEntry.pair (e : DynamicTableEntry) : Bytes × Bytes := (e.name, e.value)

/-- What an instruction does to a queue. -/
def EncoderInstruction.op : EncoderInstruction → Fifo.Op (Bytes × Bytes)
  | .capacity value => .setCapacity value
  | .insertWithNameLiteral name value => .insert (name, value)

namespace HeaderTable

/-- The table without references. -/
def toFifo (t : HeaderTable) : Fifo (Bytes × Bytes) where
  elements := t.dynamic.map pair
  inserted := t.base
  capacity := t.capacity

variable {t t' : HeaderTable}

lemma toFifo_setRefs (t : HeaderTable) (refs : ℕ → ℕ) : (t.setRefs refs).toFifo = t.toFifo := by
  unfold toFifo HeaderTable.setRefs
  simp only [map_map]
  rfl

variable {index : ℕ}

lemma Tracked.toFifo_addRef {refs : ℕ → ℕ} (h : t.Tracked refs) (hlive : t.Live index)
    (hadd : t.addRef index = .ok t') : t'.toFifo = t.toFifo := by
  obtain rfl := Except.ok.inj ((h.wf.addRef h.hasRefs hlive).symm.trans hadd)
  exact toFifo_setRefs _ _

/-! ### Operations -/

lemma Evicts.keep {acked reduce : ℕ} {l kept gone : List DynamicTableEntry}
    (h : Evicts acked reduce l kept gone true) :
    Fifo.keep pairSize reduce (l.map pair) = kept.map pair := by
  rw [Fifo.keep_map, h.split]
  exact congrArg _ (Fifo.keep_eq _ (h.enough rfl) h.needed)

lemma Wf.toFifo_setCapacity (h : t.Wf) {cap : ℕ} (hset : t.setCapacity cap = (t', .ok ())) :
    t.toFifo.exec pairSize (.setCapacity cap) = some t'.toFifo := by
  obtain ⟨_, kept, gone, hspec, rfl, -, heq⟩ := h.setCapacity_spec cap
  rw [heq] at hset
  split_ifs at hset with hcan <;> cases hset
  rw [hcan] at hspec
  show some { t.toFifo with
    elements := Fifo.keep pairSize cap (t.dynamic.map pair)
    capacity := cap } = _
  rw [hspec.keep]
  rfl

lemma Wf.toFifo_insert (h : t.Wf) {name value : Bytes}
    (hinsert : t.insert name value = (t', .ok index)) :
    t.toFifo.exec pairSize (.insert (name, value)) = some t'.toFifo := by
  obtain ⟨kept, gone, -, -, heq, hok⟩ := h.insert_spec name value
  rw [heq] at hinsert
  split_ifs at hinsert with hpossible <;> cases hinsert
  show (if (t.newEntry name value).size ≤ t.capacity then some { t.toFifo with
    elements := (name, value) :: Fifo.keep pairSize (t.capacity - (t.newEntry name value).size)
      (t.dynamic.map pair)
    inserted := t.base + 1 } else none) = _
  rw [if_pos (of_decide_eq_true (Bool.and_eq_true_iff.mp hpossible).1), (hok hpossible).1.keep]
  rfl

/-! ### Entries -/

lemma Wf.get?_toFifo (h : t.Wf) {p : Bytes × Bytes} :
    t.toFifo.get? index = some p ↔ ∃ e ∈ t.dynamic, e.base = index ∧ e.pair = p := by
  show (if index < t.base then (t.dynamic.map pair)[t.base - 1 - index]? else none) =
    some p ↔ _
  constructor
  · intro hget
    split_ifs at hget with hlt
    rw [List.getElem?_map] at hget
    obtain ⟨e, he, hpair⟩ := Option.map_eq_some_iff.mp hget
    have hbase := h.base_eq _ e he
    exact ⟨e, mem_of_getElem? he, by omega, hpair⟩
  · rintro ⟨e, he, rfl, rfl⟩
    obtain ⟨hlt, hget⟩ := h.getElem?_of_mem he
    rw [if_pos hlt, List.getElem?_map, Nat.sub_right_comm, hget]
    rfl

lemma Wf.live_iff (h : t.Wf) :
    t.Live index ↔ index < t.base ∧ t.base ≤ index + t.dynamic.length := by
  constructor
  · rintro ⟨e, he, rfl⟩
    obtain ⟨hlt, hget⟩ := h.getElem?_of_mem he
    have hlength := (List.getElem?_eq_some_iff.mp hget).1
    exact ⟨hlt, by omega⟩
  · rintro ⟨hlt, hle⟩
    have hlength : t.base - index - 1 < t.dynamic.length := by omega
    have hbase := h.base_eq _ _ (List.getElem?_eq_getElem hlength)
    exact ⟨_, getElem_mem hlength, by omega⟩

lemma Wf.length_le (h : t.Wf) : t.dynamic.length ≤ t.capacity / additionalTableEntrySize := by
  have hsizes : ∀ l : List DynamicTableEntry, l.length * additionalTableEntrySize ≤ sizes l := by
    intro l
    induction l with
    | nil => exact Nat.zero_le _
    | cons e =>
      have hsize : additionalTableEntrySize ≤ e.size := Nat.le_add_left _ _
      rw [sizes_cons, length_cons, Nat.succ_mul]
      omega
  have hle := hsizes t.dynamic
  rw [← h.used_eq] at hle
  rw [Nat.le_div_iff_mul_le (by decide)]
  exact hle.trans h.used_le

/-! ### The decoder's table -/

/-- No entry has to stay. -/
structure Passive (t : HeaderTable) : Prop where
  wf : t.Wf
  refs : ∀ e ∈ t.dynamic, e.refs = 0
  base_le : t.base ≤ t.ackedInsertsCnt

lemma Passive.canEvictTo (h : t.Passive) (reduce : ℕ) : t.canEvictTo reduce = true := by
  by_contra hnot
  obtain ⟨kept, gone, -, hspec⟩ := evictTo_spec h.wf.used_eq reduce
  obtain ⟨hmore, hlast⟩ := hspec.stays (Bool.eq_false_of_not_eq_true hnot)
  have hne : kept ≠ [] := by
    rintro rfl
    exact absurd hmore (Nat.not_lt_zero _)
  have hmem : kept.getLast hne ∈ t.dynamic := by
    rw [hspec.split]
    exact mem_append_left _ (getLast_mem hne)
  have hstays := hlast _ (List.getLast?_eq_some_getLast hne)
  have hreduce : (kept.getLast hne).canReduce t.ackedInsertsCnt = true := by
    have hlt := (h.wf.getElem?_of_mem hmem).1
    unfold canReduce
    rw [decide_eq_true (h.refs _ hmem), decide_eq_true (hlt.trans_le h.base_le)]
    rfl
  exact nomatch hreduce.symm.trans hstays

lemma Passive.refs_kept (h : t.Passive) {kept gone : List DynamicTableEntry}
    (hsplit : t.dynamic = kept ++ gone) : ∀ e ∈ kept, e.refs = 0 :=
  (forall_mem_append.mp (hsplit ▸ h.refs)).1

lemma Passive.setCapacity (h : t.Passive) (cap : ℕ) :
    ∃ t', t.setCapacity cap = (t', .ok ()) ∧ t'.Passive ∧ t'.ackedInsertsCnt = t.ackedInsertsCnt ∧
      t.toFifo.exec pairSize (.setCapacity cap) = some t'.toFifo := by
  obtain ⟨_, kept, gone, hspec, rfl, hwf, hset⟩ := h.wf.setCapacity_spec cap
  rw [h.canEvictTo cap] at hwf hset
  exact ⟨_, hset, ⟨hwf, h.refs_kept hspec.split, h.base_le⟩, rfl, h.wf.toFifo_setCapacity hset⟩

lemma Passive.insert (h : t.Passive) (hbase : t.base < t.ackedInsertsCnt) {name value : Bytes}
    (hsize : pairSize (name, value) ≤ t.capacity) :
    ∃ t', t.insert name value = (t', .ok t.base) ∧ t'.Passive ∧
      t'.ackedInsertsCnt = t.ackedInsertsCnt ∧
      t.toFifo.exec pairSize (.insert (name, value)) = some t'.toFifo := by
  obtain ⟨kept, gone, hsplit, -, hinsert, hok⟩ := h.wf.insert_spec name value
  have hpossible : t.insertPossible (t.newEntry name value).size = true :=
    Bool.and_eq_true_iff.mpr ⟨decide_eq_true hsize, h.canEvictTo _⟩
  rw [if_pos hpossible] at hinsert
  exact ⟨_, hinsert,
    ⟨(hok hpossible).2, forall_mem_cons.mpr ⟨rfl, h.refs_kept hsplit⟩, hbase⟩, rfl,
    h.wf.toFifo_insert hinsert⟩

end HeaderTable

namespace Decoder

/-- The instruction respects the limits of the decoder. -/
def Accepts (d : Decoder) : EncoderInstruction → Prop
  | .capacity value => value ≤ d.maxTableSize
  | .insertWithNameLiteral _ _ => True

variable {f : Fifo (Bytes × Bytes)}

lemma executeInstruction_decoded {d : Decoder} (h : d.table.Passive)
    {instruction : EncoderInstruction} (haccepts : d.Accepts instruction)
    (hexec : d.table.toFifo.exec pairSize instruction.op = some f)
    (hinserted : f.inserted ≤ d.table.ackedInsertsCnt) :
    ∃ table, d.executeInstruction instruction.decoded = ({ d with table := table }, .ok ()) ∧
      table.Passive ∧ table.ackedInsertsCnt = d.table.ackedInsertsCnt ∧ table.toFifo = f := by
  cases instruction with
  | capacity value =>
    obtain ⟨table, hset, hpassive, hacked, hfifo⟩ := h.setCapacity value
    refine ⟨table, ?_, hpassive, hacked, Option.some.inj (hfifo.symm.trans hexec)⟩
    show d.setCapacity value = _
    unfold setCapacity
    rw [if_neg (not_lt.mpr haccepts), hset]
  | insertWithNameLiteral name value =>
    obtain ⟨hsize, heq⟩ := Option.ite_none_right_eq_some.mp (id hexec)
    have hbase : d.table.base < d.table.ackedInsertsCnt :=
      (congrArg Fifo.inserted (Option.some.inj heq)).trans_le hinserted
    obtain ⟨table, hinsert, hpassive, hacked, hfifo⟩ := h.insert hbase hsize
    refine ⟨table, ?_, hpassive, hacked, Option.some.inj (hfifo.symm.trans hexec)⟩
    show d.inserted (d.table.insert name value) = _
    rw [hinsert]
    rfl

/-- **The decoder follows the encoder.**  It executes all the instructions that the queue can. -/
theorem executes_decoded {d : Decoder} (h : d.table.Passive)
    {instructions : List EncoderInstruction}
    (haccepts : ∀ instruction ∈ instructions, d.Accepts instruction)
    (hrun : d.table.toFifo.run pairSize (instructions.map EncoderInstruction.op) = some f)
    (hinserted : f.inserted ≤ d.table.ackedInsertsCnt) :
    ∃ table, Reader.Executes executeInstruction (instructions.map EncoderInstruction.decoded) d
        { d with table := table } ∧
      table.Passive ∧ table.ackedInsertsCnt = d.table.ackedInsertsCnt ∧ table.toFifo = f := by
  induction instructions generalizing d with
  | nil => exact ⟨d.table, rfl, h, rfl, Option.some.inj hrun⟩
  | cons instruction instructions ih =>
    obtain ⟨g, hexec, hrest⟩ := Fifo.run_cons_eq_some hrun
    have hle := Fifo.inserted_le_of_run hrest
    obtain ⟨table, hone, hpassive, hacked, rfl⟩ := executeInstruction_decoded h
      (haccepts instruction mem_cons_self) hexec (hle.trans hinserted)
    obtain ⟨table', hexecutes, hpassive', hacked', hfifo⟩ :=
      @ih { d with table := table } hpassive
        (fun i hi => haccepts i (mem_cons_of_mem _ hi)) hrest (hacked ▸ hinserted)
    exact ⟨table', ⟨_, hone, hexecutes⟩, hpassive', hacked'.trans hacked, hfifo⟩

end Decoder

end Neqo.Qpack
