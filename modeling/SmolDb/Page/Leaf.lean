import Mathlib.Data.List.Nodup
import SmolDb.Page.Slots

/-!
# The leaf operations

What each leaf operation computes on a slotted leaf. A call that returns has one of a few
outcomes, with the branch it took and the leaf it leaves: `InsertOutcome`, `UpdateOutcome` and
`DeleteOutcome`, and `split_outcome` for the two leaves of a split. `compact` is a closed formula
(`compact_eq`). Everything else about these operations is derived from here.
-/

namespace SmolDb

namespace LeafNode

variable {self : LeafNode}

/-! ### Slots -/

theorem IsSlotted.length_le (h : self.IsSlotted) : self.slotArray.length ≤ 65536 := by
  rcases Nat.eq_zero_or_pos self.records.length with h0 | hpos
  · rw [h.length_eq, h0]; exact Nat.zero_le _
  · obtain ⟨s, -, hs⟩ := h.exists_slot (i := self.records.length - 1) (by omega)
    have hlt := s.toNat_lt
    rw [h.length_eq]
    omega

/-- The slots `0, 1, …, n - 1`. -/
def freshSlots (n : ℕ) : List UInt16 := (List.range n).map UInt16.ofNat

@[simp] theorem length_freshSlots (n : ℕ) : (freshSlots n).length = n := by
  simp [freshSlots]

theorem freshSlots_succ (n : ℕ) : freshSlots (n + 1) = freshSlots n ++ [UInt16.ofNat n] := by
  simp [freshSlots, List.range_succ]

theorem toNat_ofNat_of_lt {i : ℕ} (h : i < 65536) : (UInt16.ofNat i).toNat = i := by
  rw [UInt16.toNat_ofNat', Nat.mod_eq_of_lt h]

theorem map_toNat_freshSlots {n : ℕ} (h : n ≤ 65536) :
    (freshSlots n).map UInt16.toNat = List.range n := by
  rw [freshSlots, List.map_map]
  conv_rhs => rw [← List.map_id (List.range n)]
  refine List.map_congr_left fun i hi => ?_
  exact toNat_ofNat_of_lt (by rw [List.mem_range] at hi; omega)

theorem slotted_freshSlots {n : ℕ} (h : n ≤ 65536) : Slotted (freshSlots n) n := by
  rw [Slotted, map_toNat_freshSlots h]

theorem map_getD_range {α : Type} [Inhabited α] (xs : List α) :
    (List.range xs.length).map (fun i => xs.getD i default) = xs := by
  refine List.ext_getElem (by simp) fun i _ hi => ?_
  rw [List.getElem_map, List.getElem_range, List.getD_eq_getElem _ _ hi]

/-- Reading records through fresh slots reads them in order. -/
theorem rows_freshSlots {rs : List Record} (h : rs.length ≤ 65536) :
    (freshSlots rs.length).map (fun s => rs.getD s.toNat default) = rs := by
  have hmap : (freshSlots rs.length).map (fun s => rs.getD s.toNat default)
      = ((freshSlots rs.length).map UInt16.toNat).map fun i => rs.getD i default := by
    rw [List.map_map]; rfl
  rw [hmap, map_toNat_freshSlots h, map_getD_range]

/-! ### Compaction -/

/-- The records that are not tombstones, in slot order. -/
def liveRows (self : LeafNode) : List Record := self.rows.filter fun r => !r.isDeleted

/-- The bytes a leaf with these records occupies. -/
def packedSize (rs : List Record) : ℕ :=
  leafNodeHeaderSize + rs.length * slotElemSize + footerLen rs

/-- The leaf `compact` leaves behind. -/
def compacted (self : LeafNode) : LeafNode :=
  { self with
    records := self.liveRows
    slotArray := freshSlots self.liveRows.length
    freeSize := UInt16.ofNat (pageSize - packedSize self.liveRows) }

theorem length_le_of_packedSize {rs : List Record} (h : packedSize rs ≤ pageSize) :
    rs.length ≤ 2027 := by
  simp only [packedSize, leafNodeHeaderSize, slotElemSize, pageSize] at h
  omega

/-- The loop of `compact` copies the live records behind those it has already copied. -/
theorem foldlM_compactStep {records : List Record} {g : UInt16 → Record} (slots : List UInt16)
    (hslots : ∀ s ∈ slots, records[s.toNat]? = some (g s)) (acc : Compaction)
    (hacc : acc.newSlots = freshSlots acc.cleanRecords.length) :
    slots.foldlM (compactStep records) acc = some
      { cleanRecords := acc.cleanRecords ++ (slots.map g).filter fun r => !r.isDeleted
        newSlots := freshSlots
          (acc.cleanRecords ++ (slots.map g).filter fun r => !r.isDeleted).length
        bytesUsed := acc.bytesUsed +
          (((slots.map g).filter fun r => !r.isDeleted).length * slotElemSize +
            footerLen ((slots.map g).filter fun r => !r.isDeleted)) } := by
  -- the loop appends to what it has collected, so the induction is over any such start
  induction slots generalizing acc with
  | nil =>
    obtain ⟨clean, newSlots, bytes⟩ := acc
    simp only at hacc
    simp [hacc]
  | cons s slots ih =>
    have hrest := fun t ht => hslots t (List.mem_cons_of_mem _ ht)
    have hstep : compactStep records acc s = some
        (if (g s).isDeleted then acc else
          { cleanRecords := acc.cleanRecords ++ [g s]
            newSlots := acc.newSlots ++
              [UInt16.ofNat ((acc.cleanRecords ++ [g s]).length - 1)]
            bytesUsed :=
              acc.bytesUsed + (recordMetaSize + (g s).data.length) + slotElemSize }) := by
      rw [compactStep, hslots s (List.mem_cons_self ..)]
      simp only [Option.bind_eq_bind, Option.bind_some]
      split <;> rfl
    rw [List.foldlM_cons, hstep]
    simp only [Option.bind_eq_bind, Option.bind_some]
    -- a tombstone is passed over, a live record gets the next slot
    by_cases hdel : (g s).isDeleted = true
    · rw [if_pos hdel, ih hrest acc hacc]
      simp [hdel]
    · rw [if_neg hdel, ih hrest]
      · simp only [List.map_cons, List.filter_cons, hdel, Bool.not_false, if_true,
          List.append_assoc, List.singleton_append, List.length_cons, footerLen_cons,
          Option.some.injEq, Compaction.mk.injEq, true_and, slotElemSize]
        omega
      · simp only [hacc, List.length_append, List.length_singleton, freshSlots_succ,
          Nat.add_sub_cancel]

/-- **`compact`.** It keeps the live records in slot order, and panics when they do not fit. -/
theorem compact_eq (hslots : ∀ s ∈ self.slotArray, s.toNat < self.records.length) :
    self.compact = if packedSize self.liveRows ≤ pageSize then some self.compacted else none := by
  have hloop : self.slotArray.foldlM (compactStep self.records) ⟨[], [], 0⟩ =
      some ⟨self.liveRows, freshSlots self.liveRows.length,
        0 + (self.liveRows.length * slotElemSize + footerLen self.liveRows)⟩ :=
    foldlM_compactStep self.slotArray (fun s hs => recordAt_eq (hslots s hs)) ⟨[], [], 0⟩ rfl
  -- the bytes the loop has counted, with the header, are the size of the live rows
  have hnet : leafNodeHeaderSize + (0 + (self.liveRows.length * slotElemSize +
      footerLen self.liveRows)) = packedSize self.liveRows := by
    simp only [packedSize]
    omega
  rw [compact, hloop]
  simp only [Option.bind_eq_bind, Option.bind_some]
  rw [hnet]
  rcases Nat.lt_trichotomy (packedSize self.liveRows) pageSize with hlt | heq | hgt
  · rw [Nat.compare_eq_lt.mpr hlt, if_pos (Nat.le_of_lt hlt)]
    rfl
  · rw [Nat.compare_eq_eq.mpr heq, if_pos (Nat.le_of_eq heq), compacted, heq]
    rfl
  · rw [Nat.compare_eq_gt.mpr hgt, if_neg (Nat.not_le.mpr hgt)]

theorem isSlotted_compacted (h : packedSize self.liveRows ≤ pageSize) :
    self.compacted.IsSlotted :=
  slotted_freshSlots (Nat.le_trans (length_le_of_packedSize h) (by decide))

theorem rows_compacted (h : packedSize self.liveRows ≤ pageSize) :
    self.compacted.rows = self.liveRows :=
  rows_freshSlots (Nat.le_trans (length_le_of_packedSize h) (by decide))

theorem encodedSize_compacted (h : packedSize self.liveRows ≤ pageSize) :
    self.compacted.encodedSize = packedSize self.liveRows := by
  rw [encodedSize, rows_compacted h]
  simp only [compacted, length_freshSlots, packedSize]

/-- What a call of `compact` that returns has done. -/
theorem compact_eq_some {self' : LeafNode}
    (hslots : ∀ s ∈ self.slotArray, s.toNat < self.records.length)
    (h : self.compact = some self') :
    packedSize self.liveRows ≤ pageSize ∧ self' = self.compacted := by
  rw [compact_eq hslots] at h
  split at h
  · next hfit => exact ⟨hfit, (Option.some.inj h).symm⟩
  · cases h

/-! ### Searching -/

theorem compare_toNat (a b : UInt64) : compare a b = compare a.toNat b.toNat := by
  rcases Nat.lt_trichotomy a.toNat b.toNat with hlt | heq | hgt
  · rw [Nat.compare_eq_lt.mpr hlt]
    exact Std.compare_eq_lt.mpr hlt
  · rw [Nat.compare_eq_eq.mpr heq, UInt64.toNat_inj.mp heq]
    exact Std.compare_self
  · rw [Nat.compare_eq_gt.mpr hgt]
    exact Std.compare_eq_gt.mpr hgt

/-- The row ids are strictly increasing in slot order. -/
def Sorted (self : LeafNode) : Prop :=
  self.rows.Pairwise fun a b => a.rowId.toNat < b.rowId.toNat

instance (self : LeafNode) : Decidable self.Sorted :=
  inferInstanceAs (Decidable (List.Pairwise _ _))

/-- The search through the slots is the search of the rows. -/
theorem InRange.searchKey_eq (hs : self.InRange) (rowId : UInt64) :
    self.searchKey rowId = BinarySearch.search self.rows.length
      fun i => self.rows[i]?.map fun r => compare r.rowId.toNat rowId.toNat := by
  rw [searchKey, length_rows]
  congr 1
  funext i
  rw [rows, List.getElem?_map]
  cases hslot : self.slotArray[i]? with
  | none => rfl
  | some slot =>
    simp only [Option.bind_eq_bind, Option.bind_some, Option.map_some,
      recordAt_eq (hs slot (List.mem_of_getElem? hslot)), compare_toNat]

/-- The row at a position of the slots. -/
theorem rows_of_slot {i : ℕ} {slot : UInt16} {r : Record} (hslot : self.slotArray[i]? = some slot)
    (hrecord : self.recordAt slot = some r) : self.rows[i]? = some r := by
  unfold recordAt at hrecord
  rw [rows, List.getElem?_map, hslot, Option.map_some, List.getD_eq_getElem?_getD, hrecord]
  rfl

/-- The slot at a position of the rows. -/
theorem InRange.slot_of_rows (hs : self.InRange) {i : ℕ} {r : Record}
    (hr : self.rows[i]? = some r) :
    ∃ slot, self.slotArray[i]? = some slot ∧ self.recordAt slot = some r := by
  rw [rows, List.getElem?_map, Option.map_eq_some_iff] at hr
  obtain ⟨slot, hslot, rfl⟩ := hr
  exact ⟨slot, hslot, recordAt_eq (hs slot (List.mem_of_getElem? hslot))⟩

/-- Comparing a row of the leaf does not panic. -/
theorem compare_rows_isSome (self : LeafNode) (rowId : UInt64) (i : ℕ) (hi : i < self.rows.length) :
    (self.rows[i]?.map fun r => compare r.rowId.toNat rowId.toNat).isSome := by
  rw [List.getElem?_eq_getElem hi]
  rfl

theorem InRange.searchKey_isSome (hs : self.InRange) (rowId : UInt64) :
    (∃ i r, self.searchKey rowId = some (.ok i) ∧ self.rows[i]? = some r) ∨
      ∃ i, i ≤ self.slotArray.length ∧ self.searchKey rowId = some (.error i) := by
  rw [hs.searchKey_eq]
  rcases BinarySearch.search_isSome (self.compare_rows_isSome rowId) with ⟨i, hi⟩ | ⟨i, hle, hi⟩
  · have hlt := (BinarySearch.search_ok_sound (self.compare_rows_isSome rowId) hi).1
    exact .inl ⟨i, _, hi, List.getElem?_eq_getElem hlt⟩
  · exact .inr ⟨i, by rwa [length_rows] at hle, hi⟩

/-- A lookup in a leaf whose slots are in range does not panic. -/
theorem InRange.getRecord_returns (hs : self.InRange) (rowId : UInt64) :
    ∃ found, self.getRecord rowId = some found := by
  unfold getRecord
  rcases hs.searchKey_isSome rowId with ⟨i, record, hsearch, hrow⟩ | ⟨i, -, hsearch⟩
  · obtain ⟨slot, hslot, hrecord⟩ := hs.slot_of_rows hrow
    rw [hsearch]
    simp only [Option.bind_eq_bind, Option.bind_some, hslot, hrecord]
    split
    · exact ⟨some record.data, rfl⟩
    · exact ⟨none, rfl⟩
  · exact ⟨none, by rw [hsearch]; rfl⟩

/-- The row a search finds has the key. -/
theorem IsSlotted.rowId_of_search (hs : self.IsSlotted) {rowId : UInt64} {i : ℕ} {r : Record}
    (hsearch : self.searchKey rowId = some (.ok i)) (hrow : self.rows[i]? = some r) :
    r.rowId = rowId := by
  rw [hs.inRange.searchKey_eq] at hsearch
  have hcmp := (BinarySearch.search_ok_sound (self.compare_rows_isSome rowId) hsearch).2
  rw [hrow, Option.map_some, Option.some.injEq] at hcmp
  exact UInt64.toNat_inj.mp (Nat.compare_eq_eq.mp hcmp)

/-- **Searching a sorted leaf.** -/
theorem IsSlotted.searchKey_sorted (hs : self.IsSlotted) (hsorted : self.Sorted)
    (rowId : UInt64) :
    (∃ as r bs, self.rows = as ++ r :: bs ∧ r.rowId = rowId ∧
      (∀ a ∈ as, a.rowId.toNat < rowId.toNat) ∧ (∀ b ∈ bs, rowId.toNat < b.rowId.toNat) ∧
      self.searchKey rowId = some (.ok as.length)) ∨
    ∃ as bs, self.rows = as ++ bs ∧
      (∀ a ∈ as, a.rowId.toNat < rowId.toNat) ∧ (∀ b ∈ bs, rowId.toNat < b.rowId.toNat) ∧
      self.searchKey rowId = some (.error as.length) := by
  rw [hs.inRange.searchKey_eq]
  rcases BinarySearch.search_sorted hsorted rowId.toNat with
    ⟨as, r, bs, hrows, hkey, has, hbs, hsearch⟩ | h
  · exact .inl ⟨as, r, bs, hrows, UInt64.toNat_inj.mp hkey, has, hbs, hsearch⟩
  · exact .inr h

/-- On a sorted leaf a search that fails has met every row. -/
theorem IsSlotted.absent_of_search (hs : self.IsSlotted) (hsorted : self.Sorted) {rowId : UInt64}
    {i : ℕ} (hsearch : self.searchKey rowId = some (.error i)) :
    ∀ r ∈ self.rows, r.rowId ≠ rowId := by
  rcases hs.searchKey_sorted hsorted rowId with ⟨_, _, _, -, -, -, -, hok⟩ |
    ⟨as, bs, hrows, has, hbs, -⟩
  · rw [hsearch] at hok
    cases hok
  · intro r hr heq
    rw [hrows] at hr
    rcases List.mem_append.mp hr with ha | hb
    · exact Nat.lt_irrefl _ (heq ▸ has r ha)
    · exact Nat.lt_irrefl _ (heq ▸ hbs r hb)

/-! ### Rewriting and adding a record -/

/-- The leaf with another record behind one of its slots. -/
def overwrite (self : LeafNode) (slot : UInt16) (record : Record) : LeafNode :=
  { self with records := self.records.set slot.toNat record }

/-- The leaf with a record appended and a slot for it at position `i`. -/
def appended (self : LeafNode) (i : ℕ) (record : Record) (freeSize : UInt16) : LeafNode :=
  { self with
    records := self.records ++ [record]
    slotArray := self.slotArray.insertIdx i (UInt16.ofNat self.records.length)
    freeSize }

theorem IsSlotted.overwrite (hs : self.IsSlotted) (slot : UInt16) (record : Record) :
    (self.overwrite slot record).IsSlotted := by
  rw [IsSlotted, LeafNode.overwrite]
  simp only [List.length_set]
  exact hs

/-- Overwriting the record of the slot at position `i` rewrites row `i` and no other. -/
theorem IsSlotted.rows_overwrite (hs : self.IsSlotted) {i : ℕ} {slot : UInt16}
    (hslot : self.slotArray[i]? = some slot) (record : Record) :
    (self.overwrite slot record).rows = self.rows.set i record := by
  have hmem := List.mem_of_getElem? hslot
  have hlt := hs.lt hmem
  obtain ⟨hi, rfl⟩ := List.getElem?_eq_some_iff.mp hslot
  refine List.ext_getElem? fun j => ?_
  simp only [rows, LeafNode.overwrite, List.getElem?_map, List.getElem?_set, List.length_map]
  by_cases hij : i = j
  · subst hij
    rw [if_pos rfl, if_pos hi, List.getElem?_eq_getElem hi, Option.map_some,
      List.getD_eq_getElem _ _ (by rw [List.length_set]; exact hlt), List.getElem_set_self]
  · rw [if_neg hij]
    cases hj : self.slotArray[j]? with
    | none => rfl
    | some slot' =>
      have hlt' := hs.lt (List.mem_of_getElem? hj)
      obtain ⟨hj', rfl⟩ := List.getElem?_eq_some_iff.mp hj
      -- two positions with the same slot are the same position
      have hne : self.slotArray[i].toNat ≠ self.slotArray[j].toNat := fun heq => by
        have hi' : i < (self.slotArray.map UInt16.toNat).length := by rwa [List.length_map]
        have hj' : j < (self.slotArray.map UInt16.toNat).length := by rwa [List.length_map]
        refine hij ((@List.Nodup.getElem_inj_iff _ _ hs.nodup i hi' j hj').mp ?_)
        rwa [List.getElem_map, List.getElem_map]
      rw [Option.map_some, Option.map_some,
        List.getD_eq_getElem _ _ (by rw [List.length_set]; exact hlt'), List.getElem_set_ne hne,
        List.getD_eq_getElem _ _ hlt']

theorem IsSlotted.appended (hs : self.IsSlotted) {i : ℕ} (hi : i ≤ self.slotArray.length)
    (hn : self.records.length < 65536) (record : Record) (freeSize : UInt16) :
    (self.appended i record freeSize).IsSlotted := by
  rw [IsSlotted, Slotted, LeafNode.appended]
  simp only [List.length_append, List.length_singleton, List.range_succ]
  have hins := (List.perm_insertIdx (UInt16.ofNat self.records.length) self.slotArray hi).map
    UInt16.toNat
  rw [List.map_cons, toNat_ofNat_of_lt hn] at hins
  calc List.Perm _ (self.records.length :: self.slotArray.map UInt16.toNat) := hins
    List.Perm _ (self.records.length :: List.range self.records.length) := hs.cons _
    List.Perm _ (List.range self.records.length ++ [self.records.length]) :=
      (List.perm_append_singleton _ _).symm

theorem IsSlotted.rows_appended (hs : self.IsSlotted) {i : ℕ}
    (hn : self.records.length < 65536) (record : Record) (freeSize : UInt16) :
    (self.appended i record freeSize).rows = self.rows.insertIdx i record := by
  -- the old slots read the old records, and the new one reads the last
  have hold : ∀ s ∈ self.slotArray, (self.records ++ [record]).getD s.toNat default
      = self.records.getD s.toNat default := fun s hmem => by
    have hlt := hs.lt hmem
    rw [List.getD_eq_getElem _ _ (by simp; omega), List.getElem_append_left hlt,
      List.getD_eq_getElem _ _ hlt]
  have hnew : (self.records ++ [record]).getD (UInt16.ofNat self.records.length).toNat default
      = record := by
    rw [toNat_ofNat_of_lt hn, List.getD_eq_getElem _ _ (by simp)]
    simp
  rw [rows, LeafNode.appended]
  simp only
  rw [List.map_insertIdx, hnew, rows, List.map_congr_left hold]

/-! ### What the operations can do -/

/-- The test `insert_record` makes before it adds a record. -/
def HasRoom (self : LeafNode) (payloadLen : ℕ) : Prop :=
  leafNodeHeaderSize + (self.slotArray.length + 1) * slotElemSize + footerLen self.rows
      + (slotElemSize + recordMetaSize + payloadLen) ≤ pageSize ∧
    self.slotArray.length ≤ maxLeafNodeCells

/-- Everything a call of `insert_record` that returns can have done. -/
inductive InsertOutcome (self : LeafNode) (rowId : UInt64) (payload : List UInt8) :
    Except DbError Unit → LeafNode → Prop
  | tooLarge (hlen : maxValueSize < payload.length) :
      InsertOutcome self rowId payload (.error (.tupleTooLarge payload.length)) self
  | duplicate {i : ℕ} {record : Record} (hlen : payload.length ≤ maxValueSize)
      (hsearch : self.searchKey rowId = some (.ok i)) (hrow : self.rows[i]? = some record)
      (hlive : record.isDeleted = false) :
      InsertOutcome self rowId payload (.error (.duplicateKey rowId)) self
  | revived {i : ℕ} {slot : UInt16} {record : Record} {self' : LeafNode}
      (hlen : payload.length ≤ maxValueSize)
      (hsearch : self.searchKey rowId = some (.ok i)) (hrow : self.rows[i]? = some record)
      (hdead : record.isDeleted = true) (hslot : self.slotArray[i]? = some slot)
      (hcompact : (self.overwrite slot
        { record with isDeleted := false, data := payload }).compact = some self') :
      InsertOutcome self rowId payload (.ok ()) self'
  | full {i : ℕ} (hlen : payload.length ≤ maxValueSize)
      (hsearch : self.searchKey rowId = some (.error i)) (hfull : ¬ self.HasRoom payload.length) :
      InsertOutcome self rowId payload (.error .pageFull) self
  | added {i : ℕ} (freeSize : UInt16) (hlen : payload.length ≤ maxValueSize)
      (hi : i ≤ self.slotArray.length) (hsearch : self.searchKey rowId = some (.error i))
      (hroom : self.HasRoom payload.length) :
      InsertOutcome self rowId payload (.ok ()) (self.appended i ⟨rowId, payload, false⟩ freeSize)

theorem not_hasRoom_iff {payloadLen : ℕ} : ¬ self.HasRoom payloadLen ↔
    leafNodeHeaderSize + (self.slotArray.length + 1) * slotElemSize + footerLen self.rows
        + (slotElemSize + recordMetaSize + payloadLen) > pageSize ∨
      self.slotArray.length > maxLeafNodeCells := by
  rw [HasRoom, not_and_or, Nat.not_le, Nat.not_le]

theorem IsSlotted.insertRecord_outcome (hs : self.IsSlotted) {rowId : UInt64}
    {payload : List UInt8} {r : Except DbError Unit} {self' : LeafNode}
    (h : insertRecord rowId payload self = some (r, self')) :
    InsertOutcome self rowId payload r self' := by
  rw [insertRecord] at h
  by_cases hlen : payload.length > maxValueSize
  · rw [if_pos hlen] at h
    cases h
    exact .tooLarge hlen
  · rw [if_neg hlen] at h
    have hlen' := Nat.le_of_not_lt hlen
    -- the key is in the leaf, live or as a tombstone, or it is not
    rcases hs.inRange.searchKey_isSome rowId with ⟨i, record, hsearch, hrow⟩ | ⟨i, hi, hsearch⟩
    · obtain ⟨slot, hslot, hrecord⟩ := hs.inRange.slot_of_rows hrow
      simp only [hsearch, hslot, hrecord, Option.bind_eq_bind, Option.bind_some] at h
      cases hdel : record.isDeleted with
      | false =>
        rw [hdel] at h
        cases h
        exact .duplicate hlen' hsearch hrow hdel
      | true =>
        rw [hdel] at h
        obtain ⟨leaf, hcompact, heq⟩ := Option.bind_eq_some_iff.mp h
        cases heq
        exact .revived hlen' hsearch hrow hdel hslot hcompact
    · simp only [hsearch, hs.cells_eq, Option.bind_eq_bind, Option.bind_some] at h
      split at h
      · next hfull =>
        cases h
        exact .full hlen' hsearch (not_hasRoom_iff.mpr hfull)
      · next hroom =>
        cases h
        exact .added _ hlen' hi hsearch (by_contra fun hno => hroom (not_hasRoom_iff.mp hno))

/-- Everything a call of `update_record` that returns can have done. -/
inductive UpdateOutcome (self : LeafNode) (rowId : UInt64) (payload : List UInt8) :
    Except DbError Unit → LeafNode → Prop
  | tooLarge (hlen : maxValueSize ≤ payload.length) :
      UpdateOutcome self rowId payload (.error (.tupleTooLarge payload.length)) self
  | notFound {i : ℕ} (hlen : payload.length < maxValueSize)
      (hsearch : self.searchKey rowId = some (.error i)) :
      UpdateOutcome self rowId payload (.error (.keyNotFound rowId)) self
  | updated {i : ℕ} {slot : UInt16} {record : Record} (hlen : payload.length < maxValueSize)
      (hsearch : self.searchKey rowId = some (.ok i)) (hrow : self.rows[i]? = some record)
      (hslot : self.slotArray[i]? = some slot) :
      UpdateOutcome self rowId payload (.ok ())
        (self.overwrite slot { record with data := payload })

theorem IsSlotted.updateRecord_outcome (hs : self.IsSlotted) {rowId : UInt64}
    {payload : List UInt8} {r : Except DbError Unit} {self' : LeafNode}
    (h : updateRecord rowId payload self = some (r, self')) :
    UpdateOutcome self rowId payload r self' := by
  rw [updateRecord] at h
  by_cases hlen : payload.length ≥ maxValueSize
  · rw [if_pos hlen] at h
    cases h
    exact .tooLarge hlen
  · rw [if_neg hlen] at h
    have hlen' := Nat.lt_of_not_le hlen
    -- a record that was found is overwritten, even a tombstone
    rcases hs.inRange.searchKey_isSome rowId with ⟨i, record, hsearch, hrow⟩ | ⟨i, -, hsearch⟩
    · obtain ⟨slot, hslot, hrecord⟩ := hs.inRange.slot_of_rows hrow
      simp only [hsearch, hslot, hrecord, Option.bind_eq_bind, Option.bind_some] at h
      cases h
      exact .updated hlen' hsearch hrow hslot
    · simp only [hsearch, Option.bind_eq_bind, Option.bind_some] at h
      cases h
      exact .notFound hlen' hsearch

/-- Everything a call of `delete_record` that returns can have done. -/
inductive DeleteOutcome (self : LeafNode) (rowId : UInt64) :
    Except DbError Unit → LeafNode → Prop
  | notFound {i : ℕ} (hsearch : self.searchKey rowId = some (.error i)) :
      DeleteOutcome self rowId (.error (.keyNotFound rowId)) self
  | deleted {i : ℕ} {slot : UInt16} {record : Record}
      (hsearch : self.searchKey rowId = some (.ok i)) (hrow : self.rows[i]? = some record)
      (hslot : self.slotArray[i]? = some slot) :
      DeleteOutcome self rowId (.ok ()) (self.overwrite slot { record with isDeleted := true })

theorem IsSlotted.deleteRecord_outcome (hs : self.IsSlotted) {rowId : UInt64}
    {r : Except DbError Unit} {self' : LeafNode}
    (h : deleteRecord rowId self = some (r, self')) : DeleteOutcome self rowId r self' := by
  rw [deleteRecord] at h
  rcases hs.inRange.searchKey_isSome rowId with ⟨i, record, hsearch, hrow⟩ | ⟨i, -, hsearch⟩
  · obtain ⟨slot, hslot, hrecord⟩ := hs.inRange.slot_of_rows hrow
    simp only [hsearch, hslot, hrecord, Option.bind_eq_bind, Option.bind_some] at h
    cases h
    exact .deleted hsearch hrow hslot
  · simp only [hsearch, Option.bind_eq_bind, Option.bind_some] at h
    cases h
    exact .notFound hsearch

/-! ### Splitting -/

/-- A record pushed with a slot of its own. -/
def push (self : LeafNode) (record : Record) : LeafNode :=
  { self with
    records := self.records ++ [record]
    slotArray := self.slotArray ++ [UInt16.ofNat ((self.records ++ [record]).length - 1)] }

/-- The leaf with the lower half of its slots. -/
def lowerHalf (self : LeafNode) : LeafNode :=
  { self with slotArray := self.slotArray.take (self.slotArray.length / 2) }

/-- The rows `split` moves. -/
def upperRows (self : LeafNode) : List Record := self.rows.drop (self.slotArray.length / 2)

theorem foldlM_splitStep {records : List Record} {g : UInt16 → Record} (slots : List UInt16)
    (hslots : ∀ s ∈ slots, records[s.toNat]? = some (g s)) (newSibling : LeafNode) :
    slots.foldlM (splitStep records) newSibling = some ((slots.map g).foldl push newSibling) := by
  induction slots generalizing newSibling with
  | nil => rfl
  | cons s slots ih =>
    have hstep : splitStep records newSibling s = some (newSibling.push (g s)) := by
      rw [splitStep, hslots s (List.mem_cons_self ..)]
      rfl
    rw [List.foldlM_cons, hstep, List.map_cons, List.foldl_cons]
    exact ih (fun t ht => hslots t (List.mem_cons_of_mem _ ht)) _

theorem InRange.push (h : self.InRange) (record : Record) : (self.push record).InRange := by
  intro s hmem
  simp only [LeafNode.push, List.length_append, List.length_singleton] at hmem ⊢
  rcases List.mem_append.mp hmem with hold | hnew
  · have := h s hold
    omega
  · rw [List.mem_singleton.mp hnew, UInt16.toNat_ofNat']
    have := Nat.mod_le (self.records.length + 1 - 1) (2 ^ 16)
    omega

theorem InRange.foldl_push (h : self.InRange) (rs : List Record) :
    (rs.foldl LeafNode.push self).InRange := by
  induction rs generalizing self with
  | nil => exact h
  | cons r rs ih => exact ih (h.push r)

theorem InRange.lowerHalf (h : self.InRange) : self.lowerHalf.InRange :=
  fun s hs => h s (List.mem_of_mem_take hs)

theorem rows_lowerHalf : self.lowerHalf.rows = self.rows.take (self.slotArray.length / 2) := by
  rw [rows, lowerHalf, rows, List.map_take]

/-- Pushing onto a leaf without records. -/
theorem foldl_push_of_empty (hrecords : self.records = []) (hslots : self.slotArray = [])
    (rs : List Record) : rs.foldl push self =
      { self with records := rs, slotArray := freshSlots rs.length } := by
  -- pushing a record gives it the next slot, so the slots stay those of a fresh leaf
  have hgen : ∀ (rs : List Record) (leaf : LeafNode),
      leaf.slotArray = freshSlots leaf.records.length →
      rs.foldl push leaf =
        { leaf with
          records := leaf.records ++ rs
          slotArray := freshSlots (leaf.records ++ rs).length } := by
    intro rs
    induction rs with
    | nil =>
      intro leaf hleaf
      simp only [List.foldl_nil, List.append_nil, ← hleaf]
    | cons r rs ih =>
      intro leaf hleaf
      rw [List.foldl_cons, ih]
      · simp [push]
      · simp only [push, hleaf, List.length_append, List.length_singleton, Nat.add_sub_cancel,
          freshSlots_succ]
  rw [hgen rs self (by rw [hslots, hrecords]; rfl), hrecords]
  rfl

/-- The sibling with the upper half of the rows behind its own. -/
def receiver (self sibling : LeafNode) : LeafNode := self.upperRows.foldl push sibling

theorem InRange.receiver {sibling : LeafNode} (h : sibling.InRange) :
    (self.receiver sibling).InRange := h.foldl_push _

/-- The copying loop of `split`. -/
theorem IsSlotted.split_loop (hs : self.IsSlotted) (sibling : LeafNode) :
    (self.slotArray.drop (self.slotArray.length / 2)).foldlM (splitStep self.records) sibling =
      some (self.receiver sibling) := by
  rw [foldlM_splitStep _ (fun s hmem => recordAt_eq (hs.lt (List.mem_of_mem_drop hmem))),
    receiver, upperRows, rows, List.map_drop]

/-- A split that returns has compacted both halves; the promoted row id is that of the first row
of the upper one, and there may be none. -/
theorem IsSlotted.split_eq_some (hs : self.IsSlotted) {sibling left right : LeafNode}
    {r : Except DbError UInt64} (h : split (self, sibling) = some (r, (left, right))) :
    self.lowerHalf.compact = some left ∧ (self.receiver sibling).compact = some right ∧
      ((right.slotArray = [] ∧
          r = .error (.corruptPage "leaf split resulted in empty right sibling")) ∨
        ∃ slot first, right.slotArray[0]? = some slot ∧ right.recordAt slot = some first ∧
          r = .ok first.rowId) := by
  rw [split] at h
  simp only [hs.split_loop, Option.bind_eq_bind, Option.bind_some] at h
  obtain ⟨left', hleft, h⟩ := Option.bind_eq_some_iff.mp h
  obtain ⟨right', hright, h⟩ := Option.bind_eq_some_iff.mp h
  cases hslot : right'.slotArray[0]? with
  | none =>
    rw [hslot] at h
    cases h
    refine ⟨hleft, hright, .inl ⟨?_, rfl⟩⟩
    exact List.eq_nil_of_length_eq_zero (Nat.le_zero.mp (List.getElem?_eq_none_iff.mp hslot))
  | some slot =>
    rw [hslot] at h
    obtain ⟨first, hfirst, h⟩ := Option.bind_eq_some_iff.mp h
    cases h
    exact ⟨hleft, hright, .inr ⟨slot, first, hslot, hfirst, rfl⟩⟩

/-- Everything a call of `split` that returns can have done. Both halves are compacted before the
sibling is found to be empty. -/
theorem IsSlotted.split_outcome (hs : self.IsSlotted) {sibling left right : LeafNode}
    (hsib : sibling.InRange) {r : Except DbError UInt64}
    (h : split (self, sibling) = some (r, (left, right))) :
    packedSize self.lowerHalf.liveRows ≤ pageSize ∧ left = self.lowerHalf.compacted ∧
    packedSize (self.receiver sibling).liveRows ≤ pageSize ∧
    right = (self.receiver sibling).compacted ∧
    (((self.receiver sibling).liveRows = [] ∧
        r = .error (.corruptPage "leaf split resulted in empty right sibling")) ∨
      ∃ first rest, (self.receiver sibling).liveRows = first :: rest ∧ r = .ok first.rowId) := by
  obtain ⟨hleft, hright, hres⟩ := hs.split_eq_some h
  obtain ⟨hfitl, rfl⟩ := compact_eq_some hs.inRange.lowerHalf hleft
  obtain ⟨hfitr, rfl⟩ := compact_eq_some hsib.receiver hright
  refine ⟨hfitl, rfl, hfitr, rfl, ?_⟩
  have hrows := rows_compacted hfitr
  rcases hres with ⟨hnil, hr⟩ | ⟨slot, first, hslot, hfirst, hr⟩
  · refine .inl ⟨?_, hr⟩
    rw [← hrows, rows, hnil, List.map_nil]
  · -- the row behind the first slot is the first of the live rows
    have hrow : (self.receiver sibling).compacted.rows[0]? = some first :=
      rows_of_slot hslot hfirst
    rw [hrows] at hrow
    cases hlive : (self.receiver sibling).liveRows with
    | nil =>
      rw [hlive] at hrow
      cases hrow
    | cons row rest =>
      rw [hlive] at hrow
      cases hrow
      exact .inr ⟨_, rest, rfl, hr⟩

/-- `split` returns when both halves fit. -/
theorem IsSlotted.split_returns (hs : self.IsSlotted) {sibling : LeafNode} (hsib : sibling.InRange)
    (hlower : packedSize self.lowerHalf.liveRows ≤ pageSize)
    (hupper : packedSize (self.receiver sibling).liveRows ≤ pageSize) :
    ∃ r left right, split (self, sibling) = some (r, (left, right)) := by
  have hleft : LeafNode.compact { self with
      slotArray := self.slotArray.take (self.slotArray.length / 2) } =
      some self.lowerHalf.compacted := by
    rw [← lowerHalf, compact_eq hs.inRange.lowerHalf, if_pos hlower]
  have hright : (self.receiver sibling).compact = some (self.receiver sibling).compacted := by
    rw [compact_eq hsib.receiver, if_pos hupper]
  -- neither half panics in its compaction, and the first slot above is in range
  rw [split]
  simp only [hs.split_loop, hleft, hright, Option.bind_eq_bind, Option.bind_some]
  cases hfirst : (self.receiver sibling).compacted.slotArray[0]? with
  | none => exact ⟨_, _, _, rfl⟩
  | some slot =>
    have hslot := isSlotted_compacted hupper
    have hrecord := recordAt_eq (hslot.lt (List.mem_of_getElem? hfirst))
    exact ⟨_, _, _, congrArg (Option.bind · _) hrecord⟩

end LeafNode

end SmolDb
