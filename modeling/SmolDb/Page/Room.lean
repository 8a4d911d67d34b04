import SmolDb.Page.Budget
import SmolDb.Page.FiniteMap

/-!
# Room in a page

Four places of the source decide whether a record fits in a page. `encode` counts the header, a
slot and a cell for every record. `insert_record` counts the slot of a new record twice, so it
turns down records that `encode` would write (`insertRecord_full_iff`). On a tombstone it counts
nothing, and leaves it to `compact` to find that the records do not fit, which it takes for
impossible (`insertRecord_safe_iff`). `update_record` counts nothing either, and rejects a payload
of the greatest size that `insert_record` accepts (`updateRecord_agrees_iff`).
-/

namespace SmolDb

open LeafNode

/-! ### Leaves that calls lead to -/

/-- The leaves that calls of certain kinds lead to from an empty leaf, with any results. -/
inductive Built (kind : LeafOp → Prop) : LeafNode → Prop
  | new (pageId : PageId) : Built kind (LeafNode.newEmpty pageId)
  | call {leaf leaf' : LeafNode} {r : Except DbError Unit} (op : LeafOp) (hop : kind op)
      (hleaf : Built kind leaf) (h : op.call leaf = some (r, leaf')) : Built kind leaf'

namespace Built

variable {kind : LeafOp → Prop} {leaf : LeafNode}

theorem slotted (h : Built kind leaf) : leaf.IsSlotted := by
  induction h with
  | new pageId => exact isSlotted_newEmpty pageId
  | call op _ _ h ih => exact (LeafOp.keeps_call op).slotted ih h

theorem sorted (h : Built kind leaf) : leaf.Sorted := by
  induction h with
  | new pageId => exact sorted_newEmpty pageId
  | call op _ hleaf h ih => exact op.sorted_call hleaf.slotted ih h

/-- Calls of other kinds lead further. -/
theorem mono {kind' : LeafOp → Prop} (hkind : ∀ op, kind op → kind' op) (h : Built kind leaf) :
    Built kind' leaf := by
  induction h with
  | new pageId => exact .new pageId
  | call op hop _ h ih => exact .call op (hkind op hop) ih h

/-- A run of calls that return `Ok`. -/
theorem runCalls {leaf' : LeafNode} {ops : List LeafOp} (hleaf : Built kind leaf)
    (hops : ∀ op ∈ ops, kind op) (h : runCalls leaf ops = some leaf') : Built kind leaf' :=
  runCalls_keeps (fun op hop _ _ ha hcall => .call op (hops op hop) ha hcall) hleaf h

end Built

namespace LeafNode

variable {self self' : LeafNode} {k : UInt64} {v : List UInt8}

/-! ### The branches of `insert_record` -/

theorem insertRecord_of_large (hlen : maxValueSize < v.length) :
    insertRecord k v self = some (.error (.tupleTooLarge v.length), self) := if_pos hlen

theorem IsSlotted.insertRecord_of_live (hs : self.IsSlotted) (hlen : v.length ≤ maxValueSize)
    {i : ℕ} {record : Record} (hsearch : self.searchKey k = some (.ok i))
    (hrow : self.rows[i]? = some record) (hlive : record.isDeleted = false) :
    insertRecord k v self = some (.error (.duplicateKey k), self) := by
  obtain ⟨slot, hslot, hrecord⟩ := hs.inRange.slot_of_rows hrow
  rw [insertRecord, if_neg (Nat.not_lt.mpr hlen)]
  simp only [hsearch, hslot, hrecord, Option.bind_eq_bind, Option.bind_some, hlive]
  rfl

/-- On a tombstone everything is up to `compact`. -/
theorem IsSlotted.insertRecord_of_dead (hs : self.IsSlotted) (hlen : v.length ≤ maxValueSize)
    {i : ℕ} {slot : UInt16} {record : Record} (hsearch : self.searchKey k = some (.ok i))
    (hrow : self.rows[i]? = some record) (hslot : self.slotArray[i]? = some slot)
    (hdead : record.isDeleted = true) :
    insertRecord k v self =
      (self.overwrite slot { record with isDeleted := false, data := v }).compact.map
        fun leaf => (.ok (), leaf) := by
  obtain ⟨slot', hslot', hrecord⟩ := hs.inRange.slot_of_rows hrow
  obtain rfl : slot = slot' := Option.some.inj (hslot.symm.trans hslot')
  rw [insertRecord, if_neg (Nat.not_lt.mpr hlen)]
  simp only [hsearch, hslot, hrecord, Option.bind_eq_bind, Option.bind_some, hdead]
  rw [if_neg (by decide), Option.map_eq_bind]
  rfl

theorem IsSlotted.insertRecord_of_absent (hs : self.IsSlotted) (hlen : v.length ≤ maxValueSize)
    {i : ℕ} (hsearch : self.searchKey k = some (.error i)) :
    (self.HasRoom v.length → ∃ freeSize,
      insertRecord k v self = some (.ok (), self.appended i ⟨k, v, false⟩ freeSize)) ∧
    (¬ self.HasRoom v.length → insertRecord k v self = some (.error .pageFull, self)) := by
  rw [insertRecord, if_neg (Nat.not_lt.mpr hlen)]
  simp only [hsearch, hs.cells_eq, Option.bind_eq_bind, Option.bind_some]
  constructor
  · intro hroom
    rw [if_neg fun hfull => not_hasRoom_iff.mpr hfull hroom]
    exact ⟨_, rfl⟩
  · intro hno
    rw [if_pos (not_hasRoom_iff.mp hno)]

/-! ### Sizes -/

theorem encodedSize_eq_packedSize (self : LeafNode) : self.encodedSize = packedSize self.rows := by
  rw [encodedSize, packedSize, length_rows]

theorem length_mul_le_footerLen (rs : List Record) : rs.length * recordMetaSize ≤ footerLen rs := by
  induction rs with
  | nil => exact Nat.zero_le _
  | cons r rs ih =>
    rw [footerLen_cons, List.length_cons]
    simp only [recordMetaSize] at ih ⊢
    omega

/-- More records than the limit allows do not fit anyway. -/
theorem lt_encodedSize (h : maxLeafNodeCells < self.slotArray.length) :
    pageSize < self.encodedSize := by
  have hcells := length_mul_le_footerLen self.rows
  rw [length_rows] at hcells
  unfold encodedSize
  simp only [maxLeafNodeCells, pageSize, leafNodeHeaderSize, slotElemSize, recordMetaSize] at *
  omega

/-- The bytes a record takes in a page: its slot and its cell. -/
def recordSize (v : List UInt8) : ℕ := slotElemSize + recordMetaSize + v.length

/-- **The test of `insert_record`** counts the slot of the new record twice. -/
theorem hasRoom_iff : self.HasRoom v.length ↔
    self.encodedSize + recordSize v + slotElemSize ≤ pageSize := by
  have hsize : leafNodeHeaderSize + (self.slotArray.length + 1) * slotElemSize +
      footerLen self.rows + (slotElemSize + recordMetaSize + v.length) =
      self.encodedSize + recordSize v + slotElemSize := by
    unfold encodedSize recordSize
    simp only [slotElemSize]
    omega
  unfold HasRoom
  rw [hsize]
  refine ⟨fun h => h.1, fun h => ⟨h, ?_⟩⟩
  by_contra hmany
  have hlarge := lt_encodedSize (Nat.lt_of_not_le hmany)
  omega

/-- Fewer records take fewer bytes. -/
theorem packedSize_le_of_sublist {rs rs' : List Record} (h : rs.Sublist rs') :
    packedSize rs ≤ packedSize rs' := by
  have hfooter : footerLen rs ≤ footerLen rs' := by
    induction h with
    | slnil => exact Nat.le_refl _
    | cons r _ ih => exact Nat.le_trans ih (Nat.le_add_left ..)
    | cons_cons r _ ih =>
      rw [footerLen_cons, footerLen_cons]
      exact Nat.add_le_add_left ih _
  have hslots := Nat.mul_le_mul_right slotElemSize h.length_le
  exact Nat.add_le_add (Nat.add_le_add_left hslots _) hfooter

theorem packedSize_append_cons (as bs : List Record) (r : Record) :
    packedSize (as ++ r :: bs) = packedSize (as ++ bs) + recordSize r.data := by
  unfold packedSize recordSize
  rw [footerLen_append, footerLen_append, footerLen_cons, List.length_append, List.length_append,
    List.length_cons]
  simp only [slotElemSize]
  omega

/-! ### Adding a record -/

/-- The leaf with the record added where its row id belongs. -/
def withRecord (self : LeafNode) (k : UInt64) (v : List UInt8) : LeafNode :=
  self.appended (self.rows.filter fun r => r.rowId < k).length ⟨k, v, false⟩ self.freeSize

/-- The node is turned down by `encode`. -/
def Rejected (self : LeafNode) : Prop :=
  ∀ page : Page, ∃ e page', (BTreeNode.leaf self).encode page = some (.error e, page')

theorem InRange.rejected (hs : self.InRange) (h : pageSize < self.encodedSize) :
    self.Rejected := by
  intro page
  refine ⟨.pageFull, page, ?_⟩
  show (LeafNode.encodeAt self (ByteCursor.new page)).map _ = _
  rw [hs.encodeAt_of_gt h]
  rfl

theorem IsSlotted.rejected_iff (hs : self.IsSlotted) :
    self.Rejected ↔ pageSize < self.encodedSize := by
  refine ⟨fun h => ?_, hs.inRange.rejected⟩
  by_contra hno
  obtain ⟨written, hok⟩ := (encodes_iff hs).mpr (Nat.le_of_not_lt hno) Page.new
  obtain ⟨e, page', herror⟩ := h Page.new
  rw [hok] at herror
  cases herror

/-- The place of a row id that the leaf does not have. -/
theorem IsSlotted.search_of_absent (hs : self.IsSlotted) (hsorted : self.Sorted)
    (habsent : ∀ r ∈ self.rows, r.rowId ≠ k) :
    ∃ as bs, self.rows = as ++ bs ∧ self.searchKey k = some (.error as.length) ∧
      (self.rows.filter fun r => r.rowId < k).length = as.length := by
  rcases hs.searchKey_sorted hsorted k with ⟨as, r, bs, hrows, hkey, -⟩ |
    ⟨as, bs, hrows, has, hbs, hsearch⟩
  · refine absurd hkey (habsent r ?_)
    rw [hrows]
    exact List.mem_append_right _ (List.mem_cons_self ..)
  · refine ⟨as, bs, hrows, hsearch, ?_⟩
    have hlow : as.filter (fun r => decide (r.rowId < k)) = as :=
      List.filter_eq_self.mpr fun a ha => decide_eq_true (UInt64.lt_iff_toNat_lt.mpr (has a ha))
    have hhigh : bs.filter (fun r => decide (r.rowId < k)) = [] :=
      List.filter_eq_nil_iff.mpr fun b hb hlt =>
        Nat.lt_asymm (hbs b hb) (UInt64.lt_iff_toNat_lt.mp (of_decide_eq_true hlt))
    rw [hrows, List.filter_append, hlow, hhigh, List.append_nil]

/-- What the leaf with the record needs; a leaf of so many records that the new slot would not be
a `u16` is too large already. -/
theorem IsSlotted.withRecord_rejected_iff (hs : self.IsSlotted) (hsorted : self.Sorted)
    (habsent : ∀ r ∈ self.rows, r.rowId ≠ k) :
    (self.withRecord k v).Rejected ↔ pageSize < self.encodedSize + recordSize v := by
  obtain ⟨as, bs, hrows, -, hplace⟩ := hs.search_of_absent hsorted habsent
  have hi : as.length ≤ self.slotArray.length := by
    rw [← length_rows, hrows, List.length_append]
    exact Nat.le_add_right ..
  unfold withRecord
  rw [hplace]
  -- past the range of a slot the leaf is too large for its page with and without the record
  by_cases hn : self.records.length < 65536
  · rw [(hs.appended hi hn _ _).rejected_iff, encodedSize_eq_packedSize,
      hs.rows_appended hn, hrows, insertIdx_length_append, packedSize_append_cons,
      encodedSize_eq_packedSize, hrows]
  · rw [← hs.length_eq] at hn
    have hmany : maxLeafNodeCells < self.slotArray.length :=
      Nat.lt_of_lt_of_le (by decide) (Nat.le_of_not_lt hn)
    have hlarge := lt_encodedSize hmany
    refine ⟨fun _ => by omega, fun _ => ?_⟩
    refine InRange.rejected ?_ (lt_encodedSize ?_)
    · intro s hmem
      show s.toNat < (self.records ++ [_]).length
      rw [List.length_append, List.length_singleton]
      rcases (List.mem_insertIdx hi).mp hmem with rfl | hold
      · rw [UInt16.toNat_ofNat']
        exact Nat.lt_succ_of_le (Nat.mod_le _ _)
      · exact Nat.lt_succ_of_lt (hs.lt hold)
    · show maxLeafNodeCells < (self.slotArray.insertIdx _ _).length
      rw [List.length_insertIdx_of_le_length hi]
      exact Nat.lt_succ_of_lt hmany

/-- `insert_record` wants room for the record and two bytes more. -/
theorem IsSlotted.insertRecord_pageFull_iff (hs : self.IsSlotted) (hlen : v.length ≤ maxValueSize)
    {i : ℕ} (hsearch : self.searchKey k = some (.error i)) :
    (∃ self', insertRecord k v self = some (.error .pageFull, self')) ↔
      pageSize < self.encodedSize + recordSize v + slotElemSize := by
  obtain ⟨hadded, hfull⟩ := hs.insertRecord_of_absent hlen hsearch
  constructor
  · rintro ⟨self', h⟩
    by_contra hno
    obtain ⟨freeSize, hok⟩ := hadded (hasRoom_iff.mpr (Nat.le_of_not_lt hno))
    rw [hok] at h
    cases h
  · intro hgt
    exact ⟨self, hfull fun hroom => Nat.not_lt.mpr (hasRoom_iff.mp hroom) hgt⟩

/-- **The capacity test against `encode`.** `insert_record` is full exactly when the leaf with the
record would be rejected, unless that leaf fills its page to the last byte or the one before. -/
theorem insertRecord_full_iff (hs : self.IsSlotted) (hsorted : self.Sorted)
    (habsent : ∀ r ∈ self.rows, r.rowId ≠ k) (hlen : v.length ≤ maxValueSize) :
    ((∃ self', insertRecord k v self = some (.error .pageFull, self')) ↔
        (self.withRecord k v).Rejected) ↔
      ¬ (self.encodedSize + recordSize v = pageSize - 1 ∨
        self.encodedSize + recordSize v = pageSize) := by
  obtain ⟨as, bs, -, hsearch, -⟩ := hs.search_of_absent hsorted habsent
  rw [hs.insertRecord_pageFull_iff hlen hsearch, hs.withRecord_rejected_iff hsorted habsent]
  simp only [pageSize, slotElemSize]
  omega

end LeafNode

/-- Nine records of the greatest size. -/
def nineLarge : List LeafOp :=
  (List.range 9).map fun i => .insertRecord (UInt64.ofNat i) (List.replicate maxValueSize 0)

/-- A call that adds or deletes a record. -/
def LeafOp.AddsOrDeletes : LeafOp → Prop
  | .insertRecord .. => True
  | .deleteRecord _ => True
  | _ => False

instance : DecidablePred LeafOp.AddsOrDeletes
  | .insertRecord .. => .isTrue trivial
  | .deleteRecord _ => .isTrue trivial
  | .updateRecord .. => .isFalse id
  | .compact => .isFalse id

/-- The leaf with nine records of the greatest size. -/
theorem built_nineLarge : ∃ leaf, runCalls (LeafNode.newEmpty ⟨4096⟩) nineLarge = some leaf ∧
    Built LeafOp.AddsOrDeletes leaf ∧ leaf.encodedSize = 3776 ∧ ∀ r ∈ leaf.rows, r.rowId ≠ 9 := by
  have hrun : (runCalls (LeafNode.newEmpty ⟨4096⟩) nineLarge).map
      (fun leaf => (leaf.encodedSize, leaf.rows.map Record.rowId)) =
      some (3776, [0, 1, 2, 3, 4, 5, 6, 7, 8]) := by
    decide +kernel
  obtain ⟨leaf, hleaf, heq⟩ := Option.map_eq_some_iff.mp hrun
  obtain ⟨hsize, hids⟩ := Prod.mk.inj heq
  refine ⟨leaf, hleaf, Built.runCalls (.new _) (by decide) hleaf, hsize, fun r hr heq => ?_⟩
  have hmem := List.mem_map_of_mem (f := Record.rowId) hr
  rw [hids, heq] at hmem
  exact absurd hmem (by decide)

/-- A record that is one byte too long for the rest of the page. -/
theorem insertRecord_full_nineLarge : ∃ leaf,
    runCalls (LeafNode.newEmpty ⟨4096⟩) nineLarge = some leaf ∧
      ((∃ self', insertRecord 9 (List.replicate 306 0) leaf = some (.error .pageFull, self')) ↔
        (leaf.withRecord 9 (List.replicate 306 0)).Rejected) := by
  obtain ⟨leaf, hleaf, hbuilt, hsize, habsent⟩ := built_nineLarge
  have hlen : (List.replicate 306 (0 : UInt8)).length ≤ maxValueSize := by
    rw [List.length_replicate]
    decide
  refine ⟨leaf, hleaf, (insertRecord_full_iff hbuilt.slotted hbuilt.sorted habsent hlen).mpr ?_⟩
  rw [hsize, recordSize, List.length_replicate]
  decide

/-- A record that would fill the page to the last byte is turned down. -/
theorem insertRecord_full_lastByte :
    ¬ ∀ (self : LeafNode) (k : UInt64) (v : List UInt8), self.IsSlotted → self.Sorted →
      (∀ r ∈ self.rows, r.rowId ≠ k) → v.length ≤ maxValueSize →
        ((∃ self', insertRecord k v self = some (.error .pageFull, self')) ↔
          (self.withRecord k v).Rejected) := by
  intro h
  obtain ⟨leaf, -, hbuilt, hsize, habsent⟩ := built_nineLarge
  have hs := hbuilt.slotted
  have hlen : (List.replicate 305 (0 : UInt8)).length ≤ maxValueSize := by
    rw [List.length_replicate]
    decide
  obtain ⟨as, bs, -, hsearch, -⟩ := hs.search_of_absent hbuilt.sorted habsent
  have hagree := h leaf 9 (List.replicate 305 0) hs hbuilt.sorted habsent hlen
  rw [hs.insertRecord_pageFull_iff hlen hsearch,
    hs.withRecord_rejected_iff hbuilt.sorted habsent, hsize, recordSize,
    List.length_replicate] at hagree
  exact absurd (hagree.mp (by decide)) (by decide)

namespace LeafNode

variable {self self' : LeafNode} {k : UInt64} {v : List UInt8}

/-! ### Reviving a tombstone -/

/-- The place of a record of a sorted leaf. It is the only record with its row id. -/
theorem IsSlotted.search_of_mem (hs : self.IsSlotted) (hsorted : self.Sorted) {record : Record}
    (hmem : record ∈ self.rows) : ∃ as bs slot, self.rows = as ++ record :: bs ∧
      self.searchKey record.rowId = some (.ok as.length) ∧
      self.slotArray[as.length]? = some slot ∧
      (∀ a ∈ as, a.rowId ≠ record.rowId) ∧ ∀ b ∈ bs, b.rowId ≠ record.rowId := by
  rcases hs.searchKey_sorted hsorted record.rowId with
    ⟨as, r, bs, hrows, hkey, has, hbs, hsearch⟩ | ⟨as, bs, hrows, has, hbs, -⟩
  · have has' : ∀ a ∈ as, a.rowId ≠ record.rowId := fun a ha heq =>
      Nat.ne_of_lt (has a ha) (congrArg UInt64.toNat heq)
    have hbs' : ∀ b ∈ bs, b.rowId ≠ record.rowId := fun b hb heq =>
      Nat.ne_of_gt (hbs b hb) (congrArg UInt64.toNat heq)
    -- a sorted leaf has one row with the key
    have hr : record = r := by
      rw [hrows, List.mem_append, List.mem_cons] at hmem
      rcases hmem with ha | hr | hb
      · exact absurd rfl (has' record ha)
      · exact hr
      · exact absurd rfl (hbs' record hb)
    subst hr
    have hrow : self.rows[as.length]? = some record := by
      rw [hrows, List.getElem?_append_right (Nat.le_refl _), Nat.sub_self]
      rfl
    obtain ⟨slot, hslot, -⟩ := hs.inRange.slot_of_rows hrow
    exact ⟨as, bs, slot, hrows, hsearch, hslot, has', hbs'⟩
  · rw [hrows, List.mem_append] at hmem
    rcases hmem with ha | hb
    · exact absurd (has record ha) (Nat.lt_irrefl _)
    · exact absurd (hbs record hb) (Nat.lt_irrefl _)

/-- The live records, with the data `v` for the row id `k`. -/
def rowsWith (self : LeafNode) (k : UInt64) (v : List UInt8) : List Record :=
  (self.rows.map fun r => if r.rowId = k then ⟨k, v, false⟩ else r).filter fun r => !r.isDeleted

theorem rowsWith_of_rows {as bs : List Record} {record : Record}
    (hrows : self.rows = as ++ record :: bs) (has : ∀ a ∈ as, a.rowId ≠ record.rowId)
    (hbs : ∀ b ∈ bs, b.rowId ≠ record.rowId) (v : List UInt8) :
    self.rowsWith record.rowId v =
      (as ++ ⟨record.rowId, v, false⟩ :: bs).filter fun r => !r.isDeleted := by
  have hkeep : ∀ rs : List Record, (∀ r ∈ rs, r.rowId ≠ record.rowId) →
      rs.map (fun r => if r.rowId = record.rowId then ⟨record.rowId, v, false⟩ else r) = rs := by
    intro rs hrs
    exact (List.map_congr_left fun r hr => if_neg (hrs r hr)).trans (List.map_id' rs)
  unfold rowsWith
  rw [hrows, List.map_append, List.map_cons, hkeep as has, hkeep bs hbs, if_pos rfl]

/-- **A revived tombstone** leaves the live records with the new one, when they fit in a page;
otherwise `compact` reaches its `unreachable!()`. -/
theorem IsSlotted.insertRecord_buried (hs : self.IsSlotted) (hsorted : self.Sorted)
    (hburied : self.Buried k) (hlen : v.length ≤ maxValueSize) :
    (packedSize (self.rowsWith k v) ≤ pageSize → ∃ self',
      insertRecord k v self = some (.ok (), self') ∧ self'.rows = self.rowsWith k v) ∧
    (pageSize < packedSize (self.rowsWith k v) → insertRecord k v self = none) := by
  obtain ⟨record, hmem, rfl, hdead⟩ := hburied
  obtain ⟨as, bs, slot, hrows, hsearch, hslot, has, hbs⟩ := hs.search_of_mem hsorted hmem
  have hrow : self.rows[as.length]? = some record := by
    rw [hrows, List.getElem?_append_right (Nat.le_refl _), Nat.sub_self]
    rfl
  -- the compaction sees the live rows with the tombstone turned into the record
  have hlive : (self.overwrite slot { record with isDeleted := false, data := v }).liveRows =
      self.rowsWith record.rowId v := by
    rw [liveRows, hs.rows_overwrite hslot, hrows, set_length_append,
      rowsWith_of_rows hrows has hbs]
  rw [hs.insertRecord_of_dead hlen hsearch hrow hslot hdead,
    compact_eq (overwrite_inRange hs slot _), hlive]
  constructor
  · intro hfit
    rw [if_pos hfit]
    refine ⟨_, rfl, ?_⟩
    rw [rows_compacted (by rwa [hlive]), hlive]
  · intro hgt
    rw [if_neg (Nat.not_le.mpr hgt)]
    rfl

/-- **Without a tombstone**: the leaf has the row, or takes the record, or is full. -/
theorem IsSlotted.insertRecord_unburied (hs : self.IsSlotted) (hsorted : self.Sorted)
    (hburied : ¬ self.Buried k) (hlen : v.length ≤ maxValueSize) :
    ((∃ record ∈ self.rows, record.rowId = k) ∧
        insertRecord k v self = some (.error (.duplicateKey k), self)) ∨
      ((∀ record ∈ self.rows, record.rowId ≠ k) ∧ self.HasRoom v.length ∧
        ∃ self', insertRecord k v self = some (.ok (), self')) ∨
      ((∀ record ∈ self.rows, record.rowId ≠ k) ∧ ¬ self.HasRoom v.length ∧
        insertRecord k v self = some (.error .pageFull, self)) := by
  by_cases hlive : ∃ record ∈ self.rows, record.rowId = k
  · refine .inl ⟨hlive, ?_⟩
    obtain ⟨record, hmem, rfl⟩ := hlive
    have hnot : record.isDeleted = false := by
      rw [← Bool.not_eq_true]
      exact fun hdead => hburied ⟨record, hmem, rfl, hdead⟩
    obtain ⟨as, bs, slot, hrows, hsearch, -⟩ := hs.search_of_mem hsorted hmem
    have hrow : self.rows[as.length]? = some record := by
      rw [hrows, List.getElem?_append_right (Nat.le_refl _), Nat.sub_self]
      rfl
    exact hs.insertRecord_of_live hlen hsearch hrow hnot
  · have habsent : ∀ r ∈ self.rows, r.rowId ≠ k := fun r hr heq => hlive ⟨r, hr, heq⟩
    obtain ⟨as, bs, -, hsearch, -⟩ := hs.search_of_absent hsorted habsent
    obtain ⟨hadded, hfull⟩ := hs.insertRecord_of_absent hlen hsearch
    by_cases hroom : self.HasRoom v.length
    · obtain ⟨freeSize, hret⟩ := hadded hroom
      exact .inr (.inl ⟨habsent, hroom, _, hret⟩)
    · exact .inr (.inr ⟨habsent, hroom, hfull hroom⟩)

/-- The record fits in the page: in place of its tombstone, which drops the other tombstones, or
next to all records that are there. -/
def FitsInPage (self : LeafNode) (k : UInt64) (v : List UInt8) : Prop :=
  (self.Buried k → packedSize (self.rowsWith k v) ≤ pageSize) ∧
    (¬ self.Buried k → self.encodedSize + recordSize v ≤ pageSize)

/-- `insert_record` returns, and when the payload does not fit in the page it is full and changes no
lookup. -/
def InsertsSafely (self : LeafNode) (k : UInt64) (v : List UInt8) : Prop :=
  ∃ r self', insertRecord k v self = some (r, self') ∧
    (¬ self.FitsInPage k v → r = .error .pageFull ∧ ∀ k', self'.getRecord k' = self.getRecord k')

/-- **The only crash** is on a tombstone. -/
theorem IsSlotted.insertRecord_isSome_iff (hs : self.IsSlotted) (hsorted : self.Sorted)
    (k : UInt64) (v : List UInt8) :
    (insertRecord k v self).isSome ↔
      ¬ (v.length ≤ maxValueSize ∧ self.Buried k ∧ pageSize < packedSize (self.rowsWith k v)) := by
  constructor
  · rintro hsome ⟨hlen, hburied, hgt⟩
    rw [(hs.insertRecord_buried hsorted hburied hlen).2 hgt] at hsome
    cases hsome
  · intro hsafe
    by_cases hlen : v.length ≤ maxValueSize
    · by_cases hburied : self.Buried k
      · have hfit : packedSize (self.rowsWith k v) ≤ pageSize :=
          Nat.le_of_not_lt fun hgt => hsafe ⟨hlen, hburied, hgt⟩
        obtain ⟨self', hret, -⟩ := (hs.insertRecord_buried hsorted hburied hlen).1 hfit
        rw [hret]
        rfl
      · rcases hs.insertRecord_unburied hsorted hburied hlen with
          ⟨-, hret⟩ | ⟨-, -, self', hret⟩ | ⟨-, -, hret⟩ <;> rw [hret] <;> rfl
    · rw [insertRecord_of_large (Nat.lt_of_not_le hlen)]
      rfl

/-- **When inserting is safe.** A payload that fits in the page is. One that does not fit is turned
down with `PageFull` when it has a valid size and the leaf has no record with the row id; its size
and a live record are noticed before that, and with a tombstone, then only, `insert_record` does not
return. -/
theorem insertRecord_safe_iff (h : Built LeafOp.AddsOrDeletes self) (k : UInt64)
    (v : List UInt8) :
    (self.InsertsSafely k v ↔
      self.FitsInPage k v ∨ v.length ≤ maxValueSize ∧ ∀ record ∈ self.rows, record.rowId ≠ k) ∧
    ((insertRecord k v self).isSome ↔
      ¬ (v.length ≤ maxValueSize ∧ self.Buried k ∧
        pageSize < packedSize (self.rowsWith k v))) := by
  have hs := h.slotted
  have hsome := hs.insertRecord_isSome_iff h.sorted k v
  refine ⟨?_, hsome⟩
  constructor
  · rintro ⟨r, self', hret, hfull⟩
    by_contra hno
    obtain ⟨hunfit, hcase⟩ := not_or.mp hno
    obtain ⟨rfl, -⟩ := hfull hunfit
    -- another error comes first
    by_cases hlen : v.length ≤ maxValueSize
    · have hburied : ¬ self.Buried k := by
        intro hburied
        have hgt : pageSize < packedSize (self.rowsWith k v) := by
          by_contra hle
          exact hunfit ⟨fun _ => Nat.le_of_not_lt hle, fun hno => absurd hburied hno⟩
        rw [(hs.insertRecord_buried h.sorted hburied hlen).2 hgt] at hret
        cases hret
      rcases hs.insertRecord_unburied h.sorted hburied hlen with
        ⟨-, hdup⟩ | ⟨habsent, -⟩ | ⟨habsent, -⟩
      · rw [hdup] at hret
        cases hret
      · exact hcase ⟨hlen, habsent⟩
      · exact hcase ⟨hlen, habsent⟩
    · rw [insertRecord_of_large (Nat.lt_of_not_le hlen)] at hret
      cases hret
  · intro hcase
    by_cases hfit : self.FitsInPage k v
    · obtain ⟨⟨r, self'⟩, hret⟩ := Option.isSome_iff_exists.mp (hsome.mpr fun ⟨_, hburied, hgt⟩ =>
        absurd (hfit.1 hburied) (Nat.not_le.mpr hgt))
      exact ⟨r, self', hret, fun hno => absurd hfit hno⟩
    · obtain ⟨hlen, habsent⟩ := hcase.resolve_left hfit
      have hburied : ¬ self.Buried k := fun ⟨record, hmem, heq, _⟩ => habsent record hmem heq
      rcases hs.insertRecord_unburied h.sorted hburied hlen with
        ⟨⟨record, hmem, heq⟩, -⟩ | ⟨-, hroom, -⟩ | ⟨-, -, hret⟩
      · exact absurd heq (habsent record hmem)
      · refine absurd ⟨fun hb => absurd hb hburied, fun _ => ?_⟩ hfit
        exact Nat.le_trans (Nat.le_add_right ..) (hasRoom_iff.mp hroom)
      · exact ⟨_, _, hret, fun _ => ⟨rfl, fun _ => rfl⟩⟩

/-- The leaf with nine records of the greatest size, and a tombstone. -/
theorem built_tombstone : ∃ leaf,
    runCalls (newEmpty ⟨4096⟩) (nineLarge ++ [.insertRecord 9 [7], .deleteRecord 9]) = some leaf ∧
      Built LeafOp.AddsOrDeletes leaf ∧ leaf.Buried 9 ∧
      packedSize (leaf.rowsWith 9 (List.replicate 305 0)) = pageSize ∧
      packedSize (leaf.rowsWith 9 (List.replicate maxValueSize 0)) = pageSize + 95 := by
  have hrun : (runCalls (newEmpty ⟨4096⟩)
      (nineLarge ++ [.insertRecord 9 [7], .deleteRecord 9])).map (fun leaf =>
        (packedSize (leaf.rowsWith 9 (List.replicate 305 0)),
          packedSize (leaf.rowsWith 9 (List.replicate maxValueSize 0)),
          leaf.rows.any fun record => record.rowId = 9 ∧ record.isDeleted)) =
      some (4096, 4191, true) := by
    decide +kernel
  obtain ⟨leaf, hleaf, heq⟩ := Option.map_eq_some_iff.mp hrun
  obtain ⟨hfits, heq⟩ := Prod.mk.inj heq
  obtain ⟨hlarge, hany⟩ := Prod.mk.inj heq
  refine ⟨leaf, hleaf, Built.runCalls (.new _) (by decide) hleaf, ?_, hfits, hlarge⟩
  obtain ⟨record, hmem, hrecord⟩ := List.any_eq_true.mp hany
  obtain ⟨hid, hdead⟩ := of_decide_eq_true hrecord
  exact ⟨record, hmem, hid, hdead⟩

/-- In place of a tombstone there is room for 305 bytes, and not for 400. -/
theorem insertRecord_safe_tombstone : ∃ leaf,
    runCalls (newEmpty ⟨4096⟩) (nineLarge ++ [.insertRecord 9 [7], .deleteRecord 9]) = some leaf ∧
      leaf.Buried 9 ∧ leaf.InsertsSafely 9 (List.replicate 305 0) ∧
      ¬ leaf.InsertsSafely 9 (List.replicate maxValueSize 0) := by
  obtain ⟨leaf, hleaf, hbuilt, hburied, hfits, hlarge⟩ := built_tombstone
  refine ⟨leaf, hleaf, hburied, ?_, fun hsafe => ?_⟩
  · refine (insertRecord_safe_iff hbuilt 9 _).1.mpr (.inl ⟨fun _ => ?_, fun hno => ?_⟩)
    · exact Nat.le_of_eq hfits
    · exact absurd hburied hno
  · rcases (insertRecord_safe_iff hbuilt 9 _).1.mp hsafe with ⟨hfit, -⟩ | ⟨-, habsent⟩
    · have hle := hfit hburied
      rw [hlarge] at hle
      exact absurd hle (by decide)
    · obtain ⟨record, hmem, hid, -⟩ := hburied
      exact habsent record hmem hid

/-- A leaf full of large records, of which a small one was deleted. -/
theorem insertRecord_crashes :
    ¬ ∀ self : LeafNode, Built LeafOp.AddsOrDeletes self →
      ∀ (k : UInt64) (v : List UInt8), self.InsertsSafely k v := by
  intro h
  have hrun : (runCalls (newEmpty ⟨4096⟩) (nineLarge ++ [.insertRecord 9 [7], .deleteRecord 9])).map
      (fun leaf => (insertRecord 9 (List.replicate maxValueSize 0) leaf).isSome) = some false := by
    decide +kernel
  obtain ⟨leaf, hleaf, hnone⟩ := Option.map_eq_some_iff.mp hrun
  have hbuilt : Built LeafOp.AddsOrDeletes leaf := Built.runCalls (.new _) (by decide) hleaf
  obtain ⟨r, leaf', hret, -⟩ := h leaf hbuilt 9 (List.replicate maxValueSize 0)
  rw [hret] at hnone
  cases hnone

/-! ### Updating, and deleting and re-inserting -/

/-- Leaves in order with the same live pairs give the same answers. -/
theorem getRecord_congr {a b : LeafNode} (hsa : a.IsSlotted) (ha : a.Sorted) (hsb : b.IsSlotted)
    (hb : b.Sorted) (hlive : a.live = b.live) (k : UInt64) : a.getRecord k = b.getRecord k := by
  obtain ⟨found, hget, hfound⟩ := hsa.getRecord_sorted ha k
  obtain ⟨found', hget', hfound'⟩ := hsb.getRecord_sorted hb k
  rw [hget, hget']
  refine congrArg some (Option.ext fun v => ?_)
  rw [hfound, hfound', hlive]

/-- What `update_record` does to a record that the leaf has. -/
theorem IsSlotted.updateRecord_of_mem (hs : self.IsSlotted) (hlen : v.length < maxValueSize)
    {i : ℕ} {slot : UInt16} {record : Record} (hsearch : self.searchKey k = some (.ok i))
    (hrow : self.rows[i]? = some record) (hslot : self.slotArray[i]? = some slot) :
    updateRecord k v self = some (.ok (), self.overwrite slot { record with data := v }) := by
  obtain ⟨slot', hslot', hrecord⟩ := hs.inRange.slot_of_rows hrow
  obtain rfl : slot = slot' := Option.some.inj (hslot.symm.trans hslot')
  rw [updateRecord, if_neg (Nat.not_le.mpr hlen)]
  simp only [hsearch, hslot, hrecord, Option.bind_eq_bind, Option.bind_some]
  rfl

/-- What `delete_record` does to a record that the leaf has. -/
theorem IsSlotted.deleteRecord_of_mem (hs : self.IsSlotted) {i : ℕ} {slot : UInt16}
    {record : Record} (hsearch : self.searchKey k = some (.ok i))
    (hrow : self.rows[i]? = some record) (hslot : self.slotArray[i]? = some slot) :
    deleteRecord k self = some (.ok (), self.overwrite slot { record with isDeleted := true }) := by
  obtain ⟨slot', hslot', hrecord⟩ := hs.inRange.slot_of_rows hrow
  obtain rfl : slot = slot' := Option.some.inj (hslot.symm.trans hslot')
  rw [deleteRecord]
  simp only [hsearch, hslot, hrecord, Option.bind_eq_bind, Option.bind_some]
  rfl

/-- `update_record` returns `Ok` exactly when `delete_record` and `insert_record` do; the leaves
they leave then give the same answers, and both can be written back. -/
def UpdateAgrees (self : LeafNode) (k : UInt64) (v : List UInt8) : Prop :=
  ((∃ a, updateRecord k v self = some (.ok (), a)) ↔ ∃ deleted b,
      deleteRecord k self = some (.ok (), deleted) ∧
        insertRecord k v deleted = some (.ok (), b)) ∧
    ∀ a deleted b, updateRecord k v self = some (.ok (), a) →
      deleteRecord k self = some (.ok (), deleted) →
        insertRecord k v deleted = some (.ok (), b) →
          (∀ k', a.getRecord k' = b.getRecord k') ∧ a.Encodes ∧ b.Encodes

/-- The leaves that updating, and deleting and re-inserting, lead to. -/
theorem IsSlotted.update_and_replace (hs : self.IsSlotted) (hsorted : self.Sorted)
    {old : List UInt8} (hmem : ⟨k, old, false⟩ ∈ self.rows) :
    ∃ a deleted,
      (v.length < maxValueSize → updateRecord k v self = some (.ok (), a)) ∧
      a.IsSlotted ∧ a.encodedSize + old.length = self.encodedSize + v.length ∧
      deleteRecord k self = some (.ok (), deleted) ∧ deleted.IsSlotted ∧
      (a.live = livePairs (self.rowsWith k v)) ∧
      packedSize (self.rowsWith k v) ≤ a.encodedSize ∧
      (v.length ≤ maxValueSize →
        (packedSize (self.rowsWith k v) ≤ pageSize → ∃ b,
          insertRecord k v deleted = some (.ok (), b) ∧ b.rows = self.rowsWith k v) ∧
        (pageSize < packedSize (self.rowsWith k v) → insertRecord k v deleted = none)) := by
  obtain ⟨as, bs, slot, hrows, hsearch, hslot, has, hbs⟩ := hs.search_of_mem hsorted hmem
  have hrow : self.rows[as.length]? = some ⟨k, old, false⟩ := by
    rw [hrows, List.getElem?_append_right (Nat.le_refl _), Nat.sub_self]
    rfl
  have hwith := rowsWith_of_rows hrows has hbs v
  -- the leaf after the update
  have hrowsA : (self.overwrite slot ⟨k, v, false⟩).rows = as ++ ⟨k, v, false⟩ :: bs := by
    rw [hs.rows_overwrite hslot, hrows, set_length_append]
  have hsizeA := hs.encodedSize_overwrite hsearch hrow hslot ⟨k, v, false⟩
  -- the leaf between the two other calls
  have hdelete := hs.deleteRecord_of_mem hsearch hrow hslot
  have hsD := hs.overwrite slot (⟨k, old, true⟩ : Record)
  have hsortedD := (LeafOp.deleteRecord k).sorted_call hs hsorted hdelete
  have hrowsD : (self.overwrite slot ⟨k, old, true⟩).rows = as ++ ⟨k, old, true⟩ :: bs := by
    rw [hs.rows_overwrite hslot, hrows, set_length_append]
  have hburied : (self.overwrite slot ⟨k, old, true⟩).Buried k := by
    refine ⟨⟨k, old, true⟩, ?_, rfl, rfl⟩
    rw [hrowsD]
    exact List.mem_append_right _ (List.mem_cons_self ..)
  have hwithD : (self.overwrite slot ⟨k, old, true⟩).rowsWith k v = self.rowsWith k v := by
    rw [hwith]
    exact rowsWith_of_rows hrowsD has hbs v
  refine ⟨_, _, fun hlen => hs.updateRecord_of_mem hlen hsearch hrow hslot, hs.overwrite _ _,
    hsizeA, hdelete, hsD, ?_, ?_, fun hlen => ?_⟩
  · rw [live, hwith, livePairs_filter]
    exact congrArg livePairs hrowsA
  · rw [encodedSize_eq_packedSize, hwith]
    refine Nat.le_trans (packedSize_le_of_sublist List.filter_sublist) (Nat.le_of_eq ?_)
    exact congrArg packedSize hrowsA.symm
  · have hrevive := hsD.insertRecord_buried hsortedD hburied hlen
    rwa [hwithD] at hrevive

/-- A payload of the greatest size, or a larger one, is never an update. -/
theorem updateRecord_of_large (hlen : maxValueSize ≤ v.length) :
    updateRecord k v self = some (.error (.tupleTooLarge v.length), self) := if_pos hlen

/-- On a payload that both take, only the update may leave the page. -/
theorem IsSlotted.updateAgrees_of_lt (hs : self.IsSlotted) (hsorted : self.Sorted)
    {old : List UInt8} (hmem : ⟨k, old, false⟩ ∈ self.rows) (hlen : v.length < maxValueSize) :
    self.UpdateAgrees k v ↔ self.encodedSize + v.length ≤ pageSize + old.length := by
  obtain ⟨a, deleted, hupdate, hsA, hsizeA, hdelete, hsD, hliveA, hle, hinsert⟩ :=
    hs.update_and_replace (v := v) hsorted hmem
  have hupdate := hupdate hlen
  obtain ⟨hfits, -⟩ := hinsert (Nat.le_of_lt hlen)
  have hiff : self.encodedSize + v.length ≤ pageSize + old.length ↔ a.encodedSize ≤ pageSize := by
    rw [← hsizeA]
    exact Nat.add_le_add_iff_right
  rw [hiff]
  constructor
  · rintro ⟨hboth, hsame⟩
    obtain ⟨deleted', b, hdelete', hb⟩ := hboth.mp ⟨a, hupdate⟩
    obtain ⟨-, hencodes, -⟩ := hsame a deleted' b hupdate hdelete' hb
    exact (encodes_iff hsA).mp hencodes
  · intro hfitA
    obtain ⟨b, hb, hrowsB⟩ := hfits (Nat.le_trans hle hfitA)
    refine ⟨⟨fun _ => ⟨deleted, b, hdelete, hb⟩, fun _ => ⟨a, hupdate⟩⟩, ?_⟩
    intro a' deleted' b' ha' hdelete' hb'
    -- the calls have one result
    obtain rfl : a = a' := by
      rw [hupdate] at ha'
      cases ha'
      rfl
    obtain rfl : deleted = deleted' := by
      rw [hdelete] at hdelete'
      cases hdelete'
      rfl
    obtain rfl : b = b' := by
      rw [hb] at hb'
      cases hb'
      rfl
    have hsB := (LeafOp.keeps_call (.insertRecord k v)).slotted hsD hb
    have hsortedD := (LeafOp.deleteRecord k).sorted_call hs hsorted hdelete
    have hliveB : b.live = livePairs (self.rowsWith k v) := by
      rw [live, hrowsB]
    refine ⟨getRecord_congr hsA ?_ hsB ?_ (hliveA.trans hliveB.symm), ?_, ?_⟩
    · exact (LeafOp.updateRecord k v).sorted_call hs hsorted hupdate
    · exact (LeafOp.insertRecord k v).sorted_call hsD hsortedD hb
    · exact (encodes_iff hsA).mpr hfitA
    · exact (encodes_iff hsB).mpr (hsD.insertRecord_fits hb)

/-- On a payload that `update_record` turns down, the two agree when `insert_record` does not take
it either. -/
theorem IsSlotted.updateAgrees_of_ge (hs : self.IsSlotted) (hsorted : self.Sorted)
    {old : List UInt8} (hmem : ⟨k, old, false⟩ ∈ self.rows) (hlen : maxValueSize ≤ v.length) :
    self.UpdateAgrees k v ↔
      (v.length = maxValueSize → pageSize < packedSize (self.rowsWith k v)) := by
  obtain ⟨-, deleted, -, -, -, hdelete, -, -, -, hinsert⟩ :=
    hs.update_and_replace (v := v) hsorted hmem
  -- `update_record` refuses the largest size, `insert_record` takes it
  have hupdate : ∀ a, updateRecord k v self ≠ some (.ok (), a) := by
    intro a ha
    rw [updateRecord_of_large hlen] at ha
    cases ha
  constructor
  · rintro ⟨hboth, -⟩ heq
    refine Nat.lt_of_not_le fun hfit => ?_
    obtain ⟨b, hb, -⟩ := (hinsert (Nat.le_of_eq heq)).1 hfit
    obtain ⟨a, ha⟩ := hboth.mpr ⟨deleted, b, hdelete, hb⟩
    exact hupdate a ha
  · intro hcrash
    refine ⟨⟨fun ⟨a, ha⟩ => absurd ha (hupdate a), ?_⟩, fun a _ _ ha => absurd ha (hupdate a)⟩
    rintro ⟨deleted', b, hdelete', hb⟩
    rw [hdelete] at hdelete'
    cases hdelete'
    by_cases heq : v.length = maxValueSize
    · rw [(hinsert (Nat.le_of_eq heq)).2 (hcrash heq)] at hb
      cases hb
    · rw [insertRecord_of_large (Nat.lt_of_le_of_ne hlen fun h => heq h.symm)] at hb
      cases hb

/-- **When updating equals deleting and re-inserting**: the payload is shorter than the greatest
size and the leaf keeps within its page when the record is rewritten in place; or the payload has
the greatest size and the live records do not fit with it; or it is larger. -/
theorem updateRecord_agrees_iff (h : Built LeafOp.AddsOrDeletes self) {old : List UInt8}
    (hold : (k, old) ∈ self.live) :
    self.UpdateAgrees k v ↔
      (v.length < maxValueSize ∧ self.encodedSize + v.length ≤ pageSize + old.length) ∨
      (v.length = maxValueSize ∧ pageSize < packedSize (self.rowsWith k v)) ∨
      maxValueSize < v.length := by
  have hmem := mem_livePairs.mp hold
  -- below the bound the two differ in room only, from the bound on `update_record` refuses
  by_cases hlen : v.length < maxValueSize
  · rw [h.slotted.updateAgrees_of_lt h.sorted hmem hlen]
    constructor
    · exact fun hfit => .inl ⟨hlen, hfit⟩
    · rintro (⟨-, hfit⟩ | ⟨heq, -⟩ | hgt)
      · exact hfit
      · exact absurd heq (Nat.ne_of_lt hlen)
      · exact absurd hgt (Nat.lt_asymm hlen)
  · have hge := Nat.le_of_not_lt hlen
    rw [h.slotted.updateAgrees_of_ge h.sorted hmem hge]
    constructor
    · intro hcrash
      rcases Nat.eq_or_lt_of_le hge with heq | hgt
      · exact .inr (.inl ⟨heq.symm, hcrash heq.symm⟩)
      · exact .inr (.inr hgt)
    · rintro (⟨hlt, -⟩ | ⟨-, hgt⟩ | hlarge) heq
      · exact absurd hlt hlen
      · exact hgt
      · exact absurd heq (Nat.ne_of_gt hlarge)

theorem updateRecord_agrees_small :
    ∃ self : LeafNode, (1, [7]) ∈ self.live ∧
      (self.UpdateAgrees 1 [8] ↔
        (([8] : List UInt8).length < maxValueSize ∧
          self.encodedSize + ([8] : List UInt8).length ≤ pageSize + ([7] : List UInt8).length) ∨
        (([8] : List UInt8).length = maxValueSize ∧
          pageSize < packedSize (self.rowsWith 1 [8])) ∨
        maxValueSize < ([8] : List UInt8).length) := by
  have hrun : (runCalls (newEmpty ⟨4096⟩) [.insertRecord 1 [7]]).map live = some [(1, [7])] := by
    decide +kernel
  obtain ⟨leaf, hleaf, hlive⟩ := Option.map_eq_some_iff.mp hrun
  have hbuilt : Built LeafOp.AddsOrDeletes leaf := Built.runCalls (.new _) (by decide) hleaf
  have hmem : (1, [7]) ∈ leaf.live := by
    rw [hlive]
    exact List.mem_cons_self ..
  exact ⟨leaf, hmem, updateRecord_agrees_iff hbuilt hmem⟩

/-- A payload of the greatest size. -/
theorem updateRecord_disagrees :
    ¬ ∀ self : LeafNode, Built LeafOp.AddsOrDeletes self → ∀ (k : UInt64) (old : List UInt8),
      (k, old) ∈ self.live → ∀ v : List UInt8, self.UpdateAgrees k v := by
  intro h
  -- one record, replaced by one of the largest size
  have hrun : (runCalls (newEmpty ⟨4096⟩) [.insertRecord 1 [7]]).map (fun leaf =>
      (leaf.live, packedSize (leaf.rowsWith 1 (List.replicate maxValueSize 0)))) =
      some ([(1, [7])], 456) := by
    decide +kernel
  obtain ⟨leaf, hleaf, heq⟩ := Option.map_eq_some_iff.mp hrun
  obtain ⟨hlive, hsize⟩ := Prod.mk.inj heq
  have hbuilt : Built LeafOp.AddsOrDeletes leaf := Built.runCalls (.new _) (by decide) hleaf
  have hmem : (1, [7]) ∈ leaf.live := by
    rw [hlive]
    exact List.mem_cons_self ..
  have hlen : (List.replicate maxValueSize (0 : UInt8)).length = maxValueSize :=
    List.length_replicate
  have hagree := h leaf hbuilt 1 [7] hmem (List.replicate maxValueSize 0)
  rw [hbuilt.slotted.updateAgrees_of_ge hbuilt.sorted (mem_livePairs.mp hmem)
    (Nat.le_of_eq hlen.symm), hsize] at hagree
  exact absurd (hagree hlen) (by decide)

end LeafNode

end SmolDb
