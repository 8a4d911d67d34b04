import SmolDb.Page.Room
import SmolDb.Tree.Halves

/-!
# Room after a split

A full leaf is cut at half of its slots, whatever the records take, and the tombstones of both
halves are dropped. So the half that the new record belongs to may have no room for it, and the
upper half may have no record left at all. `split_makesRoom_iff` says when neither is the case.
-/

namespace SmolDb

/-- A call that changes one record. -/
def LeafOp.ChangesRecord : LeafOp → Prop
  | .compact => False
  | _ => True

instance : DecidablePred LeafOp.ChangesRecord
  | .insertRecord .. => .isTrue trivial
  | .updateRecord .. => .isTrue trivial
  | .deleteRecord _ => .isTrue trivial
  | .compact => .isFalse id

namespace LeafNode

variable {self self' : LeafNode} {k : UInt64} {v : List UInt8}

/-- What a split leaves of the lower half of the slots. -/
def lowerLive (self : LeafNode) : List Record :=
  (self.rows.take (self.rows.length / 2)).filter fun r => !r.isDeleted

/-- What a split leaves of the upper half of the slots. -/
def upperLive (self : LeafNode) : List Record :=
  (self.rows.drop (self.rows.length / 2)).filter fun r => !r.isDeleted

/-- The upper half has a live record, and the half that the row id belongs to has room for the
record, as `insert_record` counts it. -/
def HalfHasRoom (self : LeafNode) (k : UInt64) (v : List UInt8) : Prop :=
  ∃ first rest, self.upperLive = first :: rest ∧
    packedSize (if k < first.rowId then self.lowerLive else self.upperLive) + recordSize v +
      slotElemSize ≤ pageSize

/-- A split into a new leaf and the insert behind it both return `Ok`. -/
def SplitMakesRoom (self : LeafNode) (newLeafId : PageId) (k : UInt64) (v : List UInt8) : Prop :=
  ∃ promoted left right left' right',
    split (self, newEmpty newLeafId) = some (.ok promoted, (left, right)) ∧
      insertHalf k v promoted (left, right) = some (.ok (), (left', right'))

/-! ### The split -/

/-- The halves of a leaf that fits in a page do so too. -/
theorem IsSlotted.split_newEmpty (hs : self.IsSlotted) (hfit : self.encodedSize ≤ pageSize)
    (newLeafId : PageId) : ∃ r left right,
      split (self, newEmpty newLeafId) = some (r, (left, right)) := by
  rw [encodedSize_eq_packedSize] at hfit
  refine hs.split_returns (isSlotted_newEmpty newLeafId).inRange ?_ ?_
  · have hsub : self.lowerHalf.liveRows.Sublist self.rows := by
      rw [liveRows, rows_lowerHalf]
      exact List.filter_sublist.trans (List.take_sublist _ _)
    exact Nat.le_trans (packedSize_le_of_sublist hsub) hfit
  · refine Nat.le_trans (packedSize_le_of_sublist ?_) hfit
    rw [liveRows, rows_receiver rfl rfl hs]
    exact List.filter_sublist.trans (List.drop_sublist _ _)

theorem SplitInto.left_eq_lowerLive {sibling left right : LeafNode}
    (h : SplitInto self sibling left right) : left.rows = self.lowerLive := by
  rw [h.left_rows, lowerLive, length_rows]

theorem SplitInto.right_eq_upperLive {sibling left right : LeafNode}
    (h : SplitInto self sibling left right) : right.rows = self.upperLive := by
  rw [h.right_rows, upperLive, length_rows]

/-! ### The insert -/

/-- A leaf in order takes a record with a new row id when it has room for it. -/
theorem IsSlotted.insertRecord_ok_iff (hs : self.IsSlotted) (hsorted : self.Sorted)
    (habsent : ∀ r ∈ self.rows, r.rowId ≠ k) (hlen : v.length ≤ maxValueSize) :
    (∃ self', insertRecord k v self = some (.ok (), self')) ↔
      packedSize self.rows + recordSize v + slotElemSize ≤ pageSize := by
  obtain ⟨as, bs, -, hsearch, -⟩ := hs.search_of_absent hsorted habsent
  obtain ⟨hadded, hfull⟩ := hs.insertRecord_of_absent hlen hsearch
  rw [← encodedSize_eq_packedSize, ← hasRoom_iff]
  constructor
  · rintro ⟨self', h⟩
    by_contra hno
    rw [hfull hno] at h
    cases h
  · intro hroom
    obtain ⟨freeSize, hok⟩ := hadded hroom
    exact ⟨_, hok⟩

/-- The insert behind the split is an insert into one of the halves. -/
theorem insertHalf_ok_iff {promoted : UInt64} {left right : LeafNode} :
    (∃ left' right', insertHalf k v promoted (left, right) = some (.ok (), (left', right'))) ↔
      ∃ half, insertRecord k v (if k < promoted then left else right) = some (.ok (), half) := by
  unfold insertHalf
  dsimp only
  -- the half that does not take the record is handed back as it was
  by_cases hlt : k < promoted
  · rw [if_pos hlt, if_pos hlt]
    constructor
    · rintro ⟨left', right', h⟩
      obtain ⟨⟨r, half⟩, hins, heq⟩ := Option.map_eq_some_iff.mp h
      cases heq
      exact ⟨_, hins⟩
    · rintro ⟨half, hins⟩
      exact ⟨half, right, by rw [hins]; rfl⟩
  · rw [if_neg hlt, if_neg hlt]
    constructor
    · rintro ⟨left', right', h⟩
      obtain ⟨⟨r, half⟩, hins, heq⟩ := Option.map_eq_some_iff.mp h
      cases heq
      exact ⟨_, hins⟩
    · rintro ⟨half, hins⟩
      exact ⟨left, half, by rw [hins]; rfl⟩

/-! ### Both -/

/-- Of a leaf in order that fits in a page, and a row id that it does not have. -/
theorem IsSlotted.makesRoom_iff (hs : self.IsSlotted) (hsorted : self.Sorted)
    (hfit : self.encodedSize ≤ pageSize) (habsent : ∀ r ∈ self.rows, r.rowId ≠ k)
    (hlen : v.length ≤ maxValueSize) (newLeafId : PageId) :
    self.SplitMakesRoom newLeafId k v ↔ self.HalfHasRoom k v := by
  obtain ⟨r, left, right, hsplit⟩ := hs.split_newEmpty hfit newLeafId
  obtain ⟨hinto, hres⟩ := hs.split_into rfl rfl hsplit
  have hlower := hinto.left_eq_lowerLive
  have hupper := hinto.right_eq_upperLive
  obtain ⟨hsortedLeft, hsortedRight⟩ := hinto.sorted hsorted
  -- the row id is in neither half
  have habsentLeft : ∀ r ∈ left.rows, r.rowId ≠ k := by
    intro r hr
    rw [hinto.left_rows] at hr
    exact habsent r (List.mem_of_mem_take (List.mem_of_mem_filter hr))
  have habsentRight : ∀ r ∈ right.rows, r.rowId ≠ k := by
    intro r hr
    rw [hinto.right_rows] at hr
    exact habsent r (List.mem_of_mem_drop (List.mem_of_mem_filter hr))
  have hinsert : ∀ promoted : UInt64, (∃ left' right',
      insertHalf k v promoted (left, right) = some (.ok (), (left', right'))) ↔
        packedSize (if k < promoted then self.lowerLive else self.upperLive) + recordSize v +
          slotElemSize ≤ pageSize := by
    intro promoted
    rw [insertHalf_ok_iff]
    split
    · rw [hinto.left_slotted.insertRecord_ok_iff hsortedLeft habsentLeft hlen, hlower]
    · rw [hinto.right_slotted.insertRecord_ok_iff hsortedRight habsentRight hlen, hupper]
  rw [hupper] at hres
  constructor
  · rintro ⟨promoted, left₁, right₁, left', right', hsplit', hins⟩
    rw [hsplit] at hsplit'
    cases hsplit'
    rcases hres with ⟨-, herror⟩ | ⟨first, rest, hcons, hok⟩
    · cases herror
    · cases hok
      exact ⟨first, rest, hcons, (hinsert _).mp ⟨left', right', hins⟩⟩
  · rintro ⟨first, rest, hcons, hroom⟩
    rcases hres with ⟨hnil, -⟩ | ⟨first', rest', hcons', rfl⟩
    · rw [hcons] at hnil
      cases hnil
    · rw [hcons] at hcons'
      cases hcons'
      obtain ⟨left', right', hins⟩ := (hinsert first.rowId).mpr hroom
      exact ⟨_, left, right, left', right', hsplit, hins⟩

/-- **When a split makes room**: the upper half of the slots has a live record, and the live
records of the half that the new record belongs to leave enough of the page. -/
theorem split_makesRoom_iff (h : Built LeafOp.ChangesRecord self) (hencodes : self.Encodes)
    (hfull : insertRecord k v self = some (.error .pageFull, self')) (newLeafId : PageId) :
    self.SplitMakesRoom newLeafId k v ↔ self.HalfHasRoom k v := by
  have hs := h.slotted
  cases hs.insertRecord_outcome hfull with
  | full hlen hsearch =>
    have habsent := hs.absent_of_search h.sorted hsearch
    exact hs.makesRoom_iff h.sorted ((encodes_iff hs).mp hencodes) habsent hlen newLeafId

/-- Nine records of the greatest size, and one more. -/
theorem split_makesRoom_nineLarge :
    ∃ self self', insertRecord 9 (List.replicate maxValueSize 0) self =
        some (.error .pageFull, self') ∧
      (self.SplitMakesRoom ⟨8192⟩ 9 (List.replicate maxValueSize 0) ↔
        self.HalfHasRoom 9 (List.replicate maxValueSize 0)) := by
  obtain ⟨leaf, -, hbuilt, hsize, habsent⟩ := built_nineLarge
  have hs := hbuilt.slotted
  have hlen : (List.replicate maxValueSize (0 : UInt8)).length ≤ maxValueSize :=
    Nat.le_of_eq List.length_replicate
  have hfit : leaf.encodedSize ≤ pageSize := by
    rw [hsize]
    decide
  obtain ⟨as, bs, -, hsearch, -⟩ := hs.search_of_absent hbuilt.sorted habsent
  obtain ⟨leaf', hfull⟩ := (hs.insertRecord_pageFull_iff hlen hsearch).mpr (by
    rw [hsize, recordSize, List.length_replicate]
    decide)
  -- the leaf was built by inserts and deletes, which are changes of a record
  have hkind : ∀ op : LeafOp, op.AddsOrDeletes → op.ChangesRecord := by
    intro op hop
    cases op with
    | compact => exact hop
    | insertRecord | updateRecord | deleteRecord => trivial
  exact ⟨leaf, leaf', hfull,
    split_makesRoom_iff (hbuilt.mono hkind) ((encodes_iff hs).mpr hfit) hfull ⟨8192⟩⟩

/-- Nine small records below nine of the greatest size. -/
def nineSmall : List LeafOp :=
  (List.range 9).map (fun i => .insertRecord (UInt64.ofNat i) []) ++
    (List.range 9).map fun i =>
      .insertRecord (UInt64.ofNat (9 + i)) (List.replicate maxValueSize 0)

/-- The upper half is as full as the leaf was. -/
theorem split_leavesNoRoom :
    ¬ ∀ self : LeafNode, Built LeafOp.ChangesRecord self → self.Encodes →
      ∀ (k : UInt64) (v : List UInt8) (self' : LeafNode) (newLeafId : PageId),
        insertRecord k v self = some (.error .pageFull, self') →
          self.SplitMakesRoom newLeafId k v := by
  intro h
  have hrun : (runCalls (newEmpty ⟨4096⟩) nineSmall).map (fun leaf =>
      (leaf.encodedSize, leaf.rows.map Record.rowId, leaf.upperLive.head?.map Record.rowId,
        packedSize leaf.upperLive)) =
      some (3911, (List.range 18).map UInt64.ofNat, some 9, 3776) := by
    decide +kernel
  obtain ⟨leaf, hleaf, heq⟩ := Option.map_eq_some_iff.mp hrun
  obtain ⟨hsize, hids, hhead, hupper⟩ : leaf.encodedSize = 3911 ∧ _ ∧ _ ∧ _ := by
    simpa only [Prod.mk.injEq] using heq
  have hbuilt : Built LeafOp.ChangesRecord leaf := Built.runCalls (.new _) (by decide) hleaf
  have hs := hbuilt.slotted
  have hfit : leaf.encodedSize ≤ pageSize := by
    rw [hsize]
    decide
  have hlen : (List.replicate maxValueSize (0 : UInt8)).length ≤ maxValueSize :=
    Nat.le_of_eq List.length_replicate
  have habsent : ∀ r ∈ leaf.rows, r.rowId ≠ 18 := by
    intro r hr heq
    have hmem := List.mem_map_of_mem (f := Record.rowId) hr
    rw [hids, heq] at hmem
    exact absurd hmem (by decide)
  obtain ⟨as, bs, -, hsearch, -⟩ := hs.search_of_absent hbuilt.sorted habsent
  obtain ⟨leaf', hfull⟩ := (hs.insertRecord_pageFull_iff hlen hsearch).mpr (by
    rw [hsize, recordSize, List.length_replicate]
    decide)
  have hroom := h leaf hbuilt ((encodes_iff hs).mpr hfit) 18 _ leaf' ⟨8192⟩ hfull
  obtain ⟨first, rest, hcons, hle⟩ :=
    (hs.makesRoom_iff hbuilt.sorted hfit habsent hlen ⟨8192⟩).mp hroom
  -- the new record belongs to the upper half
  have hfirst : first.rowId = 9 := by
    rw [hcons] at hhead
    exact Option.some.inj hhead
  rw [hfirst, if_neg (by decide), hupper, recordSize, List.length_replicate] at hle
  exact absurd hle (by decide)

end LeafNode

end SmolDb
