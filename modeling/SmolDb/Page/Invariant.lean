import SmolDb.Page.Compaction

/-!
# The representation invariant of a leaf

A leaf is two parallel vectors: the records, and the slots that order them. `Intact` says how
they belong together, and holds of every leaf that a sequence of calls leads to from an empty one,
through splits and pages and whatever the calls return (`Handled.intact`).

That the slots stay few rests on bytes, not on the count. `insert_record` compares the number of
slots with its limit before it adds one, so the comparison alone would let one slot too many in;
but a leaf of so many slots does not fit in a page, and every call that adds a slot or makes new
ones leaves a leaf that fits.

From the invariant follows what the rest of the source takes for granted: no cast cuts an index
off, a search meets a key exactly when some record has it, and no access through a slot is out of
bounds. The panics that are left are the `unreachable!()` of `compact`.
-/

namespace SmolDb

open LeafNode

namespace LeafNode

variable {self self' : LeafNode} {k : UInt64} {v : List UInt8}

/-- The representation invariant: the slots are a permutation of the record indices, the row ids
read through them are strictly increasing, and they are no more than a page can hold. -/
structure Intact (leaf : LeafNode) : Prop where
  slotted : leaf.IsSlotted
  sorted : leaf.Sorted
  length_le : leaf.slotArray.length ≤ maxLeafNodeCells

/-- A leaf that fits in a page has no more slots than the limit. -/
theorem length_le_of_fits (h : self.encodedSize ≤ pageSize) :
    self.slotArray.length ≤ maxLeafNodeCells :=
  Nat.le_of_not_lt fun hmany => Nat.not_le.mpr (lt_encodedSize hmany) h

theorem intact_newEmpty (pageId : PageId) : (newEmpty pageId).Intact :=
  ⟨isSlotted_newEmpty pageId, sorted_newEmpty pageId, Nat.zero_le _⟩

/-- **One call** keeps the invariant, whatever it returns. -/
theorem Intact.call (h : self.Intact) (op : LeafOp) {r : Except DbError Unit}
    (hcall : op.call self = some (r, self')) : self'.Intact := by
  have hs := h.slotted
  refine ⟨(LeafOp.keeps_call op).slotted hs hcall, op.sorted_call hs h.sorted hcall, ?_⟩
  cases r with
  | error e =>
    rw [(LeafOp.keeps_call op).unchanged hs hcall]
    exact h.length_le
  | ok =>
    cases op with
    | insertRecord k v => exact length_le_of_fits (hs.insertRecord_fits hcall)
    | compact => exact length_le_of_fits (hs.compact_fits (LeafOp.compact_call hcall).2)
    | updateRecord k v =>
      -- rewriting a record in place leaves the slots alone, and may leave the page
      cases hs.updateRecord_outcome hcall with
      | updated => exact h.length_le
    | deleteRecord k =>
      cases hs.deleteRecord_outcome hcall with
      | deleted => exact h.length_le

/-- **A split** into an empty sibling keeps the invariant on both sides, also when it fails. -/
theorem Intact.split (h : self.Intact) {sibling left right : LeafNode}
    (hrecords : sibling.records = []) (hslots : sibling.slotArray = [])
    {r : Except DbError UInt64} (hsplit : split (self, sibling) = some (r, (left, right))) :
    left.Intact ∧ right.Intact := by
  have hsibling : sibling.IsSlotted := by
    rw [IsSlotted, hrecords, hslots]
    exact Slotted.nil
  obtain ⟨hinto, -⟩ := h.slotted.split_into hrecords hslots hsplit
  obtain ⟨hleft, hright⟩ := hinto.sorted h.sorted
  obtain ⟨⟨-, hfitl⟩, -, hfitr⟩ := h.slotted.split_fits hsibling hsplit
  exact ⟨⟨hinto.left_slotted, hleft, length_le_of_fits hfitl⟩,
    ⟨hinto.right_slotted, hright, length_le_of_fits hfitr⟩⟩

theorem Intact.decoded (h : self.Intact) : self.decoded.Intact :=
  ⟨h.slotted, h.sorted, h.length_le⟩

/-- The invariant is about the cells. -/
theorem Intact.congr (h : self.Intact) (hslots : self'.slotArray = self.slotArray)
    (hrecords : self'.records = self.records) : self'.Intact := by
  obtain ⟨hs, hsorted, hlen⟩ := h
  unfold IsSlotted at hs
  unfold Sorted rows at hsorted
  rw [← hslots, ← hrecords] at hs hsorted
  rw [← hslots] at hlen
  exact ⟨hs, hsorted, hlen⟩

/-! ### What the invariant is good for -/

/-- No access through a slot is out of bounds: the slots name records, the calls that go through
them return, and those that compact return unless live records do not fit in a page. -/
structure InBounds (leaf : LeafNode) : Prop where
  lt : ∀ s ∈ leaf.slotArray, s.toNat < leaf.records.length
  searchKey : ∀ k, ∃ found, leaf.searchKey k = some found
  getRecord : ∀ k, ∃ found, leaf.getRecord k = some found
  updateRecord : ∀ k v, ∃ r leaf', updateRecord k v leaf = some (r, leaf')
  deleteRecord : ∀ k, ∃ r leaf', deleteRecord k leaf = some (r, leaf')
  insertRecord : ∀ k v, insertRecord k v leaf = none →
    leaf.Buried k ∧ pageSize < packedSize (leaf.rowsWith k v)
  compact : leaf.compact = none → pageSize < packedSize leaf.liveRows
  split : ∀ sibling : LeafNode, sibling.records = [] → sibling.slotArray = [] →
    split (leaf, sibling) = none →
      pageSize < packedSize leaf.lowerHalf.liveRows ∨
        pageSize < packedSize (leaf.receiver sibling).liveRows
  encode : ∀ page, ∃ r page', (BTreeNode.leaf leaf).encode page = some (r, page')

/-- A search finds a key exactly when a record has it, and then at its slot. -/
structure Searches (leaf : LeafNode) : Prop where
  found : ∀ k i, leaf.searchKey k = some (.ok i) →
    ∃ slot r, leaf.slotArray[i]? = some slot ∧ leaf.recordAt slot = some r ∧ r.rowId = k
  ok_iff : ∀ k, (∃ i, leaf.searchKey k = some (.ok i)) ↔ ∃ r ∈ leaf.records, r.rowId = k
  error_iff : ∀ k, (∃ i, leaf.searchKey k = some (.error i)) ↔ ∀ r ∈ leaf.records, r.rowId ≠ k

/-- `insert_record` crashes only on a tombstone whose record does not fit. -/
theorem IsSlotted.insertRecord_none (hs : self.IsSlotted) (hsorted : self.Sorted)
    (h : insertRecord k v self = none) :
    self.Buried k ∧ pageSize < packedSize (self.rowsWith k v) := by
  by_cases hlen : v.length ≤ maxValueSize
  · rcases hs.inRange.searchKey_isSome k with ⟨i, record, hsearch, hrow⟩ | ⟨i, -, hsearch⟩
    · have hkey := hs.rowId_of_search hsearch hrow
      cases hdel : record.isDeleted with
      | false =>
        rw [hs.insertRecord_of_live hlen hsearch hrow hdel] at h
        cases h
      | true =>
        -- only a dead record under the key leads to the compaction, the one step that can panic
        have hburied : self.Buried k := ⟨record, List.mem_of_getElem? hrow, hkey, hdel⟩
        refine ⟨hburied, Nat.lt_of_not_le fun hfit => ?_⟩
        obtain ⟨leaf, hok, -⟩ := (hs.insertRecord_buried hsorted hburied hlen).1 hfit
        rw [h] at hok
        cases hok
    · obtain ⟨hadded, hfull⟩ := hs.insertRecord_of_absent hlen hsearch
      by_cases hroom : self.HasRoom v.length
      · obtain ⟨freeSize, hok⟩ := hadded hroom
        rw [h] at hok
        cases hok
      · rw [hfull hroom] at h
        cases h
  · rw [insertRecord_of_large (Nat.lt_of_not_le hlen)] at h
    cases h

theorem IsSlotted.updateRecord_isSome (hs : self.IsSlotted) (k : UInt64) (v : List UInt8) :
    ∃ r self', LeafNode.updateRecord k v self = some (r, self') := by
  by_cases hlen : v.length < maxValueSize
  · rcases hs.inRange.searchKey_isSome k with ⟨i, record, hsearch, hrow⟩ | ⟨i, -, hsearch⟩
    · obtain ⟨slot, hslot, -⟩ := hs.inRange.slot_of_rows hrow
      exact ⟨_, _, hs.updateRecord_of_mem hlen hsearch hrow hslot⟩
    · refine ⟨.error (.keyNotFound k), self, ?_⟩
      rw [LeafNode.updateRecord, if_neg (Nat.not_le.mpr hlen), hsearch]
      rfl
  · exact ⟨_, _, updateRecord_of_large (Nat.le_of_not_lt hlen)⟩

theorem IsSlotted.deleteRecord_isSome (hs : self.IsSlotted) (k : UInt64) :
    ∃ r self', LeafNode.deleteRecord k self = some (r, self') := by
  rcases hs.inRange.searchKey_isSome k with ⟨i, record, hsearch, hrow⟩ | ⟨i, -, hsearch⟩
  · obtain ⟨slot, hslot, -⟩ := hs.inRange.slot_of_rows hrow
    exact ⟨_, _, hs.deleteRecord_of_mem hsearch hrow hslot⟩
  · refine ⟨.error (.keyNotFound k), self, ?_⟩
    rw [LeafNode.deleteRecord, hsearch]
    rfl

theorem InRange.compact_none (hs : self.InRange) (h : self.compact = none) :
    pageSize < packedSize self.liveRows := by
  refine Nat.lt_of_not_le fun hfit => ?_
  rw [compact_eq hs, if_pos hfit] at h
  cases h

theorem IsSlotted.split_none (hs : self.IsSlotted) {sibling : LeafNode} (hsib : sibling.InRange)
    (h : LeafNode.split (self, sibling) = none) :
    pageSize < packedSize self.lowerHalf.liveRows ∨
      pageSize < packedSize (self.receiver sibling).liveRows := by
  by_cases hlower : packedSize self.lowerHalf.liveRows ≤ pageSize
  · refine .inr (Nat.lt_of_not_le fun hupper => ?_)
    obtain ⟨r, left, right, hret⟩ := hs.split_returns hsib hlower hupper
    rw [h] at hret
    cases hret
  · exact .inl (Nat.lt_of_not_le hlower)

theorem IsSlotted.encode_isSome (hs : self.IsSlotted) (page : Page) :
    ∃ r page', (BTreeNode.leaf self).encode page = some (r, page') := by
  have hs' : (BTreeNode.leaf self).IsSlotted := hs
  by_cases hfit : self.encodedSize ≤ pageSize
  · obtain ⟨written, _, -, -, henc, -⟩ := hs'.placed.encode_ok hfit page
    exact ⟨_, _, henc⟩
  · exact ⟨_, _, hs'.placed.encode_full (Nat.lt_of_not_le hfit) page⟩

theorem Intact.inBounds (h : self.Intact) : self.InBounds where
  lt := h.slotted.inRange
  searchKey k := by
    rcases h.slotted.inRange.searchKey_isSome k with ⟨i, r, hsearch, -⟩ | ⟨i, -, hsearch⟩
    · exact ⟨_, hsearch⟩
    · exact ⟨_, hsearch⟩
  getRecord := h.slotted.inRange.getRecord_returns
  updateRecord := h.slotted.updateRecord_isSome
  deleteRecord := h.slotted.deleteRecord_isSome
  insertRecord _ _ := h.slotted.insertRecord_none h.sorted
  compact := h.slotted.inRange.compact_none
  split sibling hrecords hslots := by
    refine h.slotted.split_none fun s hmem => ?_
    rw [hslots] at hmem
    cases hmem
  encode := h.slotted.encode_isSome

theorem Intact.searches (h : self.Intact) : self.Searches := by
  have hs := h.slotted
  have hfound : ∀ k i, self.searchKey k = some (.ok i) → ∃ r, self.rows[i]? = some r := by
    intro k i hsearch
    rcases hs.inRange.searchKey_isSome k with ⟨j, r, hj, hrow⟩ | ⟨j, -, hj⟩
    · rw [hsearch] at hj
      cases hj
      exact ⟨r, hrow⟩
    · rw [hsearch] at hj
      cases hj
  have hok : ∀ k, (∃ i, self.searchKey k = some (.ok i)) ↔ ∃ r ∈ self.records, r.rowId = k := by
    intro k
    constructor
    · rintro ⟨i, hsearch⟩
      obtain ⟨r, hrow⟩ := hfound k i hsearch
      exact ⟨r, hs.rows_perm.mem_iff.mp (List.mem_of_getElem? hrow),
        hs.rowId_of_search hsearch hrow⟩
    · rintro ⟨r, hmem, rfl⟩
      obtain ⟨as, bs, slot, -, hsearch, -⟩ :=
        hs.search_of_mem h.sorted (hs.rows_perm.mem_iff.mpr hmem)
      exact ⟨_, hsearch⟩
  refine ⟨fun k i hsearch => ?_, hok, fun k => ?_⟩
  · obtain ⟨r, hrow⟩ := hfound k i hsearch
    obtain ⟨slot, hslot, hrecord⟩ := hs.inRange.slot_of_rows hrow
    exact ⟨slot, r, hslot, hrecord, hs.rowId_of_search hsearch hrow⟩
  · -- a search returns one of the two
    constructor
    · rintro ⟨i, hsearch⟩ r hmem hkey
      obtain ⟨j, hj⟩ := (hok k).mpr ⟨r, hmem, hkey⟩
      rw [hsearch] at hj
      cases hj
    · intro habsent
      rcases hs.inRange.searchKey_isSome k with ⟨i, r, hsearch, -⟩ | ⟨i, -, hsearch⟩
      · obtain ⟨r, hmem, hkey⟩ := (hok k).mp ⟨i, hsearch⟩
        exact absurd hkey (habsent r hmem)
      · exact ⟨i, hsearch⟩

/-- Every index of a record, and the one behind the last, is a `u16`. -/
theorem Intact.cast_eq (h : self.Intact) {i : ℕ} (hi : i ≤ self.records.length) :
    (UInt16.ofNat i).toNat = i := by
  have hlen := h.length_le
  rw [h.slotted.length_eq] at hlen
  exact toNat_ofNat_of_lt (Nat.lt_of_le_of_lt (Nat.le_trans hi hlen) (by decide))

end LeafNode

/-! ### Leaves that calls lead to -/

/-- The leaves that a sequence of calls leads to from an empty leaf, whatever the calls return as
long as they do. A split leads to two leaves, and starts with a sibling that has no cells. A leaf
may also be written to a page and read back, and the fields outside of the cells are anyone's. -/
inductive Handled : LeafNode → Prop
  | new (pageId : PageId) : Handled (LeafNode.newEmpty pageId)
  | call {leaf leaf' : LeafNode} {r : Except DbError Unit} (op : LeafOp) (hleaf : Handled leaf)
      (h : op.call leaf = some (r, leaf')) : Handled leaf'
  | splitLeft {leaf sibling left right : LeafNode} {r : Except DbError UInt64}
      (hleaf : Handled leaf) (hrecords : sibling.records = []) (hslots : sibling.slotArray = [])
      (h : split (leaf, sibling) = some (r, (left, right))) : Handled left
  | splitRight {leaf sibling left right : LeafNode} {r : Except DbError UInt64}
      (hleaf : Handled leaf) (hrecords : sibling.records = []) (hslots : sibling.slotArray = [])
      (h : split (leaf, sibling) = some (r, (left, right))) : Handled right
  | reloaded {leaf leaf' : LeafNode} {page written : Page} (hleaf : Handled leaf)
      (henc : (BTreeNode.leaf leaf).encode page = some (.ok (), written))
      (hdec : BTreeNode.decode written = some (.ok (.leaf leaf'))) : Handled leaf'
  | header {leaf leaf' : LeafNode} (hleaf : Handled leaf)
      (hslots : leaf'.slotArray = leaf.slotArray) (hrecords : leaf'.records = leaf.records) :
      Handled leaf'

theorem Handled.invariant {leaf : LeafNode} (h : Handled leaf) : leaf.Intact := by
  induction h with
  | new pageId => exact intact_newEmpty pageId
  | call op _ h ih => exact ih.call op h
  | splitLeft _ hrecords hslots h ih => exact (ih.split hrecords hslots h).1
  | splitRight _ hrecords hslots h ih => exact (ih.split hrecords hslots h).2
  | reloaded _ henc hdec ih =>
    obtain ⟨-, rfl⟩ := ih.slotted.reload henc hdec
    exact ih.decoded
  | header _ hslots hrecords ih => exact ih.congr hslots hrecords

/-- **The representation invariant** holds of every leaf that calls lead to. So the casts to `u16`
lose nothing, no access through a slot is out of bounds, and a search finds a stored key exactly
when it is there. -/
theorem Handled.intact {leaf : LeafNode} (h : Handled leaf) :
    leaf.Intact ∧ (∀ i ≤ leaf.records.length, (UInt16.ofNat i).toNat = i) ∧ leaf.InBounds ∧
      leaf.Searches :=
  ⟨h.invariant, fun _ => h.invariant.cast_eq, h.invariant.inBounds, h.invariant.searches⟩

/-- Three records, added out of order, of which one is deleted, and the upper half of a split. -/
theorem Handled.intact_split : ∃ leaf : LeafNode, leaf.live = [(7, [8])] ∧
    leaf.Intact ∧ (∀ i ≤ leaf.records.length, (UInt16.ofNat i).toNat = i) ∧ leaf.InBounds ∧
      leaf.Searches := by
  have hrun : ((runCalls (newEmpty ⟨4096⟩) [.insertRecord 7 [8], .insertRecord 3 [9],
      .insertRecord 5 [], .deleteRecord 5]).bind fun leaf =>
        split (leaf, newEmpty ⟨8192⟩)).map (fun c => c.2.2.live) = some [(7, [8])] := by
    decide +kernel
  obtain ⟨⟨r, left, right⟩, hc, hlive⟩ := Option.map_eq_some_iff.mp hrun
  obtain ⟨leaf, hleaf, hsplit⟩ := Option.bind_eq_some_iff.mp hc
  have hhandled : Handled leaf :=
    runCalls_keeps (fun op _ _ _ ha hcall => .call op ha hcall) (.new _) hleaf
  exact ⟨right, hlive, Handled.intact (.splitRight hhandled rfl rfl hsplit)⟩

end SmolDb
