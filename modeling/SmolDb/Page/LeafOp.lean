import SmolDb.Page.Live

/-!
# Calls on a leaf

The operations that change one leaf, as data: a run on a leaf is a list of `LeafOp`. Every one of
them keeps what `Keeps` says and, on a leaf whose rows are sorted, their order.
-/

namespace SmolDb

open LeafNode

/-- A call of an operation that changes a leaf. -/
inductive LeafOp where
  | insertRecord (rowId : UInt64) (payload : List UInt8)
  | updateRecord (rowId : UInt64) (payload : List UInt8)
  | deleteRecord (rowId : UInt64)
  | compact
  deriving DecidableEq, Repr

/-- The leaf of `BTreeNode::new_empty`. -/
def LeafNode.newEmpty (pageId : PageId) : LeafNode := { (default : LeafNode) with pageId }

theorem BTreeNode.newEmpty_leaf (pageId : PageId) :
    BTreeNode.newEmpty pageId true = .leaf (LeafNode.newEmpty pageId) := rfl

namespace LeafNode

variable {self self' : LeafNode}

theorem isSlotted_newEmpty (pageId : PageId) : (newEmpty pageId).IsSlotted := Slotted.nil

@[simp] theorem rows_newEmpty (pageId : PageId) : (newEmpty pageId).rows = [] := rfl

@[simp] theorem live_newEmpty (pageId : PageId) : (newEmpty pageId).live = [] := rfl

theorem sorted_newEmpty (pageId : PageId) : (newEmpty pageId).Sorted := List.Pairwise.nil

/-- Rewriting the record of a row without its row id keeps the order. -/
theorem sorted_replace {as bs : List Record} {r r' : Record} (hid : r'.rowId = r.rowId)
    (h : (as ++ r :: bs).Pairwise fun a b : Record => a.rowId.toNat < b.rowId.toNat) :
    (as ++ r' :: bs).Pairwise fun a b : Record => a.rowId.toNat < b.rowId.toNat := by
  obtain ⟨has, hbs, hcross⟩ := List.pairwise_append.mp h
  obtain ⟨hr, hbs⟩ := List.pairwise_cons.mp hbs
  refine List.pairwise_append.mpr ⟨has, List.pairwise_cons.mpr ⟨?_, hbs⟩, ?_⟩
  · rw [hid]
    exact hr
  · intro a ha b hb
    rcases List.mem_cons.mp hb with rfl | hb
    · rw [hid]
      exact hcross a ha r (List.mem_cons_self ..)
    · exact hcross a ha b (List.mem_cons_of_mem _ hb)

theorem IsSlotted.compact_rows (hs : self.IsSlotted) (h : self.compact = some self') :
    self'.rows = self.liveRows := by
  obtain ⟨hfit, rfl⟩ := compact_eq_some hs.inRange h
  exact rows_compacted hfit

/-! ### The header, of any leaf -/

theorem sameHeader_compact (h : self.compact = some self') : SameHeader self self' := by
  unfold compact at h
  obtain ⟨acc, -, h⟩ := Option.bind_eq_some_iff.mp h
  dsimp only at h
  split at h
  · cases h
    exact ⟨_, _, _, rfl⟩
  · cases h
    exact ⟨_, _, _, rfl⟩
  · cases h

theorem sameHeader_insertRecord {rowId : UInt64} {payload : List UInt8} {r : Except DbError Unit}
    (h : insertRecord rowId payload self = some (r, self')) : SameHeader self self' := by
  unfold insertRecord at h
  split at h
  · cases h
    exact .refl _
  obtain ⟨found, -, h⟩ := Option.bind_eq_some_iff.mp h
  cases found with
  -- the search finds a live record or a dead one
  | ok slotIdx =>
    obtain ⟨slot, -, h⟩ := Option.bind_eq_some_iff.mp h
    obtain ⟨record, -, h⟩ := Option.bind_eq_some_iff.mp h
    dsimp only at h
    split at h
    · cases h
      exact .refl _
    · obtain ⟨leaf, hcompact, h⟩ := Option.bind_eq_some_iff.mp h
      cases h
      exact SameHeader.trans ⟨_, _, _, rfl⟩ (sameHeader_compact hcompact)
  | error insertIdx =>
    obtain ⟨cells, -, h⟩ := Option.bind_eq_some_iff.mp h
    dsimp only at h
    split at h
    · cases h
      exact .refl _
    · cases h
      exact ⟨_, _, _, rfl⟩

theorem sameHeader_updateRecord {rowId : UInt64} {payload : List UInt8} {r : Except DbError Unit}
    (h : updateRecord rowId payload self = some (r, self')) : SameHeader self self' := by
  unfold updateRecord at h
  split at h
  · cases h
    exact .refl _
  obtain ⟨found, -, h⟩ := Option.bind_eq_some_iff.mp h
  cases found with
  | ok updateIdx =>
    obtain ⟨slot, -, h⟩ := Option.bind_eq_some_iff.mp h
    obtain ⟨record, -, h⟩ := Option.bind_eq_some_iff.mp h
    cases h
    exact ⟨_, _, _, rfl⟩
  | error _ =>
    cases h
    exact .refl _

theorem sameHeader_deleteRecord {rowId : UInt64} {r : Except DbError Unit}
    (h : deleteRecord rowId self = some (r, self')) : SameHeader self self' := by
  unfold deleteRecord at h
  obtain ⟨found, -, h⟩ := Option.bind_eq_some_iff.mp h
  cases found with
  | ok deleteIdx =>
    obtain ⟨slot, -, h⟩ := Option.bind_eq_some_iff.mp h
    obtain ⟨record, -, h⟩ := Option.bind_eq_some_iff.mp h
    cases h
    exact ⟨_, _, _, rfl⟩
  | error _ =>
    cases h
    exact .refl _

end LeafNode

namespace LeafOp

variable {self self' : LeafNode} {r : Except DbError Unit}

/-- Run a call. -/
def call : LeafOp → Exec DbError LeafNode Unit
  | insertRecord rowId payload => LeafNode.insertRecord rowId payload
  | updateRecord rowId payload => LeafNode.updateRecord rowId payload
  | deleteRecord rowId => LeafNode.deleteRecord rowId
  | compact => fun self => self.compact.map fun self => (.ok (), self)

theorem compact_call (h : compact.call self = some (r, self')) :
    r = .ok () ∧ self.compact = some self' := by
  obtain ⟨leaf, hleaf, heq⟩ := Option.map_eq_some_iff.mp h
  cases heq
  exact ⟨rfl, hleaf⟩

theorem keeps_compact : Keeps compact.call where
  slotted hs h := by
    obtain ⟨-, hcompact⟩ := compact_call h
    obtain ⟨hfit, rfl⟩ := compact_eq_some hs.inRange hcompact
    exact isSlotted_compacted hfit
  header hs h := by
    obtain ⟨-, hcompact⟩ := compact_call h
    obtain ⟨-, rfl⟩ := compact_eq_some hs.inRange hcompact
    exact sameHeader_compacted
  unchanged hs h := by
    obtain ⟨hr, -⟩ := compact_call h
    cases hr
  blind self := by
    -- `compact` reports no error, so forgetting the flags commutes with wrapping its result
    have hreturn : ∀ o : Option LeafNode,
        bareResult (o.map fun leaf => ((.ok () : Except DbError Unit), leaf)) =
          (o.map bare).map fun leaf => (.ok (), leaf) := by
      intro o
      cases o <;> rfl
    have hblind := compact_blind self
    calc bareResult (compact.call self.bare)
        = (self.bare.compact.map bare).map fun leaf => (.ok (), leaf) := hreturn _
      _ = (self.compact.map bare).map fun leaf => (.ok (), leaf) := congrArg _ hblind
      _ = bareResult (compact.call self) := (hreturn _).symm

/-- **No call changes the header**, whatever the leaf is like. -/
theorem sameHeader_call (op : LeafOp) (h : op.call self = some (r, self')) :
    SameHeader self self' := by
  cases op with
  | insertRecord k v => exact sameHeader_insertRecord h
  | updateRecord k v => exact sameHeader_updateRecord h
  | deleteRecord k => exact sameHeader_deleteRecord h
  | compact => exact sameHeader_compact (compact_call h).2

/-- **What every call on a leaf keeps.** -/
theorem keeps_call (op : LeafOp) : Keeps op.call := by
  cases op with
  | insertRecord k v => exact keeps_insertRecord k v
  | updateRecord k v => exact keeps_updateRecord k v
  | deleteRecord k => exact keeps_deleteRecord k
  | compact => exact keeps_compact

/-- **Every call keeps the order of the rows.** -/
theorem sorted_call (op : LeafOp) (hs : self.IsSlotted) (hsorted : self.Sorted)
    (h : op.call self = some (r, self')) : self'.Sorted := by
  cases r with
  | error e =>
    rw [(keeps_call op).unchanged hs h]
    exact hsorted
  | ok =>
    cases op with
    | insertRecord k v => exact hs.insertRecord_sorted hsorted h
    -- one record is replaced under its own key
    | updateRecord k v =>
      obtain ⟨as, record, bs, hrows, -, hrows'⟩ := hs.updateRecord_rows h
      rw [Sorted, hrows] at hsorted
      rw [Sorted, hrows']
      exact sorted_replace (r := record) rfl hsorted
    | deleteRecord k =>
      obtain ⟨as, record, bs, hrows, -, hrows'⟩ := hs.deleteRecord_rows h
      rw [Sorted, hrows] at hsorted
      rw [Sorted, hrows']
      exact sorted_replace (r := record) rfl hsorted
    | compact =>
      rw [Sorted, hs.compact_rows (compact_call h).2]
      exact hsorted.filter _

end LeafOp

end SmolDb
