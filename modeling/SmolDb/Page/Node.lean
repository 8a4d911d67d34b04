import Mathlib.Algebra.GroupWithZero.Nat
import SmolDb.Error
import SmolDb.Lib.Exec
import SmolDb.Lib.Search

/-!
# Nodes

The in-memory form of a page: a routing node (`InternalNode`) or a leaf (`LeafNode`), each a
vector of cells with a slot array that gives their order. Everything the source reads through
`records[slot as usize]` or `entries[slot as usize]` is a lookup that panics (`none`) when the
slot is out of range.

The leaf operations return `Option (Except DbError α × LeafNode)`: a panic, or a result together
with the leaf as the call leaves it.
-/

namespace SmolDb

/-- Size of an element of the slot array (u16). -/
abbrev slotElemSize : ℕ := 2

/-- Size of any page. -/
abbrev pageSize : ℕ := 4096

/-- Size of an internal cell (key + child page). -/
abbrev indexEntrySize : ℕ := 8 + 8

/-- Size of the metadata of a leaf cell (key + deleted + value size). -/
abbrev recordMetaSize : ℕ := 8 + 1 + 4

/-- Greatest size of a value. -/
abbrev maxValueSize : ℕ := 400

/-- Size of the header of an internal node. -/
abbrev internalNodeHeaderSize : ℕ := 1 + 8 + 8 + 8 + 4 + 2

/-- Size of the header of a leaf. -/
abbrev leafNodeHeaderSize : ℕ := 1 + 8 + 8 + 1 + 1 + 8 + 8 + 4 + 2

/-- Number of leaf cells a page can hold. -/
abbrev maxLeafNodeCells : ℕ := (pageSize - leafNodeHeaderSize) / (slotElemSize + recordMetaSize)

/-- A physical file offset. -/
structure PageId where
  val : UInt64
  deriving DecidableEq, Repr, Inhabited

structure IndexEntry where
  key : UInt64
  childPageId : UInt64
  deriving DecidableEq, Repr, Inhabited

structure Record where
  rowId : UInt64
  data : List UInt8
  isDeleted : Bool
  deriving DecidableEq, Repr, Inhabited

structure InternalNode where
  pageId : PageId
  lastLsn : UInt64
  rightmostChildId : PageId
  slotArray : List UInt16
  entries : List IndexEntry
  freeSize : UInt16
  isDirty : Bool
  deriving DecidableEq, Repr, Inhabited

structure LeafNode where
  pageId : PageId
  lastLsn : UInt64
  hasPrev : Bool
  hasNext : Bool
  prevPageId : UInt64
  nextPageId : UInt64
  slotArray : List UInt16
  records : List Record
  freeSize : UInt16
  isDirty : Bool
  deriving DecidableEq, Repr, Inhabited

/-! ### Routing -/

/-- The entry a position of the slot array stands for. -/
def InternalNode.entryAt (self : InternalNode) (i : ℕ) : Option IndexEntry := do
  let slotIdx ← self.slotArray[i]?
  self.entries[slotIdx.toNat]?

/-- `InternalNode::route_key`: the child of the first entry whose key is greater than the
target, or the rightmost child. -/
def InternalNode.routeKey (self : InternalNode) (targetKey : UInt64) :
    Option (Except DbError PageId) := do
  let partitionIdx ← BinarySearch.partitionPoint self.slotArray.length fun i => do
    let entry ← self.entryAt i
    some (decide (entry.key ≤ targetKey))
  if partitionIdx = self.slotArray.length then
    some (.ok self.rightmostChildId)
  else do
    let entry ← self.entryAt partitionIdx
    some (.ok ⟨entry.childPageId⟩)

/-! ### Leaf operations -/

namespace LeafNode

/-- The record a slot stands for. -/
def recordAt (self : LeafNode) (slot : UInt16) : Option Record := self.records[slot.toNat]?

/-- The slotted records in slot order, read with a panic on a dangling slot. -/
def cells (self : LeafNode) : Option (List Record) := self.slotArray.mapM self.recordAt

/-- The bytes the slotted records occupy. -/
def footerLen (cells : List Record) : ℕ :=
  (cells.map fun cell => recordMetaSize + cell.data.length).sum

/-- `slot_array.binary_search_by_key(&row_id, |&rec_idx| self.records[rec_idx as usize].row_id)`. -/
def searchKey (self : LeafNode) (rowId : UInt64) : Option (Except ℕ ℕ) :=
  BinarySearch.search self.slotArray.length fun i => do
    let slot ← self.slotArray[i]?
    let record ← self.recordAt slot
    some (compare record.rowId rowId)

/-- The locals of the loop in `compact`. -/
structure Compaction where
  cleanRecords : List Record
  newSlots : List UInt16
  bytesUsed : ℕ

/-- One round of the loop in `compact`. -/
def compactStep (records : List Record) (acc : Compaction) (oldSlotIdx : UInt16) :
    Option Compaction := do
  let record ← records[oldSlotIdx.toNat]?
  if record.isDeleted then some acc
  else
    let cleanRecords := acc.cleanRecords ++ [record]
    some
      { cleanRecords
        newSlots := acc.newSlots ++ [UInt16.ofNat (cleanRecords.length - 1)]
        bytesUsed := acc.bytesUsed + (recordMetaSize + record.data.length) + slotElemSize }

/-- `LeafNode::compact`: drop the tombstones and renumber the slots. Live records that do not
fit in a page reach the `unreachable!()` arm. -/
def compact (self : LeafNode) : Option LeafNode := do
  let acc ← self.slotArray.foldlM (compactStep self.records) ⟨[], [], 0⟩
  let self := { self with records := acc.cleanRecords, slotArray := acc.newSlots }
  let netSize := leafNodeHeaderSize + acc.bytesUsed
  match compare netSize pageSize with
  | .lt => some { self with freeSize := UInt16.ofNat (pageSize - netSize) }
  | .eq => some { self with freeSize := 0 }
  | .gt => none

/-- One round of the copying loop in `split`. -/
def splitStep (records : List Record) (newSibling : LeafNode) (recIdx : UInt16) :
    Option LeafNode := do
  let record ← records[recIdx.toNat]?
  let newRecords := newSibling.records ++ [record]
  some
    { newSibling with
      records := newRecords
      slotArray := newSibling.slotArray ++ [UInt16.ofNat (newRecords.length - 1)] }

/-- `LeafNode::split`: move the upper half of the slots into `new_sibling`. The state is the pair
of leaves; an error leaves both as they are at that point. -/
def split : Exec DbError (LeafNode × LeafNode) UInt64 := fun (self, newSibling) => do
  let mid := self.slotArray.length / 2
  let newSibling ← (self.slotArray.drop mid).foldlM (splitStep self.records) newSibling
  let self := { self with slotArray := self.slotArray.take mid }
  let self ← self.compact
  let newSibling ← newSibling.compact
  match newSibling.slotArray[0]? with
  | none => some (.error (.corruptPage "leaf split resulted in empty right sibling"),
      (self, newSibling))
  | some slot => do
    let first ← newSibling.recordAt slot
    some (.ok first.rowId, (self, newSibling))

/-- `LeafNode::insert_record`. -/
def insertRecord (rowId : UInt64) (payload : List UInt8) : Exec DbError LeafNode Unit :=
  fun self =>
    if payload.length > maxValueSize then some (.error (.tupleTooLarge payload.length), self)
    else do
      match ← self.searchKey rowId with
      | .ok slotIdx =>
        -- the key exists: a live record is a duplicate, a tombstone is overwritten in place
        let slot ← self.slotArray[slotIdx]?
        let record ← self.recordAt slot
        if !record.isDeleted then some (.error (.duplicateKey rowId), self)
        else do
          let revived := { record with isDeleted := false, data := payload }
          let self ← { self with records := self.records.set slot.toNat revived }.compact
          some (.ok (), self)
      | .error insertIdx =>
        let requiredBytes := slotElemSize + recordMetaSize + payload.length
        let headerLen := leafNodeHeaderSize + (self.slotArray.length + 1) * slotElemSize
        let footer := footerLen (← self.cells)
        if headerLen + footer + requiredBytes > pageSize
            ∨ self.slotArray.length > maxLeafNodeCells then
          some (.error .pageFull, self)
        else
          let newRecIdx := UInt16.ofNat self.records.length
          let freeSize :=
            if self.freeSize.toNat ≥ requiredBytes then
              self.freeSize - UInt16.ofNat requiredBytes
            else 0
          some (.ok (),
            { self with
              records := self.records ++ [⟨rowId, payload, false⟩]
              slotArray := self.slotArray.insertIdx insertIdx newRecIdx
              freeSize })

/-- `LeafNode::update_record`. -/
def updateRecord (rowId : UInt64) (payload : List UInt8) : Exec DbError LeafNode Unit :=
  fun self =>
    if payload.length ≥ maxValueSize then some (.error (.tupleTooLarge payload.length), self)
    else do
      match ← self.searchKey rowId with
      | .error _ => some (.error (.keyNotFound rowId), self)
      | .ok updateIdx =>
        let slot ← self.slotArray[updateIdx]?
        let record ← self.recordAt slot
        let updated := { record with data := payload }
        some (.ok (), { self with records := self.records.set slot.toNat updated })

/-- `LeafNode::delete_record`. -/
def deleteRecord (rowId : UInt64) : Exec DbError LeafNode Unit := fun self => do
  match ← self.searchKey rowId with
  | .error _ => some (.error (.keyNotFound rowId), self)
  | .ok deleteIdx =>
    let slot ← self.slotArray[deleteIdx]?
    let record ← self.recordAt slot
    let deleted := { record with isDeleted := true }
    some (.ok (), { self with records := self.records.set slot.toNat deleted })

/-- `LeafNode::get_record`; the outer option is a panic. -/
def getRecord (self : LeafNode) (rowId : UInt64) : Option (Option (List UInt8)) := do
  match ← self.searchKey rowId with
  | .error _ => some none
  | .ok slotIdx =>
    let slot ← self.slotArray[slotIdx]?
    let record ← self.recordAt slot
    if !record.isDeleted then some (some record.data) else some none

end LeafNode

/-! ### Nodes of either kind -/

/-- `BTreeNode`. -/
inductive BTreeNode where
  | internal (node : InternalNode)
  | leaf (node : LeafNode)
  deriving DecidableEq, Repr, Inhabited

namespace BTreeNode

/-- `BTreeNode::new_empty`. -/
def newEmpty (pageId : PageId) (isLeaf : Bool) : BTreeNode :=
  if isLeaf then .leaf { (default : LeafNode) with pageId }
  else .internal { (default : InternalNode) with pageId }

/-- `BTreeNode::is_dirty`. -/
def isDirty : BTreeNode → Bool
  | .internal node => node.isDirty
  | .leaf node => node.isDirty

/-- `BTreeNode::clear_dirty`. -/
def clearDirty : BTreeNode → BTreeNode
  | .internal node => .internal { node with isDirty := false }
  | .leaf node => .leaf { node with isDirty := false }

/-- `BTreeNode::mark_dirty`. -/
def markDirty (lsn : UInt64) : BTreeNode → BTreeNode
  | .internal node => .internal { node with lastLsn := lsn, isDirty := true }
  | .leaf node => .leaf { node with lastLsn := lsn, isDirty := true }

/-- `BTreeNode::get_last_lsn`. -/
def getLastLsn : BTreeNode → UInt64
  | .internal node => node.lastLsn
  | .leaf node => node.lastLsn

end BTreeNode

end SmolDb
