import SmolDb.Pool.BufferPool

/-!
# The B+ tree

`BpTree` is an access method over the buffer pool. It holds the id of the root and borrows the
pool, so its methods are calls on a pool. A node that a method works on is written in place
through the write guard of its frame; the frame is dropped on every way out of the method.

A write guard is not reentrant. A second `write()` on a frame whose guard the method still holds
never returns, so it has no outcome here.
-/

namespace SmolDb

/-- `SplitResult`. -/
structure SplitResult where
  promotedRowId : UInt64
  newPageId : PageId
  deriving DecidableEq, Repr

/-- `BpTree`, without the borrowed pool. -/
structure BpTree where
  rootPageId : PageId

namespace BufferPool

variable {φ α : Type}

/-- Work on the leaf in a frame, in place. -/
def onLeaf (frame : Frame) (x : Exec DbError LeafNode α) : Exec DbError (BufferPool φ) α :=
  fun self =>
    match self.frames[frame]? with
    | some (.leaf node) => (x node).map fun (r, node) =>
        (r, { self with frames := self.frames.set frame (.leaf node) })
    | _ => none

/-- Work on the leaves in two frames, in place. -/
def onLeaves (frame newFrame : Frame) (x : Exec DbError (LeafNode × LeafNode) α) :
    Exec DbError (BufferPool φ) α := fun self =>
  match self.frames[frame]?, self.frames[newFrame]? with
  | some (.leaf node), some (.leaf newNode) => (x (node, newNode)).map fun (r, node, newNode) =>
      (r, { self with
        frames := (self.frames.set frame (.leaf node)).set newFrame (.leaf newNode) })
  | _, _ => none

/-- `node_guard.mark_dirty`. -/
def markDirty (frame : Frame) (lsn : UInt64) : Exec DbError (BufferPool φ) Unit := do
  let node ← readFrame frame
  writeFrame frame (node.markDirty lsn)

end BufferPool

namespace BpTree

open BufferPool

variable {φ : Type}

/-- `BpTree::get_root_id`. -/
def getRootId (self : BpTree) : PageId := self.rootPageId

/-- Insert into the leaf on the side of the promoted row id. -/
def insertIntoHalf (leafFrame newLeafFrame : Frame) (rowId : UInt64) (payload : List UInt8)
    (promotedRowId : UInt64) : Exec DbError (BufferPool φ) Unit :=
  if rowId < promotedRowId then onLeaf leafFrame (LeafNode.insertRecord rowId payload)
  else onLeaf newLeafFrame (LeafNode.insertRecord rowId payload)

/-- Connect the backward pointer of the old right sibling, whose frame was just fetched. -/
def relinkOldRight (leafFrame newLeafFrame oldRightFrame : Frame) (newLeafId : PageId)
    (lsn : UInt64) : Exec DbError (BufferPool φ) Unit :=
  if oldRightFrame = leafFrame ∨ oldRightFrame = newLeafFrame then Exec.abort
  else do
    match ← readFrame oldRightFrame with
    | .internal _ => pure ()
    | .leaf oldRightLeaf => do
      writeFrame oldRightFrame
        (.leaf { oldRightLeaf with hasPrev := true, prevPageId := newLeafId.val })
      markDirty oldRightFrame lsn

section Flusher

variable [WalFlusher φ]

/-- Wire the new right sibling between the left leaf and the old right one. -/
def wireSiblings (leafPageId newLeafId : PageId) (leafFrame newLeafFrame : Frame)
    (lsn : UInt64) : Exec DbError (BufferPool φ) Unit := do
  -- the pointers the left leaf had before
  let (oldHasNext, oldNextId) ← onLeaf leafFrame fun leftLeaf =>
    some (.ok (leftLeaf.hasNext, leftLeaf.nextPageId), leftLeaf)
  onLeaf newLeafFrame <| Exec.modify fun rightLeaf =>
    { rightLeaf with
      hasPrev := true
      prevPageId := leafPageId.val
      hasNext := oldHasNext
      nextPageId := oldNextId }
  onLeaf leafFrame <| Exec.modify fun leftLeaf =>
    { leftLeaf with hasNext := true, nextPageId := newLeafId.val }
  if oldHasNext then
    withClone id (fetchPage ⟨oldNextId⟩) fun oldRightFrame =>
      relinkOldRight leafFrame newLeafFrame oldRightFrame newLeafId lsn
  else pure ()

/-- What `insert_leaf` does with the new page once it has it. -/
def insertSplit (leafPageId newLeafId : PageId) (leafFrame newLeafFrame : Frame)
    (rowId : UInt64) (payload : List UInt8) (lsn : UInt64) :
    Exec DbError (BufferPool φ) (Option SplitResult) := do
  let promotedRowId ← onLeaves leafFrame newLeafFrame LeafNode.split
  insertIntoHalf leafFrame newLeafFrame rowId payload promotedRowId
  wireSiblings leafPageId newLeafId leafFrame newLeafFrame lsn
  markDirty leafFrame lsn
  markDirty newLeafFrame lsn
  pure (some ⟨promotedRowId, newLeafId⟩)

/-- What `insert_leaf` does with the frame of its leaf. -/
def insertInto (leafPageId : PageId) (rowId : UInt64) (payload : List UInt8) (lsn : UInt64)
    (leafFrame : Frame) : Exec DbError (BufferPool φ) (Option SplitResult) := do
  match ← readFrame leafFrame with
  | .internal _ =>
    Exec.throw (.corruptPage "attempted to insert data on a internal routing node")
  | .leaf _ => do
    match ← Exec.attempt (onLeaf leafFrame (LeafNode.insertRecord rowId payload)) with
    | .ok () => do
      markDirty leafFrame lsn
      pure none
    | .error .pageFull =>
      withClone Prod.snd (newPage true) fun (newLeafId, newLeafFrame) =>
        insertSplit leafPageId newLeafId leafFrame newLeafFrame rowId payload lsn
    | .error err => Exec.throw err

/-- `BpTree::insert_leaf`. -/
def insertLeaf (_ : BpTree) (leafPageId : PageId) (rowId : UInt64) (payload : List UInt8)
    (lsn : UInt64) : Exec DbError (BufferPool φ) (Option SplitResult) :=
  withClone id (fetchPage leafPageId) (insertInto leafPageId rowId payload lsn)

/-! ### Lookup -/

/-- How one round of the loop in `find_record` ends. -/
inductive Visit where
  | descend (nextPageId : PageId)
  | found (record : Option (List UInt8))
  deriving DecidableEq, Repr

/-- What `find_record` does with the node of the current page. -/
def visitNode (rowId : UInt64) : BTreeNode → Exec DbError (BufferPool φ) Visit
  | .internal node => do
    let nextPageId ← Exec.ofResult (← Exec.ofOption (node.routeKey rowId))
    pure (.descend nextPageId)
  | .leaf node => do
    let record ← Exec.ofOption (node.getRecord rowId)
    pure (.found record)

/-- One round of the loop in `find_record`. -/
def visit (currPageId : PageId) (rowId : UInt64) : Exec DbError (BufferPool φ) Visit :=
  withClone id (fetchPage currPageId) fun frame => do
    let node ← readFrame frame
    visitNode rowId node

/-- The loop of `find_record`, for at most `fuel` rounds. -/
def findRecordLoop (rowId : UInt64) :
    ℕ → PageId → Exec DbError (BufferPool φ) (Option (List UInt8))
  | 0, _ => Exec.abort
  | fuel + 1, currPageId => do
    match ← visit currPageId rowId with
    | .descend nextPageId => findRecordLoop rowId fuel nextPageId
    | .found record => pure record

/-- `BpTree::find_record`. It returns when there is a `fuel` with an outcome. -/
def findRecord (self : BpTree) (fuel : ℕ) (rowId : UInt64) :
    Exec DbError (BufferPool φ) (Option (List UInt8)) :=
  findRecordLoop rowId fuel self.rootPageId

end Flusher

end BpTree

end SmolDb
