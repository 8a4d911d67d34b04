import SmolDb.Lru.Replacer
import SmolDb.Page.Disk

/-!
# The buffer pool

The pool caches nodes in frames. A frame is an `Arc`: `frames` is the memory the arcs point to,
the page table holds one clone for each cached page, and `held` lists the clones that callers
hold. A page is pinned as long as its frame has another clone than the table's; the strong count
is the number of clones.

The write-ahead log is behind a trait object whose only method may fail and may change the log.
-/

namespace SmolDb

/-- `WalFlusher`. The log has interior mutability. -/
class WalFlusher (φ : Type) where
  flushUpto : φ → UInt64 → Except DbError Unit × φ

/-- The log of a pool without one. -/
instance : WalFlusher Empty where
  flushUpto flusher _ := nomatch flusher

/-- `Frame`: the index of a node in the memory of the arcs. -/
abbrev Frame : Type := ℕ

/-- An order in which a hash map yields its keys: some permutation of them. -/
structure HashOrder where
  arrange : List PageId → List PageId
  perm : ∀ keys, (arrange keys).Perm keys

/-- The order the table lists them in. -/
def HashOrder.asListed : HashOrder := ⟨fun keys => keys, fun keys => .refl keys⟩

/-- `BufferPool`. -/
structure BufferPool (φ : Type) where
  diskManager : DiskManager
  replacer : LruReplacer
  pageTable : AList fun _ : PageId => Frame
  capacity : ℕ
  walFlusher : Option φ
  frames : List BTreeNode
  held : List Frame

namespace BufferPool

variable {φ α β : Type}

/-- `BufferPool::new`. -/
def new (diskManager : DiskManager) (capacity : ℕ) (walFlusher : Option φ) : BufferPool φ where
  diskManager
  replacer := LruReplacer.new capacity
  pageTable := ∅
  capacity
  walFlusher
  frames := []
  held := []

/-- `Arc::strong_count`. -/
def strongCount (self : BufferPool φ) (frame : Frame) : ℕ :=
  (self.pageTable.entries.map Sigma.snd).count frame + self.held.count frame

/-- A call of the disk manager. -/
def disk (x : Exec DbError DiskManager α) : Exec DbError (BufferPool φ) α :=
  Exec.zoom BufferPool.diskManager (fun diskManager self => { self with diskManager }) x

/-- The node in a frame. -/
def readFrame (frame : Frame) : Exec DbError (BufferPool φ) BTreeNode := fun self =>
  self.frames[frame]?.map fun node => (.ok node, self)

/-- Overwrite the node in a frame. -/
def writeFrame (frame : Frame) (node : BTreeNode) : Exec DbError (BufferPool φ) Unit :=
  Exec.modify fun self => { self with frames := self.frames.set frame node }

/-- Drop a caller's clone of a frame. -/
def dropFrame (frame : Frame) : Exec DbError (BufferPool φ) Unit :=
  Exec.modify fun self => { self with held := self.held.erase frame }

/-- Hand a clone of a frame to the caller. -/
def cloneFrame (frame : Frame) : Exec DbError (BufferPool φ) Frame := fun self =>
  some (.ok frame, { self with held := frame :: self.held })

/-- Run `body` with the frame that `x` returns; the frame is dropped on every way out. -/
def withClone (frameOf : α → Frame) (x : Exec DbError (BufferPool φ) α)
    (body : α → Exec DbError (BufferPool φ) β) : Exec DbError (BufferPool φ) β := do
  let a ← x
  fun self => (body a self).map fun (r, self) =>
    (r, { self with held := self.held.erase (frameOf a) })

/-- `replacer.record_access`. -/
def recordAccess (pageId : PageId) : Exec DbError (BufferPool φ) Unit := fun self =>
  (self.replacer.recordAccess pageId).map fun replacer => (.ok (), { self with replacer })

/-- Encode a node into a new page. -/
def encodePage (node : BTreeNode) : Exec DbError (BufferPool φ) Page := fun self =>
  match node.encode Page.new with
  | none => none
  | some (.error e, _) => some (.error e, self)
  | some (.ok (), page) => some (.ok page, self)

/-- Decode a page. -/
def decodePage (page : Page) : Exec DbError (BufferPool φ) BTreeNode := fun self =>
  (BTreeNode.decode page).map fun r => (r, self)

/-- Put a node into a new frame, enter it into the table and the replacer, and hand the frame to
the caller: the common end of `fetch_page` and `new_page`. -/
def install (pageId : PageId) (node : BTreeNode) : Exec DbError (BufferPool φ) Frame := do
  let self ← Exec.get
  let frame := self.frames.length
  Exec.modify fun self =>
    { self with
      frames := self.frames ++ [node]
      pageTable := self.pageTable.insert pageId frame }
  recordAccess pageId
  cloneFrame frame

section Flusher

variable [WalFlusher φ]

/-- `flusher.flush_upto`, if there is a flusher. -/
def flushWal (lsn : UInt64) : Exec DbError (BufferPool φ) Unit := fun self =>
  match self.walFlusher with
  | none => some (.ok (), self)
  | some flusher =>
    let (r, flusher) := WalFlusher.flushUpto flusher lsn
    some (r, { self with walFlusher := some flusher })

/-- `flush_page`. -/
def flushPage (pageId : PageId) : Exec DbError (BufferPool φ) Unit := do
  let self ← Exec.get
  match self.pageTable.lookup pageId with
  | none => pure ()
  | some frame => do
    let node ← readFrame frame
    if node.isDirty then do
      flushWal node.getLastLsn
      let rawPage ← encodePage node
      disk (DiskManager.writePage pageId rawPage)
      writeFrame frame node.clearDirty
    else pure ()

/-- `flush_all_pages`, for one order in which the hash map may yield its keys. -/
def flushAllPages (order : HashOrder) : Exec DbError (BufferPool φ) Unit := do
  let self ← Exec.get
  Exec.forEach flushPage (order.arrange self.pageTable.keys)
  disk DiskManager.saveHeader

/-- The predicate `evict_page` passes to the replacer: the frame has no clone but the table's. A
tracked page that is not in the table panics. -/
def isUnpinned (self : BufferPool φ) (pageId : PageId) : Option (Bool × Unit) := do
  let frame ← self.pageTable.lookup pageId
  some (self.strongCount frame == 1, ())

/-- `evict_page`. -/
def evictPage : Exec DbError (BufferPool φ) Unit := do
  let self ← Exec.get
  let (found, _, replacer) ← Exec.ofOption (self.replacer.evictIf (fun _ => self.isUnpinned) ())
  Exec.modify fun self => { self with replacer }
  match found with
  | none => Exec.throw .lruEviction
  | some evictId => do
    flushPage evictId
    Exec.modify fun self => { self with pageTable := self.pageTable.erase evictId }

/-- Evict a page if the table is full. -/
def makeRoom : Exec DbError (BufferPool φ) Unit := do
  let self ← Exec.get
  if self.pageTable.keys.length ≥ self.capacity then evictPage else pure ()

/-- `fetch_page`. -/
def fetchPage (pageId : PageId) : Exec DbError (BufferPool φ) Frame := do
  let self ← Exec.get
  match self.pageTable.lookup pageId with
  | some frame => do
    recordAccess pageId
    cloneFrame frame
  | none => do
    makeRoom
    let rawPage ← disk (DiskManager.readPage pageId)
    let node ← decodePage rawPage
    install pageId node

/-- `new_page`. -/
def newPage (isLeaf : Bool) : Exec DbError (BufferPool φ) (PageId × Frame) := do
  makeRoom
  let pageId ← disk DiskManager.allocatePage
  let frame ← install pageId (BTreeNode.newEmpty pageId isLeaf)
  pure (pageId, frame)

end Flusher

end BufferPool

end SmolDb
