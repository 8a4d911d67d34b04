import Mathlib.Data.List.AList
import SmolDb.Page.Node

/-!
# The replacer

`LruReplacer` keeps the cached pages in a doubly linked list ordered from most to least recently
used. The list lives in an arena: neighbours are arena indices, a map leads from a page to its
index, and the indices of removed nodes wait in a free list for reuse.

An arena access out of range panics, and so does recording a new page in a full replacer
(`none`). The two loops over the links are run with a fuel of one round more than the arena has
slots, `none` when it does not suffice: a loop that met a slot twice would go on forever.
-/

namespace SmolDb

/-- `LruNode`. -/
structure LruNode where
  prev : Option ℕ
  pageId : PageId
  next : Option ℕ
  deriving DecidableEq

/-- `LruReplacer`. The free list is a stack whose top is its last element. -/
structure LruReplacer where
  pages : AList fun _ : PageId => ℕ
  arena : List LruNode
  headIdx : Option ℕ
  tailIdx : Option ℕ
  capacity : ℕ
  freeList : List ℕ

namespace LruReplacer

/-- `LruReplacer::new`. -/
def new (capacity : ℕ) : LruReplacer where
  pages := ∅
  arena := []
  headIdx := none
  tailIdx := none
  capacity
  freeList := []

/-- `size`. -/
def size (self : LruReplacer) : ℕ := self.pages.keys.length

/-- `self.arena[idx].prev = prev`. -/
def setPrev (self : LruReplacer) (idx : ℕ) (prev : Option ℕ) : Option LruReplacer := do
  let node ← self.arena[idx]?
  some { self with arena := self.arena.set idx { node with prev } }

/-- `self.arena[idx].next = next`. -/
def setNext (self : LruReplacer) (idx : ℕ) (next : Option ℕ) : Option LruReplacer := do
  let node ← self.arena[idx]?
  some { self with arena := self.arena.set idx { node with next } }

/-- The successor of a node, or the head when there is no such node. -/
def setNextOrHead (self : LruReplacer) : Option ℕ → Option ℕ → Option LruReplacer
  | some pIdx, next => self.setNext pIdx next
  | none, next => some { self with headIdx := next }

/-- The predecessor of a node, or the tail when there is no such node. -/
def setPrevOrTail (self : LruReplacer) : Option ℕ → Option ℕ → Option LruReplacer
  | some nIdx, prev => self.setPrev nIdx prev
  | none, prev => some { self with tailIdx := prev }

/-- `insert_head`. -/
def insertHead (self : LruReplacer) (idx : ℕ) : Option LruReplacer := do
  let self ← self.setPrev idx none
  let self ← self.setNext idx self.headIdx
  let self ← self.setPrevOrTail self.headIdx (some idx)
  some { self with headIdx := some idx }

/-- `unlink`. -/
def unlink (self : LruReplacer) (idx : ℕ) : Option LruReplacer := do
  let node ← self.arena[idx]?
  let self ← self.setNextOrHead node.prev node.next
  self.setPrevOrTail node.next node.prev

/-- The arena slot `record_access` puts a new page into: the top of the free list, or a new one
at the end. -/
def claimSlot (self : LruReplacer) (pageId : PageId) : Option (ℕ × LruReplacer) :=
  let node : LruNode := { prev := none, pageId, next := none }
  match self.freeList.getLast? with
  | some freeIdx =>
    if freeIdx < self.arena.length then
      some (freeIdx,
        { self with
          arena := self.arena.set freeIdx node
          freeList := self.freeList.dropLast })
    else none
  | none => some (self.arena.length, { self with arena := self.arena ++ [node] })

/-- `record_access`. -/
def recordAccess (self : LruReplacer) (pageId : PageId) : Option LruReplacer :=
  match self.pages.lookup pageId with
  | some idx => do
    let self ← self.unlink idx
    self.insertHead idx
  | none =>
    if self.size < self.capacity then do
      let (newIdx, self) ← self.claimSlot pageId
      { self with pages := self.pages.insert pageId newIdx }.insertHead newIdx
    else none

/-- Unlink a node, forget its page and free its slot: the common end of `remove`, `evict` and
`evict_if`. -/
def release (self : LruReplacer) (idx : ℕ) (pageId : PageId) : Option LruReplacer := do
  let self ← self.unlink idx
  some
    { self with
      pages := self.pages.erase pageId
      freeList := self.freeList ++ [idx] }

/-- `remove`. -/
def remove (self : LruReplacer) (pageId : PageId) : Option LruReplacer :=
  match self.pages.lookup pageId with
  | some idx => self.release idx pageId
  | none => some self

/-- `evict`. -/
def evict (self : LruReplacer) : Option (Option PageId × LruReplacer) :=
  match self.tailIdx with
  | none => some (none, self)
  | some tIdx => do
    let node ← self.arena[tIdx]?
    let self ← self.release tIdx node.pageId
    some (some node.pageId, self)

/-- The loop of `peek_rev`. -/
def peekRevLoop (self : LruReplacer) (limit : ℕ) :
    ℕ → Option ℕ → List PageId → Option (List PageId)
  | _, none, candidates => some candidates
  | 0, some _, _ => none
  | fuel + 1, some nodeIdx, candidates =>
    if candidates.length > limit then some candidates
    else do
      let node ← self.arena[nodeIdx]?
      peekRevLoop self limit fuel node.prev (candidates ++ [node.pageId])

/-- The page ids that a `Vec` can have room for: it has at most `isize::MAX` bytes. -/
def maxCandidates : ℕ := (2 ^ 63 - 1) / 8

/-- `peek_rev`. Room for `limit` candidates is asked for in advance, and too much of it panics. -/
def peekRev (self : LruReplacer) (limit : ℕ) : Option (List PageId) :=
  if maxCandidates < limit then none
  else self.peekRevLoop limit (self.arena.length + 1) self.tailIdx []

section EvictIf

variable {σ : Type} (predicate : σ → PageId → Option (Bool × σ))

/-- The loop of `evict_if`. The predicate carries a state of its own and may panic. -/
def evictIfLoop (self : LruReplacer) :
    ℕ → Option ℕ → σ → Option (Option PageId × σ × LruReplacer)
  | _, none, s => some (none, s, self)
  | 0, some _, _ => none
  | fuel + 1, some nodeIdx, s => do
    let node ← self.arena[nodeIdx]?
    let (accepted, s) ← predicate s node.pageId
    if accepted then do
      let self ← self.release nodeIdx node.pageId
      some (some node.pageId, s, self)
    else evictIfLoop self fuel node.prev s

/-- `evict_if`. -/
def evictIf (s : σ) (self : LruReplacer) : Option (Option PageId × σ × LruReplacer) :=
  evictIfLoop predicate self (self.arena.length + 1) self.tailIdx s

end EvictIf

end LruReplacer

end SmolDb
