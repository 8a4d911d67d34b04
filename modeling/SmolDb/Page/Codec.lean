import SmolDb.Lib.LittleEndian
import SmolDb.Page.Node

/-!
# The page codec

`ByteCursor` reads and writes a buffer sequentially; an access past the end of the buffer panics.
`BTreeNode.encode` writes a node into a page and `BTreeNode.decode` reads one back. The page
layout is the header, the slot array, the free size, a gap of that many bytes that is skipped
on both sides, and the cells in slot order.

`encodeAt` and `decodeAt` are the two functions with the cursor they leave, so that statements
can speak about the place where they stop.
-/

namespace SmolDb

open LittleEndian

/-- A buffer of `n` bytes. -/
structure Buffer (n : ℕ) where
  data : List UInt8
  size : data.length = n

/-- `Page`: a buffer of `PAGE_SIZE` bytes. -/
abbrev Page : Type := Buffer pageSize

theorem Buffer.ext {n : ℕ} {b b' : Buffer n} (h : b.data = b'.data) : b = b' := by
  cases b; cases b'; cases h; rfl

/-- `Page::new`. -/
def Page.new : Page := ⟨List.replicate pageSize 0, List.length_replicate ..⟩

/-- `ByteCursor`: a buffer and the position of the next access. -/
structure ByteCursor (n : ℕ) where
  buffer : Buffer n
  pos : ℕ

namespace ByteCursor

variable {n : ℕ}

/-- `ByteCursor::new`. -/
def new (buffer : Buffer n) : ByteCursor n := ⟨buffer, 0⟩

/-- `write_bytes`: overwrite the next bytes. -/
def writeBytes (val : List UInt8) : Exec DbError (ByteCursor n) Unit := fun self =>
  if h : self.pos + val.length ≤ n then
    some (.ok (),
      { buffer :=
          { data := self.buffer.data.take self.pos ++ val
              ++ self.buffer.data.drop (self.pos + val.length)
            size := by
              have := self.buffer.size
              simp only [List.length_append, List.length_take, List.length_drop]
              omega }
        pos := self.pos + val.length })
  else none

def writeU8 (val : UInt8) : Exec DbError (ByteCursor n) Unit := writeBytes [val]

def writeU16 (val : UInt16) : Exec DbError (ByteCursor n) Unit := writeBytes (u16Bytes val)

def writeU32 (val : UInt32) : Exec DbError (ByteCursor n) Unit := writeBytes (u32Bytes val)

def writeU64 (val : UInt64) : Exec DbError (ByteCursor n) Unit := writeBytes (u64Bytes val)

/-- `read_bytes`: the next `len` bytes. -/
def readBytes (len : ℕ) : Exec DbError (ByteCursor n) (List UInt8) := fun self =>
  if self.pos + len ≤ n then
    some (.ok ((self.buffer.data.drop self.pos).take len), { self with pos := self.pos + len })
  else none

def readU8 : Exec DbError (ByteCursor n) UInt8 := do
  let bytes ← readBytes 1
  Exec.ofOption bytes[0]?

def readU16 : Exec DbError (ByteCursor n) UInt16 := do
  let bytes ← readBytes 2
  pure (u16Of bytes)

def readU32 : Exec DbError (ByteCursor n) UInt32 := do
  let bytes ← readBytes 4
  pure (u32Of bytes)

def readU64 : Exec DbError (ByteCursor n) UInt64 := do
  let bytes ← readBytes 8
  pure (u64Of bytes)

/-- `cursor.pos += len`; only a later access can be out of bounds. -/
def skip (len : ℕ) : Exec DbError (ByteCursor n) Unit :=
  Exec.modify fun self => { self with pos := self.pos + len }

end ByteCursor

open ByteCursor

/-- `bool as u8`. -/
def boolByte (b : Bool) : UInt8 := if b then 1 else 0

/-! ### Encoding -/

/-- The cell loop of a leaf. -/
def LeafNode.writeCells (self : LeafNode) (slots : List UInt16) :
    Exec DbError (ByteCursor pageSize) Unit :=
  Exec.forEach (fun index => do
    let cell ← Exec.ofOption (self.recordAt index)
    writeU64 cell.rowId
    writeU8 (boolByte cell.isDeleted)
    writeU32 (UInt32.ofNat cell.data.length)
    writeBytes cell.data) slots

/-- The leaf branch of `BTreeNode::encode`. -/
def LeafNode.encodeAt (self : LeafNode) : Exec DbError (ByteCursor pageSize) Unit := do
  let headerLen := leafNodeHeaderSize + self.slotArray.length * slotElemSize
  let cells ← Exec.ofOption self.cells
  let footerLen := footerLen cells
  if headerLen + footerLen > pageSize then
    Exec.throw .pageFull
  else do
    let freeSize := pageSize - headerLen - footerLen
    writeU8 1
    writeU64 self.pageId.val
    writeU64 self.lastLsn
    writeU8 (boolByte self.hasPrev)
    writeU8 (boolByte self.hasNext)
    writeU64 self.prevPageId
    writeU64 self.nextPageId
    writeU32 (UInt32.ofNat self.slotArray.length)
    Exec.forEach writeU16 self.slotArray
    writeU16 (UInt16.ofNat freeSize)
    skip (UInt16.ofNat freeSize).toNat
    self.writeCells self.slotArray

/-- The cell loop of an internal node. -/
def InternalNode.writeCells (self : InternalNode) (slots : List UInt16) :
    Exec DbError (ByteCursor pageSize) Unit :=
  Exec.forEach (fun offset => do
    let cell ← Exec.ofOption self.entries[offset.toNat]?
    writeU64 cell.key
    writeU64 cell.childPageId) slots

/-- The internal branch of `BTreeNode::encode`. -/
def InternalNode.encodeAt (self : InternalNode) : Exec DbError (ByteCursor pageSize) Unit := do
  let headerLen := internalNodeHeaderSize + self.slotArray.length * slotElemSize
  let footerLen := self.slotArray.length * indexEntrySize
  if headerLen + footerLen > pageSize then
    Exec.throw .pageFull
  else do
    let freeSize := pageSize - headerLen - footerLen
    writeU8 0
    writeU64 self.pageId.val
    writeU64 self.lastLsn
    writeU64 self.rightmostChildId.val
    writeU32 (UInt32.ofNat self.slotArray.length)
    Exec.forEach writeU16 self.slotArray
    writeU16 (UInt16.ofNat freeSize)
    skip (UInt16.ofNat freeSize).toNat
    self.writeCells self.slotArray

/-- `BTreeNode::encode`, with the cursor it leaves. -/
def BTreeNode.encodeAt : BTreeNode → Exec DbError (ByteCursor pageSize) Unit
  | .leaf node => node.encodeAt
  | .internal node => node.encodeAt

/-- `BTreeNode::encode`. -/
def BTreeNode.encode (self : BTreeNode) : Exec DbError Page Unit := fun page =>
  (self.encodeAt (ByteCursor.new page)).map fun (r, cursor) => (r, cursor.buffer)

/-! ### Decoding -/

/-- The slot loop: `count` slots in a row. -/
def readSlots : ℕ → Exec DbError (ByteCursor pageSize) (List UInt16)
  | 0 => pure []
  | count + 1 => do
    let slot ← readU16
    let slots ← readSlots count
    pure (slot :: slots)

/-- `cells[cell_idx as usize] = cell`. -/
def storeCell {α : Type} (cells : List α) (idx : UInt16) (cell : α) :
    Exec DbError (ByteCursor pageSize) (List α) :=
  if idx.toNat < cells.length then pure (cells.set idx.toNat cell) else Exec.abort

/-- The cell loop of a leaf. -/
def readRecords : List UInt16 → List Record →
    Exec DbError (ByteCursor pageSize) (List Record)
  | [], cells => pure cells
  | cellIdx :: indices, cells => do
    let key ← readU64
    let deleted ← readU8
    let size ← readU32
    let value ← readBytes size.toNat
    let cells ← storeCell cells cellIdx ⟨key, value, deleted != 0⟩
    readRecords indices cells

/-- The cell loop of an internal node. -/
def readEntries : List UInt16 → List IndexEntry →
    Exec DbError (ByteCursor pageSize) (List IndexEntry)
  | [], entries => pure entries
  | entryIdx :: indices, entries => do
    let key ← readU64
    let childIndex ← readU64
    let entries ← storeCell entries entryIdx ⟨key, childIndex⟩
    readEntries indices entries

/-- The leaf branch of `BTreeNode::decode`. -/
def LeafNode.decodeAt : Exec DbError (ByteCursor pageSize) LeafNode := do
  let fileIndex ← readU64
  let lastLsn ← readU64
  let hasLsib ← readU8
  let hasRsib ← readU8
  let lsibIndex ← readU64
  let rsibIndex ← readU64
  let cellCount ← readU32
  let indices ← readSlots cellCount.toNat
  let freeSize ← readU16
  skip freeSize.toNat
  let cells ← readRecords indices (List.replicate cellCount.toNat default)
  pure
    { pageId := ⟨fileIndex⟩
      lastLsn
      hasPrev := hasLsib != 0
      hasNext := hasRsib != 0
      prevPageId := lsibIndex
      nextPageId := rsibIndex
      slotArray := indices
      records := cells
      freeSize
      isDirty := false }

/-- The internal branch of `BTreeNode::decode`. -/
def InternalNode.decodeAt : Exec DbError (ByteCursor pageSize) InternalNode := do
  let fileIndex ← readU64
  let lastLsn ← readU64
  let rightIndex ← readU64
  let entryCount ← readU32
  let indices ← readSlots entryCount.toNat
  let freeSize ← readU16
  skip freeSize.toNat
  let entries ← readEntries indices (List.replicate entryCount.toNat default)
  pure
    { pageId := ⟨fileIndex⟩
      lastLsn
      rightmostChildId := ⟨rightIndex⟩
      slotArray := indices
      entries
      freeSize
      isDirty := false }

/-- `BTreeNode::decode`, with the cursor it leaves. -/
def BTreeNode.decodeAt : Exec DbError (ByteCursor pageSize) BTreeNode := do
  let val ← readU8
  if val = 1 then do
    let node ← LeafNode.decodeAt
    pure (.leaf node)
  else if val = 0 then do
    let node ← InternalNode.decodeAt
    pure (.internal node)
  else
    Exec.throw (.corruptPage ("Unknown node type: " ++ toString val.toNat))

/-- `BTreeNode::decode`. -/
def BTreeNode.decode (page : Page) : Option (Except DbError BTreeNode) :=
  (BTreeNode.decodeAt (ByteCursor.new page)).map Prod.fst

end SmolDb
