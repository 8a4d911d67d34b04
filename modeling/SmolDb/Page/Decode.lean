import Mathlib.Data.List.GetD
import SmolDb.Page.Codec

/-!
# When decoding panics

`decode` trusts the page: the cell count, the slots, the free size and the size of every cell come
from it, and each of them moves the cursor or is used as an index. `Framed` says of the bytes of a
page that all of these stay in bounds, and this is exactly when `decode` returns
(`decode_returns`). A page with another node type is turned down before any of them is read.
-/

namespace SmolDb

open LittleEndian ByteCursor

/-! ### Fields of a buffer -/

namespace Buffer

variable {n : ℕ}

/-- The bytes from `pos` on, `len` of them. -/
def slice (self : Buffer n) (pos len : ℕ) : List UInt8 := (self.data.drop pos).take len

def u8At (self : Buffer n) (pos : ℕ) : UInt8 := self.data.getD pos 0

def u16At (self : Buffer n) (pos : ℕ) : UInt16 := u16Of (self.slice pos 2)

def u32At (self : Buffer n) (pos : ℕ) : UInt32 := u32Of (self.slice pos 4)

def u64At (self : Buffer n) (pos : ℕ) : UInt64 := u64Of (self.slice pos 8)

/-- The slots from `pos` on, `count` of them. -/
def slotsAt (self : Buffer n) : ℕ → ℕ → List UInt16
  | _, 0 => []
  | pos, count + 1 => self.u16At pos :: self.slotsAt (pos + slotElemSize) count

end Buffer

/-- What a loop stores for each slot, one after the other. -/
def storeAll {α : Type} (xs : List α) (stored : List (UInt16 × α)) : List α :=
  stored.foldl (fun xs p => xs.set p.1.toNat p.2) xs

/-! ### Framed pages -/

namespace Page

/-- The leaf cells from `pos` on, one for each slot, end in the page, and each slot is below the
count. -/
def CellsFit (page : Page) (count : ℕ) : List UInt16 → ℕ → Prop
  | [], _ => True
  | slot :: slots, pos =>
    pos + recordMetaSize + (page.u32At (pos + 9)).toNat ≤ pageSize ∧ slot.toNat < count ∧
      page.CellsFit count slots (pos + recordMetaSize + (page.u32At (pos + 9)).toNat)

/-- The internal cells from `pos` on. -/
def EntriesFit (count : ℕ) : List UInt16 → ℕ → Prop
  | [], _ => True
  | slot :: slots, pos =>
    pos + indexEntrySize ≤ pageSize ∧ slot.toNat < count ∧
      EntriesFit count slots (pos + indexEntrySize)

/-- The leaf cell at `pos`. -/
def recordAt (page : Page) (pos : ℕ) : Record where
  rowId := page.u64At pos
  data := page.slice (pos + recordMetaSize) (page.u32At (pos + 9)).toNat
  isDeleted := page.u8At (pos + 8) != 0

/-- The leaf cells from `pos` on, each behind its slot. -/
def cellsAt (page : Page) : List UInt16 → ℕ → List (UInt16 × Record)
  | [], _ => []
  | slot :: slots, pos => (slot, page.recordAt pos) ::
      page.cellsAt slots (pos + recordMetaSize + (page.u32At (pos + 9)).toNat)

/-- The internal cells from `pos` on, each behind its slot. -/
def entriesAt (page : Page) : List UInt16 → ℕ → List (UInt16 × IndexEntry)
  | [], _ => []
  | slot :: slots, pos => (slot, ⟨page.u64At pos, page.u64At (pos + 8)⟩) ::
      page.entriesAt slots (pos + indexEntrySize)

instance decidableCellsFit (page : Page) (count : ℕ) :
    ∀ slots pos, Decidable (page.CellsFit count slots pos)
  | [], _ => isTrue trivial
  | _ :: slots, _ =>
    have := decidableCellsFit page count slots
    inferInstanceAs (Decidable (_ ∧ _ ∧ _))

instance decidableEntriesFit (count : ℕ) : ∀ slots pos, Decidable (EntriesFit count slots pos)
  | [], _ => isTrue trivial
  | _ :: slots, _ =>
    have := decidableEntriesFit count slots
    inferInstanceAs (Decidable (_ ∧ _ ∧ _))

/-- The slot array and the free size of a leaf page end in the page, and behind the gap its cells
fit. -/
def LeafFramed (page : Page) : Prop :=
  let count := (page.u32At 35).toNat
  let freePos := 39 + count * slotElemSize
  freePos + 2 ≤ pageSize ∧
    page.CellsFit count (page.slotsAt 39 count) (freePos + 2 + (page.u16At freePos).toNat)

/-- The slot array and the free size of an internal page end in the page, and behind the gap its
cells fit. -/
def InternalFramed (page : Page) : Prop :=
  let count := (page.u32At 25).toNat
  let freePos := 29 + count * slotElemSize
  freePos + 2 ≤ pageSize ∧
    EntriesFit count (page.slotsAt 29 count) (freePos + 2 + (page.u16At freePos).toNat)

/-- The slots of a leaf page. -/
def leafSlots (page : Page) : List UInt16 := page.slotsAt 39 (page.u32At 35).toNat

/-- The cells of a leaf page, each behind its slot. -/
def leafCells (page : Page) : List (UInt16 × Record) :=
  let freePos := 39 + (page.u32At 35).toNat * slotElemSize
  page.cellsAt page.leafSlots (freePos + 2 + (page.u16At freePos).toNat)

/-- The leaf that a page is read as. -/
def leafAt (page : Page) : LeafNode where
  pageId := ⟨page.u64At 1⟩
  lastLsn := page.u64At 9
  hasPrev := page.u8At 17 != 0
  hasNext := page.u8At 18 != 0
  prevPageId := page.u64At 19
  nextPageId := page.u64At 27
  slotArray := page.leafSlots
  records := storeAll (List.replicate (page.u32At 35).toNat default) page.leafCells
  freeSize := page.u16At (39 + (page.u32At 35).toNat * slotElemSize)
  isDirty := false

/-- The slots of an internal page. -/
def internalSlots (page : Page) : List UInt16 := page.slotsAt 29 (page.u32At 25).toNat

/-- The cells of an internal page, each behind its slot. -/
def internalCells (page : Page) : List (UInt16 × IndexEntry) :=
  let freePos := 29 + (page.u32At 25).toNat * slotElemSize
  page.entriesAt page.internalSlots (freePos + 2 + (page.u16At freePos).toNat)

/-- The internal node that a page is read as. -/
def internalAt (page : Page) : InternalNode where
  pageId := ⟨page.u64At 1⟩
  lastLsn := page.u64At 9
  rightmostChildId := ⟨page.u64At 17⟩
  slotArray := page.internalSlots
  entries := storeAll (List.replicate (page.u32At 25).toNat default) page.internalCells
  freeSize := page.u16At (29 + (page.u32At 25).toNat * slotElemSize)
  isDirty := false

/-- Every place the bytes of the page send `decode` to is in bounds. -/
def Framed (page : Page) : Prop :=
  if page.u8At 0 = 1 then page.LeafFramed
  else if page.u8At 0 = 0 then page.InternalFramed
  else True

instance (page : Page) : Decidable page.LeafFramed := inferInstanceAs (Decidable (_ ∧ _))

instance (page : Page) : Decidable page.InternalFramed := inferInstanceAs (Decidable (_ ∧ _))

instance (page : Page) : Decidable page.Framed :=
  inferInstanceAs (Decidable (ite _ _ _))

end Page

/-! ### Reading at a position -/

section Reading

variable {n pos : ℕ} {b : Buffer n} {α : Type} {e : DbError}

theorem readBytes_bind {len : ℕ} (h : pos + len ≤ n)
    (f : List UInt8 → Exec DbError (ByteCursor n) α) :
    (readBytes len >>= f) ⟨b, pos⟩ = f (b.slice pos len) ⟨b, pos + len⟩ := by
  have hread : readBytes len ⟨b, pos⟩ = some (.ok (b.slice pos len), ⟨b, pos + len⟩) := if_pos h
  exact Exec.bind_of_ok hread

theorem readBytes_bind_none {len : ℕ} (h : ¬ pos + len ≤ n)
    (f : List UInt8 → Exec DbError (ByteCursor n) α) :
    (readBytes len >>= f) ⟨b, pos⟩ = none := Exec.bind_of_none (if_neg h)

theorem readU8_bind (h : pos + 1 ≤ n) (f : UInt8 → Exec DbError (ByteCursor n) α) :
    (readU8 >>= f) ⟨b, pos⟩ = f (b.u8At pos) ⟨b, pos + 1⟩ := by
  have hlt : pos < b.data.length := by rw [b.size]; exact h
  have hread : readU8 ⟨b, pos⟩ = some (.ok (b.u8At pos), ⟨b, pos + 1⟩) := by
    refine (readBytes_bind h _).trans ?_
    have hhead : (b.slice pos 1)[0]? = some (b.u8At pos) := by
      unfold Buffer.slice Buffer.u8At
      rw [List.getElem?_take_of_lt Nat.zero_lt_one, List.getElem?_drop, Nat.add_zero,
        List.getD_eq_getElem _ _ hlt, List.getElem?_eq_getElem hlt]
    rw [hhead]
    rfl
  exact Exec.bind_of_ok hread

theorem readU8_bind_none (h : ¬ pos + 1 ≤ n) (f : UInt8 → Exec DbError (ByteCursor n) α) :
    (readU8 >>= f) ⟨b, pos⟩ = none :=
  Exec.bind_of_none (readBytes_bind_none h _)

theorem readU16_bind (h : pos + 2 ≤ n) (f : UInt16 → Exec DbError (ByteCursor n) α) :
    (readU16 >>= f) ⟨b, pos⟩ = f (b.u16At pos) ⟨b, pos + 2⟩ :=
  Exec.bind_of_ok (readBytes_bind h _)

theorem readU32_bind_none (h : ¬ pos + 4 ≤ n)
    (f : UInt32 → Exec DbError (ByteCursor n) α) : (readU32 >>= f) ⟨b, pos⟩ = none :=
  Exec.bind_of_none (readBytes_bind_none h _)

theorem readU32_bind (h : pos + 4 ≤ n) (f : UInt32 → Exec DbError (ByteCursor n) α) :
    (readU32 >>= f) ⟨b, pos⟩ = f (b.u32At pos) ⟨b, pos + 4⟩ :=
  Exec.bind_of_ok (readBytes_bind h _)

theorem readU64_bind_none (h : ¬ pos + 8 ≤ n)
    (f : UInt64 → Exec DbError (ByteCursor n) α) : (readU64 >>= f) ⟨b, pos⟩ = none :=
  Exec.bind_of_none (readBytes_bind_none h _)

theorem readU64_bind (h : pos + 8 ≤ n) (f : UInt64 → Exec DbError (ByteCursor n) α) :
    (readU64 >>= f) ⟨b, pos⟩ = f (b.u64At pos) ⟨b, pos + 8⟩ :=
  Exec.bind_of_ok (readBytes_bind h _)

end Reading

variable {pos : ℕ} (page : Page)

/-- The slot loop reads the slots when they end in the page, and panics otherwise. -/
theorem readSlots_apply (count : ℕ) (hpos : pos ≤ pageSize) :
    readSlots count ⟨page, pos⟩ =
      if pos + count * slotElemSize ≤ pageSize then
        some (.ok (page.slotsAt pos count), ⟨page, pos + count * slotElemSize⟩)
      else none := by
  induction count generalizing pos with
  | zero =>
    rw [if_pos (by omega)]
    rfl
  | succ count ih =>
    unfold readSlots
    -- the first slot fits, and then all of them fit or the read behind the last one that does
    -- panics
    by_cases hslot : pos + 2 ≤ pageSize
    · rw [readU16_bind hslot]
      have hend : pos + 2 + count * slotElemSize = pos + (count + 1) * slotElemSize := by
        simp only [slotElemSize]
        omega
      by_cases hfit : pos + (count + 1) * slotElemSize ≤ pageSize
      · have hrest := ih hslot
        rw [hend, if_pos hfit] at hrest
        rw [if_pos hfit]
        exact (Exec.bind_of_ok hrest).trans rfl
      · have hrest := ih hslot
        rw [hend, if_neg hfit] at hrest
        rw [if_neg hfit]
        exact Exec.bind_of_none hrest
    · rw [if_neg (by simp only [slotElemSize]; omega)]
      exact Exec.bind_of_none (readBytes_bind_none hslot _)

/-- A cell is stored when its slot is in range; the vector keeps its length. -/
theorem storeCell_bind {α β : Type} {cells : List α} {idx : UInt16} {cell : α}
    {c : ByteCursor pageSize} (f : List α → Exec DbError (ByteCursor pageSize) β) :
    (storeCell cells idx cell >>= f) c =
      if idx.toNat < cells.length then f (cells.set idx.toNat cell) c else none := by
  unfold storeCell
  split
  · rfl
  · rfl

/-- One round of the cell loop of a leaf. -/
theorem readRecords_cons (slot : UInt16) (slots : List UInt16) (cells : List Record) :
    readRecords (slot :: slots) cells ⟨page, pos⟩ =
      if pos + recordMetaSize + (page.u32At (pos + 9)).toNat ≤ pageSize ∧
          slot.toNat < cells.length then
        readRecords slots (cells.set slot.toNat (page.recordAt pos))
          ⟨page, pos + recordMetaSize + (page.u32At (pos + 9)).toNat⟩
      else none := by
  conv_lhs => unfold readRecords
  -- the key, the flag and the size are read before the value
  by_cases hmeta : pos + 13 ≤ pageSize
  · rw [readU64_bind (by omega), readU8_bind (by omega), readU32_bind (by omega)]
    by_cases hvalue : pos + 13 + (page.u32At (pos + 9)).toNat ≤ pageSize
    · rw [readBytes_bind hvalue, storeCell_bind]
      by_cases hslot : slot.toNat < cells.length
      · rw [if_pos hslot, if_pos ⟨hvalue, hslot⟩]
        rfl
      · rw [if_neg hslot, if_neg fun h => hslot h.2]
    · rw [readBytes_bind_none hvalue, if_neg fun h => hvalue h.1]
  · rw [if_neg fun h => hmeta (Nat.le_trans (Nat.le_add_right ..) h.1)]
    by_cases hkey : pos + 8 ≤ pageSize
    · rw [readU64_bind hkey]
      by_cases hflag : pos + 8 + 1 ≤ pageSize
      · rw [readU8_bind hflag]
        exact readU32_bind_none (by omega) _
      · exact readU8_bind_none hflag _
    · exact readU64_bind_none hkey _

/-- One round of the cell loop of an internal node. -/
theorem readEntries_cons (slot : UInt16) (slots : List UInt16) (entries : List IndexEntry) :
    readEntries (slot :: slots) entries ⟨page, pos⟩ =
      if pos + indexEntrySize ≤ pageSize ∧ slot.toNat < entries.length then
        readEntries slots (entries.set slot.toNat ⟨page.u64At pos, page.u64At (pos + 8)⟩)
          ⟨page, pos + indexEntrySize⟩
      else none := by
  conv_lhs => unfold readEntries
  -- the key, the child and the slot are checked one after the other
  by_cases hkey : pos + 8 ≤ pageSize
  · rw [readU64_bind hkey]
    by_cases hchild : pos + 8 + 8 ≤ pageSize
    · rw [readU64_bind hchild, storeCell_bind]
      by_cases hslot : slot.toNat < entries.length
      · rw [if_pos hslot, if_pos ⟨hchild, hslot⟩]
        rfl
      · rw [if_neg hslot, if_neg fun h => hslot h.2]
    · rw [readU64_bind_none hchild, if_neg fun h => hchild h.1]
  · have hfit : ¬ pos + indexEntrySize ≤ pageSize := fun h =>
      hkey (Nat.le_trans (Nat.add_le_add_left (by decide) pos) h)
    rw [readU64_bind_none hkey, if_neg fun h => hfit h.1]

/-- **The cell loop of a leaf** stores the cells when they fit, and panics otherwise. -/
theorem readRecords_returns (slots : List UInt16) (cells : List Record) (pos : ℕ) :
    (page.CellsFit cells.length slots pos → ∃ c', readRecords slots cells ⟨page, pos⟩ =
      some (.ok (storeAll cells (page.cellsAt slots pos)), c')) ∧
    (¬ page.CellsFit cells.length slots pos →
      readRecords slots cells ⟨page, pos⟩ = none) := by
  induction slots generalizing cells pos with
  | nil => exact ⟨fun _ => ⟨_, rfl⟩, fun hno => absurd trivial hno⟩
  | cons slot slots ih =>
    rw [readRecords_cons]
    -- the length of a record says where the next one begins
    by_cases hcell : pos + recordMetaSize + (page.u32At (pos + 9)).toNat ≤ pageSize ∧
        slot.toNat < cells.length
    · have hrest := ih (cells.set slot.toNat (page.recordAt pos))
        (pos + recordMetaSize + (page.u32At (pos + 9)).toNat)
      rw [List.length_set] at hrest
      rw [if_pos hcell]
      exact ⟨fun h => hrest.1 h.2.2, fun h => hrest.2 fun hfit => h ⟨hcell.1, hcell.2, hfit⟩⟩
    · rw [if_neg hcell]
      exact ⟨fun h => absurd ⟨h.1, h.2.1⟩ hcell, fun _ => rfl⟩

/-- **The cell loop of an internal node**, likewise. -/
theorem readEntries_returns (slots : List UInt16) (entries : List IndexEntry) (pos : ℕ) :
    (Page.EntriesFit entries.length slots pos → ∃ c', readEntries slots entries ⟨page, pos⟩ =
      some (.ok (storeAll entries (page.entriesAt slots pos)), c')) ∧
    (¬ Page.EntriesFit entries.length slots pos →
      readEntries slots entries ⟨page, pos⟩ = none) := by
  induction slots generalizing entries pos with
  | nil => exact ⟨fun _ => ⟨_, rfl⟩, fun hno => absurd trivial hno⟩
  | cons slot slots ih =>
    rw [readEntries_cons]
    by_cases hcell : pos + indexEntrySize ≤ pageSize ∧ slot.toNat < entries.length
    · have hrest := ih (entries.set slot.toNat ⟨page.u64At pos, page.u64At (pos + 8)⟩)
        (pos + indexEntrySize)
      rw [List.length_set] at hrest
      rw [if_pos hcell]
      exact ⟨fun h => hrest.1 h.2.2, fun h => hrest.2 fun hfit => h ⟨hcell.1, hcell.2, hfit⟩⟩
    · rw [if_neg hcell]
      exact ⟨fun h => absurd ⟨h.1, h.2.1⟩ hcell, fun _ => rfl⟩

/-! ### The two branches -/

theorem LeafNode.decodeAt_returns (page : Page) :
    (page.LeafFramed → ∃ c', LeafNode.decodeAt ⟨page, 1⟩ = some (.ok page.leafAt, c')) ∧
    (¬ page.LeafFramed → LeafNode.decodeAt ⟨page, 1⟩ = none) := by
  unfold LeafNode.decodeAt
  -- the fixed part of the header is always there
  rw [readU64_bind (by decide), readU64_bind (by decide), readU8_bind (by decide),
    readU8_bind (by decide), readU64_bind (by decide), readU64_bind (by decide),
    readU32_bind (by decide)]
  have hslots := readSlots_apply page (page.u32At 35).toNat (show 39 ≤ pageSize by decide)
  by_cases hfree : 39 + (page.u32At 35).toNat * slotElemSize + 2 ≤ pageSize
  · rw [if_pos (by omega)] at hslots
    rw [Exec.bind_of_ok hslots, readU16_bind hfree]
    have hcells := readRecords_returns page
      (page.slotsAt 39 (page.u32At 35).toNat) (List.replicate (page.u32At 35).toNat default)
      (39 + (page.u32At 35).toNat * slotElemSize + 2 +
        (page.u16At (39 + (page.u32At 35).toNat * slotElemSize)).toNat)
    rw [List.length_replicate] at hcells
    constructor
    · rintro ⟨-, hfit⟩
      obtain ⟨c', hread⟩ := hcells.1 hfit
      exact ⟨c', (Exec.bind_of_ok rfl).trans ((Exec.bind_of_ok hread).trans rfl)⟩
    · intro hno
      refine (Exec.bind_of_ok rfl).trans ?_
      exact Exec.bind_of_none (hcells.2 fun hfit => hno ⟨hfree, hfit⟩)
  · refine ⟨fun h => absurd h.1 hfree, fun _ => ?_⟩
    by_cases hfit : 39 + (page.u32At 35).toNat * slotElemSize ≤ pageSize
    · rw [if_pos hfit] at hslots
      rw [Exec.bind_of_ok hslots]
      exact Exec.bind_of_none (readBytes_bind_none hfree _)
    · rw [if_neg hfit] at hslots
      exact Exec.bind_of_none hslots

theorem InternalNode.decodeAt_returns (page : Page) :
    (page.InternalFramed →
      ∃ c', InternalNode.decodeAt ⟨page, 1⟩ = some (.ok page.internalAt, c')) ∧
    (¬ page.InternalFramed → InternalNode.decodeAt ⟨page, 1⟩ = none) := by
  unfold InternalNode.decodeAt
  rw [readU64_bind (by decide), readU64_bind (by decide), readU64_bind (by decide),
    readU32_bind (by decide)]
  have hslots := readSlots_apply page (page.u32At 25).toNat (show 29 ≤ pageSize by decide)
  -- the slots and the size of the gap are in the page, or one of the two reads panics
  by_cases hfree : 29 + (page.u32At 25).toNat * slotElemSize + 2 ≤ pageSize
  · rw [if_pos (by omega)] at hslots
    rw [Exec.bind_of_ok hslots, readU16_bind hfree]
    have hcells := readEntries_returns page
      (page.slotsAt 29 (page.u32At 25).toNat) (List.replicate (page.u32At 25).toNat default)
      (29 + (page.u32At 25).toNat * slotElemSize + 2 +
        (page.u16At (29 + (page.u32At 25).toNat * slotElemSize)).toNat)
    rw [List.length_replicate] at hcells
    constructor
    · rintro ⟨-, hfit⟩
      obtain ⟨c', hread⟩ := hcells.1 hfit
      exact ⟨c', (Exec.bind_of_ok rfl).trans ((Exec.bind_of_ok hread).trans rfl)⟩
    · intro hno
      refine (Exec.bind_of_ok rfl).trans ?_
      exact Exec.bind_of_none (hcells.2 fun hfit => hno ⟨hfree, hfit⟩)
  · refine ⟨fun h => absurd h.1 hfree, fun _ => ?_⟩
    by_cases hfit : 29 + (page.u32At 25).toNat * slotElemSize ≤ pageSize
    · rw [if_pos hfit] at hslots
      rw [Exec.bind_of_ok hslots]
      exact Exec.bind_of_none (readBytes_bind_none hfree _)
    · rw [if_neg hfit] at hslots
      exact Exec.bind_of_none hslots

/-! ### Decoding -/

/-- The call returns a node, or turns the page down as corrupt. -/
def Page.DecodeReturns (page : Page) : Prop :=
  (∃ node, BTreeNode.decode page = some (.ok node)) ∨
    ∃ text, BTreeNode.decode page = some (.error (.corruptPage text))

/-- What a framed page is read as. -/
def Page.nodeAt (page : Page) : Except DbError BTreeNode :=
  if page.u8At 0 = 1 then .ok (.leaf page.leafAt)
  else if page.u8At 0 = 0 then .ok (.internal page.internalAt)
  else .error (.corruptPage ("Unknown node type: " ++ toString (page.u8At 0).toNat))

/-- **Decoding a framed page** gives what it is read as, and decoding any other one panics. -/
theorem decode_eq (page : Page) :
    BTreeNode.decode page = if page.Framed then some page.nodeAt else none := by
  have hstep : ∀ f : UInt8 → Exec DbError (ByteCursor pageSize) BTreeNode,
      (readU8 >>= f) (ByteCursor.new page) = f (page.u8At 0) ⟨page, 1⟩ :=
    fun f => readU8_bind (by decide) f
  unfold BTreeNode.decode BTreeNode.decodeAt Page.nodeAt
  rw [hstep]
  -- the first byte chooses the decoder, and any other value is an error without a further read
  by_cases hleaf : page.u8At 0 = 1
  · have hframed : page.Framed ↔ page.LeafFramed := by
      rw [Page.Framed, if_pos hleaf]
    obtain ⟨hok, hnone⟩ := LeafNode.decodeAt_returns page
    rw [if_pos hleaf, if_pos hleaf]
    by_cases hfit : page.LeafFramed
    · obtain ⟨c', hdecode⟩ := hok hfit
      rw [if_pos (hframed.mpr hfit), Exec.bind_of_ok hdecode]
      rfl
    · rw [if_neg fun h => hfit (hframed.mp h), Exec.bind_of_none (hnone hfit)]
      rfl
  rw [if_neg hleaf, if_neg hleaf]
  by_cases hinternal : page.u8At 0 = 0
  · have hframed : page.Framed ↔ page.InternalFramed := by
      rw [Page.Framed, if_neg hleaf, if_pos hinternal]
    obtain ⟨hok, hnone⟩ := InternalNode.decodeAt_returns page
    rw [if_pos hinternal, if_pos hinternal]
    by_cases hfit : page.InternalFramed
    · obtain ⟨c', hdecode⟩ := hok hfit
      rw [if_pos (hframed.mpr hfit), Exec.bind_of_ok hdecode]
      rfl
    · rw [if_neg fun h => hfit (hframed.mp h), Exec.bind_of_none (hnone hfit)]
      rfl
  · have hframed : page.Framed := by
      rw [Page.Framed, if_neg hleaf, if_neg hinternal]
      trivial
    rw [if_neg hinternal, if_neg hinternal, if_pos hframed]
    rfl

/-- Decoding a framed page returns, and decoding any other one panics. -/
theorem decode_framed (page : Page) :
    (page.Framed → page.DecodeReturns) ∧ (¬ page.Framed → BTreeNode.decode page = none) := by
  unfold Page.DecodeReturns
  rw [decode_eq]
  constructor
  · intro hframed
    rw [if_pos hframed]
    unfold Page.nodeAt
    split
    · exact .inl ⟨_, rfl⟩
    split
    · exact .inl ⟨_, rfl⟩
    · exact .inr ⟨_, rfl⟩
  · exact fun hno => if_neg hno

/-- **When decoding does not panic.** -/
theorem decode_returns (page : Page) : page.DecodeReturns ↔ page.Framed := by
  obtain ⟨hok, hnone⟩ := decode_framed page
  refine ⟨fun hreturns => ?_, hok⟩
  by_contra hno
  have hpanic := hnone hno
  rcases hreturns with ⟨node, h⟩ | ⟨text, h⟩
  · rw [hpanic] at h
    cases h
  · rw [hpanic] at h
    cases h

/-- A page whose bytes are all one. It claims to be a leaf, with more cells than fit. -/
def Page.ones : Page := ⟨List.replicate pageSize 1, List.length_replicate ..⟩

theorem decode_ones : ¬ ∀ page : Page, page.DecodeReturns := by
  intro hall
  have htype : Page.ones.u8At 0 = 1 := rfl
  -- the slot count is four bytes of ones, more slots than a page has bytes
  have hcount : Page.ones.u32At 35 = 16843009 := by
    unfold Page.ones Buffer.u32At Buffer.slice
    rw [List.drop_replicate, List.take_replicate]
    decide
  have hnot : ¬ Page.ones.Framed := by
    intro hframed
    unfold Page.Framed at hframed
    rw [if_pos htype] at hframed
    have hfree := hframed.1
    rw [hcount] at hfree
    exact absurd hfree (by decide)
  have hpanic := (decode_framed _).2 hnot
  rcases hall Page.ones with ⟨node, h⟩ | ⟨text, h⟩
  · rw [hpanic] at h
    cases h
  · rw [hpanic] at h
    cases h

end SmolDb
