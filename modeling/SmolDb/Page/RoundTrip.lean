import SmolDb.Page.Codec
import SmolDb.Page.Slots

/-!
# The codec round trip

Reading and writing are both described by one relation on cursor calls: `Passes x old new a` says
that a call `x` at the front of the bytes `old` returns `a`, leaves `new` in their place and stops
right behind them. A write passes any bytes of the right length, a read passes the bytes it reads,
a skip passes the gap it skips. The relation composes along `bind` and along loops, so the
description of `encode` and of `decode` is assembled in the order of the source.

The two descriptions meet in the image of a node: the header image, the gap and the cell images.
The cells are written in slot order and stored through the slots, which puts every cell back in
its place: every cell that is not the default one has a slot (`Placed.foldl_set_eq`).
-/

namespace SmolDb

open LittleEndian ByteCursor

variable {n : ℕ} {α β : Type}

/-! ### Passing over bytes -/

/-- The cursor is between the bytes `done` and `rest`. -/
structure ByteCursor.At (c : ByteCursor n) (done rest : List UInt8) : Prop where
  data_eq : c.buffer.data = done ++ rest
  pos_eq : c.pos = done.length

/-- In front of `old`, the call returns `a` and has replaced `old` by `new`. -/
def Passes (x : Exec DbError (ByteCursor n) α) (old new : List UInt8) (a : α) : Prop :=
  ∀ (c : ByteCursor n) (done rest : List UInt8), c.At done (old ++ rest) →
    ∃ c', x c = some (.ok a, c') ∧ c'.At (done ++ new) rest

/-- The call reads the bytes `bs` as `a`. -/
abbrev Reads (x : Exec DbError (ByteCursor n) α) (bs : List UInt8) (a : α) : Prop :=
  Passes x bs bs a

/-- The call writes `bs` over whatever is there. -/
def Writes (x : Exec DbError (ByteCursor n) Unit) (bs : List UInt8) : Prop :=
  ∀ old : List UInt8, old.length = bs.length → Passes x old bs ()

theorem Passes.pure (a : α) : Passes (n := n) (pure a) [] [] a :=
  fun c done rest h => ⟨c, rfl, by simpa using h⟩

theorem Passes.bind {x : Exec DbError (ByteCursor n) α} {f : α → Exec DbError (ByteCursor n) β}
    {old old' new new' : List UInt8} {a : α} {b : β} (hx : Passes x old new a)
    (hf : Passes (f a) old' new' b) : Passes (x >>= f) (old ++ old') (new ++ new') b := by
  intro c done rest h
  rw [List.append_assoc] at h
  obtain ⟨c', hc, hat⟩ := hx c done _ h
  obtain ⟨c'', hc', hat'⟩ := hf c' _ rest hat
  exact ⟨c'', by rw [Exec.bind_of_ok hc, hc'], by rwa [List.append_assoc] at hat'⟩

theorem Writes.bind {x y : Exec DbError (ByteCursor n) Unit} {bs bs' : List UInt8}
    (hx : Writes x bs) (hy : Writes y bs') : Writes (x >>= fun _ => y) (bs ++ bs') := by
  intro old hold
  rw [List.length_append] at hold
  rw [← List.take_append_drop bs.length old]
  refine (hx _ ?_).bind (hy _ ?_)
  · rw [List.length_take]; omega
  · rw [List.length_drop]; omega

theorem Writes.bytes (val : List UInt8) : Writes (n := n) (writeBytes val) val := by
  intro old hold c done rest h
  have hn : done.length + (old.length + rest.length) = n := by
    rw [← c.buffer.size, h.data_eq]
    simp only [List.length_append]
  have hfit : c.pos + val.length ≤ n := by
    rw [h.pos_eq]
    omega
  refine ⟨_, by rw [writeBytes, dif_pos hfit], ?_, ?_⟩
  · simp only [h.data_eq, h.pos_eq, List.take_left, ← hold]
    rw [← List.append_assoc done, List.drop_left' (by simp)]
  · simp only [h.pos_eq, List.length_append]

theorem Writes.forEach {f : β → Exec DbError (ByteCursor n) Unit} {img : β → List UInt8}
    {bs : List β} (hf : ∀ b ∈ bs, Writes (f b) (img b)) :
    Writes (Exec.forEach f bs) (bs.flatMap img) := by
  induction bs with
  | nil =>
    intro old hold
    rw [List.length_eq_zero_iff.mp hold]
    exact Passes.pure ()
  | cons b bs ih =>
    rw [Exec.forEach_cons, List.flatMap_cons]
    exact (hf b (List.mem_cons_self ..)).bind (ih fun c hc => hf c (List.mem_cons_of_mem _ hc))

theorem Reads.bytes {len : ℕ} {bs : List UInt8} (hlen : bs.length = len) :
    Reads (n := n) (readBytes len) bs bs := by
  intro c done rest h
  have hn : done.length + (bs.length + rest.length) = n := by
    rw [← c.buffer.size, h.data_eq]
    simp only [List.length_append]
  -- the bytes are there, so the cursor stays inside the buffer
  have hfit : c.pos + len ≤ n := by
    rw [h.pos_eq]
    omega
  refine ⟨{ c with pos := c.pos + len }, ?_, ?_, ?_⟩
  · rw [readBytes, if_pos hfit, h.data_eq, h.pos_eq, List.drop_left, ← hlen, List.take_left]
  · simp only [h.data_eq, List.append_assoc]
  · simp only [h.pos_eq, List.length_append, hlen]

theorem Reads.map {x : Exec DbError (ByteCursor n) α} {bs : List UInt8} {a : α}
    (h : Reads x bs a) (f : α → β) : Reads (do let v ← x; pure (f v)) bs (f a) := by
  have hmap := Passes.bind h (f := fun v => pure (f v)) (Passes.pure _)
  rwa [List.append_nil] at hmap

theorem Reads.u8 (v : UInt8) : Reads (n := n) readU8 [v] v :=
  Passes.bind (f := fun bytes => Exec.ofOption bytes[0]?)
    (Reads.bytes (rfl : [v].length = 1)) (Passes.pure v)

theorem Reads.u16 (v : UInt16) : Reads (n := n) readU16 (u16Bytes v) v := by
  have h := (Reads.bytes (n := n) (length_u16Bytes v)).map u16Of
  rwa [u16Of_u16Bytes] at h

theorem Reads.u32 (v : UInt32) : Reads (n := n) readU32 (u32Bytes v) v := by
  have h := (Reads.bytes (n := n) (length_u32Bytes v)).map u32Of
  rwa [u32Of_u32Bytes] at h

theorem Reads.u64 (v : UInt64) : Reads (n := n) readU64 (u64Bytes v) v := by
  have h := (Reads.bytes (n := n) (length_u64Bytes v)).map u64Of
  rwa [u64Of_u64Bytes] at h

/-- A call that passes over a whole buffer stops at its end. -/
theorem Passes.run {x : Exec DbError (ByteCursor n) α} {old new : List UInt8} {a : α}
    (h : Passes x old new a) {b : Buffer n} (hb : b.data = old) (hnew : new.length = n) :
    ∃ c', x (ByteCursor.new b) = some (.ok a, c') ∧ c'.buffer.data = new ∧ c'.pos = n := by
  obtain ⟨c', hx, hat⟩ := h (ByteCursor.new b) [] [] ⟨by rw [List.append_nil]; exact hb, rfl⟩
  exact ⟨c', hx, by simpa using hat.data_eq, by simpa [hnew] using hat.pos_eq⟩

/-- A skip passes any gap of its length, and leaves it. -/
theorem Passes.skip {len : ℕ} {gap : List UInt8} (hgap : gap.length = len) :
    Passes (n := n) (ByteCursor.skip len) gap gap () := by
  intro c done rest h
  refine ⟨_, rfl, ?_, ?_⟩
  · simp only [h.data_eq, List.append_assoc]
  · simp only [h.pos_eq, List.length_append, hgap]

@[simp] theorem boolByte_ne_zero (b : Bool) : (boolByte b != 0) = b := by
  cases b <;> rfl

/-! ### Images -/

/-- The slot array as `encode` writes it. -/
def slotsImage (slots : List UInt16) : List UInt8 := slots.flatMap u16Bytes

/-- A leaf cell as `encode` writes it. -/
def recordImage (r : Record) : List UInt8 :=
  u64Bytes r.rowId ++ ([boolByte r.isDeleted] ++
    (u32Bytes (UInt32.ofNat r.data.length) ++ r.data))

/-- An internal cell as `encode` writes it. -/
def entryImage (e : IndexEntry) : List UInt8 := u64Bytes e.key ++ u64Bytes e.childPageId

@[simp] theorem length_slotsImage (slots : List UInt16) :
    (slotsImage slots).length = slots.length * slotElemSize := by
  induction slots with
  | nil => rfl
  | cons s slots ih =>
    rw [slotsImage, List.flatMap_cons, List.length_append, ← slotsImage, ih]
    simp only [length_u16Bytes, List.length_cons, slotElemSize]
    omega

theorem length_recordImage (r : Record) :
    (recordImage r).length = recordMetaSize + r.data.length := by
  simp only [recordImage, List.length_append, length_u64Bytes, length_u32Bytes,
    List.length_singleton, recordMetaSize]
  omega

theorem length_flatMap_recordImage (rs : List Record) :
    (rs.flatMap recordImage).length = LeafNode.footerLen rs := by
  induction rs with
  | nil => rfl
  | cons r rs ih =>
    rw [List.flatMap_cons, List.length_append, length_recordImage, ih, LeafNode.footerLen_cons]

theorem length_flatMap_entryImage (es : List IndexEntry) :
    (es.flatMap entryImage).length = es.length * indexEntrySize := by
  induction es with
  | nil => rfl
  | cons e es ih =>
    rw [List.flatMap_cons, List.length_append, ih]
    simp only [entryImage, List.length_append, length_u64Bytes, List.length_cons, indexEntrySize]
    omega

/-- The slot loop of `decode` reads back what the slot loop of `encode` writes. -/
theorem reads_slots (slots : List UInt16) :
    Reads (readSlots slots.length) (slotsImage slots) slots := by
  induction slots with
  | nil => exact Passes.pure _
  | cons s slots ih =>
    refine Passes.bind (Reads.u16 s) ?_
    exact Reads.map ih (s :: ·)

/-- Storing a cell in range. -/
theorem Reads.storeCell {α : Type} {cells : List α} {idx : UInt16} (cell : α)
    (h : idx.toNat < cells.length) :
    Reads (SmolDb.storeCell cells idx cell) [] (cells.set idx.toNat cell) := by
  rw [SmolDb.storeCell, if_pos h]
  exact Passes.pure _

/-! ### Leaves -/

namespace LeafNode

variable {self : LeafNode}

/-- The bytes of the header behind the node type. -/
def headerImage (self : LeafNode) (freeSize : UInt16) : List UInt8 :=
  u64Bytes self.pageId.val ++ (u64Bytes self.lastLsn ++ ([boolByte self.hasPrev] ++
    ([boolByte self.hasNext] ++ (u64Bytes self.prevPageId ++ (u64Bytes self.nextPageId ++
      (u32Bytes (UInt32.ofNat self.slotArray.length) ++ (slotsImage self.slotArray ++
        u16Bytes freeSize)))))))

theorem length_headerImage (self : LeafNode) (freeSize : UInt16) :
    (self.headerImage freeSize).length + 1 =
      leafNodeHeaderSize + self.slotArray.length * slotElemSize := by
  simp only [headerImage, List.length_append, length_u64Bytes, length_u32Bytes, length_u16Bytes,
    length_slotsImage, List.length_singleton, leafNodeHeaderSize]
  omega

/-- The unused bytes of a page that holds the leaf. -/
def gapLen (self : LeafNode) : ℕ := pageSize - self.encodedSize

theorem toNat_gapLen : (UInt16.ofNat self.gapLen).toNat = self.gapLen := by
  rw [UInt16.toNat_ofNat', Nat.mod_eq_of_lt]
  simp only [gapLen, pageSize]
  omega

/-- The cell loop writes the rows in slot order. -/
theorem writes_cells (self : LeafNode) (slots : List UInt16)
    (h : ∀ s ∈ slots, s.toNat < self.records.length) :
    Writes (self.writeCells slots)
      ((slots.map fun s => self.records.getD s.toNat default).flatMap recordImage) := by
  rw [List.flatMap_map]
  refine Writes.forEach fun s hs => ?_
  rw [recordAt_eq (h s hs)]
  have hget : Passes (n := pageSize) (Exec.ofOption (some (self.records.getD s.toNat default)))
      [] [] (self.records.getD s.toNat default) := Passes.pure _
  exact fun old hold => hget.bind (((Writes.bytes _).bind ((Writes.bytes _).bind
    ((Writes.bytes _).bind (Writes.bytes _)))) old hold)

/-- The cell loop of `decode` stores every row at its slot. -/
theorem reads_records (self : LeafNode) (slots : List UInt16) (cells : List Record)
    (hslots : ∀ s ∈ slots, s.toNat < cells.length)
    (hdata : ∀ s ∈ slots, (self.records.getD s.toNat default).data.length < 2 ^ 32) :
    Reads (readRecords slots cells)
      ((slots.map fun s => self.records.getD s.toNat default).flatMap recordImage)
      (slots.foldl (fun cs s => cs.set s.toNat (self.records.getD s.toNat default)) cells) := by
  -- each record is read and stored under its slot, over the cells stored before
  induction slots generalizing cells with
  | nil => exact Passes.pure _
  | cons s slots ih =>
    have hsize : (UInt32.ofNat (self.records.getD s.toNat default).data.length).toNat
        = (self.records.getD s.toNat default).data.length := by
      rw [UInt32.toNat_ofNat', Nat.mod_eq_of_lt (hdata s (List.mem_cons_self ..))]
    have hrest := @ih (cells.set s.toNat (self.records.getD s.toNat default))
      (fun t ht => by
        rw [List.length_set]; exact hslots t (List.mem_cons_of_mem _ ht))
      (fun t ht => hdata t (List.mem_cons_of_mem _ ht))
    rw [List.map_cons, List.flatMap_cons, List.foldl_cons, recordImage]
    simp only [List.append_assoc]
    refine Passes.bind (Reads.u64 _) (Passes.bind (Reads.u8 _) (Passes.bind (Reads.u32 _)
      (Passes.bind (Reads.bytes hsize.symm) ?_)))
    have hstore := Reads.storeCell (self.records.getD s.toNat default)
      (hslots s (List.mem_cons_self ..))
    rw [boolByte_ne_zero]
    exact Passes.bind hstore hrest

/-- What `decode` returns for the image of a leaf: the leaf, with the unused bytes of the page as
its free size and a clear dirty flag. -/
def decoded (self : LeafNode) : LeafNode :=
  { self with freeSize := UInt16.ofNat self.gapLen, isDirty := false }

@[simp] theorem bare_decoded : self.decoded.bare = self.bare := rfl

/-- The image of a leaf, around the gap `gap`. -/
def image (self : LeafNode) (gap : List UInt8) : List UInt8 :=
  [1] ++ (self.headerImage (UInt16.ofNat self.gapLen) ++
    (gap ++ self.rows.flatMap recordImage))

theorem InRange.encodeAt_of_gt (hs : self.InRange) (h : pageSize < self.encodedSize)
    (c : ByteCursor pageSize) : self.encodeAt c = some (.error .pageFull, c) := by
  have hcond : leafNodeHeaderSize + self.slotArray.length * slotElemSize
      + footerLen self.rows > pageSize := h
  rw [LeafNode.encodeAt, hs.cells_eq, Exec.bind_of_ok (Exec.ofOption_some _ _), if_pos hcond]
  rfl

/-- `encode` overwrites everything but the gap. -/
theorem InRange.encodeAt_passes (hs : self.InRange) (h : self.encodedSize ≤ pageSize)
    {old gap old' : List UInt8}
    (hold : old.length = leafNodeHeaderSize + self.slotArray.length * slotElemSize)
    (hgap : gap.length = self.gapLen) (hold' : old'.length = footerLen self.rows) :
    Passes self.encodeAt (old ++ (gap ++ old')) (self.image gap) () := by
  have hcond : ¬ leafNodeHeaderSize + self.slotArray.length * slotElemSize
      + footerLen self.rows > pageSize := Nat.not_lt.mpr h
  have hfree : pageSize - (leafNodeHeaderSize + self.slotArray.length * slotElemSize)
      - footerLen self.rows = self.gapLen := Nat.sub_sub ..
  have hheader : Writes (do
      writeU8 1
      writeU64 self.pageId.val
      writeU64 self.lastLsn
      writeU8 (boolByte self.hasPrev)
      writeU8 (boolByte self.hasNext)
      writeU64 self.prevPageId
      writeU64 self.nextPageId
      writeU32 (UInt32.ofNat self.slotArray.length)
      Exec.forEach writeU16 self.slotArray
      writeU16 (UInt16.ofNat self.gapLen) : Exec DbError (ByteCursor pageSize) Unit)
      ([1] ++ self.headerImage (UInt16.ofNat self.gapLen)) :=
    (Writes.bytes _).bind ((Writes.bytes _).bind ((Writes.bytes _).bind ((Writes.bytes _).bind
      ((Writes.bytes _).bind ((Writes.bytes _).bind ((Writes.bytes _).bind ((Writes.bytes _).bind
        ((Writes.forEach fun _ _ => Writes.bytes _).bind (Writes.bytes _)))))))))
  have hcells := self.writes_cells self.slotArray hs old'
    (by rw [hold', length_flatMap_recordImage]; rfl)
  -- the gap between the slots and the records is skipped, with what the page has there
  have hskip := Passes.bind (n := pageSize) (Passes.skip (hgap.trans toNat_gapLen.symm))
    (f := fun _ => self.writeCells self.slotArray) hcells
  have hbody := Passes.bind (hheader old (by
      rw [hold, ← self.length_headerImage (UInt16.ofNat self.gapLen), List.length_append,
        List.length_singleton, Nat.add_comm]))
    (f := fun _ => skip (UInt16.ofNat self.gapLen).toNat >>= fun _ =>
      self.writeCells self.slotArray) hskip
  simp only [bind_assoc, List.append_assoc] at hbody
  intro c done rest hat
  rw [LeafNode.encodeAt, hs.cells_eq, Exec.bind_of_ok (Exec.ofOption_some _ _), if_neg hcond,
    hfree]
  exact hbody c done rest hat

/-- A record of a leaf that fits in a page is short enough for the length field of its cell. -/
theorem length_data_lt (h : self.encodedSize ≤ pageSize) {r : Record} (hr : r ∈ self.rows) :
    r.data.length < 2 ^ 32 := by
  have hmem := le_footerLen hr
  simp only [encodedSize, pageSize, recordMetaSize] at h hmem
  omega

/-- `decode` reads the image back. -/
theorem IsPlaced.decodeAt_reads (hs : self.IsPlaced) (h : self.encodedSize ≤ pageSize)
    {gap : List UInt8} (hgap : gap.length = self.gapLen) :
    Reads LeafNode.decodeAt (self.headerImage (UInt16.ofNat self.gapLen) ++
      (gap ++ self.rows.flatMap recordImage)) self.decoded := by
  have hcount : (UInt32.ofNat self.slotArray.length).toNat = self.slotArray.length := by
    rw [UInt32.toNat_ofNat', Nat.mod_eq_of_lt]
    simp only [encodedSize, pageSize, slotElemSize] at h
    omega
  have hrecords := self.reads_records self.slotArray
    (List.replicate self.slotArray.length default)
    (fun s hs' => by rw [List.length_replicate, hs.length_eq]; exact hs.lt s hs')
    (fun s hs' => length_data_lt h (List.mem_map_of_mem hs'))
  -- storing the rows under their slots gives the records back
  rw [hs.foldl_set_eq] at hrecords
  simp only [headerImage, List.append_assoc]
  refine Passes.bind (Reads.u64 _) (Passes.bind (Reads.u64 _) (Passes.bind (Reads.u8 _)
    (Passes.bind (Reads.u8 _) (Passes.bind (Reads.u64 _) (Passes.bind (Reads.u64 _)
      (Passes.bind (Reads.u32 _) ?_))))))
  rw [hcount]
  refine Passes.bind (reads_slots _) (Passes.bind (Reads.u16 _)
    (Passes.bind (Passes.skip (hgap.trans toNat_gapLen.symm)) ?_))
  have hlast := Reads.map hrecords fun cells : List Record =>
    ({ pageId := ⟨self.pageId.val⟩
       lastLsn := self.lastLsn
       hasPrev := boolByte self.hasPrev != 0
       hasNext := boolByte self.hasNext != 0
       prevPageId := self.prevPageId
       nextPageId := self.nextPageId
       slotArray := self.slotArray
       records := cells
       freeSize := UInt16.ofNat self.gapLen
       isDirty := false } : LeafNode)
  simp only [boolByte_ne_zero] at hlast ⊢
  exact hlast

theorem length_image {gap : List UInt8} (hgap : gap.length = self.gapLen)
    (h : self.encodedSize ≤ pageSize) : (self.image gap).length = pageSize := by
  have hheader := self.length_headerImage (UInt16.ofNat self.gapLen)
  simp only [image, List.length_append, List.length_singleton, hgap, length_flatMap_recordImage]
  unfold gapLen encodedSize at *
  omega

end LeafNode

/-! ### Internal nodes -/

namespace InternalNode

variable {self : InternalNode}

/-- The bytes of the header behind the node type. -/
def headerImage (self : InternalNode) (freeSize : UInt16) : List UInt8 :=
  u64Bytes self.pageId.val ++ (u64Bytes self.lastLsn ++ (u64Bytes self.rightmostChildId.val ++
    (u32Bytes (UInt32.ofNat self.slotArray.length) ++ (slotsImage self.slotArray ++
      u16Bytes freeSize))))

theorem length_headerImage (self : InternalNode) (freeSize : UInt16) :
    (self.headerImage freeSize).length + 1 =
      internalNodeHeaderSize + self.slotArray.length * slotElemSize := by
  simp only [headerImage, List.length_append, length_u64Bytes, length_u32Bytes, length_u16Bytes,
    length_slotsImage, internalNodeHeaderSize]
  omega

/-- The unused bytes of a page that holds the node. -/
def gapLen (self : InternalNode) : ℕ := pageSize - self.encodedSize

theorem toNat_gapLen : (UInt16.ofNat self.gapLen).toNat = self.gapLen := by
  rw [UInt16.toNat_ofNat', Nat.mod_eq_of_lt]
  simp only [gapLen, pageSize]
  omega

/-- The entries of the node in slot order. -/
def rows (self : InternalNode) : List IndexEntry :=
  self.slotArray.map fun slot => self.entries.getD slot.toNat default

@[simp] theorem length_rows : self.rows.length = self.slotArray.length := List.length_map ..

theorem getElem?_entries {slot : UInt16} (h : slot.toNat < self.entries.length) :
    self.entries[slot.toNat]? = some (self.entries.getD slot.toNat default) := by
  rw [List.getElem?_eq_getElem h, List.getD_eq_getElem _ _ h]

/-- The cell loop writes the entries in slot order. -/
theorem writes_cells (self : InternalNode) (slots : List UInt16)
    (h : ∀ s ∈ slots, s.toNat < self.entries.length) :
    Writes (self.writeCells slots)
      ((slots.map fun s => self.entries.getD s.toNat default).flatMap entryImage) := by
  rw [List.flatMap_map]
  refine Writes.forEach fun s hs => ?_
  rw [getElem?_entries (h s hs)]
  have hget : Passes (n := pageSize) (Exec.ofOption (some (self.entries.getD s.toNat default)))
      [] [] (self.entries.getD s.toNat default) := Passes.pure _
  exact fun old hold => hget.bind (((Writes.bytes _).bind (Writes.bytes _)) old hold)

/-- The cell loop of `decode` stores every entry at its slot. -/
theorem reads_entries (self : InternalNode) (slots : List UInt16) (cells : List IndexEntry)
    (hslots : ∀ s ∈ slots, s.toNat < cells.length) :
    Reads (readEntries slots cells)
      ((slots.map fun s => self.entries.getD s.toNat default).flatMap entryImage)
      (slots.foldl (fun cs s => cs.set s.toNat (self.entries.getD s.toNat default)) cells) := by
  induction slots generalizing cells with
  | nil => exact Passes.pure _
  | cons s slots ih =>
    have hrest := @ih (cells.set s.toNat (self.entries.getD s.toNat default))
      (fun t ht => by
        rw [List.length_set]; exact hslots t (List.mem_cons_of_mem _ ht))
    rw [List.map_cons, List.flatMap_cons, List.foldl_cons, entryImage]
    simp only [List.append_assoc]
    exact Passes.bind (Reads.u64 _) (Passes.bind (Reads.u64 _) (Passes.bind
      (Reads.storeCell (self.entries.getD s.toNat default) (hslots s (List.mem_cons_self ..)))
      hrest))

/-- What `decode` returns for the image of the node. -/
def decoded (self : InternalNode) : InternalNode :=
  { self with freeSize := UInt16.ofNat self.gapLen, isDirty := false }

@[simp] theorem bare_decoded : self.decoded.bare = self.bare := rfl

/-- The image of the node, around the gap `gap`. -/
def image (self : InternalNode) (gap : List UInt8) : List UInt8 :=
  [0] ++ (self.headerImage (UInt16.ofNat self.gapLen) ++
    (gap ++ self.rows.flatMap entryImage))

theorem encodeAt_of_gt (h : pageSize < self.encodedSize)
    (c : ByteCursor pageSize) : self.encodeAt c = some (.error .pageFull, c) := by
  have hcond : internalNodeHeaderSize + self.slotArray.length * slotElemSize
      + self.slotArray.length * indexEntrySize > pageSize := h
  rw [InternalNode.encodeAt, if_pos hcond]
  rfl

/-- `encode` overwrites everything but the gap. -/
theorem IsPlaced.encodeAt_passes (hs : self.IsPlaced) (h : self.encodedSize ≤ pageSize)
    {old gap old' : List UInt8}
    (hold : old.length = internalNodeHeaderSize + self.slotArray.length * slotElemSize)
    (hgap : gap.length = self.gapLen)
    (hold' : old'.length = self.slotArray.length * indexEntrySize) :
    Passes self.encodeAt (old ++ (gap ++ old')) (self.image gap) () := by
  have hcond : ¬ internalNodeHeaderSize + self.slotArray.length * slotElemSize
      + self.slotArray.length * indexEntrySize > pageSize := Nat.not_lt.mpr h
  have hfree : pageSize - (internalNodeHeaderSize + self.slotArray.length * slotElemSize)
      - self.slotArray.length * indexEntrySize = self.gapLen := Nat.sub_sub ..
  have hheader : Writes (do
      writeU8 0
      writeU64 self.pageId.val
      writeU64 self.lastLsn
      writeU64 self.rightmostChildId.val
      writeU32 (UInt32.ofNat self.slotArray.length)
      Exec.forEach writeU16 self.slotArray
      writeU16 (UInt16.ofNat self.gapLen) : Exec DbError (ByteCursor pageSize) Unit)
      ([0] ++ self.headerImage (UInt16.ofNat self.gapLen)) :=
    (Writes.bytes _).bind ((Writes.bytes _).bind ((Writes.bytes _).bind ((Writes.bytes _).bind
      ((Writes.bytes _).bind ((Writes.forEach fun _ _ => Writes.bytes _).bind
        (Writes.bytes _))))))
  have hcells := self.writes_cells self.slotArray hs.lt old'
    (by rw [hold', length_flatMap_entryImage, List.length_map])
  -- as for a leaf: header and slots, the gap, the entries
  have hskip := Passes.bind (n := pageSize) (Passes.skip (hgap.trans toNat_gapLen.symm))
    (f := fun _ => self.writeCells self.slotArray) hcells
  have hbody := Passes.bind (hheader old (by
      rw [hold, ← self.length_headerImage (UInt16.ofNat self.gapLen), List.length_append,
        List.length_singleton, Nat.add_comm]))
    (f := fun _ => skip (UInt16.ofNat self.gapLen).toNat >>= fun _ =>
      self.writeCells self.slotArray) hskip
  simp only [bind_assoc, List.append_assoc] at hbody
  intro c done rest hat
  rw [InternalNode.encodeAt, if_neg hcond, hfree]
  exact hbody c done rest hat

/-- `decode` reads the image back. -/
theorem IsPlaced.decodeAt_reads (hs : self.IsPlaced) (h : self.encodedSize ≤ pageSize)
    {gap : List UInt8} (hgap : gap.length = self.gapLen) :
    Reads InternalNode.decodeAt (self.headerImage (UInt16.ofNat self.gapLen) ++
      (gap ++ self.rows.flatMap entryImage)) self.decoded := by
  have hcount : (UInt32.ofNat self.slotArray.length).toNat = self.slotArray.length := by
    rw [UInt32.toNat_ofNat', Nat.mod_eq_of_lt]
    simp only [encodedSize, pageSize, slotElemSize] at h
    omega
  have hentries := self.reads_entries self.slotArray
    (List.replicate self.slotArray.length default)
    (fun s hs' => by rw [List.length_replicate, hs.length_eq]; exact hs.lt s hs')
  rw [hs.foldl_set_eq] at hentries
  simp only [headerImage, List.append_assoc]
  refine Passes.bind (Reads.u64 _) (Passes.bind (Reads.u64 _) (Passes.bind (Reads.u64 _)
    (Passes.bind (Reads.u32 _) ?_)))
  rw [hcount]
  exact Passes.bind (reads_slots _) (Passes.bind (Reads.u16 _)
    (Passes.bind (Passes.skip (hgap.trans toNat_gapLen.symm)) (Reads.map hentries _)))

theorem length_image {gap : List UInt8} (hgap : gap.length = self.gapLen)
    (h : self.encodedSize ≤ pageSize) : (self.image gap).length = pageSize := by
  have hheader := self.length_headerImage (UInt16.ofNat self.gapLen)
  simp only [image, List.length_append, List.length_singleton, hgap, length_flatMap_entryImage,
    length_rows]
  unfold gapLen encodedSize at *
  omega

end InternalNode

/-! ### Nodes of either kind -/

namespace BTreeNode

/-- The unused bytes of a page that holds the node. -/
def gapLen (self : BTreeNode) : ℕ := pageSize - self.encodedSize

/-- What `decode` returns for the image of the node: the node, with the unused bytes of the page
as its free size and a clear dirty flag. -/
def decoded : BTreeNode → BTreeNode
  | .internal node => .internal node.decoded
  | .leaf node => .leaf node.decoded

/-- The image of the node, around the gap `gap`. -/
def image : BTreeNode → List UInt8 → List UInt8
  | .internal node => node.image
  | .leaf node => node.image

/-- `free_size` of either kind of node. -/
def freeSize : BTreeNode → UInt16
  | .internal node => node.freeSize
  | .leaf node => node.freeSize

@[simp] theorem bare_decoded (self : BTreeNode) : self.decoded.bare = self.bare := by
  cases self <;> rfl

@[simp] theorem isDirty_decoded (self : BTreeNode) : self.decoded.isDirty = false := by
  cases self <;> rfl

theorem freeSize_decoded (self : BTreeNode) :
    self.decoded.freeSize.toNat = pageSize - self.encodedSize := by
  cases self with
  | internal node => exact InternalNode.toNat_gapLen
  | leaf node => exact LeafNode.toNat_gapLen

theorem IsSlotted.decoded {self : BTreeNode} (h : self.IsSlotted) : self.decoded.IsSlotted := by
  cases self <;> exact h

theorem length_image {self : BTreeNode} {gap : List UInt8} (hgap : gap.length = self.gapLen)
    (h : self.encodedSize ≤ pageSize) : (self.image gap).length = pageSize := by
  cases self with
  | internal node => exact InternalNode.length_image hgap h
  | leaf node => exact LeafNode.length_image hgap h

/-- A node that does not fit is rejected before anything is written. -/
theorem IsPlaced.encodeAt_of_gt {self : BTreeNode} (hs : self.IsPlaced)
    (h : pageSize < self.encodedSize) (c : ByteCursor pageSize) :
    self.encodeAt c = some (.error .pageFull, c) := by
  cases self with
  | internal node => exact InternalNode.encodeAt_of_gt h c
  | leaf node => exact (LeafNode.IsPlaced.inRange hs).encodeAt_of_gt h c

/-- `encode` turns any page into the image of the node around some of its old bytes. -/
theorem IsPlaced.encodeAt_passes {self : BTreeNode} (hs : self.IsPlaced)
    (h : self.encodedSize ≤ pageSize) {old : List UInt8} (hold : old.length = pageSize) :
    ∃ gap : List UInt8, gap.length = self.gapLen ∧
      Passes self.encodeAt old (self.image gap) () := by
  -- cut the old bytes where the header ends and where the cells begin
  have hcut : ∀ header footer : ℕ, header + footer = self.encodedSize →
      (old.take header).length = header ∧
      ((old.drop header).take self.gapLen).length = self.gapLen ∧
      ((old.drop header).drop self.gapLen).length = footer := by
    intro header footer hsum
    simp only [List.length_take, List.length_drop, gapLen]
    omega
  have hjoin : ∀ header : ℕ, old = old.take header ++
      ((old.drop header).take self.gapLen ++ (old.drop header).drop self.gapLen) := fun header => by
    rw [List.take_append_drop, List.take_append_drop]
  cases self with
  | internal node =>
    obtain ⟨h1, h2, h3⟩ :=
      hcut (internalNodeHeaderSize + node.slotArray.length * slotElemSize) _ rfl
    refine ⟨_, h2, ?_⟩
    have hpass := InternalNode.IsPlaced.encodeAt_passes hs h h1 h2 h3
    rwa [← hjoin] at hpass
  | leaf node =>
    obtain ⟨h1, h2, h3⟩ := hcut (leafNodeHeaderSize + node.slotArray.length * slotElemSize) _ rfl
    refine ⟨_, h2, ?_⟩
    have hpass := (LeafNode.IsPlaced.inRange hs).encodeAt_passes h h1 h2 h3
    rwa [← hjoin] at hpass

/-- `decode` reads the image of a node, around any gap. -/
theorem IsPlaced.decodeAt_reads {self : BTreeNode} (hs : self.IsPlaced)
    (h : self.encodedSize ≤ pageSize) {gap : List UInt8} (hgap : gap.length = self.gapLen) :
    Reads BTreeNode.decodeAt (self.image gap) self.decoded := by
  cases self with
  | internal node =>
    have hnode : Reads InternalNode.decodeAt _ node.decoded :=
      InternalNode.IsPlaced.decodeAt_reads hs h hgap
    exact Passes.bind (Reads.u8 0) (hnode.map BTreeNode.internal)
  | leaf node =>
    have hnode : Reads LeafNode.decodeAt _ node.decoded :=
      LeafNode.IsPlaced.decodeAt_reads hs h hgap
    exact Passes.bind (Reads.u8 1) (hnode.map BTreeNode.leaf)

/-- A node that fits is written and read back, both up to the last byte of the page. -/
theorem IsPlaced.encode_ok {self : BTreeNode} (hs : self.IsPlaced)
    (h : self.encodedSize ≤ pageSize) (page : Page) : ∃ written read : ByteCursor pageSize,
      self.encodeAt (ByteCursor.new page) = some (.ok (), written) ∧ written.pos = pageSize ∧
      self.encode page = some (.ok (), written.buffer) ∧
      BTreeNode.decodeAt (ByteCursor.new written.buffer) = some (.ok self.decoded, read) ∧
      read.pos = pageSize ∧
      BTreeNode.decode written.buffer = some (.ok self.decoded) := by
  obtain ⟨gap, hgap, hwrite⟩ := hs.encodeAt_passes h page.size
  have hlen := length_image hgap h
  obtain ⟨written, hw, hdata, hwpos⟩ := Passes.run hwrite rfl hlen
  obtain ⟨read, hr, -, hrpos⟩ := Passes.run (hs.decodeAt_reads h hgap) hdata hlen
  exact ⟨written, read, hw, hwpos, by rw [encode, hw]; rfl, hr, hrpos, by rw [decode, hr]; rfl⟩

/-- A node that does not fit leaves the page alone. -/
theorem IsPlaced.encode_full {self : BTreeNode} (hs : self.IsPlaced)
    (h : pageSize < self.encodedSize) (page : Page) :
    self.encode page = some (.error .pageFull, page) := by
  rw [encode, hs.encodeAt_of_gt h]
  rfl

/-- **The codec round trip.** A slotted node is encoded exactly when it fits in a page; both
`encode` and the `decode` of what it wrote then stop at the last byte of the page, and `decode`
returns the node with the unused bytes as its free size. A node that does not fit is rejected
and the page keeps its bytes. -/
theorem encode_decode_roundTrip (node : BTreeNode) (hs : node.IsSlotted) (page : Page) :
    ((∃ page', node.encode page = some (.ok (), page')) ↔ node.encodedSize ≤ pageSize) ∧
    (node.encodedSize ≤ pageSize → ∃ written read : ByteCursor pageSize,
      node.encodeAt (ByteCursor.new page) = some (.ok (), written) ∧ written.pos = pageSize ∧
      node.encode page = some (.ok (), written.buffer) ∧
      BTreeNode.decodeAt (ByteCursor.new written.buffer) = some (.ok node.decoded, read) ∧
      read.pos = pageSize ∧
      BTreeNode.decode written.buffer = some (.ok node.decoded) ∧
      node.decoded.bare = node.bare ∧ node.decoded.isDirty = false ∧
      node.decoded.freeSize.toNat + node.encodedSize = pageSize) ∧
    (pageSize < node.encodedSize → node.encode page = some (.error .pageFull, page)) := by
  refine ⟨⟨?_, ?_⟩, ?_, fun h => hs.placed.encode_full h page⟩
  · -- a node that is too large is refused before anything is written
    rintro ⟨page', hok⟩
    by_contra hgt
    rw [hs.placed.encode_full (Nat.not_le.mp hgt)] at hok
    cases hok
  · intro h
    obtain ⟨written, -, -, -, hok, -⟩ := hs.placed.encode_ok h page
    exact ⟨_, hok⟩
  · intro h
    obtain ⟨written, read, hw, hwpos, hok, hr, hrpos, hdec⟩ := hs.placed.encode_ok h page
    refine ⟨written, read, hw, hwpos, hok, hr, hrpos, hdec, bare_decoded node,
      isDirty_decoded node, ?_⟩
    rw [freeSize_decoded]
    exact Nat.sub_add_cancel h

/-- Two records stored against the order of their slots. -/
def crossedLeaf : BTreeNode :=
  .leaf { (default : LeafNode) with
    pageId := ⟨4096⟩
    slotArray := [1, 0]
    records := [⟨9, [7, 7], true⟩, ⟨3, [], false⟩] }

theorem encode_decode_crossedLeaf : ∃ page', crossedLeaf.encode Page.new = some (.ok (), page') ∧
    BTreeNode.decode page' = some (.ok crossedLeaf.decoded) := by
  have hs : crossedLeaf.IsSlotted := by
    change List.Perm [1, 0] (List.range 2)
    decide
  obtain ⟨-, hfits, -⟩ := encode_decode_roundTrip crossedLeaf hs Page.new
  obtain ⟨written, -, -, -, hok, -, -, hdec, -⟩ := hfits (by decide)
  exact ⟨_, hok, hdec⟩

end BTreeNode

end SmolDb
