import SmolDb.Page.Decode
import SmolDb.Page.File

/-!
# The LSN of a page

The image of a node has the LSN of the node at a fixed place, and a node that is decoded has the
LSN that stands there. So the file has an LSN for every page it has room for (`DataFile.lsnAt`),
also for one whose bytes do not decode. Writing an image, or only a part of it, onto a page whose
LSN is not above the node's leaves one that is not above it either
(`DataFile.lsnAt_writeAt_le`): the bytes of an LSN are written from the lowest one up.
-/

namespace SmolDb

open LittleEndian ByteCursor

/-! ### The LSN of an image -/

/-- The LSN in the image of a node, which is at the same place for both kinds of nodes. -/
def Page.lastLsn (self : Page) : UInt64 := self.u64At 9

section Encoding

variable {n : ℕ} {α : Type}

/-- The cursor went on, and the bytes behind it are as they were. -/
def Onward (c c' : ByteCursor n) : Prop :=
  c.pos ≤ c'.pos ∧ c'.buffer.data.take c.pos = c.buffer.data.take c.pos

theorem Onward.refl (c : ByteCursor n) : Onward c c := ⟨Nat.le_refl _, rfl⟩

theorem Onward.trans (a b c : ByteCursor n) (h : Onward a b) (h' : Onward b c) : Onward a c := by
  refine ⟨Nat.le_trans h.1 h'.1, ?_⟩
  calc c.buffer.data.take a.pos
      = (c.buffer.data.take b.pos).take a.pos := by rw [List.take_take, Nat.min_eq_left h.1]
    _ = (b.buffer.data.take b.pos).take a.pos := by rw [h'.2]
    _ = b.buffer.data.take a.pos := by rw [List.take_take, Nat.min_eq_left h.1]
    _ = a.buffer.data.take a.pos := h.2

theorem within_writeBytes (val : List UInt8) : Exec.Within (@Onward n) (writeBytes val) := by
  intro c r c' h
  unfold writeBytes at h
  split at h
  · next hfit =>
    cases h
    refine ⟨Nat.le_add_right .., ?_⟩
    have hlen : (c.buffer.data.take c.pos).length = c.pos := by
      rw [List.length_take, c.buffer.size]
      omega
    show ((c.buffer.data.take c.pos ++ val) ++ _).take c.pos = _
    rw [List.append_assoc, List.take_left' hlen]
  · cases h

theorem within_skip (len : ℕ) : Exec.Within (@Onward n) (skip len) := by
  intro c r c' h
  cases h
  exact ⟨Nat.le_add_right .., rfl⟩

theorem within_ofOption (o : Option α) :
    Exec.Within (@Onward n) (Exec.ofOption o : Exec DbError (ByteCursor n) α) := by
  intro c r c' h
  obtain ⟨a, -, -, rfl⟩ := Exec.ofOption_eq_some.mp h
  exact .refl _

/-- What comes behind the first three fields of an image does not reach them. -/
theorem lastLsn_of_writes {tag : UInt8} {id lsn : UInt64}
    {rest : Exec DbError (ByteCursor pageSize) Unit} (hrest : Exec.Within Onward rest)
    {page : Page} {c' : ByteCursor pageSize}
    (h : (writeU8 tag >>= fun _ => writeU64 id >>= fun _ => writeU64 lsn >>= fun _ => rest)
      (ByteCursor.new page) = some (.ok (), c')) : Page.lastLsn c'.buffer = lsn := by
  -- the first three writes fill the seventeen bytes up to the end of the LSN
  have hfront : Writes (n := pageSize)
      (writeU8 tag >>= fun _ => writeU64 id >>= fun _ => writeU64 lsn)
      ([tag] ++ (u64Bytes id ++ u64Bytes lsn)) :=
    (Writes.bytes _).bind ((Writes.bytes _).bind (Writes.bytes _))
  have hlen : ([tag] ++ (u64Bytes id ++ u64Bytes lsn)).length = 17 := by simp
  have hcut : (page.data.take 17).length = 17 := by
    rw [List.length_take, page.size]
    rfl
  obtain ⟨c, hc, hat⟩ := hfront (page.data.take 17) (hcut.trans hlen.symm) (ByteCursor.new page)
    [] (page.data.drop 17) ⟨(List.take_append_drop 17 _).symm, rfl⟩
  have hassoc :
      (writeU8 tag >>= fun _ => writeU64 id >>= fun _ => writeU64 lsn >>= fun _ => rest) =
      (writeU8 tag >>= fun _ => writeU64 id >>= fun _ => writeU64 lsn) >>= fun _ => rest := by
    simp only [Exec.bind_bind]
  rw [hassoc, Exec.bind_of_ok hc] at h
  -- and what follows only writes behind them
  have htake : c'.buffer.data.take 17 = [tag] ++ (u64Bytes id ++ u64Bytes lsn) := by
    have honward := (hrest _ _ _ h).2
    rw [hat.pos_eq, hat.data_eq, List.nil_append, hlen] at honward
    rw [honward, List.take_left' hlen]
  have hslice : c'.buffer.slice 9 8 = u64Bytes lsn := by
    calc c'.buffer.slice 9 8
        = (c'.buffer.data.take 17).drop 9 := by rw [List.drop_take]; rfl
      _ = ([tag] ++ u64Bytes id ++ u64Bytes lsn).drop 9 := by rw [htake, List.append_assoc]
      _ = u64Bytes lsn := List.drop_left' (by simp)
  show u64Of (c'.buffer.slice 9 8) = lsn
  rw [hslice, u64Of_u64Bytes]

/-- **The image of a node has its LSN.** -/
theorem BTreeNode.encode_lastLsn {node : BTreeNode} {page page' : Page}
    (h : node.encode page = some (.ok (), page')) : page'.lastLsn = node.getLastLsn := by
  obtain ⟨⟨r, c'⟩, hrun, heq⟩ := Option.map_eq_some_iff.mp h
  cases heq
  -- every write moves the cursor onward, so a sequence of them does
  have hthen : ∀ {α : Type} {x : Exec DbError (ByteCursor pageSize) Unit}
      {y : Exec DbError (ByteCursor pageSize) α}, Exec.Within Onward x → Exec.Within Onward y →
      Exec.Within Onward (x >>= fun _ => y) := fun hx hy => .bind Onward.trans hx fun _ => hy
  have hslots : ∀ slots, Exec.Within Onward (Exec.forEach (writeU16 (n := pageSize)) slots) :=
    fun slots => .forEach Onward.refl Onward.trans fun _ _ => within_writeBytes _
  cases node with
  | leaf node =>
    -- the leaf counts its cells first, and refuses what would not fit
    obtain ⟨cells, c, hcells, hrun⟩ := Exec.bind_eq_ok.mp hrun
    obtain ⟨_, -, -, rfl⟩ := Exec.ofOption_eq_some.mp hcells
    split at hrun
    · cases hrun
    have hloop : Exec.Within Onward (node.writeCells node.slotArray) := by
      refine .forEach Onward.refl Onward.trans fun slot _ => ?_
      refine .bind Onward.trans (within_ofOption _) fun cell => ?_
      exact hthen (within_writeBytes _) (hthen (within_writeBytes _) (hthen (within_writeBytes _)
        (within_writeBytes _)))
    refine lastLsn_of_writes ?_ hrun
    iterate 5 refine hthen (within_writeBytes _) ?_
    exact hthen (hslots _) (hthen (within_writeBytes _) (hthen (within_skip _) hloop))
  | internal node =>
    change InternalNode.encodeAt node (ByteCursor.new page) = _ at hrun
    unfold InternalNode.encodeAt at hrun
    split at hrun
    · cases hrun
    have hloop : Exec.Within Onward (node.writeCells node.slotArray) := by
      refine .forEach Onward.refl Onward.trans fun slot _ => ?_
      refine .bind Onward.trans (within_ofOption _) fun cell => ?_
      exact hthen (within_writeBytes _) (within_writeBytes _)
    refine lastLsn_of_writes ?_ hrun
    iterate 2 refine hthen (within_writeBytes _) ?_
    exact hthen (hslots _) (hthen (within_writeBytes _) (hthen (within_skip _) hloop))

end Encoding

/-! ### The LSN of a decoded page -/

/-- **A node that is decoded has the LSN of the page.** -/
theorem BTreeNode.getLastLsn_of_decode {page : Page} {node : BTreeNode}
    (h : BTreeNode.decode page = some (.ok node)) : node.getLastLsn = page.lastLsn := by
  rw [decode_eq] at h
  split at h
  · rw [Option.some.injEq, Page.nodeAt] at h
    split at h
    · cases h
      rfl
    split at h
    · cases h
      rfl
    · cases h
  · cases h

/-! ### The LSNs in the file -/

namespace DataFile

variable {f : DataFile} {offset offset' : ℕ} {data : List UInt8}

/-- The byte at a place; zero beyond the end, as it will be when the file is extended. -/
def byteAt (self : DataFile) (i : ℕ) : UInt8 := if i < self.len then self.bytes i else 0

/-- The bytes of the LSN of the page at an offset. -/
def lsnBytes (self : DataFile) (offset : ℕ) : List UInt8 :=
  (List.range 8).map fun i => self.byteAt (offset + (9 + i))

/-- The LSN of the page at an offset. -/
def lsnAt (self : DataFile) (offset : ℕ) : UInt64 := u64Of (self.lsnBytes offset)

theorem length_lsnBytes (f : DataFile) (offset : ℕ) : (f.lsnBytes offset).length = 8 := by
  simp [lsnBytes]

/-- An empty file has no LSN. -/
theorem lsnAt_empty (offset : ℕ) : empty.lsnAt offset = 0 := by
  have hbyte : ∀ i, empty.byteAt i = 0 := fun i => if_neg (Nat.not_lt_zero i)
  have hbytes : empty.lsnBytes offset = (List.range 8).map fun _ => (0 : UInt8) :=
    List.map_congr_left fun i _ => hbyte _
  rw [lsnAt, hbytes]
  rfl

theorem byteAt_writeAt (f : DataFile) (offset : ℕ) (data : List UInt8) (i : ℕ) :
    (f.writeAt offset data).byteAt i =
      if offset ≤ i ∧ i < offset + data.length then data.getD (i - offset) 0 else f.byteAt i := by
  by_cases hdata : data = []
  · -- nothing was written
    subst hdata
    have hno : ¬ (offset ≤ i ∧ i < offset + ([] : List UInt8).length) :=
      fun h => absurd h.2 (Nat.not_lt_of_le h.1)
    rw [if_neg hno, writeAt, if_pos rfl]
  unfold byteAt writeAt
  rw [if_neg hdata]
  dsimp only
  by_cases hin : offset ≤ i ∧ i < offset + data.length
  · rw [if_pos hin, if_pos (Nat.lt_of_lt_of_le hin.2 (Nat.le_max_right ..))]
  · rw [if_neg hin]
    -- outside the data a byte below the old length is kept, and one past it reads as zero
    by_cases hlen : i < f.len
    · rw [if_pos hlen, if_pos (Nat.lt_of_lt_of_le hlen (Nat.le_max_left ..))]
    · rw [if_neg hlen, ite_self]

/-- The page that is read has the LSN of its place. -/
theorem lastLsn_of_readAt {page : Page} (h : f.readAt offset pageSize = some page) :
    page.lastLsn = f.lsnAt offset := by
  obtain ⟨hlen, hdata⟩ := readAt_eq_some.mp h
  refine congrArg u64Of ?_
  show (page.data.drop 9).take 8 = f.lsnBytes offset
  refine List.ext_getElem ?_ fun i hi _ => ?_
  · rw [List.length_take, List.length_drop, page.size, length_lsnBytes]
    rfl
  · have hlt : i < 8 := Nat.lt_of_lt_of_le hi (List.length_take_le ..)
    have hin : offset + (9 + i) < f.len := by
      have hsmall : 9 + 8 ≤ pageSize := by decide
      omega
    simp only [List.getElem_take, List.getElem_drop, hdata, List.getElem_map, List.getElem_range,
      lsnBytes, byteAt, if_pos hin]

/-- **The LSN of a node in the file.** -/
theorem lsnAt_of_nodeAt {node : BTreeNode} (h : f.nodeAt offset = some node) :
    node.getLastLsn = f.lsnAt offset := by
  obtain ⟨page, hread, hdecode⟩ := Option.bind_eq_some_iff.mp h
  split at hdecode
  · next node' hok =>
    cases hdecode
    rw [BTreeNode.getLastLsn_of_decode hok, lastLsn_of_readAt hread]
  · cases hdecode

/-- A write somewhere else leaves the LSN alone. -/
theorem lsnAt_writeAt_of_disjoint
    (h : offset + pageSize ≤ offset' ∨ offset' + data.length ≤ offset) :
    (f.writeAt offset' data).lsnAt offset = f.lsnAt offset := by
  refine congrArg u64Of (List.map_congr_left fun i hi => ?_)
  have hsmall : 9 + 8 ≤ pageSize := by decide
  rw [List.mem_range] at hi
  rw [byteAt_writeAt, if_neg (by omega)]

/-- What is left of the LSN when only a part of an image was written. -/
theorem lsnBytes_writeAt {page : Page} (h : data <+: page.data) :
    (f.writeAt offset data).lsnBytes offset =
      (page.slice 9 8).take (data.length - 9) ++ (f.lsnBytes offset).drop (data.length - 9) := by
  have hsize : (page.slice 9 8).length = 8 := by
    rw [Buffer.slice, List.length_take, List.length_drop, page.size]
    rfl
  have hle : data.length ≤ page.data.length := h.length_le
  -- byte by byte: the data reaches `data.length - 9` bytes into the LSN
  refine List.ext_getElem ?_ fun i hi _ => ?_
  · rw [List.length_append, List.length_take, List.length_drop, hsize, length_lsnBytes,
      length_lsnBytes]
    omega
  · rw [length_lsnBytes] at hi
    have hi' : i < ((f.writeAt offset data).lsnBytes offset).length := by
      rwa [length_lsnBytes]
    have hbyte : ((f.writeAt offset data).lsnBytes offset)[i] =
        (f.writeAt offset data).byteAt (offset + (9 + i)) := by
      simp [lsnBytes]
    rw [hbyte, byteAt_writeAt]
    by_cases hin : 9 + i < data.length
    · -- the new byte
      rw [if_pos ⟨Nat.le_add_right .., Nat.add_lt_add_left hin _⟩, Nat.add_sub_cancel_left,
        List.getElem_append_left (by rw [List.length_take, hsize]; omega), List.getElem_take,
        List.getD_eq_getElem _ _ hin, h.getElem]
      simp only [Buffer.slice, List.getElem_take, List.getElem_drop]
    · -- the old byte
      have hcut : ((page.slice 9 8).take (data.length - 9)).length = data.length - 9 :=
        List.length_take_of_le (by omega)
      rw [if_neg fun hno => hin (Nat.lt_of_add_lt_add_left hno.2),
        List.getElem_append_right (by omega)]
      simp only [List.getElem_drop, lsnBytes, List.getElem_map, List.getElem_range]
      congr 2
      omega

/-- **A write of an image that stops anywhere** leaves no LSN above that of the image, unless there
was one. -/
theorem lsnAt_writeAt_le {page : Page} (h : data <+: page.data)
    (hle : f.lsnAt offset ≤ page.lastLsn) :
    (f.writeAt offset data).lsnAt offset ≤ page.lastLsn := by
  have hsize : (page.slice 9 8).length = (f.lsnBytes offset).length := by
    rw [length_lsnBytes, Buffer.slice, List.length_take, List.length_drop, page.size]
    rfl
  unfold lsnAt Page.lastLsn Buffer.u64At at hle ⊢
  rw [lsnBytes_writeAt h]
  exact u64Of_splice_le hsize.symm (length_lsnBytes ..) hle _

end DataFile

end SmolDb
