import SmolDb.Lib.LittleEndian
import SmolDb.Page.Node

/-!
# Log entries

A `WalEntry` describes the change of one row on one page. `encode` writes its fields behind each
other with the length of the payload before the payload, and `decode` reads them back, from a
buffer that may have more bytes behind them. A payload whose length does not fit in 32 bits is
encoded in full, behind the low 32 bits of its length.
-/

namespace SmolDb

open LittleEndian

/-- Size of the header of an entry. -/
abbrev walEntryHeaderSize : ℕ := 29

/-- `WalOp`. -/
inductive WalOp where
  | insert
  | update
  | delete
  deriving DecidableEq, Repr, Inhabited

namespace WalOp

/-- `WalOp::from_u8`. -/
def fromU8 (val : UInt8) : Except DbError WalOp :=
  if val = 0 then .ok insert
  else if val = 1 then .ok update
  else if val = 2 then .ok delete
  else .error (.corruptPage s!"invalid WalOp byte discriminator: {val}")

/-- `WalOp::as_u8`. -/
def asU8 : WalOp → UInt8
  | insert => 0
  | update => 1
  | delete => 2

@[simp] theorem fromU8_asU8 (op : WalOp) : fromU8 op.asU8 = .ok op := by
  cases op <;> rfl

end WalOp

/-- `WalEntry`. -/
structure WalEntry where
  opcode : WalOp
  lsn : UInt64
  pageId : PageId
  rowId : UInt64
  payload : List UInt8
  deriving DecidableEq, Repr, Inhabited

namespace WalEntry

/-- `WalEntry::encode`. -/
def encode (self : WalEntry) : List UInt8 :=
  self.opcode.asU8 :: (u64Bytes self.lsn ++ u64Bytes self.pageId.val ++ u64Bytes self.rowId ++
    u32Bytes (UInt32.ofNat self.payload.length) ++ self.payload)

/-- `WalEntry::size`. -/
def size (self : WalEntry) : ℕ := walEntryHeaderSize + self.payload.length

/-- `WalEntry::decode`. -/
def decode (buffer : List UInt8) : Except DbError WalEntry :=
  if buffer.length < walEntryHeaderSize then
    .error (.corruptPage (s!"Wal entry buffer too small: expected at least {walEntryHeaderSize} " ++
      s!"bytes, got {buffer.length}"))
  else do
    let opcode ← WalOp.fromU8 (buffer.getD 0 0)
    let lsn := u64Of ((buffer.drop 1).take 8)
    let pageId : PageId := ⟨u64Of ((buffer.drop 9).take 8)⟩
    let rowId := u64Of ((buffer.drop 17).take 8)
    let payloadLen := (u32Of ((buffer.drop 25).take 4)).toNat
    let expectedSize := walEntryHeaderSize + payloadLen
    if buffer.length < expectedSize then
      .error (.corruptPage (s!"Wal entry payload smaller than calculated size: expected " ++
        s!"{expectedSize} bytes, got {buffer.length}"))
    else
      .ok { opcode, lsn, pageId, rowId, payload := (buffer.drop 29).take payloadLen }

@[simp] theorem length_encode (self : WalEntry) : self.encode.length = self.size := by
  simp only [encode, size, walEntryHeaderSize, List.length_cons, List.length_append,
    length_u64Bytes, length_u32Bytes]
  omega

/-- The encoded size fits in a `u32`. -/
def Fits (self : WalEntry) : Prop := self.size < 2 ^ 32

instance (self : WalEntry) : Decidable self.Fits := inferInstanceAs (Decidable (_ < _))

/-- A field is found behind the bytes in front of it. -/
theorem field_of_append (as bs cs : List UInt8) {m n : ℕ} (hm : as.length = m)
    (hn : bs.length = n) : ((as ++ (bs ++ cs)).drop m).take n = bs := by
  rw [← hm, ← hn, List.drop_left, List.take_left]

/-- **The entry round trip.** -/
theorem decode_encode (self : WalEntry) (hfits : self.Fits) : decode self.encode = .ok self := by
  have hsize : 29 + self.payload.length < 2 ^ 32 := hfits
  have hlen : (UInt32.ofNat self.payload.length).toNat = self.payload.length := by
    rw [UInt32.toNat_ofNat', Nat.mod_eq_of_lt (by omega)]
  -- each field behind the ones in front of it
  have hlsn : (self.encode.drop 1).take 8 = u64Bytes self.lsn := by
    have hcut : self.encode = [self.opcode.asU8] ++ (u64Bytes self.lsn ++
        (u64Bytes self.pageId.val ++ u64Bytes self.rowId ++
          u32Bytes (UInt32.ofNat self.payload.length) ++ self.payload)) := by
      simp [encode]
    rw [hcut]
    exact field_of_append _ _ _ rfl (length_u64Bytes _)
  have hpage : (self.encode.drop 9).take 8 = u64Bytes self.pageId.val := by
    have hcut : self.encode = (self.opcode.asU8 :: u64Bytes self.lsn) ++
        (u64Bytes self.pageId.val ++ (u64Bytes self.rowId ++
          u32Bytes (UInt32.ofNat self.payload.length) ++ self.payload)) := by
      simp [encode]
    rw [hcut]
    exact field_of_append _ _ _ (by simp) (length_u64Bytes _)
  have hrow : (self.encode.drop 17).take 8 = u64Bytes self.rowId := by
    have hcut : self.encode =
        (self.opcode.asU8 :: (u64Bytes self.lsn ++ u64Bytes self.pageId.val)) ++
          (u64Bytes self.rowId ++
            (u32Bytes (UInt32.ofNat self.payload.length) ++ self.payload)) := by
      simp [encode]
    rw [hcut]
    exact field_of_append _ _ _ (by simp) (length_u64Bytes _)
  have hpayloadLen : (self.encode.drop 25).take 4 =
      u32Bytes (UInt32.ofNat self.payload.length) := by
    have hcut : self.encode =
        (self.opcode.asU8 :: (u64Bytes self.lsn ++ u64Bytes self.pageId.val ++
          u64Bytes self.rowId)) ++
            (u32Bytes (UInt32.ofNat self.payload.length) ++ self.payload) := by
      simp [encode]
    rw [hcut]
    exact field_of_append _ _ _ (by simp) (length_u32Bytes _)
  have hpayload : (self.encode.drop 29).take self.payload.length = self.payload := by
    have hcut : self.encode =
        (self.opcode.asU8 :: (u64Bytes self.lsn ++ u64Bytes self.pageId.val ++
          u64Bytes self.rowId ++ u32Bytes (UInt32.ofNat self.payload.length))) ++
            (self.payload ++ []) := by
      simp [encode]
    rw [hcut]
    exact field_of_append _ _ _ (by simp) rfl
  have hop : self.encode.getD 0 0 = self.opcode.asU8 := rfl
  have hmin : ¬ self.encode.length < walEntryHeaderSize := by
    rw [length_encode, size]
    exact Nat.not_lt.mpr (Nat.le_add_right ..)
  have hall : ¬ self.encode.length < walEntryHeaderSize + self.payload.length := by
    rw [length_encode, size]
    exact Nat.lt_irrefl _
  rw [decode, if_neg hmin, hop, WalOp.fromU8_asU8, hlsn, hpage, hrow, hpayloadLen,
    u32Of_u32Bytes, hlen]
  simp only [bind, Except.bind, if_neg hall, hpayload, u64Of_u64Bytes]

end WalEntry

end SmolDb
