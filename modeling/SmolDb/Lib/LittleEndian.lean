import Mathlib.Data.Nat.Basic
import Mathlib.Tactic.Ring

/-!
# Little-endian integers

The fixed-width little-endian bytes of a natural number (`toLe`) and the number a byte string
stands for (`ofLe`), with the two round trips. The machine widths `u16`, `u32` and `u64` are
instances: each pair is `UIntN.toLeBytes` and `UIntN.ofLeBytes`.
-/

namespace LittleEndian

/-- The `k` low-order bytes of `n`, the least significant one first. -/
def toLe : ℕ → ℕ → List UInt8
  | 0, _ => []
  | k + 1, n => UInt8.ofNat (n % 256) :: toLe k (n / 256)

/-- The number whose bytes, the least significant one first, are `bs`. -/
def ofLe : List UInt8 → ℕ
  | [] => 0
  | b :: bs => b.toNat + 256 * ofLe bs

@[simp] theorem length_toLe (k n : ℕ) : (toLe k n).length = k := by
  induction k generalizing n with
  | zero => rfl
  | succ k ih => simp [toLe, ih]

theorem ofLe_lt (bs : List UInt8) : ofLe bs < 256 ^ bs.length := by
  induction bs with
  | nil => simp [ofLe]
  | cons b bs ih =>
    have hb := b.toNat_lt
    rw [ofLe, List.length_cons, pow_succ]
    omega

/-- A number that fits in `k` bytes is read back from them. -/
theorem ofLe_toLe (k n : ℕ) (h : n < 256 ^ k) : ofLe (toLe k n) = n := by
  induction k generalizing n with
  | zero => simp at h; simp [toLe, ofLe, h]
  | succ k ih =>
    have hq : n / 256 < 256 ^ k := by
      rw [pow_succ] at h
      omega
    have hb : (UInt8.ofNat (n % 256)).toNat = n % 256 := by
      rw [UInt8.toNat_ofNat']
      omega
    rw [toLe, ofLe, ih _ hq, hb]
    omega

/-- The bytes of the number a byte string stands for are that byte string. -/
theorem toLe_ofLe (bs : List UInt8) : toLe bs.length (ofLe bs) = bs := by
  induction bs with
  | nil => rfl
  | cons b bs ih =>
    have hb := b.toNat_lt
    have hlow : (b.toNat + 256 * ofLe bs) % 256 = b.toNat := by omega
    have hhigh : (b.toNat + 256 * ofLe bs) / 256 = ofLe bs := by omega
    rw [List.length_cons, toLe, ofLe, hlow, hhigh, ih, UInt8.ofNat_toNat]

/-! ### Machine widths -/

/-- `u16::to_le_bytes`. -/
def u16Bytes (v : UInt16) : List UInt8 := toLe 2 v.toNat

/-- `u32::to_le_bytes`. -/
def u32Bytes (v : UInt32) : List UInt8 := toLe 4 v.toNat

/-- `u64::to_le_bytes`. -/
def u64Bytes (v : UInt64) : List UInt8 := toLe 8 v.toNat

/-- `u16::from_le_bytes`. -/
def u16Of (bs : List UInt8) : UInt16 := UInt16.ofNat (ofLe bs)

/-- `u32::from_le_bytes`. -/
def u32Of (bs : List UInt8) : UInt32 := UInt32.ofNat (ofLe bs)

/-- `u64::from_le_bytes`. -/
def u64Of (bs : List UInt8) : UInt64 := UInt64.ofNat (ofLe bs)

@[simp] theorem length_u16Bytes (v : UInt16) : (u16Bytes v).length = 2 := length_toLe ..

@[simp] theorem length_u32Bytes (v : UInt32) : (u32Bytes v).length = 4 := length_toLe ..

@[simp] theorem length_u64Bytes (v : UInt64) : (u64Bytes v).length = 8 := length_toLe ..

@[simp] theorem u16Of_u16Bytes (v : UInt16) : u16Of (u16Bytes v) = v := by
  rw [u16Of, u16Bytes, ofLe_toLe 2 _ v.toNat_lt, UInt16.ofNat_toNat]

@[simp] theorem u32Of_u32Bytes (v : UInt32) : u32Of (u32Bytes v) = v := by
  rw [u32Of, u32Bytes, ofLe_toLe 4 _ v.toNat_lt, UInt32.ofNat_toNat]

@[simp] theorem u64Of_u64Bytes (v : UInt64) : u64Of (u64Bytes v) = v := by
  rw [u64Of, u64Bytes, ofLe_toLe 8 _ v.toNat_lt, UInt64.ofNat_toNat]

theorem u32Bytes_u32Of {bs : List UInt8} (h : bs.length = 4) : u32Bytes (u32Of bs) = bs := by
  have hlt : ofLe bs < 2 ^ 32 := Nat.lt_of_lt_of_eq (ofLe_lt bs) (by rw [h]; rfl)
  rw [u32Bytes, u32Of, UInt32.toNat_ofNat_of_lt' hlt, ← h, toLe_ofLe]

theorem u64Bytes_u64Of {bs : List UInt8} (h : bs.length = 8) : u64Bytes (u64Of bs) = bs := by
  have hlt : ofLe bs < 2 ^ 64 := Nat.lt_of_lt_of_eq (ofLe_lt bs) (by rw [h]; rfl)
  rw [u64Bytes, u64Of, UInt64.toNat_ofNat_of_lt' hlt, ← h, toLe_ofLe]

/-- When the low-order bytes are replaced by those of a number that is not smaller, the result is
not larger than this number. -/
theorem ofLe_splice_le {as bs : List UInt8} (hlen : as.length = bs.length)
    (hle : ofLe as ≤ ofLe bs) (k : ℕ) : ofLe (bs.take k ++ as.drop k) ≤ ofLe bs := by
  induction k generalizing as bs with
  | zero => exact hle
  | succ k ih =>
    cases bs with
    | nil =>
      rw [List.length_eq_zero_iff.mp hlen]
      exact Nat.le_refl _
    | cons b bs =>
      cases as with
      | nil => cases hlen
      | cons a as =>
        -- the bytes above the lowest one are in the same order
        have hhigh : ofLe as ≤ ofLe bs := by
          have hb := b.toNat_lt
          rw [ofLe, ofLe] at hle
          omega
        have hrest := ih (Nat.succ.inj hlen) hhigh
        show b.toNat + 256 * ofLe (bs.take k ++ as.drop k) ≤ b.toNat + 256 * ofLe bs
        exact Nat.add_le_add_left (Nat.mul_le_mul_left _ hrest) _

theorem toNat_u64Of {bs : List UInt8} (h : bs.length = 8) : (u64Of bs).toNat = ofLe bs :=
  UInt64.toNat_ofNat_of_lt' (Nat.lt_of_lt_of_eq (ofLe_lt bs) (by rw [h]; rfl))

theorem u64Of_splice_le {as bs : List UInt8} (hlen : as.length = bs.length) (has : as.length = 8)
    (hle : u64Of as ≤ u64Of bs) (k : ℕ) : u64Of (bs.take k ++ as.drop k) ≤ u64Of bs := by
  have hbs : bs.length = 8 := hlen.symm.trans has
  have hsplice : (bs.take k ++ as.drop k).length = 8 := by
    rw [List.length_append, List.length_take, List.length_drop, hbs, has]
    omega
  rw [UInt64.le_iff_toNat_le, toNat_u64Of hbs] at hle ⊢
  rw [toNat_u64Of has] at hle
  rw [toNat_u64Of hsplice]
  exact ofLe_splice_le hlen hle k

end LittleEndian
