import Mathlib.Data.List.GetD
import Mathlib.Data.List.Perm.Basic
import SmolDb.Page.Node

/-!
# The slot array

A node is *slotted* when its slot array is a permutation of the indices of its cells
(`Slotted`). The slotted cells in slot order are the `rows` of a leaf; they are what every
operation of the source means when it goes through `records[slot as usize]`.

`bare` forgets the two fields that are not part of a node's content: `free_size`, which the codec
recomputes, and `is_dirty`, which it drops. Two nodes are equal up to these fields when their
bare forms are equal.
-/

namespace SmolDb

/-- The slots are a permutation of the indices below `n`. -/
def Slotted (slots : List UInt16) (n : ℕ) : Prop :=
  (slots.map UInt16.toNat).Perm (List.range n)

namespace Slotted

variable {slots : List UInt16} {n : ℕ}

theorem length_eq (h : Slotted slots n) : slots.length = n := by
  have hlen := List.Perm.length_eq h
  rwa [List.length_map, List.length_range] at hlen

theorem lt (h : Slotted slots n) {s : UInt16} (hs : s ∈ slots) : s.toNat < n :=
  List.mem_range.mp (h.mem_iff.mp (List.mem_map_of_mem hs))

theorem exists_slot (h : Slotted slots n) {i : ℕ} (hi : i < n) : ∃ s ∈ slots, s.toNat = i :=
  List.mem_map.mp (h.mem_iff.mpr (List.mem_range.mpr hi))

theorem nodup (h : Slotted slots n) : (slots.map UInt16.toNat).Nodup :=
  h.nodup_iff.mpr List.nodup_range

theorem nil : Slotted [] 0 := List.Perm.refl _

end Slotted

/-- The slots name cells, one slot for each cell, and a cell that no slot names is the default one.
This is how `decode` leaves the slots of any page; a slotted vector has no such cells. -/
structure Placed {α : Type} [Inhabited α] (slots : List UInt16) (xs : List α) : Prop where
  length_eq : slots.length = xs.length
  lt : ∀ s ∈ slots, s.toNat < xs.length
  rest : ∀ i x, xs[i]? = some x → (∀ s ∈ slots, s.toNat ≠ i) → x = default

theorem Slotted.placed {α : Type} [Inhabited α] {slots : List UInt16} {xs : List α}
    (h : Slotted slots xs.length) : Placed slots xs where
  length_eq := h.length_eq
  lt _ hs := h.lt hs
  rest i x hx hno := by
    obtain ⟨hi, -⟩ := List.getElem?_eq_some_iff.mp hx
    obtain ⟨s, hs, heq⟩ := h.exists_slot hi
    exact absurd heq (hno s hs)

/-- After the slots `ss` were gone through, the cells they name are in place and the others are as
before. -/
theorem foldl_set_getElem? {α : Type} [Inhabited α] {xs : List α} {ss : List UInt16}
    {cs : List α} {i : ℕ} (hlen : cs.length = xs.length) (hlt : ∀ s ∈ ss, s.toNat < xs.length) :
    (ss.foldl (fun cs s => cs.set s.toNat (xs.getD s.toNat default)) cs)[i]? =
      if ∃ s ∈ ss, s.toNat = i then xs[i]? else cs[i]? := by
  induction ss generalizing cs with
  | nil => simp
  | cons s ss ih =>
    have hs : s.toNat < xs.length := hlt s (List.mem_cons_self ..)
    rw [List.foldl_cons, ih (by rw [List.length_set, hlen])
      (fun t ht => hlt t (List.mem_cons_of_mem _ ht))]
    -- a later slot that names the cell decides, else the first one does
    by_cases hin : ∃ t ∈ ss, t.toNat = i
    · rw [if_pos hin, if_pos (by simp only [List.mem_cons, exists_eq_or_imp]; exact .inr hin)]
    · rw [if_neg hin]
      by_cases hsi : s.toNat = i
      · subst hsi
        rw [if_pos ⟨s, List.mem_cons_self .., rfl⟩, List.getElem?_set_self (by omega),
          List.getElem?_eq_getElem hs, List.getD_eq_getElem _ _ hs]
      · rw [List.getElem?_set_ne hsi, if_neg]
        simp only [List.mem_cons, exists_eq_or_imp, not_or]
        exact ⟨hsi, hin⟩

/-- Storing the cell of every slot in an empty vector gives the vector back. -/
theorem Placed.foldl_set_eq {α : Type} [Inhabited α] {slots : List UInt16} {xs : List α}
    (h : Placed slots xs) :
    slots.foldl (fun cs s => cs.set s.toNat (xs.getD s.toNat default))
      (List.replicate slots.length default) = xs := by
  have hlen : (List.replicate slots.length (default : α)).length = xs.length := by
    rw [List.length_replicate, h.length_eq]
  -- cell by cell: a slot writes it, or it was the default already
  refine List.ext_getElem? fun i => ?_
  rw [foldl_set_getElem? hlen h.lt]
  split
  · rfl
  · next hno =>
    by_cases hi : i < xs.length
    · -- a cell that no slot names
      have hx := h.rest i _ (List.getElem?_eq_getElem hi) fun s hs heq => hno ⟨s, hs, heq⟩
      rw [List.getElem?_eq_getElem hi, hx, List.getElem?_replicate, h.length_eq, if_pos hi]
    · rw [List.getElem?_eq_none (Nat.le_of_not_lt hi), List.getElem?_eq_none]
      rw [hlen]
      exact Nat.le_of_not_lt hi

theorem mapM_eq_some_map {α β : Type} {f : α → Option β} {g : α → β} {xs : List α}
    (h : ∀ x ∈ xs, f x = some (g x)) : xs.mapM f = some (xs.map g) := by
  induction xs with
  | nil => rfl
  | cons x xs ih =>
    rw [List.mapM_cons, h x (List.mem_cons_self ..),
      ih fun y hy => h y (List.mem_cons_of_mem _ hy)]
    rfl

namespace LeafNode

/-- The records of the leaf in slot order. -/
def rows (self : LeafNode) : List Record :=
  self.slotArray.map fun slot => self.records.getD slot.toNat default

/-- The slot array is a permutation of the record indices. -/
def IsSlotted (self : LeafNode) : Prop := Slotted self.slotArray self.records.length

@[simp] theorem length_rows (self : LeafNode) : self.rows.length = self.slotArray.length :=
  List.length_map ..

theorem recordAt_eq {self : LeafNode} {slot : UInt16} (h : slot.toNat < self.records.length) :
    self.recordAt slot = some (self.records.getD slot.toNat default) := by
  rw [recordAt, List.getElem?_eq_getElem h, List.getD_eq_getElem _ _ h]

/-- Every slot of the leaf is the index of a record. -/
def InRange (self : LeafNode) : Prop := ∀ s ∈ self.slotArray, s.toNat < self.records.length

theorem IsSlotted.inRange {self : LeafNode} (hs : self.IsSlotted) : self.InRange := fun _ => hs.lt

theorem InRange.cells_eq {self : LeafNode} (h : self.InRange) : self.cells = some self.rows :=
  mapM_eq_some_map fun s hs => recordAt_eq (h s hs)

theorem IsSlotted.cells_eq {self : LeafNode} (h : self.IsSlotted) :
    self.cells = some self.rows := h.inRange.cells_eq

/-- The slots name records, and a record that no slot names is the default one. -/
def IsPlaced (self : LeafNode) : Prop := Placed self.slotArray self.records

theorem IsPlaced.inRange {self : LeafNode} (hs : self.IsPlaced) : self.InRange := hs.lt

theorem IsSlotted.placed {self : LeafNode} (hs : self.IsSlotted) : self.IsPlaced :=
  Slotted.placed hs

/-- Header, slots and cells. -/
def encodedSize (self : LeafNode) : ℕ :=
  leafNodeHeaderSize + self.slotArray.length * slotElemSize + footerLen self.rows

@[simp] theorem footerLen_nil : footerLen [] = 0 := rfl

@[simp] theorem footerLen_cons (r : Record) (rs : List Record) :
    footerLen (r :: rs) = recordMetaSize + r.data.length + footerLen rs := rfl

@[simp] theorem footerLen_append (rs rs' : List Record) :
    footerLen (rs ++ rs') = footerLen rs + footerLen rs' := by
  simp [footerLen]

theorem le_footerLen {r : Record} {rs : List Record} (hr : r ∈ rs) :
    recordMetaSize + r.data.length ≤ footerLen rs := by
  induction rs with
  | nil => cases hr
  | cons r' rs ih =>
    rw [footerLen_cons]
    rcases List.mem_cons.mp hr with rfl | hr
    · omega
    · have := ih hr
      omega

/-- The leaf without the fields that are not part of its content. -/
def bare (self : LeafNode) : LeafNode := { self with freeSize := 0, isDirty := false }

@[simp] theorem bare_bare (self : LeafNode) : self.bare.bare = self.bare := rfl

theorem IsSlotted.bare {self : LeafNode} (h : self.IsSlotted) : self.bare.IsSlotted := h

end LeafNode

namespace InternalNode

/-- The slot array is a permutation of the entry indices. -/
def IsSlotted (self : InternalNode) : Prop := Slotted self.slotArray self.entries.length

/-- The slots name entries, and an entry that no slot names is the default one. -/
def IsPlaced (self : InternalNode) : Prop := Placed self.slotArray self.entries

theorem IsSlotted.placed {self : InternalNode} (hs : self.IsSlotted) : self.IsPlaced :=
  Slotted.placed hs

/-- Header, slots and cells. -/
def encodedSize (self : InternalNode) : ℕ :=
  internalNodeHeaderSize + self.slotArray.length * slotElemSize
    + self.slotArray.length * indexEntrySize

/-- The node without the fields that are not part of its content. -/
def bare (self : InternalNode) : InternalNode := { self with freeSize := 0, isDirty := false }

end InternalNode

namespace BTreeNode

/-- The slot array is a permutation of the cell indices. -/
def IsSlotted : BTreeNode → Prop
  | .internal node => node.IsSlotted
  | .leaf node => node.IsSlotted

/-- The slots name cells, and a cell that no slot names is the default one. -/
def IsPlaced : BTreeNode → Prop
  | .internal node => node.IsPlaced
  | .leaf node => node.IsPlaced

theorem IsSlotted.placed {self : BTreeNode} (hs : self.IsSlotted) : self.IsPlaced := by
  cases self with
  | internal node => exact InternalNode.IsSlotted.placed hs
  | leaf node => exact LeafNode.IsSlotted.placed hs

/-- Header, slots and cells. -/
def encodedSize : BTreeNode → ℕ
  | .internal node => node.encodedSize
  | .leaf node => node.encodedSize

/-- The node without the fields that are not part of its content. -/
def bare : BTreeNode → BTreeNode
  | .internal node => .internal node.bare
  | .leaf node => .leaf node.bare

@[simp] theorem bare_leaf (node : LeafNode) : (leaf node).bare = .leaf node.bare := rfl

@[simp] theorem bare_internal (node : InternalNode) :
    (internal node).bare = .internal node.bare := rfl

@[simp] theorem bare_bare (self : BTreeNode) : self.bare.bare = self.bare := by
  cases self <;> rfl

@[simp] theorem bare_clearDirty (self : BTreeNode) : self.clearDirty.bare = self.bare := by
  cases self <;> rfl

@[simp] theorem isDirty_clearDirty (self : BTreeNode) : self.clearDirty.isDirty = false := by
  cases self <;> rfl

@[simp] theorem isDirty_markDirty (lsn : UInt64) (self : BTreeNode) :
    (self.markDirty lsn).isDirty = true := by
  cases self <;> rfl

@[simp] theorem getLastLsn_markDirty (lsn : UInt64) (self : BTreeNode) :
    (self.markDirty lsn).getLastLsn = lsn := by
  cases self <;> rfl

@[simp] theorem getLastLsn_bare (self : BTreeNode) : self.bare.getLastLsn = self.getLastLsn := by
  cases self <;> rfl

theorem getLastLsn_congr {a b : BTreeNode} (h : a.bare = b.bare) :
    a.getLastLsn = b.getLastLsn := by
  rw [← getLastLsn_bare, h, getLastLsn_bare]

theorem markDirty_congr {a b : BTreeNode} (h : a.bare = b.bare) (lsn : UInt64) :
    (a.markDirty lsn).bare = (b.markDirty lsn).bare := by
  cases a <;> cases b <;> simp_all [bare, markDirty, LeafNode.bare, InternalNode.bare]

/-- Being slotted and the encoded size are properties of the content. -/
theorem isSlotted_bare (self : BTreeNode) : self.bare.IsSlotted ↔ self.IsSlotted := by
  cases self <;> rfl

theorem encodedSize_bare (self : BTreeNode) : self.bare.encodedSize = self.encodedSize := by
  cases self <;> rfl

theorem IsSlotted.congr {a b : BTreeNode} (h : a.bare = b.bare) (ha : a.IsSlotted) :
    b.IsSlotted := by
  rw [← isSlotted_bare, ← h, isSlotted_bare]
  exact ha

theorem encodedSize_congr {a b : BTreeNode} (h : a.bare = b.bare) :
    a.encodedSize = b.encodedSize := by
  rw [← encodedSize_bare, h, encodedSize_bare]

theorem IsSlotted.markDirty {self : BTreeNode} (h : self.IsSlotted) (lsn : UInt64) :
    (self.markDirty lsn).IsSlotted := by
  cases self <;> exact h

/-- A freshly made node has no cells. -/
theorem isSlotted_newEmpty (pageId : PageId) (isLeaf : Bool) :
    (newEmpty pageId isLeaf).IsSlotted := by
  cases isLeaf <;> exact Slotted.nil

end BTreeNode

end SmolDb
