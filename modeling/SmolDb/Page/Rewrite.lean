import SmolDb.Page.Decode
import SmolDb.Page.RoundTrip

/-!
# Writing back what was decoded

`decode` does not look at the slots it reads: a page may name one slot twice, and then the cell
stored last counts for both. The node has a cell for each of its slots all the same, and it
encodes to a page that decodes to it again, unless the cells that count are too large together
(`decode_writesBack_iff`). When no slot is named twice they are the cells of the page, which do
fit (`rewritable_of_nodup`).
-/

namespace SmolDb

open ByteCursor LeafNode

/-! ### Storing cells -/

section Storing

variable {α : Type}

theorem length_storeAll (xs : List α) (stored : List (UInt16 × α)) :
    (storeAll xs stored).length = xs.length := by
  induction stored generalizing xs with
  | nil => rfl
  | cons p stored ih => exact (ih _).trans List.length_set

/-- A cell that no slot names is as before. -/
theorem storeAll_getElem?_of_unnamed {xs : List α} {stored : List (UInt16 × α)} {i : ℕ}
    (h : ∀ p ∈ stored, p.1.toNat ≠ i) : (storeAll xs stored)[i]? = xs[i]? := by
  induction stored generalizing xs with
  | nil => rfl
  | cons p stored ih =>
    have hrest : (storeAll (xs.set p.1.toNat p.2) stored)[i]? = (xs.set p.1.toNat p.2)[i]? :=
      ih fun q hq => h q (List.mem_cons_of_mem _ hq)
    exact hrest.trans (List.getElem?_set_ne (h p (List.mem_cons_self ..)))

/-- What is stored last for a slot, or `x`. -/
def lastStored (x : α) (stored : List (UInt16 × α)) (slot : UInt16) : α :=
  stored.foldl (fun x p => if p.1 = slot then p.2 else x) x

/-- **The cell of a slot** is the one that was stored for it last. -/
theorem storeAll_getElem? {xs : List α} {stored : List (UInt16 × α)} {slot : UInt16} {x : α}
    (h : xs[slot.toNat]? = some x) :
    (storeAll xs stored)[slot.toNat]? = some (lastStored x stored slot) := by
  induction stored generalizing xs x with
  | nil => exact h
  | cons p stored ih =>
    obtain ⟨hlt, -⟩ := List.getElem?_eq_some_iff.mp h
    have hset : (xs.set p.1.toNat p.2)[slot.toNat]? = some (if p.1 = slot then p.2 else x) := by
      split
      · next heq =>
        rw [heq]
        exact List.getElem?_set_self hlt
      · next hne =>
        rw [List.getElem?_set_ne fun heq => hne (UInt16.toNat_inj.mp heq)]
        exact h
    exact ih hset

theorem lastStored_of_unnamed {x : α} {stored : List (UInt16 × α)} {slot : UInt16}
    (h : ∀ p ∈ stored, p.1 ≠ slot) : lastStored x stored slot = x := by
  induction stored generalizing x with
  | nil => rfl
  | cons p stored ih =>
    have hrest := ih (x := if p.1 = slot then p.2 else x) fun q hq =>
      h q (List.mem_cons_of_mem _ hq)
    exact hrest.trans (if_neg (h p (List.mem_cons_self ..)))

/-- When no slot is named twice, each has the cell that was stored for it. -/
theorem map_lastStored {x : α} {stored : List (UInt16 × α)}
    (h : (stored.map Prod.fst).Nodup) :
    (stored.map Prod.fst).map (lastStored x stored) = stored.map Prod.snd := by
  induction stored with
  | nil => rfl
  | cons p stored ih =>
    obtain ⟨hnew, hnodup⟩ := List.nodup_cons.mp h
    have hne : ∀ q ∈ stored, q.1 ≠ p.1 := by
      intro q hq heq
      refine hnew ?_
      rw [← heq]
      exact List.mem_map_of_mem hq
    -- no later cell overwrites the first one
    have hhead : lastStored x (p :: stored) p.1 = p.2 := by
      refine Eq.trans ?_ (lastStored_of_unnamed hne)
      exact congrArg (lastStored · stored p.1) (if_pos rfl)
    -- and the first one stands in no later slot
    have htail : ∀ slot ∈ stored.map Prod.fst,
        lastStored x (p :: stored) slot = lastStored x stored slot := by
      intro slot hslot
      have hother : p.1 ≠ slot := by
        rintro rfl
        exact hnew hslot
      exact congrArg (lastStored · stored slot) (if_neg hother)
    rw [List.map_cons, List.map_cons, hhead, List.map_congr_left htail, ih hnodup]
    rfl

variable [Inhabited α]

/-- Cells that were stored in an empty vector are placed. -/
theorem placed_storeAll {slots : List UInt16} {n : ℕ} {stored : List (UInt16 × α)}
    (hlen : slots.length = n) (hlt : ∀ s ∈ slots, s.toNat < n)
    (hslots : stored.map Prod.fst = slots) :
    Placed slots (storeAll (List.replicate n default) stored) where
  length_eq := by rw [length_storeAll, List.length_replicate, hlen]
  lt s hs := by
    rw [length_storeAll, List.length_replicate]
    exact hlt s hs
  rest i x hx hno := by
    rw [storeAll_getElem?_of_unnamed] at hx
    · exact List.eq_of_mem_replicate (List.mem_of_getElem? hx)
    · intro p hp
      exact hno p.1 (hslots ▸ List.mem_map_of_mem hp)

end Storing

/-! ### The slots of a page -/

theorem Buffer.length_slotsAt {n : ℕ} (b : Buffer n) (pos count : ℕ) :
    (b.slotsAt pos count).length = count := by
  induction count generalizing pos with
  | zero => rfl
  | succ count ih => exact congrArg (· + 1) (ih _)

namespace Page

variable {page : Page} {slots : List UInt16} {count pos : ℕ}

theorem map_fst_cellsAt (page : Page) (slots : List UInt16) (pos : ℕ) :
    (page.cellsAt slots pos).map Prod.fst = slots := by
  induction slots generalizing pos with
  | nil => rfl
  | cons slot slots ih => exact congrArg (slot :: ·) (ih _)

theorem map_fst_entriesAt (page : Page) (slots : List UInt16) (pos : ℕ) :
    (page.entriesAt slots pos).map Prod.fst = slots := by
  induction slots generalizing pos with
  | nil => rfl
  | cons slot slots ih => exact congrArg (slot :: ·) (ih _)

theorem CellsFit.lt (h : page.CellsFit count slots pos) : ∀ s ∈ slots, s.toNat < count := by
  induction slots generalizing pos with
  | nil => nofun
  | cons slot slots ih =>
    intro s hs
    rcases List.mem_cons.mp hs with rfl | hs
    · exact h.2.1
    · exact ih h.2.2 s hs

theorem EntriesFit.lt (h : EntriesFit count slots pos) : ∀ s ∈ slots, s.toNat < count := by
  induction slots generalizing pos with
  | nil => nofun
  | cons slot slots ih =>
    intro s hs
    rcases List.mem_cons.mp hs with rfl | hs
    · exact h.2.1
    · exact ih h.2.2 s hs

/-- The payload of a cell is in the page. -/
theorem length_data_recordAt
    (h : pos + recordMetaSize + (page.u32At (pos + 9)).toNat ≤ pageSize) :
    (page.recordAt pos).data.length = (page.u32At (pos + 9)).toNat := by
  show ((page.data.drop _).take _).length = _
  rw [List.length_take, List.length_drop, page.size]
  omega

/-- The cells end in the page; without any cells the gap can be anything. -/
theorem CellsFit.footerLen_le (h : page.CellsFit count slots pos) : slots = [] ∨
    pos + footerLen ((page.cellsAt slots pos).map Prod.snd) ≤ pageSize := by
  induction slots generalizing pos with
  | nil => exact .inl rfl
  | cons slot slots ih =>
    obtain ⟨hcell, -, hrest⟩ := h
    right
    rw [cellsAt, List.map_cons, footerLen_cons, length_data_recordAt hcell]
    rcases ih hrest with rfl | hle
    · rw [cellsAt, List.map_nil, footerLen_nil, Nat.add_zero, ← Nat.add_assoc]
      exact hcell
    · omega

theorem EntriesFit.length_le (h : EntriesFit count slots pos) : slots = [] ∨
    pos + slots.length * indexEntrySize ≤ pageSize := by
  induction slots generalizing pos with
  | nil => exact .inl rfl
  | cons slot slots ih =>
    obtain ⟨hcell, -, hrest⟩ := h
    right
    rw [List.length_cons, Nat.succ_mul]
    rcases ih hrest with rfl | hle
    · rw [List.length_nil, Nat.zero_mul, Nat.zero_add]
      exact hcell
    · omega

/-! ### The node of a page -/

/-- What a leaf page takes when it is written back: a cell for every slot, the one stored last for
it. -/
def rewrittenSize (page : Page) : ℕ :=
  leafNodeHeaderSize + (page.leafSlots.map fun slot =>
    slotElemSize + (recordMetaSize + (lastStored default page.leafCells slot).data.length)).sum

/-- What the page decodes to fits in a page, which an internal node always does. -/
def Rewritable (page : Page) : Prop := page.u8At 0 = 1 → page.rewrittenSize ≤ pageSize

theorem LeafFramed.placed (h : page.LeafFramed) : page.leafAt.IsPlaced := by
  refine placed_storeAll (page.length_slotsAt _ _) h.2.lt ?_
  exact page.map_fst_cellsAt _ _

theorem InternalFramed.placed (h : page.InternalFramed) : page.internalAt.IsPlaced := by
  refine placed_storeAll (page.length_slotsAt _ _) h.2.lt ?_
  exact page.map_fst_entriesAt _ _

/-- The records of the leaf in slot order. -/
theorem LeafFramed.rows_eq (h : page.LeafFramed) :
    page.leafAt.rows = page.leafSlots.map (lastStored default page.leafCells) := by
  refine List.map_congr_left fun slot hslot => ?_
  have hlt := h.2.lt slot hslot
  have hcell : (List.replicate (page.u32At 35).toNat (default : Record))[slot.toNat]? =
      some default := by
    rw [List.getElem?_replicate, if_pos hlt]
  exact (List.getD_eq_getElem?_getD ..).trans (congrArg (Option.getD · default)
    (storeAll_getElem? hcell))

theorem LeafFramed.encodedSize_eq (h : page.LeafFramed) :
    page.leafAt.encodedSize = page.rewrittenSize := by
  have hsum : ∀ slots : List UInt16, slots.length * slotElemSize +
      footerLen (slots.map (lastStored default page.leafCells)) = (slots.map fun slot =>
        slotElemSize +
          (recordMetaSize + (lastStored default page.leafCells slot).data.length)).sum := by
    intro slots
    induction slots with
    | nil => rfl
    | cons slot slots ih =>
      rw [List.map_cons, List.map_cons, List.sum_cons, footerLen_cons, ← ih, List.length_cons,
        Nat.succ_mul]
      omega
  unfold LeafNode.encodedSize
  rw [h.rows_eq, Nat.add_assoc]
  exact congrArg (leafNodeHeaderSize + ·) (hsum _)

theorem InternalFramed.encodedSize_le (h : page.InternalFramed) :
    page.internalAt.encodedSize ≤ pageSize := by
  obtain ⟨hfree, hfit⟩ := h
  have hlen : page.internalSlots.length = (page.u32At 25).toNat := page.length_slotsAt _ _
  show 31 + page.internalSlots.length * slotElemSize +
    page.internalSlots.length * indexEntrySize ≤ pageSize
  rcases hfit.length_le with hnil | hle
  · have hzero : page.internalSlots.length = 0 := congrArg List.length hnil
    rw [hzero]
    decide
  · have hle' : 29 + (page.u32At 25).toNat * slotElemSize + 2 +
        (page.u16At (29 + (page.u32At 25).toNat * slotElemSize)).toNat +
          page.internalSlots.length * indexEntrySize ≤ pageSize := hle
    rw [hlen] at hle' ⊢
    omega

/-- **When no slot is named twice**, the cells that count are those of the page, so they fit. -/
theorem rewritable_of_nodup (h : page.LeafFramed) (hnodup : page.leafSlots.Nodup) :
    page.Rewritable := by
  intro _
  have hkeys : page.leafCells.map Prod.fst = page.leafSlots := page.map_fst_cellsAt _ _
  -- every slot reads back its own cell, so the cells to write are the cells on the page
  have hcells : page.leafSlots.map (lastStored default page.leafCells) =
      page.leafCells.map Prod.snd := by
    rw [← hkeys] at hnodup ⊢
    exact map_lastStored hnodup
  have hlen : page.leafSlots.length = (page.u32At 35).toNat := page.length_slotsAt _ _
  rw [← h.encodedSize_eq, LeafNode.encodedSize, h.rows_eq, hcells]
  show 41 + page.leafSlots.length * slotElemSize +
    footerLen (page.leafCells.map Prod.snd) ≤ pageSize
  obtain ⟨hfree, hfit⟩ := h
  -- an empty leaf is a header; else the page already holds its cells behind the free space
  rcases hfit.footerLen_le with hnil | hle
  · have hzero : page.leafSlots.length = 0 := congrArg List.length hnil
    have hnone : page.leafCells = [] := by
      rw [← List.map_eq_nil_iff, hkeys]
      exact hnil
    rw [hzero, hnone]
    decide
  · have hle' : 39 + (page.u32At 35).toNat * slotElemSize + 2 +
        (page.u16At (39 + (page.u32At 35).toNat * slotElemSize)).toNat +
          footerLen (page.leafCells.map Prod.snd) ≤ pageSize := hle
    rw [hlen]
    omega

end Page

/-! ### Writing back -/

namespace BTreeNode

/-- The nodes are the same up to their free size. -/
def SameButFreeSize (a b : BTreeNode) : Prop := a.bare = b.bare ∧ a.isDirty = b.isDirty

/-- The node is encoded into any page, and what is written decodes to it again. -/
def WritesBack (self : BTreeNode) : Prop :=
  ∀ target : Page, ∃ written, self.encode target = some (.ok (), written) ∧
    ∃ read, decode written = some (.ok read) ∧ read.SameButFreeSize self

/-- A node whose slots are in place writes back when it fits. -/
theorem IsPlaced.writesBack_iff {self : BTreeNode} (hs : self.IsPlaced)
    (hclean : self.isDirty = false) : self.WritesBack ↔ self.encodedSize ≤ pageSize := by
  constructor
  · intro h
    obtain ⟨written, henc, -⟩ := h Page.new
    by_contra hno
    rw [hs.encode_full (Nat.lt_of_not_le hno)] at henc
    cases henc
  · intro hfit target
    obtain ⟨written, -, -, -, henc, -, -, hdec⟩ := hs.encode_ok hfit target
    refine ⟨written.buffer, henc, self.decoded, hdec, bare_decoded self, ?_⟩
    rw [isDirty_decoded, hclean]

/-- The slots of a decoded node name its cells, whatever the bytes of the page. -/
theorem placed_of_decode {page : Page} {node : BTreeNode}
    (h : decode page = some (.ok node)) : node.IsPlaced := by
  -- only a framed page decodes, and its type byte says to which node
  rw [decode_eq] at h
  split at h
  · next hframed =>
    unfold Page.Framed at hframed
    replace h := Option.some.inj h
    unfold Page.nodeAt at h
    split at h
    · next hleaf =>
      rw [if_pos hleaf] at hframed
      cases h
      exact Page.LeafFramed.placed hframed
    split at h
    · next hleaf hinternal =>
      rw [if_neg hleaf, if_pos hinternal] at hframed
      cases h
      exact Page.InternalFramed.placed hframed
    · cases h
  · cases h

/-- **When a decoded node writes back**: it is internal, or the cells that count for its slots fit
in a page. That is the case when no slot is named twice. -/
theorem decode_writesBack_iff {page : Page} {node : BTreeNode}
    (h : decode page = some (.ok node)) :
    (node.WritesBack ↔ page.Rewritable) ∧
      (page.u8At 0 = 1 → page.leafSlots.Nodup → page.Rewritable) := by
  rw [decode_eq] at h
  split at h
  · next hframed =>
    unfold Page.Framed at hframed
    replace h := Option.some.inj h
    unfold Page.nodeAt at h
    -- a leaf is rewritable when its encoding fits; an internal node always fits
    by_cases hleaf : page.u8At 0 = 1
    · rw [if_pos hleaf] at h hframed
      cases h
      have hs : (leaf page.leafAt).IsPlaced := hframed.placed
      refine ⟨?_, fun _ hnodup => Page.rewritable_of_nodup hframed hnodup⟩
      rw [hs.writesBack_iff rfl]
      show page.leafAt.encodedSize ≤ pageSize ↔ _
      rw [hframed.encodedSize_eq]
      exact ⟨fun hfit _ => hfit, fun hfit => hfit hleaf⟩
    refine ⟨?_, fun hyes => absurd hyes hleaf⟩
    rw [if_neg hleaf] at h hframed
    by_cases hinternal : page.u8At 0 = 0
    · rw [if_pos hinternal] at h hframed
      cases h
      have hs : (internal page.internalAt).IsPlaced := hframed.placed
      rw [hs.writesBack_iff rfl]
      exact ⟨fun _ hyes => absurd hyes hleaf, fun _ => hframed.encodedSize_le⟩
    · rw [if_neg hinternal] at h
      cases h
  · cases h

theorem decode_writesBack_crossedLeaf : ∃ page node, decode page = some (.ok node) ∧
    (node.WritesBack ↔ page.Rewritable) ∧
      (page.u8At 0 = 1 → page.leafSlots.Nodup → page.Rewritable) := by
  have hs : crossedLeaf.IsSlotted := by
    change List.Perm [1, 0] (List.range 2)
    decide
  obtain ⟨written, -, -, -, -, -, -, hdec⟩ := hs.placed.encode_ok (by decide) Page.new
  exact ⟨_, _, hdec, decode_writesBack_iff hdec⟩

/-- A leaf page with the slot 0 twice: first for an empty cell, then for one of 2048 bytes. -/
def doubledPage : Page where
  data := [1] ++ List.replicate 34 0 ++ [2] ++ List.replicate 32 0 ++ [8] ++ List.replicate 4027 0
  size := by
    simp only [List.length_append, List.length_replicate, List.length_singleton]

/-- It decodes to two slots of 2048 bytes each. -/
theorem decode_notRewritable :
    ¬ ∀ page node, decode page = some (.ok node) → node.WritesBack := by
  intro h
  have hframed : doubledPage.Framed := by decide +kernel
  have htype : doubledPage.u8At 0 = 1 := rfl
  have hsize : pageSize < doubledPage.rewrittenSize := by decide +kernel
  have hleaf : doubledPage.LeafFramed := by
    rwa [Page.Framed, if_pos htype] at hframed
  have hdecode : decode doubledPage = some (.ok (leaf doubledPage.leafAt)) := by
    rw [decode_eq, if_pos hframed, Page.nodeAt, if_pos htype]
  have hs : (leaf doubledPage.leafAt).IsPlaced := hleaf.placed
  have hfit := (hs.writesBack_iff rfl).mp (h _ _ hdecode)
  have hsame : (leaf doubledPage.leafAt).encodedSize = doubledPage.rewrittenSize :=
    hleaf.encodedSize_eq
  rw [hsame] at hfit
  exact Nat.not_lt.mpr hfit hsize

end BTreeNode

end SmolDb
