import SmolDb.Page.Room

/-!
# Compacting a leaf

`compact` walks the slots, drops the tombstones and numbers the records anew. What a reader of the
leaf sees stays: every lookup has the result it had, tombstones included, although the search goes
through another slot array. What `encode` sees becomes canonical: the records stand in the order
of their row ids behind the slots `0, 1, …, n - 1`, and the free size is the gap that `encode`
leaves. A leaf in this form is left as it is.
-/

namespace SmolDb

namespace LeafNode

variable {self self' : LeafNode}

/-- The rows of a slotted leaf are its records in another order. -/
theorem IsSlotted.rows_perm (hs : self.IsSlotted) : self.rows.Perm self.records := by
  have hread : self.rows =
      (self.slotArray.map UInt16.toNat).map fun i => self.records.getD i default := by
    rw [List.map_map]
    rfl
  calc self.rows.Perm
        ((List.range self.records.length).map fun i => self.records.getD i default) :=
      hread ▸ List.Perm.map _ hs
    _ = self.records := map_getD_range _

/-- The node is written, and read back up to its dirty flag: its free size is the gap that `encode`
writes. -/
def WritesGap (self : LeafNode) : Prop :=
  ∀ page : Page, ∃ written, (BTreeNode.leaf self).encode page = some (.ok (), written) ∧
    BTreeNode.decode written = some (.ok (.leaf { self with isDirty := false }))

theorem IsSlotted.writesGap (hs : self.IsSlotted)
    (hgap : self.freeSize.toNat + self.encodedSize = pageSize) : self.WritesGap := by
  intro page
  have hfit : self.encodedSize ≤ pageSize := hgap ▸ Nat.le_add_left ..
  have hsize : UInt16.ofNat self.gapLen = self.freeSize := by
    refine UInt16.toNat_inj.mp ?_
    rw [toNat_gapLen, gapLen, ← hgap, Nat.add_sub_cancel]
  have hs' : (BTreeNode.leaf self).IsSlotted := hs
  obtain ⟨written, _, -, -, henc, -, -, hdec⟩ := hs'.placed.encode_ok hfit page
  refine ⟨written.buffer, henc, ?_⟩
  rw [hdec, BTreeNode.decoded, decoded, hsize]

/-- What is read back after a leaf was written differs from it in the free size and the flag. -/
theorem IsSlotted.reload (hs : self.IsSlotted) {page written : Page}
    (henc : (BTreeNode.leaf self).encode page = some (.ok (), written))
    (hdec : BTreeNode.decode written = some (.ok (.leaf self'))) :
    self.encodedSize ≤ pageSize ∧ self' = self.decoded := by
  have hs' : (BTreeNode.leaf self).IsSlotted := hs
  by_cases hfit : self.encodedSize ≤ pageSize
  · obtain ⟨written', _, -, -, henc', -, -, hdec'⟩ := hs'.placed.encode_ok hfit page
    rw [henc, Option.some.injEq, Prod.mk.injEq] at henc'
    rw [henc'.2, hdec', Option.some.injEq, Except.ok.injEq] at hdec
    exact ⟨hfit, (BTreeNode.leaf.inj hdec).symm⟩
  · rw [hs'.placed.encode_full (Nat.lt_of_not_le hfit)] at henc
    cases henc

theorem freeSize_compacted (h : packedSize self.liveRows ≤ pageSize) :
    self.compacted.freeSize.toNat + self.compacted.encodedSize = pageSize := by
  have hlt : pageSize - packedSize self.liveRows < 65536 :=
    Nat.lt_of_le_of_lt (Nat.sub_le ..) (by decide)
  rw [encodedSize_compacted h]
  show (UInt16.ofNat (pageSize - packedSize self.liveRows)).toNat + _ = _
  rw [toNat_ofNat_of_lt hlt, Nat.sub_add_cancel h]

/-- The live rows of a compacted leaf are its records. -/
theorem liveRows_compacted (h : packedSize self.liveRows ≤ pageSize) :
    self.compacted.liveRows = self.liveRows := by
  rw [liveRows, rows_compacted h, liveRows, List.filter_filter]
  simp only [Bool.and_self]

theorem sorted_compacted (hsorted : self.Sorted) (h : packedSize self.liveRows ≤ pageSize) :
    self.compacted.Sorted := by
  rw [Sorted, rows_compacted h]
  exact hsorted.filter _

/-- What compacting `leaf` is to leave: the same lookups, no tombstone, the records in the order of
their row ids behind the slots from 0 on, the free size that `encode` writes, and a leaf that
compacting leaves alone. -/
structure CompactsTo (leaf leaf' : LeafNode) : Prop where
  getRecord : ∀ k, ∃ found, leaf.getRecord k = some found ∧ leaf'.getRecord k = some found
  live : ∀ r ∈ leaf'.records, r.isDeleted = false
  slots : leaf'.slotArray.map UInt16.toNat = List.range leaf'.records.length
  sorted : leaf'.records.Pairwise fun a b => a.rowId < b.rowId
  freeSize : leaf'.freeSize.toNat + leaf'.encodedSize = pageSize
  gap : leaf'.WritesGap
  again : leaf'.compact = some leaf'

/-- **Compaction preserves meaning.** -/
theorem compact_correct (hs : self.IsSlotted) (hsorted : self.Sorted)
    (hfit : packedSize self.liveRows ≤ pageSize) :
    ∃ self', self.compact = some self' ∧ CompactsTo self self' := by
  have hs' := isSlotted_compacted hfit
  have hlive : self.compacted.records = self.liveRows := rfl
  refine ⟨self.compacted, by rw [compact_eq hs.inRange, if_pos hfit], ?_⟩
  exact
    { getRecord := fun k => by
        obtain ⟨found, hfound⟩ := hs.inRange.getRecord_returns k
        refine ⟨found, hfound, ?_⟩
        rw [getRecord_congr hs' (sorted_compacted hsorted hfit) hs hsorted (live_compacted hfit)]
        exact hfound
      live := fun r hr => by
        rw [hlive, liveRows] at hr
        simpa using (List.mem_filter.mp hr).2
      slots := map_toNat_freshSlots
        (Nat.le_trans (length_le_of_packedSize hfit) (by decide))
      sorted := (hsorted.filter _).imp fun hlt => UInt64.lt_iff_toNat_lt.mpr hlt
      freeSize := freeSize_compacted hfit
      gap := hs'.writesGap (freeSize_compacted hfit)
      again := by
        -- the same live rows once more, so the same records, slots and free size
        rw [compact_eq hs'.inRange, liveRows_compacted hfit, if_pos hfit, compacted,
          liveRows_compacted hfit]
        rfl }

/-- Records out of order, one of them deleted. -/
theorem compact_correct_crossed :
    ∃ self', LeafNode.compact { (default : LeafNode) with
        slotArray := [2, 0, 1]
        records := [⟨5, [7], true⟩, ⟨9, [], false⟩, ⟨3, [8], false⟩] } = some self' ∧
      CompactsTo { (default : LeafNode) with
        slotArray := [2, 0, 1]
        records := [⟨5, [7], true⟩, ⟨9, [], false⟩, ⟨3, [8], false⟩] } self' :=
  compact_correct (by change List.Perm [2, 0, 1] (List.range 3); decide) (by decide) (by decide)

end LeafNode

end SmolDb
