import SmolDb.Page.Compaction

/-!
# The free size of a leaf

A leaf carries the number of unused bytes of its page. `compact` and `decode` compute it from the
cells, and `insert_record` takes from it what a new record needs, down to zero when there is less.
`delete_record` changes no byte. `update_record` changes the length of a cell and leaves the free
size as it is, so the count drifts by the difference of the payloads.

A leaf that was decoded or compacted therefore keeps an exact count as long as every update
replaces a payload by one of its length (`Measured.accounts`). Then `insert_record` never has to
stop at zero: the room it has found before is counted in the free size.
-/

namespace SmolDb

open LeafNode

namespace LeafNode

variable {self self' : LeafNode} {k : UInt64} {v : List UInt8}

/-- The free size is exact: with the header, the slots and the cells it makes up the page. -/
structure Measures (leaf : LeafNode) : Prop where
  slotted : leaf.IsSlotted
  freeSize : leaf.freeSize.toNat + leaf.encodedSize = pageSize

/-! ### Compacting and splitting -/

/-- A slot out of range stops the loop of `compact`. -/
theorem inRange_of_foldlM {records : List Record} {slots : List UInt16} {acc acc' : Compaction}
    (h : slots.foldlM (compactStep records) acc = some acc') :
    ∀ s ∈ slots, s.toNat < records.length := by
  induction slots generalizing acc with
  | nil =>
    intro s hs
    cases hs
  | cons s slots ih =>
    rw [List.foldlM_cons] at h
    obtain ⟨acc₁, hstep, h⟩ := Option.bind_eq_some_iff.mp h
    obtain ⟨record, hrecord, -⟩ := Option.bind_eq_some_iff.mp hstep
    intro t ht
    rcases List.mem_cons.mp ht with rfl | ht
    · exact (List.getElem?_eq_some_iff.mp hrecord).1
    · exact ih h t ht

theorem inRange_of_compact (h : self.compact = some self') : self.InRange := by
  obtain ⟨acc, hloop, -⟩ := Option.bind_eq_some_iff.mp h
  exact inRange_of_foldlM hloop

/-- **Compacting** measures any leaf. -/
theorem measures_of_compact (h : self.compact = some self') : self'.Measures := by
  obtain ⟨hfit, rfl⟩ := compact_eq_some (inRange_of_compact h) h
  exact ⟨isSlotted_compacted hfit, freeSize_compacted hfit⟩

/-! ### Inserting -/

/-- What `insert_record` leaves when the key is new, with its free size. -/
theorem IsSlotted.insertRecord_added (hs : self.IsSlotted) {i : ℕ}
    (hsearch : self.searchKey k = some (.error i))
    (h : insertRecord k v self = some (.ok (), self')) :
    i ≤ self.slotArray.length ∧ self.HasRoom v.length ∧
      self' = self.appended i ⟨k, v, false⟩
        (if self.freeSize.toNat ≥ recordSize v then self.freeSize - UInt16.ofNat (recordSize v)
          else 0) := by
  -- a failed search ends inside the slots or right behind them
  have hi : i ≤ self.slotArray.length := by
    rcases hs.inRange.searchKey_isSome k with ⟨j, r, hj, -⟩ | ⟨j, hle, hj⟩
    · rw [hsearch] at hj
      cases hj
    · rw [hsearch] at hj
      cases hj
      exact hle
  by_cases hlen : v.length > maxValueSize
  · rw [insertRecord_of_large hlen] at h
    cases h
  · rw [insertRecord, if_neg hlen] at h
    simp only [hsearch, hs.cells_eq, Option.bind_eq_bind, Option.bind_some] at h
    split at h
    · cases h
    · next hroom =>
      cases h
      exact ⟨hi, by_contra fun hno => hroom (not_hasRoom_iff.mp hno), rfl⟩

/-- The room that `insert_record` has found is there in the free size. -/
theorem Measures.recordSize_le (h : self.Measures) (hroom : self.HasRoom v.length) :
    recordSize v ≤ self.freeSize.toNat := by
  have hfit := hasRoom_iff.mp hroom
  have hexact := h.freeSize
  omega

theorem IsSlotted.encodedSize_appended (hs : self.IsSlotted) {i : ℕ}
    (hi : i ≤ self.slotArray.length) (hroom : self.HasRoom v.length) (freeSize : UInt16) :
    (self.appended i ⟨k, v, false⟩ freeSize).encodedSize = self.encodedSize + recordSize v := by
  obtain ⟨as, bs, hrows, rfl⟩ : ∃ as bs, self.rows = as ++ bs ∧ as.length = i :=
    ⟨self.rows.take i, self.rows.drop i, (List.take_append_drop ..).symm,
      List.length_take_of_le (by rwa [length_rows])⟩
  rw [encodedSize_eq_packedSize, hs.rows_appended (hroom.length_records hs), hrows,
    insertIdx_length_append, packedSize_append_cons, encodedSize_eq_packedSize, hrows]

theorem Measures.insertRecord (h : self.Measures)
    (hcall : insertRecord k v self = some (.ok (), self')) : self'.Measures := by
  have hs := h.slotted
  cases hs.insertRecord_outcome hcall with
  | revived _ _ _ _ _ hcompact => exact measures_of_compact hcompact
  | added _ _ _ hsearch _ =>
    obtain ⟨hi, hroom, heq⟩ := hs.insertRecord_added hsearch hcall
    have hle := h.recordSize_le hroom
    have hcast : (UInt16.ofNat (recordSize v)).toNat = recordSize v :=
      toNat_ofNat_of_lt (Nat.lt_of_le_of_lt hle self.freeSize.toNat_lt)
    rw [heq, if_pos hle]
    refine ⟨hs.appended hi (hroom.length_records hs) _ _, ?_⟩
    -- what the record takes from the free size, it adds to the cells
    rw [hs.encodedSize_appended hi hroom]
    show (self.freeSize - UInt16.ofNat (recordSize v)).toNat + _ = _
    rw [UInt16.toNat_sub_of_le _ _ (UInt16.le_iff_toNat_le.mpr (hcast.symm ▸ hle)), hcast]
    have hexact := h.freeSize
    omega

end LeafNode

/-- The new payload of an update is as long as the old one. -/
def LeafOp.KeepsLength (leaf : LeafNode) : LeafOp → Prop
  | .updateRecord rowId payload => ∀ i record, leaf.searchKey rowId = some (.ok i) →
      leaf.rows[i]? = some record → payload.length = record.data.length
  | _ => True

/-- **One call** leaves the free size exact if and only if it changes no payload's length in
place. -/
theorem LeafNode.Measures.call_iff {leaf leaf' : LeafNode} (h : leaf.Measures) {op : LeafOp}
    (hcall : op.call leaf = some (.ok (), leaf')) : leaf'.Measures ↔ op.KeepsLength leaf := by
  have hs := h.slotted
  have hexact := h.freeSize
  cases op with
  | insertRecord k v => exact ⟨fun _ => trivial, fun _ => h.insertRecord hcall⟩
  | compact =>
    exact ⟨fun _ => trivial, fun _ => measures_of_compact (LeafOp.compact_call hcall).2⟩
  | deleteRecord k =>
    refine ⟨fun _ => trivial, fun _ => ?_⟩
    cases hs.deleteRecord_outcome hcall with
    | @deleted i slot record hsearch hrow hslot =>
      -- a tombstone keeps its payload
      have hsize := Nat.add_right_cancel
        (hs.encodedSize_overwrite hsearch hrow hslot { record with isDeleted := true })
      refine ⟨hs.overwrite _ _, ?_⟩
      rw [hsize]
      exact hexact
  | updateRecord k v =>
    cases hs.updateRecord_outcome hcall with
    | @updated i slot record hlen hsearch hrow hslot =>
      have hsize := hs.encodedSize_overwrite hsearch hrow hslot { record with data := v }
      have hkept : (leaf.overwrite slot { record with data := v }).freeSize = leaf.freeSize := rfl
      dsimp only at hsize
      constructor
      · intro hmeasures j record' hsearch' hrow'
        rw [hsearch, Option.some.injEq, Except.ok.injEq] at hsearch'
        subst hsearch'
        rw [hrow, Option.some.injEq] at hrow'
        subst hrow'
        have hexact' := hmeasures.freeSize
        rw [hkept] at hexact'
        omega
      · intro hkeeps
        have hsame := hkeeps i record hsearch hrow
        refine ⟨hs.overwrite _ _, ?_⟩
        rw [hkept]
        omega

/-! ### Runs -/

/-- The leaves that calls which return `Ok`, and meet a condition on the leaf before them, lead to
from a well-formed leaf that was written and read back, or compacted. `split` leads to two leaves,
and its sibling can be any leaf. -/
inductive Measured (P : LeafNode → LeafOp → Prop) : LeafNode → Prop
  | decoded {leaf leaf' : LeafNode} {page written : Page} (hs : leaf.IsSlotted)
      (hsorted : leaf.Sorted) (henc : (BTreeNode.leaf leaf).encode page = some (.ok (), written))
      (hdec : BTreeNode.decode written = some (.ok (.leaf leaf'))) : Measured P leaf'
  | compacted {leaf leaf' : LeafNode} (hs : leaf.IsSlotted) (hsorted : leaf.Sorted)
      (h : leaf.compact = some leaf') : Measured P leaf'
  | call {leaf leaf' : LeafNode} (op : LeafOp) (hleaf : Measured P leaf) (hop : P leaf op)
      (h : op.call leaf = some (.ok (), leaf')) : Measured P leaf'
  | splitLeft {leaf sibling left right : LeafNode} {promotedKey : UInt64}
      (hleaf : Measured P leaf)
      (h : split (leaf, sibling) = some (.ok promotedKey, (left, right))) : Measured P left
  | splitRight {leaf sibling left right : LeafNode} {promotedKey : UInt64}
      (hleaf : Measured P leaf)
      (h : split (leaf, sibling) = some (.ok promotedKey, (left, right))) : Measured P right

theorem Measured.measures {leaf : LeafNode} (h : Measured LeafOp.KeepsLength leaf) :
    leaf.Measures := by
  induction h with
  | decoded hs _ henc hdec =>
    obtain ⟨hfit, rfl⟩ := hs.reload henc hdec
    refine ⟨hs, ?_⟩
    show (UInt16.ofNat (gapLen _)).toNat + encodedSize _ = _
    rw [toNat_gapLen]
    exact Nat.sub_add_cancel hfit
  | compacted _ _ h => exact measures_of_compact h
  | call op _ hop h ih => exact (ih.call_iff h).mpr hop
  | splitLeft _ h ih => exact measures_of_compact (ih.slotted.split_eq_some h).1
  | splitRight _ h ih => exact measures_of_compact (ih.slotted.split_eq_some h).2.1

/-- The free size says what it is to say: it is what the header, the slots and the cells leave of
the page, `encode` writes the same, and adding a record never takes more than there is. -/
structure LeafNode.Accounts (leaf : LeafNode) : Prop where
  freeSize : leaf.freeSize.toNat + leaf.encodedSize = pageSize
  gap : leaf.WritesGap
  unsaturated : ∀ k v i leaf', leaf.searchKey k = some (.error i) →
    insertRecord k v leaf = some (.ok (), leaf') → recordSize v ≤ leaf.freeSize.toNat

/-- **The free size stays exact** in every leaf of a run whose updates keep the length of the
payload. -/
theorem Measured.accounts {leaf : LeafNode} (h : Measured LeafOp.KeepsLength leaf) :
    leaf.Accounts where
  freeSize := h.measures.freeSize
  gap := h.measures.slotted.writesGap h.measures.freeSize
  unsaturated _ _ _ _ hsearch hcall :=
    h.measures.recordSize_le (h.measures.slotted.insertRecord_added hsearch hcall).2.1

/-- Calls on a leaf that was compacted while it was empty. -/
theorem Measured.of_calls {P : LeafNode → LeafOp → Prop} {pageId : PageId} {ops : List LeafOp}
    (hops : ∀ op ∈ ops, ∀ leaf, P leaf op) {leaf : LeafNode}
    (h : ((newEmpty pageId).compact.bind fun leaf => runCalls leaf ops) = some leaf) :
    Measured P leaf := by
  obtain ⟨start, hstart, h⟩ := Option.bind_eq_some_iff.mp h
  exact runCalls_keeps (fun op hop _ _ ha hcall => .call op ha (hops op hop _) hcall)
    (.compacted (isSlotted_newEmpty _) (sorted_newEmpty _) hstart) h

/-- A record, and its payload replaced by one of its length. -/
theorem Measured.accounts_replaced : ∃ leaf : LeafNode,
    leaf.live = [(1, [8])] ∧ leaf.Accounts := by
  have hrun : ((newEmpty ⟨4096⟩).compact.bind fun leaf =>
      runCalls leaf [.insertRecord 1 [7]]).map (fun leaf =>
        (leaf.rows, (runCalls leaf [.updateRecord 1 [8]]).map live)) =
      some ([⟨1, [7], false⟩], some [(1, [8])]) := by
    decide +kernel
  obtain ⟨leaf, hleaf, heq⟩ := Option.map_eq_some_iff.mp hrun
  obtain ⟨hrows, hupdate⟩ := Prod.mk.inj heq
  obtain ⟨updated, hupdated, hlive⟩ := Option.map_eq_some_iff.mp hupdate
  have hmeasured : Measured LeafOp.KeepsLength leaf := Measured.of_calls (fun op hop _ => by
    rw [List.mem_singleton.mp hop]
    trivial) hleaf
  -- the payload replaced is as long as the new one, so the count stays true
  have hkeeps : (LeafOp.updateRecord 1 [8]).KeepsLength leaf := by
    intro i record _ hrow
    have hmem := List.mem_of_getElem? hrow
    rw [hrows, List.mem_singleton] at hmem
    rw [hmem]
    rfl
  exact ⟨updated, hlive,
    Measured.accounts (.call _ hmeasured hkeeps (runCalls_singleton hupdated))⟩

/-- A payload replaced by one that is a byte longer. -/
theorem Measured.drifts : ¬ ∀ leaf : LeafNode, Measured (fun _ _ => True) leaf → leaf.Accounts := by
  intro h
  have hrun : ((newEmpty ⟨4096⟩).compact.bind fun leaf =>
      runCalls leaf [.insertRecord 1 [7], .updateRecord 1 [8, 8]]).map (fun leaf =>
        leaf.freeSize.toNat + leaf.encodedSize) = some (pageSize + 1) := by
    decide +kernel
  obtain ⟨leaf, hleaf, hsum⟩ := Option.map_eq_some_iff.mp hrun
  have hexact := (h leaf (Measured.of_calls (fun _ _ _ => trivial) hleaf)).freeSize
  rw [hsum] at hexact
  exact absurd hexact (by decide)

end SmolDb
