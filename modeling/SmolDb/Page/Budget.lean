import SmolDb.Page.LeafOp
import SmolDb.Page.RoundTrip

/-!
# The byte budget of a leaf

A leaf can be written back as long as its header, its slots and its cells fit in a page. Adding a
record checks this, compacting and splitting end in a compaction and panic otherwise, and deleting
changes no byte. Updating changes the size of a cell and checks nothing: an update stays within
the budget exactly when it `Fits`, and a leaf that is reached by updates that fit is never too
large (`Reached.inBudget`).
-/

namespace SmolDb

open LeafNode

namespace LeafNode

variable {self self' : LeafNode} {k : UInt64} {v : List UInt8}

/-- The node can be encoded, whatever the page has in it before. -/
def Encodes (self : LeafNode) : Prop :=
  ∀ page : Page, ∃ written, (BTreeNode.leaf self).encode page = some (.ok (), written)

/-- Rewriting one record changes the size by the difference of the payloads. -/
theorem IsSlotted.encodedSize_overwrite (hs : self.IsSlotted) {i : ℕ} {slot : UInt16}
    {record : Record} (hsearch : self.searchKey k = some (.ok i))
    (hrow : self.rows[i]? = some record) (hslot : self.slotArray[i]? = some slot)
    (record' : Record) :
    (self.overwrite slot record').encodedSize + record.data.length =
      self.encodedSize + record'.data.length := by
  obtain ⟨as, bs, hrows, -, hrows'⟩ := hs.overwrite_rows hsearch hrow hslot record'
  have hslots : (self.overwrite slot record').slotArray = self.slotArray := rfl
  rw [encodedSize, encodedSize, hrows, hrows', hslots, footerLen_append, footerLen_append,
    footerLen_cons, footerLen_cons]
  omega

theorem IsSlotted.compact_fits (hs : self.IsSlotted) (h : self.compact = some self') :
    self'.encodedSize ≤ pageSize := by
  obtain ⟨hfit, rfl⟩ := compact_eq_some hs.inRange h
  rw [encodedSize_compacted hfit]
  exact hfit

/-- Both halves of a split fit, whatever the sibling had in it before. -/
theorem IsSlotted.split_fits (hs : self.IsSlotted) {sibling left right : LeafNode}
    (hsib : sibling.IsSlotted) {r : Except DbError UInt64}
    (h : split (self, sibling) = some (r, (left, right))) :
    (left.IsSlotted ∧ left.encodedSize ≤ pageSize) ∧
      right.IsSlotted ∧ right.encodedSize ≤ pageSize := by
  obtain ⟨hfitl, rfl, hfitr, rfl, -⟩ := hs.split_outcome hsib.inRange h
  refine ⟨⟨isSlotted_compacted hfitl, ?_⟩, isSlotted_compacted hfitr, ?_⟩
  · rw [encodedSize_compacted hfitl]
    exact hfitl
  · rw [encodedSize_compacted hfitr]
    exact hfitr

end LeafNode

/-- The new payload of an update fits in the page in place of the old one. -/
def LeafOp.Fits (self : LeafNode) : LeafOp → Prop
  | .updateRecord rowId payload => ∀ i record, self.searchKey rowId = some (.ok i) →
      self.rows[i]? = some record →
        self.encodedSize + payload.length ≤ pageSize + record.data.length
  | _ => True

/-- The leaves that calls which return `Ok`, and meet a condition on the leaf before them, lead to
from leaves that were made empty. `split` leads to two leaves, and its sibling can be any leaf. -/
inductive Reached (P : LeafNode → LeafOp → Prop) : LeafNode → Prop
  | new (pageId : PageId) : Reached P (LeafNode.newEmpty pageId)
  | call {leaf leaf' : LeafNode} (op : LeafOp) (hleaf : Reached P leaf) (hop : P leaf op)
      (h : op.call leaf = some (.ok (), leaf')) : Reached P leaf'
  | splitLeft {leaf sibling left right : LeafNode} {promotedKey : UInt64} (hleaf : Reached P leaf)
      (hsibling : Reached P sibling)
      (h : split (leaf, sibling) = some (.ok promotedKey, (left, right))) : Reached P left
  | splitRight {leaf sibling left right : LeafNode} {promotedKey : UInt64} (hleaf : Reached P leaf)
      (hsibling : Reached P sibling)
      (h : split (leaf, sibling) = some (.ok promotedKey, (left, right))) : Reached P right
  | flagged {leaf : LeafNode} (lastLsn : UInt64) (isDirty : Bool) (hleaf : Reached P leaf) :
      Reached P { leaf with lastLsn, isDirty }

/-- Every leaf reached is well-formed, whatever the condition. -/
theorem Reached.slotted {P : LeafNode → LeafOp → Prop} {leaf : LeafNode} (h : Reached P leaf) :
    leaf.IsSlotted := by
  induction h with
  | new pageId => exact isSlotted_newEmpty pageId
  | call op _ _ h ih => exact (LeafOp.keeps_call op).slotted ih h
  | splitLeft _ _ h ih ihs => exact (ih.split_fits ihs h).1.1
  | splitRight _ _ h ih ihs => exact (ih.split_fits ihs h).2.1
  | flagged _ _ _ ih => exact ih

/-- The leaf is well-formed and within the budget. -/
structure InBudget (leaf : LeafNode) : Prop where
  slotted : leaf.IsSlotted
  fits : leaf.encodedSize ≤ pageSize

theorem InBudget.encodes {leaf : LeafNode} (h : InBudget leaf) : leaf.Encodes := by
  intro page
  have hs : (BTreeNode.leaf leaf).IsSlotted := h.slotted
  obtain ⟨written, _, _, _, henc, _⟩ := hs.placed.encode_ok h.fits page
  exact ⟨_, henc⟩

/-- A slotted leaf is encoded exactly when it is within the budget. -/
theorem encodes_iff {leaf : LeafNode} (hs : leaf.IsSlotted) :
    leaf.Encodes ↔ leaf.encodedSize ≤ pageSize := by
  constructor
  · intro h
    obtain ⟨written, henc⟩ := h Page.new
    by_contra hno
    have hs' : (BTreeNode.leaf leaf).IsSlotted := hs
    rw [hs'.placed.encode_full (Nat.lt_of_not_le hno)] at henc
    cases henc
  · exact fun hfit => InBudget.encodes ⟨hs, hfit⟩

/-- **One call** leaves a leaf within the budget exactly when it is no update, or one that fits. -/
theorem InBudget.call_iff {leaf leaf' : LeafNode} (hw : InBudget leaf) {op : LeafOp}
    (h : op.call leaf = some (.ok (), leaf')) : InBudget leaf' ↔ op.Fits leaf := by
  have hs := hw.slotted
  have hs' := (LeafOp.keeps_call op).slotted hs h
  cases op with
  | insertRecord k v => exact ⟨fun _ => trivial, fun _ => ⟨hs', hs.insertRecord_fits h⟩⟩
  | compact =>
    exact ⟨fun _ => trivial, fun _ => ⟨hs', hs.compact_fits (LeafOp.compact_call h).2⟩⟩
  | deleteRecord k =>
    refine ⟨fun _ => trivial, fun _ => ⟨hs', ?_⟩⟩
    cases hs.deleteRecord_outcome h with
    | @deleted i slot record hsearch hrow hslot =>
      -- a tombstone keeps its payload, so the size stays
      have hsize := hs.encodedSize_overwrite hsearch hrow hslot
        { record with isDeleted := true }
      have hfit := hw.fits
      dsimp only at hsize
      omega
  | updateRecord k v =>
    cases hs.updateRecord_outcome h with
    | @updated i slot record hlen hsearch hrow hslot =>
      have hsize := hs.encodedSize_overwrite hsearch hrow hslot { record with data := v }
      dsimp only at hsize
      constructor
      · intro hbudget j record' hsearch' hrow'
        rw [hsearch, Option.some.injEq, Except.ok.injEq] at hsearch'
        subst hsearch'
        rw [hrow, Option.some.injEq] at hrow'
        subst hrow'
        have hfit := hbudget.fits
        omega
      · intro hfits
        have hroom := hfits i record hsearch hrow
        exact ⟨hs', by omega⟩

/-- **The budget is kept** along every run whose updates fit. -/
theorem Reached.inBudget {leaf : LeafNode} (h : Reached LeafOp.Fits leaf) :
    InBudget leaf := by
  induction h with
  | new pageId => exact ⟨isSlotted_newEmpty pageId, Nat.le_of_ble_eq_true rfl⟩
  | call op _ hop h ih => exact (ih.call_iff h).mpr hop
  | splitLeft _ _ h ih ihs =>
    obtain ⟨⟨hs, hfit⟩, -⟩ := ih.slotted.split_fits ihs.slotted h
    exact ⟨hs, hfit⟩
  | splitRight _ _ h ih ihs =>
    obtain ⟨-, hs, hfit⟩ := ih.slotted.split_fits ihs.slotted h
    exact ⟨hs, hfit⟩
  | flagged lsn dirty _ ih => exact ⟨ih.slotted, ih.fits⟩

/-! ### A run of calls -/

/-- Make calls on a leaf one after the other, as long as they return `Ok`. -/
def runCalls (leaf : LeafNode) (ops : List LeafOp) : Option LeafNode :=
  ops.foldlM (fun leaf op => (op.call leaf).bind fun p =>
    match p.1 with
    | .ok () => some p.2
    | .error _ => none) leaf

/-- What every call keeps, a run of them keeps. -/
theorem runCalls_keeps {P : LeafNode → Prop} {ops : List LeafOp}
    (hstep : ∀ op ∈ ops, ∀ a b, P a → op.call a = some (.ok (), b) → P b) {leaf leaf' : LeafNode}
    (hleaf : P leaf) (h : runCalls leaf ops = some leaf') : P leaf' := by
  induction ops generalizing leaf with
  | nil =>
    cases h
    exact hleaf
  | cons op ops ih =>
    rw [runCalls, List.foldlM_cons] at h
    obtain ⟨leaf₁, hround, h⟩ := Option.bind_eq_some_iff.mp h
    obtain ⟨⟨r, leaf₂⟩, hcall, hr⟩ := Option.bind_eq_some_iff.mp hround
    refine ih (fun op' hop => hstep op' (List.mem_cons_of_mem _ hop)) ?_ h
    cases r with
    | error e => cases hr
    | ok =>
      cases hr
      exact hstep op (List.mem_cons_self ..) leaf _ hleaf hcall

/-- A run of one call. -/
theorem runCalls_singleton {op : LeafOp} {leaf leaf' : LeafNode}
    (h : runCalls leaf [op] = some leaf') : op.call leaf = some (.ok (), leaf') := by
  rw [runCalls, List.foldlM_cons] at h
  obtain ⟨leaf₁, hround, heq⟩ := Option.bind_eq_some_iff.mp h
  obtain ⟨⟨r, leaf₂⟩, hcall, hr⟩ := Option.bind_eq_some_iff.mp hround
  cases heq
  cases r with
  | error e => cases hr
  | ok =>
    cases hr
    exact hcall

theorem Reached.runCalls {leaf leaf' : LeafNode} {ops : List LeafOp}
    (hleaf : Reached (fun _ _ => True) leaf) (h : runCalls leaf ops = some leaf') :
    Reached (fun _ _ => True) leaf' :=
  runCalls_keeps (fun op _ _ _ ha hcall => .call op ha trivial hcall) hleaf h

end SmolDb
