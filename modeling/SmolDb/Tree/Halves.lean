import SmolDb.Page.Live

/-!
# The two halves of a full leaf

When a leaf has no room for a record, `insert_leaf` splits it, puts the record into one of the
halves and rewires three leaves. These are the pure parts of that. What the two halves hold
together is what the leaf held and the new record, and in a sorted leaf the promoted row id
separates them (`halves_sorted`).
-/

namespace SmolDb

/-- The leaf that gets the new record: the lower half when the row id is below the promoted one. -/
def LeafNode.insertHalf (rowId : UInt64) (payload : List UInt8) (promotedRowId : UInt64) :
    Exec DbError (LeafNode × LeafNode) Unit := fun (left, right) =>
  if rowId < promotedRowId then
    (insertRecord rowId payload left).map fun (r, left') => (r, left', right)
  else (insertRecord rowId payload right).map fun (r, right') => (r, left, right')

/-- The left leaf with its forward pointer on the new leaf. -/
def LeafNode.linkedLeft (left : LeafNode) (newLeafId : PageId) : LeafNode :=
  { left with hasNext := true, nextPageId := newLeafId.val }

/-- The new leaf with its pointers between the left leaf and the old right sibling. -/
def LeafNode.linkedRight (right : LeafNode) (leafPageId : PageId) (left : LeafNode) : LeafNode :=
  { right with
    hasPrev := true
    prevPageId := leafPageId.val
    hasNext := left.hasNext
    nextPageId := left.nextPageId }

/-- The old right sibling with its backward pointer on the new leaf. -/
def BTreeNode.relinked (newLeafId : PageId) (lsn : UInt64) : BTreeNode → BTreeNode
  | .internal node => .internal node
  | .leaf node => BTreeNode.markDirty lsn
      (.leaf { node with hasPrev := true, prevPageId := newLeafId.val })

namespace LeafNode

variable {self a b a₁ b₁ a₂ b₂ : LeafNode} {k promoted : UInt64} {v : List UInt8}

/-! ### Leaves with the same cells -/

/-- The two leaves have the same cells in the same order. -/
structure SameCells (a b : LeafNode) : Prop where
  records : b.records = a.records
  slotArray : b.slotArray = a.slotArray

theorem SameCells.rows (h : SameCells a b) : b.rows = a.rows := by
  unfold LeafNode.rows
  rw [h.records, h.slotArray]

theorem SameCells.live (h : SameCells a b) : b.live = a.live := congrArg livePairs h.rows

theorem SameCells.slotted (h : SameCells a b) (hs : a.IsSlotted) : b.IsSlotted := by
  unfold IsSlotted
  rw [h.records, h.slotArray]
  exact hs

theorem SameCells.sorted (h : SameCells a b) (hs : a.Sorted) : b.Sorted := by
  unfold Sorted
  rw [h.rows]
  exact hs

/-! ### One record -/

/-- A record that is in the leaf after an insert was there or is the new one. -/
theorem IsSlotted.insertRecord_mem (hs : self.IsSlotted) {self' : LeafNode}
    (h : insertRecord k v self = some (.ok (), self')) :
    ∀ r ∈ self'.rows, r ∈ self.rows ∨ r.rowId = k := by
  intro r hr
  -- the record is added, or takes the place of a dead one before the dead ones are dropped
  rcases hs.insertRecord_rows h with ⟨as, bs, hrows, -, -, hrows'⟩ |
    ⟨as, dead, bs, hrows, -, -, hrows'⟩
  · rw [hrows', List.mem_append, List.mem_cons] at hr
    rw [hrows, List.mem_append]
    rcases hr with ha | rfl | hb
    · exact .inl (.inl ha)
    · exact .inr rfl
    · exact .inl (.inr hb)
  · have hmem := List.mem_of_mem_filter (hrows' ▸ hr)
    rw [List.mem_append, List.mem_cons] at hmem
    rw [hrows, List.mem_append, List.mem_cons]
    rcases hmem with ha | rfl | hb
    · exact .inl (.inl ha)
    · exact .inr rfl
    · exact .inl (.inr (.inr hb))

theorem IsSlotted.insertRecord_perm (hs : self.IsSlotted) {self' : LeafNode}
    (h : insertRecord k v self = some (.ok (), self')) :
    self'.live.Perm ((k, v) :: self.live) := by
  obtain ⟨as, bs, hlive, hlive'⟩ := hs.insertRecord_live h
  rw [hlive, hlive']
  exact List.perm_middle

/-! ### A split and an insert -/

/-- The record goes below the promoted row id into the lower half, else into the upper one. -/
theorem insertHalf_ok (h : insertHalf k v promoted (a₁, b₁) = some (.ok (), (a₂, b₂))) :
    k < promoted ∧ insertRecord k v a₁ = some (.ok (), a₂) ∧ b₂ = b₁ ∨
      ¬ k < promoted ∧ insertRecord k v b₁ = some (.ok (), b₂) ∧ a₂ = a₁ := by
  unfold insertHalf at h
  dsimp only at h
  split at h
  · next hlt =>
    obtain ⟨⟨r, a'⟩, hins, heq⟩ := Option.map_eq_some_iff.mp h
    cases heq
    exact .inl ⟨hlt, hins, rfl⟩
  · next hge =>
    obtain ⟨⟨r, b'⟩, hins, heq⟩ := Option.map_eq_some_iff.mp h
    cases heq
    exact .inr ⟨hge, hins, rfl⟩

/-- A split and the insert behind it keep the header fields of both leaves. -/
theorem halves_header (hs : a.IsSlotted) (hrecords : b.records = []) (hslots : b.slotArray = [])
    (hsplit : split (a, b) = some (.ok promoted, (a₁, b₁)))
    (hinsert : insertHalf k v promoted (a₁, b₁) = some (.ok (), (a₂, b₂))) :
    SameHeader a a₂ ∧ SameHeader b b₂ ∧ a₂.IsSlotted ∧ b₂.IsSlotted := by
  obtain ⟨hinto, -⟩ := hs.split_into hrecords hslots hsplit
  have hkeeps := keeps_insertRecord k v
  rcases insertHalf_ok hinsert with ⟨-, hins, rfl⟩ | ⟨-, hins, rfl⟩
  · exact ⟨hinto.left_header.trans (hkeeps.header hinto.left_slotted hins), hinto.right_header,
      hkeeps.slotted hinto.left_slotted hins, hinto.right_slotted⟩
  · exact ⟨hinto.left_header, hinto.right_header.trans (hkeeps.header hinto.right_slotted hins),
      hinto.left_slotted, hkeeps.slotted hinto.right_slotted hins⟩

/-- **The halves hold what the leaf held, and the new record.** -/
theorem halves_live (hs : a.IsSlotted) (hrecords : b.records = []) (hslots : b.slotArray = [])
    (hsplit : split (a, b) = some (.ok promoted, (a₁, b₁)))
    (hinsert : insertHalf k v promoted (a₁, b₁) = some (.ok (), (a₂, b₂))) :
    (a₂.live ++ b₂.live).Perm ((k, v) :: a.live) := by
  obtain ⟨hinto, -⟩ := hs.split_into hrecords hslots hsplit
  rw [hinto.live_eq]
  rcases insertHalf_ok hinsert with ⟨-, hins, rfl⟩ | ⟨-, hins, rfl⟩
  · exact (hinto.left_slotted.insertRecord_perm hins).append_right _
  · have hperm := hinto.right_slotted.insertRecord_perm hins
    calc (a₂.live ++ b₂.live).Perm (a₂.live ++ (k, v) :: b₁.live) := hperm.append_left _
      List.Perm _ ((k, v) :: (a₂.live ++ b₁.live)) := List.perm_middle

/-- What a sorted leaf is cut into: the promoted row id is one of its own, and separates the
halves. -/
structure Parted (k promoted : UInt64) (a left right : LeafNode) : Prop where
  promoted_mem : ∃ r ∈ a.rows, r.rowId = promoted
  left_sorted : left.Sorted
  right_sorted : right.Sorted
  left_lt : ∀ r ∈ left.rows, r.rowId.toNat < promoted.toNat
  right_ge : ∀ r ∈ right.rows, promoted.toNat ≤ r.rowId.toNat
  left_mem : ∀ r ∈ left.rows, r ∈ a.rows ∨ r.rowId = k
  right_mem : ∀ r ∈ right.rows, r ∈ a.rows ∨ r.rowId = k

/-- A split alone. -/
theorem split_parted (hs : a.IsSlotted) (hsorted : a.Sorted) (hrecords : b.records = [])
    (hslots : b.slotArray = []) (hsplit : split (a, b) = some (.ok promoted, (a₁, b₁)))
    (k : UInt64) : Parted k promoted a a₁ b₁ := by
  obtain ⟨hinto, ⟨-, hfail⟩ | ⟨first, rest, hright, hok⟩⟩ := hs.split_into hrecords hslots hsplit
  · cases hfail
  cases hok
  have hfirst : first ∈ b₁.rows := by
    rw [hright]
    exact List.mem_cons_self ..
  have hleft : ∀ r ∈ a₁.rows, r ∈ a.rows := by
    intro r hr
    rw [hinto.left_rows] at hr
    exact List.mem_of_mem_take (List.mem_of_mem_filter hr)
  have hupper : ∀ r ∈ b₁.rows, r ∈ a.rows := by
    intro r hr
    rw [hinto.right_rows] at hr
    exact List.mem_of_mem_drop (List.mem_of_mem_filter hr)
  obtain ⟨hsortedLeft, hsortedRight⟩ := hinto.sorted hsorted
  exact
    { promoted_mem := ⟨first, hupper first hfirst, rfl⟩
      left_sorted := hsortedLeft
      right_sorted := hsortedRight
      left_lt := fun r hr => hinto.lt hsorted r hr first hfirst
      right_ge := by
        -- the promoted row id is the first of a sorted half
        intro r hr
        rw [Sorted, hright, List.pairwise_cons] at hsortedRight
        rw [hright] at hr
        rcases List.mem_cons.mp hr with rfl | hrest
        · exact Nat.le_refl _
        · exact Nat.le_of_lt (hsortedRight.1 r hrest)
      left_mem := fun r hr => .inl (hleft r hr)
      right_mem := fun r hr => .inl (hupper r hr) }

/-- **The promoted row id separates the halves**, the new record included. -/
theorem halves_sorted (hs : a.IsSlotted) (hsorted : a.Sorted) (hrecords : b.records = [])
    (hslots : b.slotArray = []) (hsplit : split (a, b) = some (.ok promoted, (a₁, b₁)))
    (hinsert : insertHalf k v promoted (a₁, b₁) = some (.ok (), (a₂, b₂))) :
    Parted k promoted a a₂ b₂ := by
  obtain ⟨hinto, -⟩ := hs.split_into hrecords hslots hsplit
  have hp := split_parted hs hsorted hrecords hslots hsplit k
  -- the key was compared with the promoted one, so its half keeps its side of the cut
  rcases insertHalf_ok hinsert with ⟨hlt, hins, rfl⟩ | ⟨hge, hins, rfl⟩
  · have hmem := hinto.left_slotted.insertRecord_mem hins
    exact { hp with
      left_sorted := hinto.left_slotted.insertRecord_sorted hp.left_sorted hins
      left_lt := by
        intro r hr
        rcases hmem r hr with hold | rfl
        · exact hp.left_lt r hold
        · exact hlt
      left_mem := fun r hr => (hmem r hr).elim (hp.left_mem r) .inr }
  · have hmem := hinto.right_slotted.insertRecord_mem hins
    exact { hp with
      right_sorted := hinto.right_slotted.insertRecord_sorted hp.right_sorted hins
      right_ge := by
        intro r hr
        rcases hmem r hr with hold | rfl
        · exact hp.right_ge r hold
        · exact Nat.le_of_not_lt hge
      right_mem := fun r hr => (hmem r hr).elim (hp.right_mem r) .inr }

end LeafNode

end SmolDb
