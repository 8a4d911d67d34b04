import SmolDb.Page.Leaf

/-!
# What the leaf operations mean

The content of a leaf is the list of its live pairs in slot order (`live`). Adding a record
inserts a pair, a split cuts the list in two, and on a leaf whose rows are sorted the place of a
pair is where its row id belongs.

Every call of a leaf operation, with whatever result, also keeps four things, collected in
`Keeps`: the slot array stays a permutation, the fields outside of the cells stay as they are,
an error leaves the leaf alone, and the free size and the dirty flag have no influence on the
rest.
-/

namespace SmolDb

namespace LeafNode

variable {self : LeafNode}

/-! ### The live pairs -/

/-- The pairs of the records that are not tombstones. -/
def livePairs (rs : List Record) : List (UInt64 × List UInt8) :=
  (rs.filter fun r => !r.isDeleted).map fun r => (r.rowId, r.data)

/-- The live pairs of a leaf in slot order. -/
def live (self : LeafNode) : List (UInt64 × List UInt8) := livePairs self.rows

@[simp] theorem livePairs_nil : livePairs [] = [] := rfl

@[simp] theorem livePairs_append (rs rs' : List Record) :
    livePairs (rs ++ rs') = livePairs rs ++ livePairs rs' := by
  simp [livePairs]

theorem livePairs_cons_live (k : UInt64) (v : List UInt8) (rs : List Record) :
    livePairs (⟨k, v, false⟩ :: rs) = (k, v) :: livePairs rs := rfl

theorem livePairs_cons_dead {r : Record} (h : r.isDeleted = true) (rs : List Record) :
    livePairs (r :: rs) = livePairs rs := by
  simp [livePairs, h]

@[simp] theorem livePairs_filter (rs : List Record) :
    livePairs (rs.filter fun r => !r.isDeleted) = livePairs rs := by
  simp [livePairs]

theorem mem_livePairs {rs : List Record} {p : UInt64 × List UInt8} :
    p ∈ livePairs rs ↔ ⟨p.1, p.2, false⟩ ∈ rs := by
  simp only [livePairs, List.mem_map, List.mem_filter, Bool.not_eq_true']
  constructor
  · rintro ⟨⟨k, v, d⟩, ⟨hr, hd⟩, rfl⟩
    cases hd
    exact hr
  · intro hr
    exact ⟨_, ⟨hr, rfl⟩, rfl⟩

theorem live_compacted (h : packedSize self.liveRows ≤ pageSize) :
    self.compacted.live = self.live := by
  rw [live, rows_compacted h, liveRows, livePairs_filter, live]

/-! ### What every call keeps -/

/-- The two leaves agree outside of their cells. -/
def SameHeader (a b : LeafNode) : Prop :=
  ∃ records slotArray freeSize, b = { a with records, slotArray, freeSize }

theorem SameHeader.refl (a : LeafNode) : SameHeader a a := ⟨_, _, _, rfl⟩

theorem SameHeader.trans {a b c : LeafNode} (h : SameHeader a b) (h' : SameHeader b c) :
    SameHeader a c := by
  obtain ⟨_, _, _, rfl⟩ := h
  obtain ⟨_, _, _, rfl⟩ := h'
  exact ⟨_, _, _, rfl⟩

theorem sameHeader_compacted : SameHeader self self.compacted := ⟨_, _, _, rfl⟩

theorem sameHeader_overwrite (slot : UInt16) (record : Record) :
    SameHeader self (self.overwrite slot record) := ⟨_, _, _, rfl⟩

theorem sameHeader_appended (i : ℕ) (record : Record) (freeSize : UInt16) :
    SameHeader self (self.appended i record freeSize) := ⟨_, _, _, rfl⟩

/-- The result of a call, with the content of the leaf it leaves. -/
def bareResult {α : Type} (o : Option (Except DbError α × LeafNode)) :
    Option (Except DbError α × LeafNode) := o.map fun p => (p.1, p.2.bare)

/-- What a call on a leaf keeps. -/
structure Keeps (x : Exec DbError LeafNode Unit) : Prop where
  slotted : ∀ {self r self'}, self.IsSlotted → x self = some (r, self') → self'.IsSlotted
  header : ∀ {self r self'}, self.IsSlotted → x self = some (r, self') → SameHeader self self'
  unchanged : ∀ {self e self'}, self.IsSlotted → x self = some (.error e, self') → self' = self
  blind : ∀ self, bareResult (x self.bare) = bareResult (x self)

/-- A call gives leaves with equal content the same result and equal content. -/
theorem Keeps.congr {x : Exec DbError LeafNode Unit} (hx : Keeps x) {a b : LeafNode}
    (hab : a.bare = b.bare) {r : Except DbError Unit} {a' : LeafNode}
    (h : x a = some (r, a')) : ∃ b', x b = some (r, b') ∧ a'.bare = b'.bare := by
  have heq : bareResult (x b) = some (r, a'.bare) := by
    rw [← hx.blind b, ← hab, hx.blind a, h]
    rfl
  obtain ⟨⟨r', b'⟩, hb, hrb⟩ := Option.map_eq_some_iff.mp heq
  rw [Prod.mk.injEq] at hrb
  obtain ⟨rfl, hbare⟩ := hrb
  exact ⟨b', hb, hbare.symm⟩

/-! ### `insert_record` -/

theorem HasRoom.length_records (hs : self.IsSlotted) {n : ℕ} (h : self.HasRoom n) :
    self.records.length < 65536 := by
  have hlen := h.2
  rw [hs.length_eq] at hlen
  simp only [maxLeafNodeCells, pageSize, leafNodeHeaderSize, slotElemSize, recordMetaSize] at hlen
  omega

theorem overwrite_inRange (hs : self.IsSlotted) (slot : UInt16) (record : Record) :
    (self.overwrite slot record).InRange := (hs.overwrite slot record).inRange

/-- A list is its part before an element, the element, and the rest. -/
theorem split_at_getElem {α : Type} {xs : List α} {i : ℕ} {x : α} (h : xs[i]? = some x) :
    ∃ as bs, xs = as ++ x :: bs ∧ as.length = i := by
  obtain ⟨hi, rfl⟩ := List.getElem?_eq_some_iff.mp h
  refine ⟨xs.take i, xs.drop (i + 1), ?_, List.length_take_of_le (Nat.le_of_lt hi)⟩
  rw [List.getElem_cons_drop, List.take_append_drop]

theorem insertIdx_length_append {α : Type} (as bs : List α) (x : α) :
    (as ++ bs).insertIdx as.length x = as ++ x :: bs := by
  induction as with
  | nil => rfl
  | cons a as ih => rw [List.cons_append, List.length_cons, List.insertIdx_succ_cons, ih]; rfl

theorem set_length_append {α : Type} (as bs : List α) (x y : α) :
    (as ++ x :: bs).set as.length y = as ++ y :: bs := by
  induction as with
  | nil => rfl
  | cons a as ih => rw [List.cons_append, List.length_cons, List.set_cons_succ, ih]; rfl

/-- What `insert_record` does to the rows: a new row at the place the search gave, or a tombstone
of the key revived and the other tombstones dropped. -/
theorem IsSlotted.insertRecord_rows (hs : self.IsSlotted) {k : UInt64} {v : List UInt8}
    {self' : LeafNode} (h : insertRecord k v self = some (.ok (), self')) :
    (∃ as bs, self.rows = as ++ bs ∧ self.searchKey k = some (.error as.length) ∧
        self.HasRoom v.length ∧ self'.rows = as ++ ⟨k, v, false⟩ :: bs) ∨
      ∃ as dead bs, self.rows = as ++ dead :: bs ∧ dead.rowId = k ∧ dead.isDeleted = true ∧
        self'.rows = (as ++ ⟨k, v, false⟩ :: bs).filter fun r => !r.isDeleted := by
  cases hs.insertRecord_outcome h with
  -- a tombstone of the key is overwritten, and the other tombstones go with the compaction
  | @revived i slot dead _ hlen hsearch hrow hdead hslot hcompact =>
    right
    obtain ⟨hfit, rfl⟩ := compact_eq_some (overwrite_inRange hs slot _) hcompact
    have hkey : dead.rowId = k := hs.rowId_of_search hsearch hrow
    obtain ⟨as, bs, hrows, rfl⟩ := split_at_getElem hrow
    refine ⟨as, dead, bs, hrows, hkey, hdead, ?_⟩
    rw [rows_compacted hfit, liveRows, hs.rows_overwrite hslot, hrows, set_length_append, ← hkey]
  | @added i freeSize hlen hi hsearch hroom =>
    left
    -- the record is put where the search ended
    rw [← length_rows] at hi
    have hlen' : (self.rows.take i).length = i := List.length_take_of_le hi
    have hrows : self.rows = self.rows.take i ++ self.rows.drop i :=
      (List.take_append_drop _ _).symm
    refine ⟨self.rows.take i, self.rows.drop i, hrows, by rwa [hlen'], hroom, ?_⟩
    rw [hs.rows_appended (hroom.length_records hs)]
    conv_lhs => rw [hrows]
    conv_lhs => enter [2]; rw [← hlen']
    rw [insertIdx_length_append]

/-- **An insert adds one live pair.** -/
theorem IsSlotted.insertRecord_live (hs : self.IsSlotted) {k : UInt64} {v : List UInt8}
    {self' : LeafNode} (h : insertRecord k v self = some (.ok (), self')) :
    ∃ as bs, self.live = as ++ bs ∧ self'.live = as ++ (k, v) :: bs := by
  rcases hs.insertRecord_rows h with ⟨as, bs, hrows, -, -, hrows'⟩ |
    ⟨as, dead, bs, hrows, -, hdead, hrows'⟩
  · refine ⟨livePairs as, livePairs bs, ?_, ?_⟩
    · rw [live, hrows, livePairs_append]
    · rw [live, hrows', livePairs_append, livePairs_cons_live]
  · refine ⟨livePairs as, livePairs bs, ?_, ?_⟩
    · rw [live, hrows, livePairs_append, livePairs_cons_dead hdead]
    · rw [live, hrows', livePairs_filter, livePairs_append, livePairs_cons_live]

theorem compact_blind (self : LeafNode) :
    self.bare.compact.map bare = self.compact.map bare := by
  have hacc : self.bare.slotArray.foldlM (compactStep self.bare.records) ⟨[], [], 0⟩ =
      self.slotArray.foldlM (compactStep self.records) ⟨[], [], 0⟩ := rfl
  unfold compact
  rw [hacc]
  cases self.slotArray.foldlM (compactStep self.records) ⟨[], [], 0⟩ with
  | none => rfl
  | some acc =>
    simp only [Option.bind_eq_bind, Option.bind_some]
    cases compare (leafNodeHeaderSize + acc.bytesUsed) pageSize <;> rfl

theorem insertRecord_blind (k : UInt64) (v : List UInt8) (self : LeafNode) :
    bareResult (insertRecord k v self.bare) = bareResult (insertRecord k v self) := by
  -- no operation on the cells reads the dirty flag or the LSN
  have hsearch : self.bare.searchKey k = self.searchKey k := rfl
  have hcells : self.bare.cells = self.cells := rfl
  have hslots : self.bare.slotArray = self.slotArray := rfl
  have hrecord : ∀ slot, self.bare.recordAt slot = self.recordAt slot := fun _ => rfl
  unfold insertRecord
  rw [hsearch, hcells, hslots]
  split
  · rfl
  · rcases self.searchKey k with _ | (i | i)
    · rfl
    · cases self.cells with
      | none => rfl
      | some cells =>
        simp only [Option.bind_eq_bind, Option.bind_some]
        split <;> rfl
    · simp only [Option.bind_eq_bind, Option.bind_some, hrecord]
      cases self.slotArray[i]? with
      | none => rfl
      | some slot =>
        simp only [Option.bind_some]
        cases self.recordAt slot with
        | none => rfl
        | some record =>
          simp only [Option.bind_some]
          split
          · rfl
          · -- the compaction is the only step whose result has to be followed
            have hreturn : ∀ o : Option LeafNode,
                bareResult (o.bind fun leaf => some (.ok (), leaf)) =
                  (o.map bare).map fun leaf => ((.ok () : Except DbError Unit), leaf) := by
              intro o
              cases o <;> rfl
            have hcompact := compact_blind
              (self.overwrite slot { record with isDeleted := false, data := v })
            exact (hreturn _).trans ((congrArg _ hcompact).trans (hreturn _).symm)

theorem keeps_insertRecord (k : UInt64) (v : List UInt8) : Keeps (insertRecord k v) where
  slotted hs h := by
    cases hs.insertRecord_outcome h with
    | tooLarge => exact hs
    | duplicate => exact hs
    | full => exact hs
    | revived _ _ _ _ _ hcompact =>
      obtain ⟨hfit, rfl⟩ := compact_eq_some (overwrite_inRange hs _ _) hcompact
      exact isSlotted_compacted hfit
    | added _ _ hi _ hroom => exact hs.appended hi (hroom.length_records hs) _ _
  -- the two outcomes that write a cell rewrite slots and records only
  header hs h := by
    cases hs.insertRecord_outcome h with
    | tooLarge => exact .refl _
    | duplicate => exact .refl _
    | full => exact .refl _
    | revived _ _ _ _ _ hcompact =>
      obtain ⟨-, rfl⟩ := compact_eq_some (overwrite_inRange hs _ _) hcompact
      exact (sameHeader_overwrite _ _).trans sameHeader_compacted
    | added => exact sameHeader_appended _ _ _
  unchanged hs h := by cases hs.insertRecord_outcome h <;> rfl
  blind := insertRecord_blind k v

/-- **A leaf that took an insert fits in a page.** -/
theorem IsSlotted.insertRecord_fits (hs : self.IsSlotted) {k : UInt64} {v : List UInt8}
    {self' : LeafNode} (h : insertRecord k v self = some (.ok (), self')) :
    self'.encodedSize ≤ pageSize := by
  cases hs.insertRecord_outcome h with
  | revived _ _ _ _ _ hcompact =>
    obtain ⟨hfit, rfl⟩ := compact_eq_some (overwrite_inRange hs _ _) hcompact
    rwa [encodedSize_compacted hfit]
  | @added i freeSize _ hi _ hroom =>
    have hsum := hroom.1
    -- the size counts the rows, wherever the new one stands among them
    have hperm := List.perm_insertIdx (⟨k, v, false⟩ : Record) self.rows
      (by rwa [length_rows] : i ≤ self.rows.length)
    have hfooter : footerLen (self.appended i ⟨k, v, false⟩ freeSize).rows =
        footerLen (⟨k, v, false⟩ :: self.rows) := by
      rw [hs.rows_appended (hroom.length_records hs)]
      exact List.Perm.sum_nat (hperm.map _)
    have hlen : (self.appended i ⟨k, v, false⟩ freeSize).slotArray.length =
        self.slotArray.length + 1 := List.length_insertIdx_of_le_length hi _
    rw [encodedSize, hfooter, hlen, footerLen_cons]
    simp only [slotElemSize, recordMetaSize] at hsum ⊢
    omega

/-! ### `update_record` and `delete_record` -/

/-- The rows with the record at one place rewritten. -/
theorem IsSlotted.overwrite_rows (hs : self.IsSlotted) {k : UInt64} {i : ℕ} {slot : UInt16}
    {record : Record} (hsearch : self.searchKey k = some (.ok i))
    (hrow : self.rows[i]? = some record) (hslot : self.slotArray[i]? = some slot)
    (record' : Record) :
    ∃ as bs, self.rows = as ++ record :: bs ∧ record.rowId = k ∧
      (self.overwrite slot record').rows = as ++ record' :: bs := by
  have hkey : record.rowId = k := hs.rowId_of_search hsearch hrow
  obtain ⟨as, bs, hrows, rfl⟩ := split_at_getElem hrow
  refine ⟨as, bs, hrows, hkey, ?_⟩
  rw [hs.rows_overwrite hslot, hrows, set_length_append]

theorem IsSlotted.updateRecord_rows (hs : self.IsSlotted) {k : UInt64} {v : List UInt8}
    {self' : LeafNode} (h : updateRecord k v self = some (.ok (), self')) :
    ∃ as record bs, self.rows = as ++ record :: bs ∧ record.rowId = k ∧
      self'.rows = as ++ { record with data := v } :: bs := by
  cases hs.updateRecord_outcome h with
  | updated hlen hsearch hrow hslot =>
    obtain ⟨as, bs, hrows, hkey, hrows'⟩ := hs.overwrite_rows hsearch hrow hslot _
    exact ⟨as, _, bs, hrows, hkey, hrows'⟩

theorem IsSlotted.deleteRecord_rows (hs : self.IsSlotted) {k : UInt64}
    {self' : LeafNode} (h : deleteRecord k self = some (.ok (), self')) :
    ∃ as record bs, self.rows = as ++ record :: bs ∧ record.rowId = k ∧
      self'.rows = as ++ { record with isDeleted := true } :: bs := by
  cases hs.deleteRecord_outcome h with
  | deleted hsearch hrow hslot =>
    obtain ⟨as, bs, hrows, hkey, hrows'⟩ := hs.overwrite_rows hsearch hrow hslot _
    exact ⟨as, _, bs, hrows, hkey, hrows'⟩

theorem updateRecord_blind (k : UInt64) (v : List UInt8) (self : LeafNode) :
    bareResult (updateRecord k v self.bare) = bareResult (updateRecord k v self) := by
  -- as for `insert_record`, without a compaction
  have hsearch : self.bare.searchKey k = self.searchKey k := rfl
  have hslots : self.bare.slotArray = self.slotArray := rfl
  have hrecord : ∀ slot, self.bare.recordAt slot = self.recordAt slot := fun _ => rfl
  unfold updateRecord
  rw [hsearch, hslots]
  split
  · rfl
  · rcases self.searchKey k with _ | (i | i)
    · rfl
    · rfl
    · simp only [Option.bind_eq_bind, Option.bind_some, hrecord]
      cases self.slotArray[i]? with
      | none => rfl
      | some slot =>
        simp only [Option.bind_some]
        cases self.recordAt slot <;> rfl

theorem deleteRecord_blind (k : UInt64) (self : LeafNode) :
    bareResult (deleteRecord k self.bare) = bareResult (deleteRecord k self) := by
  have hsearch : self.bare.searchKey k = self.searchKey k := rfl
  have hslots : self.bare.slotArray = self.slotArray := rfl
  have hrecord : ∀ slot, self.bare.recordAt slot = self.recordAt slot := fun _ => rfl
  unfold deleteRecord
  rw [hsearch, hslots]
  rcases self.searchKey k with _ | (i | i)
  · rfl
  · rfl
  · simp only [Option.bind_eq_bind, Option.bind_some, hrecord]
    cases self.slotArray[i]? with
    | none => rfl
    | some slot =>
      simp only [Option.bind_some]
      cases self.recordAt slot <;> rfl

theorem keeps_updateRecord (k : UInt64) (v : List UInt8) : Keeps (updateRecord k v) where
  slotted hs h := by
    cases hs.updateRecord_outcome h with
    | tooLarge => exact hs
    | notFound => exact hs
    | updated => exact hs.overwrite _ _
  header hs h := by
    cases hs.updateRecord_outcome h with
    | tooLarge => exact .refl _
    | notFound => exact .refl _
    | updated => exact sameHeader_overwrite _ _
  unchanged hs h := by cases hs.updateRecord_outcome h <;> rfl
  blind := updateRecord_blind k v

theorem keeps_deleteRecord (k : UInt64) : Keeps (deleteRecord k) where
  slotted hs h := by
    cases hs.deleteRecord_outcome h with
    | notFound => exact hs
    | deleted => exact hs.overwrite _ _
  header hs h := by
    cases hs.deleteRecord_outcome h with
    | notFound => exact .refl _
    | deleted => exact sameHeader_overwrite _ _
  unchanged hs h := by
    cases hs.deleteRecord_outcome h
    rfl
  blind := deleteRecord_blind k

/-! ### `split` -/

theorem rows_receiver {sibling : LeafNode} (hrecords : sibling.records = [])
    (hslots : sibling.slotArray = []) (hs : self.IsSlotted) :
    (self.receiver sibling).rows = self.upperRows := by
  have hlen : self.upperRows.length ≤ 65536 := by
    have hle := hs.length_le
    rw [upperRows, List.length_drop, length_rows]
    omega
  rw [receiver, foldl_push_of_empty hrecords hslots, rows]
  exact rows_freshSlots hlen

theorem sameHeader_receiver {sibling : LeafNode} (hrecords : sibling.records = [])
    (hslots : sibling.slotArray = []) : SameHeader sibling (self.receiver sibling) := by
  rw [receiver, foldl_push_of_empty hrecords hslots]
  exact ⟨_, _, _, rfl⟩

theorem sameHeader_lowerHalf : SameHeader self self.lowerHalf := ⟨_, _, _, rfl⟩

theorem sameHeader_foldl_push (rs : List Record) (a : LeafNode) :
    SameHeader a (rs.foldl push a) := by
  induction rs generalizing a with
  | nil => exact .refl a
  | cons r rs ih =>
    have hpush : SameHeader a (a.push r) := ⟨_, _, _, rfl⟩
    exact hpush.trans (ih (a.push r))

/-- What a split of any two leaves leaves is well-formed, with the other fields as before. -/
theorem IsSlotted.split_keeps (hs : self.IsSlotted) {sibling left right : LeafNode}
    (hsib : sibling.IsSlotted) {r : Except DbError UInt64}
    (h : split (self, sibling) = some (r, (left, right))) :
    (left.IsSlotted ∧ SameHeader self left) ∧ right.IsSlotted ∧ SameHeader sibling right := by
  obtain ⟨hfitl, rfl, hfitr, rfl, -⟩ := hs.split_outcome hsib.inRange h
  refine ⟨⟨isSlotted_compacted hfitl, ?_⟩, isSlotted_compacted hfitr, ?_⟩
  · exact sameHeader_lowerHalf.trans sameHeader_compacted
  · exact (sameHeader_foldl_push _ sibling).trans sameHeader_compacted

/-- What a split into an empty sibling leaves: the live rows of the lower half and those of the
upper half, in two leaves whose other fields are as before. -/
structure SplitInto (full sibling left right : LeafNode) : Prop where
  left_slotted : left.IsSlotted
  right_slotted : right.IsSlotted
  left_header : SameHeader full left
  right_header : SameHeader sibling right
  left_rows : left.rows =
    (full.rows.take (full.slotArray.length / 2)).filter fun r => !r.isDeleted
  right_rows : right.rows =
    (full.rows.drop (full.slotArray.length / 2)).filter fun r => !r.isDeleted

theorem IsSlotted.split_into (hs : self.IsSlotted) {sibling left right : LeafNode}
    (hrecords : sibling.records = []) (hslots : sibling.slotArray = [])
    {r : Except DbError UInt64} (h : split (self, sibling) = some (r, (left, right))) :
    SplitInto self sibling left right ∧
      ((right.rows = [] ∧
          r = .error (.corruptPage "leaf split resulted in empty right sibling")) ∨
        ∃ first rest, right.rows = first :: rest ∧ r = .ok first.rowId) := by
  -- a sibling without slots is vacuously in range, so `split` returns
  have hsib : sibling.InRange := fun s hmem => by
    rw [hslots] at hmem
    cases hmem
  obtain ⟨hfitl, rfl, hfitr, rfl, hres⟩ := hs.split_outcome hsib h
  rw [← rows_compacted hfitr] at hres
  refine ⟨?_, hres⟩
  exact
    { left_slotted := isSlotted_compacted hfitl
      right_slotted := isSlotted_compacted hfitr
      left_header := sameHeader_lowerHalf.trans sameHeader_compacted
      right_header := (sameHeader_receiver hrecords hslots).trans sameHeader_compacted
      left_rows := by rw [rows_compacted hfitl, liveRows, rows_lowerHalf]
      right_rows := by
        rw [rows_compacted hfitr, liveRows, rows_receiver hrecords hslots hs, upperRows] }

/-- **A split keeps every live pair** on one side or the other. -/
theorem SplitInto.live_eq {sibling left right : LeafNode} (h : SplitInto self sibling left right) :
    self.live = left.live ++ right.live := by
  rw [live, live, live, h.left_rows, h.right_rows, livePairs_filter, livePairs_filter,
    ← livePairs_append, List.take_append_drop]

/-! ### Sorted leaves -/

/-- The live pairs of a sorted leaf are sorted. -/
theorem Sorted.live (h : self.Sorted) :
    self.live.Pairwise fun a b => a.1.toNat < b.1.toNat :=
  List.pairwise_map.mpr (h.filter _)

/-- A sorted list stays sorted when a row is put between the smaller and the greater ones. -/
theorem sorted_insert {as bs : List Record} {r : Record}
    (hsorted : (as ++ bs).Pairwise fun a b : Record => a.rowId.toNat < b.rowId.toNat)
    (has : ∀ a ∈ as, a.rowId.toNat < r.rowId.toNat)
    (hbs : ∀ b ∈ bs, r.rowId.toNat < b.rowId.toNat) :
    (as ++ r :: bs).Pairwise fun a b : Record => a.rowId.toNat < b.rowId.toNat := by
  obtain ⟨hpa, hpb, hab⟩ := List.pairwise_append.mp hsorted
  refine List.pairwise_append.mpr ⟨hpa, List.pairwise_cons.mpr ⟨hbs, hpb⟩, ?_⟩
  intro a ha b hb
  rcases List.mem_cons.mp hb with rfl | hb
  · exact has a ha
  · exact hab a ha b hb

/-- **An insert into a sorted leaf** puts the row where it belongs: the rows keep their order,
and the new pair goes between the pairs with smaller and with greater row ids. -/
theorem IsSlotted.insertRecord_sorted (hs : self.IsSlotted) (hsorted : self.Sorted) {k : UInt64}
    {v : List UInt8} {self' : LeafNode} (h : insertRecord k v self = some (.ok (), self')) :
    self'.Sorted := by
  rcases hs.insertRecord_rows h with ⟨as, bs, hrows, hsearch, -, hrows'⟩ |
    ⟨as, dead, bs, hrows, rfl, hdead, hrows'⟩
  · -- the search of a sorted leaf determines the place
    rcases hs.searchKey_sorted hsorted k with ⟨as', -, bs', -, -, -, -, hfound⟩ |
      ⟨as', bs', hcut, has, hbs, hmiss⟩
    · rw [hsearch] at hfound
      cases hfound
    · have hlen : as.length = as'.length := by
        rw [hsearch] at hmiss
        simpa using hmiss
      obtain ⟨rfl, rfl⟩ := List.append_inj (hrows.symm.trans hcut) hlen
      rw [Sorted, hrows']
      rw [Sorted, hrows] at hsorted
      exact sorted_insert hsorted has hbs
  · -- the new row takes the place of the tombstone with its key
    rw [Sorted, hrows] at hsorted
    obtain ⟨hpa, hpb, hab⟩ := List.pairwise_append.mp hsorted
    obtain ⟨hdeadbs, hpbs⟩ := List.pairwise_cons.mp hpb
    rw [Sorted, hrows']
    refine List.Pairwise.filter _ (sorted_insert ?_ ?_ hdeadbs)
    · exact List.pairwise_append.mpr ⟨hpa, hpbs, fun a ha b hb =>
        hab a ha b (List.mem_cons_of_mem _ hb)⟩
    · exact fun a ha => hab a ha dead (List.mem_cons_self ..)

theorem SplitInto.sorted {sibling left right : LeafNode} (h : SplitInto self sibling left right)
    (hsorted : self.Sorted) : left.Sorted ∧ right.Sorted := by
  constructor
  · rw [Sorted, h.left_rows]
    exact (hsorted.sublist (List.take_sublist _ _)).filter _
  · rw [Sorted, h.right_rows]
    exact (hsorted.sublist (List.drop_sublist _ _)).filter _

/-- The rows of a split leaf: everything on the left has a smaller row id than everything on the
right. -/
theorem SplitInto.lt {sibling left right : LeafNode} (h : SplitInto self sibling left right)
    (hsorted : self.Sorted) :
    ∀ a ∈ left.rows, ∀ b ∈ right.rows, a.rowId.toNat < b.rowId.toNat := by
  intro a ha b hb
  rw [h.left_rows] at ha
  rw [h.right_rows] at hb
  rw [Sorted, ← List.take_append_drop (self.slotArray.length / 2) self.rows] at hsorted
  exact (List.pairwise_append.mp hsorted).2.2 a (List.mem_of_mem_filter ha) b
    (List.mem_of_mem_filter hb)

/-- **Lookup in a sorted leaf** finds exactly the live pairs. -/
theorem IsSlotted.getRecord_sorted (hs : self.IsSlotted) (hsorted : self.Sorted) (k : UInt64) :
    ∃ found, self.getRecord k = some found ∧ ∀ v, found = some v ↔ (k, v) ∈ self.live := by
  rcases hs.searchKey_sorted hsorted k with ⟨as, r, bs, hrows, rfl, has, hbs, hsearch⟩ |
    ⟨as, bs, hrows, has, hbs, hsearch⟩
  · have hrow : self.rows[as.length]? = some r := by
      rw [hrows, List.getElem?_append_right (Nat.le_refl _), Nat.sub_self]
      rfl
    obtain ⟨slot, hslot, hrecord⟩ := hs.inRange.slot_of_rows hrow
    -- in a sorted leaf the row that was found is the only one with the key
    have hother : ∀ v, (r.rowId, v) ∈ self.live ↔ r = ⟨r.rowId, v, false⟩ := fun v => by
      rw [live, mem_livePairs, hrows, List.mem_append, List.mem_cons]
      constructor
      · rintro (ha | hr | hb)
        · exact absurd (has _ ha) (Nat.lt_irrefl _)
        · exact hr.symm
        · exact absurd (hbs _ hb) (Nat.lt_irrefl _)
      · exact fun hr => .inr (.inl hr.symm)
    rw [getRecord, hsearch]
    simp only [Option.bind_eq_bind, Option.bind_some, hslot, hrecord]
    obtain ⟨key, data, deleted⟩ := r
    cases deleted with
    | false =>
      refine ⟨some data, rfl, fun v => ?_⟩
      rw [hother]
      simp
    | true =>
      refine ⟨none, rfl, fun v => ?_⟩
      rw [hother]
      simp
  · refine ⟨none, by rw [getRecord, hsearch]; rfl, fun v => ?_⟩
    refine ⟨nofun, fun hmem => ?_⟩
    rw [live, mem_livePairs, hrows, List.mem_append] at hmem
    rcases hmem with ha | hb
    · exact absurd (has _ ha) (Nat.lt_irrefl _)
    · exact absurd (hbs _ hb) (Nat.lt_irrefl _)

end LeafNode

end SmolDb
