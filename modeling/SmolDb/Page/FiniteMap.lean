import SmolDb.Lib.Listing
import SmolDb.Page.LeafOp

/-!
# A leaf as a finite map

What a leaf is for: a partial function from row ids to data. `Refines` runs calls on a leaf beside
the map they stand for and says, call by call, that the answer is the map's answer and that
`get_record` is the map.

The leaf is not this map. `update_record` and `delete_record` find a tombstone by its row id and
take it for a record, although `insert_record` and `get_record` take its row id for absent. A run
refines the map exactly when it `Spares` the tombstones (`leaf_refines_iff`).
-/

namespace SmolDb

open LeafNode Listing

/-- A partial function from row ids to data. -/
abbrev RowMap : Type := UInt64 → Option (List UInt8)

/-- `get_record` is the map. -/
def Represents (self : LeafNode) (m : RowMap) : Prop := ∀ k, self.getRecord k = some (m k)

namespace LeafOp

/-- The payload of an update is shorter than the greatest size of a value. -/
def Short : LeafOp → Prop
  | updateRecord _ payload => payload.length < maxValueSize
  | _ => True

instance (op : LeafOp) : Decidable op.Short := by
  cases op <;> unfold Short <;> infer_instance

/-- What a call that succeeds does to the map. -/
def change (op : LeafOp) (m : RowMap) : RowMap :=
  match op with
  | insertRecord rowId payload => Function.update m rowId (some payload)
  | updateRecord rowId payload => Function.update m rowId (some payload)
  | deleteRecord rowId => Function.update m rowId none
  | compact => m

/-- The map after a call: an error leaves it as it is. -/
def next (op : LeafOp) (m : RowMap) : Except DbError Unit → RowMap
  | .ok () => op.change m
  | .error _ => m

/-- What a call does to the map of a leaf that has tombstones: updating one of them succeeds and
changes nothing. -/
def effect (op : LeafOp) (m : RowMap) : Except DbError Unit → RowMap
  | .ok () =>
    match op with
    | insertRecord rowId payload => Function.update m rowId (some payload)
    | updateRecord rowId payload => Function.update m rowId ((m rowId).map fun _ => payload)
    | deleteRecord rowId => Function.update m rowId none
    | compact => m
  | .error _ => m

/-- The result of a call is the one the map gives. -/
def Answers (m : RowMap) (op : LeafOp) (r : Except DbError Unit) : Prop :=
  match op with
  | insertRecord rowId payload =>
    (r = .ok () → m rowId = none) ∧
      (m rowId ≠ none → payload.length ≤ maxValueSize → r = .error (.duplicateKey rowId))
  | updateRecord rowId _ =>
    (r = .ok () → m rowId ≠ none) ∧ (m rowId = none → r = .error (.keyNotFound rowId))
  | deleteRecord rowId =>
    (r = .ok () → m rowId ≠ none) ∧ (m rowId = none → r = .error (.keyNotFound rowId))
  | compact => True

end LeafOp

/-- The calls that return answer as the map does, and `get_record` is the map throughout. -/
def Refines (m : RowMap) : List LeafOp → LeafNode → Prop
  | [], self => Represents self m
  | op :: ops, self => Represents self m ∧ ∀ r self', op.call self = some (r, self') →
      op.Answers m r ∧ Refines (op.next m r) ops self'

/-- The leaf has a tombstone of the row id. -/
def LeafNode.Buried (self : LeafNode) (rowId : UInt64) : Prop :=
  ∃ record ∈ self.rows, record.rowId = rowId ∧ record.isDeleted = true

/-- The call neither updates nor deletes a tombstone. -/
def LeafOp.Spares (self : LeafNode) : LeafOp → Prop
  | .updateRecord rowId _ => ¬ self.Buried rowId
  | .deleteRecord rowId => ¬ self.Buried rowId
  | _ => True

/-- No call of the run updates or deletes a tombstone. -/
def Spares : List LeafOp → LeafNode → Prop
  | [], _ => True
  | op :: ops, self => op.Spares self ∧ ∀ r self', op.call self = some (r, self') →
      Spares ops self'

/-! ### The invariant -/

/-- The leaf is well-formed and its live pairs list the map. -/
structure Mirrors (leaf : LeafNode) (m : RowMap) : Prop where
  slotted : leaf.IsSlotted
  sorted : leaf.Sorted
  lists : Lists m leaf.live

namespace Mirrors

variable {self self' : LeafNode} {m : RowMap} {k : UInt64} {v : List UInt8}

theorem newEmpty (pageId : PageId) : Mirrors (LeafNode.newEmpty pageId) fun _ => none where
  slotted := isSlotted_newEmpty pageId
  sorted := sorted_newEmpty pageId
  lists := .nil

theorem represents (h : Mirrors self m) : Represents self m := by
  intro k
  obtain ⟨found, hget, hfound⟩ := h.slotted.getRecord_sorted h.sorted k
  rw [hget, h.lists.eq_of_iff hfound]

theorem keyed (hsorted : self.Sorted) : Keyed self.live :=
  hsorted.live.imp fun hlt heq => Nat.ne_of_lt hlt (congrArg UInt64.toNat heq)

/-- A row id without a row is not in the map. -/
theorem eq_none_of_absent (h : Mirrors self m) (hno : ∀ r ∈ self.rows, r.rowId ≠ k) :
    m k = none := by
  rw [h.lists.eq_none_iff]
  intro v hmem
  exact hno _ (mem_livePairs.mp hmem) rfl

/-- The row id of a live row is in the map. -/
theorem ne_none_of_live (h : Mirrors self m) {record : Record} (hrow : record ∈ self.rows)
    (hlive : record.isDeleted = false) : m record.rowId ≠ none := by
  intro hnone
  refine h.lists.eq_none_iff.mp hnone record.data (mem_livePairs.mpr ?_)
  rw [← hlive]
  exact hrow

/-- The row id of a tombstone is not in the map: no other row has it. -/
theorem eq_none_of_buried (h : Mirrors self m) (hb : self.Buried k) : m k = none := by
  obtain ⟨dead, hmem, rfl, hdead⟩ := hb
  rw [h.lists.eq_none_iff]
  intro v hlive
  have hrow := mem_livePairs.mp hlive
  obtain ⟨as, bs, hrows⟩ := List.append_of_mem hmem
  have hsorted := h.sorted
  rw [Sorted, hrows] at hsorted
  obtain ⟨-, hcons, hcross⟩ := List.pairwise_append.mp hsorted
  rw [hrows] at hrow
  rcases List.mem_append.mp hrow with ha | hb
  · exact Nat.lt_irrefl _ (hcross _ ha dead (List.mem_cons_self ..))
  · rcases List.mem_cons.mp hb with heq | hb
    · rw [← heq] at hdead
      cases hdead
    · have hlt := (List.pairwise_cons.mp hcons).1 _ hb
      exact Nat.lt_irrefl _ hlt

/-- On a sorted leaf a search that fails has met every row. -/
theorem absent_of_search (h : Mirrors self m) {i : ℕ}
    (hsearch : self.searchKey k = some (.error i)) : ∀ r ∈ self.rows, r.rowId ≠ k :=
  h.slotted.absent_of_search h.sorted hsearch

/-- A search on a tombstone finds it. -/
theorem found_of_buried (h : Mirrors self m) (hb : self.Buried k) :
    ∃ i slot record, self.searchKey k = some (.ok i) ∧ self.slotArray[i]? = some slot ∧
      self.recordAt slot = some record := by
  rcases h.slotted.inRange.searchKey_isSome k with ⟨i, record, hsearch, hrow⟩ | ⟨i, -, hsearch⟩
  · obtain ⟨slot, hslot, hrecord⟩ := h.slotted.inRange.slot_of_rows hrow
    exact ⟨i, slot, record, hsearch, hslot, hrecord⟩
  · obtain ⟨dead, hmem, hid, -⟩ := hb
    exact absurd hid (h.absent_of_search hsearch dead hmem)

/-- The row a search finds is live unless the row id is buried. -/
theorem live_of_found (hs : self.IsSlotted) {i : ℕ} {record : Record}
    (hsearch : self.searchKey k = some (.ok i)) (hrow : self.rows[i]? = some record)
    (hb : ¬ self.Buried k) : record.isDeleted = false := by
  cases hdel : record.isDeleted with
  | false => rfl
  | true =>
    exact absurd ⟨record, List.mem_of_getElem? hrow, hs.rowId_of_search hsearch hrow, hdel⟩ hb

/-! ### One call -/

theorem insertRecord (h : Mirrors self m) {r : Except DbError Unit}
    (hcall : LeafNode.insertRecord k v self = some (r, self')) :
    (LeafOp.insertRecord k v).Answers m r ∧
      Mirrors self' ((LeafOp.insertRecord k v).next m r) := by
  cases r with
  | ok =>
    have hsorted := h.slotted.insertRecord_sorted h.sorted hcall
    obtain ⟨as, bs, hlive, hlive'⟩ := h.slotted.insertRecord_live hcall
    have hkey := keyed hsorted
    rw [hlive'] at hkey
    have hlists := h.lists
    rw [hlive] at hlists
    -- the leaf after the call still lists every key once, and `k` is the new one
    have hnone : m k = none := hlists.eq_none_iff.mpr fun w => hkey.not_mem w
    refine ⟨⟨fun _ => hnone, fun hsome => absurd hnone hsome⟩, ?_⟩
    exact
      { slotted := (keeps_insertRecord k v).slotted h.slotted hcall
        sorted := hsorted
        lists := by
          rw [hlive']
          exact hlists.put hkey }
  | error e =>
    rw [(keeps_insertRecord k v).unchanged h.slotted hcall]
    refine ⟨⟨nofun, fun hsome hlen => ?_⟩, h⟩
    -- a short payload is refused for a live key, or for want of room, which needs a new key
    cases h.slotted.insertRecord_outcome hcall with
    | tooLarge hlong => exact absurd hlen (Nat.not_le_of_lt hlong)
    | duplicate => rfl
    | full _ hsearch => exact absurd (h.eq_none_of_absent (h.absent_of_search hsearch)) hsome

theorem updateRecord (h : Mirrors self m) (hshort : v.length < maxValueSize)
    (hb : ¬ self.Buried k) {r : Except DbError Unit}
    (hcall : LeafNode.updateRecord k v self = some (r, self')) :
    (LeafOp.updateRecord k v).Answers m r ∧
      Mirrors self' ((LeafOp.updateRecord k v).next m r) := by
  have hslotted := (keeps_updateRecord k v).slotted h.slotted hcall
  have hsorted := (LeafOp.updateRecord k v).sorted_call h.slotted h.sorted hcall
  cases h.slotted.updateRecord_outcome hcall with
  | tooLarge hlong => exact absurd hshort (Nat.not_lt_of_le hlong)
  | notFound _ hsearch =>
    have hnone := h.eq_none_of_absent (h.absent_of_search hsearch)
    exact ⟨⟨nofun, fun _ => rfl⟩, h⟩
  | @updated i slot record _ hsearch hrow hslot =>
    have hlive := live_of_found h.slotted hsearch hrow hb
    obtain ⟨as, bs, hrows, rfl, hrows'⟩ := h.slotted.overwrite_rows hsearch hrow hslot
      { record with data := v }
    have hsome := h.ne_none_of_live (List.mem_of_getElem? hrow) hlive
    refine ⟨⟨fun _ => hsome, fun hnone => absurd hnone hsome⟩, hslotted, hsorted, ?_⟩
    -- the pair of the live row changes its value, the others stay
    obtain ⟨key, data, deleted⟩ := record
    obtain rfl : deleted = false := hlive
    have hkey := keyed h.sorted
    have hkey' := keyed hsorted
    have hlists := h.lists
    simp only [live, hrows, hrows', livePairs_append, livePairs_cons_live]
      at hkey hkey' hlists ⊢
    exact hlists.replace hkey hkey'

theorem deleteRecord (h : Mirrors self m) (hb : ¬ self.Buried k) {r : Except DbError Unit}
    (hcall : LeafNode.deleteRecord k self = some (r, self')) :
    (LeafOp.deleteRecord k).Answers m r ∧ Mirrors self' ((LeafOp.deleteRecord k).next m r) := by
  have hslotted := (keeps_deleteRecord k).slotted h.slotted hcall
  have hsorted := (LeafOp.deleteRecord k).sorted_call h.slotted h.sorted hcall
  cases h.slotted.deleteRecord_outcome hcall with
  | notFound hsearch =>
    have hnone := h.eq_none_of_absent (h.absent_of_search hsearch)
    exact ⟨⟨nofun, fun _ => rfl⟩, h⟩
  | @deleted i slot record hsearch hrow hslot =>
    have hlive := live_of_found h.slotted hsearch hrow hb
    obtain ⟨as, bs, hrows, rfl, hrows'⟩ := h.slotted.overwrite_rows hsearch hrow hslot
      { record with isDeleted := true }
    have hsome := h.ne_none_of_live (List.mem_of_getElem? hrow) hlive
    refine ⟨⟨fun _ => hsome, fun hnone => absurd hnone hsome⟩, hslotted, hsorted, ?_⟩
    -- the pair of the live row goes
    obtain ⟨key, data, deleted⟩ := record
    obtain rfl : deleted = false := hlive
    have hkey := keyed h.sorted
    have hlists := h.lists
    have hdead : livePairs (⟨key, data, true⟩ :: bs) = livePairs bs := livePairs_cons_dead rfl bs
    simp only [live, hrows, hrows', livePairs_append, livePairs_cons_live, hdead]
      at hkey hlists ⊢
    exact hlists.remove hkey

/-- **One call.** A call that spares the tombstones answers as the map does and keeps the
invariant. -/
theorem call (h : Mirrors self m) {op : LeafOp} (hshort : op.Short) (hsp : op.Spares self)
    {r : Except DbError Unit} (hcall : op.call self = some (r, self')) :
    op.Answers m r ∧ Mirrors self' (op.next m r) := by
  cases op with
  | insertRecord k v => exact h.insertRecord hcall
  | updateRecord k v => exact h.updateRecord hshort hsp hcall
  | deleteRecord k => exact h.deleteRecord hsp hcall
  | compact =>
    obtain ⟨rfl, hcompact⟩ := LeafOp.compact_call hcall
    refine ⟨trivial, LeafOp.keeps_compact.slotted h.slotted hcall,
      LeafOp.compact.sorted_call h.slotted h.sorted hcall, ?_⟩
    rw [live, h.slotted.compact_rows hcompact, liveRows, livePairs_filter]
    exact h.lists

/-- The row a search finds is the tombstone: no other row has its row id. -/
theorem dead_of_found (h : Mirrors self m) {i : ℕ} {record : Record}
    (hsearch : self.searchKey k = some (.ok i)) (hrow : self.rows[i]? = some record)
    (hb : self.Buried k) : record.isDeleted = true := by
  by_contra hlive
  have hsome := h.ne_none_of_live (List.mem_of_getElem? hrow) (Bool.eq_false_iff.mpr hlive)
  rw [h.slotted.rowId_of_search hsearch hrow] at hsome
  exact hsome (h.eq_none_of_buried hb)

/-- Writing over a tombstone with a tombstone is not seen. -/
theorem live_rebury (hs : self.IsSlotted) {i : ℕ} {slot : UInt16} {record : Record}
    (hsearch : self.searchKey k = some (.ok i)) (hrow : self.rows[i]? = some record)
    (hslot : self.slotArray[i]? = some slot) (hdead : record.isDeleted = true) (record' : Record)
    (hdead' : record'.isDeleted = true) : (self.overwrite slot record').live = self.live := by
  obtain ⟨as, bs, hrows, -, hrows'⟩ := hs.overwrite_rows hsearch hrow hslot record'
  rw [live, live, hrows, hrows', livePairs_append, livePairs_append, livePairs_cons_dead hdead,
    livePairs_cons_dead hdead']

/-- **One call, tombstones included.** -/
theorem effect (h : Mirrors self m) {op : LeafOp} {r : Except DbError Unit}
    (hcall : op.call self = some (r, self')) : Mirrors self' (op.effect m r) := by
  have hslotted := (LeafOp.keeps_call op).slotted h.slotted hcall
  have hsorted := op.sorted_call h.slotted h.sorted hcall
  cases op with
  | insertRecord k v =>
    have hnext := (h.insertRecord hcall).2
    cases r with
    | ok => exact hnext
    | error e => exact hnext
  | updateRecord k v =>
    cases h.slotted.updateRecord_outcome hcall with
    | tooLarge | notFound => exact h
    | @updated i slot record hshort hsearch hrow hslot =>
      by_cases hb : self.Buried k
      · have hdead := h.dead_of_found hsearch hrow hb
        refine ⟨hslotted, hsorted, ?_⟩
        rw [live_rebury h.slotted hsearch hrow hslot hdead { record with data := v } hdead]
        show Lists (Function.update m k ((m k).map fun _ => v)) self.live
        rw [h.eq_none_of_buried hb, Option.map_none, ← h.eq_none_of_buried hb,
          Function.update_eq_self]
        exact h.lists
      · obtain ⟨hanswers, hnext⟩ := h.updateRecord hshort hb hcall
        obtain ⟨old, hold⟩ := Option.ne_none_iff_exists'.mp (hanswers.1 rfl)
        show Mirrors _ (Function.update m k ((m k).map fun _ => v))
        rw [hold]
        exact hnext
  | deleteRecord k =>
    cases h.slotted.deleteRecord_outcome hcall with
    | notFound => exact h
    | @deleted i slot record hsearch hrow hslot =>
      by_cases hb : self.Buried k
      · have hdead := h.dead_of_found hsearch hrow hb
        refine ⟨hslotted, hsorted, ?_⟩
        rw [live_rebury h.slotted hsearch hrow hslot hdead { record with isDeleted := true } rfl]
        show Lists (Function.update m k none) self.live
        rw [← h.eq_none_of_buried hb, Function.update_eq_self]
        exact h.lists
      · exact (h.deleteRecord hb hcall).2
  | compact =>
    have hnext := (h.call (by trivial) (by trivial) hcall).2
    cases r with
    | ok => exact hnext
    | error e => exact hnext

/-- A call that does not spare the tombstones returns `Ok` for a row id that is not in the map. -/
theorem not_answers (h : Mirrors self m) {op : LeafOp} (hshort : op.Short)
    (hsp : ¬ op.Spares self) : ∃ r self', op.call self = some (r, self') ∧ ¬ op.Answers m r := by
  cases op with
  | insertRecord k v => exact absurd trivial hsp
  | compact => exact absurd trivial hsp
  -- a buried record is found by the search and rewritten: the call answers `ok` for no row
  | updateRecord k v =>
    have hb : self.Buried k := not_not.mp hsp
    obtain ⟨i, slot, record, hsearch, hslot, hrecord⟩ := h.found_of_buried hb
    refine ⟨.ok (), self.overwrite slot { record with data := v }, ?_,
      fun hans => hans.1 rfl (h.eq_none_of_buried hb)⟩
    show LeafNode.updateRecord k v self = _
    unfold LeafNode.updateRecord
    rw [if_neg (Nat.not_le_of_lt hshort), hsearch]
    simp only [Option.bind_eq_bind, Option.bind_some, hslot, hrecord]
    rfl
  | deleteRecord k =>
    have hb : self.Buried k := not_not.mp hsp
    obtain ⟨i, slot, record, hsearch, hslot, hrecord⟩ := h.found_of_buried hb
    refine ⟨.ok (), self.overwrite slot { record with isDeleted := true }, ?_,
      fun hans => hans.1 rfl (h.eq_none_of_buried hb)⟩
    show LeafNode.deleteRecord k self = _
    unfold LeafNode.deleteRecord
    rw [hsearch]
    simp only [Option.bind_eq_bind, Option.bind_some, hslot, hrecord]
    rfl

end Mirrors

/-! ### Runs -/

/-- A run from a leaf that mirrors the map refines it exactly when it spares the tombstones. -/
theorem Mirrors.refines_iff {self : LeafNode} {m : RowMap} (h : Mirrors self m)
    (ops : List LeafOp) (hshort : ∀ op ∈ ops, op.Short) :
    Refines m ops self ↔ Spares ops self := by
  induction ops generalizing self m with
  | nil => exact ⟨fun _ => trivial, fun _ => h.represents⟩
  | cons op ops ih =>
    have hop := hshort op (List.mem_cons_self ..)
    have hops := fun op' hmem => hshort op' (List.mem_cons_of_mem _ hmem)
    -- the first operation that touches a buried row answers wrongly
    by_cases hsp : op.Spares self
    · constructor
      · rintro ⟨-, hcalls⟩
        refine ⟨hsp, fun r self' hcall => ?_⟩
        have hnext := (h.call hop hsp hcall).2
        exact (ih hnext hops).mp (hcalls r self' hcall).2
      · rintro ⟨-, hcalls⟩
        refine ⟨h.represents, fun r self' hcall => ?_⟩
        obtain ⟨hans, hnext⟩ := h.call hop hsp hcall
        exact ⟨hans, (ih hnext hops).mpr (hcalls r self' hcall)⟩
    · obtain ⟨r, self', hcall, hno⟩ := h.not_answers hop hsp
      exact ⟨fun hr => absurd (hr.2 r self' hcall).1 hno, fun hs => absurd hs.1 hsp⟩

/-- **A leaf behaves as a finite map** on exactly the runs that neither update nor delete a
tombstone. -/
theorem leaf_refines_iff (pageId : PageId) (ops : List LeafOp) (hshort : ∀ op ∈ ops, op.Short) :
    Refines (fun _ => none) ops (LeafNode.newEmpty pageId) ↔
      Spares ops (LeafNode.newEmpty pageId) :=
  (Mirrors.newEmpty pageId).refines_iff ops hshort

theorem leaf_refines_revived :
    Refines (fun _ => none)
        [.insertRecord 1 [7], .updateRecord 1 [8], .deleteRecord 1, .insertRecord 1 [9]]
        (LeafNode.newEmpty ⟨4096⟩) ↔
      Spares [.insertRecord 1 [7], .updateRecord 1 [8], .deleteRecord 1, .insertRecord 1 [9]]
        (LeafNode.newEmpty ⟨4096⟩) :=
  leaf_refines_iff ⟨4096⟩ _ (by decide)

/-- Deleting a record twice succeeds twice. -/
theorem deletedTwice_not_refines :
    ¬ Refines (fun _ => none) [.insertRecord 1 [7], .deleteRecord 1, .deleteRecord 1]
      (LeafNode.newEmpty ⟨4096⟩) := by
  intro h
  have h₁ := (h.2 (.ok ()) _ rfl).2
  have h₂ := (h₁.2 (.ok ()) _ rfl).2
  have h₃ := (h₂.2 (.ok ()) _ rfl).1
  exact h₃.1 rfl rfl

end SmolDb
