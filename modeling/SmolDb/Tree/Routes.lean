import SmolDb.Page.FiniteMap
import SmolDb.Tree.Lookup

/-!
# Where a row belongs in a tree

The routing nodes of a tree send every row id to one leaf (`Tree.leafAt`), whatever the leaves
hold. So a tree is a map that is cut into parts, one for each leaf page: a leaf has to mirror the
rows that are routed to its page, and no others (`Tree.Mirrors`).

Inserting and deleting exchange leaves and leave the routing nodes alone. `Tree.remap` exchanges
the leaves of a tree, and the rows go where they went before.
-/

namespace SmolDb

open LeafNode Listing

namespace InternalNode

variable {self : InternalNode}

/-- The place among the children to which a key is routed. -/
def position (self : InternalNode) (targetKey : UInt64) : Fin (self.slotArray.length + 1) :=
  ⟨(self.rows.takeWhile fun entry => decide (entry.key ≤ targetKey)).length, by
    rw [← length_rows]
    exact Nat.lt_succ_of_le (List.takeWhile_prefix _).length_le⟩

/-- In a sorted node the keys before the place are at most the target, the others are greater. -/
theorem Sorted.position_bounds (h : self.Sorted) (targetKey : UInt64) :
    (∀ j e, j < (self.position targetKey).val → self.rows[j]? = some e → e.key ≤ targetKey) ∧
      ∀ j e, (self.position targetKey).val ≤ j → self.rows[j]? = some e → targetKey < e.key := by
  let low := self.rows.takeWhile fun entry => decide (entry.key ≤ targetKey)
  let high := self.rows.dropWhile fun entry => decide (entry.key ≤ targetKey)
  have hcut : self.rows = low ++ high := (List.takeWhile_append_dropWhile ..).symm
  constructor
  · intro j e hj he
    rw [hcut, List.getElem?_append_left hj] at he
    have hall := List.all_takeWhile (p := fun entry : IndexEntry => decide (entry.key ≤ targetKey))
      (l := self.rows)
    exact of_decide_eq_true (List.all_eq_true.mp hall e (List.mem_of_getElem? he))
  · intro j e hj he
    rw [hcut, List.getElem?_append_right hj] at he
    have hmem : e ∈ high := List.mem_of_getElem? he
    rw [Sorted, hcut] at h
    -- the first key of the rest is greater, and the keys behind it are greater still
    cases hhigh : high with
    | nil =>
      rw [hhigh] at hmem
      cases hmem
    | cons first rest =>
      have hfirst : targetKey < first.key := by
        have hno := List.head_dropWhile_not (fun entry : IndexEntry =>
          decide (entry.key ≤ targetKey)) (l := self.rows) (by
            show high ≠ []
            rw [hhigh]
            exact List.cons_ne_nil _ _)
        have hhead : high.head (by rw [hhigh]; exact List.cons_ne_nil _ _) = first := by
          simp only [hhigh, List.head_cons]
        rw [show (self.rows.dropWhile fun entry => decide (entry.key ≤ targetKey)).head _ = first
          from hhead] at hno
        exact UInt64.not_le.mp (of_decide_eq_false hno)
      rw [hhigh] at hmem h
      rcases List.mem_cons.mp hmem with rfl | hrest
      · exact hfirst
      · have hlt := (List.pairwise_cons.mp (List.pairwise_append.mp h).2.1).1 e hrest
        exact UInt64.lt_trans hfirst (UInt64.lt_iff_toNat_lt.mpr hlt)

/-- **Routing goes to the place.** -/
theorem IsSlotted.routeKey_position (hs : self.IsSlotted) (hsorted : self.Sorted)
    (targetKey : UInt64) :
    self.routeKey targetKey = some (.ok (self.childAt (self.position targetKey).val)) := by
  obtain ⟨i, hi, hroute, hlow, hhigh⟩ := hs.routeKey_sorted hsorted targetKey
  obtain ⟨hlow', hhigh'⟩ := hsorted.position_bounds targetKey
  have hplace : (self.position targetKey).val ≤ self.rows.length := by
    rw [length_rows]
    exact Nat.le_of_lt_succ (self.position targetKey).isLt
  have hentry : ∀ j, j < self.rows.length → ∃ e, self.rows[j]? = some e := fun j hj =>
    ⟨_, List.getElem?_eq_getElem hj⟩
  -- an entry between the two would be on both sides of the target
  obtain rfl : i = (self.position targetKey).val := by
    rcases Nat.lt_trichotomy i (self.position targetKey).val with hlt | heq | hgt
    · obtain ⟨e, he⟩ := hentry i (Nat.lt_of_lt_of_le hlt hplace)
      exact absurd (hlow' i e hlt he) (UInt64.not_le.mpr (hhigh i e (Nat.le_refl _) he))
    · exact heq
    · obtain ⟨e, he⟩ := hentry _ (Nat.lt_of_lt_of_le hgt hi)
      exact absurd (hlow _ e hgt he) (UInt64.not_le.mpr (hhigh' _ e (Nat.le_refl _) he))
  exact hroute

end InternalNode

/-! ### The nodes of a tree -/

namespace Tree

/-- The tree has the node on the page. -/
def HasNode (id : PageId) (node : BTreeNode) : Tree → Prop
  | leaf pageId found => id = pageId ∧ node = .leaf found
  | internal pageId inner child =>
    (id = pageId ∧ node = .internal inner) ∨ ∃ i, (child i).HasNode id node

/-- The tree has the leaf on the page. -/
def HasLeaf (id : PageId) (leaf : LeafNode) (t : Tree) : Prop := t.HasNode id (.leaf leaf)

/-- No leaf page is under two children of a node. -/
def Distinct : Tree → Prop
  | leaf _ _ => True
  | internal _ _ child =>
    (∀ i j id a b, (child i).HasLeaf id a → (child j).HasLeaf id b → i = j) ∧
      ∀ i, (child i).Distinct

/-- The leaf to which a row id is routed, with its page. -/
def leafAt (rowId : UInt64) : Tree → PageId × LeafNode
  | leaf pageId node => (pageId, node)
  | internal _ node child => (child (node.position rowId)).leafAt rowId

/-- The page to which a row id is routed. -/
def route (t : Tree) (rowId : UInt64) : PageId := (t.leafAt rowId).1

/-- The number of pages on the way to the leaf to which a row id is routed. -/
def depthAt (rowId : UInt64) : Tree → ℕ
  | leaf _ _ => 1
  | internal _ node child => (child (node.position rowId)).depthAt rowId + 1

/-- The tree with other leaves. -/
def remap (f : PageId → LeafNode → LeafNode) : Tree → Tree
  | leaf pageId node => leaf pageId (f pageId node)
  | internal pageId node child => internal pageId node fun i => (child i).remap f

variable {t : Tree} {f : PageId → LeafNode → LeafNode} {id : PageId} {node : BTreeNode}
  {leaf : LeafNode} {rowId : UInt64} {data : List UInt8} {m : RowMap}

theorem hasLeaf_leafAt (t : Tree) (rowId : UInt64) :
    t.HasLeaf (t.leafAt rowId).1 (t.leafAt rowId).2 := by
  induction t with
  | leaf pageId node => exact ⟨rfl, rfl⟩
  | internal pageId node child ih => exact .inr ⟨_, ih _⟩

theorem holds_iff :
    t.Holds rowId data ↔ ∃ id leaf, t.HasLeaf id leaf ∧ (rowId, data) ∈ leaf.live := by
  induction t with
  | leaf pageId node =>
    constructor
    · exact fun hmem => ⟨_, _, ⟨rfl, rfl⟩, hmem⟩
    · rintro ⟨id, leaf, ⟨-, hleaf⟩, hmem⟩
      cases hleaf
      exact hmem
  | internal pageId node child ih =>
    constructor
    · rintro ⟨i, hi⟩
      obtain ⟨id, leaf, hleaf, hmem⟩ := (ih i).mp hi
      exact ⟨id, leaf, .inr ⟨i, hleaf⟩, hmem⟩
    · rintro ⟨id, leaf, ⟨-, hleaf⟩ | ⟨i, hleaf⟩, hmem⟩
      · cases hleaf
      · exact ⟨i, (ih i).mpr ⟨id, leaf, hleaf, hmem⟩⟩

theorem stored_iff {φ : Type} {p : BufferPool φ} :
    t.Stored p ↔ ∀ id node, t.HasNode id node → p.Has id node.bare := by
  induction t with
  | leaf pageId node =>
    refine ⟨?_, fun h => h _ _ ⟨rfl, rfl⟩⟩
    rintro h id node' ⟨rfl, rfl⟩
    exact h
  | internal pageId node child ih =>
    constructor
    · rintro ⟨hroot, hchild⟩ id node' (⟨rfl, rfl⟩ | ⟨i, hi⟩)
      · exact hroot
      · exact (ih i).mp (hchild i) id node' hi
    · intro h
      exact ⟨h _ _ (.inl ⟨rfl, rfl⟩), fun i => (ih i).mpr fun id node' hi =>
        h id node' (.inr ⟨i, hi⟩)⟩

theorem WellFormed.page (h : t.WellFormed) (hnode : t.HasNode id node) :
    id.Aligned ∧ id.val ≠ 0 := by
  induction t with
  | leaf pageId leaf =>
    obtain ⟨rfl, -⟩ := hnode
    exact ⟨h.1, h.2.1⟩
  | internal pageId inner child ih =>
    rcases hnode with ⟨rfl, -⟩ | ⟨i, hi⟩
    · exact ⟨h.1, h.2.1⟩
    · exact ih i (h.2.2.2.2.2 i) hi

theorem WellFormed.leaf_sorted (h : t.WellFormed) (hleaf : t.HasLeaf id leaf) : leaf.Sorted := by
  induction t with
  | leaf pageId node =>
    obtain ⟨-, hnode⟩ := hleaf
    cases hnode
    exact h.2.2
  | internal pageId inner child ih =>
    rcases hleaf with ⟨-, hnode⟩ | ⟨i, hi⟩
    · cases hnode
    · exact ih i (h.2.2.2.2.2 i) hi

/-- **A row is in the leaf to which it is routed.** -/
theorem WellFormed.route_eq (h : t.WellFormed) (hleaf : t.HasLeaf id leaf)
    (hmem : (rowId, data) ∈ leaf.live) : t.route rowId = id := by
  induction t with
  | leaf pageId node => exact hleaf.1.symm
  | internal pageId inner child ih =>
    rcases hleaf with ⟨-, hnode⟩ | ⟨i, hi⟩
    · cases hnode
    -- the bounds of the subtrees leave the place of the key only
    obtain ⟨hlow, hhigh⟩ := h.2.2.1.position_bounds rowId
    have hholds := holds_iff.mpr ⟨id, leaf, hi, hmem⟩
    obtain ⟨hlower, hupper⟩ := h.2.2.2.2.1 i rowId data hholds
    have hentry : ∀ k, k < inner.slotArray.length → ∃ e, inner.rows[k]? = some e := by
      intro k hk
      rw [← InternalNode.length_rows] at hk
      exact ⟨_, List.getElem?_eq_getElem hk⟩
    have hplace := (inner.position rowId).isLt
    have hilt := i.isLt
    obtain rfl : inner.position rowId = i := by
      rcases Nat.lt_trichotomy i.val (inner.position rowId).val with hlt | heq | hgt
      · obtain ⟨e, he⟩ := hentry i.val (by omega)
        exact absurd (hlow i.val e hlt he) (UInt64.not_le.mpr (hupper e he))
      · exact Fin.ext heq.symm
      · obtain ⟨e, he⟩ := hentry (i.val - 1) (by omega)
        exact absurd (hlower (i.val - 1) e (by omega) he)
          (UInt64.not_le.mpr (hhigh (i.val - 1) e (by omega) he))
    exact ih _ (h.2.2.2.2.2 _) hi

/-! ### The parts of a map -/

end Tree

/-- The part of a map that is routed to a page. -/
def RowMap.within (m : RowMap) (route : UInt64 → PageId) (id : PageId) : RowMap := fun k =>
  if route k = id then m k else none

/-- The rows the call is about are routed to the page. -/
def LeafOp.At (route : UInt64 → PageId) (id : PageId) : LeafOp → Prop
  | .insertRecord rowId _ | .updateRecord rowId _ | .deleteRecord rowId => route rowId = id
  | .compact => True

namespace RowMap

variable {m : RowMap} {route : UInt64 → PageId} {id id' : PageId} {k : UInt64}
  {o : Option (List UInt8)}

theorem within_self (hk : route k = id) : m.within route id k = m k := if_pos hk

theorem within_update (hk : route k = id) :
    RowMap.within (Function.update m k o) route id = Function.update (m.within route id) k o := by
  funext k'
  unfold RowMap.within
  by_cases heq : k' = k
  · subst heq
    rw [if_pos hk, Function.update_self, Function.update_self]
  · rw [Function.update_of_ne heq, Function.update_of_ne heq]

theorem within_update_of_ne (hk : route k ≠ id) :
    RowMap.within (Function.update m k o) route id = m.within route id := by
  funext k'
  unfold RowMap.within
  by_cases heq : k' = k
  · subst heq
    rw [if_neg hk, if_neg hk]
  · rw [Function.update_of_ne heq]

/-- What a call does to a map it does to the part of its page. -/
theorem within_effect {op : LeafOp} (hat : op.At route id) (r : Except DbError Unit) :
    (op.effect m r).within route id = op.effect (m.within route id) r := by
  cases r with
  | error e => rfl
  | ok =>
    cases op with
    | insertRecord k v => exact within_update hat
    | updateRecord k v =>
      show RowMap.within (Function.update m k ((m k).map fun _ => v)) route id =
        Function.update (m.within route id) k ((m.within route id k).map fun _ => v)
      rw [within_update hat, within_self hat]
    | deleteRecord k => exact within_update hat
    | compact => rfl

/-- The parts of the other pages stay. -/
theorem within_effect_of_ne {op : LeafOp} (hat : op.At route id) (hne : id' ≠ id)
    (r : Except DbError Unit) : (op.effect m r).within route id' = m.within route id' := by
  have hother : ∀ k, route k = id → route k ≠ id' := fun k hk heq => hne (heq.symm.trans hk)
  cases r with
  | error e => rfl
  | ok =>
    cases op with
    | insertRecord k v => exact within_update_of_ne (hother k hat)
    | updateRecord k v => exact within_update_of_ne (hother k hat)
    | deleteRecord k => exact within_update_of_ne (hother k hat)
    | compact => rfl

end RowMap

namespace Tree

variable {t : Tree} {f : PageId → LeafNode → LeafNode} {id : PageId} {node : BTreeNode}
  {leaf : LeafNode} {rowId : UInt64} {data : List UInt8} {m : RowMap}

/-- Every leaf mirrors the part of the map that is routed to its page. -/
def Mirrors (t : Tree) (m : RowMap) : Prop :=
  ∀ id leaf, t.HasLeaf id leaf → SmolDb.Mirrors leaf (m.within t.route id)

/-- A page has one leaf. -/
theorem Distinct.unique (h : t.Distinct) {leaf' : LeafNode} (hleaf : t.HasLeaf id leaf)
    (hleaf' : t.HasLeaf id leaf') : leaf = leaf' := by
  induction t with
  | leaf pageId found =>
    cases hleaf.2
    cases hleaf'.2
    rfl
  | internal pageId inner child ih =>
    rcases hleaf with ⟨-, hnode⟩ | ⟨i, hi⟩
    · cases hnode
    rcases hleaf' with ⟨-, hnode⟩ | ⟨j, hj⟩
    · cases hnode
    obtain rfl := h.1 i j id leaf leaf' hi hj
    exact ih i (h.2 i) hi hj

/-- **A well-formed tree mirrors the map of its records.** -/
theorem WellFormed.mirrors (h : t.WellFormed)
    (hslotted : ∀ id leaf, t.HasLeaf id leaf → leaf.IsSlotted) (hdistinct : t.Distinct)
    (hm : ∀ k d, m k = some d ↔ t.Holds k d) : t.Mirrors m := by
  intro id leaf hleaf
  refine ⟨hslotted id leaf hleaf, h.leaf_sorted hleaf, fun k d => ?_⟩
  unfold RowMap.within
  constructor
  · intro hsome
    split at hsome
    · next hroute =>
      obtain ⟨id', leaf', hleaf', hmem⟩ := holds_iff.mp ((hm k d).mp hsome)
      obtain rfl : id' = id := (h.route_eq hleaf' hmem).symm.trans hroute
      rwa [hdistinct.unique hleaf hleaf']
    · cases hsome
  · intro hmem
    rw [if_pos (h.route_eq hleaf hmem)]
    exact (hm k d).mpr (holds_iff.mpr ⟨id, leaf, hleaf, hmem⟩)

/-- A lookup in the leaf to which the row is routed returns what the map says. -/
theorem Mirrors.answer {record : Option (List UInt8)} (h : t.Mirrors m)
    (hget : (t.leafAt rowId).2.getRecord rowId = some record) : record = m rowId := by
  have hanswer := (h _ _ (hasLeaf_leafAt t rowId)).represents rowId
  rw [RowMap.within_self (show t.route rowId = (t.leafAt rowId).1 from rfl)] at hanswer
  exact Option.some.inj (hget.symm.trans hanswer)

/-! ### Other leaves -/

theorem pageId_remap (t : Tree) : (t.remap f).pageId = t.pageId := by
  cases t <;> rfl

theorem leafAt_remap (t : Tree) (rowId : UInt64) :
    (t.remap f).leafAt rowId = ((t.leafAt rowId).1, f (t.leafAt rowId).1 (t.leafAt rowId).2) := by
  induction t with
  | leaf pageId found => rfl
  | internal pageId inner child ih => exact ih _

theorem route_remap (t : Tree) : (t.remap f).route = t.route := by
  funext rowId
  unfold route
  rw [leafAt_remap]

theorem depthAt_remap (t : Tree) (rowId : UInt64) :
    (t.remap f).depthAt rowId = t.depthAt rowId := by
  induction t with
  | leaf pageId found => rfl
  | internal pageId inner child ih => exact congrArg (· + 1) (ih _)

theorem remap_self (t : Tree) : t.remap (fun _ found => found) = t := by
  induction t with
  | leaf pageId found => rfl
  | internal pageId inner child ih => exact congrArg (internal pageId inner) (funext ih)

theorem remap_remap (t : Tree) (g : PageId → LeafNode → LeafNode) :
    (t.remap f).remap g = t.remap fun id found => g id (f id found) := by
  induction t with
  | leaf pageId found => rfl
  | internal pageId inner child ih => exact congrArg (internal pageId inner) (funext ih)

theorem hasLeaf_remap :
    (t.remap f).HasLeaf id leaf ↔ ∃ old, t.HasLeaf id old ∧ leaf = f id old := by
  induction t with
  | leaf pageId found =>
    constructor
    · rintro ⟨rfl, hleaf⟩
      cases hleaf
      exact ⟨found, ⟨rfl, rfl⟩, rfl⟩
    · rintro ⟨old, ⟨rfl, hold⟩, rfl⟩
      cases hold
      exact ⟨rfl, rfl⟩
  | internal pageId inner child ih =>
    constructor
    · rintro (⟨-, hnode⟩ | ⟨i, hi⟩)
      · cases hnode
      · obtain ⟨old, hold, heq⟩ := (ih i).mp hi
        exact ⟨old, .inr ⟨i, hold⟩, heq⟩
    · rintro ⟨old, ⟨-, hnode⟩ | ⟨i, hi⟩, heq⟩
      · cases hnode
      · exact .inr ⟨i, (ih i).mpr ⟨old, hi, heq⟩⟩

theorem hasInternal_remap {inner : InternalNode} :
    (t.remap f).HasNode id (.internal inner) ↔ t.HasNode id (.internal inner) := by
  induction t with
  | leaf pageId found => exact ⟨fun h => absurd h.2 nofun, fun h => absurd h.2 nofun⟩
  | internal pageId inner' child ih => exact or_congr_right (exists_congr ih)

theorem Distinct.remap (h : t.Distinct) : (t.remap f).Distinct := by
  induction t with
  | leaf pageId found => trivial
  | internal pageId inner child ih =>
    refine ⟨fun i j id a b ha hb => ?_, fun i => ih i (h.2 i)⟩
    obtain ⟨old, hold, -⟩ := hasLeaf_remap.mp ha
    obtain ⟨old', hold', -⟩ := hasLeaf_remap.mp hb
    exact h.1 i j id old old' hold hold'

/-- **An exchange of leaves keeps a tree in order** when the new leaves are sorted and have only
rows that are routed to them. -/
theorem WellFormed.remap (h : t.WellFormed) (hdistinct : t.Distinct)
    (hsorted : ∀ id leaf, t.HasLeaf id leaf → (f id leaf).Sorted)
    (hroute : ∀ id leaf, t.HasLeaf id leaf → ∀ pair ∈ (f id leaf).live, t.route pair.1 = id) :
    (t.remap f).WellFormed := by
  induction t with
  | leaf pageId found => exact ⟨h.1, h.2.1, hsorted _ _ ⟨rfl, rfl⟩⟩
  | internal pageId inner child ih =>
    -- a row of a child is routed to this child
    have hplace : ∀ i id leaf, (child i).HasLeaf id leaf → ∀ pair ∈ (f id leaf).live,
        inner.position pair.1 = i := by
      intro i id leaf hleaf pair hpair
      have hid := hroute id leaf (.inr ⟨i, hleaf⟩) pair hpair
      have hthere := hasLeaf_leafAt (child (inner.position pair.1)) pair.1
      rw [show ((child (inner.position pair.1)).leafAt pair.1).1 = id from hid] at hthere
      exact hdistinct.1 _ _ id _ _ hthere hleaf
    refine ⟨h.1, h.2.1, h.2.2.1, fun i => ?_, fun i rowId data hholds => ?_, fun i => ?_⟩
    · rw [pageId_remap]
      exact h.2.2.2.1 i
    · obtain ⟨id, leaf, hleaf, hmem⟩ := holds_iff.mp hholds
      obtain ⟨old, hold, rfl⟩ := hasLeaf_remap.mp hleaf
      obtain ⟨hlow, hhigh⟩ := h.2.2.1.position_bounds rowId
      have hi := hplace i id old hold _ hmem
      rw [show inner.position rowId = i from hi] at hlow hhigh
      exact ⟨fun j e hj => hlow j e (by omega), fun e => hhigh i.val e (Nat.le_refl _)⟩
    · refine ih i (h.2.2.2.2.2 i) (hdistinct.2 i) ?_ ?_
      · exact fun id leaf hleaf => hsorted id leaf (.inr ⟨i, hleaf⟩)
      · intro id leaf hleaf pair hpair
        have hid := hroute id leaf (.inr ⟨i, hleaf⟩) pair hpair
        have hi := hplace i id leaf hleaf pair hpair
        subst hi
        exact hid

/-- **An exchange of leaves makes a tree for another map** when each new leaf mirrors its part of
the map. -/
theorem WellFormed.exchange (h : t.WellFormed) (hdistinct : t.Distinct)
    (hleaves : ∀ id leaf, t.HasLeaf id leaf → SmolDb.Mirrors (f id leaf) (m.within t.route id)) :
    (t.remap f).WellFormed ∧ (t.remap f).Mirrors m := by
  constructor
  · refine h.remap hdistinct (fun id leaf hleaf => (hleaves id leaf hleaf).sorted) ?_
    -- the rows of a new leaf are in the map, so they are routed to its page
    rintro id leaf hleaf ⟨k, d⟩ hpair
    have hsome := ((hleaves id leaf hleaf).lists k d).mpr hpair
    unfold RowMap.within at hsome
    split at hsome
    · next heq => exact heq
    · cases hsome
  · intro id leaf hleaf
    obtain ⟨old, hold, rfl⟩ := hasLeaf_remap.mp hleaf
    rw [route_remap]
    exact hleaves id old hold

end Tree

end SmolDb
