import SmolDb.Page.Live
import SmolDb.Pool.Service
import SmolDb.Tree.BpTree

/-!
# Trees

`Tree` is a B+ tree as a value: leaves with their records, routing nodes with a child for each
entry in slot order and one to the right of them. `find_record` walks a path of the pages such a
tree is stored in: the bounds on the keys of the subtrees leave one child in which the row can be,
and this is the child to which `route_key` leads.
-/

namespace SmolDb

open BufferPool

/-! ### Routing -/

namespace InternalNode

variable {self : InternalNode}

/-- The keys are strictly increasing in slot order. -/
def Sorted (self : InternalNode) : Prop :=
  self.rows.Pairwise fun a b => a.key.toNat < b.key.toNat

/-- The child at a position in slot order; the rightmost child is behind all entries. -/
def childAt (self : InternalNode) (i : ℕ) : PageId :=
  match self.rows[i]? with
  | some entry => ⟨entry.childPageId⟩
  | none => self.rightmostChildId

theorem IsPlaced.entryAt_eq (hs : self.IsPlaced) (i : ℕ) : self.entryAt i = self.rows[i]? := by
  unfold entryAt rows
  rw [List.getElem?_map]
  cases hslot : self.slotArray[i]? with
  | none => rfl
  | some slot => exact getElem?_entries (hs.lt slot (List.mem_of_getElem? hslot))

/-- Routing in a node whose slots name entries does not panic, whatever the order of the keys. -/
theorem IsPlaced.routeKey_returns (hs : self.IsPlaced) (targetKey : UInt64) :
    ∃ next, self.routeKey targetKey = some (.ok next) := by
  have hentry : ∀ i, i < self.slotArray.length → ∃ entry, self.entryAt i = some entry := by
    intro i hi
    rw [hs.entryAt_eq]
    exact ⟨_, List.getElem?_eq_getElem (by rwa [length_rows])⟩
  have hpred : ∀ i, i < self.slotArray.length → (do
      let entry ← self.entryAt i
      some (decide (entry.key ≤ targetKey))).isSome := by
    intro i hi
    obtain ⟨entry, hentry⟩ := hentry i hi
    rw [hentry]
    rfl
  -- the partition point is a row or the end, and the end has the rightmost child
  obtain ⟨i, hi, hpoint⟩ := BinarySearch.partitionPoint_isSome hpred
  unfold routeKey
  rw [hpoint]
  simp only [Option.bind_eq_bind, Option.bind_some]
  split
  · exact ⟨_, rfl⟩
  · next hne =>
    obtain ⟨entry, hentry⟩ := hentry i (Nat.lt_of_le_of_ne hi hne)
    rw [hentry]
    exact ⟨_, rfl⟩

/-- **Routing in a sorted node** takes the child between the entries whose keys are at most the
target and the others. -/
theorem IsSlotted.routeKey_sorted (hs : self.IsSlotted) (hsorted : self.Sorted)
    (targetKey : UInt64) :
    ∃ i, i ≤ self.rows.length ∧ self.routeKey targetKey = some (.ok (self.childAt i)) ∧
      (∀ j e, j < i → self.rows[j]? = some e → e.key ≤ targetKey) ∧
      ∀ j e, i ≤ j → self.rows[j]? = some e → targetKey < e.key := by
  obtain ⟨as, bs, hrows, has, hbs, hpoint⟩ :=
    BinarySearch.partitionPoint_sorted hsorted targetKey.toNat
  refine ⟨as.length, by rw [hrows]; simp, ?_, ?_, ?_⟩
  · -- the code compares words, the search library their values
    have hpoint' : BinarySearch.partitionPoint self.slotArray.length (fun i => do
        let entry ← self.entryAt i
        some (decide (entry.key ≤ targetKey))) = some as.length := by
      rw [← hpoint, length_rows]
      congr 1
      funext i
      rw [hs.placed.entryAt_eq]
      cases self.rows[i]? with
      | none => rfl
      | some entry => simp [UInt64.le_iff_toNat_le]
    unfold routeKey childAt
    rw [hpoint', ← length_rows]
    dsimp only [Option.bind_eq_bind, Option.bind_some]
    rw [hs.placed.entryAt_eq]
    split
    · next hend => rw [hend, List.getElem?_eq_none (Nat.le_refl _)]
    · next hno =>
      have hlt : as.length < self.rows.length := by
        rw [hrows, List.length_append] at hno ⊢
        omega
      rw [List.getElem?_eq_getElem hlt]
      rfl
  · intro j e hj he
    rw [hrows, List.getElem?_append_left hj] at he
    exact UInt64.le_iff_toNat_le.mpr (has e (List.mem_of_getElem? he))
  · intro j e hj he
    rw [hrows, List.getElem?_append_right hj] at he
    exact UInt64.lt_iff_toNat_lt.mpr (hbs e (List.mem_of_getElem? he))

end InternalNode

/-! ### Trees -/

/-- A B+ tree with the pages of its nodes. -/
inductive Tree where
  | leaf (pageId : PageId) (node : LeafNode)
  | internal (pageId : PageId) (node : InternalNode)
      (child : Fin (node.slotArray.length + 1) → Tree)

namespace Tree

/-- The page of the root. -/
def pageId : Tree → PageId
  | leaf pageId _ => pageId
  | internal pageId _ _ => pageId

/-- Some leaf of the tree has a record of the key that is not deleted, with this data. -/
def Holds (rowId : UInt64) (data : List UInt8) : Tree → Prop
  | leaf _ node => (rowId, data) ∈ node.live
  | internal _ _ child => ∃ i, (child i).Holds rowId data

/-- Every node is in order, every entry points to its subtree, and the keys of a subtree lie
between the keys of the entries at its sides. -/
def WellFormed : Tree → Prop
  | leaf pageId node => pageId.Aligned ∧ pageId.val ≠ 0 ∧ node.Sorted
  | internal pageId node child =>
    pageId.Aligned ∧ pageId.val ≠ 0 ∧ node.Sorted ∧
      (∀ i, (child i).pageId = node.childAt i) ∧
      (∀ i rowId data, (child i).Holds rowId data →
        (∀ j e, j + 1 = i.val → node.rows[j]? = some e → e.key ≤ rowId) ∧
        ∀ e, node.rows[i.val]? = some e → rowId < e.key) ∧
      ∀ i, (child i).WellFormed

/-- The pool and its file have the node of every page of the tree. -/
def Stored {φ : Type} (p : BufferPool φ) : Tree → Prop
  | leaf pageId node => p.Has pageId (BTreeNode.leaf node).bare
  | internal pageId node child =>
    p.Has pageId (BTreeNode.internal node).bare ∧ ∀ i, (child i).Stored p

/-- A pool that keeps the contents of all pages keeps the tree. -/
theorem Stored.mono {φ : Type} {p p' : BufferPool φ} {t : Tree} (h : t.Stored p)
    (hwf : t.WellFormed)
    (hkeep : ∀ (id : PageId) c, id.Aligned → id.val ≠ 0 → p.Has id c → p'.Has id c) :
    t.Stored p' := by
  induction t with
  | leaf pageId node => exact hkeep pageId _ hwf.1 hwf.2.1 h
  | internal pageId node child ih =>
    refine ⟨hkeep pageId _ hwf.1 hwf.2.1 h.1, ?_⟩
    intro i
    exact ih i (h.2 i) (hwf.2.2.2.2.2 i)

/-- **One child can hold the row.** Entries up to the `i`-th have keys at most the row id and the
others have greater keys, so a record of the row is under the `i`-th child or nowhere. -/
theorem WellFormed.holds_child {pageId : PageId} {node : InternalNode}
    {child : Fin (node.slotArray.length + 1) → Tree} (h : (internal pageId node child).WellFormed)
    {rowId : UInt64} {i : Fin (node.slotArray.length + 1)}
    (hlow : ∀ j e, j < i.val → node.rows[j]? = some e → e.key ≤ rowId)
    (hhigh : ∀ j e, i.val ≤ j → node.rows[j]? = some e → rowId < e.key) (data : List UInt8) :
    (internal pageId node child).Holds rowId data ↔ (child i).Holds rowId data := by
  refine ⟨?_, fun hi => ⟨i, hi⟩⟩
  rintro ⟨j, hj⟩
  obtain ⟨-, -, -, -, hbounds, -⟩ := h
  obtain ⟨hlower, hupper⟩ := hbounds j rowId data hj
  have hentry : ∀ k, k < node.slotArray.length → ∃ e, node.rows[k]? = some e := by
    intro k hk
    rw [← InternalNode.length_rows] at hk
    exact ⟨_, List.getElem?_eq_getElem hk⟩
  -- the fences of any other child exclude the key
  have hi := i.isLt
  have hjlt := j.isLt
  rcases Nat.lt_trichotomy j.val i.val with hlt | heq | hgt
  · -- to the left of the child the keys are too small
    obtain ⟨e, he⟩ := hentry j.val (by omega)
    exact absurd (hupper e he) (UInt64.not_lt.mpr (hlow j.val e hlt he))
  · rwa [Fin.ext heq] at hj
  · -- and to the right of it they are too great
    obtain ⟨e, he⟩ := hentry (j.val - 1) (by omega)
    exact absurd (hlower (j.val - 1) e (by omega) he)
      (UInt64.not_le.mpr (hhigh (j.val - 1) e (by omega) he))

end Tree

/-! ### One visit -/

namespace BpTree

section Visit

variable {φ : Type} {rowId : UInt64}

theorem visitNode_bare (rowId : UInt64) (node : BTreeNode) :
    (visitNode rowId node.bare : Exec DbError (BufferPool φ) Visit) = visitNode rowId node := by
  cases node <;> rfl

theorem visitNode_of_route {node : InternalNode} {next : PageId}
    (h : node.routeKey rowId = some (.ok next)) (p : BufferPool φ) :
    visitNode rowId (.internal node) p = some (.ok (.descend next), p) := by
  unfold visitNode
  dsimp only
  rw [h]
  rfl

theorem visitNode_of_record {node : LeafNode} {record : Option (List UInt8)}
    (h : node.getRecord rowId = some record) (p : BufferPool φ) :
    visitNode rowId (.leaf node) p = some (.ok (.found record), p) := by
  unfold visitNode
  dsimp only
  rw [h]
  rfl

/-- **A visit** fetches the page, and drops it when it has seen its node. -/
theorem visit_of_fetch [WalFlusher φ] {p p' : BufferPool φ} {id : PageId} {f : Frame}
    {node : BTreeNode} {r : Except DbError Visit} (hrun : fetchPage id p = some (.ok f, p'))
    (hf : p'.frames[f]? = some node) (hv : visitNode rowId node p' = some (r, p')) :
    visit id rowId p = some (r, { p' with held := p'.held.erase f }) := by
  refine withClone_of_ok hrun ?_
  have hread : readFrame f p' = some (.ok node, p') := by
    rw [readFrame, hf]
    rfl
  rw [Exec.bind_of_ok hread, hv]

end Visit

/-! ### A root with two leaves -/

namespace TwoLeaves

def root : InternalNode :=
  { (default : InternalNode) with
    pageId := ⟨4096⟩
    rightmostChildId := ⟨12288⟩
    slotArray := [0]
    entries := [⟨10, 8192⟩] }

def low : LeafNode :=
  { (default : LeafNode) with
    pageId := ⟨8192⟩
    slotArray := [1, 0]
    records := [⟨9, [1], true⟩, ⟨5, [2], false⟩] }

def high : LeafNode :=
  { (default : LeafNode) with
    pageId := ⟨12288⟩
    slotArray := [0]
    records := [⟨10, [3], false⟩] }

/-- The root over the lower leaf and any other one. -/
def withUpper (upper : LeafNode) : Tree :=
  .internal ⟨4096⟩ root fun i => if i.val = 0 then .leaf ⟨8192⟩ low else .leaf ⟨12288⟩ upper

def tree : Tree := withUpper high

theorem wellFormed_withUpper {upper : LeafNode} (hs : upper.Sorted)
    (hlive : ∀ k d, (k, d) ∈ upper.live → 10 ≤ k) : (withUpper upper).WellFormed := by
  refine ⟨by decide, by decide, List.pairwise_singleton _ _, ?_, ?_, ?_⟩
  · intro i
    match i with
    | ⟨0, _⟩ => rfl
    | ⟨1, _⟩ => rfl
  · intro i rowId data h
    match i with
    | ⟨0, _⟩ =>
      have hmem : (rowId, data) ∈ [((5 : UInt64), [(2 : UInt8)])] := h
      cases List.mem_singleton.mp hmem
      exact ⟨nofun, fun e he => by cases he; decide⟩
    | ⟨1, _⟩ =>
      refine ⟨fun j e hj he => ?_, nofun⟩
      cases hj
      cases he
      exact hlive rowId data h
  · intro i
    match i with
    | ⟨0, _⟩ => exact ⟨by decide, by decide, by decide⟩
    | ⟨1, _⟩ => exact ⟨by decide, by decide, hs⟩

theorem wellFormed : tree.WellFormed := by
  refine wellFormed_withUpper (by decide) fun k d h => ?_
  have hmem : (k, d) ∈ [((10 : UInt64), [(3 : UInt8)])] := h
  cases List.mem_singleton.mp hmem
  decide

/-- A file with the root and the lower leaf. Irreducible, so that no proof computes its bytes. -/
@[irreducible] def lowerFile : DataFile :=
  (DataFile.empty.save ⟨4096⟩ (.internal root)).save ⟨8192⟩ (.leaf low)

/-- A file with the three pages. -/
@[irreducible] def file : DataFile := lowerFile.save ⟨12288⟩ (.leaf high)

theorem slotted_root : (BTreeNode.internal root).IsSlotted := List.Perm.refl _

theorem slotted_low : (BTreeNode.leaf low).IsSlotted := List.Perm.swap _ _ _

theorem nodeAt_lowerFile : lowerFile.nodeAt 4096 = some (BTreeNode.internal root).decoded ∧
    lowerFile.nodeAt 8192 = some (BTreeNode.leaf low).decoded := by
  unfold lowerFile
  constructor
  · refine DataFile.nodeAt_save_of_ne ⟨4096⟩ (by decide) ?_
    exact DataFile.nodeAt_save ⟨4096⟩ slotted_root (by decide)
  · exact DataFile.nodeAt_save ⟨8192⟩ slotted_low (by decide)

/-- Everything else is blank. -/
theorem blank_lowerFile {id : PageId} (ha : id.Aligned) (hroot : id ≠ ⟨4096⟩)
    (hlow : id ≠ ⟨8192⟩) : lowerFile.Blank id.val.toNat := by
  unfold lowerFile
  refine ((DataFile.blank_empty _).save_of_ne ?_).save_of_ne ?_
  · exact ha.disjoint (by decide) hroot
  · exact ha.disjoint (by decide) hlow

theorem isSlotted_lowerFile (id : PageId) (ha : id.Aligned) (node : BTreeNode)
    (hnode : lowerFile.nodeAt id.val.toNat = some node) : node.IsSlotted := by
  by_cases hroot : id = ⟨4096⟩
  · subst hroot
    obtain rfl := Option.some.inj (nodeAt_lowerFile.1.symm.trans hnode)
    exact slotted_root.decoded
  by_cases hlow : id = ⟨8192⟩
  · subst hlow
    obtain rfl := Option.some.inj (nodeAt_lowerFile.2.symm.trans hnode)
    exact slotted_low.decoded
  obtain hnone | hzero := (blank_lowerFile ha hroot hlow).nodeAt
  · rw [hnone] at hnode
    cases hnode
  · rw [hzero, Option.some.injEq] at hnode
    rw [← hnode]
    exact List.Perm.refl _

/-- A pool with room for one page, so that each visit evicts the page of the one before. -/
def pool : BufferPool Empty := BufferPool.new ⟨file, .default, []⟩ 1 none

theorem stored : tree.Stored pool := by
  have hhigh : (BTreeNode.leaf high).IsSlotted := List.Perm.refl _
  -- each page was written once, and the pages written after it lie elsewhere
  have hfile : file.nodeAt 4096 = some (BTreeNode.internal root).decoded ∧
      file.nodeAt 8192 = some (BTreeNode.leaf low).decoded ∧
      file.nodeAt 12288 = some (BTreeNode.leaf high).decoded := by
    unfold file
    refine ⟨?_, ?_, ?_⟩
    · exact DataFile.nodeAt_save_of_ne ⟨4096⟩ (by decide) nodeAt_lowerFile.1
    · exact DataFile.nodeAt_save_of_ne ⟨8192⟩ (by decide) nodeAt_lowerFile.2
    · exact DataFile.nodeAt_save ⟨12288⟩ hhigh (by decide)
  have hhas : ∀ (id : PageId) (node : BTreeNode), node.IsSlotted →
      file.nodeAt id.val.toNat = some node.decoded → pool.Has id node.bare := by
    intro id node hs hnode
    have hnew := Has.new (d := ⟨file, .default, []⟩) hnode hs.decoded 1 (none : Option Empty)
    rwa [BTreeNode.bare_decoded] at hnew
  refine ⟨hhas _ _ slotted_root hfile.1, ?_⟩
  intro i
  match i with
  | ⟨0, _⟩ => exact hhas _ _ slotted_low hfile.2.1
  | ⟨1, _⟩ => exact hhas _ _ hhigh hfile.2.2

end TwoLeaves

end BpTree

end SmolDb
