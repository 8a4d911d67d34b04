import SmolDb.Page.LeafOp
import SmolDb.Recovery.Engine

/-!
# Redo on one page

`redo` is the rule replay is meant to implement, on the content of a single page and without a
pool: an entry that the page has is skipped, any other is applied and sets the LSN. `redoAll` goes
through a list of entries.

What replay does under a write guard is the rule (`redoEntry_ok`). The free size and the dirty flag
of a node have no influence on it (`redo_congr`), so that the rule acts on contents: `RedoneTo`
says to which content a list of entries leads.
-/

namespace SmolDb

/-- The operation an entry stands for. -/
def WalEntry.leafOp (self : WalEntry) : LeafOp :=
  match self.opcode with
  | .insert => .insertRecord self.rowId self.payload
  | .update => .updateRecord self.rowId self.payload
  | .delete => .deleteRecord self.rowId

namespace BTreeNode

variable {self self' : BTreeNode} {x : Exec DbError LeafNode Unit} {r : Except DbError Unit}

/-- The node with another LSN; the dirty flag stays. -/
def setLastLsn (lsn : UInt64) : BTreeNode → BTreeNode
  | .internal node => .internal { node with lastLsn := lsn }
  | .leaf node => .leaf { node with lastLsn := lsn }

theorem bare_setLastLsn (lsn : UInt64) (self : BTreeNode) :
    (self.setLastLsn lsn).bare = (self.markDirty lsn).bare := by
  cases self <;> rfl

@[simp] theorem getLastLsn_setLastLsn (lsn : UInt64) (self : BTreeNode) :
    (self.setLastLsn lsn).getLastLsn = lsn := by
  cases self <;> rfl

/-- What work on a leaf that returns has found and left behind. -/
theorem asLeaf_eq_some (h : asLeaf x self = some (r, self')) :
    (∃ leaf leaf', self = .leaf leaf ∧ x leaf = some (r, leaf') ∧ self' = .leaf leaf') ∨
      ∃ e, r = .error e ∧ self' = self ∧ ∃ node, self = .internal node := by
  cases self with
  | leaf leaf =>
    obtain ⟨⟨r', leaf'⟩, hx, heq⟩ := Option.map_eq_some_iff.mp h
    cases heq
    exact .inl ⟨leaf, leaf', rfl, hx, rfl⟩
  | internal node =>
    cases h
    exact .inr ⟨_, rfl, rfl, node, rfl⟩

theorem asLeaf_congr (hx : LeafNode.Keeps x) {a b a' : BTreeNode} (hab : a.bare = b.bare)
    (h : asLeaf x a = some (r, a')) : ∃ b', asLeaf x b = some (r, b') ∧ a'.bare = b'.bare := by
  -- nodes with one content are both leaves or both internal nodes
  obtain ⟨leaf, leaf', rfl, hleaf, rfl⟩ | ⟨e, rfl, rfl, node, rfl⟩ := asLeaf_eq_some h
  · cases b with
    | internal node => cases hab
    | leaf other =>
      have hbare : leaf.bare = other.bare := BTreeNode.leaf.inj hab
      obtain ⟨other', hother, hbare'⟩ := hx.congr hbare hleaf
      refine ⟨.leaf other', ?_, congrArg BTreeNode.leaf hbare'⟩
      show (x other).map _ = _
      rw [hother]
      rfl
  · cases b with
    | internal other =>
      cases h
      exact ⟨_, rfl, hab⟩
    | leaf other => cases hab

theorem IsSlotted.asLeaf (hs : self.IsSlotted) (hx : LeafNode.Keeps x)
    (h : asLeaf x self = some (r, self')) : self'.IsSlotted := by
  obtain ⟨leaf, leaf', rfl, hleaf, rfl⟩ | ⟨e, rfl, rfl, -⟩ := asLeaf_eq_some h
  · exact hx.slotted hs hleaf
  · exact hs

/-- Work that fails leaves the node as it was. -/
theorem IsSlotted.asLeaf_error (hs : self.IsSlotted) (hx : LeafNode.Keeps x) {e : DbError}
    (h : BTreeNode.asLeaf x self = some (.error e, self')) : self' = self := by
  obtain ⟨leaf, leaf', rfl, hleaf, rfl⟩ | ⟨_, -, rfl, -⟩ := asLeaf_eq_some h
  · rw [hx.unchanged hs hleaf]
  · rfl

end BTreeNode

namespace RecoveryEngine

variable {node node' c c' : BTreeNode} {entry : WalEntry}

theorem applyEntry_eq (entry : WalEntry) :
    applyEntry entry = BTreeNode.asLeaf entry.leafOp.call := by
  unfold applyEntry WalEntry.leafOp
  cases entry.opcode <;> rfl

/-! ### The rule -/

/-- **The rule of the log**: an entry the node has is skipped; another is applied and sets the LSN.
`none` when it cannot be applied. -/
def redo (node : BTreeNode) (entry : WalEntry) : Option BTreeNode :=
  if entry.lsn ≤ node.getLastLsn then some node
  else
    match applyEntry entry node with
    | some (.ok (), node) => some (node.setLastLsn entry.lsn)
    | _ => none

/-- The rule for one entry after the other. -/
def redoAll (node : BTreeNode) (entries : List WalEntry) : Option BTreeNode :=
  entries.foldlM redo node

/-- The entries that name a page. -/
def entriesOf (batch : List WalEntry) (id : PageId) : List WalEntry :=
  batch.filter fun entry => entry.pageId = id

theorem entriesOf_cons_self {batch : List WalEntry} {id : PageId} (h : entry.pageId = id) :
    entriesOf (entry :: batch) id = entry :: entriesOf batch id :=
  List.filter_cons_of_pos (decide_eq_true h)

theorem entriesOf_cons_of_ne {batch : List WalEntry} {id : PageId} (h : entry.pageId ≠ id) :
    entriesOf (entry :: batch) id = entriesOf batch id :=
  List.filter_cons_of_neg fun heq => h (of_decide_eq_true heq)

theorem entriesOf_append (as bs : List WalEntry) (id : PageId) :
    entriesOf (as ++ bs) id = entriesOf as id ++ entriesOf bs id := List.filter_append as bs

theorem entriesOf_concat_self {batch : List WalEntry} {id : PageId} (h : entry.pageId = id) :
    entriesOf (batch ++ [entry]) id = entriesOf batch id ++ [entry] := by
  rw [entriesOf_append, entriesOf_cons_self h]
  rfl

theorem entriesOf_concat_of_ne {batch : List WalEntry} {id : PageId} (h : entry.pageId ≠ id) :
    entriesOf (batch ++ [entry]) id = entriesOf batch id := by
  rw [entriesOf_append, entriesOf_cons_of_ne h]
  exact List.append_nil _

theorem redo_skip (h : entry.lsn ≤ node.getLastLsn) : redo node entry = some node := if_pos h

theorem redo_apply (h : ¬ entry.lsn ≤ node.getLastLsn)
    (happly : applyEntry entry node = some (.ok (), node')) :
    redo node entry = some (node'.setLastLsn entry.lsn) := by
  rw [redo, if_neg h, happly]

/-- An entry that leads somewhere was skipped or applied. -/
theorem redo_eq_some (h : redo node entry = some node') :
    (entry.lsn ≤ node.getLastLsn ∧ node' = node) ∨
      ¬ entry.lsn ≤ node.getLastLsn ∧
        ∃ n, applyEntry entry node = some (.ok (), n) ∧ node' = n.setLastLsn entry.lsn := by
  rw [redo] at h
  split at h
  · next hle => exact .inl ⟨hle, (Option.some.inj h).symm⟩
  · next hgt =>
    split at h
    · next n happly => exact .inr ⟨hgt, n, happly, (Option.some.inj h).symm⟩
    · cases h

theorem redo_congr {a b a' : BTreeNode} (hab : a.bare = b.bare) (h : redo a entry = some a') :
    ∃ b', redo b entry = some b' ∧ a'.bare = b'.bare := by
  have hlsn := BTreeNode.getLastLsn_congr hab
  obtain ⟨hle, rfl⟩ | ⟨hgt, n, happly, rfl⟩ := redo_eq_some h
  · exact ⟨b, redo_skip (hlsn ▸ hle), hab⟩
  · rw [applyEntry_eq] at happly
    obtain ⟨n', happly', hbare⟩ := BTreeNode.asLeaf_congr (LeafOp.keeps_call _) hab happly
    refine ⟨n'.setLastLsn entry.lsn, redo_apply (hlsn ▸ hgt) (applyEntry_eq entry ▸ happly'), ?_⟩
    rw [BTreeNode.bare_setLastLsn, BTreeNode.bare_setLastLsn]
    exact BTreeNode.markDirty_congr hbare _

theorem redoAll_cons (node : BTreeNode) (entry : WalEntry) (entries : List WalEntry) :
    redoAll node (entry :: entries) = (redo node entry).bind fun node => redoAll node entries :=
  List.foldlM_cons ..

theorem redoAll_append (node : BTreeNode) (as bs : List WalEntry) :
    redoAll node (as ++ bs) = (redoAll node as).bind fun node => redoAll node bs :=
  List.foldlM_append ..

theorem redo_slotted (hs : node.IsSlotted) (h : redo node entry = some node') :
    node'.IsSlotted := by
  obtain ⟨-, rfl⟩ | ⟨-, n, happly, rfl⟩ := redo_eq_some h
  · exact hs
  · rw [applyEntry_eq] at happly
    have hn : n.IsSlotted := hs.asLeaf (LeafOp.keeps_call _) happly
    refine BTreeNode.IsSlotted.congr (BTreeNode.bare_setLastLsn entry.lsn n).symm ?_
    exact hn.markDirty entry.lsn

/-! ### Contents -/

/-- The entries lead from the content `c` to the content `c'`. -/
def RedoneTo (c : BTreeNode) (entries : List WalEntry) (c' : BTreeNode) : Prop :=
  ∃ node, redoAll c entries = some node ∧ node.bare = c'

theorem RedoneTo.nil (c : BTreeNode) : RedoneTo c [] c.bare := ⟨c, rfl, rfl⟩

theorem RedoneTo.unique {entries : List WalEntry} {c₁ c₂ : BTreeNode}
    (h₁ : RedoneTo c entries c₁) (h₂ : RedoneTo c entries c₂) : c₁ = c₂ := by
  obtain ⟨n₁, hn₁, rfl⟩ := h₁
  obtain ⟨n₂, hn₂, rfl⟩ := h₂
  rw [Option.some.inj (hn₁.symm.trans hn₂)]

/-- One more entry. -/
theorem RedoneTo.snoc {entries : List WalEntry} (h : RedoneTo c entries c')
    (hnode : node.bare = c') (hredo : redo node entry = some node') :
    RedoneTo c (entries ++ [entry]) node'.bare := by
  obtain ⟨n, hn, rfl⟩ := h
  obtain ⟨n', hn', hbare⟩ := redo_congr hnode hredo
  refine ⟨n', ?_, hbare.symm⟩
  rw [redoAll_append, hn, Option.bind_some, redoAll_cons, hn']
  rfl

/-- Entries that are skipped lead nowhere. -/
theorem RedoneTo.skipped {entries : List WalEntry}
    (h : ∀ entry ∈ entries, entry.lsn ≤ c.getLastLsn) : RedoneTo c entries c.bare := by
  induction entries with
  | nil => exact .nil c
  | cons entry entries ih =>
    obtain ⟨n, hn, hbare⟩ := ih fun e he => h e (List.mem_cons_of_mem _ he)
    refine ⟨n, ?_, hbare⟩
    rw [redoAll_cons, redo_skip (h entry (List.mem_cons_self ..)), Option.bind_some, hn]

theorem RedoneTo.bare {entries : List WalEntry} (h : RedoneTo c entries c') : c'.bare = c' := by
  obtain ⟨n, -, rfl⟩ := h
  exact BTreeNode.bare_bare n

theorem redoAll_congr {a b a' : BTreeNode} {entries : List WalEntry} (hab : a.bare = b.bare)
    (h : redoAll a entries = some a') : ∃ b', redoAll b entries = some b' ∧ a'.bare = b'.bare := by
  induction entries generalizing a b with
  | nil =>
    cases h
    exact ⟨b, rfl, hab⟩
  | cons entry entries ih =>
    rw [redoAll_cons] at h
    obtain ⟨n, hn, h⟩ := Option.bind_eq_some_iff.mp h
    obtain ⟨n', hn', hbare⟩ := redo_congr hab hn
    obtain ⟨b', hb', hbare'⟩ := ih hbare h
    exact ⟨b', by rw [redoAll_cons, hn', Option.bind_some, hb'], hbare'⟩

/-- A list of entries leads through the contents its parts lead to. -/
theorem redoneTo_append {as bs : List WalEntry} :
    RedoneTo c (as ++ bs) c' ↔ ∃ c₁, RedoneTo c as c₁ ∧ RedoneTo c₁ bs c' := by
  constructor
  · rintro ⟨n, hn, rfl⟩
    rw [redoAll_append] at hn
    obtain ⟨n₁, hn₁, hn⟩ := Option.bind_eq_some_iff.mp hn
    -- redoing does not depend on the dirty flag in between
    obtain ⟨n', hn', hbare⟩ := redoAll_congr (BTreeNode.bare_bare n₁).symm hn
    exact ⟨n₁.bare, ⟨n₁, hn₁, rfl⟩, n', hn', hbare.symm⟩
  · rintro ⟨_, ⟨n₁, hn₁, rfl⟩, n, hn, rfl⟩
    obtain ⟨n', hn', hbare⟩ := redoAll_congr (BTreeNode.bare_bare n₁) hn
    refine ⟨n', ?_, hbare.symm⟩
    rw [redoAll_append, hn₁]
    exact hn'

theorem RedoneTo.slotted {entries : List WalEntry} (hs : c.IsSlotted)
    (h : RedoneTo c entries c') : c'.IsSlotted := by
  obtain ⟨n, hn, rfl⟩ := h
  refine (BTreeNode.isSlotted_bare n).mpr ?_
  induction entries generalizing c with
  | nil =>
    cases hn
    exact hs
  | cons entry entries ih =>
    rw [redoAll_cons] at hn
    obtain ⟨n₁, hn₁, hn⟩ := Option.bind_eq_some_iff.mp hn
    exact ih (redo_slotted hs hn₁) hn

/-! ### Ascending LSNs -/

/-- The LSNs of the entries increase, and are all above `lsn`. -/
def Ascending (lsn : UInt64) (entries : List WalEntry) : Prop :=
  entries.Pairwise (fun a b => a.lsn < b.lsn) ∧ ∀ entry ∈ entries, lsn < entry.lsn

/-- The LSN of the last entry, or the one before all of them. -/
def lastOf (lsn : UInt64) (entries : List WalEntry) : UInt64 :=
  (entries.getLast?.map WalEntry.lsn).getD lsn

theorem lastOf_append_singleton (lsn : UInt64) (entries : List WalEntry) (entry : WalEntry) :
    lastOf lsn (entries ++ [entry]) = entry.lsn := by
  rw [lastOf, List.getLast?_concat]
  rfl

theorem Ascending.append_left {lsn : UInt64} {as bs : List WalEntry}
    (h : Ascending lsn (as ++ bs)) : Ascending lsn as :=
  ⟨(List.pairwise_append.mp h.1).1, fun entry he => h.2 entry (List.mem_append_left bs he)⟩

theorem Ascending.of_initial {lsn : UInt64} {as bs : List WalEntry} (h : Ascending lsn bs)
    (hpre : as <+: bs) : Ascending lsn as := by
  obtain ⟨cs, rfl⟩ := hpre
  exact h.append_left

theorem Ascending.lt_of_mem {lsn : UInt64} {as bs : List WalEntry} (h : Ascending lsn (as ++ bs))
    {a b : WalEntry} (ha : a ∈ as) (hb : b ∈ bs) : a.lsn < b.lsn :=
  (List.pairwise_append.mp h.1).2.2 a ha b hb

/-- The last LSN is none of those behind. -/
theorem Ascending.lastOf_lt {lsn : UInt64} {as bs : List WalEntry} (h : Ascending lsn (as ++ bs))
    {entry : WalEntry} (he : entry ∈ bs) : lastOf lsn as < entry.lsn := by
  unfold lastOf
  cases hlast : as.getLast? with
  | none => exact h.2 entry (List.mem_append_right as he)
  | some a => exact h.lt_of_mem (List.mem_of_getLast? hlast) he

/-- No LSN is above the last one. -/
theorem Ascending.le_lastOf {lsn : UInt64} {entries : List WalEntry} (h : Ascending lsn entries)
    {entry : WalEntry} (he : entry ∈ entries) : entry.lsn ≤ lastOf lsn entries := by
  obtain ⟨as, last, rfl⟩ : ∃ as last, entries = as ++ [last] :=
    ⟨_, _, (List.dropLast_append_getLast (List.ne_nil_of_mem he)).symm⟩
  rw [lastOf_append_singleton]
  rcases List.mem_append.mp he with ha | hlast
  · exact UInt64.le_of_lt (h.lt_of_mem ha (List.mem_singleton_self last))
  · rw [List.mem_singleton.mp hlast]
    exact UInt64.le_refl _

/-- The last LSN is not below the one before all of them. -/
theorem Ascending.self_le_lastOf {lsn : UInt64} {entries : List WalEntry}
    (h : Ascending lsn entries) : lsn ≤ lastOf lsn entries := by
  unfold lastOf
  cases hlast : entries.getLast? with
  | none => exact UInt64.le_refl lsn
  | some a => exact UInt64.le_of_lt (h.2 a (List.mem_of_getLast? hlast))

/-- **A page bears the LSN of the last entry** that was redone on it. -/
theorem RedoneTo.getLastLsn {entries : List WalEntry} (hasc : Ascending c.getLastLsn entries)
    (h : RedoneTo c entries c') : c'.getLastLsn = lastOf c.getLastLsn entries := by
  -- the LSNs ascend, so the last entry is newer than the page and stamps it
  induction entries using List.reverseRecOn generalizing c' with
  | nil =>
    obtain ⟨n, hn, rfl⟩ := h
    cases hn
    exact BTreeNode.getLastLsn_bare c
  | append_singleton entries entry ih =>
    obtain ⟨c₁, h₁, n, hn, rfl⟩ := redoneTo_append.mp h
    have hlsn := ih hasc.append_left h₁
    have hlt := hasc.lastOf_lt (List.mem_singleton_self entry)
    rw [redoAll_cons] at hn
    obtain ⟨n', hn', hnil⟩ := Option.bind_eq_some_iff.mp hn
    cases hnil
    rw [lastOf_append_singleton, BTreeNode.getLastLsn_bare]
    obtain ⟨hle, -⟩ | ⟨-, _, -, rfl⟩ := redo_eq_some hn'
    · rw [hlsn] at hle
      exact absurd hle (UInt64.not_le.mpr hlt)
    · exact BTreeNode.getLastLsn_setLastLsn ..

/-- The entries a page is past are skipped. -/
theorem RedoneTo.stays {entries : List WalEntry} {c₁ : BTreeNode}
    (hasc : Ascending c.getLastLsn entries) (h : RedoneTo c entries c₁) :
    RedoneTo c₁ entries c₁ := by
  have hskipped : RedoneTo c₁ entries c₁.bare := .skipped fun entry he => by
    rw [h.getLastLsn hasc]
    exact hasc.le_lastOf he
  rwa [h.bare] at hskipped

/-- **A page that is past some of the entries gets where all of them lead**: it skips the ones it
has. -/
theorem RedoneTo.again {as bs : List WalEntry} {c₁ : BTreeNode}
    (hasc : Ascending c.getLastLsn (as ++ bs)) (h₁ : RedoneTo c as c₁)
    (h : RedoneTo c (as ++ bs) c') : RedoneTo c₁ (as ++ bs) c' := by
  obtain ⟨c₂, h₂, hrest⟩ := redoneTo_append.mp h
  obtain rfl := h₁.unique h₂
  exact redoneTo_append.mpr ⟨c₁, h₁.stays hasc.append_left, hrest⟩

/-- Where such a page gets is where all of the entries lead. -/
theorem RedoneTo.of_again {as bs : List WalEntry} {c₁ : BTreeNode}
    (hasc : Ascending c.getLastLsn (as ++ bs)) (h₁ : RedoneTo c as c₁)
    (h : RedoneTo c₁ (as ++ bs) c') : RedoneTo c (as ++ bs) c' := by
  obtain ⟨c₂, h₂, hrest⟩ := redoneTo_append.mp h
  obtain rfl := (h₁.stays hasc.append_left).unique h₂
  exact redoneTo_append.mpr ⟨c₁, h₁, hrest⟩

/-! ### Under the write guard -/

/-- **What replay does under the write guard is the rule.** A node that is not as it was is
dirty. -/
theorem redoEntry_ok (h : redoEntry entry node = some (.ok (), node')) :
    (entry.lsn ≤ node.getLastLsn ∧ node' = node) ∨
      ¬ entry.lsn ≤ node.getLastLsn ∧ node'.isDirty = true ∧
        ∃ n, redo node entry = some n ∧ n.bare = node'.bare := by
  rw [redoEntry, Exec.bind_of_ok (Exec.get_apply node)] at h
  by_cases hle : entry.lsn ≤ node.getLastLsn
  · rw [if_pos hle] at h
    cases h
    exact .inl ⟨hle, rfl⟩
  · rw [if_neg hle] at h
    obtain ⟨_, n, happly, hmark⟩ := Exec.bind_eq_ok.mp h
    cases hmark
    refine .inr ⟨hle, BTreeNode.isDirty_markDirty .., _, redo_apply hle happly, ?_⟩
    exact BTreeNode.bare_setLastLsn entry.lsn n

/-- An entry that cannot be applied leaves the node as it was. -/
theorem redoEntry_error (hs : node.IsSlotted) {e : DbError}
    (h : redoEntry entry node = some (.error e, node')) : node' = node := by
  rw [redoEntry, Exec.bind_of_ok (Exec.get_apply node)] at h
  split at h
  · cases h
  · rcases Exec.bind_eq_error.mp h with happly | ⟨_, n, -, hmark⟩
    · rw [applyEntry_eq] at happly
      exact hs.asLeaf_error (LeafOp.keeps_call _) happly
    · cases hmark

/-- The rule is what is done under the write guard. -/
theorem redoEntry_of_redo (h : redo node entry = some node') :
    ∃ n, redoEntry entry node = some (.ok (), n) ∧ n.bare = node'.bare := by
  rw [redoEntry, Exec.bind_of_ok (Exec.get_apply node)]
  obtain ⟨hle, rfl⟩ | ⟨hgt, n, happly, rfl⟩ := redo_eq_some h
  · rw [if_pos hle]
    exact ⟨_, rfl, rfl⟩
  · rw [if_neg hgt, Exec.bind_of_ok happly]
    exact ⟨_, rfl, (BTreeNode.bare_setLastLsn entry.lsn n).symm⟩

/-- An entry that leads to a node that fits is redone under the write guard. -/
theorem redoEntry_returns (hs : c.IsSlotted) (h : redo c entry = some c')
    (hfit : c'.encodedSize ≤ pageSize) (hnode : node.bare = c) :
    ∃ n, redoEntry entry node = some (.ok (), n) ∧ n.IsSlotted ∧ n.encodedSize ≤ pageSize := by
  have hbare : c.bare = node.bare := by
    rw [← hnode, BTreeNode.bare_bare]
  obtain ⟨n₁, hn₁, hbare₁⟩ := redo_congr hbare h
  obtain ⟨n, hn, hbare₂⟩ := redoEntry_of_redo hn₁
  have heq : c'.bare = n.bare := hbare₁.trans hbare₂.symm
  refine ⟨n, hn, (redo_slotted hs h).congr heq, ?_⟩
  rw [← BTreeNode.encodedSize_congr heq]
  exact hfit

/-- The entries can be redone one after the other, and every node on the way fits in a page. -/
def Redoable (c : BTreeNode) : List WalEntry → Prop
  | [] => True
  | entry :: entries =>
    ∃ n, redo c entry = some n ∧ n.encodedSize ≤ pageSize ∧ Redoable n.bare entries

/-- Where the first of some entries lead: it fits in a page, and the others can be redone there. -/
theorem Redoable.reach {as bs : List WalEntry} {c c' : BTreeNode} (h : Redoable c (as ++ bs))
    (hbare : c.bare = c) (hredone : RedoneTo c as c') :
    (as ≠ [] → c'.encodedSize ≤ pageSize) ∧ Redoable c' bs := by
  induction as generalizing c with
  | nil =>
    obtain rfl := hredone.unique (.nil c)
    rw [hbare]
    exact ⟨fun hne => absurd rfl hne, h⟩
  | cons entry as ih =>
    obtain ⟨n, hn, hfit, hrest⟩ := h
    obtain ⟨c₁, ⟨n', hn', rfl⟩, hredone'⟩ :=
      redoneTo_append.mp (show RedoneTo c ([entry] ++ as) c' from hredone)
    obtain rfl : n = n' := by
      rw [redoAll_cons, hn] at hn'
      exact Option.some.inj hn'
    obtain ⟨hfits, hbs⟩ := ih hrest (BTreeNode.bare_bare n) hredone'
    refine ⟨fun _ => ?_, hbs⟩
    cases as with
    | nil =>
      obtain rfl := hredone'.unique (.nil _)
      rw [BTreeNode.encodedSize_bare, BTreeNode.encodedSize_bare]
      exact hfit
    | cons => exact hfits (List.cons_ne_nil _ _)

/-- A page skips the entries it is past. -/
theorem Redoable.skip {as bs : List WalEntry} {c : BTreeNode} (h : Redoable c bs)
    (hbare : c.bare = c) (hfit : c.encodedSize ≤ pageSize)
    (hpast : ∀ entry ∈ as, entry.lsn ≤ c.getLastLsn) : Redoable c (as ++ bs) := by
  induction as with
  | nil => exact h
  | cons entry as ih =>
    refine ⟨c, redo_skip (hpast entry (List.mem_cons_self ..)), hfit, ?_⟩
    rw [hbare]
    exact ih fun e he => hpast e (List.mem_cons_of_mem _ he)

theorem Redoable.append_left {as bs : List WalEntry} {c : BTreeNode} (h : Redoable c (as ++ bs)) :
    Redoable c as := by
  induction as generalizing c with
  | nil => trivial
  | cons entry as ih =>
    obtain ⟨n, hn, hfit, hrest⟩ := h
    exact ⟨n, hn, hfit, ih hrest⟩

/-- **From anywhere on the way the entries can be redone**, if they can from the beginning. -/
theorem Redoable.onward {c₀ c₁ c : BTreeNode} {first as entries rest : List WalEntry}
    (h : Redoable c₀ (first ++ (entries ++ rest))) (hbare : c₀.bare = c₀)
    (h₁ : RedoneTo c₀ first c₁) (hasc : Ascending c₁.getLastLsn entries) (has : as <+: entries)
    (hc : RedoneTo c₁ as c) : Redoable c entries := by
  obtain ⟨bs, rfl⟩ := has
  rw [List.append_assoc, ← List.append_assoc] at h
  obtain ⟨hfit, hbs⟩ := h.reach hbare (redoneTo_append.mpr ⟨c₁, h₁, hc⟩)
  have hbs := hbs.append_left
  by_cases hnil : as = []
  · subst hnil
    exact hbs
  · refine hbs.skip hc.bare (hfit (by simp [hnil])) fun entry he => ?_
    rw [hc.getLastLsn hasc.append_left]
    exact hasc.append_left.le_lastOf he

end RecoveryEngine

end SmolDb
