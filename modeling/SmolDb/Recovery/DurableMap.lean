import SmolDb.Recovery.Lives
import SmolDb.Tree.Upkeep

/-!
# The database is a map

The pages of a history are those of a tree, and a change is made in the leaf to which its row is
routed. Then the history has one map, which `RowMap.changed` computes from the entries whose changes
were made: a lookup returns what it says, before a crash and after recovery (`life_refines`).

A leaf mirrors its part of the map at first, and an entry changes both in the same way
(`Mirrors.redone`). The content of a page is the one to which its entries lead, so it does not
matter in which of the processes they were redone.
-/

namespace SmolDb

open RecoveryEngine

/-- The map with the changes of the entries, one after the other. -/
def RowMap.changed (m : RowMap) (entries : List WalEntry) : RowMap :=
  entries.foldl (fun m entry => entry.leafOp.effect m (.ok ())) m

namespace RowMap

variable {m : RowMap} {route : UInt64 → PageId} {entries : List WalEntry} {entry : WalEntry}

theorem changed_cons : m.changed (entry :: entries) =
    RowMap.changed (entry.leafOp.effect m (.ok ())) entries := rfl

theorem changed_concat : m.changed (entries ++ [entry]) =
    entry.leafOp.effect (m.changed entries) (.ok ()) := List.foldl_concat ..

theorem leafOp_at (hrouted : route entry.rowId = entry.pageId) :
    entry.leafOp.At route entry.pageId := by
  unfold WalEntry.leafOp
  cases entry.opcode with
  | insert | update | delete => exact hrouted

/-- What the entries do to a map, those of a page do to its part. -/
theorem within_changed (hrouted : ∀ entry ∈ entries, route entry.rowId = entry.pageId)
    (id : PageId) :
    (m.changed entries).within route id = (m.within route id).changed (entriesOf entries id) := by
  induction entries generalizing m with
  | nil => rfl
  | cons entry entries ih =>
    have hat := leafOp_at (hrouted entry (List.mem_cons_self ..))
    rw [changed_cons, ih fun e he => hrouted e (List.mem_cons_of_mem _ he)]
    by_cases hid : entry.pageId = id
    · subst hid
      rw [entriesOf_cons_self rfl, changed_cons, within_effect hat]
    · rw [entriesOf_cons_of_ne hid, within_effect_of_ne hat fun heq => hid heq.symm]

end RowMap

/-- **Redo on a leaf is work on its map.** -/
theorem Mirrors.redone {leaf : LeafNode} {m : RowMap} {entries : List WalEntry} {c : BTreeNode}
    (hm : Mirrors leaf m) (hasc : Ascending leaf.lastLsn entries)
    (h : RedoneTo (BTreeNode.leaf leaf).bare entries c) :
    ∃ leaf', c = (BTreeNode.leaf leaf').bare ∧ Mirrors leaf' (m.changed entries) := by
  induction entries using List.reverseRecOn generalizing c with
  | nil =>
    obtain ⟨n, hn, rfl⟩ := h
    cases hn
    exact ⟨leaf, BTreeNode.bare_bare _, hm⟩
  | append_singleton entries entry ih =>
    obtain ⟨c₁, hredone, n, hn, rfl⟩ := redoneTo_append.mp h
    obtain ⟨leaf₁, rfl, hm₁⟩ := ih hasc.append_left hredone
    rw [redoAll_cons] at hn
    obtain ⟨n', hn', hnil⟩ := Option.bind_eq_some_iff.mp hn
    cases hnil
    obtain ⟨hle, -⟩ | ⟨-, n₁, happly, rfl⟩ := redo_eq_some hn'
    · -- the entry is newer than the page
      rw [hredone.getLastLsn (c := (BTreeNode.leaf leaf).bare) hasc.append_left] at hle
      exact absurd (hasc.lastOf_lt (List.mem_singleton_self entry)) (UInt64.not_lt.mpr hle)
    · rw [applyEntry_eq] at happly
      obtain ⟨leaf₂, leaf₃, heq, hcall, rfl⟩ | ⟨_, heq, -⟩ := BTreeNode.asLeaf_eq_some happly
      · cases heq
        have hm₂ :=
          (BpTree.mirrors_congr (a := leaf₁) (b := leaf₁.bare) ⟨rfl, rfl⟩ hm₁).effect hcall
        refine ⟨{ leaf₃ with lastLsn := entry.lsn }, rfl, ?_⟩
        rw [RowMap.changed_concat]
        exact BpTree.mirrors_congr (a := leaf₃) ⟨rfl, rfl⟩ hm₂
      · cases heq

namespace RecoveryEngine

open BufferPool BpTree

variable {φ : Type} [WalFlusher φ] {pages : Set PageId} {s₀ s : Process φ}
  {made waiting : List WalEntry} {p p' : BufferPool φ} {id : PageId} {t : Tree} {m : RowMap}
  {rowId : UInt64}

theorem Life.content (h : Life pages s₀ s made waiting) (h₀ : OnDisk pages s₀.pool)
    (hlog : s₀.log.Logged []) (hid : id ∈ pages) {c₀ : BTreeNode} (hhas : s₀.pool.Has id c₀) :
    Ascending c₀.getLastLsn made ∧ ∃ c, RedoneTo c₀ (entriesOf made id) c ∧ s.pool.Has id c := by
  obtain ⟨p₁, before, since, hepoch⟩ := h.epoch h₀ hlog
  obtain ⟨c, hredone, hc, -⟩ := hepoch.content hid hhas
  exact ⟨(hepoch.ascending id hid c₀ hhas).append_left, c, hredone, hc⟩

/-- A visit of a page is a fetch. -/
theorem ownWork_visit {r : Except DbError Visit} (ha : id.Aligned) (hne : id.val ≠ 0)
    (h : BpTree.visit id rowId p = some (r, p')) : OwnWork p p' := by
  obtain ⟨e, -, hfetch⟩ | ⟨f, node, q, hfetch, hframe, -, rfl⟩ := visit_eq_some h
  · have hget : onPage id Exec.get p = some (.error e, p') := Exec.bind_of_error hfetch
    exact .fetch ha hne hget
  · have hread : onNode f Exec.get q = some (.ok node, q) :=
      onNode_eq_some.mpr ⟨node, node, hframe, rfl, (withNode_self hframe).symm⟩
    exact .fetch ha hne (onPage_of_ok hfetch hread)

/-- **The tree of a history**, which has other leaves and is the same in all pools where the same
changes were made. -/
theorem Life.tree (ht : t.WellFormed) (hdistinct : t.Distinct)
    (hpages : ∀ id node, t.HasNode id node → id ∈ pages) (hstored : t.Stored s₀.pool)
    (h₀ : OnDisk pages s₀.pool) (hlog : s₀.log.Logged []) (hm : t.Mirrors m)
    (h : Life pages s₀ s made waiting)
    (hrouted : ∀ entry ∈ made, t.route entry.rowId = entry.pageId) :
    ∃ f, (t.remap f).WellFormed ∧ (t.remap f).Mirrors (m.changed made) ∧
      ∀ s' waiting', Life pages s₀ s' made waiting' → (t.remap f).Stored s'.pool := by
  have hhas := Tree.stored_iff.mp hstored
  have hleaf : ∀ id leaf, ∃ leaf', t.HasLeaf id leaf →
      RedoneTo (BTreeNode.leaf leaf).bare (entriesOf made id) (BTreeNode.leaf leaf').bare ∧
        SmolDb.Mirrors leaf' ((m.changed made).within t.route id) := by
    intro id leaf
    by_cases hl : t.HasLeaf id leaf
    · obtain ⟨hasc, c, hredone, -⟩ := h.content h₀ hlog (hpages id _ hl) (hhas id _ hl)
      obtain ⟨leaf', rfl, hm'⟩ := (hm id leaf hl).redone (hasc.entriesOf id) hredone
      rw [RowMap.within_changed hrouted]
      exact ⟨leaf', fun _ => ⟨hredone, hm'⟩⟩
    · exact ⟨leaf, fun hmem => absurd hmem hl⟩
  choose f hf using hleaf
  obtain ⟨hwellFormed, hmirrors⟩ := ht.exchange hdistinct fun id leaf hl => (hf id leaf hl).2
  refine ⟨f, hwellFormed, hmirrors, fun s' waiting' h' => ?_⟩
  refine Tree.stored_iff.mpr fun id node hnode => ?_
  cases node with
  | internal inner =>
    have hinner := Tree.hasInternal_remap.mp hnode
    obtain ⟨-, c, hredone, hc⟩ := h'.content h₀ hlog (hpages id _ hinner) (hhas id _ hinner)
    -- rows are routed to leaves, so no entry names the page of a routing node
    have hnone : entriesOf made id = [] := by
      refine List.filter_eq_nil_iff.mpr fun entry he heq => ?_
      have hl := t.hasLeaf_leafAt entry.rowId
      rw [show (t.leafAt entry.rowId).1 = id from (hrouted entry he).trans (of_decide_eq_true heq)]
        at hl
      cases (hhas id _ hinner).unique (hhas id _ hl)
    rw [hnone] at hredone
    obtain ⟨n, hn, rfl⟩ := hredone
    cases hn
    rwa [BTreeNode.bare_bare] at hc
  | leaf leaf =>
    obtain ⟨old, hold, rfl⟩ := Tree.hasLeaf_remap.mp hnode
    obtain ⟨-, c, hredone, hc⟩ := h'.content h₀ hlog (hpages id _ hold) (hhas id _ hold)
    obtain rfl := (hf id old hold).1.unique hredone
    exact hc

/-- **The database is a durable map.** After any number of changes, checkpoints, crashes, attempts
to recover and recoveries, a lookup that succeeds returns what the map says of the changes that were
made, and it is part of the history; it succeeds when it may visit all pages on the way and nothing
stands in the way of the pool's requests. -/
theorem life_refines {m₀ : RowMap} (ht : t.WellFormed) (hdistinct : t.Distinct)
    (hpages : ∀ id node, t.HasNode id node → id ∈ pages) (hstored : t.Stored s₀.pool)
    (h₀ : OnDisk pages s₀.pool) (hlog : s₀.log.Logged [])
    (hm₀ : ∀ k d, m₀ k = some d ↔ t.Holds k d) (h : Life pages s₀ s made waiting)
    (hrouted : ∀ entry ∈ made, t.route entry.rowId = entry.pageId) :
    (∀ fuel rowId r p', (BpTree.mk t.pageId).findRecord fuel rowId s.pool = some (r, p') →
      Life pages s₀ ⟨p', s.log⟩ made waiting ∧
        ∀ record, r = .ok record → record = m₀.changed made rowId) ∧
    (Serviceable s.pool → ∀ fuel rowId, t.depthAt rowId ≤ fuel →
      ∃ p', (BpTree.mk t.pageId).findRecord fuel rowId s.pool =
        some (.ok (m₀.changed made rowId), p')) := by
  have hhas := Tree.stored_iff.mp hstored
  have hmirrors : t.Mirrors m₀ :=
    ht.mirrors (fun id leaf hl => (hhas id _ hl).slotted) hdistinct hm₀
  obtain ⟨f, ht', hm, hstands⟩ := h.tree ht hdistinct hpages hstored h₀ hlog hmirrors hrouted
  have hslotted : ∀ id node, (t.remap f).HasNode id node → node.IsSlotted := fun id node hnode =>
    (BTreeNode.isSlotted_bare node).mp (Tree.stored_iff.mp (hstands s _ h) id node hnode).slotted
  -- a visit is part of the history, so it sees the node that is there throughout
  have hvisit : ∀ {rowId : UInt64} id node p r p', (t.remap f).HasNode id node →
      Life pages s₀ ⟨p, s.log⟩ made waiting → BpTree.visit id rowId p = some (r, p') →
      Life pages s₀ ⟨p', s.log⟩ made waiting ∧
        ∀ v, r = .ok v → ∃ q : BufferPool φ, visitNode rowId node q = some (.ok v, q) := by
    intro rowId id node p r p' hnode hlife hrun
    obtain ⟨p₁, before, since, hepoch⟩ := hlife.epoch h₀ hlog
    have hran := hepoch.updates.ran hepoch.onDisk
    obtain ⟨ha, hne⟩ := ht'.page hnode
    refine ⟨hlife.own (ownWork_visit ha hne hrun), ?_⟩
    rintro v rfl
    have hc := Tree.stored_iff.mp (hstands _ _ hlife) id node hnode
    obtain ⟨q, hq⟩ := visit_sees hran.wf hran.noFaults ha hne hc hrun
    rw [visitNode_bare] at hq
    exact ⟨q, hq⟩
  have hfound : ∀ fuel rowId r p',
      (BpTree.mk t.pageId).findRecord fuel rowId s.pool = some (r, p') →
      Life pages s₀ ⟨p', s.log⟩ made waiting ∧
        ∀ record, r = .ok record → record = m₀.changed made rowId := by
    intro fuel rowId r p' hrun
    rw [← Tree.pageId_remap (f := f)] at hrun
    obtain ⟨hlife, hget⟩ := walk_finds (I := fun p => Life pages s₀ ⟨p, s.log⟩ made waiting)
      ht' hslotted hvisit h hrun
    exact ⟨hlife, fun record hr => hm.answer (hget record hr).1⟩
  refine ⟨hfound, fun hserv fuel rowId hfuel => ?_⟩
  rw [← Tree.depthAt_remap (f := f)] at hfuel
  obtain ⟨record, p', hrun⟩ := walk_returns ht' hserv (hstands s waiting h) hfuel
  rw [Tree.pageId_remap] at hrun
  obtain rfl := (hfound fuel rowId _ p' hrun).2 record rfl
  exact ⟨p', hrun⟩

/-- An insertion and an update of the row, by two processes. -/
abbrev rowChanges : List WalEntry :=
  [⟨.insert, 5, ⟨4096⟩, 7, [1]⟩, ⟨.update, 7, ⟨4096⟩, 7, [3]⟩]

theorem redoable_rowChanges (id : PageId) :
    Redoable (BTreeNode.newEmpty id true).bare (entriesOf rowChanges id) := by
  by_cases hid : id = ⟨4096⟩
  · subst hid
    exact ⟨_, rfl, Nat.le_of_ble_eq_true rfl, _, rfl, Nat.le_of_ble_eq_true rfl, trivial⟩
  · have hother : ∀ entry ∈ rowChanges, entry.pageId = ⟨4096⟩ := by decide
    have hnone : entriesOf rowChanges id = [] := List.filter_eq_nil_iff.mpr fun entry he heq =>
      hid ((of_decide_eq_true heq).symm.trans (hother entry he))
    rw [hnone]
    trivial

/-- The row is found as the second process left it, after a crash of that one. -/
theorem life_refines_found : ∃ (s : Process Empty) (q p p' : BufferPool Empty) (file : LogFile)
    (batch : List WalEntry) (lsn : UInt64),
    Life TwoPages.pages opened s rowChanges [] ∧ Attempts batch s.pool q [] ∧
      init .asListed (s.log.file.cut s.log.file.synced, q) = some (.ok lsn, (file, p)) ∧
      (BpTree.mk ⟨4096⟩).findRecord 1 7 p = some (.ok (some [3]), p') := by
  have hfits : ∀ entry ∈ rowChanges, entry.Fits ∧ entry.pageId ∈ TwoPages.pages := by
    have hpage : ∀ entry ∈ rowChanges, entry.Fits ∧ entry.pageId = ⟨4096⟩ := by decide
    exact fun entry he => ⟨(hpage entry he).1, .inl (hpage entry he).2⟩
  obtain ⟨s, h, hsynced⟩ := exists_life (rowChanges.take 1) (rowChanges.drop 1) hfits
    ⟨by decide, by decide⟩ redoable_rowChanges
  have hredo : ∀ id ∈ TwoPages.pages, ∀ c, opened.pool.Has id c →
      Redoable c (entriesOf rowChanges id) := by
    intro id hid c hc
    rw [hc.unique (TwoPages.has hid 1)]
    exact redoable_rowChanges id
  obtain ⟨batch, w, q, file, p, -, -, htries, -, hinit, hserv, hrecovered⟩ :=
    h.recovers opened_onDisk opened_logged TwoPages.first_mem hredo hsynced Nat.one_pos
      WalFlusher.reliable_none .asListed true
  -- the tree is its one leaf, which is empty at first
  let t : Tree := .leaf ⟨4096⟩ (LeafNode.newEmpty ⟨4096⟩)
  have ht : t.WellFormed := ⟨by decide, by decide, LeafNode.sorted_newEmpty _⟩
  have hpages : ∀ id node, t.HasNode id node → id ∈ TwoPages.pages :=
    fun _ _ hnode => .inl hnode.1
  have hstored : t.Stored opened.pool := TwoPages.has TwoPages.first_mem 1
  have hempty : ∀ k d, (fun _ => none : RowMap) k = some d ↔ t.Holds k d :=
    fun _ _ => ⟨nofun, nofun⟩
  have hrouted : ∀ entry ∈ rowChanges, t.route entry.rowId = entry.pageId := by decide
  obtain ⟨p', hfind⟩ := (life_refines ht trivial hpages hstored opened_onDisk opened_logged hempty
    hrecovered hrouted).2 hserv 1 7 (Nat.le_refl 1)
  exact ⟨s, q, p, p', file, batch, _, h, htries, hinit, hfind⟩

end RecoveryEngine

end SmolDb
