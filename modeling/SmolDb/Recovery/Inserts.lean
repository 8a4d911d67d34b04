import SmolDb.Recovery.Image
import SmolDb.Recovery.Lsn

/-!
# Logged insertions and a crash

One leaf is on disk and the log is empty. From then on records are inserted, each into some leaf of
the level and each logged and synced before `insert_leaf` is called, while other clients make the
cache write and drop pages as they like (`Loads`). Then the memory is lost, and `init` runs over
the log and the data file (`Lost`).

Not every run survives that: replay cannot get past a split that had not reached the file
(`init_loses_split`). What the file has to have is `Covered`, and that is exactly when the records
are back after `init` (`init_recovers_iff`).
-/

namespace SmolDb

open BpTree BufferPool LeafNode RecoveryEngine WriteBack

/-- A leaf level under logged insertions: the pool and the log, the leaves created, the entries
whose insertions have returned and the one that is logged for the next, the LSN of the last
insertion, and for each leaf the LSN of the last split it took part in. -/
structure Loading (φ : Type) where
  pool : BufferPool φ
  wal : WalManager
  created : List PageId
  entries : List WalEntry
  pending : Option WalEntry
  lsn : UInt64
  parted : PageId → UInt64

namespace Loading

variable {φ ψ : Type}

/-- Everything that is in the log. -/
def logged (s : Loading φ) : List WalEntry := s.entries ++ s.pending.toList

/-- A split marks the leaf it has cut and the one it has made. -/
def partedBy (parted : PageId → UInt64) (target : PageId) (lsn : UInt64) :
    Option SplitResult → PageId → UInt64
  | none => parted
  | some split => Function.update (Function.update parted target lsn) split.newPageId lsn

/-- The state before `insert_leaf` is called for an entry that was logged. -/
def withPending (s : Loading φ) (wal : WalManager) (entry : WalEntry) : Loading φ :=
  { s with wal, pending := some entry }

/-- The state after `insert_leaf` has returned `Ok` for the entry. -/
def inserted (s : Loading φ) (pool : BufferPool φ) (entry : WalEntry)
    (res : Option SplitResult) : Loading φ where
  pool
  wal := s.wal
  created := (promotedRanges res).map Range.pageId ++ s.created
  entries := s.entries ++ [entry]
  pending := none
  lsn := entry.lsn
  parted := partedBy s.parted entry.pageId entry.lsn res

/-- The pool has one leaf, without siblings, and no other page was ever written. -/
structure Planted (p : BufferPool φ) (first : PageId) (leaf : LeafNode) : Prop
    extends Sound p where
  allocated : Allocated p first
  has : p.Has first (.leaf leaf)
  fits : leaf.encodedSize ≤ pageSize
  alone : leaf.hasNext = false
  unused : ∀ id : PageId, id.Aligned → id.val ≠ 0 → id ≠ first → ∃ c, Unwritten c (p.line id)

section Flusher

variable [WalFlusher φ] [WalFlusher ψ]

/-- The states that are reached from a single leaf by logged insertions that return `Ok`. The LSNs
increase, from that of the leaf on. -/
inductive Loads (first : PageId) (leaf : LeafNode) : Loading φ → Prop
  | start {p p' : BufferPool φ} {order : HashOrder} (sync : Bool) (hp : Planted p first leaf)
      (hflush : flushAllPages order p = some (.ok (), p')) :
      Loads first leaf
        ⟨p', .openFile .empty sync, [first], [], none, leaf.lastLsn, fun _ => 0⟩
  | client {s : Loading φ} {p' : BufferPool φ} (h : Loads first leaf s)
      (hc : Client s.pool p') : Loads first leaf { s with pool := p' }
  | log {s : Loading φ} {entry : WalEntry} {w w' : WalManager} (h : Loads first leaf s)
      (hidle : s.pending = none) (hop : entry.opcode = .insert)
      (htarget : entry.pageId ∈ s.created) (hlsn : s.lsn < entry.lsn) (hfits : entry.Fits)
      (hwrite : WalManager.writeBatch [entry] s.wal = some (.ok (), w))
      (hsync : WalManager.syncFile w = some (.ok (), w')) :
      Loads first leaf (s.withPending w' entry)
  | insert {s : Loading φ} {t : BpTree} {entry : WalEntry} {res : Option SplitResult}
      {p' : BufferPool φ} (h : Loads first leaf s) (hpending : s.pending = some entry)
      (hrun : t.insertLeaf entry.pageId entry.rowId entry.payload entry.lsn s.pool =
        some (.ok res, p')) :
      Loads first leaf (s.inserted p' entry res)

/-- The memory is lost, and of the log what was not synced. The next process opens the data file
on a disk without faults, with a pool and a flusher of its own. -/
inductive Lost (s : Loading φ) : LogFile → BufferPool ψ → Prop
  | lost {kept synced capacity : ℕ} {d : DiskManager} {w : Option ψ}
      (hkept : s.wal.file.synced ≤ kept)
      (hopen : DiskManager.openFile s.pool.diskManager.file [] = .ok d) (hcap : 0 < capacity)
      (hrel : WalFlusher.Reliable w) :
      Lost s ⟨s.wal.file.bytes.take kept, synced, []⟩ (new d capacity w)

/-- `init` returns `Ok`, and then the record of every entry is live in some leaf. -/
def Recovers (order : HashOrder) (log : LogFile) (q : BufferPool ψ) (batch : List WalEntry) :
    Prop :=
  ∃ n log' q', RecoveryEngine.init order (log, q) = some (.ok n, (log', q')) ∧
    ∀ entry ∈ batch, ∃ (id : PageId) (leaf : LeafNode), id.Aligned ∧ id.val ≠ 0 ∧
      (q'.line id).shows = some (.leaf leaf) ∧ (entry.rowId, entry.payload) ∈ leaf.live

end Flusher

/-- The image of the page in the file is not older than the last split of the page. -/
def Whole (s : Loading φ) (id : PageId) : Prop := s.pool.WrittenSince id (s.parted id)

/-- Every leaf that an entry names was written since its last split; the record that is still to
be inserted needs no split; and every other record is in a leaf that was written since its last
split, or is logged once more. -/
def Covered (s : Loading φ) : Prop :=
  (∀ entry ∈ s.logged, s.Whole entry.pageId) ∧
  (∀ entry ∈ s.pending, ∃ leaf leaf', s.pool.Has entry.pageId (.leaf leaf) ∧
    insertRecord entry.rowId entry.payload leaf = some (.ok (), leaf')) ∧
  ∀ entry ∈ s.entries,
    (∃ id ∈ s.created, s.Whole id ∧ ∃ leaf, s.pool.Has id (.leaf leaf) ∧
      (entry.rowId, entry.payload) ∈ leaf.live) ∨
    ∃ next ∈ s.pending, (next.rowId, next.payload) = (entry.rowId, entry.payload)

/-! ### The invariant of a run -/

/-- The leaves of the level, and what the log and the file have of them. -/
structure Tallied (s : Loading φ) (leafOf : PageId → LeafNode) : Prop extends Sound s.pool where
  wal : s.wal.Logged s.logged
  synced : s.wal.file.synced = s.wal.file.bytes.length
  inserts : ∀ entry ∈ s.logged,
    entry.opcode = .insert ∧ entry.pageId ∈ s.created ∧ 0 < entry.lsn
  pending : ∀ entry ∈ s.pending, s.lsn < entry.lsn
  allocated : ∀ id ∈ s.created, Allocated s.pool id
  unused : ∀ id : PageId, id.Aligned → id.val ≠ 0 → id ∉ s.created →
    ∃ c, Unwritten c (s.pool.line id)
  pages : ∀ id ∈ s.created,
    Imaged s.pool id (entriesOf s.entries id) (s.parted id) s.lsn (leafOf id)
  next : ∀ id ∈ s.created, (leafOf id).hasNext = true →
    (⟨(leafOf id).nextPageId⟩ : PageId) ∈ s.created
  live : ∀ entry ∈ s.entries, ∃ id ∈ s.created,
    (entry.rowId, entry.payload) ∈ (leafOf id).live

variable {s : Loading φ} {leafOf : PageId → LeafNode} {first : PageId} {leaf : LeafNode}

theorem logged_of_idle (hidle : s.pending = none) : s.logged = s.entries := by
  rw [logged, hidle]
  exact List.append_nil _

theorem mem_logged_of_mem {entry : WalEntry} (h : entry ∈ s.entries) : entry ∈ s.logged :=
  List.mem_append_left _ h

theorem mem_logged_of_pending {entry : WalEntry} (h : s.pending = some entry) :
    entry ∈ s.logged := by
  refine List.mem_append_right _ ?_
  rw [h]
  exact List.mem_singleton_self entry

section Flusher

variable [WalFlusher φ]

/-- At the start the image of the leaf is its content. -/
theorem Planted.tallied {p p' : BufferPool φ} {order : HashOrder} (hp : Planted p first leaf)
    (hflush : flushAllPages order p = some (.ok (), p')) (sync : Bool) :
    Tallied ⟨p', .openFile .empty sync, [first], [], none, leaf.lastLsn, fun _ => 0⟩
      fun _ => leaf := by
  obtain ⟨hw', hkept, hmoves⟩ := within_flushAllPages order _ _ _ hflush hp.wf
  obtain ⟨hclean, -⟩ := flushAllPages_ok hp.wf hflush
  have ha := hp.allocated.aligned
  have hne := hp.allocated.ne_zero
  have hhas : p'.Has first (.leaf leaf) := hp.has.moves hp.faults (hmoves first ha hne)
  obtain ⟨node, hnode, hbare⟩ := hhas.stored fun f node hl hf => hclean first f node hl hf
  -- nothing is dirty behind the flush, so the file has the leaf
  have hstored : (p'.line first).stored = some (.leaf leaf) := by
    rw [← hbare]
    exact congrArg (Option.map BTreeNode.bare) hnode
  have hpage : Imaged p' first [] 0 leaf.lastLsn leaf :=
    { has := hhas
      fits := hp.fits
      parted_le := UInt64.zero_le
      lsn_le := UInt64.le_refl _
      entries_le := nofun
      image := by
        refine .inr ⟨_, hstored, ?_⟩
        refine .own hhas.slotted ?_ hp.fits UInt64.zero_le (UInt64.le_refl _) nofun
        exact BTreeNode.leaf.inj (bare_of_has hhas) }
  exact
    { wf := hw'
      fresh := hp.fresh.of_kept hkept
      faults := hkept.faults hp.faults
      wal := ⟨rfl, rfl, nofun⟩
      synced := rfl
      inserts := nofun
      pending := nofun
      allocated := by
        refine List.forall_mem_singleton.mpr ⟨ha, hne, ?_⟩
        show first.val.toNat < p'.diskManager.header.nextFreeOffset.toNat
        rw [hkept.header]
        exact hp.allocated.below
      unused := by
        intro id ha' hne' hid
        obtain ⟨c, hun⟩ := hp.unused id ha' hne' fun heq => hid (List.mem_singleton.mpr heq)
        exact ⟨c, Unwritten.serves (hmoves id ha' hne').serves hun⟩
      pages := List.forall_mem_singleton.mpr hpage
      next := by
        intro id _ hsome
        rw [hp.alone] at hsome
        cases hsome
      live := nofun }

/-- Other clients leave the invariant as it is. -/
theorem Tallied.client (h : Tallied s leafOf) {p' : BufferPool φ} (hc : Client s.pool p') :
    Tallied { s with pool := p' } leafOf := by
  -- a client of the pool serves every page, and serving a page keeps its image
  have hkind := hc.kind h.wf h.fresh
  have hsound := h.toSound.client hc
  exact
    { wf := hsound.wf
      fresh := hsound.fresh
      faults := hsound.faults
      wal := h.wal
      synced := h.synced
      inserts := h.inserts
      pending := h.pending
      allocated := fun id hid => hkind.allocated id (h.allocated id hid)
      unused := by
        intro id ha hne hid
        obtain ⟨c, hun⟩ := h.unused id ha hne hid
        exact hc.unwritten h.wf h.fresh ha hne hun
      pages := fun id hid =>
        (h.pages id hid).served h.faults (hkind.served id (h.allocated id hid))
      next := h.next
      live := h.live }

omit [WalFlusher φ] in
/-- An entry was logged and synced. -/
theorem Tallied.log (h : Tallied s leafOf) {entry : WalEntry} {w w' : WalManager}
    (hidle : s.pending = none) (hop : entry.opcode = .insert) (htarget : entry.pageId ∈ s.created)
    (hlsn : s.lsn < entry.lsn) (hfits : entry.Fits)
    (hwrite : WalManager.writeBatch [entry] s.wal = some (.ok (), w))
    (hsync : WalManager.syncFile w = some (.ok (), w')) :
    Tallied (s.withPending w' entry) leafOf := by
  obtain ⟨w₁, hwrite₁, hlogged⟩ := h.wal.writeBatch (List.forall_mem_singleton.mpr hfits)
  -- the log was in order, so the write and the sync are as expected
  rw [hwrite₁] at hwrite
  cases hwrite
  rw [WalManager.syncFile_ok hlogged.noFaults] at hsync
  cases hsync
  rw [logged_of_idle hidle] at hlogged
  exact
    { wf := h.wf
      fresh := h.fresh
      faults := h.faults
      wal := ⟨hlogged.noFaults, hlogged.bytes, hlogged.fits⟩
      synced := rfl
      inserts := by
        intro e he
        rcases List.mem_append.mp he with hold | hnew
        · exact h.inserts e (mem_logged_of_mem hold)
        · rw [List.mem_singleton.mp hnew]
          exact ⟨hop, htarget, UInt64.lt_of_le_of_lt UInt64.zero_le hlsn⟩
      pending := by
        intro e he
        rw [← Option.some.inj he]
        exact hlsn
      allocated := h.allocated
      unused := h.unused
      pages := h.pages
      next := h.next
      live := h.live }

/-! ### An insertion -/

omit [WalFlusher φ] in
theorem logged_inserted {p' : BufferPool φ} {entry : WalEntry} {res : Option SplitResult}
    (hpending : s.pending = some entry) : (s.inserted p' entry res).logged = s.logged := by
  unfold logged inserted
  rw [hpending]
  exact List.append_nil _

omit [WalFlusher φ] in
/-- **The record fits into its leaf.** -/
theorem Tallied.whole (h : Tallied s leafOf) {entry : WalEntry} {p' : BufferPool φ}
    (hpending : s.pending = some entry) (hset : Settled s.pool p') {a a' : LeafNode}
    (hbare : a.bare = leafOf entry.pageId)
    (hinsert : insertRecord entry.rowId entry.payload a = some (.ok (), a'))
    (hpage : Overwritten s.pool p' entry.pageId (.leaf (stamped entry.lsn a')))
    (hothers : ∀ id : PageId, id.Aligned → id.val ≠ 0 → id ≠ entry.pageId → Served s.pool p' id)
    (hheader : p'.diskManager.header = s.pool.diskManager.header) :
    Tallied (s.inserted p' entry none)
      (Function.update leafOf entry.pageId (stamped entry.lsn a')) := by
  have hsound := hset.sound h.toSound
  obtain ⟨hop, htarget, -⟩ := h.inserts entry (mem_logged_of_pending hpending)
  have hlsn := h.pending entry hpending
  have hold := h.pages entry.pageId htarget
  have hslot : a.IsSlotted := by
    have hs : (leafOf entry.pageId).IsSlotted := hold.has.slotted
    rw [← hbare] at hs
    exact hs
  have hself : Function.update leafOf entry.pageId (stamped entry.lsn a') entry.pageId =
      stamped entry.lsn a' := Function.update_self ..
  exact
    { wf := hsound.wf
      fresh := hsound.fresh
      faults := hsound.faults
      wal := by
        rw [logged_inserted hpending]
        exact h.wal
      synced := h.synced
      inserts := by
        rw [logged_inserted hpending]
        exact h.inserts
      pending := nofun
      allocated := by
        intro id hid
        have ha := h.allocated id hid
        refine ⟨ha.aligned, ha.ne_zero, ?_⟩
        show id.val.toNat < p'.diskManager.header.nextFreeOffset.toNat
        rw [hheader]
        exact ha.below
      unused := by
        intro id ha hne hid
        obtain ⟨c, hun⟩ := h.unused id ha hne hid
        exact ⟨c, Unwritten.serves (hothers id ha hne fun heq => hid (heq ▸ htarget)) hun⟩
      pages := by
        intro id hid
        show Imaged p' id (entriesOf (s.entries ++ [entry]) id) (s.parted id) entry.lsn _
        by_cases heq : id = entry.pageId
        · subst heq
          rw [hself, entriesOf_concat_self rfl]
          exact hold.inserted h.faults hop hlsn hbare hinsert hpage
        · rw [Function.update_of_ne heq, entriesOf_concat_of_ne (Ne.symm heq)]
          have ha := h.allocated id hid
          have hserved := hothers id ha.aligned ha.ne_zero heq
          exact ((h.pages id hid).served h.faults hserved).later (UInt64.le_of_lt hlsn)
      next := by
        intro id hid
        by_cases heq : id = entry.pageId
        · subst heq
          rw [hself]
          -- no link changes
          have hheader := (keeps_insertRecord entry.rowId entry.payload).header hslot hinsert
          obtain ⟨_, _, _, rfl⟩ := hheader
          have hnext := h.next entry.pageId htarget
          rw [← hbare] at hnext
          exact hnext
        · rw [Function.update_of_ne heq]
          exact h.next id hid
      live := by
        have hperm := hslot.insertRecord_perm hinsert
        have hlive : (stamped entry.lsn a').live = a'.live := (sameCells_stamped a').live
        have hlive' : (leafOf entry.pageId).live = a.live := by
          rw [← hbare]
          rfl
        intro e he
        rcases List.mem_append.mp he with he | he
        · obtain ⟨id, hid, hmem⟩ := h.live e he
          refine ⟨id, hid, ?_⟩
          by_cases heq : id = entry.pageId
          · subst heq
            rw [hself, hlive, hperm.mem_iff]
            rw [hlive'] at hmem
            exact List.mem_cons_of_mem _ hmem
          · rw [Function.update_of_ne heq]
            exact hmem
        · rw [List.mem_singleton.mp he]
          refine ⟨entry.pageId, htarget, ?_⟩
          rw [hself, hlive, hperm.mem_iff]
          exact List.mem_cons_self .. }

/-- What is there when `insert_leaf` has split the leaf of the entry: the halves with the record,
and what the call did to the pages. -/
structure Cut (s : Loading φ) (leafOf : PageId → LeafNode) (entry : WalEntry) (p' : BufferPool φ)
    (n : PageId) (left right : LeafNode) : Prop where
  settled : Settled s.pool p'
  full : ∀ c', insertRecord entry.rowId entry.payload (leafOf entry.pageId) ≠ some (.ok (), c')
  new : n.val = s.pool.diskManager.header.nextFreeOffset
  header : p'.diskManager.header.nextFreeOffset.toNat =
    s.pool.diskManager.header.nextFreeOffset.toNat + pageSize
  left_page : Overwritten s.pool p' entry.pageId (.leaf left)
  right_page : Overwritten s.pool p' n (.leaf right)
  left_slotted : left.IsSlotted
  right_slotted : right.IsSlotted
  left_fits : left.encodedSize ≤ pageSize
  right_fits : right.encodedSize ≤ pageSize
  left_stamp : left.lastLsn = entry.lsn
  right_stamp : right.lastLsn = entry.lsn
  left_next : left.hasNext = true ∧ left.nextPageId = n.val
  right_next : right.links.next = (leafOf entry.pageId).links.next
  live : (left.live ++ right.live).Perm
    ((entry.rowId, entry.payload) :: (leafOf entry.pageId).live)
  linked : ∀ id, (leafOf entry.pageId).links.next = some id → Relinked s.pool p' id n entry.lsn
  others : ∀ id : PageId, id.Aligned → id.val ≠ 0 → id ≠ entry.pageId → id ≠ n →
    (leafOf entry.pageId).links.next ≠ some id → Served s.pool p' id

omit [WalFlusher φ] in
/-- The split as `insert_leaf` makes it. -/
theorem Tallied.cut (h : Tallied s leafOf) {entry : WalEntry} {p' : BufferPool φ}
    (htarget : entry.pageId ∈ s.created) (hset : Settled s.pool p') {n : PageId}
    {promoted : UInt64} {a a₁ b₁ a₂ b₂ : LeafNode} (hbare : a.bare = leafOf entry.pageId)
    (hfull : insertRecord entry.rowId entry.payload a = some (.error .pageFull, a))
    (hsplit : LeafNode.split (a, newLeaf n) = some (.ok promoted, (a₁, b₁)))
    (hinsert : insertHalf entry.rowId entry.payload promoted (a₁, b₁) = some (.ok (), (a₂, b₂)))
    (hnew : n.val = s.pool.diskManager.header.nextFreeOffset)
    (hheader : p'.diskManager.header.nextFreeOffset.toNat =
      s.pool.diskManager.header.nextFreeOffset.toNat + pageSize)
    (hleft : Overwritten s.pool p' entry.pageId
      (BTreeNode.markDirty entry.lsn (.leaf (a₂.linkedLeft n))).bare)
    (hright : Overwritten s.pool p' n
      (BTreeNode.markDirty entry.lsn (.leaf (b₂.linkedRight entry.pageId a₂))).bare)
    (hold : (leafOf entry.pageId).hasNext = true →
      Relinked s.pool p' ⟨(leafOf entry.pageId).nextPageId⟩ n entry.lsn)
    (hothers : ∀ id : PageId, id.Aligned → id.val ≠ 0 → id ≠ entry.pageId → id ≠ n →
      ((leafOf entry.pageId).hasNext = true → id ≠ ⟨(leafOf entry.pageId).nextPageId⟩) →
        Served s.pool p' id) :
    Cut s leafOf entry p' n (stamped entry.lsn (a₂.linkedLeft n))
      (stamped entry.lsn (b₂.linkedRight entry.pageId a₂)) := by
  have hslot : a.IsSlotted := by
    have hs : (leafOf entry.pageId).IsSlotted := (h.pages entry.pageId htarget).has.slotted
    rw [← hbare] at hs
    exact hs
  obtain ⟨hheadA, -, hslotLeft, hslotRight⟩ := halves_header hslot rfl rfl hsplit hinsert
  obtain ⟨hfitLeft, hfitRight⟩ := halves_fit hslot (isSlotted_newEmpty n) hsplit hinsert
  have hlive := halves_live hslot rfl rfl hsplit hinsert
  exact
    { settled := hset
      full := by
        intro c' hc'
        -- the content of the leaf refuses the record as the leaf in the frame does
        have hcells : SameCells (leafOf entry.pageId) a := by
          rw [← hbare]
          exact ⟨rfl, rfl⟩
        obtain ⟨a', ha', -⟩ := hcells.insertRecord_ok (hcells.symm.slotted hslot) hc'
        rw [hfull] at ha'
        cases ha'
      new := hnew
      header := hheader
      left_page := hleft
      right_page := hright
      left_slotted := hslotLeft
      right_slotted := hslotRight
      left_fits := hfitLeft
      right_fits := hfitRight
      left_stamp := rfl
      right_stamp := rfl
      left_next := ⟨rfl, rfl⟩
      right_next := by
        obtain ⟨_, _, _, rfl⟩ := hheadA
        rw [← hbare]
        rfl
      live := by
        rw [← hbare]
        exact hlive
      linked := by
        intro id hid
        obtain ⟨hhas, rfl⟩ := links_next_of_hasNext.mp hid
        exact hold hhas
      others := by
        intro id ha hne hleftNe hrightNe hnext
        refine hothers id ha hne hleftNe hrightNe fun hhas heq => ?_
        exact hnext (links_next_of_hasNext.mpr ⟨hhas, heq⟩) }

namespace Cut

variable {entry : WalEntry} {p' : BufferPool φ} {n : PageId} {left right : LeafNode}
  {promoted : UInt64}

omit [WalFlusher φ] in
theorem new_ne (h : Tallied s leafOf) (hcut : Cut s leafOf entry p' n left right)
    {id : PageId} (hid : id ∈ s.created) : id ≠ n := (h.allocated id hid).ne_new hcut.new

omit [WalFlusher φ] in
/-- The new page is in the file's range, and none of those there were. -/
theorem allocated (h : Tallied s leafOf) (hcut : Cut s leafOf entry p' n left right) :
    ∀ id ∈ n :: s.created, Allocated p' id := by
  refine List.forall_mem_cons.mpr ⟨⟨?_, ?_, ?_⟩, fun id hid => ?_⟩
  · -- the new page is where the counter stood, which has moved on
    rw [PageId.Aligned, hcut.new]
    exact h.fresh.aligned
  · intro hzero
    have hpos := h.fresh.pos
    rw [← hcut.new, hzero] at hpos
    exact absurd hpos (by decide)
  · rw [hcut.header, hcut.new]
    exact Nat.lt_add_of_pos_right (by decide)
  · have ha := h.allocated id hid
    refine ⟨ha.aligned, ha.ne_zero, ?_⟩
    rw [hcut.header]
    exact Nat.lt_add_right _ ha.below

omit [WalFlusher φ] in
/-- **What the log and the file have of every leaf** after a split. -/
theorem pages (h : Tallied s leafOf) (hpending : s.pending = some entry)
    (hcut : Cut s leafOf entry p' n left right) :
    ∀ id ∈ n :: s.created, Imaged p' id (entriesOf (s.entries ++ [entry]) id)
      (partedBy s.parted entry.pageId entry.lsn (some ⟨promoted, n⟩) id) entry.lsn
      (afterSplit leafOf entry.pageId n left right entry.lsn id) := by
  obtain ⟨hop, htarget, hpos⟩ := h.inserts entry (mem_logged_of_pending hpending)
  have hlsn := h.pending entry hpending
  have hnt : n ≠ entry.pageId := (new_ne h hcut htarget).symm
  have hn := (allocated h hcut) n (List.mem_cons_self ..)
  refine List.forall_mem_cons.mpr ⟨?_, fun id hid => ?_⟩
  · -- the new leaf: no entry names it, and its place was never written
    have hnone : entriesOf (s.entries ++ [entry]) n = [] := by
      rw [entriesOf_concat_of_ne hnt.symm]
      refine List.filter_eq_nil_iff.mpr fun e he heq => ?_
      have hmem := (h.inserts e (mem_logged_of_mem he)).2.1
      exact new_ne h hcut hmem (of_decide_eq_true heq)
    obtain ⟨c, hun⟩ := h.unused n hn.aligned hn.ne_zero fun hmem => new_ne h hcut hmem rfl
    rw [hnone, afterSplit_right hnt, partedBy, Function.update_self]
    exact .made hun hcut.right_page hcut.right_slotted hcut.right_fits hcut.right_stamp hpos
  · have hnid := new_ne h hcut hid
    by_cases heq : id = entry.pageId
    · -- the leaf that was cut
      subst heq
      rw [entriesOf_concat_self rfl, afterSplit_left, partedBy, Function.update_of_ne hnid,
        Function.update_self]
      exact (h.pages _ hid).divided h.faults hop hlsn hcut.full hcut.left_page hcut.left_slotted
        hcut.left_fits hcut.left_stamp
    · have ha := h.allocated id hid
      rw [entriesOf_concat_of_ne (Ne.symm heq), partedBy, Function.update_of_ne hnid,
        Function.update_of_ne heq]
      by_cases hnext : (leafOf entry.pageId).links.next = some id
      · rw [afterSplit_next heq hnid hnext]
        exact (h.pages id hid).relinked h.faults (UInt64.le_of_lt hlsn) (hcut.linked id hnext)
      · rw [afterSplit_other heq hnid hnext]
        have hserved := hcut.others id ha.aligned ha.ne_zero heq hnid hnext
        exact ((h.pages id hid).served h.faults hserved).later (UInt64.le_of_lt hlsn)

omit [WalFlusher φ] in
/-- The forward pointers lead to leaves of the level. -/
theorem next (h : Tallied s leafOf) (htarget : entry.pageId ∈ s.created)
    (hcut : Cut s leafOf entry p' n left right) :
    ∀ id ∈ n :: s.created,
      (afterSplit leafOf entry.pageId n left right entry.lsn id).hasNext = true →
        (⟨(afterSplit leafOf entry.pageId n left right entry.lsn id).nextPageId⟩ : PageId) ∈
          n :: s.created := by
  have hnt : n ≠ entry.pageId := (new_ne h hcut htarget).symm
  refine List.forall_mem_cons.mpr ⟨?_, fun id hid => ?_⟩
  · rw [afterSplit_right hnt]
    intro hhas
    -- the new leaf points to where the cut one did
    have hlink : right.links.next = some ⟨right.nextPageId⟩ :=
      links_next_of_hasNext.mpr ⟨hhas, rfl⟩
    rw [hcut.right_next] at hlink
    obtain ⟨hold, heq⟩ := links_next_of_hasNext.mp hlink
    rw [heq]
    exact List.mem_cons_of_mem _ (h.next _ htarget hold)
  · by_cases heq : id = entry.pageId
    · subst heq
      rw [afterSplit_left, hcut.left_next.2]
      exact fun _ => List.mem_cons_self ..
    · have hnid := new_ne h hcut hid
      by_cases hnext : (leafOf entry.pageId).links.next = some id
      · rw [afterSplit_next heq hnid hnext]
        exact fun hhas => List.mem_cons_of_mem _ (h.next id hid hhas)
      · rw [afterSplit_other heq hnid hnext]
        exact fun hhas => List.mem_cons_of_mem _ (h.next id hid hhas)

omit [WalFlusher φ] in
/-- No record is lost, and the new one is there. -/
theorem live_mem (h : Tallied s leafOf) (htarget : entry.pageId ∈ s.created)
    (hcut : Cut s leafOf entry p' n left right) :
    ∀ e ∈ s.entries ++ [entry], ∃ id ∈ n :: s.created, (e.rowId, e.payload) ∈
      (afterSplit leafOf entry.pageId n left right entry.lsn id).live := by
  have hnt : n ≠ entry.pageId := (new_ne h hcut htarget).symm
  -- a record of the halves is in one of them
  have hhalves : ∀ pair, pair ∈ (entry.rowId, entry.payload) :: (leafOf entry.pageId).live →
      ∃ id ∈ n :: s.created,
        pair ∈ (afterSplit leafOf entry.pageId n left right entry.lsn id).live := by
    intro pair hpair
    rcases List.mem_append.mp (hcut.live.mem_iff.mpr hpair) with hleft | hright
    · refine ⟨entry.pageId, List.mem_cons_of_mem _ htarget, ?_⟩
      rw [afterSplit_left]
      exact hleft
    · refine ⟨n, List.mem_cons_self .., ?_⟩
      rw [afterSplit_right hnt]
      exact hright
  intro e he
  rcases List.mem_append.mp he with he | he
  · obtain ⟨id, hid, hmem⟩ := h.live e he
    by_cases heq : id = entry.pageId
    · subst heq
      exact hhalves _ (List.mem_cons_of_mem _ hmem)
    · refine ⟨id, List.mem_cons_of_mem _ hid, ?_⟩
      rw [(sameCells_afterSplit heq (new_ne h hcut hid)).live]
      exact hmem
  · rw [List.mem_singleton.mp he]
    exact hhalves _ (List.mem_cons_self ..)

omit [WalFlusher φ] in
/-- **The leaf was split.** -/
theorem tallied (h : Tallied s leafOf) (hpending : s.pending = some entry)
    (hcut : Cut s leafOf entry p' n left right) :
    Tallied (s.inserted p' entry (some ⟨promoted, n⟩))
      (afterSplit leafOf entry.pageId n left right entry.lsn) := by
  have hsound := hcut.settled.sound h.toSound
  obtain ⟨-, htarget, -⟩ := h.inserts entry (mem_logged_of_pending hpending)
  exact
    { wf := hsound.wf
      fresh := hsound.fresh
      faults := hsound.faults
      wal := by
        rw [logged_inserted hpending]
        exact h.wal
      synced := h.synced
      inserts := by
        rw [logged_inserted hpending]
        intro e he
        obtain ⟨hop, hmem, hpos⟩ := h.inserts e he
        exact ⟨hop, List.mem_cons_of_mem _ hmem, hpos⟩
      pending := nofun
      allocated := allocated h hcut
      unused := by
        intro id ha hne hid
        -- a page that was not made is none of the three, whose successor was made before
        have hold : id ∉ s.created := fun hmem => hid (List.mem_cons_of_mem _ hmem)
        have hnid : id ≠ n := fun heq => hid (heq ▸ List.mem_cons_self ..)
        obtain ⟨c, hun⟩ := h.unused id ha hne hold
        refine ⟨c, Unwritten.serves (hcut.others id ha hne (fun heq => hold (heq ▸ htarget)) hnid
          fun hnext => ?_) hun⟩
        obtain ⟨hhas, rfl⟩ := links_next_of_hasNext.mp hnext
        exact hold (h.next _ htarget hhas)
      pages := pages h hpending hcut
      next := next h htarget hcut
      live := live_mem h htarget hcut }

end Cut

/-- What an insertion that returned has done, the entry being the pending one. -/
theorem Tallied.returned (h : Tallied s leafOf) {t : BpTree} {entry : WalEntry}
    {res : Option SplitResult} {p' : BufferPool φ} (hpending : s.pending = some entry)
    (hrun : t.insertLeaf entry.pageId entry.rowId entry.payload entry.lsn s.pool =
      some (.ok res, p')) :
    entry.pageId ∈ s.created ∧ Settled s.pool p' ∧ Inserted s.pool p' entry.pageId entry.rowId
      entry.payload entry.lsn (leafOf entry.pageId) res := by
  obtain ⟨-, htarget, -⟩ := h.inserts entry (mem_logged_of_pending hpending)
  have hpage := h.pages _ htarget
  exact ⟨htarget, insertLeaf_ok h.wf h.fresh (h.allocated _ htarget) (Holds.shows hpage.has)
    hpage.has.slotted (fun hhas => h.allocated _ (h.next _ htarget hhas)) hrun⟩

/-- **An insertion that returned** keeps the books. -/
theorem Tallied.insert (h : Tallied s leafOf) {t : BpTree} {entry : WalEntry}
    {res : Option SplitResult} {p' : BufferPool φ} (hpending : s.pending = some entry)
    (hrun : t.insertLeaf entry.pageId entry.rowId entry.payload entry.lsn s.pool =
      some (.ok res, p')) :
    ∃ leafOf', Tallied (s.inserted p' entry res) leafOf' := by
  obtain ⟨htarget, hset, hins⟩ := h.returned hpending hrun
  -- one leaf was changed, or it was cut in two
  cases hins with
  | whole hbare hinsert hpage hothers hheader =>
    exact ⟨_, h.whole hpending hset hbare hinsert hpage hothers hheader⟩
  | halves hbare hfull hsplit hinsert hnew hheader hleft hright hold hothers =>
    have hcut := h.cut htarget hset hbare hfull hsplit hinsert hnew hheader hleft hright
      (fun hhas => (hold hhas).2.2) hothers
    exact ⟨_, Cut.tallied h hpending hcut⟩

/-- **What a run keeps.** -/
theorem Loads.tallied (h : Loads first leaf s) : ∃ leafOf, Tallied s leafOf := by
  induction h with
  | start sync hp hflush => exact ⟨_, hp.tallied hflush sync⟩
  | client _ hc ih =>
    obtain ⟨leafOf, ih⟩ := ih
    exact ⟨leafOf, ih.client hc⟩
  | log _ hidle hop htarget hlsn hfits hwrite hsync ih =>
    obtain ⟨leafOf, ih⟩ := ih
    exact ⟨leafOf, ih.log hidle hop htarget hlsn hfits hwrite hsync⟩
  | insert _ hpending hrun ih =>
    obtain ⟨leafOf, ih⟩ := ih
    exact ih.insert hpending hrun

end Flusher

end Loading

end SmolDb
