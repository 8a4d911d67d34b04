import SmolDb.Recovery.Inserts
import SmolDb.Recovery.Repeat

/-!
# Which records survive a crash

`init` finds the log of a run of insertions and the images its leaves have in the file (`Found`).
Replay gets through the log when the leaf of every entry was written since its last split, and a
record is in a leaf afterwards when that leaf was (`Found.recovers_iff`). With the invariant of the
run this says when the records survive (`init_recovers_iff`).
-/

namespace SmolDb

open BpTree BufferPool LeafNode RecoveryEngine WriteBack

namespace RecoveryEngine

variable {φ ψ : Type} {p : BufferPool φ} {q q' : BufferPool ψ} {id : PageId} {c : BTreeNode}
  {batch entries : List WalEntry} {created : List PageId} {parted : PageId → UInt64}
  {lsn m : UInt64} {leafOf : PageId → LeafNode} {order : HashOrder} {log : LogFile}

/-! ### A page that was never written -/

/-- Entries with LSNs are not redone on a page that was never written. -/
theorem UpTo.blank (h : UpTo q id zeroNode.bare False entries)
    (hpos : ∀ entry ∈ entries, 0 < entry.lsn) :
    entries = [] ∧ ∀ c, (q.line id).shows = some c → c = zeroNode.bare := by
  -- no entry can have been redone on a page of zeros, and none is skipped: its LSN is 0
  have hnil : entries = [] := by
    cases entries with
    | nil => rfl
    | cons entry entries =>
      have hlt : 0 < entry.lsn := hpos entry (List.mem_cons_self ..)
      refine absurd ?_ (UInt64.not_le.mpr hlt)
      obtain ⟨-, _, ⟨n, hn, -⟩, -⟩ | ⟨-, -, hskipped⟩ := h
      · rw [redoAll_cons] at hn
        obtain ⟨n₁, hn₁, -⟩ := Option.bind_eq_some_iff.mp hn
        exact redo_zero (BTreeNode.bare_bare zeroNode) hn₁
      · exact hskipped entry (List.mem_cons_self ..)
  subst hnil
  refine ⟨rfl, fun c hc => ?_⟩
  obtain ⟨-, c', hredone, hhas⟩ | ⟨-, ⟨hblank, hcopy⟩, -⟩ := h
  · obtain rfl := hredone.unique (.nil _)
    rw [Holds.shows hhas] at hc
    rw [← Option.some.inj hc, BTreeNode.bare_bare]
  · unfold Line.shows at hc
    split at hc
    · next f c' d hf =>
      obtain rfl : c' = c := Option.some.inj hc
      obtain ⟨-, rfl | hstored⟩ := hcopy f c' d hf
      · rfl
      · exact stored_of_blank hblank hstored
    · exact stored_of_blank hblank hc

/-- A pool that was just made has of a page what the file has. -/
theorem traced_new {d : DiskManager} (hfile : d.file = p.diskManager.file) (capacity : ℕ)
    (w : Option ψ) {Q : Prop} {S : BTreeNode → Prop} (h : Traced Q S (p.line id)) :
    Traced Q S ((new d capacity w).line id) := by
  unfold Traced at h ⊢
  rw [stored_new, hfile]
  show d.file.Blank _ ∧ Q ∨ _
  rw [hfile]
  exact h

/-! ### What replay finds -/

/-- A pool that was just made over a file that has images of leaves, and the log of insertions into
them. -/
structure Found [WalFlusher ψ] (q : BufferPool ψ) (batch : List WalEntry) (created : List PageId)
    (parted : PageId → UInt64) (lsn : UInt64) (leafOf : PageId → LeafNode) : Prop
    extends Serviceable q where
  empty : ∀ id, (q.line id).cached = none
  inserts : ∀ entry ∈ batch,
    entry.opcode = .insert ∧ entry.pageId ∈ created ∧ 0 < entry.lsn
  pages : ∀ id ∈ created, id.Aligned ∧ id.val ≠ 0
  unused : ∀ id : PageId, id.Aligned → id.val ≠ 0 → id ∉ created → (q.line id).blank
  images : ∀ id ∈ created,
    Traced (0 < parted id) (Image (entriesOf batch id) (parted id) lsn (leafOf id)) (q.line id)

section Flusher

variable [WalFlusher ψ]

namespace Found

theorem ids (h : Found q batch created parted lsn leafOf) :
    ∀ entry ∈ batch, entry.pageId.Aligned ∧ entry.pageId.val ≠ 0 :=
  fun entry he => h.pages _ (h.inserts entry he).2.1

theorem mem_entriesOf {entry : WalEntry} (he : entry ∈ entriesOf batch id) :
    entry ∈ batch ∧ entry.pageId = id := by
  obtain ⟨hmem, heq⟩ := List.mem_filter.mp he
  exact ⟨hmem, of_decide_eq_true heq⟩

/-- The page of an image has its content. -/
theorem has (h : Found q batch created parted lsn leafOf)
    (hstored : (q.line id).stored = some c) (hs : c.IsSlotted) : q.Has id c := by
  refine ⟨hs, .inr ⟨hstored, fun f c' d hf => ?_⟩⟩
  rw [h.empty id] at hf
  cases hf

/-- **The leaf of a page** whose image is not older than its last split, behind the entries of the
log. -/
theorem whole (h : Found q batch created parted lsn leafOf) (hid : id ∈ created)
    (hwhole : q.WrittenSince id (parted id)) :
    ∃ (c : BTreeNode) (leaf : LeafNode), q.Has id c ∧
      RedoneTo c (entriesOf batch id) (.leaf leaf) ∧ SameCells (leafOf id) leaf ∧
      Redoable c (entriesOf batch id) := by
  obtain ⟨c, hstored, hle⟩ := hwhole
  have himage : Image (entriesOf batch id) (parted id) lsn (leafOf id) c := by
    obtain ⟨hblank, hpos⟩ | ⟨st, hst, himage⟩ := h.images id hid
    · -- the place of the page is not blank
      rw [stored_of_blank hblank hstored] at hle
      exact absurd hle (UInt64.not_le.mpr hpos)
    · rw [hstored, Option.some.injEq] at hst
      exact hst ▸ himage
  obtain ⟨leaf, hredone, -, hcells⟩ := himage.whole hle
  refine ⟨c, leaf, h.has hstored himage.slotted, hredone, hcells, ?_⟩
  refine redoable_of_redoneTo (fun entry he => ?_) himage.slotted himage.fits hredone
  exact (h.inserts entry (mem_entriesOf he).1).1

/-- **Replay succeeds** when the leaf of every entry was written since its last split. Then every
leaf that was has the cells it had. -/
theorem replays (h : Found q batch created parted lsn leafOf)
    (hwhole : ∀ entry ∈ batch, q.WrittenSince entry.pageId (parted entry.pageId))
    (order : HashOrder) :
    ∃ m q', replay order batch q = some (.ok m, q') ∧
      ∀ id ∈ created, q.WrittenSince id (parted id) → ∃ leaf : LeafNode,
        (q'.line id).shows = some (.leaf leaf) ∧ SameCells (leafOf id) leaf := by
  -- what the file has
  let content : PageId → BTreeNode := fun id => ((q.line id).stored).getD zeroNode
  have hcontent : ∀ {id c}, q.Has id c → content id = c := by
    intro id c hc
    obtain ⟨-, ⟨f, hf⟩ | ⟨hstored, -⟩⟩ := hc
    · rw [h.empty id] at hf
      cases hf
    · show ((q.line id).stored).getD zeroNode = c
      rw [hstored]
      rfl
  have hpages : ∀ entry ∈ batch, entry.pageId.Aligned ∧ entry.pageId.val ≠ 0 ∧
      q.Has entry.pageId (content entry.pageId) := by
    intro entry he
    obtain ⟨ha, hne⟩ := h.ids entry he
    obtain ⟨c, leaf, hhas, -⟩ := h.whole (h.inserts entry he).2.1 (hwhole entry he)
    rw [hcontent hhas]
    exact ⟨ha, hne, hhas⟩
  have hredo : ∀ id, Redoable (content id) (entriesOf batch id) := by
    intro id
    by_cases hnil : entriesOf batch id = []
    · rw [hnil]
      trivial
    · obtain ⟨entry, he⟩ := List.exists_mem_of_ne_nil _ hnil
      obtain ⟨hmem, rfl⟩ := mem_entriesOf he
      obtain ⟨c, leaf, hhas, -, -, hredoable⟩ :=
        h.whole (h.inserts entry hmem).2.1 (hwhole entry hmem)
      rw [hcontent hhas]
      exact hredoable
  obtain ⟨m, q₁, hloop, hserv⟩ := replayLoop_returns h.toServiceable hpages hredo 0
  obtain ⟨q', hreplay, -⟩ := replay_returns hloop hserv order
  refine ⟨m, q', hreplay, fun id hid hsince => ?_⟩
  obtain ⟨ha, hne⟩ := h.pages id hid
  obtain ⟨c, leaf, hhas, hredone, hcells, -⟩ := h.whole hid hsince
  obtain ⟨node, -, hredone', hhas'⟩ := replay_saved h.wf h.ids hreplay ha hne hhas
  rw [hredone'.unique hredone] at hhas'
  exact ⟨leaf, Holds.shows hhas', hcells⟩

/-- A replay that succeeded, on a page that was never written. -/
theorem blank_of_replay (h : Found q batch created parted lsn leafOf)
    (hreplay : replay order batch q = some (.ok m, q')) (ha : id.Aligned) (hne : id.val ≠ 0)
    (hblank : (q.line id).blank) :
    entriesOf batch id = [] ∧ ∀ c, (q'.line id).shows = some c → c = zeroNode.bare := by
  have hup : UpTo q id zeroNode.bare False [] := by
    refine .inr ⟨not_false, ⟨hblank, fun f c d hf => ?_⟩, nofun⟩
    rw [h.empty id] at hf
    cases hf
  obtain ⟨-, hall⟩ := replay_ends h.wf h.ids hreplay
  have hslotted : zeroNode.bare.IsSlotted := List.Perm.refl _
  refine (hall id _ False ha hne (BTreeNode.bare_bare _) hslotted hup).blank fun entry he => ?_
  exact (h.inserts entry (mem_entriesOf he).1).2.2

/-- **A replay that succeeded** has found, for a page that it has entries of, an image that is not
older than the last split of the page; and so it has for a page that has a leaf afterwards. -/
theorem of_replay (h : Found q batch created parted lsn leafOf)
    (hreplay : replay order batch q = some (.ok m, q')) (hid : id ∈ created)
    (hseen : entriesOf batch id ≠ [] ∨ ∃ leaf, (q'.line id).shows = some (.leaf leaf)) :
    q.WrittenSince id (parted id) ∧ ∃ leaf : LeafNode,
      (q'.line id).shows = some (.leaf leaf) ∧ SameCells (leafOf id) leaf := by
  obtain ⟨ha, hne⟩ := h.pages id hid
  obtain ⟨hblank, -⟩ | ⟨c, hstored, himage⟩ := h.images id hid
  · obtain ⟨hnil, hshows⟩ := h.blank_of_replay hreplay ha hne hblank
    obtain hentries | ⟨leaf, hleaf⟩ := hseen
    · exact absurd hnil hentries
    · cases hshows _ hleaf
  · have hhas := h.has hstored himage.slotted
    -- the file has an image of the leaf, and the replay runs over it
    obtain ⟨node, -, hredone, hhas'⟩ := replay_saved h.wf h.ids hreplay ha hne hhas
    obtain hlt | hle := UInt64.lt_or_le c.getLastLsn (parted id)
    · -- an image from before the split
      obtain ⟨n, hn, -⟩ := hredone
      rw [himage.stuck hlt] at hn
      cases hn
    · obtain ⟨leaf, hredone', -, hcells⟩ := himage.whole hle
      rw [hredone.unique hredone'] at hhas'
      exact ⟨⟨c, hstored, hle⟩, leaf, Holds.shows hhas', hcells⟩

/-- The leaves that a replay leaves are leaves of the level. -/
theorem mem_of_shows (h : Found q batch created parted lsn leafOf)
    (hreplay : replay order batch q = some (.ok m, q')) (ha : id.Aligned) (hne : id.val ≠ 0)
    {leaf : LeafNode} (hleaf : (q'.line id).shows = some (.leaf leaf)) : id ∈ created := by
  by_contra hid
  obtain ⟨-, hshows⟩ := h.blank_of_replay hreplay ha hne (h.unused id ha hne hid)
  cases hshows _ hleaf

end Found

/-- On a log without faults `init` does what replay does. -/
theorem init_ok_iff {n : UInt64} (hlog : WalManager.Logged (.openFile log false) batch)
    (hne : batch ≠ []) :
    (∃ log', init order (log, q) = some (.ok n, (log', q'))) ↔
      replay order batch q = some (.ok n, q') := by
  -- `init` reads the batch back, replays it and empties the log
  have hread := hlog.readBatch
  constructor
  · rintro ⟨log', hinit⟩
    generalize hr : (.ok n : Except DbError UInt64) = r at hinit
    cases init_outcome hinit with
    | unread => cases hr
    | empty hread' =>
      rw [hread] at hread'
      cases hread'
      exact absurd rfl hne
    | failed => cases hr
    | @replayed w w' batch' n' r' _ hread' _ hreplay hwipe =>
      rw [hread] at hread'
      cases hread'
      cases r' with
      | error e => cases hr
      | ok =>
        cases hr
        exact hreplay
  · intro hreplay
    have hlogged : WalManager.Logged
        { WalManager.openFile log false with
          flushedLsn := WalManager.maxLsn batch
          entryCount := batch.length } batch := ⟨hlog.noFaults, hlog.bytes, hlog.fits⟩
    obtain ⟨w₁, htruncate, hlogged₁⟩ := hlogged.truncate
    obtain ⟨w₂, hsync, -⟩ := hlogged₁.syncFile
    exact ⟨w₂.file, init_replayed hread hne hreplay ((Exec.bind_of_ok htruncate).trans hsync)⟩

/-- **Which records are back.** Those of the log are, when the leaf of every entry was written since
its last split and every record is in a leaf that was; and else `init` fails or one of them is not
back. -/
theorem Found.recovers_iff (h : Found q batch created parted lsn leafOf)
    (hlog : WalManager.Logged (.openFile log false) batch) (order : HashOrder) :
    Loading.Recovers order log q batch ↔
      (∀ entry ∈ batch, q.WrittenSince entry.pageId (parted entry.pageId)) ∧
      ∀ entry ∈ batch, ∃ id ∈ created, q.WrittenSince id (parted id) ∧
        (entry.rowId, entry.payload) ∈ (leafOf id).live := by
  by_cases hnil : batch = []
  · -- the log is empty, and `init` returns at once
    subst hnil
    refine ⟨fun _ => ⟨nofun, nofun⟩, fun _ => ?_⟩
    exact ⟨_, _, q, init_empty hlog.readBatch, nofun⟩
  constructor
  · rintro ⟨n, log', q', hinit, hlive⟩
    have hreplay := (init_ok_iff hlog hnil).mp ⟨log', hinit⟩
    refine ⟨fun entry he => ?_, fun entry he => ?_⟩
    · -- an entry of the batch was redone on its page
      refine (h.of_replay hreplay (h.inserts entry he).2.1 (.inl ?_)).1
      exact List.ne_nil_of_mem (List.mem_filter.mpr ⟨he, decide_eq_true rfl⟩)
    · obtain ⟨id, leaf, ha, hne, hshows, hmem⟩ := hlive entry he
      have hid := h.mem_of_shows hreplay ha hne hshows
      obtain ⟨hsince, leaf', hshows', hcells⟩ := h.of_replay hreplay hid (.inr ⟨leaf, hshows⟩)
      rw [hshows] at hshows'
      cases hshows'
      refine ⟨id, hid, hsince, ?_⟩
      rw [← hcells.live]
      exact hmem
  · rintro ⟨hwhole, hlive⟩
    obtain ⟨n, q', hreplay, hleaves⟩ := h.replays hwhole order
    obtain ⟨log', hinit⟩ := (init_ok_iff hlog hnil).mpr hreplay
    refine ⟨n, log', q', hinit, fun entry he => ?_⟩
    obtain ⟨id, hid, hsince, hmem⟩ := hlive entry he
    obtain ⟨leaf, hshows, hcells⟩ := hleaves id hid hsince
    obtain ⟨ha, hne⟩ := h.pages id hid
    refine ⟨id, leaf, ha, hne, hshows, ?_⟩
    rw [hcells.live]
    exact hmem

end Flusher

end RecoveryEngine

namespace Loading

variable {φ ψ : Type} [WalFlusher φ] [WalFlusher ψ] {s : Loading φ} {q : BufferPool ψ}
  {log : LogFile} {leafOf leafOf' : PageId → LeafNode} {parted : PageId → UInt64} {lsn : UInt64}
  {first : PageId} {leaf : LeafNode} {entry : WalEntry}

omit [WalFlusher φ] in
/-- The log has everything that was synced. -/
theorem Lost.logged (h : Tallied s leafOf) (hlost : Lost s log q) :
    WalManager.Logged (.openFile log false) s.logged := by
  cases hlost with
  | lost hkept =>
    refine ⟨rfl, ?_, h.wal.fits⟩
    rw [h.synced] at hkept
    show s.wal.file.bytes.take _ = _
    rw [List.take_of_length_le hkept]
    exact h.wal.bytes

omit [WalFlusher φ] in
/-- The file has what it had. -/
theorem Lost.writtenSince_iff (hlost : Lost s log q) (id : PageId) (lsn : UInt64) :
    q.WrittenSince id lsn ↔ s.pool.WrittenSince id lsn := by
  cases hlost with
  | lost _ hopen =>
    obtain ⟨hfile, -⟩ := DiskManager.openFile_ok hopen
    unfold WrittenSince
    rw [stored_new, hfile]
    exact Iff.rfl

omit [WalFlusher φ] in
/-- What the next process finds. -/
theorem Lost.found (h : Tallied s leafOf) (hlost : Lost s log q)
    (himages : ∀ id ∈ s.created, Traced (0 < parted id)
      (Image (entriesOf s.logged id) (parted id) lsn (leafOf' id)) (s.pool.line id)) :
    Found q s.logged s.created parted lsn leafOf' := by
  cases hlost with
  | @lost kept synced capacity d w _ hopen hcap hrel =>
    -- the disk that is opened again has the file as it was, and the pool over it is empty
    obtain ⟨hfile, hno⟩ := DiskManager.openFile_ok hopen
    have hserv := Serviceable.new hno hcap hrel
    exact
      { toServiceable := hserv
        empty := fun id => congrArg Line.cached (line_of_not_cached (AList.lookup_empty id))
        inserts := h.inserts
        pages := fun id hid => ⟨(h.allocated id hid).aligned, (h.allocated id hid).ne_zero⟩
        unused := by
          intro id ha hne hid
          obtain ⟨c, hblank, -⟩ := h.unused id ha hne hid
          show d.file.Blank id.val.toNat
          rw [hfile]
          exact hblank
        images := fun id hid => traced_new hfile _ _ (himages id hid) }

/-! ### The three cases -/

omit [WalFlusher φ] [WalFlusher ψ] in
theorem logged_of_pending (hpending : s.pending = some entry) :
    s.logged = s.entries ++ [entry] := by
  rw [Loading.logged, hpending]
  rfl

omit [WalFlusher φ] [WalFlusher ψ] in
/-- A leaf of the level has one content. -/
theorem Tallied.leaf_eq (h : Tallied s leafOf) {id : PageId} (hid : id ∈ s.created)
    {leaf : LeafNode} (hhas : s.pool.Has id (.leaf leaf)) : leafOf id = leaf :=
  BTreeNode.leaf.inj ((h.pages id hid).has.unique hhas)

omit [WalFlusher φ] in
/-- **Nothing is pending.** -/
theorem Tallied.recovers_idle (h : Tallied s leafOf) (hlost : Lost s log q)
    (hidle : s.pending = none) (order : HashOrder) :
    Recovers order log q s.logged ↔ s.Covered := by
  have hlogged := logged_of_idle hidle
  have hfound : Found q s.logged s.created s.parted s.lsn leafOf := by
    refine hlost.found h fun id hid => ?_
    rw [hlogged]
    exact (h.pages id hid).image
  -- the images in the file are those of the pages, and `Covered` speaks of both
  rw [hfound.recovers_iff (hlost.logged h) order]
  simp only [hlost.writtenSince_iff]
  constructor
  · rintro ⟨hwhole, hlive⟩
    refine ⟨hwhole, fun entry he => ?_, fun entry he => .inl ?_⟩
    · rw [hidle] at he
      cases he
    · obtain ⟨id, hid, hsince, hmem⟩ := hlive entry (mem_logged_of_mem he)
      exact ⟨id, hid, hsince, _, (h.pages id hid).has, hmem⟩
  · rintro ⟨hwhole, -, hlive⟩
    refine ⟨hwhole, fun entry he => ?_⟩
    rw [hlogged] at he
    obtain ⟨id, hid, hsince, leaf, hhas, hmem⟩ | ⟨next, hnext, -⟩ := hlive entry he
    · rw [← h.leaf_eq hid hhas] at hmem
      exact ⟨id, hid, hsince, hmem⟩
    · rw [hidle] at hnext
      cases hnext

omit [WalFlusher φ] in
/-- **The leaf takes the record that is pending**, and so does the image replay has brought up. -/
theorem Tallied.recovers_taken (h : Tallied s leafOf) (hlost : Lost s log q)
    (hpending : s.pending = some entry) {c' : LeafNode}
    (hinsert : insertRecord entry.rowId entry.payload (leafOf entry.pageId) = some (.ok (), c'))
    (order : HashOrder) : Recovers order log q s.logged ↔ s.Covered := by
  obtain ⟨hop, htarget, -⟩ := h.inserts entry (mem_logged_of_pending hpending)
  have hlsn := h.pending entry hpending
  have hslot : (leafOf entry.pageId).IsSlotted := (h.pages _ htarget).has.slotted
  have hlogged := logged_of_pending hpending
  have hself : Function.update leafOf entry.pageId c' entry.pageId = c' := Function.update_self ..
  have hfound : Found q s.logged s.created s.parted entry.lsn
      (Function.update leafOf entry.pageId c') := by
    refine hlost.found h fun id hid => ?_
    rw [hlogged]
    refine (h.pages id hid).image.mono (fun hpos => hpos) fun st himage => ?_
    by_cases heq : id = entry.pageId
    · subst heq
      rw [hself, entriesOf_concat_self rfl]
      exact himage.inserted hop hlsn hslot hinsert
    · rw [Function.update_of_ne heq, entriesOf_concat_of_ne (Ne.symm heq)]
      exact himage.later (UInt64.le_of_lt hlsn) (.refl _)
  -- the record comes to those of its leaf
  have hperm := hslot.insertRecord_perm hinsert
  rw [hfound.recovers_iff (hlost.logged h) order]
  simp only [hlost.writtenSince_iff]
  constructor
  · rintro ⟨hwhole, hlive⟩
    refine ⟨hwhole, fun next hnext => ?_, fun e he => ?_⟩
    · rw [hpending] at hnext
      cases hnext
      exact ⟨_, c', (h.pages _ htarget).has, hinsert⟩
    · obtain ⟨id, hid, hsince, hmem⟩ := hlive e (mem_logged_of_mem he)
      by_cases heq : id = entry.pageId
      · subst heq
        rw [hself, hperm.mem_iff, List.mem_cons] at hmem
        obtain hnew | hold := hmem
        · exact .inr ⟨entry, hpending, hnew.symm⟩
        · exact .inl ⟨_, htarget, hsince, _, (h.pages _ htarget).has, hold⟩
      · rw [Function.update_of_ne heq] at hmem
        exact .inl ⟨id, hid, hsince, _, (h.pages id hid).has, hmem⟩
  · rintro ⟨hwhole, -, hlive⟩
    have hnew : ∃ id ∈ s.created, s.pool.WrittenSince id (s.parted id) ∧
        (entry.rowId, entry.payload) ∈ (Function.update leafOf entry.pageId c' id).live := by
      refine ⟨entry.pageId, htarget, hwhole entry (mem_logged_of_pending hpending), ?_⟩
      rw [hself, hperm.mem_iff]
      exact List.mem_cons_self ..
    refine ⟨hwhole, fun e he => ?_⟩
    rw [hlogged] at he
    rcases List.mem_append.mp he with he | he
    · obtain ⟨id, hid, hsince, leaf, hhas, hmem⟩ | ⟨next, hnext, heq⟩ := hlive e he
      · rw [← h.leaf_eq hid hhas] at hmem
        refine ⟨id, hid, hsince, ?_⟩
        by_cases heq : id = entry.pageId
        · subst heq
          rw [hself, hperm.mem_iff]
          exact List.mem_cons_of_mem _ hmem
        · rw [Function.update_of_ne heq]
          exact hmem
      · rw [hpending] at hnext
        cases hnext
        rw [← heq]
        exact hnew
    · rw [List.mem_singleton.mp he]
      exact hnew

omit [WalFlusher φ] in
/-- **The leaf does not take the record that is pending.** Its entry cannot be redone on any image
there is. -/
theorem Tallied.recovers_refused (h : Tallied s leafOf) (hlost : Lost s log q)
    (hpending : s.pending = some entry)
    (hno : ∀ c', insertRecord entry.rowId entry.payload (leafOf entry.pageId) ≠ some (.ok (), c'))
    (order : HashOrder) : Recovers order log q s.logged ↔ s.Covered := by
  obtain ⟨hop, htarget, hpos⟩ := h.inserts entry (mem_logged_of_pending hpending)
  have hlsn := h.pending entry hpending
  have hpage := h.pages _ htarget
  have hlogged := logged_of_pending hpending
  -- as if the leaf had been split
  have hself : Function.update s.parted entry.pageId entry.lsn entry.pageId = entry.lsn :=
    Function.update_self ..
  have hfound : Found q s.logged s.created (Function.update s.parted entry.pageId entry.lsn)
      entry.lsn leafOf := by
    refine hlost.found h fun id hid => ?_
    rw [hlogged]
    by_cases heq : id = entry.pageId
    · subst heq
      rw [hself, entriesOf_concat_self rfl]
      refine hpage.image.mono (fun _ => hpos) fun st himage => ?_
      exact himage.divided hop hlsn hpage.has.slotted hno
    · rw [Function.update_of_ne heq, entriesOf_concat_of_ne (Ne.symm heq)]
      refine (h.pages id hid).image.mono (fun hpos => hpos) fun st himage => ?_
      exact himage.later (UInt64.le_of_lt hlsn) (.refl _)
  rw [hfound.recovers_iff (hlost.logged h) order]
  simp only [hlost.writtenSince_iff]
  constructor
  · rintro ⟨hwhole, -⟩
    have hsince := hwhole entry (mem_logged_of_pending hpending)
    rw [hself] at hsince
    obtain ⟨c, hstored, hle⟩ := hsince
    obtain ⟨hblank, -⟩ | ⟨st, hst, himage⟩ := hpage.image
    · rw [stored_of_blank hblank hstored] at hle
      exact absurd hle (UInt64.not_le.mpr hpos)
    · rw [hstored, Option.some.injEq] at hst
      subst hst
      exact absurd (UInt64.le_trans hle himage.le) (UInt64.not_le.mpr hlsn)
  · rintro ⟨-, hfits, -⟩
    obtain ⟨leaf, leaf', hhas, hinsert⟩ := hfits entry hpending
    rw [← h.leaf_eq htarget hhas] at hinsert
    exact absurd hinsert (hno leaf')

omit [WalFlusher φ] in
/-- **What the file has to have.** -/
theorem Tallied.recovers_iff (h : Tallied s leafOf) (hlost : Lost s log q) (order : HashOrder) :
    Recovers order log q s.logged ↔ s.Covered := by
  cases hpending : s.pending with
  | none => exact h.recovers_idle hlost hpending order
  | some entry =>
    by_cases htaken : ∃ c', insertRecord entry.rowId entry.payload (leafOf entry.pageId) =
        some (.ok (), c')
    · obtain ⟨c', hinsert⟩ := htaken
      exact h.recovers_taken hlost hpending hinsert order
    · refine h.recovers_refused hlost hpending (fun c' hinsert => ?_) order
      exact htaken ⟨c', hinsert⟩

/-! ### Flushes and splits -/

omit [WalFlusher ψ] in
/-- After `flush_all_pages` the file has everything. -/
theorem Tallied.covered_flushed (h : Tallied s leafOf) (hidle : s.pending = none)
    {order : HashOrder} {p' : BufferPool φ}
    (hflush : flushAllPages order s.pool = some (.ok (), p')) :
    Covered { s with pool := p' } := by
  have hclean := (flushAllPages_ok h.wf hflush).1
  have h' := h.client (.flushAll hflush)
  have hlogged := logged_of_idle hidle
  -- a flush that succeeds leaves the last content of every page in the file
  have hwhole : ∀ id ∈ s.created, Whole { s with pool := p' } id := by
    intro id hid
    have hpage := h'.pages id hid
    obtain ⟨node, hnode, hbare⟩ := hpage.has.stored fun f node hl hf => hclean id f node hl hf
    refine ⟨.leaf (leafOf id), ?_, hpage.parted_le⟩
    rw [← hbare]
    exact congrArg (Option.map BTreeNode.bare) hnode
  refine ⟨fun entry he => hwhole _ (h.inserts entry he).2.1, fun entry he => ?_, fun entry he => ?_⟩
  · rw [show s.pending = some entry from he] at hidle
    cases hidle
  · obtain ⟨id, hid, hmem⟩ := h'.live entry he
    exact .inl ⟨id, hid, hwhole id hid, _, (h'.pages id hid).has, hmem⟩

omit [WalFlusher φ] [WalFlusher ψ] in
/-- Right behind a split the file has an old image of the leaf that was cut. -/
theorem Cut.not_covered (h : Tallied s leafOf) (hpending : s.pending = some entry)
    {p' : BufferPool φ} {n : PageId} {left right : LeafNode} {promoted : UInt64}
    (hcut : Cut s leafOf entry p' n left right) :
    ¬ (s.inserted p' entry (some ⟨promoted, n⟩)).Covered := by
  obtain ⟨-, htarget, hpos⟩ := h.inserts entry (mem_logged_of_pending hpending)
  have hlsn := h.pending entry hpending
  have hpage := h.pages _ htarget
  -- whatever the pool has written in the meantime
  have himage : Traced True (fun c => c.getLastLsn ≤ s.lsn) (p'.line entry.pageId) :=
    hcut.left_page.traced h.faults hpage.has hpage.lsn_le
      (hpage.image.mono (fun _ => trivial) fun _ hst => hst.le)
  rintro ⟨hwhole, -⟩
  have hsince := hwhole entry (by
    rw [logged_inserted hpending]
    exact mem_logged_of_pending hpending)
  have hparted : (s.inserted p' entry (some ⟨promoted, n⟩)).parted entry.pageId = entry.lsn := by
    show Function.update (Function.update s.parted entry.pageId entry.lsn) n entry.lsn _ = _
    rw [Function.update_of_ne (Cut.new_ne h hcut htarget), Function.update_self]
  rw [Whole, hparted] at hsince
  obtain ⟨c, hstored, hle⟩ := hsince
  obtain ⟨hblank, -⟩ | ⟨st, hst, hold⟩ := himage
  · rw [stored_of_blank hblank hstored] at hle
    exact absurd hle (UInt64.not_le.mpr hpos)
  · obtain rfl : c = st := Option.some.inj (hstored.symm.trans hst)
    exact absurd (UInt64.le_trans hle hold) (UInt64.not_le.mpr hlsn)

omit [WalFlusher ψ] in
/-- **A crash right behind a split loses records**, whatever the run was before. -/
theorem Tallied.not_covered_split (h : Tallied s leafOf) (hpending : s.pending = some entry)
    {t : BpTree} {cut : SplitResult} {p' : BufferPool φ}
    (hrun : t.insertLeaf entry.pageId entry.rowId entry.payload entry.lsn s.pool =
      some (.ok (some cut), p')) : ¬ (s.inserted p' entry (some cut)).Covered := by
  obtain ⟨htarget, hset, hins⟩ := h.returned hpending hrun
  cases hins with
  | halves hbare hfull hsplit hinsert hnew hheader hleft hright hold hothers =>
    have hcut := h.cut htarget hset hbare hfull hsplit hinsert hnew hheader hleft hright
      (fun hhas => (hold hhas).2.2) hothers
    exact Cut.not_covered h hpending hcut

/-- **Logged insertions survive a crash exactly when** the file has what replay cannot make: the
leaves of the entries since their last splits, and the records in them. -/
theorem init_recovers_iff (h : Loads first leaf s) (hlost : Lost s log q) (order : HashOrder) :
    Recovers order log q s.logged ↔ s.Covered := by
  obtain ⟨leafOf, htallied⟩ := h.tallied
  exact htallied.recovers_iff hlost order

/-! ### One split -/

omit [WalFlusher φ] [WalFlusher ψ] in
/-- A full leaf, with room for one more record in a half. -/
theorem exists_full : ∃ leaf : LeafNode, (leaf.IsSlotted ∧ leaf.Sorted ∧
      leaf.encodedSize ≤ pageSize ∧ ∀ r ∈ leaf.rows, r.rowId ≠ 9) ∧
    (leaf.bare = leaf ∧ leaf.hasNext = false ∧ leaf.lastLsn = 0) ∧
    (∃ leaf', insertRecord 9 (List.replicate maxValueSize 0) leaf =
      some (.error .pageFull, leaf')) ∧
    leaf.HalfHasRoom 9 (List.replicate maxValueSize 0) := by
  -- nine large records, built by the leaf's own operations
  have hrun : (runCalls (newEmpty ⟨4096⟩) nineLarge).map (fun leaf =>
      ((leaf.encodedSize, leaf.rows.map Record.rowId), (leaf.hasNext, leaf.lastLsn),
        leaf.upperLive.head?.map Record.rowId, packedSize leaf.upperLive)) =
      some ((3776, [0, 1, 2, 3, 4, 5, 6, 7, 8]), (false, 0), some 4, 2116) := by
    decide +kernel
  obtain ⟨leaf, hleaf, heq⟩ := Option.map_eq_some_iff.mp hrun
  simp only [Prod.mk.injEq] at heq
  obtain ⟨⟨hsize, hids⟩, ⟨hend, hlsn⟩, hfirst, hupper⟩ := heq
  have hbuilt : Built LeafOp.AddsOrDeletes leaf := .runCalls (.new _) (by decide) hleaf
  have hs : leaf.bare.IsSlotted := hbuilt.slotted
  have hsorted : leaf.bare.Sorted := hbuilt.sorted
  have habsent : ∀ r ∈ leaf.bare.rows, r.rowId ≠ 9 := by
    intro r hr heq
    have hmem : r.rowId ∈ leaf.rows.map Record.rowId := List.mem_map_of_mem hr
    rw [hids, heq] at hmem
    exact absurd hmem (by decide)
  have hsize' : leaf.bare.encodedSize = 3776 := hsize
  have hlen : (List.replicate maxValueSize (0 : UInt8)).length ≤ maxValueSize :=
    Nat.le_of_eq List.length_replicate
  obtain ⟨as, bs, -, hsearch, -⟩ := hs.search_of_absent hsorted habsent
  refine ⟨leaf.bare, ⟨hs, hsorted, ?_, habsent⟩, ⟨rfl, hend, hlsn⟩,
    (hs.insertRecord_pageFull_iff hlen hsearch).mpr ?_, ?_⟩
  · rw [hsize']
    decide
  · -- a tenth record of the largest size does not fit
    rw [hsize', recordSize, List.length_replicate]
    decide
  · -- it fits into the upper half, which keeps five of the nine
    obtain ⟨first, hhead, hid⟩ := Option.map_eq_some_iff.mp hfirst
    obtain ⟨rest, hcons⟩ := List.head?_eq_some_iff.mp hhead
    refine ⟨first, rest, hcons, ?_⟩
    have hlt : ¬ (9 : UInt64) < first.rowId := by
      rw [hid]
      decide
    have hpacked : packedSize leaf.bare.upperLive = 2116 := hupper
    rw [if_neg hlt, hpacked, recordSize, List.length_replicate]
    decide

/-- The disk with one leaf. -/
def diskOf (leaf : LeafNode) : DiskManager :=
  ⟨DataFile.empty.save ⟨4096⟩ (.leaf leaf), { FileHeader.default with nextFreeOffset := 8192 }, []⟩

/-- The record that splits the leaf. -/
def splitEntry : WalEntry := ⟨.insert, 1, ⟨4096⟩, 9, List.replicate maxValueSize 0⟩

omit [WalFlusher φ] [WalFlusher ψ] in
theorem fits_splitEntry : splitEntry.Fits := by
  have hlen : splitEntry.payload.length = maxValueSize := List.length_replicate
  unfold WalEntry.Fits WalEntry.size
  rw [hlen]
  decide

omit [WalFlusher φ] [WalFlusher ψ] in
/-- A pool over the disk has the leaf and no other page. -/
theorem planted_diskOf {leaf : LeafNode} (hs : leaf.IsSlotted) (hbare : leaf.bare = leaf)
    (hfit : leaf.encodedSize ≤ pageSize) (hend : leaf.hasNext = false) :
    Planted (new (diskOf leaf) 2 (none : Option Empty)) ⟨4096⟩ leaf where
  wf := .new _ _ _
  fresh := by
    have hnext : (diskOf leaf).header.nextFreeOffset = 8192 := rfl
    refine ⟨?_, ?_, fun id hid => absurd hid (AList.notMem_empty id)⟩
    · show (diskOf leaf).header.nextFreeOffset.toNat % pageSize = 0
      rw [hnext]
      decide
    · show pageSize ≤ (diskOf leaf).header.nextFreeOffset.toNat
      rw [hnext]
      decide
  faults := rfl
  allocated := by
    refine ⟨by decide, by decide, ?_⟩
    show 4096 < (8192 : UInt64).toNat
    decide
  has := by
    have hnode : (diskOf leaf).file.nodeAt (⟨4096⟩ : PageId).val.toNat =
        some (BTreeNode.leaf leaf).decoded := DataFile.nodeAt_save ⟨4096⟩ hs hfit
    have hhas := Has.new hnode (BTreeNode.IsSlotted.decoded hs) 2 (none : Option Empty)
    rw [BTreeNode.bare_decoded, BTreeNode.bare_leaf, hbare] at hhas
    exact hhas
  fits := hfit
  alone := hend
  unused := by
    intro id ha hne hid
    -- the file ends with the leaf's page
    have hblank : (diskOf leaf).file.Blank id.val.toNat :=
      (DataFile.blank_empty _).save_of_ne (ha.disjoint (by decide) hid)
    refine ⟨zeroNode.bare, hblank, fun f c d hf => ?_⟩
    rw [line_of_not_cached (AList.lookup_empty id)] at hf
    cases hf

/-- **A leaf is split**: its record is logged and synced, and `insert_leaf` returns `Ok`. -/
theorem exists_split : ∃ (leaf : LeafNode) (s : Loading Empty) (entry : WalEntry)
    (cut : SplitResult) (p' : BufferPool Empty), Loads ⟨4096⟩ leaf s ∧ s.pending = some entry ∧
      s.created = [⟨4096⟩] ∧ s.entries = [] ∧
      (⟨⟨4096⟩⟩ : BpTree).insertLeaf entry.pageId entry.rowId entry.payload entry.lsn s.pool =
        some (.ok (some cut), p') ∧
      Serviceable p' ∧ ∃ c, (p'.line ⟨4096⟩).stored = some c := by
  obtain ⟨leaf, ⟨hs, hsorted, hfit, habsent⟩, ⟨hbare, hend, hlsn⟩, ⟨leaf', hfull⟩, hhalf⟩ :=
    exists_full
  have hp := planted_diskOf hs hbare hfit hend
  obtain ⟨d, hno, hheader, hflush⟩ :=
    flushAllPages_new (d := diskOf leaf) rfl .asListed 2 (none : Option Empty)
  have hstart := Loads.start true hp hflush
  have htallied := hp.tallied hflush true
  have hpage := htallied.pages ⟨4096⟩ (List.mem_singleton_self _)
  -- the entry
  have hempty : WalManager.Logged (.openFile .empty true) [] := ⟨rfl, rfl, nofun⟩
  obtain ⟨w, hwrite, hlogged⟩ := hempty.writeBatch (List.forall_mem_singleton.mpr fits_splitEntry)
  obtain ⟨w', hsync, -⟩ := hlogged.syncFile
  have hlt : leaf.lastLsn < splitEntry.lsn := by
    rw [hlsn]
    decide
  have hlog := hstart.log rfl rfl (List.mem_singleton_self _) hlt fits_splitEntry hwrite hsync
  -- the insertion
  have hserv : Serviceable (new d 2 (none : Option Empty)) :=
    .new hno (by decide) WalFlusher.reliable_none
  have hover : d.header.nextFreeOffset.toNat + pageSize < 2 ^ 64 := by
    rw [hheader]
    show (8192 : UInt64).toNat + pageSize < 2 ^ 64
    decide
  obtain ⟨cut, p', hinsert, hserv'⟩ := insertLeaf_atEnd ⟨⟨4096⟩⟩ splitEntry.lsn hserv
    htallied.fresh (htallied.allocated _ (List.mem_singleton_self _))
    (fun id hid => absurd hid (AList.notMem_empty id)) Nat.one_lt_two hover hpage.has hend hsorted
    hfit habsent (Nat.le_of_eq List.length_replicate) hfull hhalf
  refine ⟨leaf, _, splitEntry, cut, p', hlog, rfl, rfl, rfl, hinsert, hserv', ?_⟩
  -- the file still has an image of the leaf
  obtain ⟨-, hins⟩ := insertLeaf_ok htallied.wf htallied.fresh
    (htallied.allocated _ (List.mem_singleton_self _)) (Holds.shows hpage.has) hpage.has.slotted
    (fun hhas => absurd (hend.symm.trans hhas) Bool.false_ne_true) hinsert
  have hbefore : Traced False (fun _ => True) ((new d 2 (none : Option Empty)).line ⟨4096⟩) := by
    have hnone : (new d 2 (none : Option Empty)).pageTable.lookup ⟨4096⟩ = none :=
      AList.lookup_empty _
    obtain ⟨node, hnode, -⟩ := hpage.has.stored fun f node hl _ => by
      rw [hnone] at hl
      cases hl
    refine .inr ⟨node.bare, ?_, trivial⟩
    rw [stored_new]
    exact congrArg (Option.map BTreeNode.bare) hnode
  cases hins with
  | halves _ _ _ _ _ _ hleft =>
    obtain ⟨-, hfalse⟩ | ⟨c, hc, -⟩ := hleft.traced hno hpage.has trivial hbefore
    · exact hfalse.elim
    · exact ⟨c, hc⟩

/-- The leaf is split, and everything is flushed before the memory is lost. -/
theorem init_recovers_iff_flushed : ∃ (s : Loading Empty) (log : LogFile) (q : BufferPool Empty),
    s.created.length = 2 ∧ s.logged.length = 1 ∧ Lost s log q ∧
      Recovers .asListed log q s.logged := by
  obtain ⟨leaf, s, entry, cut, p', h, hpending, hcreated, hentries, hinsert, hserv, -⟩ :=
    exists_split
  have hsplit := h.insert hpending hinsert
  obtain ⟨leafOf, htallied⟩ := hsplit.tallied
  -- the crash comes after the split and a flush of everything
  obtain ⟨p'', hflush⟩ :=
    flushAllPages_returns hserv.wf hserv.noFaults hserv.reliable hserv.encodable .asListed
  have hopen := (flushAllPages_ok hserv.wf hflush).2 []
  have hflushed := hsplit.client (.flushAll hflush)
  have hlost : Lost { s.inserted p' entry (some cut) with pool := p'' }
      ⟨s.wal.file.bytes.take s.wal.file.synced, 0, []⟩ (new _ 1 (none : Option Empty)) :=
    .lost (Nat.le_refl _) hopen Nat.one_pos WalFlusher.reliable_none
  refine ⟨_, _, _, ?_, ?_, hlost, ?_⟩
  · show (cut.newPageId :: s.created).length = 2
    rw [hcreated]
    rfl
  · show ((s.entries ++ [entry]) ++ []).length = 1
    rw [hentries]
    rfl
  · exact (init_recovers_iff hflushed hlost .asListed).mpr (htallied.covered_flushed rfl hflush)

/-- The leaf is split, and the memory is lost before anything is flushed. -/
theorem init_loses_split : ¬ ∀ (first : PageId) (leaf : LeafNode) (s : Loading Empty)
    (log : LogFile) (q : BufferPool Empty) (order : HashOrder), Loads first leaf s →
      Lost s log q → Recovers order log q s.logged := by
  intro hclaim
  obtain ⟨leaf, s, entry, cut, p', h, hpending, -, -, hinsert, -, c, hstored⟩ := exists_split
  -- the crash comes right behind a split, before anything was flushed
  have hsplit := h.insert hpending hinsert
  obtain ⟨leafOf, htallied⟩ := h.tallied
  obtain ⟨leafOf', htallied'⟩ := hsplit.tallied
  obtain ⟨d, hopen⟩ := openFile_of_stored hstored
  have hlost : Lost (s.inserted p' entry (some cut))
      ⟨s.wal.file.bytes.take s.wal.file.synced, 0, []⟩ (new d 1 (none : Option Empty)) :=
    .lost (Nat.le_refl _) hopen Nat.one_pos WalFlusher.reliable_none
  refine htallied.not_covered_split hpending hinsert ?_
  exact (htallied'.recovers_iff hlost .asListed).mp (hclaim _ _ _ _ _ .asListed hsplit hlost)

end Loading

end SmolDb
