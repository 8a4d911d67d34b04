import SmolDb.Flusher.Interleaving
import SmolDb.Pool.Reopen

/-!
# What is on disk after a shutdown

When `shutdown` returns, the thread has made a last round over the pool, and if that round had
nothing to complain about, every content a page had before it is in the file, unless the page was
written since; and the header in the file counts the page among the allocated ones, so that the
file can be opened and the page be fetched. Clients may have worked on all the time.

The round goes over the pages that are cached when it begins. `Due` says of one page what is to be
known of it on the way: the round still comes to it, or its content is in the file.
-/

namespace SmolDb

open WriteBack BufferPool

variable {φ : Type}

/-! ### The header in the file -/

theorem DiskManager.saveHeader_ok {d : DiskManager} (hno : d.faults = []) :
    DiskManager.saveHeader d =
      some (.ok (), { d with file := d.file.writeAt 0 d.header.encode }) := by
  unfold DiskManager.saveHeader
  rw [Exec.bind_of_ok (Exec.get_apply _), Exec.bind_of_ok (writeAllAt_ok hno)]
  exact syncAll_ok hno

namespace BufferPool

variable {p p' : BufferPool φ}

/-- The header in the file counts the page among the allocated ones. -/
def Recorded (p : BufferPool φ) (id : PageId) : Prop :=
  ∃ header : FileHeader,
    p.diskManager.file.readAt 0 fileHeaderSize = some ⟨header.encode, length_header_encode _⟩ ∧
      id.val.toNat < header.nextFreeOffset.toNat

/-- The header in the file is what it was, if there was one. -/
def KeepsHeader (p p' : BufferPool φ) : Prop :=
  ∀ header, p.diskManager.file.readAt 0 fileHeaderSize = some header →
    p'.diskManager.file.readAt 0 fileHeaderSize = some header

theorem KeepsHeader.recorded (h : KeepsHeader p p') {id : PageId} (hid : p.Recorded id) :
    p'.Recorded id := by
  obtain ⟨header, hread, hlt⟩ := hid
  exact ⟨header, h _ hread, hlt⟩

/-- A file whose header was recorded can be opened, with this header. -/
theorem Recorded.openFile {id : PageId} (h : p.Recorded id) :
    ∃ d, DiskManager.openFile p.diskManager.file [] = .ok d ∧
      id.val.toNat < d.header.nextFreeOffset.toNat := by
  obtain ⟨header, hread, hlt⟩ := h
  have hlen := (DataFile.readAt_eq_some.mp hread).1
  refine ⟨⟨p.diskManager.file, header, []⟩, ?_, hlt⟩
  rw [DiskManager.openFile, if_pos (Nat.lt_of_lt_of_le (by decide) hlen), hread]
  show Except.ok (DiskManager.mk _ _ _) = _
  rw [FileHeader.decode_encode]

/-- Saving the header records every page that is allocated. -/
theorem recorded_saveHeader (hno : p.diskManager.faults = []) {r : Except DbError Unit}
    (h : disk DiskManager.saveHeader p = some (r, p')) {id : PageId} (halloc : Allocated p id) :
    p'.Recorded id := by
  obtain ⟨d, hd, rfl⟩ := disk_outcome h
  rw [DiskManager.saveHeader_ok hno] at hd
  cases hd
  exact ⟨p.diskManager.header, DataFile.readAt_writeAt_self (n := fileHeaderSize)
    ⟨p.diskManager.header.encode, length_header_encode _⟩ (by decide), halloc.below⟩

/-- Behind the first page nothing of the header is written. -/
theorem keepsHeader_of_write {offset : ℕ} {data : List UInt8} (hoffset : pageSize ≤ offset)
    (hfile : p'.diskManager.file = p.diskManager.file.writeAt offset data) :
    KeepsHeader p p' := by
  intro header hread
  rw [hfile]
  refine DataFile.readAt_writeAt_of_disjoint (.inl ?_) hread
  have hsize : fileHeaderSize ≤ pageSize := by decide
  omega

theorem KeepsHeader.of_file (hfile : p'.diskManager.file = p.diskManager.file) :
    KeepsHeader p p' := fun header hread => by rw [hfile, hread]

section Flusher

variable [WalFlusher φ]

theorem keepsHeader_flushPage (hpages : ∀ id ∈ p.pageTable, pageSize ≤ id.val.toNat) {id : PageId}
    {r : Except DbError Unit} (h : flushPage id p = some (r, p')) : KeepsHeader p p' := by
  cases flushPage_outcome h with
  | skipped => exact .of_file rfl
  | failed w d data hl hf hdirty hheader hfaults hlen hfile =>
    exact keepsHeader_of_write (hpages id (AList.mem_of_lookup hl)) hfile
  | written w d page hl hf hdirty henc hheader hfaults hfile =>
    exact keepsHeader_of_write (hpages id (AList.mem_of_lookup hl)) hfile

theorem keepsHeader_makeRoom (hpages : ∀ id ∈ p.pageTable, pageSize ≤ id.val.toNat)
    {r : Except DbError Unit} (h : makeRoom p = some (r, p')) : KeepsHeader p p' := by
  have hflush : ∀ {id : PageId} {q : LruReplacer} {r : Except DbError Unit} {p₁ : BufferPool φ},
      flushPage id { p with replacer := q } = some (r, p₁) → KeepsHeader p p₁ :=
    fun {id q r p₁} hrun => keepsHeader_flushPage (p := { p with replacer := q }) hpages hrun
  rw [makeRoom, Exec.bind_of_ok (Exec.get_apply p)] at h
  split at h
  · cases evictPage_outcome h with
    | pinned => exact .of_file rfl
    | failed _ hrun => exact hflush hrun
    | evicted _ hrun =>
      have hkeeps := hflush hrun
      exact hkeeps
  · cases h
    exact .of_file rfl

/-- **No call writes the header** but `flush_all_pages`. -/
theorem PoolCall.keepsHeader (hpages : ∀ id ∈ p.pageTable, pageSize ≤ id.val.toNat) {c : PoolCall}
    {r : Except DbError (Option (PageId × Frame))} (hone : ∀ order, c ≠ .flushAllPages order)
    (hrun : c.run p = some (r, p')) : KeepsHeader p p' := by
  have hfetched : ∀ {id : PageId} {r : Except DbError Frame},
      fetchPage id p = some (r, p') → KeepsHeader p p' := by
    intro id r hfetch
    cases fetchPage_outcome hfetch with
    | hit => exact .of_file rfl
    | full hl hroom => exact keepsHeader_makeRoom hpages hroom
    | unread hl hroom hread | corrupt hl hroom hread | loaded hl hroom hread =>
      -- a page is read without writing
      intro header hheader
      have hkept := keepsHeader_makeRoom hpages hroom header hheader
      rw [← (readPage_outcome hread).1] at hkept
      exact hkept
  have hmade : ∀ {isLeaf : Bool} {r : Except DbError (PageId × Frame)},
      newPage isLeaf p = some (r, p') → KeepsHeader p p' := by
    intro isLeaf r hnew
    cases newPage_outcome hnew with
    | full hroom => exact keepsHeader_makeRoom hpages hroom
    | made hroom =>
      have hkeeps := keepsHeader_makeRoom hpages hroom
      exact hkeeps
  cases PoolCall.run_outcome hrun with
  | fetchFailed hfetch => exact hfetched hfetch
  | fetched hfetch => exact hfetched hfetch
  | makeFailed hnew => exact hmade hnew
  | made hnew => exact hmade hnew
  | flushed hflush => exact keepsHeader_flushPage hpages hflush
  | flushedAll => exact absurd rfl (hone _)

end Flusher

end BufferPool

/-! ### The last round -/

namespace Shared

variable {s s' : Shared φ} {l : Label} {ls : List Label} {id : PageId} {c : BTreeNode}

/-- What the last round owes to a page with the content `c`. -/
structure Due (s : Shared φ) (id : PageId) (c : BTreeNode) : Prop where
  flushing : ∀ rest, s.stage = .flushing true rest →
    id ∈ rest ∨ (s.pool.line id).stored = some c
  finished : s.stage = .finished → (∀ e, (heading true, e) ∉ s.printed) →
    (s.pool.line id).stored = some c ∧ s.pool.Recorded id

/-- A content whose copy is clean is the page's image. -/
theorem stored_of_clean {p : BufferPool φ} (hc : p.Has id c)
    (hclean : ∀ f node, p.pageTable.lookup id = some f → p.frames[f]? = some node →
      node.isDirty = false) : (p.line id).stored = some c := by
  obtain ⟨node, hnode, hbare⟩ := hc.stored hclean
  show (p.diskManager.file.nodeAt id.val.toNat).map BTreeNode.bare = some c
  rw [hnode, Option.map_some, hbare]

theorem Latches.pages (h : Latches s) : ∀ id ∈ s.pool.pageTable, pageSize ≤ id.val.toNat :=
  fun id hmem =>
    have halloc := h.lawful.made id (h.known id hmem)
    halloc.aligned.pageSize_le halloc.ne_zero

theorem after_eq_finished {last : Bool} (h : Stage.after last = .finished) : last = true := by
  cases last with
  | true => rfl
  | false => cases h

section Flusher

variable [WalFlusher φ]

/-- The image of a page whose content is in the file stays until the page is written. -/
theorem Step.stored (h : Sane s) (hstep : Step s l s') (hno : s.pool.diskManager.faults = [])
    (halloc : Allocated s.pool id) (hc : s.pool.Has id c) (hl : l.wrote id = none)
    (hstored : (s.pool.line id).stored = some c) : (s'.pool.line id).stored = some c := by
  rcases hstep.kind h with ⟨hkind, -⟩ | ⟨c', id', node, f, rfl, hw⟩
  · obtain ⟨image, himage, rfl⟩ := Holds.stored_serves (S := (· = c)) (fun hf => hf hno) rfl
      (hkind.served id halloc) hc ⟨c, hstored, rfl⟩
    exact himage
  · have hne : id ≠ id' := by
      rintro rfl
      rw [Label.wrote, if_pos rfl] at hl
      cases hl
    rw [hw.pool, h.lawful.wf.line_withNode_of_ne (h.lawful.loans _ _ hw.loan) hne]
    exact hstored

/-- What a step of a client does to the header in the file. -/
theorem Foreground.recorded {n : ℕ} (h : Sane s) (hstep : Foreground s n l s')
    (hno : s.pool.diskManager.faults = []) (halloc : Allocated s.pool id)
    (hid : s.pool.Recorded id) : s'.pool.Recorded id := by
  cases hstep with
  | request | lock | unlock | clone | drop | latch | write | unlatch | relog | signal | take | skip
  | joined => exact hid
  | call hrunning howner hknown hopen hone hrun =>
    exact (PoolCall.keepsHeader h.pages hone hrun).recorded hid
  | save hrunning howner hrun => exact recorded_saveHeader hno hrun halloc

/-- **The step lemma of the last round.** -/
theorem Due.step (hdue : Due s id c) (h : Sane s) (hstep : Step s l s')
    (hno : s.pool.diskManager.faults = []) (halloc : Allocated s.pool id) (hc : s.pool.Has id c)
    (hl : l.wrote id = none) : Due s' id c := by
  have hw := h.lawful.wf
  have hc' := hstep.has h hno halloc hc hl
  have hstored := hstep.stored h hno halloc hc hl
  cases hstep with
  | foreground hf =>
    refine ⟨fun rest hstage => ?_, fun hstage hprinted => ?_⟩
    · rw [hf.stage_eq] at hstage
      exact (hdue.flushing rest hstage).imp_right hstored
    · rw [hf.stage_eq] at hstage
      rw [hf.printed_eq] at hprinted
      obtain ⟨himage, hrecorded⟩ := hdue.finished hstage hprinted
      exact ⟨hstored himage, hf.recorded h hno halloc hrecorded⟩
  | background hb =>
    cases hb with
    | timeout | received | disconnected => exact ⟨nofun, nofun⟩
    | @lock last hstage hfree order =>
      refine ⟨fun rest heq => ?_, nofun⟩
      cases heq
      -- the round goes over the cached pages, and the others are in the file
      by_cases hmem : id ∈ s.pool.pageTable
      · exact .inl ((order.perm _).mem_iff.mpr (AList.mem_keys.mp hmem))
      · refine .inr (stored_of_clean hc fun f node hl hf => ?_)
        exact absurd (AList.mem_of_lookup hl) hmem
    | @flush last id' rest p' hstage hopen hrun =>
      refine ⟨fun rest' heq => ?_, nofun⟩
      cases heq
      rcases hdue.flushing _ hstage with hmem | himage
      · rcases List.mem_cons.mp hmem with rfl | hrest
        · refine .inr (stored_of_clean hc' fun f node hl hf => ?_)
          exact flushPage_ok_clean hw hrun hl hf
        · exact .inl hrest
      · exact .inr (hstored himage)
    | @fail last id' rest e p' hstage hopen hrun =>
      refine ⟨fun rest' heq => absurd heq (after_ne_flushing _ _ _), fun heq hprinted => ?_⟩
      -- a round that fails says so
      obtain rfl := after_eq_finished heq
      exact absurd (List.mem_cons_self ..) (hprinted e)
    | @save last r p' hstage hrun =>
      refine ⟨fun rest' heq => absurd heq (after_ne_flushing _ _ _), fun heq hprinted => ?_⟩
      obtain rfl := after_eq_finished heq
      have himage := (hdue.flushing _ hstage).resolve_left List.not_mem_nil
      exact ⟨hstored himage, recorded_saveHeader hno hrun halloc⟩

/-- **The run lemma.** -/
theorem Due.runs {P : Shared φ → Prop} (hdue : Due s id c) (h : Sane s) (hruns : Runs P s ls s')
    (hno : s.pool.diskManager.faults = []) (halloc : Allocated s.pool id) (hc : s.pool.Has id c)
    (hls : lastWrite id ls = none) : Due s' id c := by
  induction hruns with
  | refl => exact hdue
  | step hruns hstep _ ih =>
    rw [lastWrite_cons, Option.or_eq_none_iff] at hls
    exact (ih hls.2).step (h.runs hruns) hstep (hruns.faults h hno) (hruns.allocated h halloc)
      (hruns.has h hno halloc hc hls.2) hls.1

/-- **After a shutdown the pages are in the file.** Let `s` be any state before the last round, and
`s'` one in which `shutdown` has returned and the last round has not complained. Then the thread has
finished; and a content that a page had in `s`, and that was not written since, is what is found
when the file is opened. -/
theorem shutdown_durable {l : Lending φ} (hlaw : l.Lawful)
    (hknown : ∀ id ∈ l.pool.pageTable, id ∈ l.made) (hno : l.pool.diskManager.faults = [])
    {before : List Label} (hbefore : Runs (fun _ => True) (start l) before s)
    (hround : s.stage ≠ .finished ∧ ∀ rest, s.stage ≠ .flushing true rest)
    (hruns : Runs (fun _ => True) s ls s') (hhandle : s'.flusher.handle = none)
    (hreturned : ∀ c, s'.activity c ≠ .joining)
    (hprinted : ∀ e, (heading true, e) ∉ s'.printed) :
    s'.stage = .finished ∧
      ∀ id c, Allocated s.pool id → s.pool.Has id c → lastWrite id ls = none →
        ∃ d, DiskManager.openFile s'.pool.diskManager.file [] = .ok d ∧
          id.val.toNat < d.header.nextFreeOffset.toNat ∧
          ∀ capacity (w : Option φ), (new d capacity w).Has id c := by
  have hstart := Sane.start hlaw hknown
  have hs := hstart.runs hbefore
  have hs' := hs.runs hruns
  have hno' := hbefore.faults hstart hno
  have hfinished := hs'.returned hhandle hreturned
  refine ⟨hfinished, fun id c halloc hc hls => ?_⟩
  have hdue : Due s id c :=
    ⟨fun rest hstage => absurd hstage (hround.2 rest), fun hstage => absurd hstage hround.1⟩
  obtain ⟨himage, hrecorded⟩ :=
    (hdue.runs hs hruns hno' halloc hc hls).finished hfinished hprinted
  obtain ⟨d, hopen, hlt⟩ := hrecorded.openFile
  refine ⟨d, hopen, hlt, fun capacity w => ?_⟩
  -- the image in the file is what a new pool finds there
  obtain ⟨node, hnode, rfl⟩ := Option.map_eq_some_iff.mp himage
  rw [← (DiskManager.openFile_ok hopen).1] at hnode
  exact Has.new hnode ((BTreeNode.isSlotted_bare node).mp hc.slotted) capacity w

/-- The client lets its page go and calls `shutdown`, which returns. -/
theorem Calm.shuts_down {s : Shared Empty} (h : Calm s (some (.client 0)) [⟨0, 0, true⟩]) :
    ∃ ls s', Runs (fun _ => True) s ls s' ∧ (∀ id, lastWrite id ls = none) ∧
      s'.flusher.handle = none ∧ (∀ c, s'.activity c ≠ .joining) ∧ s'.printed = [] := by
  have hguard : ⟨0, 0, true⟩ ∈ s.guards := by
    rw [h.guards]
    exact List.mem_singleton_self _
  have hfree : s.guards.erase ⟨0, 0, true⟩ = [] := by
    rw [h.guards]
    rfl
  have hsent : (s.sent || s.flusher.shutdownTx.isSome) = true := by
    rw [h.sent, h.flusher]
    rfl
  obtain ⟨p', hflush, hready⟩ := h.ready.flushPage ⟨4096⟩
  have hsave : disk DiskManager.saveHeader p' = _ :=
    Exec.zoom_of_some (DiskManager.saveHeader_ok hready.noFaults)
  -- what the client does, and then the thread, and then the client
  have h₀ : Runs (fun _ : Shared Empty => True) s [] s := .refl
  have h₁ := h₀.step (.foreground (c := 0) (.unlatch (h.activity 0) rfl hguard)) trivial
  have h₂ := h₁.step (.foreground (c := 0) (.unlock (h.activity 0) h.owner)) trivial
  have h₃ := h₂.step (.foreground (c := 0) (.signal (h.activity 0) fun c => by
    show (s.activity c).inShutdown = false
    rw [h.activity c]
    rfl)) trivial
  have h₄ := h₃.step (.foreground (c := 0) (.take (activity_moved (s := s) 0 .signalled)
    (congrArg BackgroundFlusher.handle h.flusher))) trivial
  have h₅ := h₄.step (.background (.received h.stage hsent)) trivial
  have h₆ := h₅.step (.background (.lock rfl rfl ⟨id, List.Perm.refl⟩)) trivial
  have hkeys : Stage.flushing true s.pool.pageTable.keys = .flushing true [⟨4096⟩] :=
    congrArg (Stage.flushing true) h.keys
  have h₇ := h₆.step (.background (.flush hkeys (fun f _ g hg => by
      have hnone : g ∈ s.guards.erase ⟨0, 0, true⟩ := hg
      rw [hfree] at hnone
      cases hnone) hflush)) trivial
  have h₈ := h₇.step (.background (.save rfl hsave)) trivial
  have h₉ := h₈.step (.foreground (c := 0) (.joined (activity_moved (s := s.signalled 0) 0 .joining)
    rfl)) trivial
  refine ⟨_, _, h₉, fun _ => rfl, rfl, fun c => ?_, h.printed⟩
  show Function.update (Function.update (Function.update s.activity 0 _) 0 _) 0 _ c ≠ _
  rw [Function.update_idem, Function.update_idem]
  by_cases hc : c = 0
  · rw [hc, Function.update_self]
    nofun
  · rw [Function.update_of_ne hc, h.activity c]
    nofun

/-- A client writes a page, lets it go and calls `shutdown`. -/
theorem shutdown_durable_dirtyLeaf : ∃ ls s, Runs (fun _ => True) (start unused) ls s ∧
    s.stage = .finished ∧ ∃ d, DiskManager.openFile s.pool.diskManager.file [] = .ok d ∧
      ∀ capacity (w : Option Empty), (new d capacity w).Has ⟨4096⟩ dirtyLeaf.bare := by
  obtain ⟨before, s, hruns, -, hcalm⟩ := exists_calm
  obtain ⟨s₁, hwrite, hcalm₁⟩ := hcalm.write
  have hs := (Sane.start unused_lawful unused_known).runs hruns
  have hs₁ := hs.step hwrite
  have halloc : Allocated s₁.pool ⟨4096⟩ := hs₁.lawful.made _ (hs₁.made (f := 0) (by
    rw [hcalm₁.loans]
    exact List.mem_singleton_self _))
  have hround : s₁.stage ≠ .finished ∧ ∀ rest, s₁.stage ≠ .flushing true rest := by
    rw [hcalm₁.stage]
    exact ⟨nofun, fun _ => nofun⟩
  have hwritten := hruns.step hwrite trivial
  obtain ⟨ls, s', hrest, hnone, hhandle, hreturned, hprinted⟩ := hcalm₁.shuts_down
  have hcomplaints : ∀ e, (heading true, e) ∉ s'.printed := by
    rw [hprinted]
    exact fun _ => List.not_mem_nil
  obtain ⟨hfinished, hsaved⟩ := shutdown_durable unused_lawful unused_known rfl hwritten hround
    hrest hhandle hreturned hcomplaints
  obtain ⟨d, hopen, -, hfound⟩ := hsaved ⟨4096⟩ _ halloc
    (hwrite.has_write hs rfl isSlotted_dirtyLeaf) (hnone _)
  exact ⟨_, s', hwritten.trans hrest, hfinished, d, hopen, hfound⟩

end Flusher

end Shared

end SmolDb
