import SmolDb.Pool.Content

/-!
# A pool that serves every request

The other modules of the pool say what a call that returns has done. This one says when a call
does return, and with success. A pool is `Serviceable` when nothing stands in the way: no frame is
held, the replacer tracks exactly the cached pages, there is a place for at least one page, the
disk and the log behind it do not fail, and every dirty node fits in a page. Flushing and evicting
then succeed, and so does fetching a page that has a content. What the caller does next with the
frame is its own affair; `Ready` is what is left of the conditions while the frame is held.
-/

namespace SmolDb

open WriteBack

/-- A log, or none, whose `flush_upto` succeeds now and ever after. -/
def WalFlusher.Reliable {φ : Type} [WalFlusher φ] (flusher : Option φ) : Prop :=
  ∃ Sound : φ → Prop, (∀ w, flusher = some w → Sound w) ∧
    ∀ w, Sound w → ∀ lsn, (flushUpto w lsn).1 = .ok () ∧ Sound (flushUpto w lsn).2

theorem WalFlusher.reliable_none {φ : Type} [WalFlusher φ] : Reliable (none : Option φ) :=
  ⟨fun _ => False, nofun, nofun⟩

/-- No log is a reliable one. -/
theorem WalFlusher.reliable_empty (flusher : Option Empty) : Reliable flusher := by
  cases flusher with
  | none => exact reliable_none
  | some w => cases w

namespace BufferPool

variable {φ α : Type} {p p' p'' : BufferPool φ}

/-- Every dirty node of the pool can be written to its page. -/
def Encodable (p : BufferPool φ) : Prop :=
  ∀ id f node, p.pageTable.lookup id = some f → p.frames[f]? = some node →
    node.isDirty = true → node.IsSlotted ∧ node.encodedSize ≤ pageSize

/-- The replacer tracks the cached pages and no others. -/
def Tracked (p : BufferPool φ) : Prop :=
  ∃ is l, p.replacer.Threaded p.capacity is l ∧ ∀ id, id ∈ l ↔ id ∈ p.pageTable

namespace Tracked

theorem new (d : DiskManager) (capacity : ℕ) (w : Option φ) :
    Tracked (BufferPool.new d capacity w) :=
  ⟨[], [], .new capacity, fun _ => ⟨nofun, fun h => absurd h (AList.notMem_empty _)⟩⟩

theorem congr (h : Tracked p) (htable : p'.pageTable = p.pageTable)
    (hreplacer : p'.replacer = p.replacer) (hcapacity : p'.capacity = p.capacity) :
    Tracked p' := by
  unfold Tracked
  rw [htable, hreplacer, hcapacity]
  exact h

/-- Using a cached page puts it in front, and changes no more. -/
theorem exists_recorded (h : Tracked p) {id : PageId} (hid : id ∈ p.pageTable) :
    ∃ q, p.replacer.recordAccess id = some q ∧ Tracked { p with replacer := q } := by
  obtain ⟨is, l, ht, hl⟩ := h
  obtain ⟨q, is', hq, ht'⟩ := ht.recordAccess_of_mem ((hl id).mpr hid)
  refine ⟨q, hq, is', _, ht', fun id' => ?_⟩
  exact (List.perm_cons_erase ((hl id).mpr hid)).mem_iff.symm.trans (hl id')

theorem recorded (h : Tracked p) {id : PageId} (hid : id ∈ p.pageTable) {q : LruReplacer}
    (hq : p.replacer.recordAccess id = some q) : Tracked { p with replacer := q } := by
  obtain ⟨q', hq', ht⟩ := h.exists_recorded hid
  obtain rfl : q' = q := Option.some.inj (hq'.symm.trans hq)
  exact ht

/-- As long as the table has room, the replacer has. -/
theorem exists_recorded_new (h : Tracked p) {id : PageId} (hid : id ∉ p.pageTable)
    (hroom : p.pageTable.keys.length < p.capacity) :
    ∃ q, p.replacer.recordAccess id = some q := by
  obtain ⟨is, l, ht, hl⟩ := h
  have hlen := length_le_keys ht.nodup fun id' hid' => (hl id').mp hid'
  obtain ⟨q, -, hq, -⟩ := ht.recordAccess_of_notMem (fun hmem => hid ((hl id).mp hmem))
    (Nat.lt_of_le_of_lt hlen hroom)
  exact ⟨q, hq⟩

/-- An installed page is tracked, whether it was tracked before or not. -/
theorem installed (h : Tracked p) {id : PageId} {q : LruReplacer}
    (hq : p.replacer.recordAccess id = some q) (node : BTreeNode) :
    Tracked (p.installed q id node) := by
  obtain ⟨is, l, ht, hl⟩ := h
  show ∃ is l, q.Threaded p.capacity is l ∧
    ∀ id', id' ∈ l ↔ id' ∈ p.pageTable.insert id p.frames.length
  -- a page tracked before moves to the front, another one is added there
  by_cases hid : id ∈ l
  · obtain ⟨q', is', hq', ht'⟩ := ht.recordAccess_of_mem hid
    obtain rfl : q' = q := Option.some.inj (hq'.symm.trans hq)
    refine ⟨is', _, ht', fun id' => ?_⟩
    rw [AList.mem_insert, List.mem_cons, ht.nodup.mem_erase_iff, hl]
    by_cases heq : id' = id
    · simp [heq]
    · simp [heq]
  · -- a full replacer would have panicked
    have hroom : l.length < p.capacity := by
      refine Nat.lt_of_le_of_ne ht.length_le fun hfull => ?_
      have hpanic := ht.recordAccess_of_full hid hfull
      rw [hq] at hpanic
      cases hpanic
    obtain ⟨q', is', hq', ht'⟩ := ht.recordAccess_of_notMem hid hroom
    obtain rfl : q' = q := Option.some.inj (hq'.symm.trans hq)
    refine ⟨is', _, ht', fun id' => ?_⟩
    rw [AList.mem_insert, List.mem_cons, hl]

end Tracked

/-- Nothing but a held frame stands in the way of a request. -/
structure Ready [WalFlusher φ] (p : BufferPool φ) : Prop where
  wf : Wf p
  tracked : Tracked p
  capacity : 0 < p.capacity
  noFaults : p.diskManager.faults = []
  reliable : WalFlusher.Reliable p.walFlusher
  encodable : Encodable p

/-- Nothing stands in the way of a request. -/
structure Serviceable [WalFlusher φ] (p : BufferPool φ) : Prop extends Ready p where
  unpinned : p.held = []

theorem Serviceable.new [WalFlusher φ] {d : DiskManager} (hno : d.faults = []) {capacity : ℕ}
    (hcap : 0 < capacity) {w : Option φ} (hw : WalFlusher.Reliable w) :
    Serviceable (new d capacity w) where
  wf := .new d capacity w
  tracked := .new d capacity w
  capacity := hcap
  noFaults := hno
  reliable := hw
  encodable _ _ _ h := by cases h
  unpinned := rfl

theorem Encodable.of_frames (h : Encodable p)
    (htable : ∀ id f, p'.pageTable.lookup id = some f → p.pageTable.lookup id = some f)
    (hframes : p'.frames = p.frames) : Encodable p' := by
  intro id f node hl hf
  rw [hframes] at hf
  exact h id f node (htable id f hl) hf

/-! ### Pins -/

/-- The table has one clone of a frame at most. -/
theorem count_table
    (hinj : ∀ id id' f, p.pageTable.lookup id = some f → p.pageTable.lookup id' = some f → id = id')
    {id : PageId} {f : Frame} (hl : p.pageTable.lookup id = some f) :
    (p.pageTable.entries.map Sigma.snd).count f = 1 := by
  have hmem : (⟨id, f⟩ : Σ _ : PageId, Frame) ∈ p.pageTable.entries := AList.mem_lookup_iff.mp hl
  have hnd : p.pageTable.entries.Nodup := p.pageTable.nodupKeys.nodup
  refine List.count_eq_one_of_mem (hnd.map_on ?_) (List.mem_map.mpr ⟨_, hmem, rfl⟩)
  rintro ⟨id₁, f₁⟩ h₁ ⟨id₂, f₂⟩ h₂ heq
  obtain rfl : f₁ = f₂ := heq
  obtain rfl := hinj id₁ id₂ f₁ (AList.mem_lookup_iff.mpr h₁) (AList.mem_lookup_iff.mpr h₂)
  rfl

/-- Without clones in the hands of callers the eviction predicate accepts every cached page. -/
theorem isUnpinned_of_unheld
    (hinj : ∀ id id' f, p.pageTable.lookup id = some f → p.pageTable.lookup id' = some f → id = id')
    (hheld : p.held = []) {id : PageId} (hid : id ∈ p.pageTable) :
    p.isUnpinned id = some (true, ()) := by
  obtain ⟨f, hl⟩ := AList.exists_lookup hid
  unfold BufferPool.isUnpinned strongCount
  rw [hl, hheld]
  simp [count_table hinj hl]

/-- **The victim.** When the predicate accepts every cached page and there is one, the replacer
evicts one of them: the least recently used page is the first it is asked about. -/
theorem exists_victim {is : List ℕ} {l : List PageId}
    (ht : p.replacer.Threaded p.capacity is l) (hmem : ∀ id, id ∈ l ↔ id ∈ p.pageTable)
    (hfree : ∀ id ∈ p.pageTable, p.isUnpinned id = some (true, ()))
    (hne : p.pageTable.keys ≠ []) :
    ∃ id q is', id ∈ p.pageTable ∧
      p.replacer.evictIf (fun _ => p.isUnpinned) () = some (some id, (), q) ∧
      q.Threaded p.capacity is' (l.erase id) := by
  obtain ⟨id, rest, hrev⟩ : ∃ id rest, l.reverse = id :: rest := by
    cases hrev : l.reverse with
    | cons id rest => exact ⟨id, rest, rfl⟩
    | nil =>
      obtain ⟨id, hid⟩ := List.exists_mem_of_ne_nil _ hne
      have hin := (hmem id).mpr (AList.mem_keys.mpr hid)
      rw [List.reverse_eq_nil_iff.mp hrev] at hin
      cases hin
  have hcached : id ∈ p.pageTable :=
    (hmem id).mp (List.mem_reverse.mp (hrev ▸ List.mem_cons_self ..))
  -- the scan stops at once: the last page of the list is free like all the others
  have hscan : Recency.evictIf (fun _ => p.isUnpinned) () l = some (some id, (), l.erase id) := by
    unfold Recency.evictIf
    rw [hrev, Recency.scan, hfree id hcached]
    rfl
  obtain ⟨q, is', hc, ht'⟩ := ht.evictIf_of_some _ hscan
  exact ⟨id, q, is', hcached, hc, ht'⟩

/-! ### The calls of the disk manager -/

theorem writeAllAt_ok {offset : ℕ} {data : List UInt8} {d : DiskManager} (hno : d.faults = []) :
    DiskManager.writeAllAt offset data d =
      some (.ok (), { d with file := d.file.writeAt offset data }) := by
  unfold DiskManager.writeAllAt
  rw [Exec.bind_of_ok (nextFault_apply d), hno]
  obtain ⟨file, header, faults⟩ := d
  cases hno
  rfl

theorem syncAll_ok {d : DiskManager} (hno : d.faults = []) :
    DiskManager.syncAll d = some (.ok (), d) := by
  unfold DiskManager.syncAll
  rw [Exec.bind_of_ok (nextFault_apply d), hno]
  obtain ⟨file, header, faults⟩ := d
  cases hno
  rfl

theorem encodePage_ok {node : BTreeNode} (hs : node.IsSlotted)
    (hfit : node.encodedSize ≤ pageSize) : ∃ page, encodePage node p = some (.ok page, p) := by
  obtain ⟨written, _, _, _, henc, _⟩ := hs.placed.encode_ok hfit Page.new
  refine ⟨written.buffer, ?_⟩
  unfold encodePage
  rw [henc]

theorem readPage_ok {id : PageId} {page : Page} {d : DiskManager} (hno : d.faults = [])
    (hread : d.file.readAt id.val.toNat pageSize = some page) :
    DiskManager.readPage id d = some (.ok page, d) := by
  unfold DiskManager.readPage
  rw [Exec.bind_of_ok (nextFault_apply d), hno]
  obtain ⟨file, header, faults⟩ := d
  cases hno
  dsimp only [List.headD, List.tail]
  rw [hread]

/-- Past the end of the file there is no page. -/
theorem readPage_eof {id : PageId} {d : DiskManager} (hno : d.faults = [])
    (hlen : d.file.len < id.val.toNat + pageSize) :
    DiskManager.readPage id d = some (.error (.io .unexpectedEof), d) := by
  have hread : d.file.readAt id.val.toNat pageSize = none := by
    cases hpage : d.file.readAt id.val.toNat pageSize with
    | none => rfl
    | some page => exact absurd (DataFile.readAt_eq_some.mp hpage).1 (Nat.not_le.mpr hlen)
  unfold DiskManager.readPage
  rw [Exec.bind_of_ok (nextFault_apply d), hno]
  obtain ⟨file, header, faults⟩ := d
  cases hno
  dsimp only [List.headD, List.tail]
  rw [hread]

/-- A content that is not cached is read from the file. -/
theorem Has.read {id : PageId} {c : BTreeNode} (h : p.Has id c)
    (hl : p.pageTable.lookup id = none) :
    ∃ page node, p.diskManager.file.readAt id.val.toNat pageSize = some page ∧
      BTreeNode.decode page = some (.ok node) ∧ node.bare = c := by
  -- a page that is not in memory is in the file, where its node can be decoded
  obtain ⟨-, ⟨f, hf⟩ | ⟨hstored, -⟩⟩ := h
  · rw [line_of_not_cached hl] at hf
    cases hf
  · obtain ⟨node, hnode, hbare⟩ := Option.map_eq_some_iff.mp hstored
    obtain ⟨page, hread, hdecode⟩ := Option.bind_eq_some_iff.mp hnode
    cases hdec : BTreeNode.decode page with
    | none =>
      rw [hdec] at hdecode
      cases hdecode
    | some r =>
      rw [hdec] at hdecode
      cases r with
      | error e => cases hdecode
      | ok node' =>
        cases hdecode
        exact ⟨page, node, hread, hdec, hbare⟩

/-! ### Flushing -/

section Flusher

variable [WalFlusher φ]

theorem flushWal_reliable (h : WalFlusher.Reliable p.walFlusher) (lsn : UInt64) :
    ∃ w, flushWal lsn p = some (.ok (), { p with walFlusher := w }) ∧ WalFlusher.Reliable w := by
  -- a sound flusher serves every LSN and stays sound
  obtain ⟨Sound, hsound, hstep⟩ := h
  cases hw : p.walFlusher with
  | none =>
    refine ⟨none, ?_, Sound, nofun, hstep⟩
    unfold flushWal
    rw [hw]
    dsimp only
    rw [← hw]
  | some w =>
    obtain ⟨hok, hnext⟩ := hstep w (hsound w hw) lsn
    refine ⟨some (WalFlusher.flushUpto w lsn).2, ?_, Sound, ?_, hstep⟩
    · unfold flushWal
      rw [hw]
      dsimp only
      rw [hok]
    · intro w' heq
      cases heq
      exact hnext

/-- **`flush_page` succeeds** when the log does and the dirty nodes fit. -/
theorem flushPage_ok (hw : Wf p) (hno : p.diskManager.faults = [])
    (hrel : WalFlusher.Reliable p.walFlusher) (henc : Encodable p) (id : PageId) :
    ∃ p', flushPage id p = some (.ok (), p') ∧ WalFlusher.Reliable p'.walFlusher ∧
      Encodable p' := by
  unfold flushPage
  rw [Exec.bind_of_ok (Exec.get_apply p)]
  cases hl : p.pageTable.lookup id with
  | none => exact ⟨p, rfl, hrel, henc⟩
  | some f =>
    obtain ⟨node, hf⟩ := hw.node hl
    have hread : readFrame f p = some (.ok node, p) := by
      rw [readFrame, hf]
      rfl
    dsimp only
    rw [Exec.bind_of_ok hread]
    cases hdirty : node.isDirty with
    | false => exact ⟨p, rfl, hrel, henc⟩
    | true =>
      obtain ⟨hs, hfit⟩ := henc id f node hl hf hdirty
      obtain ⟨w, hwal, hrel'⟩ := flushWal_reliable hrel node.getLastLsn
      obtain ⟨page, hpage⟩ := encodePage_ok (p := { p with walFlusher := w }) hs hfit
      have hwrite : disk (DiskManager.writePage id page) { p with walFlusher := w } =
          some (.ok (), { p with
            walFlusher := w
            diskManager :=
              { p.diskManager with
                file := p.diskManager.file.writeAt id.val.toNat page.data } }) :=
        Exec.zoom_of_some (writeAllAt_ok hno)
      rw [if_pos rfl, Exec.bind_of_ok hwal, Exec.bind_of_ok hpage, Exec.bind_of_ok hwrite]
      refine ⟨_, rfl, hrel', ?_⟩
      -- the node that was just cleaned needs no writing, and the others are as before
      intro id' f' node' hl' hf' hdirty'
      have hset : (p.frames.set f node.clearDirty)[f']? = some node' := hf'
      by_cases hff : f = f'
      · subst hff
        rw [List.getElem?_set_self (hw.framed id f hl), Option.some.injEq] at hset
        rw [← hset, BTreeNode.isDirty_clearDirty] at hdirty'
        cases hdirty'
      · rw [List.getElem?_set_ne hff] at hset
        exact henc id' f' node' hl' hset hdirty'

theorem Ready.flushPage (h : Ready p) (id : PageId) :
    ∃ p', flushPage id p = some (.ok (), p') ∧ Ready p' := by
  obtain ⟨p', hrun, hrel, henc⟩ := flushPage_ok h.wf h.noFaults h.reliable h.encodable id
  obtain ⟨hw, hk, -, htable, hrepl⟩ := h.wf.flushPage hrun
  exact ⟨p', hrun, hw, h.tracked.congr htable hrepl hk.capacity, hk.capacity ▸ h.capacity,
    hk.faults h.noFaults, hrel, henc⟩

/-! ### Evicting -/

/-- **`evict_page` succeeds** when there is a page to evict. -/
theorem Serviceable.evictPage (h : Serviceable p) (hne : p.pageTable.keys ≠ []) :
    ∃ p', evictPage p = some (.ok (), p') ∧ Ready p' := by
  obtain ⟨is, l, ht, hmem⟩ := h.tracked
  have hfree : ∀ id ∈ p.pageTable, p.isUnpinned id = some (true, ()) := fun id hid =>
    isUnpinned_of_unheld h.wf.inj h.unpinned hid
  obtain ⟨id, q, is', hcached, hvictim, ht'⟩ := exists_victim ht hmem hfree hne
  unfold BufferPool.evictPage
  rw [Exec.bind_of_ok (Exec.get_apply p), hvictim, Exec.bind_of_ok (Exec.ofOption_some _ _)]
  dsimp only
  rw [Exec.bind_of_ok (Exec.modify_apply _ _)]
  have hrest : ∀ id', id' ∈ l.erase id ↔ id' ∈ p.pageTable ∧ id' ≠ id := by
    intro id'
    rw [ht.nodup.mem_erase_iff, hmem, and_comm]
  -- the page is flushed while the replacer does not track it any more
  have hk : Kept p { p with replacer := q } :=
    ⟨rfl, rfl, rfl, fun h => h, rfl, fun _ _ h => h, fun _ _ h _ => h⟩
  have hw₁ : Wf { p with replacer := q } :=
    h.wf.of_kept hk ⟨is', _, ht', fun id' hid => ((hrest id').mp hid).1⟩ h.wf.bounded
  obtain ⟨p₂, hflush, hrel₂, henc₂⟩ := flushPage_ok hw₁ h.noFaults h.reliable
    (h.encodable.of_frames (fun _ _ h => h) rfl) id
  obtain ⟨hw₂, hk₂, -, htable, hrepl⟩ := hw₁.flushPage hflush
  obtain ⟨f, hl⟩ := AList.exists_lookup hcached
  have hl₂ : p₂.pageTable.lookup id = some f := by
    rw [htable]
    exact hl
  obtain ⟨node, hf₂⟩ := hw₂.node hl₂
  obtain ⟨hw₃, ⟨hk₃, -, -⟩, -⟩ := hw₂.removeEntry hl₂ hf₂ (flushPage_ok_clean hw₁ hflush hl₂ hf₂)
    (by rw [hk₂.held, show BufferPool.held { p with replacer := q } = [] from h.unpinned]
        exact List.not_mem_nil)
    ⟨is', l.erase id, by rw [hrepl, hk₂.capacity]; exact ht', fun id' hid => by
      rw [htable]
      exact (hrest id').mp hid⟩ rfl
  rw [Exec.bind_of_ok hflush]
  refine ⟨_, rfl, hw₃, ⟨is', l.erase id, ?_, fun id' => ?_⟩, ?_, ?_, hrel₂, ?_⟩
  · rw [hk₃.capacity, hk₂.capacity]
    exact hrepl ▸ ht'
  · rw [hrest, AList.mem_erase, htable, and_comm]
  · rw [hk₃.capacity, hk₂.capacity]
    exact h.capacity
  · exact hk₃.faults (hk₂.faults h.noFaults)
  · exact henc₂.of_frames hk₃.table rfl

/-! ### Installing -/

/-- The header in memory stands in nobody's way. -/
theorem Ready.allocated (h : Ready p) : Ready p.allocated where
  wf := h.wf.allocated
  tracked := h.tracked
  capacity := h.capacity
  noFaults := h.noFaults
  reliable := h.reliable
  encodable := h.encodable

/-- **`install` succeeds** when there is room. -/
theorem Ready.install (h : Ready p) {id : PageId} {node : BTreeNode} (hnew : id ∉ p.pageTable)
    (ha : id.Aligned) (hroom : p.pageTable.keys.length < p.capacity)
    (hnode : node.isDirty = true → node.IsSlotted ∧ node.encodedSize ≤ pageSize) :
    ∃ q, install id node p = some (.ok p.frames.length, p.installed q id node) ∧
      Ready (p.installed q id node) := by
  obtain ⟨q, hq, hinst, hw⟩ := h.wf.install hnew ha hroom node
  refine ⟨q, hinst, hw, h.tracked.installed hq node, h.capacity, h.noFaults, h.reliable, ?_⟩
  -- a dirty node in the table is the new one, or was there before
  intro id' f node' hl' hf hdirty
  by_cases hid : id' = id
  · subst hid
    obtain rfl : p.frames.length = f :=
      Option.some.inj ((AList.lookup_insert _).symm.trans hl')
    have hinstalled : (p.frames ++ [node])[p.frames.length]? = some node := by simp
    obtain rfl : node = node' := Option.some.inj (hinstalled.symm.trans hf)
    exact hnode hdirty
  · have hl₁ : p.pageTable.lookup id' = some f := (AList.lookup_insert_ne hid).symm.trans hl'
    refine h.encodable id' f node' hl₁ ?_ hdirty
    rw [← List.getElem?_append_left (h.wf.framed id' f hl₁)]
    exact hf

/-! ### Fetching -/

/-- Making room succeeds. -/
theorem Serviceable.makeRoom (h : Serviceable p) :
    ∃ p', makeRoom p = some (.ok (), p') ∧ Ready p' := by
  unfold BufferPool.makeRoom
  rw [Exec.bind_of_ok (Exec.get_apply p)]
  split
  · next hfull =>
    have hcap := h.capacity
    refine h.evictPage fun hnil => ?_
    rw [hnil] at hfull
    exact absurd hfull (Nat.not_le_of_lt hcap)
  · exact ⟨p, rfl, h.toReady⟩

/-- `fetch_page` succeeds on a page that is cached, whatever frames are held: only the replacer
changes. -/
theorem Ready.fetchPage_hit (h : Ready p) {id : PageId} {f : Frame}
    (hl : p.pageTable.lookup id = some f) :
    ∃ p', fetchPage id p = some (.ok f, p') ∧ Ready p' ∧ p'.held = f :: p.held ∧
      p'.frames = p.frames := by
  have hcached : id ∈ p.pageTable := AList.mem_of_lookup hl
  -- the page is tracked, because it is in the table
  obtain ⟨q, hq, htracked⟩ := h.tracked.exists_recorded hcached
  have hw := h.wf.recorded hcached hq
  unfold BufferPool.fetchPage
  rw [Exec.bind_of_ok (Exec.get_apply p), hl]
  dsimp only
  rw [Exec.bind_of_ok (recordAccess_eq hq)]
  exact ⟨_, rfl, ⟨hw.hold hl, htracked, h.capacity, h.noFaults, h.reliable, h.encodable⟩, rfl, rfl⟩

theorem Serviceable.fetchPage_hit (h : Serviceable p) {id : PageId} {f : Frame}
    (hl : p.pageTable.lookup id = some f) :
    ∃ p', fetchPage id p = some (.ok f, p') ∧ Ready p' ∧ p'.held = [f] ∧
      p'.frames = p.frames := by
  obtain ⟨p', hrun, hready, hheld, hframes⟩ := h.toReady.fetchPage_hit hl
  rw [h.unpinned] at hheld
  exact ⟨p', hrun, hready, hheld, hframes⟩

omit [WalFlusher φ] in
/-- Making room brings no page into the table. -/
theorem Kept.not_cached {p₁ : BufferPool φ} (h : Kept p p₁) {id : PageId}
    (hl : p.pageTable.lookup id = none) : p₁.pageTable.lookup id = none := by
  cases hl₁ : p₁.pageTable.lookup id with
  | none => rfl
  | some f =>
    rw [h.table id f hl₁] at hl
    cases hl

/-- A page is read from the file once room was made for it, whatever frames are held. -/
theorem Ready.fetchPage_of_read {p₁ : BufferPool φ} (h : Ready p) (hr₁ : Ready p₁) {id : PageId}
    {page : Page} {node : BTreeNode} (hl : p.pageTable.lookup id = none)
    (hroom : makeRoom p = some (.ok (), p₁)) (ha : id.Aligned)
    (hread : p₁.diskManager.file.readAt id.val.toNat pageSize = some page)
    (hdecode : BTreeNode.decode page = some (.ok node)) :
    ∃ q, fetchPage id p = some (.ok p₁.frames.length, p₁.installed q id node) ∧
      Ready (p₁.installed q id node) ∧
      (p₁.installed q id node).held = p₁.frames.length :: p.held := by
  obtain ⟨-, ⟨hk₁, -, -⟩, hlt⟩ := h.wf.makeRoom hroom
  have hreadPage : disk (DiskManager.readPage id) p₁ = some (.ok page, p₁) :=
    Exec.zoom_of_some (readPage_ok hr₁.noFaults hread)
  have hdecodePage : decodePage page p₁ = some (.ok node, p₁) := by
    rw [decodePage, hdecode]
    rfl
  -- a node that comes from a page is clean
  have hclean : node.isDirty = true → node.IsSlotted ∧ node.encodedSize ≤ pageSize := by
    intro hdirty
    rw [DataFile.isDirty_of_decode hdecode] at hdirty
    cases hdirty
  obtain ⟨q, hinst, hready⟩ :=
    hr₁.install (AList.lookup_eq_none.mp (hk₁.not_cached hl)) ha (hlt rfl) hclean
  unfold BufferPool.fetchPage
  rw [Exec.bind_of_ok (Exec.get_apply p), hl]
  dsimp only
  rw [Exec.bind_of_ok hroom, Exec.bind_of_ok hreadPage, Exec.bind_of_ok hdecodePage, hinst]
  refine ⟨q, rfl, hready, ?_⟩
  change p₁.frames.length :: p₁.held = _ :: p.held
  rw [hk₁.held]

theorem Ready.fetchPage_of_room {p₁ : BufferPool φ} (h : Ready p) (hr₁ : Ready p₁) {id : PageId}
    {c : BTreeNode} (hl : p.pageTable.lookup id = none) (hroom : makeRoom p = some (.ok (), p₁))
    (ha : id.Aligned) (hne : id.val ≠ 0) (hhas : p.Has id c) :
    ∃ f p', fetchPage id p = some (.ok f, p') ∧ Ready p' ∧ p'.held = f :: p.held := by
  obtain ⟨-, ⟨hk₁, hm₁, -⟩, -⟩ := h.wf.makeRoom hroom
  obtain ⟨page, node, hread, hdecode, -⟩ :=
    (hhas.moves h.noFaults (hm₁ id ha hne)).read (hk₁.not_cached hl)
  obtain ⟨q, hrun, hready, hheld⟩ := h.fetchPage_of_read hr₁ hl hroom ha hread hdecode
  exact ⟨_, _, hrun, hready, hheld⟩

/-- **`fetch_page` succeeds** on a page that has a content. -/
theorem Serviceable.fetchPage (h : Serviceable p) {id : PageId} {c : BTreeNode}
    (ha : id.Aligned) (hne : id.val ≠ 0) (hhas : p.Has id c) :
    ∃ f p', fetchPage id p = some (.ok f, p') ∧ Ready p' ∧ p'.held = [f] := by
  cases hl : p.pageTable.lookup id with
  | some f =>
    obtain ⟨p', hrun, hready, hheld, -⟩ := h.fetchPage_hit hl
    exact ⟨f, p', hrun, hready, hheld⟩
  | none =>
    obtain ⟨p₁, hroom, hr₁⟩ := h.makeRoom
    obtain ⟨f, p', hrun, hready, hheld⟩ := h.toReady.fetchPage_of_room hr₁ hl hroom ha hne hhas
    rw [h.unpinned] at hheld
    exact ⟨f, p', hrun, hready, hheld⟩

/-- A page is made once room was made for it, whatever frames are held. -/
theorem Ready.newPage_of_room {p₁ : BufferPool φ} (hr₁ : Ready p₁) (hfresh₁ : Fresh p₁)
    (hroom : makeRoom p = some (.ok (), p₁)) (hlt : p₁.pageTable.keys.length < p₁.capacity)
    (hover : p₁.diskManager.header.nextFreeOffset.toNat + pageSize < 2 ^ 64) (isLeaf : Bool) :
    ∃ f p', newPage isLeaf p = some (.ok (⟨p₁.diskManager.header.nextFreeOffset⟩, f), p') ∧
      Ready p' ∧ p'.held = f :: p₁.held := by
  have hnew : (⟨p₁.diskManager.header.nextFreeOffset⟩ : PageId) ∉ p₁.allocated.pageTable :=
    fun hmem => Nat.lt_irrefl _ (hfresh₁.below _ hmem)
  -- a new page is clean, so nothing is asked of its encoding
  have hclean : ∀ id : PageId, (BTreeNode.newEmpty id isLeaf).isDirty = true →
      (BTreeNode.newEmpty id isLeaf).IsSlotted ∧
        (BTreeNode.newEmpty id isLeaf).encodedSize ≤ pageSize := by
    intro id hdirty
    cases isLeaf with
    | false => cases hdirty
    | true => cases hdirty
  obtain ⟨q, hinst, hready⟩ := hr₁.allocated.install hnew hfresh₁.aligned hlt (hclean _)
  exact ⟨_, _, newPage_ok hroom hover hinst, hready, rfl⟩

/-- **`new_page` succeeds** as long as the counter of the header does not overflow. -/
theorem Serviceable.newPage (h : Serviceable p) (hfresh : Fresh p)
    (hover : p.diskManager.header.nextFreeOffset.toNat + pageSize < 2 ^ 64) (isLeaf : Bool) :
    ∃ f p', newPage isLeaf p = some (.ok (⟨p.diskManager.header.nextFreeOffset⟩, f), p') ∧
      Ready p' ∧ p'.held = [f] := by
  obtain ⟨p₁, hroom, hr₁⟩ := h.makeRoom
  obtain ⟨-, ⟨hk₁, -, -⟩, hlt⟩ := h.wf.makeRoom hroom
  obtain ⟨f, p', hmade, hready, hheld⟩ := hr₁.newPage_of_room (hfresh.of_kept hk₁) hroom (hlt rfl)
    (hk₁.header ▸ hover) isLeaf
  rw [hk₁.header] at hmade
  rw [hk₁.held, h.unpinned] at hheld
  exact ⟨f, p', hmade, hready, hheld⟩

/-- A node that fits is written into a frame. -/
theorem Ready.withNode (h : Ready p) (f : Frame) {node : BTreeNode} (hs : node.IsSlotted)
    (hfit : node.encodedSize ≤ pageSize) : Ready (p.withNode f node) where
  wf := h.wf.withNode f node
  tracked := h.tracked
  capacity := h.capacity
  noFaults := h.noFaults
  reliable := h.reliable
  encodable id g node' hl hg hdirty := by
    -- the node in the frame is the new one; the others are as before
    by_cases hfg : f = g
    · subst hfg
      obtain ⟨old, hold⟩ := h.wf.node hl
      obtain rfl : node = node' := Option.some.inj ((frames_withNode_self hold).symm.trans hg)
      exact ⟨hs, hfit⟩
    · rw [frames_withNode_of_ne hfg] at hg
      exact h.encodable id g node' hl hg hdirty

/-- The frame is dropped, and the pool is as serviceable as it was. -/
theorem Ready.drop (h : Ready p) {f : Frame} (hheld : p.held = [f]) :
    Serviceable { p with held := p.held.erase f } where
  wf := h.wf.drop f
  tracked := h.tracked
  capacity := h.capacity
  noFaults := h.noFaults
  reliable := h.reliable
  encodable := h.encodable
  unpinned := by
    change p.held.erase f = []
    rw [hheld, List.erase_cons_head]

end Flusher

/-! ### Two pages -/

namespace TwoPages

/-- A file with an empty leaf on each of its two pages. Irreducible, so that no proof computes its
bytes. -/
@[irreducible] def file : DataFile :=
  (DataFile.empty.save ⟨4096⟩ (BTreeNode.newEmpty ⟨4096⟩ true)).save ⟨8192⟩
    (BTreeNode.newEmpty ⟨8192⟩ true)

def disk : DiskManager := ⟨file, { FileHeader.default with nextFreeOffset := 12288 }, []⟩

def pages : Set PageId := {⟨4096⟩, ⟨8192⟩}

variable {id : PageId}

theorem first_mem : (⟨4096⟩ : PageId) ∈ pages := .inl rfl

theorem second_mem : (⟨8192⟩ : PageId) ∈ pages := .inr rfl

theorem aligned (hid : id ∈ pages) : id.Aligned ∧ id.val ≠ 0 := by
  obtain rfl | rfl := hid
  · decide
  · decide

theorem nodeAt (hid : id ∈ pages) :
    file.nodeAt id.val.toNat = some (BTreeNode.newEmpty id true).decoded := by
  have hslotted : ∀ id, (BTreeNode.newEmpty id true).IsSlotted := fun id => List.Perm.refl _
  unfold file
  obtain rfl | rfl := hid
  · refine DataFile.nodeAt_save_of_ne ⟨4096⟩ (by decide) ?_
    exact DataFile.nodeAt_save ⟨4096⟩ (hslotted _) (by decide)
  · exact DataFile.nodeAt_save ⟨8192⟩ (hslotted _) (by decide)

/-- Everything else is blank. -/
theorem slotted (ha : id.Aligned) {node : BTreeNode}
    (hnode : file.nodeAt id.val.toNat = some node) : node.IsSlotted := by
  by_cases hid : id ∈ pages
  · rw [nodeAt hid, Option.some.injEq] at hnode
    rw [← hnode]
    exact BTreeNode.IsSlotted.decoded (List.Perm.refl _)
  · have hblank : file.Blank id.val.toNat := by
      unfold file
      refine ((DataFile.blank_empty _).save_of_ne ?_).save_of_ne ?_
      · exact ha.disjoint (by decide) fun heq => hid (.inl heq)
      · exact ha.disjoint (by decide) fun heq => hid (.inr heq)
    obtain hnone | hzero := hblank.nodeAt
    · rw [hnone] at hnode
      cases hnode
    · rw [hzero, Option.some.injEq] at hnode
      rw [← hnode]
      exact List.Perm.refl _

theorem has (hid : id ∈ pages) (capacity : ℕ) :
    (new disk capacity (none : Option Empty)).Has id (BTreeNode.newEmpty id true).bare := by
  have hhas := Has.new (d := disk) (nodeAt hid) (BTreeNode.IsSlotted.decoded (List.Perm.refl _))
    capacity (none : Option Empty)
  rwa [BTreeNode.bare_decoded] at hhas

theorem stored (hid : id ∈ pages) (capacity : ℕ) :
    ((new disk capacity (none : Option Empty)).line id).stored =
      some (BTreeNode.newEmpty id true).bare := by
  have hnode : disk.file.nodeAt id.val.toNat = some (BTreeNode.newEmpty id true).decoded :=
    nodeAt hid
  rw [stored_new, hnode, Option.map_some, BTreeNode.bare_decoded]

theorem serviceable {capacity : ℕ} (hcap : 0 < capacity) :
    Serviceable (new disk capacity (none : Option Empty)) :=
  .new rfl hcap WalFlusher.reliable_none

end TwoPages

end BufferPool

end SmolDb
