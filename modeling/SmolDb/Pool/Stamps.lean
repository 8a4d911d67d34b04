import SmolDb.Page.Lsn
import SmolDb.Pool.Allocation

/-!
# The greatest LSN

No call of the pool makes up an LSN: `Below m` says that no node in the cache and no page in the
file has an LSN above `m`, and every call keeps it, whatever fails. For a write that stops
half-way one has to know more, since the bytes it leaves are those of two LSNs: a page in the file
is never ahead of its node in the cache.

`new_page` keeps that only when it hands out a page that has no LSN in the file (`Unstamped`).
-/

namespace SmolDb

/-- No page behind the header has an LSN above `m`. -/
def DataFile.LsnsBelow (m : UInt64) (self : DataFile) : Prop :=
  ∀ id : PageId, id.Aligned → id.val ≠ 0 → self.lsnAt id.val.toNat ≤ m

namespace BufferPool

variable {φ : Type} {p p' : BufferPool φ} {m : UInt64}

/-- No LSN of a node or of a page in the file is above `m`, and no page in the file has a greater
LSN than its node. -/
structure Below (m : UInt64) (p : BufferPool φ) : Prop where
  aligned : ∀ id ∈ p.pageTable, id.Aligned
  file : p.diskManager.file.LsnsBelow m
  frames : ∀ node ∈ p.frames, node.getLastLsn ≤ m
  ahead : ∀ id f, p.pageTable.lookup id = some f → ∃ node, p.frames[f]? = some node ∧
    (id.val ≠ 0 → p.diskManager.file.lsnAt id.val.toNat ≤ node.getLastLsn)

/-- What holds below `m` before holds after. -/
def StaysBelow (m : UInt64) (p p' : BufferPool φ) : Prop := Below m p → Below m p'

theorem StaysBelow.refl (p : BufferPool φ) : StaysBelow m p p := fun h => h

theorem StaysBelow.trans (a b c : BufferPool φ) (h : StaysBelow m a b) (h' : StaysBelow m b c) :
    StaysBelow m a c := fun ha => h' (h ha)

theorem Below.mono {m' : UInt64} (hle : m ≤ m') (h : Below m p) : Below m' p where
  aligned := h.aligned
  file id ha hne := UInt64.le_trans (h.file id ha hne) hle
  frames node hnode := UInt64.le_trans (h.frames node hnode) hle
  ahead := h.ahead

/-- A pool that was just made has the LSNs of its file. -/
theorem Below.new {d : DiskManager} (h : d.file.LsnsBelow m) (capacity : ℕ) (w : Option φ) :
    Below m (new d capacity w) where
  aligned id hid := absurd hid (AList.notMem_empty id)
  file := h
  frames := nofun
  ahead id f hl := by cases hl

theorem Below.of_same (h : Below m p) (htable : p'.pageTable = p.pageTable)
    (hframes : p'.frames = p.frames)
    (hfile : p'.diskManager.file = p.diskManager.file) : Below m p' where
  aligned := htable ▸ h.aligned
  file := hfile ▸ h.file
  frames := hframes ▸ h.frames
  ahead := by
    rw [htable, hframes, hfile]
    exact h.ahead

/-- A page leaves the table. -/
theorem Below.erase (h : Below m p) (id : PageId) :
    Below m { p with pageTable := p.pageTable.erase id } where
  aligned id' hid := h.aligned id' (AList.mem_erase.mp hid).2
  file := h.file
  frames := h.frames
  ahead id' f hl := by
    by_cases hid : id' = id
    · rw [hid, AList.lookup_erase] at hl
      cases hl
    · exact h.ahead id' f ((AList.lookup_erase_ne hid).symm.trans hl)

/-- The node in a frame gets an LSN that is not smaller. -/
theorem Below.withNode (h : Below m p) {f : Frame} {node node' : BTreeNode}
    (hf : p.frames[f]? = some node) (hup : node.getLastLsn ≤ node'.getLastLsn)
    (hle : node'.getLastLsn ≤ m) : Below m (p.withNode f node') where
  aligned := h.aligned
  file := h.file
  frames n hn := by
    rcases List.mem_or_eq_of_mem_set hn with hold | rfl
    · exact h.frames n hold
    · exact hle
  ahead id f' hl := by
    obtain ⟨n, hn, hahead⟩ := h.ahead id f' hl
    by_cases hff : f = f'
    · subst hff
      obtain rfl : node = n := Option.some.inj (hf.symm.trans hn)
      exact ⟨node', frames_withNode_self hf, fun hne => UInt64.le_trans (hahead hne) hup⟩
    · exact ⟨n, (frames_withNode_of_ne hff node').trans hn, hahead⟩

/-- An image of a node is written to its page, or a part of it. -/
theorem Below.written (h : Below m p) {id : PageId} {f : Frame} {node : BTreeNode} {page : Page}
    {data : List UInt8} {d : DiskManager} (hl : p.pageTable.lookup id = some f)
    (hf : p.frames[f]? = some node) (henc : node.encode Page.new = some (.ok (), page))
    (hdata : data <+: page.data)
    (hfile : d.file = p.diskManager.file.writeAt id.val.toNat data) (w : Option φ) :
    Below m { p with walFlusher := w, diskManager := d } := by
  have hid : id.Aligned := h.aligned id (AList.mem_of_lookup hl)
  have hlsn := BTreeNode.encode_lastLsn henc
  have hlen : data.length ≤ pageSize := Nat.le_trans hdata.length_le (Nat.le_of_eq page.size)
  -- even a part of the page leaves an LSN between the old one and that of the node
  have hself : id.val ≠ 0 → d.file.lsnAt id.val.toNat ≤ node.getLastLsn := by
    intro hne
    obtain ⟨n, hn, hahead⟩ := h.ahead id f hl
    obtain rfl : node = n := Option.some.inj (hf.symm.trans hn)
    rw [hfile, ← hlsn]
    refine DataFile.lsnAt_writeAt_le hdata ?_
    rw [hlsn]
    exact hahead hne
  have hother : ∀ id' : PageId, id'.Aligned → id' ≠ id →
      d.file.lsnAt id'.val.toNat = p.diskManager.file.lsnAt id'.val.toNat := by
    intro id' ha hne
    have hdisjoint := ha.disjoint hid hne
    rw [hfile]
    exact DataFile.lsnAt_writeAt_of_disjoint (by omega)
  constructor
  · exact h.aligned
  · intro id' ha hne
    by_cases heq : id' = id
    · subst heq
      have hmem : node ∈ p.frames := List.mem_of_getElem? hf
      exact UInt64.le_trans (hself hne) (h.frames node hmem)
    · show d.file.lsnAt id'.val.toNat ≤ m
      rw [hother id' ha heq]
      exact h.file id' ha hne
  · exact h.frames
  · intro id' f' hl'
    obtain ⟨n, hn, hahead⟩ := h.ahead id' f' hl'
    refine ⟨n, hn, fun hne => ?_⟩
    show d.file.lsnAt id'.val.toNat ≤ n.getLastLsn
    by_cases heq : id' = id
    · subst heq
      obtain rfl : f = f' := Option.some.inj (hl.symm.trans hl')
      obtain rfl : node = n := Option.some.inj (hf.symm.trans hn)
      exact hself hne
    · rw [hother id' (h.aligned id' (AList.mem_of_lookup hl')) heq]
      exact hahead hne

/-- A node gets a new frame, and its page an entry in the table. -/
theorem Below.installed (h : Below m p) {id : PageId} {node : BTreeNode} (ha : id.Aligned)
    (hle : node.getLastLsn ≤ m)
    (hahead : id.val ≠ 0 → p.diskManager.file.lsnAt id.val.toNat ≤ node.getLastLsn)
    (q : LruReplacer) : Below m (p.installed q id node) where
  aligned id' hid := by
    rcases (AList.mem_insert _).mp hid with rfl | hold
    · exact ha
    · exact h.aligned id' hold
  file := h.file
  frames n hn := by
    rcases List.mem_append.mp hn with hold | hnew
    · exact h.frames n hold
    · rw [List.mem_singleton.mp hnew]
      exact hle
  -- the new page gets the new frame; the other frames are where they were
  ahead id' f hl := by
    by_cases hid : id' = id
    · subst hid
      obtain rfl := Option.some.inj ((AList.lookup_insert _).symm.trans hl)
      exact ⟨node, List.getElem?_concat_length, hahead⟩
    · obtain ⟨n, hn, hold⟩ := h.ahead id' f ((AList.lookup_insert_ne hid).symm.trans hl)
      have hlt := (List.getElem?_eq_some_iff.mp hn).1
      exact ⟨n, (List.getElem?_append_left hlt).trans hn, hold⟩

/-- Saving the header writes to no page behind it. -/
theorem within_saveHeader_below :
    Exec.Within (StaysBelow m)
      (disk DiskManager.saveHeader : Exec DbError (BufferPool φ) Unit) := by
  intro p r p' h hbelow
  obtain ⟨d, hd, rfl⟩ := disk_outcome h
  obtain ⟨-, -, data, hlen, hfile⟩ := saveHeader_outcome hd
  -- the header lies in the first page of the file, which holds no node
  have hsame : ∀ id : PageId, id.Aligned → id.val ≠ 0 →
      d.file.lsnAt id.val.toNat = p.diskManager.file.lsnAt id.val.toNat := by
    intro id ha hne
    have hbehind := ha.pageSize_le hne
    have hsize : fileHeaderSize ≤ pageSize := by decide
    rw [hfile]
    exact DataFile.lsnAt_writeAt_of_disjoint (by omega)
  refine ⟨hbelow.aligned, fun id ha hne => ?_, hbelow.frames, fun id f hl => ?_⟩
  · show d.file.lsnAt id.val.toNat ≤ m
    rw [hsame id ha hne]
    exact hbelow.file id ha hne
  · obtain ⟨node, hf, hahead⟩ := hbelow.ahead id f hl
    refine ⟨node, hf, fun hne => ?_⟩
    show d.file.lsnAt id.val.toNat ≤ node.getLastLsn
    rw [hsame id (hbelow.aligned id (AList.mem_of_lookup hl)) hne]
    exact hahead hne

section Flusher

variable [WalFlusher φ]

theorem within_flushPage_below (id : PageId) :
    Exec.Within (StaysBelow m) (flushPage id : Exec DbError (BufferPool φ) Unit) := by
  intro p r p' h hbelow
  cases flushPage_outcome h with
  | skipped => exact hbelow
  | @failed f node e w d data hl hf hdirty hheader hfaults hlen hfile himage =>
    obtain rfl | ⟨page, henc, hdata⟩ := himage
    · -- nothing was written
      have hsame : d.file = p.diskManager.file := by
        rw [hfile, DataFile.writeAt, if_pos rfl]
      exact hbelow.of_same rfl rfl hsame
    · exact hbelow.written hl hf henc hdata hfile w
  | @written f node w d page hl hf hdirty henc hheader hfaults hfile =>
    have hwritten := hbelow.written hl hf henc List.prefix_rfl hfile w
    -- clearing the dirty flag keeps the LSN
    have hlsn : node.clearDirty.getLastLsn = node.getLastLsn := by
      cases node <;> rfl
    refine hwritten.withNode hf (UInt64.le_of_eq hlsn.symm) ?_
    rw [hlsn]
    exact hbelow.frames node (List.mem_of_getElem? hf)

theorem within_evictPage_below :
    Exec.Within (StaysBelow m) (evictPage : Exec DbError (BufferPool φ) Unit) := by
  intro p r p' h hbelow
  have hflushed : ∀ {id : PageId} {q : LruReplacer} {r : Except DbError Unit} {p₁ : BufferPool φ},
      flushPage id { p with replacer := q } = some (r, p₁) → Below m p₁ := by
    intro id q r p₁ hflush
    exact within_flushPage_below id _ _ _ hflush (hbelow.of_same rfl rfl rfl)
  cases evictPage_outcome h with
  | pinned => exact hbelow.of_same rfl rfl rfl
  | failed _ hflush => exact hflushed hflush
  | evicted _ hflush => exact (hflushed hflush).erase _

theorem within_makeRoom_below :
    Exec.Within (StaysBelow m) (makeRoom : Exec DbError (BufferPool φ) Unit) := by
  intro p r p' h
  rw [makeRoom, Exec.bind_of_ok (Exec.get_apply p)] at h
  split at h
  · exact within_evictPage_below _ _ _ h
  · cases h
    exact .refl p

theorem within_flushAllPages_below (order : HashOrder) :
    Exec.Within (StaysBelow m) (flushAllPages order : Exec DbError (BufferPool φ) Unit) := by
  refine Exec.Within.bind StaysBelow.trans ?_ fun _ => Exec.Within.bind StaysBelow.trans ?_ ?_
  · exact Exec.Within.of_unchanged StaysBelow.refl fun _ _ _ hget => by cases hget; rfl
  · exact Exec.Within.forEach StaysBelow.refl StaysBelow.trans
      fun id _ => within_flushPage_below id
  · exact fun _ => within_saveHeader_below

/-- A page is read from the file with the LSN it has there. -/
theorem within_fetchPage_below {id : PageId} (ha : id.Aligned) (hne : id.val ≠ 0) :
    Exec.Within (StaysBelow m) (fetchPage id : Exec DbError (BufferPool φ) Frame) := by
  intro p r p' h hbelow
  cases fetchPage_outcome h with
  | hit hl hrecord => exact hbelow.of_same rfl rfl rfl
  | full hl hroom => exact within_makeRoom_below _ _ _ hroom hbelow
  | unread hl hroom hread =>
    have hbelow₁ := within_makeRoom_below _ _ _ hroom hbelow
    exact hbelow₁.of_same rfl rfl (readPage_outcome hread).1
  | corrupt hl hroom hread hdecode =>
    have hbelow₁ := within_makeRoom_below _ _ _ hroom hbelow
    exact hbelow₁.of_same rfl rfl (readPage_outcome hread).1
  | @loaded p₁ d page node q hl hroom hread hdecode hrecord =>
    obtain ⟨hfile, -, -, hpage⟩ := readPage_outcome hread
    have hbelow₂ : Below m { p₁ with diskManager := d } :=
      (within_makeRoom_below _ _ _ hroom hbelow).of_same rfl rfl hfile
    -- the node has the LSN of the page
    have hlsn : node.getLastLsn = d.file.lsnAt id.val.toNat := by
      rw [BTreeNode.getLastLsn_of_decode hdecode, hfile,
        DataFile.lastLsn_of_readAt (hpage page rfl)]
    refine hbelow₂.installed ha ?_ (fun _ => UInt64.le_of_eq hlsn.symm) q
    rw [hlsn]
    exact hbelow₂.file id ha hne

/-! ### New pages -/

/-- The page that `new_page` would hand out is not cached, and has no LSN in the file. -/
structure Unstamped (p : BufferPool φ) : Prop where
  aligned : (⟨p.diskManager.header.nextFreeOffset⟩ : PageId).Aligned
  fresh : (⟨p.diskManager.header.nextFreeOffset⟩ : PageId) ∉ p.pageTable
  lsn : p.diskManager.file.lsnAt p.diskManager.header.nextFreeOffset.toNat = 0

theorem flushPage_lsnAt {id id' : PageId} {r : Except DbError Unit}
    (haligned : ∀ id ∈ p.pageTable, id.Aligned) (ha : id'.Aligned) (hout : id' ∉ p.pageTable)
    (h : flushPage id p = some (r, p')) :
    p'.diskManager.file.lsnAt id'.val.toNat = p.diskManager.file.lsnAt id'.val.toNat := by
  -- the page that is flushed is cached, so it is another one
  have hwrite : ∀ {f : Frame} {d : DiskManager} {data : List UInt8},
      p.pageTable.lookup id = some f → data.length ≤ pageSize →
      d.file = p.diskManager.file.writeAt id.val.toNat data →
      d.file.lsnAt id'.val.toNat = p.diskManager.file.lsnAt id'.val.toNat := by
    intro f d data hl hlen hfile
    have hmem : id ∈ p.pageTable := AList.mem_of_lookup hl
    have hdisjoint := ha.disjoint (haligned id hmem) fun heq => hout (heq ▸ hmem)
    rw [hfile]
    exact DataFile.lsnAt_writeAt_of_disjoint (by omega)
  cases flushPage_outcome h with
  | skipped => rfl
  | @failed f node e w d data hl hf hdirty hheader hfaults hlen hfile =>
    exact hwrite hl hlen hfile
  | @written f node w d page hl hf hdirty henc hheader hfaults hfile =>
    exact hwrite hl (Nat.le_of_eq page.size) hfile

/-- Making room writes no page that is not cached. -/
theorem makeRoom_lsnAt {id : PageId} {r : Except DbError Unit}
    (haligned : ∀ id ∈ p.pageTable, id.Aligned) (ha : id.Aligned) (hout : id ∉ p.pageTable)
    (h : makeRoom p = some (r, p')) :
    p'.diskManager.file.lsnAt id.val.toNat = p.diskManager.file.lsnAt id.val.toNat := by
  rw [makeRoom, Exec.bind_of_ok (Exec.get_apply p)] at h
  split at h
  · cases evictPage_outcome h with
    | pinned => rfl
    | @failed _ q _ _ _ hflush =>
      exact flushPage_lsnAt (p := { p with replacer := q }) haligned ha hout hflush
    | @evicted _ q p₁ _ hflush =>
      have hlsn := flushPage_lsnAt (p := { p with replacer := q }) haligned ha hout hflush
      exact hlsn
  · cases h
    rfl

/-- **A page that is made** has the LSN 0. -/
theorem Below.newPage (hbelow : Below m p) (hnew : Unstamped p) {isLeaf : Bool}
    {r : Except DbError (PageId × Frame)} (h : newPage isLeaf p = some (r, p')) : Below m p' := by
  cases newPage_outcome h with
  | full hroom => exact within_makeRoom_below _ _ _ hroom hbelow
  | @made p₁ q hroom hover hrecord =>
    have hbelow₂ : Below m p₁.allocated :=
      (within_makeRoom_below _ _ _ hroom hbelow).of_same rfl rfl rfl
    have hlsn : (BTreeNode.newEmpty ⟨p₁.diskManager.header.nextFreeOffset⟩ isLeaf).getLastLsn =
        0 := by
      cases isLeaf <;> rfl
    rw [(within_makeRoom_trimmed _ _ _ hroom).header] at hlsn ⊢
    refine hbelow₂.installed hnew.aligned ?_ (fun _ => ?_) q
    · rw [hlsn]
      exact UInt64.zero_le
    · show p₁.diskManager.file.lsnAt p.diskManager.header.nextFreeOffset.toNat ≤ _
      rw [makeRoom_lsnAt hbelow.aligned hnew.aligned hnew.fresh hroom, hnew.lsn]
      exact UInt64.zero_le

end Flusher

end BufferPool

/-- **A call of the pool makes up no LSN.** -/
theorem PoolCall.below {φ : Type} [WalFlusher φ] {p p' : BufferPool φ} {m : UInt64} {c : PoolCall}
    {r : Except DbError (Option (PageId × Frame))} (hbelow : p.Below m)
    (hpage : ∀ id, c = .fetchPage id → id.Aligned ∧ id.val ≠ 0)
    (hnew : ∀ isLeaf, c = .newPage isLeaf → p.Unstamped) (hrun : c.run p = some (r, p')) :
    p'.Below m := by
  cases PoolCall.run_outcome hrun with
  | @fetchFailed id e p₁ hfetch =>
    obtain ⟨ha, hne⟩ := hpage id rfl
    exact BufferPool.within_fetchPage_below ha hne _ _ _ hfetch hbelow
  | @fetched id f p₁ hfetch =>
    obtain ⟨ha, hne⟩ := hpage id rfl
    exact BufferPool.within_fetchPage_below ha hne _ _ _ hfetch hbelow
  | makeFailed hmake => exact hbelow.newPage (hnew _ rfl) hmake
  | made hmake => exact hbelow.newPage (hnew _ rfl) hmake
  | flushed hflush => exact BufferPool.within_flushPage_below _ _ _ _ hflush hbelow
  | flushedAll hflush => exact BufferPool.within_flushAllPages_below _ _ _ _ hflush hbelow

end SmolDb
