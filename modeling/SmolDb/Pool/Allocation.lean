import SmolDb.Pool.Clients
import SmolDb.Pool.InStep

/-!
# Page ids across restarts

`allocate_page` counts in memory. The counter reaches the file only when `flush_all_pages` saves
the header, while pages are written to the file whenever they are flushed or evicted; so what a
restart reads back can lie behind the pages that are in the file, and a file to which no header
was ever written gives a counter of zero.

An `Epoch` is the pool of the current process and the pages that were written to the file so far,
by this process or an earlier one. As long as every restart finds a header that is ahead of the
file (`Ahead`), no page id is handed out that lies in the header or names a written page
(`newPage_unwritten`). How a run is scheduled and what fails in it makes no difference.
-/

namespace SmolDb

open BufferPool

/-- A file without pages has its first one behind the header. -/
theorem FileHeader.pageSize_le_default : pageSize ≤ FileHeader.default.nextFreeOffset.toNat := by
  decide

namespace BufferPool

variable {φ : Type} {p p' : BufferPool φ}

/-- The next page id to be handed out, as a number. -/
def nextFree (p : BufferPool φ) : ℕ := p.diskManager.header.nextFreeOffset.toNat

/-- The page is cached, and its node is dirty. -/
def isDirtyPage (p : BufferPool φ) (id : PageId) : Bool :=
  match (p.pageTable.lookup id).bind (p.frames[·]?) with
  | some node => node.isDirty
  | none => false

theorem mem_of_isDirtyPage {id : PageId} (h : p.isDirtyPage id = true) : id ∈ p.pageTable := by
  by_contra hno
  rw [isDirtyPage, AList.lookup_eq_none.mpr hno] at h
  cases h

/-- The header is as it was, and no page came into the table. -/
structure Trimmed (p p' : BufferPool φ) : Prop where
  header : p'.diskManager.header = p.diskManager.header
  table : ∀ id, id ∈ p'.pageTable → id ∈ p.pageTable

theorem Trimmed.refl (p : BufferPool φ) : Trimmed p p := ⟨rfl, fun _ h => h⟩

theorem Trimmed.trans (a b c : BufferPool φ) (h : Trimmed a b) (h' : Trimmed b c) :
    Trimmed a c :=
  ⟨h'.header.trans h.header, fun id hid => h.table id (h'.table id hid)⟩

section Flusher

variable [WalFlusher φ]

theorem within_flushPage_trimmed (id : PageId) :
    Exec.Within Trimmed (flushPage id : Exec DbError (BufferPool φ) Unit) := by
  intro p r p' h
  have htable := (flushPage_same h).1
  refine ⟨?_, fun id' hid => htable ▸ hid⟩
  cases flushPage_outcome h with
  | skipped => rfl
  | failed _ _ _ _ _ _ hheader => exact hheader
  | written _ _ _ _ _ _ _ hheader => exact hheader

theorem within_evictPage_trimmed :
    Exec.Within Trimmed (evictPage : Exec DbError (BufferPool φ) Unit) := by
  intro p r p' h
  cases evictPage_outcome h with
  | pinned => exact ⟨rfl, fun _ hid => hid⟩
  | failed _ hflush =>
    have ht := within_flushPage_trimmed _ _ _ _ hflush
    exact ⟨ht.header, ht.table⟩
  | evicted _ hflush =>
    have ht := within_flushPage_trimmed _ _ _ _ hflush
    exact ⟨ht.header, fun id hid => ht.table id (AList.mem_erase.mp hid).2⟩

theorem within_makeRoom_trimmed :
    Exec.Within Trimmed (makeRoom : Exec DbError (BufferPool φ) Unit) := by
  intro p r p' h
  rw [makeRoom, Exec.bind_of_ok (Exec.get_apply p)] at h
  split at h
  · exact within_evictPage_trimmed _ _ _ h
  · cases h
    exact .refl p

theorem within_flushAllPages_trimmed (order : HashOrder) :
    Exec.Within Trimmed (flushAllPages order : Exec DbError (BufferPool φ) Unit) := by
  refine Exec.Within.bind Trimmed.trans ?_ fun _ => Exec.Within.bind Trimmed.trans ?_ ?_
  · exact Exec.Within.of_unchanged Trimmed.refl fun _ _ _ hget => by cases hget; rfl
  · exact Exec.Within.forEach Trimmed.refl Trimmed.trans
      fun id _ => within_flushPage_trimmed id
  · intro _ p r p' h
    obtain ⟨d, hd, rfl⟩ := disk_outcome h
    exact ⟨(saveHeader_outcome hd).1, fun _ hid => hid⟩

/-- A fetch brings at most its own page into the table. -/
theorem fetchPage_table {id : PageId} {r : Except DbError Frame}
    (h : fetchPage id p = some (r, p')) :
    p'.diskManager.header = p.diskManager.header ∧
      ∀ id', id' ∈ p'.pageTable → id' ∈ p.pageTable ∨ id' = id := by
  -- only a loaded page enters the table; making room can only take others out
  cases fetchPage_outcome h with
  | hit hl hrecord => exact ⟨rfl, fun _ hid => .inl hid⟩
  | full hl hroom =>
    have ht := within_makeRoom_trimmed _ _ _ hroom
    exact ⟨ht.header, fun id' hid => .inl (ht.table id' hid)⟩
  | unread hl hroom hread =>
    have ht := within_makeRoom_trimmed _ _ _ hroom
    obtain ⟨-, hheader, -⟩ := readPage_outcome hread
    exact ⟨hheader.trans ht.header, fun id' hid => .inl (ht.table id' hid)⟩
  | corrupt hl hroom hread hdecode =>
    have ht := within_makeRoom_trimmed _ _ _ hroom
    obtain ⟨-, hheader, -⟩ := readPage_outcome hread
    exact ⟨hheader.trans ht.header, fun id' hid => .inl (ht.table id' hid)⟩
  | loaded hl hroom hread hdecode hrecord =>
    have ht := within_makeRoom_trimmed _ _ _ hroom
    obtain ⟨-, hheader, -⟩ := readPage_outcome hread
    refine ⟨hheader.trans ht.header, fun id' hid => ?_⟩
    rcases (AList.mem_insert _).mp hid with rfl | hold
    · exact .inr rfl
    · exact .inl (ht.table id' hold)

/-- A page is made at the next free offset, which moves on by one page. -/
theorem newPage_table {isLeaf : Bool} {r : Except DbError (PageId × Frame)}
    (h : newPage isLeaf p = some (r, p')) :
    ((∃ e, r = .error e) ∧ Trimmed p p') ∨
      ∃ id f, r = .ok (id, f) ∧ id.val.toNat = p.nextFree ∧
        p'.nextFree = p.nextFree + pageSize ∧
        ∀ id', id' ∈ p'.pageTable → id' ∈ p.pageTable ∨ id' = id := by
  cases newPage_outcome h with
  | full hroom => exact .inl ⟨⟨_, rfl⟩, within_makeRoom_trimmed _ _ _ hroom⟩
  | @made p₁ q hroom hover hrecord =>
    have ht := within_makeRoom_trimmed _ _ _ hroom
    refine .inr ⟨_, _, rfl, ?_, ?_, fun id' hid => ?_⟩
    · show p₁.diskManager.header.nextFreeOffset.toNat = p.nextFree
      rw [ht.header]
      rfl
    · -- the code checks that the advanced offset does not wrap around
      show p₁.diskManager.header.advance.nextFreeOffset.toNat = p.nextFree + pageSize
      unfold nextFree
      rw [← ht.header, FileHeader.advance]
      simp only [UInt64.toNat_add, UInt64.toNat_ofNat', pageSize] at hover ⊢
      omega
    · rcases (AList.mem_insert _).mp hid with rfl | hold
      · exact .inr rfl
      · exact .inl (ht.table id' hold)

/-! ### The pages a call writes to the file -/

/-- A flush writes its page if the page is dirty and nothing fails. -/
def flushWrites (id : PageId) (p : BufferPool φ) : List PageId :=
  match flushPage id p with
  | some (.ok (), _) => if p.isDirtyPage id then [id] else []
  | _ => []

/-- An eviction flushes the page the replacer gives up. -/
def evictWrites (p : BufferPool φ) : List PageId :=
  match p.replacer.evictIf (fun _ => p.isUnpinned) () with
  | some (some evictId, _, replacer) => flushWrites evictId { p with replacer }
  | _ => []

/-- Making room evicts a page if the table is full. -/
def roomWrites (p : BufferPool φ) : List PageId :=
  if p.pageTable.keys.length ≥ p.capacity then p.evictWrites else []

/-- A flush of many pages is left at the first one that fails. -/
def flushAllWrites : List PageId → BufferPool φ → List PageId
  | [], _ => []
  | id :: ids, p =>
    match flushPage id p with
    | some (.ok (), p') => flushWrites id p ++ flushAllWrites ids p'
    | _ => []

theorem flushWrites_sub (id : PageId) : ∀ id' ∈ p.flushWrites id, id' ∈ p.pageTable := by
  intro id' hid
  unfold flushWrites at hid
  split at hid
  · split at hid
    · next hdirty =>
      cases List.mem_singleton.mp hid
      exact mem_of_isDirtyPage hdirty
    · cases hid
  · cases hid

theorem roomWrites_sub : ∀ id ∈ p.roomWrites, id ∈ p.pageTable := by
  intro id hid
  unfold roomWrites evictWrites at hid
  split at hid
  · split at hid
    · next evictId _ q _ =>
      exact flushWrites_sub (p := { p with replacer := q }) evictId id hid
    · cases hid
  · cases hid

theorem flushAllWrites_sub {ids : List PageId} :
    ∀ id ∈ flushAllWrites ids p, id ∈ p.pageTable := by
  induction ids generalizing p with
  | nil => nofun
  | cons id ids ih =>
    intro id' hid
    unfold flushAllWrites at hid
    split at hid
    · next p' hflush =>
      rcases List.mem_append.mp hid with hone | hrest
      · exact flushWrites_sub id id' hone
      · -- a flush leaves the table as it is
        exact (flushPage_same hflush).1 ▸ ih id' hrest
    · cases hid

end Flusher

end BufferPool

section Flusher

variable {φ : Type} [WalFlusher φ] {p p' : BufferPool φ}

/-- The pages a call writes to the file. -/
def PoolCall.writes (p : BufferPool φ) : PoolCall → List PageId
  | .fetchPage pageId => if pageId ∈ p.pageTable then [] else p.roomWrites
  | .newPage _ => p.roomWrites
  | .flushPage pageId => p.flushWrites pageId
  | .flushAllPages order => p.flushAllWrites (order.arrange p.pageTable.keys)

/-- Clients write to frames, and not to the file. -/
def Turn.writes (p : BufferPool φ) : Turn φ → List PageId
  | .call c => c.writes p
  | .write _ _ | .clone _ | .drop _ | .relog _ => []

theorem PoolCall.writes_sub (c : PoolCall) : ∀ id ∈ c.writes p, id ∈ p.pageTable := by
  cases c with
  | fetchPage id =>
    intro id' hid
    change id' ∈ (if id ∈ p.pageTable then [] else p.roomWrites) at hid
    split at hid
    · cases hid
    · exact roomWrites_sub id' hid
  | newPage isLeaf => exact roomWrites_sub
  | flushPage id => exact flushWrites_sub id
  | flushAllPages order => exact flushAllWrites_sub

/-- A call leaves the counter and the table as they are but for its own page. -/
theorem PoolCall.table {c : PoolCall} {r : Except DbError (Option (PageId × Frame))}
    (hrun : c.run p = some (r, p')) :
    p.nextFree ≤ p'.nextFree ∧ ∀ id, id ∈ p'.pageTable →
      id ∈ p.pageTable ∨ c = .fetchPage id ∨ id.val.toNat < p'.nextFree := by
  -- a call that only trims the pool caches nothing new
  have htrimmed : Trimmed p p' → p.nextFree ≤ p'.nextFree ∧ ∀ id, id ∈ p'.pageTable →
      id ∈ p.pageTable ∨ c = .fetchPage id ∨ id.val.toNat < p'.nextFree := by
    intro ht
    refine ⟨?_, fun id hid => .inl (ht.table id hid)⟩
    unfold nextFree
    rw [ht.header]
  -- a fetch caches at most the page it names
  have hfetched : ∀ {id r₁}, c = .fetchPage id → BufferPool.fetchPage id p = some (r₁, p') →
      p.nextFree ≤ p'.nextFree ∧ ∀ id, id ∈ p'.pageTable →
        id ∈ p.pageTable ∨ c = .fetchPage id ∨ id.val.toNat < p'.nextFree := by
    intro id r₁ hc hfetch
    obtain ⟨hheader, htable⟩ := fetchPage_table hfetch
    refine ⟨?_, fun id' hid => ?_⟩
    · unfold nextFree
      rw [hheader]
    · rcases htable id' hid with hold | rfl
      · exact .inl hold
      · exact .inr (.inl hc)
  cases PoolCall.run_outcome hrun with
  | fetchFailed hfetch => exact hfetched rfl hfetch
  | fetched hfetch => exact hfetched rfl hfetch
  | makeFailed hnew =>
    rcases newPage_table hnew with ⟨-, ht⟩ | ⟨_, _, heq, -⟩
    · exact htrimmed ht
    · cases heq
  | made hnew =>
    rcases newPage_table hnew with ⟨⟨_, heq⟩, -⟩ | ⟨id, f, -, hid, hnext, htable⟩
    · cases heq
    refine ⟨by rw [hnext]; exact Nat.le_add_right .., fun id' hid' => ?_⟩
    rcases htable id' hid' with hold | rfl
    · exact .inl hold
    · -- the new page lies below the counter, which has moved on
      refine .inr (.inr ?_)
      rw [hnext, hid]
      exact Nat.lt_add_of_pos_right (by decide)
  | flushed hflush => exact htrimmed (within_flushPage_trimmed _ _ _ _ hflush)
  | flushedAll hflush => exact htrimmed (within_flushAllPages_trimmed _ _ _ _ hflush)

/-! ### Histories -/

end Flusher

/-- The pool of the current process, and the pages that were written to the file so far. -/
structure Epoch (φ : Type) where
  pool : BufferPool φ
  written : List PageId

namespace Epoch

variable {φ : Type}

/-- The first process finds an empty file. -/
def first (faults : List (Option ℕ)) (capacity : ℕ) (w : Option φ) : Epoch φ where
  pool := new ⟨.empty, .default, faults⟩ capacity w
  written := []

/-- The header a process has read is ahead of the file: no id it can hand out lies in the header
or names a page that was written. -/
def Ahead (d : DiskManager) (written : List PageId) : Prop :=
  pageSize ≤ d.header.nextFreeOffset.toNat ∧
    ∀ id ∈ written, id.val.toNat < d.header.nextFreeOffset.toNat

section Flusher

variable [WalFlusher φ] {s s' : Epoch φ} {Opens : DiskManager → List PageId → Prop}

/-- The states of a history. A process works on its pool, successfully or not, and fetches pages
only that were handed out; when it is lost, between any two calls or in one that fails, the next
one starts with what is in the file. `Opens` says which restarts there are. -/
inductive Reached (Opens : DiskManager → List PageId → Prop) : Epoch φ → Prop
  | first (faults : List (Option ℕ)) (capacity : ℕ) (w : Option φ) :
      Reached Opens (first faults capacity w)
  | turn {s : Epoch φ} {t : Turn φ} {r : Except DbError (Option (PageId × Frame))}
      {p' : BufferPool φ} (h : Reached Opens s)
      (hknown : ∀ id, t = .call (.fetchPage id) → id.val.toNat < s.pool.nextFree)
      (hrun : t.run s.pool = some (r, p')) :
      Reached Opens ⟨p', t.writes s.pool ++ s.written⟩
  | restart {s : Epoch φ} {d : DiskManager} (h : Reached Opens s) (faults : List (Option ℕ))
      (capacity : ℕ) (w : Option φ)
      (hopen : DiskManager.openFile s.pool.diskManager.file faults = .ok d)
      (hopens : Opens d s.written) : Reached Opens ⟨new d capacity w, s.written⟩

/-- The counter is ahead of the header, of the cache and of the file. -/
structure Counted (s : Epoch φ) : Prop where
  header : pageSize ≤ s.pool.nextFree
  cached : ∀ id, id ∈ s.pool.pageTable → id.val.toNat < s.pool.nextFree
  written : ∀ id ∈ s.written, id.val.toNat < s.pool.nextFree

/-- **The step lemma.** -/
theorem Counted.turn (h : Counted s) {t : Turn φ} {r : Except DbError (Option (PageId × Frame))}
    {p' : BufferPool φ} (hknown : ∀ id, t = .call (.fetchPage id) → id.val.toNat < s.pool.nextFree)
    (hrun : t.run s.pool = some (r, p')) : Counted ⟨p', t.writes s.pool ++ s.written⟩ := by
  cases t with
  | call c =>
    obtain ⟨hle, htable⟩ := PoolCall.table hrun
    refine ⟨Nat.le_trans h.header hle, fun id hid => ?_, fun id hid => ?_⟩
    · rcases htable id hid with hold | rfl | hnew
      · exact Nat.lt_of_lt_of_le (h.cached id hold) hle
      · exact Nat.lt_of_lt_of_le (hknown id rfl) hle
      · exact hnew
    · rcases List.mem_append.mp hid with hnow | hbefore
      · -- only cached pages are written
        exact Nat.lt_of_lt_of_le (h.cached id (c.writes_sub id hnow)) hle
      · exact Nat.lt_of_lt_of_le (h.written id hbefore) hle
  -- the other turns leave the table, the header and the writes alone
  | write f node =>
    change (if f ∈ s.pool.held then _ else none) = _ at hrun
    split at hrun
    · cases hrun
      exact ⟨h.header, h.cached, h.written⟩
    · cases hrun
  | clone f =>
    change (if f ∈ s.pool.held then _ else none) = _ at hrun
    split at hrun
    · cases hrun
      exact ⟨h.header, h.cached, h.written⟩
    · cases hrun
  | drop f =>
    cases hrun
    exact ⟨h.header, h.cached, h.written⟩
  | relog w =>
    cases hrun
    exact ⟨h.header, h.cached, h.written⟩

/-- **The run lemma.** -/
theorem Reached.counted (h : Reached Ahead s) : Counted s := by
  induction h with
  | first faults capacity w =>
    exact ⟨FileHeader.pageSize_le_default, fun id hid => absurd hid (AList.notMem_empty _), nofun⟩
  | turn _ hknown hrun ih => exact ih.turn hknown hrun
  | restart _ faults capacity w _ hahead _ =>
    exact ⟨hahead.1, fun id hid => absurd hid (AList.notMem_empty _), hahead.2⟩

/-- **No page id is handed out twice**, nor one in the header, when every restart finds a header
that is ahead of the file. -/
theorem newPage_unwritten (h : Reached Ahead s) {isLeaf : Bool} {id : PageId} {f : Frame}
    {p' : BufferPool φ} (hnew : newPage isLeaf s.pool = some (.ok (id, f), p')) :
    pageSize ≤ id.val.toNat ∧ id ∉ s.written := by
  have hcounted := h.counted
  rcases newPage_table hnew with ⟨⟨e, heq⟩, -⟩ | ⟨id', f', heq, hid, -⟩
  · cases heq
  · cases heq
    refine ⟨hid ▸ hcounted.header, fun hmem => ?_⟩
    have hlt := hcounted.written id hmem
    rw [hid] at hlt
    exact Nat.lt_irrefl _ hlt

end Flusher

/-! ### A second process -/

namespace SecondProcess

/-- A page is made, changed in its frame, and written together with the header. -/
def turns : List (Turn Empty) :=
  [.call (.newPage true), .write 0 ((BTreeNode.newEmpty ⟨4096⟩ true).markDirty 1),
    .call (.flushAllPages .asListed)]

/-- Take some turns. -/
def take : List (Turn Empty) → Epoch Empty → Option (Epoch Empty)
  | [], s => some s
  | t :: ts, s => do
    let (_, p') ← t.run s.pool
    take ts ⟨p', t.writes s.pool ++ s.written⟩

/-- The pages written when the first process is lost, and the page the second one makes. -/
def run : Option (List PageId × Option UInt64 × Option (PageId × Frame)) := do
  let s ← take turns (Epoch.first [] 1 none)
  let d ← (DiskManager.openFile s.pool.diskManager.file []).toOption
  let (r, _) ← newPage true (new d 1 (none : Option Empty))
  pure (s.written, d.header.nextFreeOffset, r.toOption)

theorem run_eq : run = some ([⟨4096⟩], some 8192, some (⟨8192⟩, 0)) := by
  decide +kernel

theorem reached_take {Opens : DiskManager → List PageId → Prop} {s s' : Epoch Empty}
    {ts : List (Turn Empty)} (h : Reached Opens s) (hts : ∀ id, .call (.fetchPage id) ∉ ts)
    (hrun : take ts s = some s') : Reached Opens s' := by
  induction ts generalizing s with
  | nil =>
    cases hrun
    exact h
  | cons t ts ih =>
    obtain ⟨⟨r, p'⟩, hturn, hrest⟩ := Option.bind_eq_some_iff.mp hrun
    refine ih (h.turn (fun id heq => ?_) hturn) (fun id hmem => hts id (.tail t hmem)) hrest
    exact absurd (heq ▸ List.mem_cons_self ..) (hts id)

end SecondProcess

open SecondProcess in
/-- The page in the file is not the one the second process makes. -/
theorem newPage_unwritten_second : ∃ (s : Epoch Empty) (p' : BufferPool Empty),
    Reached Ahead s ∧ s.written = [⟨4096⟩] ∧
      newPage true s.pool = some (.ok (⟨8192⟩, 0), p') ∧
      pageSize ≤ (⟨8192⟩ : PageId).val.toNat ∧ (⟨8192⟩ : PageId) ∉ s.written := by
  have hrun := run_eq
  unfold run at hrun
  obtain ⟨s, htake, hrun⟩ := Option.bind_eq_some_iff.mp hrun
  obtain ⟨d, hopen, hrun⟩ := Option.bind_eq_some_iff.mp hrun
  obtain ⟨⟨r, p'⟩, hnew, hrun⟩ := Option.bind_eq_some_iff.mp hrun
  -- what was seen of the two processes
  obtain ⟨hwritten, hseen⟩ := Prod.mk.inj (Option.some.inj hrun)
  obtain ⟨hheader, hmade⟩ := Prod.mk.inj hseen
  have hnext : d.header.nextFreeOffset = 8192 := Option.some.inj hheader
  cases r with
  | error e => cases hmade
  | ok made =>
    cases hmade
    have hopen' : DiskManager.openFile s.pool.diskManager.file [] = .ok d := by
      revert hopen
      cases DiskManager.openFile s.pool.diskManager.file [] with
      | error e => nofun
      | ok d' => exact fun heq => congrArg _ (Option.some.inj heq)
    have hahead : Ahead d s.written := by
      rw [hwritten]
      unfold Ahead
      rw [hnext]
      decide
    have hfirst : Reached Ahead (Epoch.first [] 1 (none : Option Empty)) := .first [] 1 none
    have hlost := reached_take hfirst (by simp [turns]) htake
    have hreached := hlost.restart [] 1 none hopen' hahead
    have hsafe := newPage_unwritten hreached hnew
    exact ⟨⟨new d 1 none, s.written⟩, p', hreached, hwritten, hnew, hsafe⟩

/-- A file whose header was never saved, but behind whose header there are pages, is opened with a
counter of zero. -/
theorem openFile_unsaved {file : DataFile} (hlen : fileHeaderSize ≤ file.len)
    (hzero : ∀ i, i < fileHeaderSize → file.bytes i = 0) (faults : List (Option ℕ)) :
    ∃ d, DiskManager.openFile file faults = .ok d ∧ d.header.nextFreeOffset = 0 := by
  obtain ⟨buffer, hread, hdata⟩ : ∃ buffer, file.readAt 0 fileHeaderSize = some buffer ∧
      buffer.data = List.replicate fileHeaderSize 0 := by
    refine ⟨⟨List.replicate fileHeaderSize 0, List.length_replicate ..⟩, ?_, rfl⟩
    rw [DataFile.readAt_eq_some]
    refine ⟨(Nat.zero_add _).symm ▸ hlen, ?_⟩
    rw [eq_comm, List.eq_replicate_iff]
    refine ⟨by simp, fun b hb => ?_⟩
    obtain ⟨i, hi, rfl⟩ := List.mem_map.mp hb
    rw [Nat.zero_add]
    exact hzero i (List.mem_range.mp hi)
  refine ⟨⟨file, FileHeader.decode buffer.data, faults⟩, ?_, ?_⟩
  · rw [DiskManager.openFile, if_pos (Nat.lt_of_lt_of_le (by decide) hlen), hread]
  · rw [hdata]
    rfl

/-- After the first process has flushed a page without saving the header, the second one hands out
the page of the header. -/
theorem newPage_inHeader : ¬ ∀ s : Epoch Empty, Reached (fun _ _ => True) s →
    ∀ isLeaf id f p', newPage isLeaf s.pool = some (.ok (id, f), p') →
      pageSize ≤ id.val.toNat ∧ id ∉ s.written := by
  intro h
  have hroom : makeRoom (Epoch.first [] 1 (none : Option Empty)).pool =
      some (.ok (), (Epoch.first [] 1 none).pool) := rfl
  obtain ⟨p₁, hmake, hheld, htable, hframes, hfaults, hfile⟩ : ∃ p₁,
      newPage true (Epoch.first [] 1 (none : Option Empty)).pool = some (.ok (⟨4096⟩, 0), p₁) ∧
      p₁.held = [0] ∧ p₁.pageTable = (∅ : AList fun _ : PageId => Frame).insert ⟨4096⟩ 0 ∧
      p₁.frames = [BTreeNode.newEmpty ⟨4096⟩ true] ∧ p₁.diskManager.faults = [] ∧
      p₁.diskManager.file = .empty :=
    ⟨_, newPage_ok hroom (by decide) rfl, rfl, rfl, rfl, rfl, rfl⟩
  have hw₁ := (Wf.newPage (Wf.new _ _ _) (Fresh.new _ _ _ _) hmake).1
  -- the page is written to in its frame and flushed
  set node := (BTreeNode.newEmpty ⟨4096⟩ true).markDirty 1 with hnode
  have hlook : (p₁.withNode 0 node).pageTable.lookup ⟨4096⟩ = some 0 := by
    show p₁.pageTable.lookup ⟨4096⟩ = some 0
    rw [htable]
    rfl
  have hdirty : (p₁.withNode 0 node).frames[0]? = some node := by
    show (p₁.frames.set 0 node)[0]? = some node
    rw [hframes]
    rfl
  have hencodable : Encodable (p₁.withNode 0 node) := by
    intro id f node' hl hf _
    have hid : id = ⟨4096⟩ := by
      have hmem : id ∈ p₁.pageTable := AList.mem_of_lookup hl
      rw [htable, AList.mem_insert] at hmem
      exact hmem.resolve_right (AList.notMem_empty _)
    subst hid
    obtain rfl : 0 = f := Option.some.inj (hlook.symm.trans hl)
    obtain rfl : node = node' := Option.some.inj (hdirty.symm.trans hf)
    exact ⟨BTreeNode.isSlotted_newEmpty ⟨4096⟩ true, Nat.le_of_ble_eq_true rfl⟩
  obtain ⟨p₃, hflush, -⟩ :=
    flushPage_ok (hw₁.withNode 0 node) hfaults (WalFlusher.reliable_empty _) hencodable ⟨4096⟩
  obtain ⟨page, hfile₃⟩ : ∃ page : Page,
      p₃.diskManager.file = DataFile.empty.writeAt 4096 page.data := by
    cases flushPage_outcome hflush with
    | skipped hclean => cases hclean 0 node hlook hdirty
    | written w d page _ _ _ _ _ _ hfile₃ => exact ⟨page, hfile ▸ hfile₃⟩
  -- the file begins with a gap where the header should be
  have hne : page.data ≠ [] := fun hnil => by
    have hsize := page.size
    rw [hnil] at hsize
    cases hsize
  have hlen : p₃.diskManager.file.len = 8192 := by
    rw [hfile₃, DataFile.writeAt, if_neg hne]
    show max 0 (4096 + page.data.length) = 8192
    rw [page.size]
    rfl
  have hgap : ∀ i, i < fileHeaderSize → p₃.diskManager.file.bytes i = 0 := by
    intro i hi
    have hlt : i < 4096 := Nat.lt_trans hi (by decide)
    rw [hfile₃]
    refine DataFile.bytes_writeAt_of_gap (.inl hlt) (Nat.zero_le i) ?_
    rw [← hfile₃, hlen]
    exact Nat.lt_trans hlt (by decide)
  obtain ⟨d, hopen, hzero⟩ := openFile_unsaved (hlen ▸ by decide) hgap []
  have hfirst : Reached (fun _ _ => True) (Epoch.first [] 1 (none : Option Empty)) :=
    .first [] 1 none
  have hreached₁ := hfirst.turn (t := .call (.newPage true))
    (fun _ heq => by cases heq) (Exec.bind_of_ok hmake)
  have hreached₂ := hreached₁.turn (t := .write 0 node) (fun _ heq => by cases heq)
    (if_pos (hheld ▸ List.mem_singleton_self 0))
  have hreached₃ := hreached₂.turn (t := .call (.flushPage ⟨4096⟩))
    (fun _ heq => by cases heq) (Exec.bind_of_ok hflush)
  have hreached₄ := hreached₃.restart [] 1 none hopen trivial
  have hroom' : makeRoom (new d 1 (none : Option Empty)) = some (.ok (), new d 1 none) := rfl
  have hover : d.header.nextFreeOffset.toNat + pageSize < 2 ^ 64 := by
    rw [hzero]
    decide
  have hzeroId : (⟨d.header.nextFreeOffset⟩ : PageId).Aligned := by
    rw [hzero]
    decide
  obtain ⟨q, -, hinstall, -⟩ := (Wf.new d 1 (none : Option Empty)).allocated.install
    (AList.notMem_empty _) hzeroId Nat.one_pos
    (BTreeNode.newEmpty ⟨d.header.nextFreeOffset⟩ true)
  have hle := (h _ hreached₄ true _ _ _ (newPage_ok hroom' hover hinstall)).1
  rw [show (new d 1 (none : Option Empty)).diskManager.header.nextFreeOffset = 0 from hzero] at hle
  exact absurd hle (by decide)

end Epoch

end SmolDb
