import SmolDb.Lib.Journal
import SmolDb.Page.Lsn
import SmolDb.Pool.InStep
import SmolDb.Wal.Log

/-!
# Log before data

A dirty page is written in four steps: the log is flushed up to the LSN of the node, the node is
encoded, the image is written to the file, and the dirty flag is cleared. A flush is asked for
explicitly, and it happens when a page has to give way in `fetch_page` and `new_page`; every step
but the last can fail.

To speak of the order of the steps the calls of the pool are written once more, with a journal.
`PoolCall.journaled` does what `PoolCall.run` does (`PoolCall.journaled_erases`) and notes each
flush of the log, each encoding, each write to the file and each `mark_dirty`. The journal of a
run is a path from the pool it began with to the pool it has led to (`Path`): between two entries
the file is as the first has left it. On every such path an image is written behind a successful
flush of the log up to its LSN, with no `mark_dirty` in between (`LogFirst`), and a call in which
the log or the encoder fails leaves the file, the table and the nodes as they were
(`journal_logFirst`).
-/

namespace SmolDb

open LittleEndian ByteCursor

/-! ### The calls with a journal -/

/-- What is noted of a flush, with the result. -/
inductive Event where
  | flushUpto (pageId : PageId) (lsn : UInt64) (r : Except DbError Unit)
  | encode (pageId : PageId) (r : Except DbError Page)
  | writePage (pageId : PageId) (rawPage : Page) (r : Except DbError Unit)
  | saveHeader (r : Except DbError Unit)
  | markDirty (frame : Frame) (lsn : UInt64)

/-- A pool with a journal. -/
abbrev JournaledPool (φ : Type) : Type := Exec.Journaled Event (BufferPool φ)

namespace JournaledPool

open Exec BufferPool

variable {φ : Type}

section Flusher

variable [WalFlusher φ]

/-- `flusher.flush_upto`, if there is a flusher. -/
def flushWal (pageId : PageId) (lsn : UInt64) : Exec DbError (JournaledPool φ) Unit := do
  let self ← quietly get
  match self.walFlusher with
  | none => pure ()
  | some _ => noting (.flushUpto pageId lsn) (BufferPool.flushWal lsn)

/-- `flush_page`. -/
def flushPage (pageId : PageId) : Exec DbError (JournaledPool φ) Unit := do
  let self ← quietly get
  match self.pageTable.lookup pageId with
  | none => pure ()
  | some frame => do
    let node ← quietly (readFrame frame)
    if node.isDirty then do
      flushWal pageId node.getLastLsn
      let rawPage ← noting (.encode pageId) (encodePage node)
      noting (.writePage pageId rawPage) (disk (DiskManager.writePage pageId rawPage))
      quietly (writeFrame frame node.clearDirty)
    else pure ()

/-- `flush_all_pages`. -/
def flushAllPages (order : HashOrder) : Exec DbError (JournaledPool φ) Unit := do
  let self ← quietly get
  forEach flushPage (order.arrange self.pageTable.keys)
  noting .saveHeader (disk DiskManager.saveHeader)

/-- `evict_page`. -/
def evictPage : Exec DbError (JournaledPool φ) Unit := do
  let self ← quietly get
  let (found, _, replacer) ← ofOption (self.replacer.evictIf (fun _ => self.isUnpinned) ())
  quietly (modify fun self => { self with replacer })
  match found with
  | none => throw .lruEviction
  | some evictId => do
    flushPage evictId
    quietly (modify fun self => { self with pageTable := self.pageTable.erase evictId })

/-- Evict a page if the table is full. -/
def makeRoom : Exec DbError (JournaledPool φ) Unit := do
  let self ← quietly get
  if self.pageTable.keys.length ≥ self.capacity then evictPage else pure ()

/-- `fetch_page`. -/
def fetchPage (pageId : PageId) : Exec DbError (JournaledPool φ) Frame := do
  let self ← quietly get
  match self.pageTable.lookup pageId with
  | some frame => do
    quietly (recordAccess pageId)
    quietly (cloneFrame frame)
  | none => do
    makeRoom
    let rawPage ← quietly (disk (DiskManager.readPage pageId))
    let node ← quietly (decodePage rawPage)
    quietly (install pageId node)

/-- `new_page`. -/
def newPage (isLeaf : Bool) : Exec DbError (JournaledPool φ) (PageId × Frame) := do
  makeRoom
  let pageId ← quietly (disk DiskManager.allocatePage)
  let frame ← quietly (install pageId (BTreeNode.newEmpty pageId isLeaf))
  pure (pageId, frame)

end Flusher

end JournaledPool

open Exec in
/-- What the call does, with a journal. -/
def PoolCall.journaled {φ : Type} [WalFlusher φ] :
    PoolCall → Exec DbError (JournaledPool φ) (Option (PageId × Frame))
  | .fetchPage pageId => do
    let frame ← JournaledPool.fetchPage pageId
    pure (some (pageId, frame))
  | .newPage isLeaf => do
    let made ← JournaledPool.newPage isLeaf
    pure (some made)
  | .flushPage pageId => do
    JournaledPool.flushPage pageId
    pure none
  | .flushAllPages order => do
    JournaledPool.flushAllPages order
    pure none

/-! ### Without the journal -/

section Erases

open Exec

variable {φ : Type} [WalFlusher φ]

namespace JournaledPool

theorem flushWal_erases (pageId : PageId) (lsn : UInt64) :
    Erases (flushWal pageId lsn : Exec DbError (JournaledPool φ) Unit)
      (BufferPool.flushWal lsn) := by
  intro s
  unfold flushWal
  rw [bind_of_ok (show quietly get s = some (.ok s.state, s) from rfl)]
  cases hw : s.state.walFlusher with
  | none =>
    unfold BufferPool.flushWal
    rw [hw]
    rfl
  | some w => exact Erases.noting _ _ s

theorem flushPage_erases (pageId : PageId) :
    Erases (flushPage pageId : Exec DbError (JournaledPool φ) Unit)
      (BufferPool.flushPage pageId) := by
  refine (Erases.quietly _).bind fun self => ?_
  cases self.pageTable.lookup pageId with
  | none => exact .pure _
  | some frame =>
    refine (Erases.quietly _).bind fun node => ?_
    split
    · -- the same four steps, of which the middle ones are noted
      refine (flushWal_erases _ _).bind fun _ => ?_
      refine (Erases.noting _ _).bind fun rawPage => ?_
      exact (Erases.noting _ _).bind fun _ => .quietly _
    · exact .pure _

theorem flushAllPages_erases (order : HashOrder) :
    Erases (flushAllPages order : Exec DbError (JournaledPool φ) Unit)
      (BufferPool.flushAllPages order) :=
  (Erases.quietly _).bind fun _ =>
    (Erases.forEach flushPage_erases _).bind fun _ => .noting _ _

theorem evictPage_erases :
    Erases (evictPage : Exec DbError (JournaledPool φ) Unit) BufferPool.evictPage := by
  refine (Erases.quietly _).bind fun self => (Erases.ofOption _).bind fun out => ?_
  obtain ⟨found, _, replacer⟩ := out
  refine (Erases.quietly _).bind fun _ => ?_
  cases found with
  | none => exact .throw _
  | some evictId => exact (flushPage_erases evictId).bind fun _ => .quietly _

theorem makeRoom_erases :
    Erases (makeRoom : Exec DbError (JournaledPool φ) Unit) BufferPool.makeRoom := by
  refine (Erases.quietly _).bind fun self => ?_
  split
  · exact evictPage_erases
  · exact .pure _

theorem fetchPage_erases (pageId : PageId) :
    Erases (fetchPage pageId : Exec DbError (JournaledPool φ) Frame)
      (BufferPool.fetchPage pageId) := by
  refine (Erases.quietly _).bind fun self => ?_
  cases self.pageTable.lookup pageId with
  | some frame => exact (Erases.quietly _).bind fun _ => .quietly _
  | none =>
    refine makeRoom_erases.bind fun _ => (Erases.quietly _).bind fun rawPage => ?_
    exact (Erases.quietly _).bind fun node => .quietly _

theorem newPage_erases (isLeaf : Bool) :
    Erases (newPage isLeaf : Exec DbError (JournaledPool φ) (PageId × Frame))
      (BufferPool.newPage isLeaf) := by
  unfold newPage BufferPool.newPage
  apply Erases.bind makeRoom_erases
  intro _
  apply Erases.bind (Erases.quietly _)
  intro pageId
  apply Erases.bind (Erases.quietly _)
  intro frame
  exact .pure _

end JournaledPool

/-- **Without the journal** the call is the one of the pool. -/
theorem PoolCall.journaled_erases (c : PoolCall) :
    Erases (c.journaled : Exec DbError (JournaledPool φ) _) c.run := by
  cases c with
  | fetchPage pageId => exact (JournaledPool.fetchPage_erases pageId).bind fun _ => .pure _
  | newPage isLeaf => exact (JournaledPool.newPage_erases isLeaf).bind fun _ => .pure _
  | flushPage pageId => exact (JournaledPool.flushPage_erases pageId).bind fun _ => .pure _
  | flushAllPages order => exact (JournaledPool.flushAllPages_erases order).bind fun _ => .pure _

end Erases

/-! ### What a journal says -/

open BufferPool Exec

/-- An entry in the journal of a pool. -/
abbrev PoolEntry (φ : Type) : Type := Entry Event (BufferPool φ)

section Order

variable {φ : Type}

/-- **Log before data.** Behind a flush of the log up to its LSN, which succeeded, an image is
written before anything is marked dirty. -/
def LogFirst (es : List (PoolEntry φ)) : Prop :=
  ∀ earlier entry later, es = earlier ++ entry :: later →
    ∀ pageId rawPage r, entry.event = .writePage pageId rawPage r →
      ∃ before flush since, earlier = before ++ flush :: since ∧
        flush.event = .flushUpto pageId rawPage.lastLsn (.ok ()) ∧
        ∀ e ∈ since, ∀ frame lsn, e.event ≠ .markDirty frame lsn

theorem LogFirst.of_noWrite {es : List (PoolEntry φ)}
    (h : ∀ e ∈ es, ∀ pageId rawPage r, e.event ≠ .writePage pageId rawPage r) : LogFirst es := by
  rintro earlier entry later rfl pageId rawPage r hevent
  have hmem : entry ∈ earlier ++ entry :: later :=
    List.mem_append_right _ (List.mem_cons_self ..)
  exact absurd hevent (h entry hmem pageId rawPage r)

theorem LogFirst.append {es es' : List (PoolEntry φ)} (h : LogFirst es) (h' : LogFirst es') :
    LogFirst (es ++ es') := by
  intro earlier entry later heq pageId rawPage r hevent
  rcases List.append_eq_append_iff.mp heq with ⟨mid, rfl, hes'⟩ | ⟨mid, rfl, hmid⟩
  · -- the entry is one of the second part
    obtain ⟨before, flush, since, rfl, hflush, hsince⟩ :=
      h' mid entry later hes' pageId rawPage r hevent
    exact ⟨es ++ before, flush, since, (List.append_assoc ..).symm, hflush, hsince⟩
  · cases mid with
    | nil =>
      obtain ⟨before, flush, since, hnil, -⟩ :=
        h' [] entry later hmid.symm pageId rawPage r hevent
      cases before <;> cases hnil
    | cons e mid =>
      cases hmid
      exact h earlier entry mid rfl pageId rawPage r hevent

/-- The log was flushed, the node was encoded, and its image was written. -/
theorem LogFirst.of_flush {flush encode write : PoolEntry φ} {pageId : PageId} {rawPage : Page}
    {r : Except DbError Page} {r' : Except DbError Unit}
    (hflush : flush.event = .flushUpto pageId rawPage.lastLsn (.ok ()))
    (hencode : encode.event = .encode pageId r)
    (hwrite : write.event = .writePage pageId rawPage r') : LogFirst [flush, encode, write] := by
  intro earlier entry later heq pageId' rawPage' r'' hevent
  -- the write can only be the third entry
  rcases earlier with _ | ⟨e₁, _ | ⟨e₂, _ | ⟨e₃, earlier⟩⟩⟩
  · cases heq
    rw [hflush] at hevent
    cases hevent
  · cases heq
    rw [hencode] at hevent
    cases hevent
  · cases heq
    rw [hwrite] at hevent
    cases hevent
    -- between the flush and the write only the encoding was noted
    refine ⟨[], flush, [encode], rfl, hflush, ?_⟩
    intro e he frame lsn hmark
    rw [List.mem_singleton.mp he, hencode] at hmark
    cases hmark
  · simp at heq

/-- The log or the encoder failed for the page. -/
def Event.Fails (pageId : PageId) : Event → Prop
  | .flushUpto pageId' _ (.error _) => pageId' = pageId
  | .encode pageId' (.error _) => pageId' = pageId
  | _ => False

/-- Nothing was written, and the page is in the table as it was, and dirty. -/
structure Stays (pageId : PageId) (p p' : BufferPool φ) : Prop where
  diskManager : p'.diskManager = p.diskManager
  pageTable : p'.pageTable = p.pageTable
  frames : p'.frames = p.frames
  dirty : ∃ f node, p.pageTable.lookup pageId = some f ∧ p.frames[f]? = some node ∧
    node.isDirty = true

/-- The log and the file are as they were. -/
def Still (p p' : BufferPool φ) : Prop :=
  p'.walFlusher = p.walFlusher ∧ p'.diskManager.file = p.diskManager.file

theorem Still.refl (p : BufferPool φ) : Still p p := ⟨rfl, rfl⟩

theorem Still.trans (a b c : BufferPool φ) (h : Still a b) (h' : Still b c) : Still a c :=
  ⟨h'.1.trans h.1, h'.2.trans h.2⟩

theorem within_allocatePage : Within (@Still φ) (disk DiskManager.allocatePage) := by
  intro p r p' h
  obtain ⟨-, -, rfl⟩ := allocatePage_outcome h
  exact ⟨rfl, rfl⟩

theorem within_readPage (pageId : PageId) :
    Within (@Still φ) (disk (DiskManager.readPage pageId)) := by
  intro p r p' h
  obtain ⟨d, hd, rfl⟩ := disk_outcome h
  exact ⟨rfl, (readPage_outcome hd).1⟩

theorem within_get : Within (@Still φ) (get : Exec DbError (BufferPool φ) _) :=
  .of_unchanged Still.refl fun s r s' h => by cases h; rfl

theorem within_recordAccess (pageId : PageId) : Within (@Still φ) (recordAccess pageId) := by
  intro p r p' h
  obtain ⟨q, -, heq⟩ := Option.map_eq_some_iff.mp h
  cases heq
  exact .refl _

theorem within_install (pageId : PageId) (node : BTreeNode) :
    Within (@Still φ) (install pageId node) := by
  refine .bind Still.trans within_get fun self => ?_
  refine .bind Still.trans (fun s r s' h => by cases h; exact .refl _) fun _ => ?_
  refine .bind Still.trans (within_recordAccess pageId) fun _ => ?_
  intro s r s' h
  cases h
  exact .refl _

theorem within_decodePage (rawPage : Page) : Within (@Still φ) (decodePage rawPage) := by
  intro p r p' h
  obtain ⟨r', -, heq⟩ := Option.map_eq_some_iff.mp h
  cases heq
  exact .refl _

end Order

section Journal

variable {φ : Type} [WalFlusher φ] {p p' p'' : BufferPool φ}

/-- What an event does to the pool. -/
def Event.Happens (p : BufferPool φ) : Event → BufferPool φ → Prop
  | .flushUpto _ lsn r, p' => ∃ w, p.walFlusher = some w ∧ r = (WalFlusher.flushUpto w lsn).1 ∧
      p' = { p with walFlusher := some (WalFlusher.flushUpto w lsn).2 }
  | .encode pageId r, p' => ∃ f node, p.pageTable.lookup pageId = some f ∧
      p.frames[f]? = some node ∧ encodePage node p = some (r, p')
  | .writePage pageId rawPage r, p' =>
      disk (DiskManager.writePage pageId rawPage) p = some (r, p')
  | .saveHeader r, p' => disk DiskManager.saveHeader p = some (r, p')
  | .markDirty frame lsn, p' => ∃ node, p.frames[frame]? = some node ∧
      p' = p.withNode frame (node.markDirty lsn)

/-- The entries lead from one pool to another: each event happened, and the file changed in no
other way. -/
def Path : BufferPool φ → List (PoolEntry φ) → BufferPool φ → Prop
  | p, [], p' => p'.diskManager.file = p.diskManager.file
  | p, e :: es, p' => e.before.diskManager.file = p.diskManager.file ∧
      e.event.Happens e.before e.after ∧ Path e.after es p'

theorem Path.append {es es' : List (PoolEntry φ)} (h : Path p es p') (h' : Path p' es' p'') :
    Path p (es ++ es') p'' := by
  induction es generalizing p with
  | nil =>
    have hfile : p'.diskManager.file = p.diskManager.file := h
    cases es' with
    | nil => exact Eq.trans h' hfile
    | cons e es' => exact ⟨h'.1.trans hfile, h'.2⟩
  | cons e es ih => exact ⟨h.1, h.2.1, ih h.2.2⟩

/-- What is true of the entries of a call. -/
structure Logged (p : BufferPool φ) (es : List (PoolEntry φ)) (ok : Bool) (p' : BufferPool φ) :
    Prop where
  flusher : p.walFlusher.isSome → p'.walFlusher.isSome
  path : Path p es p'
  logFirst : p.walFlusher.isSome → LogFirst es
  noFail : ok = true → ∀ e ∈ es, ∀ pageId, ¬ e.event.Fails pageId
  stays : ∀ e ∈ es, ∀ pageId, e.event.Fails pageId → Stays pageId e.before p'

/-- A step without an entry. -/
theorem Logged.quiet {ok : Bool} (hw : p'.walFlusher = p.walFlusher)
    (hfile : p'.diskManager.file = p.diskManager.file) : Logged p [] ok p' where
  flusher h := by rwa [hw]
  path := hfile
  logFirst _ := .of_noWrite fun _ he => absurd he List.not_mem_nil
  noFail _ _ he := absurd he List.not_mem_nil
  stays _ he := absurd he List.not_mem_nil

theorem Logged.append {es es' : List (PoolEntry φ)} {ok : Bool} (h : Logged p es true p')
    (h' : Logged p' es' ok p'') : Logged p (es ++ es') ok p'' where
  flusher hw := h'.flusher (h.flusher hw)
  path := h.path.append h'.path
  logFirst hw := (h.logFirst hw).append (h'.logFirst (h.flusher hw))
  -- the first part succeeded, so only the second can hold a failure
  noFail hok e he pageId := by
    rcases List.mem_append.mp he with he | he
    · exact h.noFail rfl e he pageId
    · exact h'.noFail hok e he pageId
  stays e he pageId hfails := by
    rcases List.mem_append.mp he with he | he
    · exact absurd hfails (h.noFail rfl e he pageId)
    · exact h'.stays e he pageId hfails

/-- One entry, of an event that is no write of a page. -/
theorem Logged.single {event : Event} {ok : Bool}
    (hflusher : p.walFlusher.isSome → p'.walFlusher.isSome) (hhappens : event.Happens p p')
    (hnoWrite : ∀ pageId rawPage r, event ≠ .writePage pageId rawPage r)
    (hfails : ∀ pageId, event.Fails pageId → ok = false ∧ Stays pageId p p') :
    Logged p [⟨p, event, p'⟩] ok p' where
  flusher := hflusher
  path := ⟨rfl, hhappens, rfl⟩
  logFirst _ := .of_noWrite fun e he => by
    rw [List.mem_singleton.mp he]
    exact hnoWrite
  -- the one entry fails only when the call does
  noFail hok e he pageId hfail := by
    rw [List.mem_singleton.mp he] at hfail
    rw [(hfails pageId hfail).1] at hok
    cases hok
  stays e he pageId hfail := by
    rw [List.mem_singleton.mp he] at hfail ⊢
    exact (hfails pageId hfail).2

theorem Logged.composes : Composes (@Logged φ _) where
  nil _ _ := .quiet rfl rfl
  append h h' := h.append h'

/-! ### The journal of a call -/

/-- Steps that leave the log and the file alone are taken quietly. -/
theorem Within.reports {α : Type} {x : Exec DbError (BufferPool φ) α} (h : Within Still x) :
    Reports Logged (quietly x : Exec DbError (JournaledPool φ) α) :=
  .quietly fun s r s' hx => .quiet (h s r s' hx).1 (h s r s' hx).2

/-- The log is flushed where there is one. -/
theorem flushWal_of_some {w : φ} {lsn : UInt64} (hw : p.walFlusher = some w) :
    BufferPool.flushWal lsn p = some ((WalFlusher.flushUpto w lsn).1,
      { p with walFlusher := some (WalFlusher.flushUpto w lsn).2 }) := by
  unfold BufferPool.flushWal
  rw [hw]

/-- The entries up to the encoding: of a flush of the log, if there is one. -/
structure Flushed (pageId : PageId) (lsn : UInt64) (p : BufferPool φ) (es : List (PoolEntry φ))
    (ok : Bool) (p' : BufferPool φ) : Prop where
  logged : Logged p es ok p'
  same : ∃ w, p' = { p with walFlusher := w }
  noWrite : ∀ e ∈ es, ∀ pageId rawPage r, e.event ≠ .writePage pageId rawPage r
  flushed : ok = true → p.walFlusher.isSome → ∃ e, es = [e] ∧
    e.event = .flushUpto pageId lsn (.ok ())

/-- The flush of the log for a dirty page. -/
theorem flushWal_flushed {pageId : PageId} {lsn : UInt64} {s s' : JournaledPool φ}
    {r : Except DbError Unit} (hdirty : ∃ f node, s.state.pageTable.lookup pageId = some f ∧
      s.state.frames[f]? = some node ∧ node.isDirty = true)
    (h : JournaledPool.flushWal pageId lsn s = some (r, s')) :
    ∃ es, s'.journal = s.journal ++ es ∧ Flushed pageId lsn s.state es r.isOk s'.state := by
  unfold JournaledPool.flushWal at h
  rw [bind_of_ok (show quietly get s = some (.ok s.state, s) from rfl)] at h
  -- without a flusher nothing is noted and nothing was promised
  cases hw : s.state.walFlusher with
  | none =>
    rw [hw] at h
    cases h
    refine ⟨[], (List.append_nil _).symm, .quiet rfl rfl, ⟨_, rfl⟩, ?_, ?_⟩
    · exact fun _ he => absurd he List.not_mem_nil
    · intro _ hsome
      rw [hw] at hsome
      cases hsome
  | some w =>
    rw [hw] at h
    obtain ⟨t, ht, rfl⟩ := noting_eq_some.mp h
    rw [flushWal_of_some hw, Option.some.injEq, Prod.mk.injEq] at ht
    obtain ⟨hr, rfl⟩ := ht
    refine ⟨_, rfl, ?_, ⟨_, rfl⟩, ?_, ?_⟩
    · refine .single (fun _ => rfl) ⟨w, hw, hr.symm, rfl⟩ ?_ ?_
      · intro _ _ _ heq
        cases heq
      · intro pageId' hfails
        cases r with
        | ok u => exact hfails.elim
        | error e =>
          -- a refused flush leaves the page dirty in the table
          obtain rfl : pageId = pageId' := hfails
          exact ⟨rfl, rfl, rfl, rfl, hdirty⟩
    · intro e he pageId rawPage r heq
      rw [List.mem_singleton.mp he] at heq
      cases heq
    · intro hok _
      refine ⟨_, rfl, ?_⟩
      cases r with
      | ok u => rfl
      | error e => cases hok

/-- The encoding leaves the pool as it is. -/
theorem encode_logged {pageId : PageId} {f : Frame} {node : BTreeNode} {r : Except DbError Page}
    (hl : p.pageTable.lookup pageId = some f) (hf : p.frames[f]? = some node)
    (hdirty : node.isDirty = true) (h : encodePage node p = some (r, p)) :
    Logged p [⟨p, .encode pageId r, p⟩] r.isOk p := by
  refine .single (fun hw => hw) ⟨f, node, hl, hf, h⟩ ?_ ?_
  · intro _ _ _ heq
    cases heq
  · intro pageId' hfails
    cases r with
    | ok page => exact hfails.elim
    | error e =>
      -- encoding changes nothing in the pool, so the page is as dirty as before
      obtain rfl : pageId = pageId' := hfails
      exact ⟨rfl, rfl, rfl, rfl, f, node, hl, hf, hdirty⟩

/-- The entries of a dirty page: the flush of the log, the encoding, and the write. -/
theorem write_logged {pageId : PageId} {rawPage : Page} {r : Except DbError Unit} {ok : Bool}
    {es : List (PoolEntry φ)} {encode : PoolEntry φ}
    (hes : Flushed pageId rawPage.lastLsn p es true p')
    (hlogged : Logged p' [encode] true p')
    (hencode : encode.event = .encode pageId (.ok rawPage))
    (h : disk (DiskManager.writePage pageId rawPage) p' = some (r, p'')) :
    Logged p (es ++ [encode, ⟨p', .writePage pageId rawPage r, p''⟩]) ok p'' := by
  have hflusher : p''.walFlusher = p'.walFlusher := by
    obtain ⟨d, -, rfl⟩ := disk_outcome h
    rfl
  have hpath : Path p' ([encode] ++ [⟨p', .writePage pageId rawPage r, p''⟩]) p'' :=
    hlogged.path.append ⟨rfl, h, rfl⟩
  -- all three steps succeeded as far as the write, which never counts as a failure
  have hnoFail : ∀ e ∈ es ++ [encode, ⟨p', .writePage pageId rawPage r, p''⟩], ∀ pageId',
      ¬ e.event.Fails pageId' := by
    intro e he pageId' hfails
    rcases List.mem_append.mp he with he | he
    · exact hes.logged.noFail rfl e he pageId' hfails
    rcases List.mem_cons.mp he with rfl | he
    · exact hlogged.noFail rfl e (List.mem_cons_self ..) pageId' hfails
    · rw [List.mem_singleton.mp he] at hfails
      exact hfails
  refine ⟨fun hw => ?_, hes.logged.path.append hpath, fun hw => ?_, fun _ => hnoFail, ?_⟩
  · rw [hflusher]
    exact hes.logged.flusher hw
  · obtain ⟨flush, rfl, hflush⟩ := hes.flushed rfl hw
    exact .of_flush hflush hencode rfl
  · exact fun e he pageId' hfails => absurd hfails (hnoFail e he pageId')

/-- **The journal of `flush_page`.** -/
theorem flushPage_reports (pageId : PageId) :
    Reports Logged (JournaledPool.flushPage pageId : Exec DbError (JournaledPool φ) Unit) := by
  intro s r s' h
  have hnil : ∀ {ok}, Logged s.state [] ok s.state := .quiet rfl rfl
  unfold JournaledPool.flushPage at h
  rw [bind_of_ok (show quietly get s = some (.ok s.state, s) from rfl)] at h
  cases hl : s.state.pageTable.lookup pageId with
  | none =>
    rw [hl] at h
    cases h
    exact ⟨[], (List.append_nil _).symm, hnil⟩
  | some f =>
    rw [hl] at h
    dsimp only at h
    rcases bind_eq_some.mp h with ⟨e, -, hread⟩ | ⟨node, s₁, hread, h⟩
    · obtain ⟨t, ht, -⟩ := quietly_eq_some.mp hread
      obtain ⟨_, -, heq⟩ := Option.map_eq_some_iff.mp ht
      cases heq
    obtain ⟨t, ht, rfl⟩ := quietly_eq_some.mp hread
    obtain ⟨_, hf, heq⟩ := Option.map_eq_some_iff.mp ht
    cases heq
    cases hdirty : node.isDirty with
    | false =>
      rw [hdirty] at h
      cases h
      exact ⟨[], (List.append_nil _).symm, hnil⟩
    | true =>
      rw [hdirty, if_pos rfl] at h
      -- the log is asked first
      rcases bind_eq_some.mp h with ⟨e, rfl, hwal⟩ | ⟨_, s₁, hwal, h⟩
      · obtain ⟨es, hes, hflushed⟩ := flushWal_flushed ⟨f, node, hl, hf, hdirty⟩ hwal
        exact ⟨es, hes, hflushed.logged⟩
      obtain ⟨es, hes, hflushed⟩ := flushWal_flushed ⟨f, node, hl, hf, hdirty⟩ hwal
      obtain ⟨w, hsame⟩ := hflushed.same
      have hl₁ : s₁.state.pageTable.lookup pageId = some f := by
        rw [hsame]
        exact hl
      have hf₁ : s₁.state.frames[f]? = some node := by
        rw [hsame]
        exact hf
      -- then the encoder
      rcases bind_eq_some.mp h with ⟨e, rfl, henc⟩ | ⟨rawPage, s₂, henc, h⟩
      · obtain ⟨t, ht, rfl⟩ := noting_eq_some.mp henc
        obtain ⟨rfl, -⟩ := encodePage_outcome ht
        refine ⟨es ++ [⟨s₁.state, .encode pageId (.error e), s₁.state⟩], ?_, ?_⟩
        · rw [hes, List.append_assoc]
        · exact hflushed.logged.append (encode_logged hl₁ hf₁ hdirty ht)
      obtain ⟨t, ht, rfl⟩ := noting_eq_some.mp henc
      obtain ⟨rfl, hpage⟩ := encodePage_outcome ht
      have hencoded := encode_logged hl₁ hf₁ hdirty ht
      rw [← BTreeNode.encode_lastLsn (hpage rawPage rfl)] at hflushed
      -- and then the disk
      rcases bind_eq_some.mp h with ⟨e, rfl, hwrite⟩ | ⟨_, s₃, hwrite, h⟩
      · obtain ⟨t, ht, rfl⟩ := noting_eq_some.mp hwrite
        refine ⟨_, ?_, write_logged hflushed hencoded rfl ht⟩
        rw [hes]
        simp only [List.append_assoc, List.singleton_append]
      · obtain ⟨t, ht, rfl⟩ := noting_eq_some.mp hwrite
        obtain ⟨t', hclear, rfl⟩ := quietly_eq_some.mp h
        cases hclear
        have hcleared : Logged t [] true { t with frames := t.frames.set f node.clearDirty } :=
          .quiet rfl rfl
        have hwritten : Logged s.state _ true t := write_logged hflushed hencoded rfl ht
        refine ⟨_, ?_, hwritten.append hcleared⟩
        rw [hes]
        simp only [List.append_assoc, List.singleton_append, List.append_nil]

/-- **The journal of `flush_all_pages`.** -/
theorem flushAllPages_reports (order : HashOrder) :
    Reports Logged (JournaledPool.flushAllPages order : Exec DbError (JournaledPool φ) Unit) := by
  unfold JournaledPool.flushAllPages
  refine .bind Logged.composes (Within.reports within_get) fun self => ?_
  refine .bind Logged.composes (.forEach Logged.composes flushPage_reports _) fun _ => ?_
  refine .noting fun s r s' hsave => ?_
  refine .single (fun hw => ?_) hsave ?_ ?_
  · obtain ⟨d, -, rfl⟩ := disk_outcome hsave
    exact hw
  · intro _ _ _ heq
    cases heq
  · exact fun _ hfails => hfails.elim

/-- **The journal of an eviction.** -/
theorem evictPage_reports :
    Reports Logged (JournaledPool.evictPage : Exec DbError (JournaledPool φ) Unit) := by
  unfold JournaledPool.evictPage
  refine .bind Logged.composes (Within.reports within_get) fun self => ?_
  refine .bind Logged.composes (.ofOption Logged.composes _) fun out => ?_
  obtain ⟨found, _, replacer⟩ := out
  refine .bind Logged.composes (.quietly fun s r s' h => ?_) fun _ => ?_
  · cases h
    exact .quiet rfl rfl
  cases found with
  | none => exact .throw Logged.composes _
  -- the victim is flushed before it leaves the table
  | some evictId =>
    refine .bind Logged.composes (flushPage_reports evictId) fun _ => ?_
    refine .quietly fun s r s' h => ?_
    cases h
    exact .quiet rfl rfl

theorem makeRoom_reports :
    Reports Logged (JournaledPool.makeRoom : Exec DbError (JournaledPool φ) Unit) := by
  unfold JournaledPool.makeRoom
  refine .bind Logged.composes (Within.reports within_get) fun self => ?_
  split
  · exact evictPage_reports
  · exact .pure Logged.composes _

/-- **The journal of `fetch_page`.** -/
theorem fetchPage_reports (pageId : PageId) :
    Reports Logged (JournaledPool.fetchPage pageId : Exec DbError (JournaledPool φ) Frame) := by
  unfold JournaledPool.fetchPage
  refine .bind Logged.composes (Within.reports within_get) fun self => ?_
  split
  · refine .bind Logged.composes (Within.reports (within_recordAccess _)) fun _ => ?_
    refine .quietly fun s r s' h => ?_
    cases h
    exact .quiet rfl rfl
  · -- only the eviction of a victim writes anything
    refine .bind Logged.composes makeRoom_reports fun _ => ?_
    refine .bind Logged.composes (Within.reports (within_readPage _)) fun rawPage => ?_
    refine .bind Logged.composes (Within.reports (within_decodePage _)) fun node => ?_
    exact Within.reports (within_install _ _)

/-- **The journal of `new_page`.** -/
theorem newPage_reports (isLeaf : Bool) :
    Reports Logged (JournaledPool.newPage isLeaf :
      Exec DbError (JournaledPool φ) (PageId × Frame)) := by
  unfold JournaledPool.newPage
  apply Reports.bind Logged.composes makeRoom_reports
  intro _
  apply Reports.bind Logged.composes (Within.reports within_allocatePage)
  intro pageId
  apply Reports.bind Logged.composes (Within.reports (within_install _ _))
  intro frame
  exact .pure Logged.composes _

/-- **The journal of a call.** -/
theorem PoolCall.journaled_reports (c : PoolCall) :
    Reports Logged (c.journaled : Exec DbError (JournaledPool φ) _) := by
  have hthen : ∀ {α β : Type} {x : Exec DbError (JournaledPool φ) α} {f : α → β},
      Reports Logged x → Reports Logged (x >>= fun a => pure (f a)) := fun hx =>
    .bind Logged.composes hx fun _ => .pure Logged.composes _
  cases c with
  | fetchPage pageId => exact hthen (fetchPage_reports pageId)
  | newPage isLeaf => exact hthen (newPage_reports isLeaf)
  | flushPage pageId => exact hthen (flushPage_reports pageId)
  | flushAllPages order => exact hthen (flushAllPages_reports order)

end Journal

/-! ### Runs -/

section Runs

variable {φ : Type} [WalFlusher φ]

/-- What a run from the pool `p₀` can lead to. Between two calls clients write into the frames
they hold, mark them dirty, clone and drop them, and others use the log. -/
inductive RunsTo (p₀ : BufferPool φ) : JournaledPool φ → Prop
  | start : RunsTo p₀ ⟨p₀, []⟩
  | call {s s' : JournaledPool φ} {c : PoolCall} {r : Except DbError (Option (PageId × Frame))}
      (h : RunsTo p₀ s) (hrun : c.journaled s = some (r, s')) : RunsTo p₀ s'
  | write {s : JournaledPool φ} {f : Frame} (h : RunsTo p₀ s) (hheld : f ∈ s.state.held)
      (node : BTreeNode) : RunsTo p₀ { s with state := s.state.withNode f node }
  | markDirty {s : JournaledPool φ} {f : Frame} {node : BTreeNode} (h : RunsTo p₀ s)
      (hheld : f ∈ s.state.held) (hnode : s.state.frames[f]? = some node) (lsn : UInt64) :
      RunsTo p₀
        { state := s.state.withNode f (node.markDirty lsn)
          journal := s.journal ++
            [⟨s.state, .markDirty f lsn, s.state.withNode f (node.markDirty lsn)⟩] }
  | clone {s : JournaledPool φ} {f : Frame} (h : RunsTo p₀ s) (hheld : f ∈ s.state.held) :
      RunsTo p₀ { s with state := { s.state with held := f :: s.state.held } }
  | drop {s : JournaledPool φ} {f : Frame} (h : RunsTo p₀ s) (hheld : f ∈ s.state.held) :
      RunsTo p₀ { s with state := { s.state with held := s.state.held.erase f } }
  | relog {s : JournaledPool φ} (h : RunsTo p₀ s) (w : φ) :
      RunsTo p₀ { s with
        state := { s.state with walFlusher := s.state.walFlusher.map fun _ => w } }

/-- The journal of a run, whatever its calls returned. -/
structure Accounted (p₀ : BufferPool φ) (s : JournaledPool φ) : Prop where
  flusher : s.state.walFlusher.isSome
  path : Path p₀ s.journal s.state
  logFirst : LogFirst s.journal

theorem Accounted.still {p₀ p' : BufferPool φ} {s : JournaledPool φ} (h : Accounted p₀ s)
    (hw : p'.walFlusher.isSome) (hfile : p'.diskManager.file = s.state.diskManager.file) :
    Accounted p₀ { s with state := p' } where
  flusher := hw
  path := by
    have hlast : Path s.state [] p' := hfile
    have hpath := h.path.append hlast
    rwa [List.append_nil] at hpath
  logFirst := h.logFirst

/-- What a step adds to the journal comes behind what there was. -/
theorem Accounted.logged {p₀ : BufferPool φ} {s s' : JournaledPool φ} {es : List (PoolEntry φ)}
    {ok : Bool} (h : Accounted p₀ s) (hjournal : s'.journal = s.journal ++ es)
    (hlogged : Logged s.state es ok s'.state) : Accounted p₀ s' where
  flusher := hlogged.flusher h.flusher
  path := hjournal ▸ h.path.append hlogged.path
  logFirst := hjournal ▸ h.logFirst.append (hlogged.logFirst h.flusher)

theorem RunsTo.accounted {p₀ : BufferPool φ} (hw : p₀.walFlusher.isSome) {s : JournaledPool φ}
    (h : RunsTo p₀ s) : Accounted p₀ s := by
  -- only the calls and the marks write to the journal
  induction h with
  | start => exact ⟨hw, rfl, .of_noWrite fun _ he => absurd he List.not_mem_nil⟩
  | @call s s' c r h hrun ih =>
    obtain ⟨es, hjournal, hlogged⟩ := c.journaled_reports s r s' hrun
    exact ih.logged hjournal hlogged
  | write h hheld node ih => exact ih.still ih.flusher rfl
  | @markDirty s f node h hheld hnode lsn ih =>
    have hlogged : Logged s.state
        [⟨s.state, .markDirty f lsn, s.state.withNode f (node.markDirty lsn)⟩] true
        (s.state.withNode f (node.markDirty lsn)) := by
      refine .single (fun hw => hw) ⟨node, hnode, rfl⟩ ?_ ?_
      · intro _ _ _ heq
        cases heq
      · exact fun _ hfails => hfails.elim
    exact ih.logged rfl hlogged
  | clone h hheld ih => exact ih.still ih.flusher rfl
  | drop h hheld ih => exact ih.still ih.flusher rfl
  | @relog s h w ih =>
    refine ih.still ?_ rfl
    show (s.state.walFlusher.map fun _ => w).isSome
    rw [Option.isSome_map]
    exact ih.flusher

/-- **Log before data on every write path.** In every run of a pool with a log, over any disk,
the journal accounts for every change of the file, and every image that was written had the log
flushed up to its LSN since anything was last marked dirty. Whatever call comes next, and however
it ends: if the log or the encoder fails for a page in it, it ends with an error, and the file and
the page are as they were. -/
theorem journal_logFirst (d : DiskManager) (capacity : ℕ) (w : φ) {s : JournaledPool φ}
    (h : RunsTo (BufferPool.new d capacity (some w)) s) :
    Path (BufferPool.new d capacity (some w)) s.journal s.state ∧ LogFirst s.journal ∧
      ∀ (c : PoolCall) r p', c.run s.state = some (r, p') →
        ∃ es, c.journaled s = some (r, ⟨p', s.journal ++ es⟩) ∧
          ∀ e ∈ es, ∀ pageId, e.event.Fails pageId →
            (∃ err, r = .error err) ∧ Stays pageId e.before p' := by
  obtain ⟨-, hpath, hfirst⟩ := h.accounted rfl
  refine ⟨hpath, hfirst, fun c r p' hrun => ?_⟩
  -- a call of the pool is the journaled call without its journal
  obtain ⟨s', hjournaled, rfl⟩ := c.journaled_erases.exists_run hrun
  obtain ⟨es, hjournal, hlogged⟩ := c.journaled_reports s r s' hjournaled
  refine ⟨es, ?_, fun e he pageId hfails => ⟨?_, hlogged.stays e he pageId hfails⟩⟩
  · rw [hjournaled, ← hjournal]
  · cases r with
    | error err => exact ⟨err, rfl⟩
    | ok a => exact absurd hfails (hlogged.noFail rfl e he pageId)

end Runs

/-! ### A page that is made, marked and flushed -/

namespace MarkedLeaf

def pool : BufferPool WalManager :=
  BufferPool.new ⟨.empty, .default, []⟩ 1 (some (WalManager.openFile .empty true))

/-- Make a leaf, mark it dirty, and flush it. -/
def script : Option (JournaledPool WalManager) := do
  let (_, s) ← (PoolCall.newPage true).journaled ⟨pool, []⟩
  let node ← s.state.frames[0]?
  let s : JournaledPool WalManager :=
    { state := s.state.withNode 0 (node.markDirty 5)
      journal := s.journal ++ [⟨s.state, .markDirty 0 5, s.state.withNode 0 (node.markDirty 5)⟩] }
  let (_, s) ← (PoolCall.flushPage ⟨4096⟩).journaled s
  some s

theorem newPage_held : ((PoolCall.newPage true).journaled ⟨pool, []⟩).map
    (fun out => out.2.state.held) = some [0] := by decide +kernel

theorem script_journal : script.map (fun s => s.journal.length) = some 4 := by decide +kernel

/-- The run has noted the mark, the flush of the log, the encoding and the write. -/
theorem runsTo : ∃ s, RunsTo pool s ∧ s.journal.length = 4 := by
  obtain ⟨s, hscript, hlen⟩ := Option.map_eq_some_iff.mp script_journal
  unfold script at hscript
  obtain ⟨⟨r₁, s₁⟩, hnew, h⟩ := Option.bind_eq_some_iff.mp hscript
  obtain ⟨node, hnode, h⟩ := Option.bind_eq_some_iff.mp h
  obtain ⟨⟨r₂, s₂⟩, hflush, h⟩ := Option.bind_eq_some_iff.mp h
  cases h
  have hheld : s₁.state.held = [0] := by
    have hmade := newPage_held
    rw [hnew] at hmade
    exact Option.some.inj hmade
  have hmem : 0 ∈ s₁.state.held := by
    rw [hheld]
    exact List.mem_cons_self ..
  have hmade : RunsTo pool s₁ := .call .start hnew
  exact ⟨s, (hmade.markDirty hmem hnode 5).call hflush, hlen⟩

end MarkedLeaf

theorem journal_logFirst_markedLeaf : ∃ s : JournaledPool WalManager,
    s.journal.length = 4 ∧ Path MarkedLeaf.pool s.journal s.state ∧ LogFirst s.journal ∧
      ∀ (c : PoolCall) r p', c.run s.state = some (r, p') →
        ∃ es, c.journaled s = some (r, ⟨p', s.journal ++ es⟩) ∧
          ∀ e ∈ es, ∀ pageId, e.event.Fails pageId →
            (∃ err, r = .error err) ∧ Stays pageId e.before p' := by
  obtain ⟨s, hruns, hlen⟩ := MarkedLeaf.runsTo
  exact ⟨s, hlen, journal_logFirst ⟨.empty, .default, []⟩ 1 (WalManager.openFile .empty true) hruns⟩

end SmolDb
