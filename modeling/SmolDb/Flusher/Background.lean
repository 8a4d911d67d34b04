import SmolDb.Pool.Loans

/-!
# The background flusher

The pool is behind a mutex that its clients share with the thread of the background flusher. The
thread waits for 100 ms or for the signal to stop; it then takes the lock and calls
`flush_all_pages`, and after the signal it does so one last time. A flush takes the write lock of
every frame it comes to, so it waits for a client that has a guard on the frame.

`Shared` is a lending with the two locks and the handle of the flusher. What a party does between
two points where it can be delayed is one step, a flush of one page included: between the flushes
of a round other clients can work on the frames they hold, though not on the pool. `Sane` is the
invariant of the two locks and of the shutdown.
-/

namespace SmolDb

open BufferPool

variable {φ : Type}

/-- Who holds the lock of the pool. -/
inductive Party where
  | flusher
  | client (c : ℕ)
  deriving DecidableEq

/-- Where the thread is. The last round of flushes is the one after the loop. -/
inductive Stage where
  | waiting
  | locking (last : Bool)
  | flushing (last : Bool) (rest : List PageId)
  | finished

/-- Where the thread goes after a round. -/
def Stage.after (last : Bool) : Stage := if last then .finished else .waiting

/-- The thread has left its loop. -/
def Stage.leaving : Stage → Bool
  | .waiting => false
  | .locking last => last
  | .flushing last _ => last
  | .finished => true

/-- What `eprintln!` puts before the error of a round. -/
def heading (last : Bool) : String :=
  if last then "Failed final background flush on shutdown: "
  else "Background flusher encountered an error: "

/-- What a round prints. -/
def complaints (last : Bool) : Except DbError Unit → List (String × DbError)
  | .ok () => []
  | .error e => [(heading last, e)]

/-- Where a client is: it runs, it is in `pool.lock()`, or it is in `shutdown`, after the signal or
in `join`. -/
inductive Activity where
  | running
  | requesting
  | signalled
  | joining
  deriving DecidableEq

/-- The client is in `shutdown`. -/
def Activity.inShutdown : Activity → Bool
  | .running | .requesting => false
  | .signalled | .joining => true

/-- A guard on the lock of a frame. -/
structure Guard where
  client : ℕ
  frame : Frame
  write : Bool
  deriving DecidableEq

/-- `BackgroundFlusher`. -/
structure BackgroundFlusher where
  shutdownTx : Option Unit
  handle : Option Unit

/-- The pool, its clients and the thread. `sent` says that there is a message in the channel. -/
structure Shared (φ : Type) extends Lending φ where
  owner : Option Party
  guards : List Guard
  activity : ℕ → Activity
  stage : Stage
  flusher : BackgroundFlusher
  sent : Bool
  printed : List (String × DbError)

/-- What a step does, as far as others are concerned. -/
inductive Label where
  | background
  | release
  | foreground
  | write (client : ℕ) (pageId : PageId) (node : BTreeNode)

/-- The step is one of the thread. -/
def Label.isBackground : Label → Bool
  | .background => true
  | .release | .foreground | .write .. => false

/-- A call brings only the page it fetches or makes into the table. -/
theorem PoolCall.table_makes [WalFlusher φ] {p p' : BufferPool φ} {c : PoolCall}
    {r : Except DbError (Option (PageId × Frame))} (hw : Wf p) (hfresh : Fresh p)
    (hknown : ∀ id, c = .fetchPage id → Allocated p id) (hrun : c.run p = some (r, p'))
    {id : PageId} (hmem : id ∈ p'.pageTable) :
    id ∈ p.pageTable ∨ c = .fetchPage id ∨ id ∈ c.makes r := by
  obtain ⟨f, hl⟩ := AList.exists_lookup hmem
  have hkept : Kept p p' → id ∈ p.pageTable := fun hk => AList.mem_of_lookup (hk.table id f hl)
  cases PoolCall.run_outcome hrun with
  | fetchFailed hfetch => exact .inl (hkept ((hw.fetchPage hfetch).1 _ rfl).2.kept)
  | @fetched id' f' p₁ hfetch =>
    have hf := ((hw.fetchPage hfetch).2 _ rfl (hknown id' rfl).aligned).2
    by_cases hid : id = id'
    · exact .inr (.inl (hid ▸ rfl))
    · exact .inl (AList.mem_of_lookup (hf.table id f hl hid))
  | makeFailed hnew => exact .inl (hkept ((hw.newPage hfresh hnew).2.1 _ rfl).kept)
  | @made isLeaf id' f' p₁ hnew =>
    have hc := (hw.newPage hfresh hnew).2.2 _ _ rfl
    by_cases hid : id = id'
    · exact .inr (.inr (List.mem_singleton.mpr hid))
    · exact .inl (AList.mem_of_lookup (hc.table id f hl hid))
  | flushed hflush => exact .inl (hkept (within_flushPage _ _ _ _ hflush hw).2.1)
  | flushedAll hflush => exact .inl (hkept (within_flushAllPages _ _ _ _ hflush hw).2.1)

/-- What the pool does on its own is lawful. -/
theorem Lending.Lawful.of_kept {l : Lending φ} (h : l.Lawful) {p' : BufferPool φ} (hw : Wf p')
    (hk : Kept l.pool p') : Lending.Lawful { l with pool := p' } where
  wf := hw
  fresh := h.fresh.of_kept hk
  made id hid := by
    obtain ⟨ha, hne, hbelow⟩ := h.made id hid
    exact ⟨ha, hne, hk.header ▸ hbelow⟩
  held := by
    show p'.held.Perm (l.loans.map Prod.snd)
    rw [hk.held]
    exact h.held
  loans id f hloan := hk.pinned id f (h.loans id f hloan) (h.mem_held hloan)

namespace Shared

/-- `BackgroundFlusher::start`. -/
def start (l : Lending φ) : Shared φ where
  toLending := l
  owner := none
  guards := []
  activity _ := .running
  stage := .waiting
  flusher := ⟨some (), some ()⟩
  sent := false
  printed := []

/-- Nobody has a guard on the frame of the page. -/
def Unlatched (s : Shared φ) (id : PageId) : Prop :=
  ∀ f, s.pool.pageTable.lookup id = some f → ∀ g ∈ s.guards, g.frame ≠ f

/-- The client is now there. -/
def moved (s : Shared φ) (c : ℕ) (a : Activity) : Shared φ :=
  { s with activity := Function.update s.activity c a }

/-- The client has sent the signal, if nobody did before. -/
def signalled (s : Shared φ) (c : ℕ) : Shared φ :=
  { s.moved c .signalled with
    flusher := { s.flusher with shutdownTx := none }
    sent := s.sent || s.flusher.shutdownTx.isSome }

/-- The round is over, with the result `r`. -/
def ended (s : Shared φ) (last : Bool) (r : Except DbError Unit) (p' : BufferPool φ) : Shared φ :=
  { s with
    pool := p'
    owner := none
    stage := .after last
    printed := complaints last r ++ s.printed }

section Flusher

variable [WalFlusher φ]

/-- One step of the thread. -/
inductive Background (s : Shared φ) : Shared φ → Prop
  | timeout (hstage : s.stage = .waiting) (hempty : s.sent = false)
      (htx : s.flusher.shutdownTx = some ()) : Background s { s with stage := .locking false }
  | received (hstage : s.stage = .waiting) (hsent : s.sent = true) :
      Background s { s with stage := .locking true, sent := false }
  | disconnected (hstage : s.stage = .waiting) (hempty : s.sent = false)
      (htx : s.flusher.shutdownTx = none) : Background s { s with stage := .locking true }
  | lock {last : Bool} (hstage : s.stage = .locking last) (hfree : s.owner = none)
      (order : HashOrder) :
      Background s { s with
        owner := some .flusher
        stage := .flushing last (order.arrange s.pool.pageTable.keys) }
  | flush {last : Bool} {id : PageId} {rest : List PageId} {p' : BufferPool φ}
      (hstage : s.stage = .flushing last (id :: rest)) (hopen : s.Unlatched id)
      (hrun : flushPage id s.pool = some (.ok (), p')) :
      Background s { s with pool := p', stage := .flushing last rest }
  | fail {last : Bool} {id : PageId} {rest : List PageId} {e : DbError} {p' : BufferPool φ}
      (hstage : s.stage = .flushing last (id :: rest)) (hopen : s.Unlatched id)
      (hrun : flushPage id s.pool = some (.error e, p')) :
      Background s (s.ended last (.error e) p')
  | save {last : Bool} {r : Except DbError Unit} {p' : BufferPool φ}
      (hstage : s.stage = .flushing last [])
      (hrun : disk DiskManager.saveHeader s.pool = some (r, p')) :
      Background s (s.ended last r p')

/-- One step of the client `c`, or the log behind the pool has changed. A client calls the pool
while it has the lock; `flush_all_pages` is a flush of each page and then of the header. It works
on the frames it holds at any time. -/
inductive Foreground (s : Shared φ) (c : ℕ) : Label → Shared φ → Prop
  | request (hrunning : s.activity c = .running) :
      Foreground s c .foreground (s.moved c .requesting)
  | lock (hact : s.activity c = .requesting) (hfree : s.owner = none) :
      Foreground s c .foreground { s.moved c .running with owner := some (.client c) }
  | unlock (hrunning : s.activity c = .running) (howner : s.owner = some (.client c)) :
      Foreground s c .release { s with owner := none }
  | call {call : PoolCall} {r : Except DbError (Option (PageId × Frame))} {p' : BufferPool φ}
      (hrunning : s.activity c = .running) (howner : s.owner = some (.client c))
      (hknown : ∀ id, call = .fetchPage id → id ∈ s.made)
      (hopen : ∀ id, call = .flushPage id → s.Unlatched id)
      (hone : ∀ order, call ≠ .flushAllPages order) (hrun : call.run s.pool = some (r, p')) :
      Foreground s c .foreground { s with toLending := s.toLending.called call r p' }
  | save {r : Except DbError Unit} {p' : BufferPool φ} (hrunning : s.activity c = .running)
      (howner : s.owner = some (.client c))
      (hrun : disk DiskManager.saveHeader s.pool = some (r, p')) :
      Foreground s c .foreground { s with pool := p' }
  | clone {id : PageId} {f : Frame} (hrunning : s.activity c = .running)
      (hloan : (id, f) ∈ s.loans) :
      Foreground s c .foreground { s with
        pool := { s.pool with held := f :: s.pool.held }
        loans := (id, f) :: s.loans }
  | drop {id : PageId} {f : Frame} (hrunning : s.activity c = .running)
      (hloan : (id, f) ∈ s.loans)
      (hguards : ∀ g ∈ s.guards, g.frame = f → (id, f) ∈ s.loans.erase (id, f)) :
      Foreground s c .foreground { s with
        pool := { s.pool with held := s.pool.held.erase f }
        loans := s.loans.erase (id, f) }
  | latch {id : PageId} {f : Frame} {write : Bool} (hrunning : s.activity c = .running)
      (hloan : (id, f) ∈ s.loans)
      (hfree : ∀ g ∈ s.guards, g.frame = f → write = false ∧ g.write = false) :
      Foreground s c .foreground { s with guards := ⟨c, f, write⟩ :: s.guards }
  | write {id : PageId} {f : Frame} (hrunning : s.activity c = .running)
      (hloan : (id, f) ∈ s.loans) (hguard : ⟨c, f, true⟩ ∈ s.guards) (node : BTreeNode) :
      Foreground s c (.write c id node) { s with pool := s.pool.withNode f node }
  | unlatch {g : Guard} (hrunning : s.activity c = .running) (hclient : g.client = c)
      (hguard : g ∈ s.guards) :
      Foreground s c .release { s with guards := s.guards.erase g }
  | relog (w : φ) :
      Foreground s c .foreground
        { s with pool := { s.pool with walFlusher := s.pool.walFlusher.map fun _ => w } }
  | signal (hrunning : s.activity c = .running)
      (hnobody : ∀ c', (s.activity c').inShutdown = false) :
      Foreground s c .foreground (s.signalled c)
  | take (hact : s.activity c = .signalled) (hhandle : s.flusher.handle = some ()) :
      Foreground s c .foreground { s.moved c .joining with
        flusher := { s.flusher with handle := none } }
  | skip (hact : s.activity c = .signalled) (hhandle : s.flusher.handle = none) :
      Foreground s c .foreground (s.moved c .running)
  | joined (hact : s.activity c = .joining) (hstage : s.stage = .finished) :
      Foreground s c .foreground (s.moved c .running)

/-- One step of somebody. -/
inductive Step (s : Shared φ) : Label → Shared φ → Prop
  | background {s' : Shared φ} (h : Background s s') : Step s .background s'
  | foreground {c : ℕ} {l : Label} {s' : Shared φ} (h : Foreground s c l s') : Step s l s'

/-- Any number of steps through states that are as `P` says; the last one comes first. -/
inductive Runs (P : Shared φ → Prop) (s : Shared φ) : List Label → Shared φ → Prop
  | refl : Runs P s [] s
  | step {ls : List Label} {l : Label} {s' s'' : Shared φ} (h : Runs P s ls s')
      (hstep : Step s' l s'') (hP : P s'') : Runs P s (l :: ls) s''

end Flusher

/-! ### The invariant -/

/-- What is true of the locks of the frames. -/
structure Latches (s : Shared φ) : Prop where
  lawful : s.toLending.Lawful
  known : ∀ id ∈ s.pool.pageTable, id ∈ s.made
  guarded : ∀ g ∈ s.guards, ∃ id, (id, g.frame) ∈ s.loans
  exclusive : s.guards.Pairwise fun g h => g.frame = h.frame → g.write = false ∧ h.write = false

/-- What is true of the lock of the pool and of the shutdown. At most one client is in `shutdown`,
because it takes `&mut self`. -/
structure Stops (s : Shared φ) : Prop where
  owner : s.owner = some .flusher ↔ ∃ last rest, s.stage = .flushing last rest
  told : s.stage.leaving = true → s.flusher.shutdownTx = none
  sent : s.sent = true → s.flusher.shutdownTx = none
  signalled : ∀ c, (s.activity c).inShutdown = true → s.flusher.shutdownTx = none
  alone : ∀ c c', (s.activity c).inShutdown = true → (s.activity c').inShutdown = true → c = c'
  joining : ∀ c, s.activity c = .joining → s.flusher.handle = none
  returned : s.flusher.handle = none → (∀ c, s.activity c ≠ .joining) → s.stage = .finished

/-- **The invariant.** -/
structure Sane (s : Shared φ) : Prop extends Latches s, Stops s


variable {s s' : Shared φ}

@[simp] theorem activity_moved (c : ℕ) (a : Activity) : (s.moved c a).activity c = a :=
  Function.update_self ..

theorem activity_moved_of_ne {c c' : ℕ} (h : c' ≠ c) (a : Activity) :
    (s.moved c a).activity c' = s.activity c' := Function.update_of_ne h ..

theorem leaving_after (last : Bool) : (Stage.after last).leaving = last := by
  cases last <;> rfl

theorem after_ne_flushing (last last' : Bool) (rest : List PageId) :
    Stage.after last ≠ .flushing last' rest := by
  cases last <;> nofun

/-- The flusher at its start. -/
theorem Sane.start {l : Lending φ} (h : l.Lawful)
    (hknown : ∀ id ∈ l.pool.pageTable, id ∈ l.made) : Sane (start l) where
  lawful := h
  known := hknown
  guarded := nofun
  exclusive := .nil
  owner := ⟨nofun, fun ⟨_, _, hstage⟩ => nomatch hstage⟩
  told := nofun
  sent := nofun
  signalled _ hc := nomatch hc
  alone _ _ hc := nomatch hc
  joining _ hc := nomatch hc
  returned hhandle := nomatch hhandle

/-- **Eviction does not wait for a frame**: on the frame of a page that may be evicted nobody has
a guard. -/
theorem Latches.unlatched_of_accepted (h : Latches s) {id : PageId} {u : Unit}
    (haccepted : s.pool.isUnpinned id = some (true, u)) : s.Unlatched id := by
  obtain ⟨f, hl, hfree⟩ := unpinned_of_accepted haccepted
  intro f' hl' g hg heq
  obtain rfl : f = f' := Option.some.inj (hl.symm.trans hl')
  obtain ⟨id', hloan⟩ := h.guarded g hg
  rw [heq] at hloan
  exact hfree (h.lawful.mem_held hloan)

/-! #### The locks of the frames -/

/-- The page of a loan was made. -/
theorem Latches.made (h : Latches s) {id : PageId} {f : Frame} (hloan : (id, f) ∈ s.loans) :
    id ∈ s.made :=
  h.known id (AList.mem_of_lookup (h.lawful.loans id f hloan))

/-- A step that changes no loan and no guard, and brings no page into the table. -/
theorem Latches.congr (h : Latches s) (hlaw : s'.toLending.Lawful)
    (htable : ∀ id f, s'.pool.pageTable.lookup id = some f → s.pool.pageTable.lookup id = some f)
    (hloans : s'.loans = s.loans) (hmade : s'.made = s.made) (hguards : s'.guards = s.guards) :
    Latches s' where
  lawful := hlaw
  known id hmem := by
    obtain ⟨f, hl⟩ := AList.exists_lookup hmem
    rw [hmade]
    exact h.known id (AList.mem_of_lookup (htable id f hl))
  guarded := by
    rw [hguards, hloans]
    exact h.guarded
  exclusive := by
    rw [hguards]
    exact h.exclusive

/-! #### The lock of the pool and the shutdown -/

/-- A step by which the thread does not move on and nobody comes into `shutdown`. -/
theorem Stops.narrow (h : Stops s)
    (howner : s'.owner = some .flusher ↔ s.owner = some .flusher) (hstage : s'.stage = s.stage)
    (htx : s'.flusher.shutdownTx = s.flusher.shutdownTx) (hsent : s'.sent = s.sent)
    (hbusy : ∀ c, (s'.activity c).inShutdown = true → (s.activity c).inShutdown = true)
    (hjoining : ∀ c, s'.activity c = .joining → s'.flusher.handle = none)
    (hreturned : s'.flusher.handle = none → (∀ c, s'.activity c ≠ .joining) →
      s.stage = .finished) : Stops s' where
  owner := by
    rw [howner, hstage]
    exact h.owner
  told := by
    rw [hstage, htx]
    exact h.told
  sent := by
    rw [hsent, htx]
    exact h.sent
  signalled c hc := htx.trans (h.signalled c (hbusy c hc))
  alone c c' hc hc' := h.alone c c' (hbusy c hc) (hbusy c' hc')
  joining := hjoining
  returned hhandle hno := hstage.trans (hreturned hhandle hno)

/-- A step of nobody in `shutdown` by which no thread moves on. -/
theorem Stops.congr (h : Stops s)
    (howner : s'.owner = some .flusher ↔ s.owner = some .flusher) (hstage : s'.stage = s.stage)
    (hflusher : s'.flusher = s.flusher) (hsent : s'.sent = s.sent)
    (hbusy : ∀ c, (s'.activity c).inShutdown = (s.activity c).inShutdown)
    (hjoining : ∀ c, s'.activity c = .joining ↔ s.activity c = .joining) : Stops s' := by
  refine h.narrow howner hstage (congrArg _ hflusher) hsent (fun c hc => hbusy c ▸ hc) ?_ ?_
  · intro c hc
    rw [hflusher]
    exact h.joining c ((hjoining c).mp hc)
  · intro hhandle hno
    rw [hflusher] at hhandle
    exact h.returned hhandle fun c hc => hno c ((hjoining c).mpr hc)

theorem inShutdown_moved {c : ℕ} {a : Activity} (h : (s.activity c).inShutdown = a.inShutdown)
    (c' : ℕ) : ((s.moved c a).activity c').inShutdown = (s.activity c').inShutdown := by
  by_cases hc : c' = c
  · rw [hc, activity_moved, h]
  · rw [activity_moved_of_ne hc]

/-- Who leaves `shutdown` is not in it any more. -/
theorem inShutdown_left {c c' : ℕ}
    (h : ((s.moved c .running).activity c').inShutdown = true) :
    (s.activity c').inShutdown = true := by
  by_cases hc : c' = c
  · rw [hc, activity_moved] at h
    cases h
  · rwa [activity_moved_of_ne hc] at h

theorem joining_moved {c : ℕ} {a : Activity} (h : s.activity c ≠ .joining) (ha : a ≠ .joining)
    (c' : ℕ) : (s.moved c a).activity c' = .joining ↔ s.activity c' = .joining := by
  by_cases hc : c' = c
  · rw [hc, activity_moved]
    exact iff_of_false ha h
  · rw [activity_moved_of_ne hc]

/-- A step of the thread. -/
theorem Stops.advance (h : Stops s) (hstage : s.stage ≠ .finished)
    (howner : s'.owner = some .flusher ↔ ∃ last rest, s'.stage = .flushing last rest)
    (htold : s'.stage.leaving = true → s.flusher.shutdownTx = none)
    (hflusher : s'.flusher = s.flusher) (hactivity : s'.activity = s.activity)
    (hsent : s'.sent = true → s.sent = true) : Stops s' where
  owner := howner
  told hleaving := by
    rw [hflusher]
    exact htold hleaving
  sent hs := by
    rw [hflusher]
    exact h.sent (hsent hs)
  signalled := by
    rw [hactivity, hflusher]
    exact h.signalled
  alone := by
    rw [hactivity]
    exact h.alone
  joining := by
    rw [hactivity, hflusher]
    exact h.joining
  returned hhandle hno := by
    rw [hflusher] at hhandle
    rw [hactivity] at hno
    exact absurd (h.returned hhandle hno) hstage

section Flusher

variable [WalFlusher φ] {c : ℕ} {l : Label}

theorem Background.latches (hstep : Background s s') (h : Latches s) : Latches s' := by
  cases hstep with
  | timeout | received | disconnected | lock =>
    exact h.congr h.lawful (fun _ _ hl => hl) rfl rfl rfl
  | flush hstage hopen hrun =>
    obtain ⟨hw, hk, -⟩ := h.lawful.wf.flushPage hrun
    exact h.congr (h.lawful.of_kept hw hk) hk.table rfl rfl rfl
  | fail hstage hopen hrun =>
    obtain ⟨hw, hk, -⟩ := h.lawful.wf.flushPage hrun
    exact h.congr (h.lawful.of_kept hw hk) hk.table rfl rfl rfl
  | save hstage hrun =>
    obtain ⟨hw, hk, -⟩ := within_saveHeader _ _ _ hrun h.lawful.wf
    exact h.congr (h.lawful.of_kept hw hk) hk.table rfl rfl rfl

theorem Foreground.latches (hstep : Foreground s c l s') (h : Latches s) : Latches s' := by
  cases hstep with
  | request | lock | unlock | signal | take | skip | joined =>
    exact h.congr h.lawful (fun _ _ hl => hl) rfl rfl rfl
  | save hrunning howner hrun =>
    obtain ⟨hw, hk, -⟩ := within_saveHeader _ _ _ hrun h.lawful.wf
    exact h.congr (h.lawful.of_kept hw hk) hk.table rfl rfl rfl
  | write hrunning hloan hguard node =>
    exact h.congr (h.lawful.step (.write hloan node)) (fun _ _ hl => hl) rfl rfl rfl
  | relog w => exact h.congr (h.lawful.step (.relog w)) (fun _ _ hl => hl) rfl rfl rfl
  | call hrunning howner hknown hopen hone hrun =>
    have hfetch : ∀ id, _ = PoolCall.fetchPage id → Allocated s.pool id := fun id hc =>
      h.lawful.made id (hknown id hc)
    refine ⟨h.lawful.step (.call hknown hrun), fun id hmem => ?_, fun g hg => ?_, h.exclusive⟩
    · rcases PoolCall.table_makes h.lawful.wf h.lawful.fresh hfetch hrun hmem with
        hold | hnew | hmade
      · exact List.mem_append_right _ (h.known id hold)
      · exact List.mem_append_right _ (hknown id hnew)
      · exact List.mem_append_left _ hmade
    · obtain ⟨id, hloan⟩ := h.guarded g hg
      exact ⟨id, List.mem_append_right _ hloan⟩
  | clone hrunning hloan =>
    refine ⟨h.lawful.step (.clone hloan), h.known, fun g hg => ?_, h.exclusive⟩
    obtain ⟨id, hloan⟩ := h.guarded g hg
    exact ⟨id, List.mem_cons_of_mem _ hloan⟩
  | @drop id f hrunning hloan hguards =>
    refine ⟨h.lawful.step (.drop hloan), h.known, fun g hg => ?_, h.exclusive⟩
    by_cases hf : g.frame = f
    · exact ⟨id, hf ▸ hguards g hg hf⟩
    · obtain ⟨id', hloan'⟩ := h.guarded g hg
      refine ⟨id', (List.mem_erase_of_ne fun heq => hf ?_).mpr hloan'⟩
      exact congrArg Prod.snd heq
  | @latch id f write hrunning hloan hfree =>
    refine ⟨h.lawful, h.known, ?_, ?_⟩
    · exact List.forall_mem_cons.mpr ⟨⟨id, hloan⟩, h.guarded⟩
    · exact List.pairwise_cons.mpr ⟨fun g hg heq => hfree g hg heq.symm, h.exclusive⟩
  | unlatch hrunning hclient hguard =>
    refine ⟨h.lawful, h.known, fun g hg => h.guarded g (List.mem_of_mem_erase hg), ?_⟩
    exact h.exclusive.sublist List.erase_sublist

theorem Background.stops (hstep : Background s s') (h : Stops s) : Stops s' := by
  -- where the thread does not flush it does not have the lock
  have hfree : (∀ last rest, s.stage ≠ .flushing last rest) → s.owner ≠ some .flusher := by
    intro hno howner
    obtain ⟨last, rest, hstage⟩ := h.owner.mp howner
    exact hno last rest hstage
  have htold : ∀ last, s.stage.leaving = last → last = true → s.flusher.shutdownTx = none :=
    fun last hlast hleaving => h.told (hlast.trans hleaving)
  cases hstep with
  | timeout hstage hempty htx =>
    refine h.advance (by rw [hstage]; nofun) (iff_of_false (hfree ?_) nofun) nofun rfl rfl id
    rw [hstage]
    nofun
  | received hstage hsent =>
    refine h.advance (by rw [hstage]; nofun) (iff_of_false (hfree ?_) nofun)
      (fun _ => h.sent hsent) rfl rfl nofun
    rw [hstage]
    nofun
  | disconnected hstage hempty htx =>
    refine h.advance (by rw [hstage]; nofun) (iff_of_false (hfree ?_) nofun) (fun _ => htx) rfl rfl
      id
    rw [hstage]
    nofun
  | @lock last hstage hfree order =>
    exact h.advance (by rw [hstage]; nofun) (iff_of_true rfl ⟨_, _, rfl⟩)
      (htold last (congrArg Stage.leaving hstage)) rfl rfl id
  | @flush last id rest p' hstage hopen hrun =>
    have howner := h.owner.mpr ⟨_, _, hstage⟩
    exact h.advance (by rw [hstage]; nofun) (iff_of_true howner ⟨_, _, rfl⟩)
      (htold last (congrArg Stage.leaving hstage)) rfl rfl fun hs => hs
  | @fail last id rest e p' hstage hopen hrun =>
    refine h.advance (by rw [hstage]; nofun)
      (iff_of_false nofun fun ⟨_, _, heq⟩ => after_ne_flushing _ _ _ heq)
      (fun hleaving => htold last (congrArg Stage.leaving hstage) ?_) rfl rfl fun hs => hs
    exact (leaving_after last).symm.trans hleaving
  | @save last r p' hstage hrun =>
    refine h.advance (by rw [hstage]; nofun)
      (iff_of_false nofun fun ⟨_, _, heq⟩ => after_ne_flushing _ _ _ heq)
      (fun hleaving => htold last (congrArg Stage.leaving hstage) ?_) rfl rfl fun hs => hs
    exact (leaving_after last).symm.trans hleaving

theorem Foreground.stops (hstep : Foreground s c l s') (h : Stops s) : Stops s' := by
  cases hstep with
  | call | save | clone | drop | latch | write | unlatch | relog =>
    exact h.congr Iff.rfl rfl rfl rfl (fun _ => rfl) fun _ => Iff.rfl
  | request hrunning =>
    refine h.congr Iff.rfl rfl rfl rfl (inShutdown_moved ?_) (joining_moved ?_ nofun)
    · rw [hrunning]
      rfl
    · rw [hrunning]
      nofun
  | lock hact hfree =>
    refine h.congr (iff_of_false nofun ?_) rfl rfl rfl (inShutdown_moved ?_)
      (joining_moved ?_ nofun)
    · rw [hfree]
      nofun
    · rw [hact]
      rfl
    · rw [hact]
      nofun
  | unlock hrunning howner =>
    refine h.congr (iff_of_false nofun ?_) rfl rfl rfl (fun _ => rfl) fun _ => Iff.rfl
    rw [howner]
    nofun
  | signal hrunning hnobody =>
    have hbusy : ∀ c', ((s.moved c .signalled).activity c').inShutdown = true → c' = c := by
      intro c' hc'
      by_contra hne
      rw [activity_moved_of_ne hne, hnobody c'] at hc'
      cases hc'
    exact
      { owner := h.owner
        told := fun _ => rfl
        sent := fun _ => rfl
        signalled := fun _ _ => rfl
        alone := fun c₁ c₂ h₁ h₂ => (hbusy c₁ h₁).trans (hbusy c₂ h₂).symm
        joining := fun c' hc' => by
          have heq := hbusy c' (congrArg Activity.inShutdown hc')
          subst heq
          cases (activity_moved (s := s) c' .signalled).symm.trans hc'
        returned := fun hhandle hno => h.returned hhandle fun c' hc' => by
          have hnot := hnobody c'
          rw [hc'] at hnot
          cases hnot }
  | take hact hhandle =>
    refine h.narrow Iff.rfl rfl rfl rfl (fun c' hc' => ?_) (fun _ _ => rfl) fun _ hno => ?_
    · rwa [inShutdown_moved (a := .joining) (by rw [hact]; rfl)] at hc'
    · exact absurd (activity_moved c .joining) (hno c)
  | skip hact hhandle =>
    refine h.narrow Iff.rfl rfl rfl rfl (fun _ => inShutdown_left) (fun _ _ => hhandle)
      fun _ hno => h.returned hhandle fun c' hc' => ?_
    -- the client that came too late leaves, and nobody joins who did not join before
    refine hno c' ((joining_moved (a := .running) ?_ nofun c').mpr hc')
    rw [hact]
    nofun
  | joined hact hstage =>
    exact h.narrow Iff.rfl rfl rfl rfl (fun _ => inShutdown_left) (fun _ _ => h.joining c hact)
      fun _ _ => hstage

/-- A client moves neither the thread on, nor does it print. -/
theorem Foreground.stage_eq (hstep : Foreground s c l s') : s'.stage = s.stage := by
  cases hstep <;> rfl

theorem Foreground.printed_eq (hstep : Foreground s c l s') : s'.printed = s.printed := by
  cases hstep <;> rfl

theorem Foreground.not_background (hstep : Foreground s c l s') : l.isBackground = false := by
  cases hstep <;> rfl

/-- **The step lemma.** -/
theorem Sane.step (h : Sane s) (hstep : Step s l s') : Sane s' := by
  cases hstep with
  | background hb => exact ⟨hb.latches h.toLatches, hb.stops h.toStops⟩
  | foreground hf => exact ⟨hf.latches h.toLatches, hf.stops h.toStops⟩

theorem Runs.trans {P : Shared φ → Prop} {ls ls' : List Label} {s'' : Shared φ} (h : Runs P s ls s')
    (h' : Runs P s' ls' s'') : Runs P s (ls' ++ ls) s'' := by
  induction h' with
  | refl => exact h
  | step _ hstep hP ih => exact ih.step hstep hP

theorem Runs.imp {P Q : Shared φ → Prop} {ls : List Label} (h : Runs P s ls s')
    (himp : ∀ t, P t → Q t) : Runs Q s ls s' := by
  induction h with
  | refl => exact .refl
  | step _ hstep hP ih => exact ih.step hstep (himp _ hP)

/-- **The run lemma.** -/
theorem Sane.runs {P : Shared φ → Prop} {ls : List Label} (h : Sane s) (hruns : Runs P s ls s') :
    Sane s' := by
  induction hruns with
  | refl => exact h
  | step _ hstep _ ih => exact ih.step hstep

end Flusher

end Shared

end SmolDb
