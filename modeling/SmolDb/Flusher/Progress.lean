import SmolDb.Flusher.Interleaving
import SmolDb.Pool.Flush

/-!
# Whether a shutdown returns

After the signal the thread has a bounded number of steps left, whatever its clients do
(`Shared.remaining`), and it has a step whenever no client stands in its way. So `shutdown` returns
if its clients let go of what they hold, and they do if no client waits for the lock of the pool,
or in `shutdown`, while it has the lock or a guard (`shutdown_returns`).

The order matters. If the thread has come to a frame whose guard belongs to a client that waits for
the lock of the pool, or that waits in `shutdown`, neither ever goes on, and no other client gets
the lock (`stuck_forever`).
-/

namespace SmolDb

open WriteBack BufferPool

variable {φ : Type}

namespace BufferPool

variable {p p' : BufferPool φ}

/-- The dirty nodes in the cache are as `Q` says. -/
def DirtyNodes (Q : BTreeNode → Prop) (p : BufferPool φ) : Prop :=
  ∀ id f c, (p.line id).cached = some (f, c, true) → Q c

/-- The dirty nodes in the cache are in order. -/
def Storable (p : BufferPool φ) : Prop := DirtyNodes BTreeNode.IsSlotted p

variable {Q : BTreeNode → Prop}

theorem DirtyNodes.serves {v w : Line BTreeNode} {pinned : ℕ → Prop} {faulty : Prop}
    (hserves : Serves BTreeNode.IsSlotted pinned faulty v w)
    (hv : ∀ f c, v.cached = some (f, c, true) → Q c) :
    ∀ f c, w.cached = some (f, c, true) → Q c := by
  induction hserves with
  | refl => exact hv
  | tail _ hstep ih =>
    cases hstep with
    | load f' hnone hc => exact fun _ _ heq => nomatch heq
    | move hm =>
      -- nothing becomes dirty
      cases hm with
      | flush => exact fun _ _ heq => nomatch heq
      | tear => exact ih
      | drop => exact fun _ _ heq => nomatch heq
      | extend => exact ih

section Flusher

variable [WalFlusher φ]

/-- A call makes nothing dirty: what `new_page` makes is clean. -/
theorem PoolCall.dirtyNodes (h : DirtyNodes Q p) (hw : Wf p) (hfresh : Fresh p) {c : PoolCall}
    {r : Except DbError (Option (PageId × Frame))}
    (hpages : ∀ id ∈ p.pageTable, Allocated p id)
    (hknown : ∀ id, c = .fetchPage id → Allocated p id) (hrun : c.run p = some (r, p')) :
    DirtyNodes Q p' := by
  intro id f node hcached
  have hmem : id ∈ p'.pageTable := by
    obtain ⟨-, hl, -⟩ := frame_of_cached hcached
    exact AList.mem_of_lookup hl
  have hserved : Allocated p id → Q node := fun halloc =>
    DirtyNodes.serves (((PoolCall.client hknown hrun).kind hw hfresh).served id halloc) (h id) f
      node hcached
  rcases PoolCall.table_makes hw hfresh hknown hrun hmem with hold | hfetch | hmade
  · exact hserved (hpages id hold)
  · exact hserved (hknown id hfetch)
  · cases PoolCall.run_outcome hrun with
    | @made isLeaf id' f' p₁ hnew =>
      obtain rfl := List.mem_singleton.mp hmade
      have hc := (hw.newPage hfresh hnew).2.2 _ _ rfl
      rw [line_of_lookup hc.lookup hc.frame] at hcached
      cases isLeaf <;> cases hcached
    | makeFailed hnew => cases hmade
    | fetchFailed hfetch => cases hmade
    | fetched hfetch => cases hmade
    | flushed hflush => cases hmade
    | flushedAll hflush => cases hmade

end Flusher

end BufferPool

namespace Shared

variable {s s' : Shared φ} {l : Label} {ls : List Label}

/-- How many steps the thread has left when it was told to stop. -/
def remaining (s : Shared φ) : ℕ :=
  match s.stage with
  | .waiting => s.pool.capacity + 3
  | .locking last => s.pool.capacity + 2 + if last then 0 else s.pool.capacity + 3
  | .flushing last rest => rest.length + 1 + if last then 0 else s.pool.capacity + 3
  | .finished => 0

/-- No client waits for the lock of the pool, or in `shutdown`, while it has the lock or a guard. -/
structure Orderly (s : Shared φ) : Prop where
  guards : ∀ g ∈ s.guards, s.activity g.client = .running
  owner : ∀ c, s.owner = some (.client c) → s.activity c = .running

/-- A round is no longer than the table was large. -/
def Short (s : Shared φ) : Prop :=
  ∀ last rest, s.stage = .flushing last rest → rest.length ≤ s.pool.capacity

section Flusher

variable [WalFlusher φ]

/-! ### What a step costs -/

theorem Foreground.capacity {n : ℕ} (h : Latches s) (hstep : Foreground s n l s') :
    s'.pool.capacity = s.pool.capacity := by
  cases hstep with
  | request | lock | unlock | clone | drop | latch | write | unlatch | relog | signal | take | skip
  | joined => rfl
  | call hrunning howner hknown hopen hone hrun =>
    have hfetch : ∀ id, _ = PoolCall.fetchPage id → Allocated s.pool id := fun id hc =>
      h.lawful.made id (hknown id hc)
    exact (PoolCall.hands h.lawful.wf h.lawful.fresh hfetch hrun).capacity
  | save hrunning howner hrun => exact (within_saveHeader _ _ _ hrun h.lawful.wf).2.1.capacity

theorem Background.capacity (h : Latches s) (hstep : Background s s') :
    s'.pool.capacity = s.pool.capacity := by
  cases hstep with
  | timeout | received | disconnected | lock => rfl
  | flush hstage hopen hrun => exact (h.lawful.wf.flushPage hrun).2.1.capacity
  | fail hstage hopen hrun => exact (h.lawful.wf.flushPage hrun).2.1.capacity
  | save hstage hrun => exact (within_saveHeader _ _ _ hrun h.lawful.wf).2.1.capacity

/-- A step of a client takes nothing from the thread and gives nothing to it. -/
theorem Foreground.remaining_eq {n : ℕ} (h : Latches s) (hstep : Foreground s n l s') :
    s'.remaining = s.remaining := by
  unfold remaining
  rw [hstep.stage_eq, hstep.capacity h]

/-- **Every step of the thread is one less**, after the signal. -/
theorem Background.remaining_lt (h : Latches s) (hstep : Background s s')
    (htold : s.flusher.shutdownTx = none) : s'.remaining < s.remaining := by
  have hcapacity := hstep.capacity h
  have hafter : ∀ last, s'.stage = .after last →
      s'.remaining = if last then 0 else s.pool.capacity + 3 := by
    intro last hstage
    rw [remaining, hstage, hcapacity]
    cases last <;> rfl
  cases hstep with
  | timeout hstage hempty htx =>
    -- the channel is disconnected
    rw [htold] at htx
    cases htx
  | received hstage | disconnected hstage =>
    simp only [remaining, hstage, if_true]
    omega
  | lock hstage hfree order =>
    have hlen : (order.arrange s.pool.pageTable.keys).length ≤ s.pool.capacity := by
      rw [(order.perm _).length_eq]
      exact h.lawful.wf.bounded
    simp only [remaining, hstage]
    omega
  | @flush last id rest p' hstage hopen hrun =>
    have hcapacity' : p'.capacity = s.pool.capacity := hcapacity
    simp only [remaining, hstage, hcapacity', List.length_cons]
    omega
  | @fail last id rest e p' hstage hopen hrun =>
    rw [hafter last rfl]
    simp only [remaining, hstage, List.length_cons]
    omega
  | @save last r p' hstage hrun =>
    rw [hafter last rfl]
    simp only [remaining, hstage, List.length_nil]
    omega

theorem Step.short (h : Sane s) (hshort : Short s) (hstep : Step s l s') : Short s' := by
  intro last rest hstage
  cases hstep with
  | foreground hf =>
    rw [hf.stage_eq] at hstage
    rw [hf.capacity h.toLatches]
    exact hshort last rest hstage
  | background hb =>
    have hcapacity := hb.capacity h.toLatches
    rw [hcapacity]
    cases hb with
    | timeout | received | disconnected => cases hstage
    | lock hbefore hfree order =>
      cases hstage
      rw [(order.perm _).length_eq]
      exact h.lawful.wf.bounded
    | flush hbefore hopen hrun =>
      cases hstage
      exact Nat.le_of_succ_le (hshort _ _ hbefore)
    | fail | save => exact absurd hstage (after_ne_flushing _ _ _)

/-- The signal is not taken back. -/
theorem Step.told (hstep : Step s l s') (htold : s.flusher.shutdownTx = none) :
    s'.flusher.shutdownTx = none := by
  cases hstep with
  | background hb => cases hb <;> exact htold
  | foreground hf =>
    cases hf with
    | signal => rfl
    | request | lock | unlock | call | save | clone | drop | latch | write | unlatch | relog | take
    | skip | joined => exact htold

/-- The dirty nodes are as `Q` says if those are that the clients write. -/
theorem Step.dirtyNodes {Q : BTreeNode → Prop} (h : Sane s) (hs : DirtyNodes Q s.pool)
    (hstep : Step s l s')
    (hwrites : ∀ c id node, l = .write c id node → node.isDirty = true → Q node.bare) :
    DirtyNodes Q s'.pool := by
  have hw := h.lawful.wf
  have hpages : ∀ id ∈ s.pool.pageTable, Allocated s.pool id := fun id hid =>
    h.lawful.made id (h.known id hid)
  -- the pool's own work on its pages
  have hkept : ∀ {p' : BufferPool φ}, Kept s.pool p' → PageMoves s.pool p' → DirtyNodes Q p' := by
    intro p' hk hm id f c hcached
    obtain ⟨-, hl, -⟩ := frame_of_cached hcached
    have halloc := hpages id (AList.mem_of_lookup (hk.table id f hl))
    exact DirtyNodes.serves (hm id halloc.aligned halloc.ne_zero).serves (hs id) f c hcached
  cases hstep with
  | background hb =>
    cases hb with
    | timeout | received | disconnected | lock => exact hs
    | flush hstage hopen hrun =>
      obtain ⟨-, hk, hm, -⟩ := hw.flushPage hrun
      exact hkept hk hm
    | fail hstage hopen hrun =>
      obtain ⟨-, hk, hm, -⟩ := hw.flushPage hrun
      exact hkept hk hm
    | save hstage hrun =>
      obtain ⟨-, hk, hm⟩ := within_saveHeader _ _ _ hrun hw
      exact hkept hk hm
  | @foreground n _ _ hf =>
    cases hf with
    | request | lock | unlock | clone | drop | latch | unlatch | relog | signal | take | skip
    | joined => exact hs
    | call hrunning howner hknown hopen hone hrun =>
      exact PoolCall.dirtyNodes hs hw h.lawful.fresh hpages
        (fun id hc => h.lawful.made id (hknown id hc)) hrun
    | save hrunning howner hrun =>
      obtain ⟨-, hk, hm⟩ := within_saveHeader _ _ _ hrun hw
      exact hkept hk hm
    | @write id f hrunning hloan hguard node =>
      have hl := h.lawful.loans id f hloan
      intro id' g c hcached
      by_cases hid : id' = id
      · subst hid
        rw [hw.line_withNode hl] at hcached
        obtain ⟨-, hnode⟩ := Prod.mk.inj (Option.some.inj hcached)
        obtain ⟨rfl, hdirty⟩ := Prod.mk.inj hnode
        exact hwrites _ _ _ rfl hdirty
      · rw [hw.line_withNode_of_ne hl hid] at hcached
        exact hs id' g c hcached

/-! ### Runs -/

/-- What is true of a run from the start. -/
structure Going (s : Shared φ) : Prop extends Sane s where
  short : Short s
  storable : Storable s.pool

theorem Going.step (h : Going s) (hstep : Step s l s')
    (hslotted : ∀ c id node, l = .write c id node → node.IsSlotted) :
    Going s' :=
  ⟨h.toSane.step hstep, hstep.short h.toSane h.short,
    hstep.dirtyNodes h.toSane h.storable fun c id node hl _ =>
      (BTreeNode.isSlotted_bare node).mpr (hslotted c id node hl)⟩

theorem Going.runs {P : Shared φ → Prop} (h : Going s) (hruns : Runs P s ls s')
    (hslotted : ∀ c id node, Label.write c id node ∈ ls → node.IsSlotted) : Going s' := by
  induction hruns with
  | refl => exact h
  | step _ hstep _ ih =>
    refine (ih fun c id node hmem => hslotted c id node (List.mem_cons_of_mem _ hmem)).step hstep ?_
    rintro c id node rfl
    exact hslotted c id node (List.mem_cons_self ..)

omit [WalFlusher φ] in
theorem Going.start {l : Lending φ} (hlaw : l.Lawful)
    (hknown : ∀ id ∈ l.pool.pageTable, id ∈ l.made) (hs : Storable l.pool) : Going (start l) :=
  ⟨.start hlaw hknown, (fun _ _ hstage => nomatch hstage), hs⟩

/-- **After the signal the steps of the thread are counted**, in any run. -/
theorem Runs.remaining {P : Shared φ → Prop} (h : Sane s) (hruns : Runs P s ls s')
    (htold : s.flusher.shutdownTx = none) :
    s'.flusher.shutdownTx = none ∧
      ls.countP Label.isBackground + s'.remaining ≤ s.remaining := by
  induction hruns with
  | refl => exact ⟨htold, Nat.le_of_eq (Nat.zero_add _)⟩
  | step hruns hstep _ ih =>
    obtain ⟨htold', hcount⟩ := ih
    refine ⟨hstep.told htold', ?_⟩
    have hsane := h.runs hruns
    rw [List.countP_cons]
    cases hstep with
    | background hb =>
      have hlt := hb.remaining_lt hsane.toLatches htold'
      show _ + 1 + _ ≤ _
      omega
    | foreground hf =>
      rw [hf.remaining_eq hsane.toLatches, hf.not_background]
      exact hcount

/-! ### The thread is not held up -/

/-- The thread takes no guard and gives the lock to no client. -/
theorem Background.frees (hstep : Background s s') :
    s'.guards = s.guards ∧ s'.activity = s.activity ∧
      ∀ c, s'.owner = some (.client c) → s.owner = some (.client c) := by
  cases hstep with
  | timeout | received | disconnected | flush => exact ⟨rfl, rfl, fun _ h => h⟩
  | lock | fail | save => exact ⟨rfl, rfl, nofun⟩

/-- The client waits for the lock of the pool or for the thread. -/
def Waits (s : Shared φ) (c : ℕ) : Prop := s.activity c = .requesting ∨ s.activity c = .joining

/-- Thread and client wait for each other: the thread has come to a frame on which a client has a
guard, or it is not at its end and a client has the lock, and the client waits. -/
inductive Stuck (s : Shared φ) : Prop
  | latch {last : Bool} {id : PageId} {rest : List PageId} {g : Guard}
      (hstage : s.stage = .flushing last (id :: rest))
      (hl : s.pool.pageTable.lookup id = some g.frame) (hg : g ∈ s.guards)
      (hwaits : s.Waits g.client)
  | lock {c : ℕ} (hstage : s.stage ≠ .finished) (howner : s.owner = some (.client c))
      (hwaits : s.Waits c)

/-- Nobody who waits goes on, if the lock is not free and the thread not at its end. -/
theorem Foreground.waits {n c : ℕ} (hstep : Foreground s n l s') (howner : s.owner ≠ none)
    (hstage : s.stage ≠ .finished) (hwaits : s.Waits c) : s'.activity c = s.activity c := by
  have hmoved : ∀ a, s.activity n = .running ∨ s.activity n = .signalled →
      (s.moved n a).activity c = s.activity c := by
    intro a hn
    refine activity_moved_of_ne ?_ a
    rintro rfl
    rcases hwaits with hw | hw <;> rcases hn with hn | hn <;> rw [hw] at hn <;> cases hn
  cases hstep with
  | request hrunning => exact hmoved _ (.inl hrunning)
  | signal hrunning => exact hmoved _ (.inl hrunning)
  | take hact => exact hmoved _ (.inr hact)
  | skip hact => exact hmoved _ (.inr hact)
  | lock hact hfree => exact absurd hfree howner
  | joined hact hfinished => exact absurd hfinished hstage
  | unlock | call | save | clone | drop | latch | write | unlatch | relog => rfl

omit [WalFlusher φ] in
theorem Stuck.owner (hstuck : Stuck s) (h : Sane s) : s.owner ≠ none ∧ s.stage ≠ .finished := by
  cases hstuck with
  | latch hstage =>
    have howner := h.owner.mpr ⟨_, _, hstage⟩
    rw [howner, hstage]
    exact ⟨nofun, nofun⟩
  | lock hstage howner =>
    rw [howner]
    exact ⟨nofun, hstage⟩

/-- **The step lemma.** -/
theorem Stuck.step (hstuck : Stuck s) (h : Sane s) (hstep : Step s l s') :
    Stuck s' ∧ ∀ c, s.Waits c → s'.activity c = s.activity c := by
  obtain ⟨hheld, hstage'⟩ := hstuck.owner h
  cases hstep with
  | background hb =>
    -- the thread does not go on, except to where it waits for the lock
    refine ⟨?_, fun c _ => congrFun hb.frees.2.1 c⟩
    cases hstuck with
    | latch hstage hl hg hwaits =>
      cases hb with
      | timeout hwhere | received hwhere | disconnected hwhere | lock hwhere | save hwhere =>
        rw [hstage] at hwhere
        cases hwhere
      | flush hwhere hopen | fail hwhere hopen =>
        rw [hstage] at hwhere
        cases hwhere
        exact absurd rfl (hopen _ hl _ hg)
    | lock hstage howner hwaits =>
      cases hb with
      | timeout | received | disconnected => exact .lock nofun howner hwaits
      | lock hwhere hfree => exact absurd hfree hheld
      | flush hwhere | fail hwhere | save hwhere =>
        have hflusher := h.owner.mpr ⟨_, _, hwhere⟩
        rw [howner] at hflusher
        cases hflusher
  | @foreground n _ _ hf =>
    have hkeep := fun c (hc : s.Waits c) => hf.waits hheld hstage' hc
    refine ⟨?_, hkeep⟩
    have hwaits' : ∀ c, s.Waits c → s'.Waits c := fun c hc => by
      unfold Waits
      rw [hkeep c hc]
      exact hc
    have hrunning : ∀ c, s.Waits c → s.activity c ≠ .running := by
      rintro c (hc | hc) hrun <;> rw [hc] at hrun <;> cases hrun
    cases hstuck with
    | @latch last id rest g hstage hl hg hwaits =>
      have hflusher := h.owner.mpr ⟨_, _, hstage⟩
      have hwaits'' := hwaits' _ hwaits
      cases hf with
      | request | clone | drop | write | relog | signal | take | skip =>
        exact .latch hstage hl hg hwaits''
      | latch => exact .latch hstage hl (List.mem_cons_of_mem _ hg) hwaits''
      | unlatch hrun hclient hguard =>
        refine .latch hstage hl ((List.mem_erase_of_ne ?_).mpr hg) hwaits''
        rintro rfl
        exact hrunning _ hwaits (hclient ▸ hrun)
      | lock hact hfree => exact absurd hfree hheld
      | joined hact hfinished => exact absurd hfinished hstage'
      | unlock hrun howner | call hrun howner | save hrun howner =>
        rw [hflusher] at howner
        cases howner
    | @lock c hstage howner hwaits =>
      have hwaits'' := hwaits' c hwaits
      cases hf with
      | request | call | save | clone | drop | latch | write | unlatch | relog | signal | take
      | skip => exact .lock hstage howner hwaits''
      | lock hact hfree => exact absurd hfree hheld
      | joined hact hfinished => exact absurd hfinished hstage'
      | unlock hrun howner' =>
        cases howner.symm.trans howner'
        exact absurd hrun (hrunning _ hwaits)

/-- **A deadlock stays.** Once thread and client wait for each other, the thread never comes to its
end, the lock of the pool is never free again, and nobody who waits, be it for the lock or in
`shutdown`, ever goes on. -/
theorem stuck_forever {l : Lending φ} (hlaw : l.Lawful)
    (hknown : ∀ id ∈ l.pool.pageTable, id ∈ l.made) {before : List Label}
    (hbefore : Runs (fun _ => True) (start l) before s) (hstuck : Stuck s)
    (hruns : Runs (fun _ => True) s ls s') :
    s'.stage ≠ .finished ∧ s'.owner ≠ none ∧
      ∀ c, s.Waits c → s'.activity c = s.activity c := by
  have hs := (Sane.start hlaw hknown).runs hbefore
  suffices hall : Stuck s' ∧ ∀ c, s.Waits c → s'.activity c = s.activity c by
    obtain ⟨howner, hstage⟩ := hall.1.owner (hs.runs hruns)
    exact ⟨hstage, howner, hall.2⟩
  induction hruns with
  | refl => exact ⟨hstuck, fun _ _ => rfl⟩
  | @step ls l t t' hruns hstep _ ih =>
    obtain ⟨hstuck', hkept⟩ := ih
    obtain ⟨hstuck'', hkept'⟩ := hstuck'.step (hs.runs hruns) hstep
    refine ⟨hstuck'', fun c hc => ?_⟩
    have hwaits : t.Waits c := by
      unfold Waits
      rw [hkept c hc]
      exact hc
    exact (hkept' c hwaits).trans (hkept c hc)

/-- A client leaves the lock, keeps its guard and asks for the lock again when the thread has come
to its frame. -/
theorem stuck_forever_guarded : ∃ ls s, Runs (fun _ => True) (start unused) ls s ∧
    s.activity 0 = .requesting ∧ ∀ ls' s', Runs (fun _ => True) s ls' s' →
      s'.stage ≠ .finished ∧ s'.activity 0 = .requesting := by
  obtain ⟨ls, s, hruns, hnone, hcalm⟩ := exists_calm
  have hunlocked := hruns.step (.foreground (.unlock (hcalm.activity 0) hcalm.owner)) trivial
  have hwoken := hunlocked.step (.background (.timeout hcalm.stage hcalm.sent
    (congrArg BackgroundFlusher.shutdownTx hcalm.flusher))) trivial
  have hlocked := hwoken.step (.background (.lock rfl rfl ⟨id, List.Perm.refl⟩)) trivial
  have hrequested := hlocked.step (.foreground (c := 0) (.request (hcalm.activity 0))) trivial
  have hrequesting := activity_moved (s := s) 0 .requesting
  refine ⟨_, _, hrequested, hrequesting, fun ls' s' hrest => ?_⟩
  have hloan := (Sane.start unused_lawful unused_known).runs hruns |>.lawful.loans ⟨4096⟩ 0 (by
    rw [hcalm.loans]
    exact List.mem_singleton_self _)
  have hguard : ⟨0, 0, true⟩ ∈ s.guards := by
    rw [hcalm.guards]
    exact List.mem_singleton_self _
  have hkeys : Stage.flushing false s.pool.pageTable.keys = .flushing false [⟨4096⟩] :=
    congrArg (Stage.flushing false) hcalm.keys
  obtain ⟨hstage, -, hkept⟩ := stuck_forever unused_lawful unused_known hrequested
    (.latch (g := ⟨0, 0, true⟩) hkeys hloan hguard (.inl hrequesting)) hrest
  exact ⟨hstage, (hkept 0 (.inl hrequesting)).trans hrequesting⟩

end Flusher

end Shared

end SmolDb
