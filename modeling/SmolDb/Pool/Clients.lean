import SmolDb.Pool.Content

/-!
# Other clients of the pool

Between two calls of one client the pool serves others: pages are fetched and made, pages are
flushed, and frames are cloned and dropped. `Client p p'` is one such step, successful or not,
and it may fetch only what `allocate_page` has returned. To every allocated page a step is a
request that the cache serves, so a page keeps the content it has.
-/

namespace SmolDb

open WriteBack

namespace BufferPool

variable {φ : Type} {p p' p'' : BufferPool φ}

/-- The page has no image in the file, and its copy is the node it was made with or what a blank
page decodes to. -/
structure Newborn (p : BufferPool φ) (id : PageId) (c : BTreeNode) : Prop where
  blank : (p.line id).blank
  cached : ∀ f c' d, (p.line id).cached = some (f, c', d) → d = false ∧ (c' = c ∨ c' = zeroNode)

/-- What is in the file for a page that was never written. -/
theorem line_stored_of_blank {id : PageId} (h : (p.line id).blank) :
    (p.line id).stored = none ∨ (p.line id).stored = some zeroNode := by
  have hnode : p.diskManager.file.nodeAt id.val.toNat = none ∨
      p.diskManager.file.nodeAt id.val.toNat = some zeroNode := DataFile.Blank.nodeAt h
  unfold line
  rcases hnode with hnone | hzero
  · rw [hnone]
    exact .inl rfl
  · rw [hzero]
    exact .inr rfl

theorem Newborn.moves {id : PageId} {c : BTreeNode} (h : p.Newborn id c)
    (hm : Moves BTreeNode.IsSlotted (· ∈ p.held) (p.diskManager.faults ≠ [])
      (p.line id) (p'.line id)) : p'.Newborn id c := by
  -- the copy is clean, so no move writes the page
  have hkeep := hm.keep (P := fun v => v.blank ∧ ∀ f c' d, v.cached = some (f, c', d) →
    d = false ∧ (c' = c ∨ c' = zeroNode)) (fun v w hmove ⟨hb, hv⟩ => by
      cases hmove with
      | flush => exact absurd (hv _ _ _ rfl).1 nofun
      | tear => exact absurd (hv _ _ _ rfl).1 nofun
      | drop => exact ⟨hb, fun _ _ _ heq => nomatch heq⟩
      | extend _ hext => exact ⟨hext hb, hv⟩) ⟨h.blank, h.cached⟩
  exact ⟨hkeep.1, hkeep.2⟩

/-- A newborn page that is loaded has the content of a page of zeros. -/
theorem Newborn.loaded {id : PageId} {c : BTreeNode} {f : Frame} (h : p.Newborn id c)
    (ha : id.Aligned) (hne : id.val ≠ 0) (hl : p.pageTable.lookup id = none)
    (hfetch : Fetched p p' id f) :
    (p'.line id).blank ∧ (p'.line id).cached = some (f, zeroNode, false) := by
  obtain ⟨v, c', hm, hs, hv⟩ := hfetch.miss hl ha hne
  have hext := hm.extended (congrArg Line.cached (line_of_not_cached hl))
  have hblank : (p'.line id).blank := by
    rw [hv]
    exact hext.blank h.blank
  have hstored : (p'.line id).stored = some c' := by
    rw [hv]
    exact hs
  -- a page never written to reads back as zeros
  have hzero : c' = zeroNode := by
    rcases line_stored_of_blank hblank with hnone | hzero
    · rw [hnone] at hstored
      cases hstored
    · rw [hzero] at hstored
      exact (Option.some.inj hstored).symm
  refine ⟨hblank, ?_⟩
  rw [hv, hzero]
  rfl

theorem Newborn.fetched {id id' : PageId} {c : BTreeNode} {f : Frame} (h : p.Newborn id c)
    (ha : id.Aligned) (hne : id.val ≠ 0) (hfetch : Fetched p p' id' f) : p'.Newborn id c := by
  by_cases hid : id = id'
  · subst hid
    cases hl : p.pageTable.lookup id with
    | some f' =>
      have hline := hfetch.hit f' hl
      exact ⟨hline ▸ h.blank, hline ▸ h.cached⟩
    | none =>
      obtain ⟨hblank, hcached⟩ := h.loaded ha hne hl hfetch
      refine ⟨hblank, ?_⟩
      intro f' c' d hcached'
      rw [hcached] at hcached'
      cases hcached'
      exact ⟨rfl, .inr rfl⟩
  · exact h.moves (hfetch.moves id ha hne hid)

/-- No page that is still to be allocated was ever written. -/
def Unborn (p : BufferPool φ) : Prop := ∀ id : PageId, id.Aligned → id.val ≠ 0 →
  p.diskManager.header.nextFreeOffset.toNat ≤ id.val.toNat → (p.line id).blank

theorem Fresh.not_cached (h : Fresh p) {id : PageId}
    (hid : p.diskManager.header.nextFreeOffset.toNat ≤ id.val.toNat) :
    p.pageTable.lookup id = none := by
  rw [AList.lookup_eq_none]
  intro hmem
  exact Nat.not_lt.mpr hid (h.below id hmem)

theorem Unborn.moves (h : Unborn p) (hfresh : Fresh p)
    (hnext : p.diskManager.header.nextFreeOffset.toNat ≤
      p'.diskManager.header.nextFreeOffset.toNat)
    (hm : ∀ id : PageId, id.Aligned → id.val ≠ 0 →
      p'.diskManager.header.nextFreeOffset.toNat ≤ id.val.toNat →
      Moves BTreeNode.IsSlotted (· ∈ p.held) (p.diskManager.faults ≠ [])
        (p.line id) (p'.line id)) : Unborn p' := by
  intro id ha hne hid
  have hid' := Nat.le_trans hnext hid
  have hnone : (p.line id).cached = none :=
    congrArg Line.cached (line_of_not_cached (hfresh.not_cached hid'))
  exact ((hm id ha hne hid).extended hnone).blank (h id ha hne hid')

/-- A page that was just made has its place in a part of the file that was never written. -/
theorem Created.blank (h : Unborn p) (hfresh : Fresh p) {id : PageId} {node : BTreeNode}
    {f : Frame} (hc : Created p p' id node f) : (p'.line id).blank := by
  obtain ⟨ha, hne⟩ := hfresh.aligned_next hc
  have hid : p.diskManager.header.nextFreeOffset.toNat ≤ id.val.toNat := by
    rw [hc.offset]
  have hnone : (p.line id).cached = none :=
    congrArg Line.cached (line_of_not_cached (hfresh.not_cached hid))
  exact ((hc.store ha hne).extended hnone).blank (h id ha hne hid)

/-- A pool over a file without pages has allocated none. -/
theorem Fresh.new (file : DataFile) (faults : List (Option ℕ)) (capacity : ℕ) (w : Option φ) :
    Fresh (new ⟨file, .default, faults⟩ capacity w) where
  aligned := by
    show FileHeader.default.nextFreeOffset.toNat % pageSize = 0
    decide
  pos := by
    show pageSize ≤ FileHeader.default.nextFreeOffset.toNat
    decide
  below _ h := absurd h (AList.notMem_empty _)

theorem Unborn.new (faults : List (Option ℕ)) (capacity : ℕ) (w : Option φ) :
    Unborn (new ⟨.empty, .default, faults⟩ capacity w) :=
  fun id _ _ _ => DataFile.blank_empty id.val.toNat

/-- What a step of another client keeps. -/
structure Kind (p p' : BufferPool φ) : Prop where
  wf : Wf p'
  fresh : Fresh p'
  faults : p.diskManager.faults = [] → p'.diskManager.faults = []
  allocated : ∀ id, Allocated p id → Allocated p' id
  served : ∀ id, Allocated p id → Served p p' id
  newborn : ∀ id c, Allocated p id → p.Newborn id c → p'.Newborn id c
  unborn : Unborn p → Unborn p'

/-- The pool's own work is kind. -/
theorem Kind.of_kept (hw : Wf p') (hfresh : Fresh p) (hk : Kept p p') (hm : PageMoves p p') :
    Kind p p' where
  wf := hw
  fresh := hfresh.of_kept hk
  faults := hk.faults
  allocated _ h := ⟨h.aligned, h.ne_zero, hk.header ▸ h.below⟩
  served id h := (hm id h.aligned h.ne_zero).serves
  newborn id _ h hnew := hnew.moves (hm id h.aligned h.ne_zero)
  unborn h := h.moves hfresh (by rw [hk.header]) fun id ha hne _ =>
    hm id ha hne

section Flusher

variable [WalFlusher φ]

/-- One step of another client. -/
inductive Client (p : BufferPool φ) : BufferPool φ → Prop
  | fetch {id : PageId} {r : Except DbError Frame} {p' : BufferPool φ} (halloc : Allocated p id)
      (h : fetchPage id p = some (r, p')) : Client p p'
  | make {isLeaf : Bool} {r : Except DbError (PageId × Frame)} {p' : BufferPool φ}
      (h : newPage isLeaf p = some (r, p')) : Client p p'
  | flush {id : PageId} {r : Except DbError Unit} {p' : BufferPool φ}
      (h : flushPage id p = some (r, p')) : Client p p'
  | flushAll {order : HashOrder} {r : Except DbError Unit} {p' : BufferPool φ}
      (h : flushAllPages order p = some (r, p')) : Client p p'
  | clone {f : Frame} (hf : f ∈ p.held) : Client p { p with held := f :: p.held }
  | drop (f : Frame) : Client p { p with held := p.held.erase f }

/-- **Every step of another client is kind.** -/
theorem Client.kind (h : Client p p') (hw : Wf p) (hfresh : Fresh p) : Kind p p' := by
  cases h with
  | @fetch id r _ halloc hrun =>
    obtain ⟨herr, hok⟩ := hw.fetchPage hrun
    cases r with
    | error e =>
      obtain ⟨hw', hwork⟩ := herr e rfl
      exact .of_kept hw' hfresh hwork.kept hwork.moves
    | ok f =>
      obtain ⟨hw', hf⟩ := hok f rfl halloc.aligned
      exact
        { wf := hw'
          fresh := hfresh.of_fetched hf halloc.below
          faults := hf.grown.faults
          allocated := fun id h => ⟨h.aligned, h.ne_zero, hf.header ▸ h.below⟩
          served := fun id h => hf.serves h.aligned h.ne_zero
          newborn := fun id _ h hnew => hnew.fetched h.aligned h.ne_zero hf
          unborn := fun h => h.moves hfresh (by rw [hf.header])
            fun id' ha hne hid => by
              rw [hf.header] at hid
              refine hf.moves id' ha hne fun heq => ?_
              exact Nat.not_lt.mpr hid (heq ▸ halloc.below) }
  | @make isLeaf r _ hrun =>
    obtain ⟨hw', herr, hok⟩ := hw.newPage hfresh hrun
    cases r with
    | error e => exact .of_kept hw' hfresh (herr e rfl).kept (herr e rfl).moves
    | ok made =>
      have hc := hok made.1 made.2 rfl
      -- the page that was made is none of those that were there
      have hother : ∀ id, Allocated p id → id ≠ made.1 := fun id halloc =>
        halloc.ne_new hc.offset
      exact
        { wf := hw'
          fresh := hfresh.of_created hc
          faults := hc.grown.faults
          allocated := fun id h => ⟨h.aligned, h.ne_zero, by
            rw [hc.next_toNat]
            exact Nat.lt_add_right _ h.below⟩
          served := fun id h => (hc.moves id h.aligned h.ne_zero (hother id h)).serves
          newborn := fun id _ h hnew =>
            hnew.moves (hc.moves id h.aligned h.ne_zero (hother id h))
          unborn := fun h => h.moves hfresh (by
              rw [hc.next_toNat]
              exact Nat.le_add_right ..)
            fun id' ha hne hid => by
              rw [hc.next_toNat, ← hc.offset] at hid
              refine hc.moves id' ha hne fun heq => ?_
              rw [heq] at hid
              exact Nat.not_lt.mpr hid (Nat.lt_add_of_pos_right (by decide)) }
  | flush hrun =>
    obtain ⟨hw', hk, hm⟩ := within_flushPage _ _ _ _ hrun hw
    exact .of_kept hw' hfresh hk hm
  | flushAll hrun =>
    obtain ⟨hw', hk, hm⟩ := within_flushAllPages _ _ _ _ hrun hw
    exact .of_kept hw' hfresh hk hm
  | clone hf =>
    obtain ⟨id, hl⟩ := hw.held _ hf
    exact ⟨hw.hold hl, ⟨hfresh.aligned, hfresh.pos, hfresh.below⟩, fun hno => hno,
      fun _ h => ⟨h.aligned, h.ne_zero, h.below⟩, fun _ _ => .refl _,
      fun _ _ _ h => ⟨h.blank, h.cached⟩, fun h => h⟩
  | drop f =>
    exact ⟨hw.drop f, ⟨hfresh.aligned, hfresh.pos, hfresh.below⟩, fun hno => hno,
      fun _ h => ⟨h.aligned, h.ne_zero, h.below⟩, fun _ _ => .refl _,
      fun _ _ _ h => ⟨h.blank, h.cached⟩, fun h => h⟩

/-- **No step of another client writes a page that nobody has changed**, be it one that the step
made. -/
theorem Client.unwritten (h : Client p p') (hw : Wf p) (hfresh : Fresh p) {id : PageId}
    (ha : id.Aligned) (hne : id.val ≠ 0) {c : BTreeNode} (hun : Unwritten c (p.line id)) :
    ∃ c', Unwritten c' (p'.line id) := by
  have hserves : Serves BTreeNode.IsSlotted (· ∈ p.held) (p.diskManager.faults ≠ [])
      (p.line id) (p'.line id) → ∃ c', Unwritten c' (p'.line id) :=
    fun hs => ⟨c, Unwritten.serves hs hun⟩
  -- each request serves the page, or makes it
  cases h with
  | @fetch id' r _ halloc hrun =>
    obtain ⟨herr, hok⟩ := hw.fetchPage hrun
    cases r with
    | error e => exact hserves ((herr e rfl).2.moves id ha hne).serves
    | ok f => exact hserves ((hok f rfl halloc.aligned).2.serves ha hne)
  | @make isLeaf r _ hrun =>
    obtain ⟨-, herr, hok⟩ := hw.newPage hfresh hrun
    cases r with
    | error e => exact hserves ((herr e rfl).moves id ha hne).serves
    | ok made =>
      have hc := hok made.1 made.2 rfl
      by_cases hid : id = made.1
      · -- the page that was made is clean
        subst hid
        have hnone : (p.line made.1).cached = none := by
          refine congrArg Line.cached (line_of_not_cached (hfresh.not_cached ?_))
          rw [hc.offset]
        refine ⟨(BTreeNode.newEmpty made.1 isLeaf).bare,
          ((hc.store ha hne).extended hnone).blank hun.1, fun f c' d hcached => ?_⟩
        rw [line_of_lookup hc.lookup hc.frame] at hcached
        cases hcached
        cases isLeaf with
        | true => exact ⟨rfl, .inl rfl⟩
        | false => exact ⟨rfl, .inl rfl⟩
      · exact hserves (hc.moves id ha hne hid).serves
  | flush hrun =>
    obtain ⟨-, -, hm⟩ := within_flushPage _ _ _ _ hrun hw
    exact hserves (hm id ha hne).serves
  | flushAll hrun =>
    obtain ⟨-, -, hm⟩ := within_flushAllPages _ _ _ _ hrun hw
    exact hserves (hm id ha hne).serves
  | clone hf => exact ⟨c, hun⟩
  | drop f => exact ⟨c, hun⟩

end Flusher

end BufferPool

end SmolDb
