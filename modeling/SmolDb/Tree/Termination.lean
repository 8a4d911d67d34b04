import SmolDb.Lib.Walk
import SmolDb.Page.Rewrite
import SmolDb.Pool.Reopen
import SmolDb.Tree.Lookup

/-!
# When lookup ends

`find_record` follows the page ids it reads from the file, whatever they are. On a pool that was
just opened nothing but the file decides where it goes: every page it fetches is read from the
file or is a clean copy of what the file has (`ReadOnly`), and it goes on as long as the page
decodes to an internal node (`DataFile.routeFrom`).

The loop keeps no record of the pages it has seen. So it ends when the walk along these ids does
not return to a page, for there are only so many pages in the file; and when the walk returns and
no read fails it goes round for ever (`findRecord_returns_iff`).
-/

namespace SmolDb

/-- The page a lookup goes on to from a page of the file. -/
def DataFile.routeFrom (self : DataFile) (rowId : UInt64) (id : PageId) : Option PageId :=
  match self.nodeAt id.val.toNat with
  | some (.internal node) =>
    match node.routeKey rowId with
    | some (.ok nextPageId) => some nextPageId
    | _ => none
  | _ => none

/-- No page on the way of a lookup makes `decode` panic. -/
def DataFile.DecodesFrom (self : DataFile) (rowId : UInt64) (id : PageId) : Prop :=
  ∀ n id' page, Walk.after (self.routeFrom rowId) id n = some id' →
    self.readAt id'.val.toNat pageSize = some page → (BTreeNode.decode page).isSome

namespace DataFile

variable {file : DataFile} {rowId : UInt64} {id id' : PageId}

theorem DecodesFrom.next (h : file.DecodesFrom rowId id)
    (hnext : file.routeFrom rowId id = some id') : file.DecodesFrom rowId id' :=
  fun n id'' page hafter =>
  h (n + 1) id'' page ((Walk.after_succ_of_next hnext n).trans hafter)

/-- Only a page that lies in the file leads on. -/
theorem lt_of_routeFrom (h : file.routeFrom rowId id ≠ none) : id.val.toNat < file.len := by
  cases hnode : file.nodeAt id.val.toNat with
  | none =>
    apply absurd _ h
    unfold routeFrom
    rw [hnode]
  | some node =>
    have hlen := len_of_nodeAt hnode
    exact Nat.lt_of_lt_of_le (Nat.lt_add_of_pos_right (by decide)) hlen

theorem placed_of_nodeAt {offset : ℕ} {node : BTreeNode} (h : file.nodeAt offset = some node) :
    node.IsPlaced ∧ node.isDirty = false := by
  obtain ⟨page, -, hdecode⟩ := Option.bind_eq_some_iff.mp h
  split at hdecode
  · next hok =>
    cases hdecode
    exact ⟨BTreeNode.placed_of_decode hok, isDirty_of_decode hok⟩
  · cases hdecode

end DataFile

namespace BufferPool

variable {φ : Type} {file : DataFile} {p p' : BufferPool φ}

/-- A pool that has only read: what it has cached are clean copies of pages of the file. -/
structure ReadOnly (file : DataFile) (p : BufferPool φ) : Prop where
  file_eq : p.diskManager.file = file
  capacity : 0 < p.capacity
  tracked : Tracked p
  bounded : p.pageTable.keys.length ≤ p.capacity
  inj : ∀ id id' f, p.pageTable.lookup id = some f → p.pageTable.lookup id' = some f → id = id'
  copies : ∀ id f, p.pageTable.lookup id = some f →
    ∃ node, p.frames[f]? = some node ∧ file.nodeAt id.val.toNat = some node

/-- Such a pool between two calls. -/
structure Idle (file : DataFile) (p : BufferPool φ) : Prop extends ReadOnly file p where
  unpinned : p.held = []

theorem Idle.new (d : DiskManager) {capacity : ℕ} (hcap : 0 < capacity) (w : Option φ) :
    Idle d.file (new d capacity w) where
  file_eq := rfl
  capacity := hcap
  tracked := .new d capacity w
  bounded := Nat.zero_le _
  inj _ _ _ h := by cases h
  copies _ _ h := by cases h
  unpinned := rfl

theorem ReadOnly.framed (h : ReadOnly file p) (id : PageId) (f : Frame)
    (hl : p.pageTable.lookup id = some f) : f < p.frames.length := by
  obtain ⟨node, hf, -⟩ := h.copies id f hl
  exact (List.getElem?_eq_some_iff.mp hf).1

theorem ReadOnly.clean (h : ReadOnly file p) : Clean p := by
  intro id f node hl hf
  obtain ⟨node', hf', hnode⟩ := h.copies id f hl
  rw [hf, Option.some.injEq] at hf'
  subst hf'
  exact (DataFile.placed_of_nodeAt hnode).2

/-- **Installing** a node that the file has. -/
theorem Idle.install (h : Idle file p) {id : PageId} {node : BTreeNode}
    (hl : p.pageTable.lookup id = none) (hroom : p.pageTable.keys.length < p.capacity)
    (hnode : file.nodeAt id.val.toNat = some node) :
    ∃ q, install id node p = some (.ok p.frames.length, p.installed q id node) ∧
      ReadOnly file (p.installed q id node) := by
  have hnew : id ∉ p.pageTable := AList.lookup_eq_none.mp hl
  obtain ⟨q, hq⟩ := h.tracked.exists_recorded_new hnew hroom
  refine ⟨q, install_eq hq node, ?_⟩
  exact
    { file_eq := h.file_eq
      capacity := h.capacity
      tracked := h.tracked.installed hq node
      bounded := by
        show (p.pageTable.insert id p.frames.length).keys.length ≤ p.capacity
        rw [AList.keys_insert, List.erase_of_not_mem (fun hin => hnew (AList.mem_keys.mpr hin))]
        exact hroom
      inj := inj_insert h.framed h.inj id
      copies := fun id' f hf => by
        by_cases hid : id' = id
        · subst hid
          obtain rfl : p.frames.length = f :=
            Option.some.inj ((AList.lookup_insert _).symm.trans hf)
          refine ⟨node, ?_, hnode⟩
          show (p.frames ++ [node])[p.frames.length]? = some node
          simp
        · have hl' : p.pageTable.lookup id' = some f := (AList.lookup_insert_ne hid).symm.trans hf
          obtain ⟨node', hnode', hfile⟩ := h.copies id' f hl'
          refine ⟨node', ?_, hfile⟩
          show (p.frames ++ [node])[f]? = some node'
          rw [List.getElem?_append_left (h.framed id' f hl'), hnode'] }

/-- A pool without the page it evicted. -/
def without (p : BufferPool φ) (q : LruReplacer) (id : PageId) : BufferPool φ :=
  { p with replacer := q, pageTable := p.pageTable.erase id }

section Flusher

variable [WalFlusher φ]

/-- **Evicting** writes nothing. -/
theorem Idle.evictPage (h : Idle file p) (hne : p.pageTable.keys ≠ []) :
    ∃ q id, evictPage p = some (.ok (), p.without q id) ∧ Idle file (p.without q id) ∧
      (p.without q id).pageTable.keys.length < p.pageTable.keys.length := by
  obtain ⟨is, l, ht, hmem⟩ := h.tracked
  have hfree : ∀ id ∈ p.pageTable, p.isUnpinned id = some (true, ()) := fun id hid =>
    isUnpinned_of_unheld h.inj h.unpinned hid
  obtain ⟨id, q, is', hcached, hvictim, ht'⟩ := exists_victim ht hmem hfree hne
  have hflush : flushPage id { p with replacer := q } = some (.ok (), { p with replacer := q }) :=
    flushPage_of_clean (p := { p with replacer := q }) h.framed h.clean id
  -- what is left in the table was in it before
  have hrest : ∀ id' f, (p.pageTable.erase id).lookup id' = some f →
      p.pageTable.lookup id' = some f := by
    intro id' f hl
    by_cases hid : id' = id
    · rw [hid, AList.lookup_erase] at hl
      cases hl
    · rwa [AList.lookup_erase_ne hid] at hl
  have hless : (p.pageTable.erase id).keys.length < p.pageTable.keys.length := by
    have hin : id ∈ p.pageTable.keys := AList.mem_keys.mp hcached
    rw [AList.keys_erase, List.length_erase_of_mem hin]
    exact Nat.sub_lt (List.length_pos_of_mem hin) Nat.one_pos
  refine ⟨q, id, ?_, ?_, hless⟩
  · unfold BufferPool.evictPage
    rw [Exec.bind_of_ok (Exec.get_apply p), hvictim, Exec.bind_of_ok (Exec.ofOption_some _ _)]
    dsimp only
    rw [Exec.bind_of_ok (Exec.modify_apply _ _), Exec.bind_of_ok hflush]
    rfl
  · exact
      { file_eq := h.file_eq
        capacity := h.capacity
        tracked := ⟨is', l.erase id, ht', fun id' => by
          rw [ht.nodup.mem_erase_iff, hmem, and_comm]
          exact (AList.mem_erase.trans and_comm).symm⟩
        bounded := Nat.le_trans (Nat.le_of_lt hless) h.bounded
        inj := fun id₁ id₂ f h₁ h₂ => h.inj id₁ id₂ f (hrest id₁ f h₁) (hrest id₂ f h₂)
        copies := fun id' f hl => h.copies id' f (hrest id' f hl)
        unpinned := h.unpinned }

/-- Making room succeeds, and what is not cached stays so. -/
theorem Idle.makeRoom (h : Idle file p) :
    ∃ p', makeRoom p = some (.ok (), p') ∧ Idle file p' ∧ p'.diskManager = p.diskManager ∧
      p'.pageTable.keys.length < p'.capacity ∧
      ∀ id, p.pageTable.lookup id = none → p'.pageTable.lookup id = none := by
  unfold BufferPool.makeRoom
  rw [Exec.bind_of_ok (Exec.get_apply p)]
  split
  · -- a full cache gives up one page, and nothing is pinned that could stop it
    next hfull =>
    obtain ⟨q, victim, hrun, hidle, hless⟩ := h.evictPage fun hnil => by
      rw [hnil] at hfull
      exact absurd hfull (Nat.not_le_of_lt h.capacity)
    refine ⟨_, hrun, hidle, rfl, Nat.lt_of_lt_of_le hless h.bounded, ?_⟩
    intro id hl
    show (p.pageTable.erase victim).lookup id = none
    by_cases hid : id = victim
    · rw [hid, AList.lookup_erase]
    · rw [AList.lookup_erase_ne hid, hl]
  · next hroom => exact ⟨p, rfl, h, rfl, Nat.lt_of_not_le hroom, fun _ hl => hl⟩

/-- **A fetch** hands out a node of the file, or it fails: a read failed, or the file has no node
there. -/
theorem Idle.fetchPage (h : Idle file p) {id : PageId}
    (hdecodes : ∀ page, file.readAt id.val.toNat pageSize = some page →
      (BTreeNode.decode page).isSome) :
    (∃ f node p', fetchPage id p = some (.ok f, p') ∧ ReadOnly file p' ∧ p'.held = [f] ∧
      p'.frames[f]? = some node ∧ file.nodeAt id.val.toNat = some node ∧
      (p.diskManager.faults = [] → p'.diskManager.faults = [])) ∨
    ∃ e p', fetchPage id p = some (.error e, p') ∧
      (p.diskManager.faults = [] → file.nodeAt id.val.toNat = none) := by
  unfold BufferPool.fetchPage
  rw [Exec.bind_of_ok (Exec.get_apply p)]
  cases hl : p.pageTable.lookup id with
  -- a hit only moves the page in the recency order
  | some f =>
    obtain ⟨node, hf, hnode⟩ := h.copies id f hl
    obtain ⟨q, hq, htracked⟩ := h.tracked.exists_recorded (AList.mem_of_lookup hl)
    dsimp only
    rw [Exec.bind_of_ok (recordAccess_eq hq)]
    refine .inl ⟨f, node, _, rfl, { h with tracked := htracked }, ?_, hf, hnode, fun hno => hno⟩
    show f :: p.held = [f]
    rw [h.unpinned]
  | none =>
    obtain ⟨p₁, hroom, h₁, hdisk, hlt, hnone⟩ := h.makeRoom
    dsimp only
    rw [Exec.bind_of_ok hroom]
    rw [← h₁.file_eq] at hdecodes ⊢
    -- a miss makes room, reads the page and decodes it; each step may fail, none may not return
    rcases readPage_returns id p₁.diskManager with ⟨page, d, hrun, hpage⟩ | ⟨e, d, hrun, hpage⟩
    · obtain ⟨hfile, -, hfaults, -⟩ := readPage_outcome hrun
      have hread : disk (DiskManager.readPage id) p₁ =
          some (.ok page, { p₁ with diskManager := d }) := Exec.zoom_of_some hrun
      obtain ⟨r, hdecode⟩ := Option.isSome_iff_exists.mp (hdecodes page hpage)
      have hdecodePage : decodePage page { p₁ with diskManager := d } =
          some (r, { p₁ with diskManager := d }) := by
        rw [decodePage, hdecode]
        rfl
      have hnode : p₁.diskManager.file.nodeAt id.val.toNat = r.toOption := by
        rw [DataFile.nodeAt, hpage, Option.bind_some, hdecode]
        cases r <;> rfl
      rw [Exec.bind_of_ok hread]
      cases r with
      | error e =>
        rw [Exec.bind_of_error hdecodePage]
        exact .inr ⟨e, _, rfl, fun _ => hnode⟩
      | ok node =>
        have h₂ : Idle p₁.diskManager.file { p₁ with diskManager := d } :=
          { h₁ with
            file_eq := hfile
            copies := h₁.file_eq ▸ h₁.copies }
        obtain ⟨q, hinst, hready⟩ := h₂.install (hnone id hl) hlt hnode
        rw [Exec.bind_of_ok hdecodePage, hinst]
        refine .inl ⟨_, node, _, rfl, hready, ?_, ?_, hnode, fun hno => hfaults (hdisk ▸ hno)⟩
        · show p₁.frames.length :: p₁.held = [p₁.frames.length]
          rw [h₁.unpinned]
        · show (p₁.frames ++ [node])[p₁.frames.length]? = some node
          simp
    · have hread : disk (DiskManager.readPage id) p₁ =
          some (.error e, { p₁ with diskManager := d }) := Exec.zoom_of_some hrun
      rw [Exec.bind_of_error hread]
      refine .inr ⟨e, _, rfl, fun hno => ?_⟩
      rw [DataFile.nodeAt, hpage (hdisk ▸ hno)]
      rfl

end Flusher

end BufferPool

/-! ### The loop -/

namespace BpTree

open BufferPool

section Loop

variable {φ : Type} [WalFlusher φ] {file : DataFile} {p : BufferPool φ} {rowId : UInt64}
  {id : PageId}

/-- **One round of the loop** goes on where the file routes, or it is the last one. -/
theorem visit_returns (h : Idle file p) (hdecodes : file.DecodesFrom rowId id) :
    (∃ next p', visit id rowId p = some (.ok (.descend next), p') ∧
      file.routeFrom rowId id = some next ∧ Idle file p' ∧
      (p.diskManager.faults = [] → p'.diskManager.faults = [])) ∨
    ∃ r p', visit id rowId p = some (r, p') ∧ (∀ next, r ≠ .ok (.descend next)) ∧
      (p.diskManager.faults = [] → file.routeFrom rowId id = none) := by
  rcases h.fetchPage fun page hread => hdecodes 0 id page rfl hread with
    ⟨f, node, p₁, hrun, h₁, hheld, hf, hnode, hfaults⟩ | ⟨e, p₁, hrun, hnone⟩
  · have hidle : Idle file { p₁ with held := p₁.held.erase f } :=
      { h₁ with
        unpinned := by
          show p₁.held.erase f = []
          rw [hheld, List.erase_cons_head] }
    have hplaced := (DataFile.placed_of_nodeAt hnode).1
    -- the node read is a decoded one, so its search stays inside its slots
    cases node with
    | internal node =>
      obtain ⟨next, hroute⟩ := InternalNode.IsPlaced.routeKey_returns hplaced rowId
      have hvisit := visit_of_fetch hrun hf (visitNode_of_route hroute p₁)
      refine .inl ⟨next, _, hvisit, ?_, hidle, hfaults⟩
      rw [DataFile.routeFrom, hnode]
      dsimp only
      rw [hroute]
    | leaf node =>
      obtain ⟨record, hget⟩ := (LeafNode.IsPlaced.inRange hplaced).getRecord_returns rowId
      have hvisit := visit_of_fetch hrun hf (visitNode_of_record hget p₁)
      refine .inr ⟨_, _, hvisit, fun next heq => ?_, fun _ => ?_⟩
      · cases heq
      · rw [DataFile.routeFrom, hnode]
  · refine .inr ⟨.error e, p₁, Exec.bind_of_error hrun, fun next heq => ?_, fun hno => ?_⟩
    · cases heq
    · rw [DataFile.routeFrom, hnone hno]

/-- The loop ends when the walk does, after as many rounds at most. -/
theorem findRecordLoop_returns (h : Idle file p) (hdecodes : file.DecodesFrom rowId id) {n : ℕ}
    (hend : Walk.after (file.routeFrom rowId) id n = none) :
    ∃ r p', ∀ fuel, n ≤ fuel → findRecordLoop rowId fuel id p = some (r, p') := by
  -- by induction on the length of the walk, for any place on it and any pool
  induction n generalizing id p with
  | zero => cases hend
  | succ n ih =>
    have hsucc : ∀ {fuel}, n + 1 ≤ fuel → ∃ m, fuel = m + 1 ∧ n ≤ m := fun {fuel} hfuel =>
      ⟨fuel - 1, by omega⟩
    rcases visit_returns h hdecodes with
      ⟨next, p₁, hrun, hnext, h₁, -⟩ | ⟨r, p₁, hrun, hlast, -⟩
    · rw [Walk.after_succ_of_next hnext] at hend
      obtain ⟨r, p', hloop⟩ := ih h₁ (hdecodes.next hnext) hend
      refine ⟨r, p', fun fuel hfuel => ?_⟩
      obtain ⟨m, rfl, hm⟩ := hsucc hfuel
      unfold findRecordLoop
      rw [Exec.bind_of_ok hrun]
      exact hloop m hm
    · cases r with
      | error e =>
        refine ⟨.error e, p₁, fun fuel hfuel => ?_⟩
        obtain ⟨m, rfl, -⟩ := hsucc hfuel
        exact Exec.bind_of_error hrun
      | ok v =>
        cases v with
        | descend next => exact absurd rfl (hlast next)
        | found record =>
          refine ⟨.ok record, p₁, fun fuel hfuel => ?_⟩
          obtain ⟨m, rfl, -⟩ := hsucc hfuel
          exact Exec.bind_of_ok hrun

/-- The loop goes on as long as the walk does, if no read fails. -/
theorem findRecordLoop_eq_none (h : Idle file p) (hdecodes : file.DecodesFrom rowId id)
    (hno : p.diskManager.faults = []) (hgoes : ∀ n, Walk.after (file.routeFrom rowId) id n ≠ none)
    (fuel : ℕ) : findRecordLoop rowId fuel id p = none := by
  induction fuel generalizing id p with
  | zero => rfl
  | succ fuel ih =>
    -- without faults every visit goes on to the next page, so the fuel runs out
    rcases visit_returns h hdecodes with
      ⟨next, p₁, hrun, hnext, h₁, hfaults⟩ | ⟨r, p₁, -, -, hnone⟩
    · unfold findRecordLoop
      rw [Exec.bind_of_ok hrun]
      apply ih h₁ (hdecodes.next hnext) (hfaults hno)
      intro n
      rw [← Walk.after_succ_of_next hnext]
      exact hgoes (n + 1)
    · apply absurd _ (hgoes 1)
      rw [Walk.after_succ, Walk.after_zero, Option.bind_some, hnone hno]

/-- **When a lookup ends.** On a pool that was just opened, over any file and with room for a
page, `find_record` returns if the walk along its page ids does not return to a page, after at
most one round for each byte of the file and one more. If the walk returns, and no read fails,
`find_record` never does. -/
theorem findRecord_returns_iff (self : BpTree) (rowId : UInt64) (d : DiskManager)
    {capacity : ℕ} (hcap : 0 < capacity) (w : Option φ)
    (hdecodes : d.file.DecodesFrom rowId self.rootPageId) :
    (¬ Walk.Returns (d.file.routeFrom rowId) self.rootPageId →
      ∃ r p', ∀ fuel, d.file.len + 1 ≤ fuel →
        self.findRecord fuel rowId (BufferPool.new d capacity w) = some (r, p')) ∧
    (Walk.Returns (d.file.routeFrom rowId) self.rootPageId → d.faults = [] →
      ∀ fuel, self.findRecord fuel rowId (BufferPool.new d capacity w) = none) := by
  have hidle : Idle d.file (BufferPool.new d capacity w) := .new d hcap w
  constructor
  · intro hreturns
    apply findRecordLoop_returns hidle hdecodes
    -- the pages that lead on lie inside the file, so there are finitely many
    apply Walk.after_eq_none PageId.toNat_injective _ hreturns
    intro id
    exact DataFile.lt_of_routeFrom
  · intro hreturns hno fuel
    exact findRecordLoop_eq_none hidle hdecodes hno hreturns.after_ne_none fuel

end Loop

/-! ### A file of zeros -/

namespace Zeros

/-- One page of zeros. It is an internal page without entries, whose rightmost child is itself. -/
def file : DataFile := ⟨pageSize, fun _ => 0⟩

def pool : BufferPool Empty := BufferPool.new ⟨file, .default, []⟩ 1 none

theorem decodes : file.DecodesFrom 0 ⟨0⟩ := by
  intro n id page _ hread
  have hlen := (DataFile.readAt_eq_some.mp hread).1
  have hblank : file.Blank id.val.toNat := fun _ _ _ _ => rfl
  rw [hblank.readAt hlen, Option.some.injEq] at hread
  rw [← hread, DataFile.decode_zero]
  rfl

theorem routeFrom_root : file.routeFrom 0 ⟨0⟩ = some ⟨0⟩ := by
  have hblank : file.Blank 0 := fun _ _ _ _ => rfl
  have hlen : 0 + pageSize ≤ file.len := Nat.le_of_eq (Nat.zero_add _)
  have hnode : file.nodeAt (PageId.mk 0).val.toNat = some zeroNode := hblank.nodeAt_of_len hlen
  unfold DataFile.routeFrom
  rw [hnode]
  rfl

theorem returns : Walk.Returns (file.routeFrom 0) ⟨0⟩ := by
  have hafter : Walk.after (file.routeFrom 0) ⟨0⟩ 1 = Walk.after (file.routeFrom 0) ⟨0⟩ 0 :=
    Walk.after_succ_of_next routeFrom_root 0
  refine ⟨0, 1, Nat.one_pos, hafter.symm, ?_⟩
  rw [Walk.after_zero]
  exact Option.some_ne_none _

end Zeros

theorem findRecord_returns_iff_zeros :
    (¬ Walk.Returns (Zeros.file.routeFrom 0) ⟨0⟩ → ∃ r p', ∀ fuel, Zeros.file.len + 1 ≤ fuel →
      (BpTree.mk ⟨0⟩).findRecord fuel 0 Zeros.pool = some (r, p')) ∧
    (Walk.Returns (Zeros.file.routeFrom 0) ⟨0⟩ → ([] : List (Option ℕ)) = [] →
      ∀ fuel, (BpTree.mk ⟨0⟩).findRecord fuel 0 Zeros.pool = none) :=
  findRecord_returns_iff ⟨⟨0⟩⟩ 0 ⟨Zeros.file, .default, []⟩ Nat.one_pos none Zeros.decodes

/-- On a file of zeros the lookup never ends. -/
theorem findRecord_endless :
    ¬ ∀ (file : DataFile) (rootPageId : PageId) (rowId : UInt64) (capacity : ℕ), 0 < capacity →
      file.DecodesFrom rowId rootPageId → ∃ fuel r p', (BpTree.mk rootPageId).findRecord fuel rowId
        (BufferPool.new ⟨file, .default, []⟩ capacity none : BufferPool Empty) = some (r, p') := by
  intro hall
  obtain ⟨fuel, r, p', hrun⟩ := hall Zeros.file ⟨0⟩ 0 1 Nat.one_pos Zeros.decodes
  have hidle : Idle Zeros.file Zeros.pool := .new ⟨Zeros.file, .default, []⟩ Nat.one_pos none
  have hnone : (BpTree.mk ⟨0⟩).findRecord fuel 0 Zeros.pool = none :=
    findRecordLoop_eq_none hidle Zeros.decodes rfl Zeros.returns.after_ne_none fuel
  rw [show BufferPool.new ⟨Zeros.file, .default, []⟩ 1 none = Zeros.pool from rfl, hnone] at hrun
  cases hrun

end BpTree

end SmolDb
