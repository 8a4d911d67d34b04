import SmolDb.Pool.Reopen
import SmolDb.Pool.Session
import SmolDb.Tree.Chain
import SmolDb.Tree.Insert

/-!
# A checkpoint survives a restart

The clients of a session also call `insert_leaf`. A call that succeeds works on up to three pages:
the target, the leaf it makes when it splits the target, and the leaf behind the target, to which
it follows the forward pointer. It marks all of them dirty. To the invariant of a session the call
is a number of its steps: fetches, a new page, dirty nodes written into the frames it holds, and
drops. What has to be added is where forward pointers lead (`Chained`), because the call fetches
the page behind the target.

When `flush_all_pages` returns `Ok`, every page that was marked has its last content in the file,
and the next process finds it there (`checkpoint_survives`), whatever was evicted before.
-/

namespace SmolDb

open WriteBack BufferPool LeafNode

variable {φ : Type}

namespace BTreeNode

/-- The page a forward pointer leads to. -/
def next : BTreeNode → Option PageId
  | .leaf node => node.links.next
  | .internal _ => none

def isLeaf : BTreeNode → Bool
  | .leaf _ => true
  | .internal _ => false

@[simp] theorem next_bare (self : BTreeNode) : self.bare.next = self.next := by
  cases self with
  | leaf node => rfl
  | internal node => rfl

@[simp] theorem isLeaf_bare (self : BTreeNode) : self.bare.isLeaf = self.isLeaf := by
  cases self with
  | leaf node => rfl
  | internal node => rfl

@[simp] theorem next_markDirty (lsn : UInt64) (self : BTreeNode) :
    (self.markDirty lsn).next = self.next := by
  cases self with
  | leaf node => rfl
  | internal node => rfl

@[simp] theorem isLeaf_markDirty (lsn : UInt64) (self : BTreeNode) :
    (self.markDirty lsn).isLeaf = self.isLeaf := by
  cases self with
  | leaf node => rfl
  | internal node => rfl

theorem next_congr {x y : BTreeNode} (h : x.bare = y.bare) : x.next = y.next := by
  rw [← next_bare, h, next_bare]

theorem isLeaf_congr {x y : BTreeNode} (h : x.bare = y.bare) : x.isLeaf = y.isLeaf := by
  rw [← isLeaf_bare, h, isLeaf_bare]

theorem eq_leaf_of_isLeaf {x : BTreeNode} (h : x.isLeaf = true) : ∃ leaf, x = .leaf leaf := by
  cases x with
  | leaf leaf => exact ⟨leaf, rfl⟩
  | internal node => cases h

theorem next_newEmpty (id : PageId) (isLeaf : Bool) : (newEmpty id isLeaf).next = none := by
  cases isLeaf with
  | true => rfl
  | false => rfl

end BTreeNode

namespace Session

/-- What memory has of a page, if it has anything. -/
def seen (p : BufferPool φ) (id : PageId) (old : BTreeNode) : BTreeNode :=
  match (p.line id).cached with
  | some (_, c, _) => c
  | none => old

/-- The page a successful `insert_leaf` has made. -/
def madeBy (res : Option SplitResult) : List PageId := (res.map SplitResult.newPageId).toList

/-- The pages a successful `insert_leaf` has written: the target, and after a split the new leaf
and the one behind the target. -/
def touched (target : PageId) (leaf : BTreeNode) : Option SplitResult → List PageId
  | none => [target]
  | some split => target :: split.newPageId :: leaf.next.toList

/-- The session after a successful `insert_leaf`. -/
def inserted (s : Session φ) (target : PageId) (res : Option SplitResult) (p' : BufferPool φ) :
    Session φ where
  pool := p'
  loans := s.loans
  made := madeBy res ++ s.made
  last id := if id ∈ touched target (s.last target) res then seen p' id (s.last id) else s.last id
  pending := s.pending.filter (· ∉ touched target (s.last target) res)
  marked := touched target (s.last target) res ++ s.marked

section Flusher

variable [WalFlusher φ]

/-- The sessions in which clients also call `insert_leaf`, successfully. -/
inductive Runs (capacity : ℕ) : Session φ → Prop
  | start (w : Option φ) : Runs capacity (start capacity w)
  | work {s s' : Session φ} (h : Runs capacity s) (hstep : Works (fun _ _ => True) s s') :
      Runs capacity s'
  | insert {s : Session φ} {t : BpTree} {target : PageId} {rowId lsn : UInt64}
      {payload : List UInt8} {res : Option SplitResult} {p' : BufferPool φ} (h : Runs capacity s)
      (hknown : target ∈ s.made)
      (hrun : t.insertLeaf target rowId payload lsn s.pool = some (.ok res, p')) :
      Runs capacity (s.inserted target res p')

end Flusher

/-! ### Forward pointers -/

/-- A forward pointer leads to a leaf that was marked. -/
def Chained (s : Session φ) : Prop :=
  ∀ id ∈ s.made, ∀ n, (s.last id).next = some n → n ∈ s.marked ∧ (s.last n).isLeaf = true

/-- The pointers of a later state lead where they led before, or to a leaf that is marked by now. -/
theorem Chained.later {s s' : Session φ} (h : Chained s)
    (hmarked : ∀ id ∈ s.marked, id ∈ s'.marked)
    (hleaf : ∀ id ∈ s.marked, (s.last id).isLeaf = true → (s'.last id).isLeaf = true)
    (hnext : ∀ id ∈ s'.made, ∀ n, (s'.last id).next = some n →
      (∃ id₀ ∈ s.made, (s.last id₀).next = some n) ∨
        n ∈ s'.marked ∧ (s'.last n).isLeaf = true) : Chained s' := by
  intro id hid n hn
  rcases hnext id hid n hn with ⟨id₀, hid₀, hn₀⟩ | hlater
  · obtain ⟨hold, holdLeaf⟩ := h id₀ hid₀ n hn₀
    exact ⟨hmarked n hold, hleaf n hold holdLeaf⟩
  · exact hlater

/-- A page gets another content with the same forward pointer. -/
theorem Chained.update {s s' : Session φ} (h : Chained s) {id : PageId} {c : BTreeNode}
    (hmade : s'.made = s.made) (hlast : s'.last = Function.update s.last id c)
    (hmarked : ∀ id ∈ s.marked, id ∈ s'.marked)
    (hleaf : id ∈ s.marked → (s.last id).isLeaf = true → c.isLeaf = true)
    (hnext : ∀ n, c.next = some n → (s.last id).next = some n) : Chained s' := by
  refine h.later hmarked (fun id' hid' hl => ?_) fun id' hid' n hn => ?_
  · rw [hlast]
    by_cases heq : id' = id
    · subst heq
      rw [Function.update_self]
      exact hleaf hid' hl
    · rw [Function.update_of_ne heq]
      exact hl
  · -- the new content points where the old one did, and the others are as they were
    rw [hmade] at hid'
    rw [hlast] at hn
    by_cases heq : id' = id
    · subst heq
      rw [Function.update_self] at hn
      exact .inl ⟨id', hid', hnext n hn⟩
    · rw [Function.update_of_ne heq] at hn
      exact .inl ⟨id', hid', hn⟩

variable {s s' : Session φ} {id target n : PageId} {f g : Frame} {p₁ p₂ p' : BufferPool φ}
  {rowId lsn : UInt64} {payload : List UInt8}

theorem seen_of_lookup {node old : BTreeNode} (hl : p'.pageTable.lookup id = some f)
    (hf : p'.frames[f]? = some node) : seen p' id old = node.bare := by
  unfold seen
  rw [congrArg Line.cached (line_of_lookup hl hf)]

/-- What the steps of a call have to come to. -/
theorem inserted_of_steps {s₁ : Session φ} {res : Option SplitResult}
    (hr : Remembers Unwritten s₁) (hc : Chained s₁)
    (hlending : s₁.toLending = ⟨p', s.loans, madeBy res ++ s.made⟩)
    (hin : ∀ id ∈ touched target (s.last target) res, s₁.last id = seen p' id (s.last id))
    (hout : ∀ id, id ∉ touched target (s.last target) res → s₁.last id = s.last id)
    (hpending : ∀ id, id ∈ s₁.pending ↔
      id ∈ s.pending ∧ id ∉ touched target (s.last target) res)
    (hmarked : ∀ id, id ∈ s₁.marked ↔
      id ∈ touched target (s.last target) res ∨ id ∈ s.marked) :
    Remembers Unwritten (s.inserted target res p') ∧ Chained (s.inserted target res p') := by
  -- what the call leaves in memory is what its steps have last written
  have hlast : (s.inserted target res p').last = s₁.last := by
    funext id
    show (if id ∈ touched target (s.last target) res then seen p' id (s.last id)
      else s.last id) = s₁.last id
    by_cases hid : id ∈ touched target (s.last target) res
    · rw [if_pos hid, hin id hid]
    · rw [if_neg hid, hout id hid]
  have hmarked' : ∀ id, id ∈ (s.inserted target res p').marked ↔ id ∈ s₁.marked := by
    intro id
    rw [hmarked]
    exact List.mem_append
  constructor
  · refine hr.congr hlending.symm (fun id => congrFun hlast id) (fun id => ?_) hmarked'
    rw [hpending]
    show id ∈ s.pending.filter _ ↔ _
    rw [List.mem_filter, decide_eq_true_iff]
  · intro id hid m hm
    have hmade : id ∈ s₁.made := by
      rw [congrArg Lending.made hlending]
      exact hid
    rw [hlast] at hm ⊢
    obtain ⟨hold, hleaf⟩ := hc id hmade m hm
    exact ⟨(hmarked' m).mpr hold, hleaf⟩

/-- The forward pointers after a split: the new leaf is between the target and the page that was
behind it. -/
theorem Chained.split (hc : Chained s) {s₁ : Session φ} (hknown : target ∈ s.made)
    (hmade : s₁.made = n :: s.made) (hnew : n ∈ s₁.marked)
    (hmarked : ∀ id ∈ s.marked, id ∈ s₁.marked)
    (hleft : (s₁.last target).next = some n ∧ (s₁.last target).isLeaf = true)
    (hright : (s₁.last n).next = (s.last target).next ∧ (s₁.last n).isLeaf = true)
    (hold : ∀ m, (s.last target).next = some m →
      (s₁.last m).next = (s.last m).next ∧ (s₁.last m).isLeaf = true)
    (hout : ∀ id, id ≠ target → id ≠ n → (s.last target).next ≠ some id →
      s₁.last id = s.last id) : Chained s₁ := by
  -- the pages of the split are the target, the new leaf and the one behind; the rest is untouched
  refine hc.later hmarked (fun id hid hl => ?_) fun id hid m hm => ?_
  · by_cases hidLeft : id = target
    · rw [hidLeft]
      exact hleft.2
    · by_cases hidRight : id = n
      · rw [hidRight]
        exact hright.2
      · by_cases hidOld : (s.last target).next = some id
        · exact (hold id hidOld).2
        · rw [hout id hidLeft hidRight hidOld]
          exact hl
  · by_cases hidRight : id = n
    · -- the new leaf has taken over the pointer of the target
      rw [hidRight, hright.1] at hm
      exact .inl ⟨target, hknown, hm⟩
    · rw [hmade] at hid
      have hbefore := (List.mem_cons.mp hid).resolve_left hidRight
      by_cases hidLeft : id = target
      · -- the target points to the new leaf
        rw [hidLeft, hleft.1] at hm
        obtain rfl := Option.some.inj hm
        exact .inr ⟨hnew, hright.2⟩
      · by_cases hidOld : (s.last target).next = some id
        · rw [(hold id hidOld).1] at hm
          exact .inl ⟨id, hbefore, hm⟩
        · rw [hout id hidLeft hidRight hidOld] at hm
          exact .inl ⟨id, hbefore, hm⟩

section Steps

variable [WalFlusher φ]

theorem Chained.call (h : Chained s) (hr : Remembers Unwritten s) {c : PoolCall}
    {r : Except DbError (Option (PageId × Frame))} {p' : BufferPool φ}
    (hrun : c.run s.pool = some (r, p')) :
    Chained
      { toLending := s.toLending.called c r p'
        last := c.remember r s.last
        pending := s.pending
        marked := s.marked } := by
  -- a call changes what is remembered of no page that was there
  have hold : ∀ id ∈ s.made, c.remember r s.last id = s.last id := fun id hid =>
    hr.remember_of_made hid hrun
  refine h.later (fun _ hid => hid) (fun id hid hl => ?_) fun id hid n hn => .inl ?_
  · show (c.remember r s.last id).isLeaf = true
    rw [hold id (hr.markedMade id hid)]
    exact hl
  · change (c.remember r s.last id).next = some n at hn
    rcases List.mem_append.mp hid with hnew | hbefore
    · -- a new page has no forward pointer
      obtain ⟨isLeaf, f, rfl, hhanded, -⟩ :=
        PoolCall.makes_new hr.lawful.wf hr.lawful.fresh hr.unborn hrun hnew
      rw [PoolCall.remember, hhanded] at hn
      change (Function.update s.last id (BTreeNode.newEmpty id isLeaf) id).next = some n at hn
      rw [Function.update_self, BTreeNode.next_newEmpty] at hn
      cases hn
    · rw [hold id hbefore] at hn
      exact ⟨id, hbefore, hn⟩

/-- A leaf with the same header has the same forward pointer. -/
theorem next_of_sameHeader {a a' : LeafNode} (h : SameHeader a a') :
    (BTreeNode.leaf a'.bare).next = (BTreeNode.leaf a.bare).next := by
  obtain ⟨_, _, _, rfl⟩ := h
  rfl

/-- **The step lemma for the forward pointers.** -/
theorem Chained.step {Allowed : Session φ → PageId → Prop} (h : Chained s)
    (hr : Remembers Unwritten s) (hstep : Works Allowed s s') : Chained s' := by
  have hages := ages_unwritten Allowed
  cases hstep with
  | call hknown hallowed hrun => exact h.call hr hrun
  | @change id f leaf leaf' op hloan hleaf hop =>
    obtain ⟨hlast, hs⟩ := hr.leaf hages hloan hleaf
    refine h.update rfl rfl (fun _ hid => hid) (fun _ _ => rfl) fun n hn => ?_
    rw [hlast, ← next_of_sameHeader ((LeafOp.keeps_call op).header hs hop)]
    exact hn
  | refuse => exact h
  | @split id id' f g a b a' b' r hloan hloan' hne hleaf hleaf' hop =>
    obtain ⟨hlast, hs⟩ := hr.leaf hages hloan hleaf
    obtain ⟨hlast', hs'⟩ := hr.leaf hages hloan' hleaf'
    obtain ⟨⟨-, hheader⟩, -, hheader'⟩ := hs.split_keeps hs' hop
    have hids : id' ≠ id := (hr.ne_of_frame hloan hloan' hne).symm
    -- cutting the records of a leaf moves none of its pointers, in either half
    have hfirst : Chained { s with last := Function.update s.last id (.leaf a'.bare) } := by
      refine h.update rfl rfl (fun _ hid => hid) (fun _ _ => rfl) fun n hn => ?_
      rw [hlast, ← next_of_sameHeader hheader]
      exact hn
    refine hfirst.update rfl rfl (fun _ hid => hid) (fun _ _ => rfl) fun n hn => ?_
    show (Function.update s.last id (.leaf a'.bare) id').next = some n
    rw [Function.update_of_ne hids, hlast', ← next_of_sameHeader hheader']
    exact hn
  | @mark id f node hloan hnode lsn =>
    refine h.update rfl rfl (fun _ hid => List.mem_cons_of_mem _ hid) (fun hmarked hl => ?_)
      fun n hn => ?_
    · rw [BTreeNode.isLeaf_bare, BTreeNode.isLeaf_markDirty, ← BTreeNode.isLeaf_bare,
        hr.known hloan hnode (.inr hmarked)]
      exact hl
    · rw [BTreeNode.next_bare, BTreeNode.next_markDirty, ← BTreeNode.next_bare] at hn
      rcases hr.content hages hloan hnode with hlast | hzero
      · rw [← hlast]
        exact hn
      · -- the page of zeros has no forward pointer
        rw [hzero] at hn
        cases hn
  | clone => exact h
  | drop => exact h
  | relog w => exact h

/-! ### A call of `insert_leaf`, in steps -/

theorem Remembers.fetch (hr : Remembers Unwritten s) (hknown : id ∈ s.made)
    (hfetch : fetchPage id s.pool = some (.ok f, p₁)) :
    Remembers Unwritten { s with pool := p₁, loans := (id, f) :: s.loans } :=
  hr.call (c := .fetchPage id) (ages_unwritten fun _ _ => True)
    (fun id' hid' => by cases hid'; exact hknown) (fun _ _ => trivial) (Exec.bind_of_ok hfetch)

theorem Remembers.make (hr : Remembers Unwritten s) {isLeaf : Bool}
    (hnew : newPage isLeaf s.pool = some (.ok (n, g), p₂)) :
    Remembers Unwritten
      { s with
        pool := p₂
        loans := (n, g) :: s.loans
        made := n :: s.made
        last := Function.update s.last n (BTreeNode.newEmpty n isLeaf) } :=
  hr.call (c := .newPage isLeaf) (ages_unwritten fun _ _ => True) nofun nofun
    (Exec.bind_of_ok hnew)

theorem Remembers.giveBack (hr : Remembers Unwritten s) {loans : List (PageId × Frame)}
    (hloans : s.loans = (id, f) :: loans) (hdone : id ∉ s.pending) :
    Remembers Unwritten
      { s with pool := { s.pool with held := s.pool.held.erase f }, loans } := by
  have hloan : (id, f) ∈ s.loans := hloans ▸ List.mem_cons_self ..
  have hdrop := hr.step (ages_unwritten fun _ _ => True) (.drop hloan (.inl hdone))
  rw [hloans, List.erase_cons_head] at hdrop
  exact hdrop

/-- The record fits: the target is fetched, overwritten and dropped. -/
theorem Remembers.insertWhole (hr : Remembers Unwritten s) (hc : Chained s)
    (hknown : target ∈ s.made) (hfetch : fetchPage target s.pool = some (.ok f, p₁))
    {a a' : LeafNode} (hleaf : p₁.frames[f]? = some (.leaf a))
    (hinsert : insertRecord rowId payload a = some (.ok (), a')) {p' : BufferPool φ}
    (hp' : p' = { p₁.withNode f (BTreeNode.markDirty lsn (.leaf a')) with
      held := p₁.held.erase f }) :
    Remembers Unwritten (s.inserted target none p') ∧ Chained (s.inserted target none p') := by
  subst hp'
  have hr₁ := hr.fetch hknown hfetch
  have hloan : (target, f) ∈ (target, f) :: s.loans := List.mem_cons_self ..
  obtain ⟨hlast, hs⟩ := hr₁.leaf (ages_unwritten fun _ _ => True) hloan hleaf
  have hs' : (BTreeNode.leaf a').IsSlotted :=
    (keeps_insertRecord rowId payload).slotted hs hinsert
  have hr₂ := hr₁.overwrite hloan hleaf (hs'.markDirty lsn) (BTreeNode.isDirty_markDirty lsn _)
  have hgone : target ∉ s.pending.filter (· ≠ target) := by simp
  have hr₃ := hr₂.giveBack rfl hgone
  -- only the target is touched, and its pointers stay
  refine inserted_of_steps hr₃ ?_ rfl ?_ ?_ ?_ ?_
  · refine hc.update rfl rfl (fun _ hid => List.mem_cons_of_mem _ hid) (fun _ _ => rfl) ?_
    intro m hm
    have hheader := (keeps_insertRecord rowId payload).header hs hinsert
    rw [show s.last target = .leaf a.bare from hlast, ← next_of_sameHeader hheader]
    exact hm
  · intro id hid
    obtain rfl : id = target := List.mem_singleton.mp hid
    show Function.update s.last id _ id = _
    rw [Function.update_self]
    exact (seen_of_lookup (hr₂.lawful.loans id f hloan) (frames_withNode_self hleaf)).symm
  · intro id hid
    exact Function.update_of_ne (fun heq => hid (List.mem_singleton.mpr heq)) _ _
  · intro id
    show id ∈ s.pending.filter (· ≠ target) ↔ id ∈ s.pending ∧ id ∉ [target]
    simp
  · intro id
    show id ∈ target :: s.marked ↔ id ∈ [target] ∨ id ∈ s.marked
    simp

/-- The record does not fit: the target and a new leaf are held. -/
theorem Remembers.insertSplitting (hr : Remembers Unwritten s) (hknown : target ∈ s.made)
    (hfetch : fetchPage target s.pool = some (.ok f, p₁)) {a a' : LeafNode}
    (hleaf : p₁.frames[f]? = some (.leaf a))
    (hinsert : insertRecord rowId payload a = some (.error .pageFull, a'))
    (hnew : newPage true (p₁.withNode f (.leaf a')) = some (.ok (n, g), p₂)) :
    Remembers Unwritten
        { s with
          pool := p₂
          loans := (n, g) :: (target, f) :: s.loans
          made := n :: s.made
          last := Function.update s.last n (.leaf (newEmpty n)) } ∧
      n ∉ s.made ∧ f ≠ g ∧ p₂.frames[g]? = some (.leaf (newEmpty n)) ∧
      ∃ a₀ : LeafNode, p₂.frames[f]? = some (.leaf a₀) ∧ s.last target = .leaf a₀.bare ∧
        a₀.IsSlotted := by
  have hr₁ := hr.fetch hknown hfetch
  have hloan : (target, f) ∈ (target, f) :: s.loans := List.mem_cons_self ..
  obtain ⟨hlast, hs⟩ := hr₁.leaf (ages_unwritten fun _ _ => True) hloan hleaf
  -- the call that found no room has changed nothing
  obtain rfl := (keeps_insertRecord rowId payload).unchanged hs hinsert
  rw [withNode_self hleaf] at hnew
  have hr₂ := hr₁.make hnew
  have hc := (hr₁.lawful.wf.newPage hr₁.lawful.fresh hnew).2.2 n g rfl
  have hnotMade : n ∉ s.made := fun hmade => (hr₁.lawful.made n hmade).ne_new hc.offset rfl
  have halloc := hr₁.lawful.made target hknown
  have hlook : p₁.pageTable.lookup target = some f := hr₁.lawful.loans target f hloan
  have hlook₂ : p₂.pageTable.lookup target = some f :=
    hr₂.lawful.loans target f (List.mem_cons_of_mem _ hloan)
  obtain ⟨node, hnode, hbare⟩ := hc.untouched.frame hr₂.lawful.wf halloc.aligned halloc.ne_zero
    hlook (hr₁.lawful.mem_held hloan) hlook₂ hleaf
  refine ⟨hr₂, hnotMade, ?_, hc.frame, ?_⟩
  · rintro rfl
    have heq := hr₂.lawful.wf.inj target n f hlook₂ hc.lookup
    exact hnotMade (heq ▸ hknown)
  · cases node with
    | internal node => cases hbare
    | leaf a₀ =>
      have hbare₀ : a₀.bare = a'.bare := BTreeNode.leaf.inj hbare
      refine ⟨a₀, hnode, ?_, ?_⟩
      · rw [hbare₀]
        exact hlast
      · have hs₀ : a₀.bare.IsSlotted := hbare₀ ▸ hs
        exact hs₀

/-- The end of a split: both leaves are overwritten and their frames given back. The page behind
the target, if there is one, was seen to before. -/
theorem Remembers.finishSplit (hc : Chained s) (hknown : target ∈ s.made) (hnt : target ≠ n)
    {s₃ : Session φ} (hr : Remembers Unwritten s₃)
    (hloans : s₃.loans = (n, g) :: (target, f) :: s.loans) (hmade : s₃.made = n :: s.made)
    (hmarked : ∀ id, id ∈ s₃.marked ↔ (s.last target).next = some id ∨ id ∈ s.marked)
    (hpending : ∀ id, id ≠ target → id ≠ n →
      (id ∈ s₃.pending ↔ id ∈ s.pending ∧ (s.last target).next ≠ some id))
    (hout : ∀ id, id ≠ target → id ≠ n → (s.last target).next ≠ some id →
      s₃.last id = s.last id)
    (hold : ∀ m, (s.last target).next = some m →
      m ≠ target ∧ m ≠ n ∧ (s₃.last m).next = (s.last m).next ∧ (s₃.last m).isLeaf = true ∧
        ∃ o node, s₃.pool.pageTable.lookup m = some o ∧ s₃.pool.frames[o]? = some node ∧
          node.bare = s₃.last m)
    {x₀ y₀ x y : BTreeNode} (hF : s₃.pool.frames[f]? = some x₀)
    (hG : s₃.pool.frames[g]? = some y₀) (hx : x.IsSlotted) (hy : y.IsSlotted)
    (hxdirty : x.isDirty = true) (hydirty : y.isDirty = true)
    (hxnext : x.next = some n ∧ x.isLeaf = true)
    (hynext : y.next = (s.last target).next ∧ y.isLeaf = true) (promoted : UInt64)
    {p' : BufferPool φ}
    (hp' : p' = { (s₃.pool.withNode f x).withNode g y with
      held := (s₃.pool.held.erase g).erase f }) :
    Remembers Unwritten (s.inserted target (some ⟨promoted, n⟩) p') ∧
      Chained (s.inserted target (some ⟨promoted, n⟩) p') := by
  subst hp'
  have hloanG : (n, g) ∈ s₃.loans := hloans ▸ List.mem_cons_self ..
  have hloanF : (target, f) ∈ s₃.loans := hloans ▸ List.mem_cons_of_mem _ (List.mem_cons_self ..)
  have hlookF := hr.lawful.loans target f hloanF
  have hlookG := hr.lawful.loans n g hloanG
  have hne : f ≠ g := by
    rintro rfl
    exact hnt (hr.lawful.wf.inj _ _ _ hlookF hlookG)
  have hG' : (s₃.pool.withNode f x).frames[g]? = some y₀ := by
    rw [frames_withNode_of_ne hne]
    exact hG
  set q := (s₃.pool.withNode f x).withNode g y with hq
  -- write the target, write the new leaf, give back the new leaf, give back the target
  have hr₄ := hr.overwrite hloanF hF hx hxdirty
  have hr₅ := hr₄.overwrite hloanG hG' hy hydirty
  have hr₆ := hr₅.giveBack hloans (by simp)
  have hr₇ := hr₆.giveBack rfl (by simp)
  let last' := Function.update (Function.update s₃.last target x.bare) n y.bare
  have hlastLeft : last' target = x.bare :=
    (Function.update_of_ne hnt _ _).trans (Function.update_self ..)
  have hlastRight : last' n = y.bare := Function.update_self ..
  have hlastOther : ∀ id, id ≠ target → id ≠ n → last' id = s₃.last id := fun id hl hr =>
    (Function.update_of_ne hr _ _).trans (Function.update_of_ne hl _ _)
  have hpages : ∀ id, id ∈ touched target (s.last target) (some ⟨promoted, n⟩) ↔
      id = target ∨ id = n ∨ (s.last target).next = some id := by
    intro id
    show id ∈ target :: n :: (s.last target).next.toList ↔ _
    rw [List.mem_cons, List.mem_cons, Option.mem_toList]
  refine inserted_of_steps hr₇ (hc.split hknown hmade (List.mem_cons_self ..) ?_ ?_ ?_ ?_ ?_)
    ?_ ?_ ?_ ?_ ?_
  · exact fun id hid =>
      List.mem_cons_of_mem _ (List.mem_cons_of_mem _ ((hmarked id).mpr (.inr hid)))
  · -- the target points to the new leaf
    show (last' target).next = some n ∧ (last' target).isLeaf = true
    rw [hlastLeft, BTreeNode.next_bare, BTreeNode.isLeaf_bare]
    exact hxnext
  · -- the new leaf points where the target did
    show (last' n).next = _ ∧ (last' n).isLeaf = true
    rw [hlastRight, BTreeNode.next_bare, BTreeNode.isLeaf_bare]
    exact hynext
  · -- the page behind the target points where it did
    intro m hm
    obtain ⟨hl, hr, hnext, hleaf, -⟩ := hold m hm
    show (last' m).next = _ ∧ (last' m).isLeaf = true
    rw [hlastOther m hl hr]
    exact ⟨hnext, hleaf⟩
  · exact fun id hl hr hno => (hlastOther id hl hr).trans (hout id hl hr hno)
  · show Lending.mk _ _ s₃.made = Lending.mk _ _ _
    rw [hmade]
    rfl
  · intro id hid
    -- each of the three pages is in memory with its last content
    rcases (hpages id).mp hid with rfl | rfl | hnext
    · have hframe : q.frames[f]? = some x := by
        rw [hq, frames_withNode_of_ne hne.symm, frames_withNode_self hF]
      have hseen : seen q id (s.last id) = x.bare := seen_of_lookup hlookF hframe
      exact hlastLeft.trans hseen.symm
    · have hseen : seen q id (s.last id) = y.bare :=
        seen_of_lookup hlookG (frames_withNode_self hG')
      exact hlastRight.trans hseen.symm
    · obtain ⟨hl, hr, -, -, o, node, hlook, hnode, hbare⟩ := hold id hnext
      have hof : f ≠ o := fun heq => hl (hr₇.lawful.wf.inj _ _ f (heq ▸ hlook) hlookF)
      have hog : g ≠ o := fun heq => hr (hr₇.lawful.wf.inj _ _ g (heq ▸ hlook) hlookG)
      have hframe : q.frames[o]? = some node := by
        rw [hq, frames_withNode_of_ne hog, frames_withNode_of_ne hof]
        exact hnode
      have hseen : seen q id (s.last id) = node.bare := seen_of_lookup hlook hframe
      calc last' id = s₃.last id := hlastOther id hl hr
        _ = node.bare := hbare.symm
        _ = seen q id (s.last id) := hseen.symm
  · intro id hid
    rw [hpages, not_or, not_or] at hid
    obtain ⟨hl, hr, hno⟩ := hid
    exact (hlastOther id hl hr).trans (hout id hl hr hno)
  · intro id
    rw [hpages]
    -- nothing is pending any more on the pages of the split
    show id ∈ (s₃.pending.filter (· ≠ target)).filter (· ≠ n) ↔ _
    simp only [List.mem_filter, decide_eq_true_iff]
    constructor
    · rintro ⟨⟨hid, hl⟩, hr⟩
      obtain ⟨hbefore, hno⟩ := (hpending id hl hr).mp hid
      exact ⟨hbefore, by tauto⟩
    · rintro ⟨hid, hno⟩
      obtain ⟨hl, hr, hno⟩ : id ≠ target ∧ id ≠ n ∧ (s.last target).next ≠ some id := by tauto
      exact ⟨⟨(hpending id hl hr).mpr ⟨hid, hno⟩, hl⟩, hr⟩
  · intro id
    rw [hpages]
    show id ∈ n :: target :: s₃.marked ↔ _
    rw [List.mem_cons, List.mem_cons, hmarked]
    tauto

/-- The page behind the target, a leaf marked before, is relinked and given back. Its forward
pointer stays as it was. -/
theorem Remembers.relink (hr : Remembers Unwritten s) {m : PageId} {o : Frame}
    {loans : List (PageId × Frame)} (hloans : s.loans = (m, o) :: loans) {old : BTreeNode}
    (hframe : s.pool.frames[o]? = some old) (hmarked : m ∈ s.marked)
    (hleaf : (s.last m).isLeaf = true) (newLeafId : PageId) (lsn : UInt64) :
    Remembers Unwritten
        { s with
          pool := { s.pool.withNode o (old.relinked newLeafId lsn) with
            held := s.pool.held.erase o }
          loans
          last := Function.update s.last m (old.relinked newLeafId lsn).bare
          pending := s.pending.filter (· ≠ m)
          marked := m :: s.marked } ∧
      (old.relinked newLeafId lsn).next = (s.last m).next ∧
      (old.relinked newLeafId lsn).isLeaf = true := by
  have hloan : (m, o) ∈ s.loans := hloans ▸ List.mem_cons_self ..
  -- a marked page comes back with its last content, which is a leaf
  have hbare : old.bare = s.last m := hr.known hloan hframe (.inr hmarked)
  have hslotted : old.IsSlotted := by
    refine (BTreeNode.isSlotted_bare old).mp ?_
    rw [hbare]
    exact hr.slotted m (hr.markedMade m hmarked)
  rw [← hbare, BTreeNode.isLeaf_bare] at hleaf
  rw [← hbare, BTreeNode.next_bare]
  obtain ⟨oldLeaf, rfl⟩ := BTreeNode.eq_leaf_of_isLeaf hleaf
  have hnew : (BTreeNode.leaf
      { oldLeaf with hasPrev := true, prevPageId := newLeafId.val }).IsSlotted := hslotted
  have hover := hr.overwrite hloan hframe
    (show (BTreeNode.relinked newLeafId lsn (.leaf oldLeaf)).IsSlotted from hnew.markDirty lsn) rfl
  exact ⟨hover.giveBack hloans (by simp), rfl, rfl⟩

/-- With a page behind the target, the two leaves are written while it is fetched; it is relinked
and given back before them. -/
theorem Remembers.insertBetween (hr : Remembers Unwritten s) (hc : Chained s)
    (hknown : target ∈ s.made) (hnt : target ≠ n)
    (hr₂ : Remembers Unwritten
      { s with
        pool := p₂
        loans := (n, g) :: (target, f) :: s.loans
        made := n :: s.made
        last := Function.update s.last n (.leaf (newEmpty n)) })
    (hne : f ≠ g) {a a₂ b₂ : LeafNode} (hF : p₂.frames[f]? = some (.leaf a))
    (hG : p₂.frames[g]? = some (.leaf (newEmpty n))) (hslotLeft : a₂.IsSlotted)
    (hslotRight : b₂.IsSlotted) (hnext : (s.last target).next = a₂.links.next)
    (hmid : a₂.hasNext = true) {p₄ : BufferPool φ} {o : Frame} {old left right : BTreeNode}
    (hfetch : fetchPage ⟨a₂.nextPageId⟩ (p₂.withLeaves f g (a₂.linkedLeft n)
      (b₂.linkedRight target a₂)) = some (.ok o, p₄))
    (hof : o ≠ f) (hog : o ≠ g) (hold : p₄.frames[o]? = some old)
    (hleft : p₄.frames[f]? = some left) (hright : p₄.frames[g]? = some right)
    (promoted : UInt64) {p' : BufferPool φ}
    (hp' : p' = { ((p₄.withNode o (old.relinked n lsn)).withNode f (left.markDirty lsn)).withNode g
      (right.markDirty lsn) with held := ((p₄.held.erase o).erase g).erase f }) :
    Remembers Unwritten (s.inserted target (some ⟨promoted, n⟩) p') ∧
      Chained (s.inserted target (some ⟨promoted, n⟩) p') := by
  set m : PageId := ⟨a₂.nextPageId⟩ with hm
  have hsome : (s.last target).next = some m := by
    rw [hnext, links, hmid]
    rfl
  obtain ⟨hmarked, hmLeaf⟩ := hc target hknown m hsome
  set L := a₂.linkedLeft n with hLdef
  set R := b₂.linkedRight target a₂ with hRdef
  have hL : (BTreeNode.leaf L).IsSlotted := hslotLeft
  have hR : (BTreeNode.leaf R).IsSlotted := hslotRight
  have hG' : (p₂.withNode f (.leaf L)).frames[g]? = some (.leaf (newEmpty n)) := by
    rw [frames_withNode_of_ne hne]
    exact hG
  have hrF := hr₂.write (List.mem_cons_of_mem _ (List.mem_cons_self ..)) hF hL
  have hrG := hrF.write (List.mem_cons_self ..) hG' hR
  have hrO := hrG.fetch (List.mem_cons_of_mem _ (hr.markedMade m hmarked)) hfetch
  have hlookO := hrO.lawful.loans m o (List.mem_cons_self ..)
  have hlookG := hrO.lawful.loans n g (List.mem_cons_of_mem _ (List.mem_cons_self ..))
  have hlookF := hrO.lawful.loans target f
    (List.mem_cons_of_mem _ (List.mem_cons_of_mem _ (List.mem_cons_self ..)))
  have hmt : m ≠ target := fun heq => hof (Option.some.inj (hlookO.symm.trans (heq ▸ hlookF)))
  have hmn : m ≠ n := fun heq => hog (Option.some.inj (hlookO.symm.trans (heq ▸ hlookG)))
  let last' := Function.update (Function.update (Function.update s.last n
    (BTreeNode.leaf (newEmpty n))) target (BTreeNode.leaf L).bare) n (BTreeNode.leaf R).bare
  have hlastOther : ∀ id, id ≠ target → id ≠ n → last' id = s.last id := fun id hl hr => by
    show Function.update (Function.update (Function.update s.last n _) target _) n _ id = _
    rw [Function.update_of_ne hr, Function.update_of_ne hl, Function.update_of_ne hr]
  -- the page behind the target is seen to first, the two leaves are still where they were
  have hleafM : (last' m).isLeaf = true := by
    rw [hlastOther m hmt hmn]
    exact hmLeaf
  obtain ⟨hrD, hnextOld, hleafOld⟩ := hrO.relink rfl hold hmarked hleafM n lsn
  have hF₄ : (p₄.withNode o (old.relinked n lsn)).frames[f]? = some left := by
    rw [frames_withNode_of_ne hof]
    exact hleft
  have hG₄ : (p₄.withNode o (old.relinked n lsn)).frames[g]? = some right := by
    rw [frames_withNode_of_ne hog]
    exact hright
  -- and they have what was written, up to what the fetch did to their frames
  have hbareLeft : left.bare = (BTreeNode.leaf L).bare := by
    refine (hrO.known (List.mem_cons_of_mem _ (List.mem_cons_of_mem _ (List.mem_cons_self ..)))
      hleft (.inl (List.mem_cons_of_mem _ (List.mem_cons_self ..)))).trans ?_
    exact (Function.update_of_ne hnt _ _).trans (Function.update_self ..)
  have hbareRight : right.bare = (BTreeNode.leaf R).bare := by
    refine (hrO.known (List.mem_cons_of_mem _ (List.mem_cons_self ..)) hright
      (.inl (List.mem_cons_self ..))).trans ?_
    exact Function.update_self ..
  have hmarkDirty : ∀ {x y : BTreeNode}, x.bare = y.bare →
      (x.markDirty lsn).next = y.next ∧ (x.markDirty lsn).isLeaf = y.isLeaf :=
    fun {x y} heq => by
      rw [BTreeNode.next_markDirty, BTreeNode.isLeaf_markDirty]
      exact ⟨BTreeNode.next_congr heq, BTreeNode.isLeaf_congr heq⟩
  refine Remembers.finishSplit hc hknown hnt hrD rfl rfl ?_ ?_ ?_ ?_ hF₄ hG₄
    ((BTreeNode.IsSlotted.congr hbareLeft.symm hL).markDirty lsn)
    ((BTreeNode.IsSlotted.congr hbareRight.symm hR).markDirty lsn)
    (BTreeNode.isDirty_markDirty lsn _) (BTreeNode.isDirty_markDirty lsn _)
    (hmarkDirty hbareLeft) ?_ promoted hp'
  · intro id
    rw [hsome, Option.some.injEq]
    show id ∈ m :: s.marked ↔ _
    rw [List.mem_cons, eq_comm]
  · intro id hl hr
    rw [hsome, ne_eq, Option.some.injEq]
    show id ∈ (n :: target :: s.pending).filter (· ≠ m) ↔ _
    simp only [List.mem_filter, List.mem_cons, decide_eq_true_iff, hl, hr, false_or]
    rw [eq_comm]
  · intro id hl hr hno
    rw [hsome] at hno
    have hidm : id ≠ m := fun heq => hno (congrArg some heq.symm)
    exact (Function.update_of_ne hidm _ _).trans (hlastOther id hl hr)
  · intro m' hm'
    rw [hsome] at hm'
    obtain rfl := Option.some.inj hm'
    have hlastM : Function.update last' m (old.relinked n lsn).bare m =
        (old.relinked n lsn).bare := Function.update_self ..
    refine ⟨hmt, hmn, ?_, ?_, o, _, hlookO, frames_withNode_self hold, hlastM.symm⟩
    · show (Function.update last' m _ m).next = _
      rw [hlastM, BTreeNode.next_bare, ← hlastOther m hmt hmn]
      exact hnextOld
    · show (Function.update last' m _ m).isLeaf = true
      rw [hlastM, BTreeNode.isLeaf_bare]
      exact hleafOld
  · rw [hnext]
    exact hmarkDirty hbareRight

/-- **A successful `insert_leaf` keeps the invariant.** -/
theorem Remembers.insert (hr : Remembers Unwritten s) (hc : Chained s) (hknown : target ∈ s.made)
    {t : BpTree} {res : Option SplitResult}
    (hrun : t.insertLeaf target rowId payload lsn s.pool = some (.ok res, p')) :
    Remembers Unwritten (s.inserted target res p') ∧ Chained (s.inserted target res p') := by
  cases BpTree.insertLeaf_outcome hrun with
  | inserted hfetch hleaf hinsert => exact hr.insertWhole hc hknown hfetch hleaf hinsert rfl
  | @split _ f g n p₁ p₂ p₃ a₀ a₀' hfetch hleaf hfull hnew hsplitRun =>
    obtain ⟨hr₂, hn, hne, hG, a, hF, hlast, hs⟩ :=
      hr.insertSplitting hknown hfetch hleaf hfull hnew
    have hnt : target ≠ n := fun heq => hn (heq ▸ hknown)
    have hlastOther : ∀ id, id ≠ n →
        Function.update s.last n (BTreeNode.leaf (newEmpty n)) id = s.last id := fun id hid =>
      Function.update_of_ne hid _ _
    generalize hres : Except.ok res = r at hsplitRun
    cases BpTree.insertSplit_outcome hne hF hG hsplitRun with
    | splitFailed => cases hres
    | insertFailed => cases hres
    | fetchFailed => cases hres
    | @atEnd promoted a₁ b₁ a₂ b₂ hsplit hinsert hend =>
      cases hres
      obtain ⟨hheader, -, hslotLeft, hslotRight⟩ := halves_header hs rfl rfl hsplit hinsert
      -- the cut keeps the pointers of the target, so its end is the end of the lower half
      have hnext : (s.last target).next = a₂.links.next := by
        rw [hlast, ← next_of_sameHeader hheader]
        rfl
      have hnone : (s.last target).next = none := by
        rw [hnext, links, hend]
        rfl
      have hL : (BTreeNode.leaf (a₂.linkedLeft n)).IsSlotted := hslotLeft
      have hR : (BTreeNode.leaf (b₂.linkedRight target a₂)).IsSlotted := hslotRight
      refine Remembers.finishSplit hc hknown hnt hr₂ rfl rfl ?_ ?_ ?_ ?_ hF hG
        (hL.markDirty lsn) (hR.markDirty lsn) (BTreeNode.isDirty_markDirty lsn _)
        (BTreeNode.isDirty_markDirty lsn _) ⟨rfl, rfl⟩ ⟨hnext.symm, rfl⟩ promoted rfl
      · intro id
        rw [hnone]
        exact ⟨.inr, fun h => h.resolve_left nofun⟩
      · intro id _ _
        rw [hnone]
        exact ⟨fun h => ⟨h, nofun⟩, And.left⟩
      · exact fun id _ hid _ => hlastOther id hid
      · intro m hm
        rw [hnone] at hm
        cases hm
    | @between promoted a₁ b₁ a₂ b₂ o p₄ old left right hsplit hinsert hmid hfo hof hog hold hlf
        hrg =>
      cases hres
      obtain ⟨hheader, -, hslotLeft, hslotRight⟩ := halves_header hs rfl rfl hsplit hinsert
      have hnext : (s.last target).next = a₂.links.next := by
        rw [hlast, ← next_of_sameHeader hheader]
        rfl
      exact hr.insertBetween hc hknown hnt hr₂ hne hF hG hslotLeft hslotRight hnext hmid hfo hof hog
        hold hlf hrg promoted rfl

/-- **The run lemma.** -/
theorem Runs.invariant {capacity : ℕ} (h : Runs capacity s) :
    Remembers Unwritten s ∧ Chained s := by
  induction h with
  | start w => exact ⟨.start capacity w, nofun⟩
  | work _ hstep ih => exact ⟨ih.1.step (ages_unwritten _) hstep, ih.2.step ih.1 hstep⟩
  | insert _ hknown hrun ih => exact ih.1.insert ih.2 hknown hrun

/-- After `flush_all_pages` has returned `Ok`, the file has the last content of every page that
was marked. -/
theorem Remembers.stored (hr : Remembers Unwritten s) {order : HashOrder}
    (hflush : flushAllPages order s.pool = some (.ok (), p')) (hid : id ∈ s.marked)
    (hno : id ∉ s.pending) :
    ∃ node, p'.diskManager.file.nodeAt id.val.toNat = some node ∧ node.bare = s.last id := by
  have hkind := (Client.flushAll hflush).kind hr.lawful.wf hr.lawful.fresh
  have halloc := hr.lawful.made id (hr.markedMade id hid)
  have hhas := (hkind.served id halloc).has hr.faults (hr.saved id hid hno)
  exact hhas.stored ((flushAllPages_ok hr.lawful.wf hflush).1 id)

/-- **A checkpoint survives a restart.** Opening the file that `flush_all_pages` has left gives the
header back, and a new pool of any capacity reads every page that was marked dirty as it was last
seen in memory. -/
theorem checkpoint_survives {capacity : ℕ} (h : Runs capacity s) {order : HashOrder}
    (hflush : flushAllPages order s.pool = some (.ok (), p')) :
    ∃ d, DiskManager.openFile p'.diskManager.file [] = .ok d ∧
      d.header = s.pool.diskManager.header ∧
      ∀ (newCapacity : ℕ) (w : Option φ), 1 ≤ newCapacity → ∀ ids : List PageId,
        (∀ id ∈ ids, id ∈ s.marked ∧ id ∉ s.pending) →
          ∃ nodes q, readPages ids (new d newCapacity w) = some (.ok nodes, q) ∧
            nodes.map BTreeNode.bare = ids.map s.last := by
  obtain ⟨hr, -⟩ := h.invariant
  obtain ⟨-, hopen⟩ := flushAllPages_ok hr.lawful.wf hflush
  refine ⟨_, hopen [], rfl, fun newCapacity w hcap ids hids => ?_⟩
  refine (Reading.new rfl hcap w).readPages ids fun id hid => ?_
  obtain ⟨hmarked, hno⟩ := hids id hid
  have halloc := hr.lawful.made id (hr.markedMade id hmarked)
  -- after the flush the file has the last content of the page
  obtain ⟨node, hnode, hbare⟩ := hr.stored hflush hmarked hno
  have hslot : node.IsSlotted := by
    have hs := hr.slotted id (hr.markedMade id hmarked)
    rw [← hbare] at hs
    exact (BTreeNode.isSlotted_bare node).mp hs
  have hhas := Has.new (d := ⟨p'.diskManager.file, s.pool.diskManager.header, []⟩) hnode hslot
    newCapacity w
  rw [hbare] at hhas
  exact ⟨halloc.aligned, halloc.ne_zero, hhas⟩

end Steps

/-! ### Two pages and room for one -/

namespace RoomForOne

/-- A record goes into each of two leaves. The first leaf has to go when the second one is made, and
the second one is written by the checkpoint. -/
def run : Exec DbError (BufferPool Empty) (List PageId × List (Option SplitResult)) := do
  let (first, f) ← newPage true
  dropFrame f
  let one ← BpTree.insertLeaf ⟨first⟩ first 5 [1] 1
  let (second, g) ← newPage true
  dropFrame g
  let two ← BpTree.insertLeaf ⟨first⟩ second 6 [2] 2
  flushAllPages .asListed
  pure ([first, second], [one, two])

/-- An empty file, and room for one page. -/
def pool : BufferPool Empty := BufferPool.new ⟨.empty, .default, []⟩ 1 none

theorem run_eq : ∃ p', run pool = some (.ok ([⟨4096⟩, ⟨8192⟩], [none, none]), p') ∧
    p'.pageTable.keys = [⟨8192⟩] :=
  Exec.ok_of_map (by decide +kernel)

end RoomForOne

open RoomForOne in
/-- Both pages survive, the one that was evicted before the checkpoint too. -/
theorem checkpoint_survives_twoPages : ∃ (s : Session Empty) (p' : BufferPool Empty)
    (d : DiskManager) (nodes : List BTreeNode) (q : BufferPool Empty),
    Runs 1 s ∧ flushAllPages .asListed s.pool = some (.ok (), p') ∧
      p'.pageTable.keys = [⟨8192⟩] ∧ DiskManager.openFile p'.diskManager.file [] = .ok d ∧
      readPages [⟨4096⟩, ⟨8192⟩] (new d 1 (none : Option Empty)) = some (.ok nodes, q) ∧
      nodes.map BTreeNode.bare = [s.last ⟨4096⟩, s.last ⟨8192⟩] := by
  obtain ⟨p', hrun, hkeys⟩ := run_eq
  unfold run at hrun
  obtain ⟨⟨id₁, f⟩, p₁, hnew, hrun⟩ := Exec.bind_eq_ok.mp hrun
  obtain ⟨⟨⟩, p₂, hdrop, hrun⟩ := Exec.bind_eq_ok.mp hrun
  obtain ⟨res₁, p₃, hone, hrun⟩ := Exec.bind_eq_ok.mp hrun
  obtain ⟨⟨id₂, g⟩, p₄, hnew', hrun⟩ := Exec.bind_eq_ok.mp hrun
  obtain ⟨⟨⟩, p₅, hdrop', hrun⟩ := Exec.bind_eq_ok.mp hrun
  obtain ⟨res₂, p₆, htwo, hrun⟩ := Exec.bind_eq_ok.mp hrun
  obtain ⟨⟨⟩, p₇, hflush, hrun⟩ := Exec.bind_eq_ok.mp hrun
  cases hrun
  cases hdrop
  cases hdrop'
  have hstart : Runs 1 (start 1 (none : Option Empty)) := .start none
  have hmade := hstart.work (.call (c := .newPage true) nofun nofun (Exec.bind_of_ok hnew))
  have hgone := hmade.work (.drop (List.mem_singleton_self _) (.inl nofun))
  have hfilled := hgone.insert (List.mem_singleton_self _) hone
  have hmade' := hfilled.work (.call (c := .newPage true) nofun nofun (Exec.bind_of_ok hnew'))
  have hgone' := hmade'.work (.drop (List.mem_cons_self ..) (.inl nofun))
  have hend := hgone'.insert (List.mem_cons_self ..) htwo
  obtain ⟨d, hopen, -, hread⟩ := checkpoint_survives hend hflush
  obtain ⟨nodes, q, hnodes, hbare⟩ := hread 1 none (Nat.le_refl 1) [⟨4096⟩, ⟨8192⟩]
    fun id hid => ⟨(List.Perm.swap (⟨8192⟩ : PageId) ⟨4096⟩ []).mem_iff.mp hid, List.not_mem_nil⟩
  exact ⟨_, p', d, nodes, q, hend, hflush, hkeys, hopen, hnodes, hbare⟩

end Session

end SmolDb
