import SmolDb.Pool.Content
import SmolDb.Tree.BpTree
import SmolDb.Tree.Halves

/-!
# What `insert_leaf` can do

A call of `insert_leaf` goes through up to three fetches and makes up to one page, and it writes
the leaves it holds in place. `insertLeaf_outcome` lists the ways it can end, each with the pool
it leaves in terms of the pure leaf operations.
-/

namespace SmolDb

namespace BufferPool

variable {φ α : Type} {p p' : BufferPool φ} {f g : Frame}

/-! ### Writing frames -/

theorem readFrame_eq_some {r : Except DbError BTreeNode} (h : readFrame f p = some (r, p')) :
    ∃ node, p.frames[f]? = some node ∧ r = .ok node ∧ p' = p := by
  obtain ⟨node, hf, heq⟩ := Option.map_eq_some_iff.mp h
  cases heq
  exact ⟨node, hf, rfl, rfl⟩

theorem onLeaf_eq_some {x : Exec DbError LeafNode α} {r : Except DbError α}
    (h : onLeaf f x p = some (r, p')) :
    ∃ leaf leaf', p.frames[f]? = some (.leaf leaf) ∧ x leaf = some (r, leaf') ∧
      p' = p.withNode f (.leaf leaf') := by
  unfold onLeaf at h
  split at h
  · next leaf hf =>
    obtain ⟨⟨r', leaf'⟩, hx, heq⟩ := Option.map_eq_some_iff.mp h
    cases heq
    exact ⟨leaf, leaf', hf, hx, rfl⟩
  · cases h

theorem markDirty_eq_some {lsn : UInt64} {r : Except DbError Unit}
    (h : markDirty f lsn p = some (r, p')) :
    ∃ node, p.frames[f]? = some node ∧ r = .ok () ∧ p' = p.withNode f (node.markDirty lsn) := by
  rcases Exec.bind_eq_some.mp h with ⟨e, -, hread⟩ | ⟨node, p₁, hread, hwrite⟩
  · obtain ⟨_, -, hr, -⟩ := readFrame_eq_some hread
    cases hr
  · obtain ⟨_, hf, hr, rfl⟩ := readFrame_eq_some hread
    cases hr
    cases hwrite
    exact ⟨node, hf, rfl, rfl⟩

/-- The pool with other leaves in two frames. -/
def withLeaves (p : BufferPool φ) (f g : Frame) (a b : LeafNode) : BufferPool φ :=
  (p.withNode f (.leaf a)).withNode g (.leaf b)

theorem onLeaves_eq_some {x : Exec DbError (LeafNode × LeafNode) α} {r : Except DbError α}
    {a b : LeafNode} (hf : p.frames[f]? = some (.leaf a)) (hg : p.frames[g]? = some (.leaf b))
    (h : onLeaves f g x p = some (r, p')) :
    ∃ a' b', x (a, b) = some (r, (a', b')) ∧ p' = p.withLeaves f g a' b' := by
  unfold onLeaves at h
  rw [hf, hg] at h
  obtain ⟨⟨r', a', b'⟩, hx, heq⟩ := Option.map_eq_some_iff.mp h
  cases heq
  exact ⟨a', b', hx, rfl⟩

section Leaves

variable {a b : LeafNode}

theorem frames_withLeaves_left (hne : f ≠ g) {node : BTreeNode} (hf : p.frames[f]? = some node) :
    (p.withLeaves f g a b).frames[f]? = some (.leaf a) := by
  unfold withLeaves
  rw [frames_withNode_of_ne hne.symm]
  exact frames_withNode_self hf

theorem frames_withLeaves_right (hne : f ≠ g) {node : BTreeNode}
    (hg : p.frames[g]? = some node) : (p.withLeaves f g a b).frames[g]? = some (.leaf b) := by
  have hg' : (p.withNode f (.leaf a)).frames[g]? = some node := by
    rw [frames_withNode_of_ne hne, hg]
  exact frames_withNode_self hg'

theorem withLeaves_withNode_left (hne : f ≠ g) (a' : LeafNode) :
    (p.withLeaves f g a b).withNode f (.leaf a') = p.withLeaves f g a' b := by
  unfold withLeaves
  rw [withNode_comm hne.symm, withNode_withNode]

theorem withLeaves_withNode_right (b' : LeafNode) :
    (p.withLeaves f g a b).withNode g (.leaf b') = p.withLeaves f g a b' :=
  withNode_withNode _ _

end Leaves

end BufferPool

/-! ### The ways a call can end -/

namespace BpTree

open BufferPool LeafNode

variable {φ : Type} {p p' : BufferPool φ} {f g : Frame} {t : BpTree}
  {leafPageId newLeafId : PageId} {rowId lsn : UInt64} {payload : List UInt8}

theorem relinkOldRight_eq_some {o : Frame} {r : Except DbError Unit}
    (h : relinkOldRight f g o newLeafId lsn p = some (r, p')) :
    o ≠ f ∧ o ≠ g ∧ ∃ node, p.frames[o]? = some node ∧ r = .ok () ∧
      p' = p.withNode o (node.relinked newLeafId lsn) := by
  unfold relinkOldRight at h
  split at h
  · cases h
  · next hne =>
    rw [not_or] at hne
    refine ⟨hne.1, hne.2, ?_⟩
    rcases Exec.bind_eq_some.mp h with ⟨e, -, hread⟩ | ⟨node, p₁, hread, h⟩
    · obtain ⟨_, -, hr, -⟩ := readFrame_eq_some hread
      cases hr
    · obtain ⟨_, hf, hr, rfl⟩ := readFrame_eq_some hread
      cases hr
      cases node with
      | internal node =>
        cases h
        exact ⟨_, hf, rfl, (withNode_self hf).symm⟩
      | leaf node =>
        -- writing to a frame just read cannot fail
        obtain ⟨_, p₂, hwrite, hmark⟩ := (Exec.bind_eq_some.mp h).resolve_left (by
          rintro ⟨_, -, hfail⟩
          cases hfail)
        obtain ⟨node', hf', rfl, rfl⟩ := markDirty_eq_some hmark
        cases hwrite
        obtain rfl : BTreeNode.leaf { node with hasPrev := true, prevPageId := newLeafId.val } =
            node' := Option.some.inj ((frames_withNode_self hf).symm.trans hf')
        exact ⟨_, hf, rfl, withNode_withNode _ _⟩

theorem insertHalf_outcome {a b : LeafNode} {promoted : UInt64} (hne : f ≠ g)
    (hf : p.frames[f]? = some (.leaf a)) (hg : p.frames[g]? = some (.leaf b))
    {r : Except DbError Unit}
    (h : insertIntoHalf f g rowId payload promoted p = some (r, p')) :
    ∃ a' b', insertHalf rowId payload promoted (a, b) = some (r, (a', b')) ∧
      p' = p.withLeaves f g a' b' := by
  unfold insertIntoHalf at h
  unfold insertHalf
  dsimp only
  split at h
  · next hlt =>
    obtain ⟨a₀, a', hf', hins, rfl⟩ := onLeaf_eq_some h
    obtain rfl : a = a₀ := by
      rw [hf, Option.some.injEq] at hf'
      exact BTreeNode.leaf.inj hf'
    refine ⟨a', b, by rw [if_pos hlt, hins]; rfl, ?_⟩
    have hg' : (p.withNode f (.leaf a')).frames[g]? = some (.leaf b) := by
      rw [frames_withNode_of_ne hne, hg]
    unfold withLeaves
    rw [withNode_self hg']
  · next hge =>
    obtain ⟨b₀, b', hg', hins, rfl⟩ := onLeaf_eq_some h
    obtain rfl : b = b₀ := by
      rw [hg, Option.some.injEq] at hg'
      exact BTreeNode.leaf.inj hg'
    refine ⟨a, b', by rw [if_neg hge, hins]; rfl, ?_⟩
    unfold withLeaves
    rw [withNode_self hf]

section Flusher

variable [WalFlusher φ]

/-- The ways `insert_leaf` can end once it has the leaf `a` in `f` and the new leaf `b` in `g`. -/
inductive SplitOutcome (p : BufferPool φ) (leafPageId newLeafId : PageId) (f g : Frame)
    (rowId : UInt64) (payload : List UInt8) (lsn : UInt64) (a b : LeafNode) :
    Except DbError (Option SplitResult) → BufferPool φ → Prop
  | splitFailed {e : DbError} {a₁ b₁ : LeafNode}
      (hsplit : split (a, b) = some (.error e, (a₁, b₁))) :
      SplitOutcome p leafPageId newLeafId f g rowId payload lsn a b
        (.error e) (p.withLeaves f g a₁ b₁)
  | insertFailed {e : DbError} {promoted : UInt64} {a₁ b₁ a₂ b₂ : LeafNode}
      (hsplit : split (a, b) = some (.ok promoted, (a₁, b₁)))
      (hinsert : insertHalf rowId payload promoted (a₁, b₁) = some (.error e, (a₂, b₂))) :
      SplitOutcome p leafPageId newLeafId f g rowId payload lsn a b
        (.error e) (p.withLeaves f g a₂ b₂)
  | fetchFailed {e : DbError} {promoted : UInt64} {a₁ b₁ a₂ b₂ : LeafNode} {p' : BufferPool φ}
      (hsplit : split (a, b) = some (.ok promoted, (a₁, b₁)))
      (hinsert : insertHalf rowId payload promoted (a₁, b₁) = some (.ok (), (a₂, b₂)))
      (hnext : a₂.hasNext = true)
      (hfetch : fetchPage ⟨a₂.nextPageId⟩ (p.withLeaves f g (a₂.linkedLeft newLeafId)
        (b₂.linkedRight leafPageId a₂)) = some (.error e, p')) :
      SplitOutcome p leafPageId newLeafId f g rowId payload lsn a b (.error e) p'
  | atEnd {promoted : UInt64} {a₁ b₁ a₂ b₂ : LeafNode}
      (hsplit : split (a, b) = some (.ok promoted, (a₁, b₁)))
      (hinsert : insertHalf rowId payload promoted (a₁, b₁) = some (.ok (), (a₂, b₂)))
      (hnext : a₂.hasNext = false) :
      SplitOutcome p leafPageId newLeafId f g rowId payload lsn a b
        (.ok (some ⟨promoted, newLeafId⟩))
        ((p.withNode f (BTreeNode.markDirty lsn (.leaf (a₂.linkedLeft newLeafId)))).withNode g
          (BTreeNode.markDirty lsn (.leaf (b₂.linkedRight leafPageId a₂))))
  | between {promoted : UInt64} {a₁ b₁ a₂ b₂ : LeafNode} {o : Frame} {p₁ : BufferPool φ}
      {old left right : BTreeNode}
      (hsplit : split (a, b) = some (.ok promoted, (a₁, b₁)))
      (hinsert : insertHalf rowId payload promoted (a₁, b₁) = some (.ok (), (a₂, b₂)))
      (hnext : a₂.hasNext = true)
      (hfetch : fetchPage ⟨a₂.nextPageId⟩ (p.withLeaves f g (a₂.linkedLeft newLeafId)
        (b₂.linkedRight leafPageId a₂)) = some (.ok o, p₁))
      (hof : o ≠ f) (hog : o ≠ g) (hold : p₁.frames[o]? = some old)
      (hleft : p₁.frames[f]? = some left) (hright : p₁.frames[g]? = some right) :
      SplitOutcome p leafPageId newLeafId f g rowId payload lsn a b
        (.ok (some ⟨promoted, newLeafId⟩))
        { ((p₁.withNode o (old.relinked newLeafId lsn)).withNode f
            (left.markDirty lsn)).withNode g (right.markDirty lsn) with
          held := p₁.held.erase o }

/-- What wiring the siblings does to the two leaves. -/
theorem wireSiblings_outcome {a b : LeafNode} (hne : f ≠ g)
    (hf : p.frames[f]? = some (.leaf a)) (hg : p.frames[g]? = some (.leaf b))
    {r : Except DbError Unit}
    (h : wireSiblings leafPageId newLeafId f g lsn p = some (r, p')) :
    (a.hasNext = false ∧ r = .ok () ∧
      p' = p.withLeaves f g (a.linkedLeft newLeafId) (b.linkedRight leafPageId a)) ∨
    a.hasNext = true ∧
      ((∃ e, r = .error e ∧ fetchPage ⟨a.nextPageId⟩ (p.withLeaves f g (a.linkedLeft newLeafId)
          (b.linkedRight leafPageId a)) = some (.error e, p')) ∨
        ∃ o p₁ old, r = .ok () ∧ fetchPage ⟨a.nextPageId⟩ (p.withLeaves f g
            (a.linkedLeft newLeafId) (b.linkedRight leafPageId a)) = some (.ok o, p₁) ∧
          o ≠ f ∧ o ≠ g ∧ p₁.frames[o]? = some old ∧
          p' = { p₁.withNode o (old.relinked newLeafId lsn) with held := p₁.held.erase o }) := by
  rcases Exec.bind_eq_some.mp h with ⟨e, -, hread⟩ | ⟨ptrs, p₁, hread, h⟩
  · obtain ⟨_, _, -, hr, -⟩ := onLeaf_eq_some hread
    cases hr
  obtain ⟨a', _, hf', hr, rfl⟩ := onLeaf_eq_some hread
  obtain rfl : a = a' := by
    rw [hf, Option.some.injEq] at hf'
    exact BTreeNode.leaf.inj hf'
  cases hr
  rw [withNode_self hf] at h
  dsimp only at h
  -- the new leaf takes over the forward pointer of the left one
  rcases Exec.bind_eq_some.mp h with ⟨e, -, hright⟩ | ⟨_, p₂, hright, h⟩
  · obtain ⟨_, _, -, hr, -⟩ := onLeaf_eq_some hright
    cases hr
  obtain ⟨b', _, hg', hr, rfl⟩ := onLeaf_eq_some hright
  obtain rfl : b = b' := by
    rw [hg, Option.some.injEq] at hg'
    exact BTreeNode.leaf.inj hg'
  cases hr
  rcases Exec.bind_eq_some.mp h with ⟨e, -, hleft⟩ | ⟨_, p₃, hleft, h⟩
  · obtain ⟨_, _, -, hr, -⟩ := onLeaf_eq_some hleft
    cases hr
  obtain ⟨a', _, hf', hr, rfl⟩ := onLeaf_eq_some hleft
  obtain rfl : a = a' := by
    rw [frames_withNode_of_ne hne.symm, hf, Option.some.injEq] at hf'
    exact BTreeNode.leaf.inj hf'
  cases hr
  rw [withNode_comm hne.symm] at h
  cases hnext : a.hasNext with
  | false =>
    rw [hnext, if_neg Bool.false_ne_true] at h
    cases h
    refine .inl ⟨rfl, rfl, ?_⟩
    unfold withLeaves linkedLeft linkedRight
    rw [hnext]
  | true =>
    rw [hnext, if_pos rfl] at h
    refine .inr ⟨rfl, ?_⟩
    have hwired : p.withLeaves f g (a.linkedLeft newLeafId) (b.linkedRight leafPageId a) =
        (p.withNode f (.leaf (a.linkedLeft newLeafId))).withNode g (.leaf { b with
          hasPrev := true
          prevPageId := leafPageId.val
          hasNext := true
          nextPageId := a.nextPageId }) := by
      unfold withLeaves linkedRight
      rw [hnext]
    rw [hwired]
    rcases withClone_eq_some h with hfail | ⟨o, p₄, p₅, hfetch, hlink, rfl⟩
    · exact .inl hfail
    · obtain ⟨hof, hog, old, hold, rfl, rfl⟩ := relinkOldRight_eq_some hlink
      exact .inr ⟨o, p₄, old, rfl, hfetch, hof, hog, hold, rfl⟩

theorem insertSplit_outcome {a b : LeafNode} (hne : f ≠ g)
    (hf : p.frames[f]? = some (.leaf a)) (hg : p.frames[g]? = some (.leaf b))
    {r : Except DbError (Option SplitResult)}
    (h : insertSplit leafPageId newLeafId f g rowId payload lsn p = some (r, p')) :
    SplitOutcome p leafPageId newLeafId f g rowId payload lsn a b r p' := by
  have hframes : ∀ a' b', (p.withLeaves f g a' b').frames[f]? = some (.leaf a') ∧
      (p.withLeaves f g a' b').frames[g]? = some (.leaf b') := fun a' b' =>
    ⟨frames_withLeaves_left hne hf, frames_withLeaves_right hne hg⟩
  have hagain : ∀ a' b' a'' b'', (p.withLeaves f g a' b').withLeaves f g a'' b'' =
      p.withLeaves f g a'' b'' := by
    intro a' b' a'' b''
    rw [withLeaves, withLeaves_withNode_left hne, withLeaves_withNode_right]
  rcases Exec.bind_eq_some.mp h with ⟨e, rfl, hsplit⟩ | ⟨promoted, p₁, hsplit, h⟩
  · obtain ⟨a₁, b₁, hcut, rfl⟩ := onLeaves_eq_some hf hg hsplit
    exact .splitFailed hcut
  obtain ⟨a₁, b₁, hcut, rfl⟩ := onLeaves_eq_some hf hg hsplit
  -- whatever the second insert did, it did to the two halves alone
  have hins : ∀ {r : Except DbError Unit} {q : BufferPool φ},
      insertIntoHalf f g rowId payload promoted (p.withLeaves f g a₁ b₁) = some (r, q) →
      ∃ a₂ b₂, insertHalf rowId payload promoted (a₁, b₁) = some (r, (a₂, b₂)) ∧
        q = p.withLeaves f g a₂ b₂ := by
    intro r q hq
    obtain ⟨a₂, b₂, hhalf, rfl⟩ := insertHalf_outcome hne (hframes a₁ b₁).1 (hframes a₁ b₁).2 hq
    exact ⟨a₂, b₂, hhalf, hagain a₁ b₁ a₂ b₂⟩
  rcases Exec.bind_eq_some.mp h with ⟨e, rfl, hinsert⟩ | ⟨_, p₂, hinsert, h⟩
  · obtain ⟨a₂, b₂, hhalf, rfl⟩ := hins hinsert
    exact .insertFailed hcut hhalf
  obtain ⟨a₂, b₂, hhalf, rfl⟩ := hins hinsert
  rcases Exec.bind_eq_some.mp h with ⟨e, rfl, hwire⟩ | ⟨_, p₃, hwire, h⟩
  · rcases wireSiblings_outcome hne (hframes a₂ b₂).1 (hframes a₂ b₂).2 hwire with
      ⟨-, hr, -⟩ | ⟨hnext, ⟨_, heq, hfetch⟩ | ⟨_, _, _, hr, -⟩⟩
    · cases hr
    · cases heq
      rw [hagain] at hfetch
      exact .fetchFailed hcut hhalf hnext hfetch
    · cases hr
  rcases Exec.bind_eq_some.mp h with ⟨e, -, hmark⟩ | ⟨_, p₄, hmark, h⟩
  · obtain ⟨_, -, hr, -⟩ := markDirty_eq_some hmark
    cases hr
  obtain ⟨left, hleft, -, rfl⟩ := markDirty_eq_some hmark
  rcases Exec.bind_eq_some.mp h with ⟨e, -, hmark'⟩ | ⟨_, p₅, hmark', h⟩
  · obtain ⟨_, -, hr, -⟩ := markDirty_eq_some hmark'
    cases hr
  obtain ⟨right, hright, -, rfl⟩ := markDirty_eq_some hmark'
  cases h
  -- both leaves are marked dirty; it remains to say what the wiring wrote to them
  rw [frames_withNode_of_ne hne] at hright
  rcases wireSiblings_outcome hne (hframes a₂ b₂).1 (hframes a₂ b₂).2 hwire with
    ⟨hnext, -, rfl⟩ | ⟨hnext, ⟨_, hr, -⟩ | ⟨o, p₁, old, -, hfetch, hof, hog, hold, rfl⟩⟩
  · rw [hagain] at hleft hright ⊢
    rw [(hframes _ _).1] at hleft
    rw [(hframes _ _).2] at hright
    cases hleft
    cases hright
    unfold withLeaves
    rw [withNode_comm hne.symm, withNode_withNode, withNode_withNode]
    exact .atEnd hcut hhalf hnext
  · cases hr
  · rw [hagain] at hfetch
    exact .between hcut hhalf hnext hfetch hof hog hold
      (by rw [← frames_withNode_of_ne hof]; exact hleft)
      (by rw [← frames_withNode_of_ne hog]; exact hright)

/-- The ways a call of `insert_leaf` can end. -/
inductive InsertLeafOutcome (p : BufferPool φ) (leafPageId : PageId) (rowId : UInt64)
    (payload : List UInt8) (lsn : UInt64) :
    Except DbError (Option SplitResult) → BufferPool φ → Prop
  | fetchFailed {e : DbError} {p' : BufferPool φ}
      (hfetch : fetchPage leafPageId p = some (.error e, p')) :
      InsertLeafOutcome p leafPageId rowId payload lsn (.error e) p'
  | notLeaf {e : DbError} {f : Frame} {p₁ : BufferPool φ} {node : InternalNode}
      (hfetch : fetchPage leafPageId p = some (.ok f, p₁))
      (hnode : p₁.frames[f]? = some (.internal node)) :
      InsertLeafOutcome p leafPageId rowId payload lsn (.error e)
        { p₁ with held := p₁.held.erase f }
  | refused {e : DbError} {f : Frame} {p₁ : BufferPool φ} {leaf leaf' : LeafNode}
      (hfetch : fetchPage leafPageId p = some (.ok f, p₁))
      (hleaf : p₁.frames[f]? = some (.leaf leaf))
      (hinsert : insertRecord rowId payload leaf = some (.error e, leaf')) (hnot : e ≠ .pageFull) :
      InsertLeafOutcome p leafPageId rowId payload lsn (.error e)
        { p₁.withNode f (.leaf leaf') with held := p₁.held.erase f }
  | inserted {f : Frame} {p₁ : BufferPool φ} {leaf leaf' : LeafNode}
      (hfetch : fetchPage leafPageId p = some (.ok f, p₁))
      (hleaf : p₁.frames[f]? = some (.leaf leaf))
      (hinsert : insertRecord rowId payload leaf = some (.ok (), leaf')) :
      InsertLeafOutcome p leafPageId rowId payload lsn (.ok none)
        { p₁.withNode f (BTreeNode.markDirty lsn (.leaf leaf')) with held := p₁.held.erase f }
  | noPage {e : DbError} {f : Frame} {p₁ p₂ : BufferPool φ} {leaf leaf' : LeafNode}
      (hfetch : fetchPage leafPageId p = some (.ok f, p₁))
      (hleaf : p₁.frames[f]? = some (.leaf leaf))
      (hinsert : insertRecord rowId payload leaf = some (.error .pageFull, leaf'))
      (hnew : newPage true (p₁.withNode f (.leaf leaf')) = some (.error e, p₂)) :
      InsertLeafOutcome p leafPageId rowId payload lsn (.error e)
        { p₂ with held := p₂.held.erase f }
  | split {r : Except DbError (Option SplitResult)} {f g : Frame} {newLeafId : PageId}
      {p₁ p₂ p₃ : BufferPool φ} {leaf leaf' : LeafNode}
      (hfetch : fetchPage leafPageId p = some (.ok f, p₁))
      (hleaf : p₁.frames[f]? = some (.leaf leaf))
      (hinsert : insertRecord rowId payload leaf = some (.error .pageFull, leaf'))
      (hnew : newPage true (p₁.withNode f (.leaf leaf')) = some (.ok (newLeafId, g), p₂))
      (hsplit : insertSplit leafPageId newLeafId f g rowId payload lsn p₂ = some (r, p₃)) :
      InsertLeafOutcome p leafPageId rowId payload lsn r
        { p₃ with held := (p₃.held.erase g).erase f }

theorem insertLeaf_outcome {r : Except DbError (Option SplitResult)}
    (h : t.insertLeaf leafPageId rowId payload lsn p = some (r, p')) :
    InsertLeafOutcome p leafPageId rowId payload lsn r p' := by
  rcases withClone_eq_some h with ⟨e, rfl, hfetch⟩ | ⟨f, p₁, p₂, hfetch, hbody, rfl⟩
  · exact .fetchFailed hfetch
  rcases Exec.bind_eq_some.mp hbody with ⟨e, -, hread⟩ | ⟨node, p₃, hread, hbody⟩
  · obtain ⟨_, -, hr, -⟩ := readFrame_eq_some hread
    cases hr
  obtain ⟨_, hnode, hr, rfl⟩ := readFrame_eq_some hread
  cases hr
  cases node with
  | internal node =>
    cases hbody
    exact .notLeaf hfetch hnode
  | leaf leaf =>
    rcases Exec.bind_eq_some.mp hbody with ⟨e, -, hatt⟩ | ⟨res, p₄, hatt, hbody⟩
    · obtain ⟨_, -, hr⟩ := Exec.attempt_eq_some.mp hatt
      cases hr
    obtain ⟨_, hon, hr⟩ := Exec.attempt_eq_some.mp hatt
    cases hr
    obtain ⟨leaf₀, leaf', hleaf, hins, rfl⟩ := onLeaf_eq_some hon
    obtain rfl : leaf = leaf₀ := by
      rw [hnode, Option.some.injEq] at hleaf
      exact BTreeNode.leaf.inj hleaf
    -- every error but a full page is handed on
    have hrefused : ∀ e, res = .error e → e ≠ .pageFull →
        (Exec.throw e : Exec DbError (BufferPool φ) (Option SplitResult))
          (p₃.withNode f (.leaf leaf')) = some (r, p₂) →
        InsertLeafOutcome p leafPageId rowId payload lsn r { p₂ with held := p₂.held.erase f } := by
      intro e hres hnot hthrow
      cases hthrow
      subst hres
      exact .refused hfetch hnode hins hnot
    cases res with
    | ok u =>
      obtain ⟨_, p₅, hmark, hbody⟩ := (Exec.bind_eq_some.mp hbody).resolve_left (by
        rintro ⟨e, -, hmark⟩
        obtain ⟨_, -, hr, -⟩ := markDirty_eq_some hmark
        cases hr)
      obtain ⟨node', hnode', -, rfl⟩ := markDirty_eq_some hmark
      obtain rfl : BTreeNode.leaf leaf' = node' :=
        Option.some.inj ((frames_withNode_self hnode).symm.trans hnode')
      rw [withNode_withNode] at hbody
      cases hbody
      exact .inserted hfetch hnode hins
    | error e =>
      cases e with
      | pageFull =>
        rcases withClone_eq_some hbody with ⟨e, rfl, hnew⟩ | ⟨⟨n, g⟩, p₅, p₆, hnew, hsplit, rfl⟩
        · exact .noPage hfetch hnode hins hnew
        · exact .split hfetch hnode hins hnew hsplit
      | _ => exact hrefused _ rfl nofun hbody

end Flusher

end BpTree

end SmolDb
