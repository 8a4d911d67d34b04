import SmolDb.Pool.Clients
import SmolDb.Recovery.Replay
import SmolDb.Tree.Growth
import SmolDb.Tree.SplitReturns

/-!
# What replay makes of an old image

An insertion is logged with its page and its record, a split is not logged. So replay follows a
page from an old image in the file only up to the next split: the rows that the split moved away
are still in the image, and the insertion that caused the split finds it full again.

`Image` says this of an image and of the entries of its page. From an image that is not older than
the last split the entries lead to the cells the page has; from an older one they lead nowhere.
`Imaged` says it of a page in a pool, and every way a page is changed while records are
inserted keeps it.
-/

namespace SmolDb

namespace LeafNode

variable {a b c a' : LeafNode} {k : UInt64} {v : List UInt8}

/-! ### Leaves with the same cells -/

theorem SameCells.refl (a : LeafNode) : SameCells a a := ⟨rfl, rfl⟩

theorem SameCells.symm (h : SameCells a b) : SameCells b a := ⟨h.records.symm, h.slotArray.symm⟩

theorem SameCells.trans (h : SameCells a b) (h' : SameCells b c) : SameCells a c :=
  ⟨h'.records.trans h.records, h'.slotArray.trans h.slotArray⟩

theorem SameCells.searchKey (h : SameCells a b) (k : UInt64) : b.searchKey k = a.searchKey k := by
  unfold LeafNode.searchKey LeafNode.recordAt
  rw [h.records, h.slotArray]

theorem SameCells.hasRoom (h : SameCells a b) {n : ℕ} (hroom : a.HasRoom n) : b.HasRoom n := by
  unfold HasRoom
  rw [h.rows, h.slotArray]
  exact hroom

theorem SameCells.compact (h : SameCells a b) (hcompact : a.compact = some a') :
    ∃ b', b.compact = some b' ∧ SameCells a' b' := by
  -- the compaction looks at the records and the slots only
  unfold LeafNode.compact at hcompact ⊢
  rw [h.records, h.slotArray]
  obtain ⟨acc, hacc, hrest⟩ := Option.bind_eq_some_iff.mp hcompact
  rw [hacc]
  dsimp only [Option.bind_eq_bind, Option.bind_some] at hrest ⊢
  split at hrest
  · cases hrest
    exact ⟨_, rfl, rfl, rfl⟩
  · cases hrest
    exact ⟨_, rfl, rfl, rfl⟩
  · cases hrest

/-- **Whether a record is inserted depends on the cells only**, and so do the cells after it. -/
theorem SameCells.insertRecord_ok (h : SameCells a b) (hs : a.IsSlotted)
    (hinsert : insertRecord k v a = some (.ok (), a')) :
    ∃ b', insertRecord k v b = some (.ok (), b') ∧ SameCells a' b' := by
  have hsb := h.slotted hs
  -- the insert looks at the slots, the rows and the room, which the two leaves share
  cases hs.insertRecord_outcome hinsert with
  | @revived i slot record _ hlen hsearch hrow hdead hslot hcompact =>
    have hoverwrite : SameCells
        (a.overwrite slot { record with isDeleted := false, data := v })
        (b.overwrite slot { record with isDeleted := false, data := v }) := by
      refine ⟨?_, h.slotArray⟩
      unfold LeafNode.overwrite
      rw [h.records]
    obtain ⟨b', hb', hcells⟩ := hoverwrite.compact hcompact
    have hdeadB := hsb.insertRecord_of_dead hlen ((h.searchKey k).trans hsearch)
      (by rw [h.rows]; exact hrow) (by rw [h.slotArray]; exact hslot) hdead
    rw [hb'] at hdeadB
    exact ⟨b', hdeadB, hcells⟩
  | @added i freeSize hlen hi hsearch hroom =>
    obtain ⟨hok, -⟩ := hsb.insertRecord_of_absent hlen ((h.searchKey k).trans hsearch)
    obtain ⟨freeSize', hb'⟩ := hok (h.hasRoom hroom)
    refine ⟨_, hb', ?_, ?_⟩
    · unfold LeafNode.appended
      rw [h.records]
    · unfold LeafNode.appended
      rw [h.slotArray, h.records]

end LeafNode

namespace RecoveryEngine

open BpTree BufferPool LeafNode WriteBack

variable {entry : WalEntry} {entries : List WalEntry} {c c' leaf leaf' : LeafNode}
  {st : BTreeNode} {parted lsn lsn' : UInt64}

/-! ### Redoing insertions -/

theorem leafOp_insert (hop : entry.opcode = .insert) :
    entry.leafOp.call = insertRecord entry.rowId entry.payload := by
  unfold WalEntry.leafOp
  rw [hop]
  rfl

theorem redo_insert (hop : entry.opcode = .insert) (hlsn : leaf.lastLsn < entry.lsn)
    (hinsert : insertRecord entry.rowId entry.payload leaf = some (.ok (), leaf')) :
    redo (.leaf leaf) entry = some (.leaf { leaf' with lastLsn := entry.lsn }) := by
  have hgt : ¬ entry.lsn ≤ (BTreeNode.leaf leaf).getLastLsn := UInt64.not_le.mpr hlsn
  have happly : applyEntry entry (.leaf leaf) = some (.ok (), .leaf leaf') := by
    rw [applyEntry_eq, leafOp_insert hop]
    exact Option.map_eq_some_iff.mpr ⟨_, hinsert, rfl⟩
  exact redo_apply hgt happly

/-- An insertion that was redone was one into the leaf. -/
theorem redo_insert_eq_some {n : BTreeNode} (hop : entry.opcode = .insert)
    (hlsn : leaf.lastLsn < entry.lsn) (h : redo (.leaf leaf) entry = some n) :
    ∃ leaf', insertRecord entry.rowId entry.payload leaf = some (.ok (), leaf') := by
  obtain ⟨hle, -⟩ | ⟨-, n, happly, -⟩ := redo_eq_some h
  · exact absurd hle (UInt64.not_le.mpr hlsn)
  · rw [applyEntry_eq, leafOp_insert hop] at happly
    obtain ⟨_, leaf', heq, hinsert, -⟩ | ⟨e, he, -⟩ := BTreeNode.asLeaf_eq_some happly
    · cases heq
      exact ⟨leaf', hinsert⟩
    · cases he

/-- A node that fits in a page fits after an insertion was redone. -/
theorem redo_insert_fits {node n : BTreeNode} (hop : entry.opcode = .insert)
    (hs : node.IsSlotted) (hfit : node.encodedSize ≤ pageSize) (h : redo node entry = some n) :
    n.encodedSize ≤ pageSize := by
  obtain ⟨-, rfl⟩ | ⟨-, n, happly, rfl⟩ := redo_eq_some h
  · exact hfit
  · rw [applyEntry_eq, leafOp_insert hop] at happly
    obtain ⟨leaf, leaf', rfl, hinsert, rfl⟩ | ⟨e, he, -⟩ := BTreeNode.asLeaf_eq_some happly
    · show leaf'.encodedSize ≤ pageSize
      exact IsSlotted.insertRecord_fits hs hinsert
    · cases he

/-- Where insertions lead somewhere, every node on the way fits. -/
theorem redoable_of_redoneTo {c' : BTreeNode} (hop : ∀ entry ∈ entries, entry.opcode = .insert)
    (hs : st.IsSlotted) (hfit : st.encodedSize ≤ pageSize) (h : RedoneTo st entries c') :
    Redoable st entries := by
  induction entries generalizing st with
  | nil => trivial
  | cons entry entries ih =>
    obtain ⟨n, hn, hbare⟩ := h
    rw [redoAll_cons] at hn
    obtain ⟨n₁, hfirst, hrest⟩ := Option.bind_eq_some_iff.mp hn
    -- an insertion leaves a leaf that fits
    have hfit₁ : n₁.encodedSize ≤ pageSize :=
      redo_insert_fits (hop entry (List.mem_cons_self ..)) hs hfit hfirst
    refine ⟨n₁, hfirst, hfit₁, ih (fun e he => hop e (List.mem_cons_of_mem _ he)) ?_ ?_ ?_⟩
    · exact (BTreeNode.isSlotted_bare n₁).mpr (redo_slotted hs hfirst)
    · rw [BTreeNode.encodedSize_congr (BTreeNode.bare_bare n₁)]
      exact hfit₁
    · obtain ⟨n', hn', hbare'⟩ := redoAll_congr (BTreeNode.bare_bare n₁).symm hrest
      exact ⟨n', hn', hbare'.symm.trans hbare⟩

/-! ### An image -/

/-- What the entries of a page make of its image `st`, when the page has the leaf `c`, took part in
a split last at the LSN `parted`, and all LSNs so far are at most `lsn`. -/
structure Image (entries : List WalEntry) (parted lsn : UInt64) (c : LeafNode) (st : BTreeNode) :
    Prop where
  slotted : st.IsSlotted
  fits : st.encodedSize ≤ pageSize
  le : st.getLastLsn ≤ lsn
  /-- From an image that is not older than the split they lead to the cells of the page. -/
  whole : parted ≤ st.getLastLsn →
    ∃ leaf : LeafNode, RedoneTo st entries (.leaf leaf) ∧ leaf.lastLsn ≤ lsn ∧ SameCells c leaf
  /-- From an older one they lead nowhere. -/
  stuck : st.getLastLsn < parted → redoAll st entries = none

/-- The content of the page itself, which has all the entries. -/
theorem Image.own (hs : c.IsSlotted) (hbare : c.bare = c) (hfit : c.encodedSize ≤ pageSize)
    (hparted : parted ≤ c.lastLsn) (hlsn : c.lastLsn ≤ lsn)
    (hentries : ∀ entry ∈ entries, entry.lsn ≤ c.lastLsn) :
    Image entries parted lsn c (.leaf c) where
  slotted := hs
  fits := hfit
  le := hlsn
  whole _ := by
    have hskipped : RedoneTo (.leaf c) entries (BTreeNode.leaf c).bare := .skipped hentries
    rw [BTreeNode.bare_leaf, hbare] at hskipped
    exact ⟨c, hskipped, hlsn, .refl c⟩
  stuck hlt := absurd hparted (UInt64.not_le.mpr hlt)

/-- More LSNs were handed out, and the links of the page changed. -/
theorem Image.later (h : Image entries parted lsn c st) (hlsn : lsn ≤ lsn')
    (hcells : SameCells c c') : Image entries parted lsn' c' st where
  slotted := h.slotted
  fits := h.fits
  le := UInt64.le_trans h.le hlsn
  whole hle := by
    obtain ⟨leaf, hredone, hleaf, hsame⟩ := h.whole hle
    exact ⟨leaf, hredone, UInt64.le_trans hleaf hlsn, hcells.symm.trans hsame⟩
  stuck := h.stuck

/-- **A record was inserted.** Its entry leads on from where the others lead to. -/
theorem Image.inserted (h : Image entries parted lsn c st) (hop : entry.opcode = .insert)
    (hlsn : lsn < entry.lsn) (hs : c.IsSlotted)
    (hinsert : insertRecord entry.rowId entry.payload c = some (.ok (), c')) :
    Image (entries ++ [entry]) parted entry.lsn c' st where
  slotted := h.slotted
  fits := h.fits
  le := UInt64.le_trans h.le (UInt64.le_of_lt hlsn)
  whole hle := by
    -- replay builds the old leaf, and then takes the new entry as the tree did
    obtain ⟨leaf, hredone, hleaf, hsame⟩ := h.whole hle
    obtain ⟨leaf', hinsert', hsame'⟩ := hsame.insertRecord_ok hs hinsert
    have hredo := redo_insert hop (UInt64.lt_of_le_of_lt hleaf hlsn) hinsert'
    refine ⟨_, hredone.snoc hredone.bare hredo, UInt64.le_refl _, ?_⟩
    exact hsame'.trans ⟨rfl, rfl⟩
  stuck hlt := by
    rw [redoAll_append, h.stuck hlt]
    rfl

/-- An insertion that the leaf of the page does not take cannot be redone. -/
theorem Image.refused (h : Image entries parted lsn c st) (hop : entry.opcode = .insert)
    (hlsn : lsn < entry.lsn) (hs : c.IsSlotted)
    (hno : ∀ c', insertRecord entry.rowId entry.payload c ≠ some (.ok (), c')) :
    redoAll st (entries ++ [entry]) = none := by
  rw [redoAll_append]
  obtain hlt | hle := UInt64.lt_or_le st.getLastLsn parted
  · rw [h.stuck hlt]
    rfl
  · obtain ⟨leaf, ⟨n, hn, hbare⟩, hleaf, hsame⟩ := h.whole hle
    rw [hn, Option.bind_some, redoAll_cons]
    by_contra hsome
    obtain ⟨n', hn'⟩ := Option.ne_none_iff_exists'.mp hsome
    obtain ⟨n₁, hredo, -⟩ := Option.bind_eq_some_iff.mp hn'
    -- the node has the cells of the page
    have hnode : n.bare = (BTreeNode.leaf leaf).bare := by
      rw [← hbare, BTreeNode.bare_bare]
    obtain ⟨n₂, hredo₂, -⟩ := redo_congr hnode hredo
    obtain ⟨leaf', hinsert⟩ := redo_insert_eq_some hop (UInt64.lt_of_le_of_lt hleaf hlsn) hredo₂
    obtain ⟨c', hc', -⟩ := hsame.symm.insertRecord_ok (hsame.slotted hs) hinsert
    exact hno c' hc'

/-- **The page was split.** Every image that there was is older. -/
theorem Image.divided (h : Image entries parted lsn c st) (hop : entry.opcode = .insert)
    (hlsn : lsn < entry.lsn) (hs : c.IsSlotted)
    (hno : ∀ c', insertRecord entry.rowId entry.payload c ≠ some (.ok (), c')) :
    Image (entries ++ [entry]) entry.lsn entry.lsn c' st where
  slotted := h.slotted
  fits := h.fits
  le := UInt64.le_trans h.le (UInt64.le_of_lt hlsn)
  whole hle := absurd (UInt64.le_trans hle h.le) (UInt64.not_le.mpr hlsn)
  stuck _ := h.refused hop hlsn hs hno

/-! ### A page in a pool -/

variable {φ : Type} {p p' : BufferPool φ} {id n : PageId}

/-- The page has the leaf `c`, which has all its entries, and what the file has of it is such an
image. A page that has no image was made by a split. -/
structure Imaged (p : BufferPool φ) (id : PageId) (entries : List WalEntry)
    (parted lsn : UInt64) (c : LeafNode) : Prop where
  has : p.Has id (.leaf c)
  fits : c.encodedSize ≤ pageSize
  parted_le : parted ≤ c.lastLsn
  lsn_le : c.lastLsn ≤ lsn
  entries_le : ∀ entry ∈ entries, entry.lsn ≤ c.lastLsn
  image : Traced (0 < parted) (Image entries parted lsn c) (p.line id)

theorem Imaged.own (h : Imaged p id entries parted lsn c) :
    Image entries parted lsn c (.leaf c) :=
  .own h.has.slotted (BTreeNode.leaf.inj (bare_of_has h.has)) h.fits h.parted_le h.lsn_le
    h.entries_le

/-- A page that was only served. -/
theorem Imaged.served (h : Imaged p id entries parted lsn c)
    (hno : p.diskManager.faults = []) (hserved : Served p p' id) :
    Imaged p' id entries parted lsn c :=
  { h with
    has := hserved.has hno h.has
    image := hserved.traced hno h.has h.own h.image }

theorem Imaged.later (h : Imaged p id entries parted lsn c) (hlsn : lsn ≤ lsn') :
    Imaged p id entries parted lsn' c :=
  { h with
    lsn_le := UInt64.le_trans h.lsn_le hlsn
    image := h.image.mono (fun hpos => hpos) fun _ himage => himage.later hlsn (.refl c) }

theorem Imaged.parted_le_lsn (h : Imaged p id entries parted lsn c) : parted ≤ lsn :=
  UInt64.le_trans h.parted_le h.lsn_le

/-- An entry with a later LSN is the last one of all. -/
theorem Imaged.le_of_mem_concat (h : Imaged p id entries parted lsn c) (hlsn : lsn < entry.lsn)
    {e : WalEntry} (he : e ∈ entries ++ [entry]) : e.lsn ≤ entry.lsn := by
  rcases List.mem_append.mp he with hold | hnew
  · calc e.lsn ≤ c.lastLsn := h.entries_le e hold
      _ ≤ lsn := h.lsn_le
      _ ≤ entry.lsn := UInt64.le_of_lt hlsn
  · rw [List.mem_singleton.mp hnew]
    exact UInt64.le_refl _

/-- **The record was inserted.** -/
theorem Imaged.inserted (h : Imaged p id entries parted lsn c)
    (hno : p.diskManager.faults = []) (hop : entry.opcode = .insert) (hlsn : lsn < entry.lsn)
    {a a' : LeafNode} (hbare : a.bare = c)
    (hinsert : insertRecord entry.rowId entry.payload a = some (.ok (), a'))
    (hpage : Overwritten p p' id (.leaf (stamped entry.lsn a'))) :
    Imaged p' id (entries ++ [entry]) parted entry.lsn (stamped entry.lsn a') := by
  have hs : c.IsSlotted := h.has.slotted
  have hcells : SameCells a c := by
    rw [← hbare]
    exact ⟨rfl, rfl⟩
  have hslotA : a.IsSlotted := hcells.symm.slotted hs
  obtain ⟨c', hinsert', hsame⟩ := hcells.insertRecord_ok hslotA hinsert
  -- a page that reads as the old leaf reads as the new one after one more replayed insert
  have himage : ∀ st, Image entries parted lsn c st →
      Image (entries ++ [entry]) parted entry.lsn (stamped entry.lsn a') st := by
    intro st hst
    have hinserted := hst.inserted hop hlsn hs hinsert'
    exact hinserted.later (UInt64.le_refl _) (hsame.symm.trans (sameCells_stamped a'))
  have hslot' : a'.IsSlotted := (keeps_insertRecord _ _).slotted hslotA hinsert
  exact
    { has := hpage.has hslot'
      fits := by
        show a'.encodedSize ≤ pageSize
        exact hslotA.insertRecord_fits hinsert
      parted_le := UInt64.le_trans h.parted_le_lsn (UInt64.le_of_lt hlsn)
      lsn_le := UInt64.le_refl _
      entries_le := fun e he => h.le_of_mem_concat hlsn he
      image := hpage.traced hno h.has (himage _ h.own)
        (h.image.mono (fun hpos => hpos) himage) }

/-- **The page was split.** -/
theorem Imaged.divided (h : Imaged p id entries parted lsn c)
    (hno : p.diskManager.faults = []) (hop : entry.opcode = .insert) (hlsn : lsn < entry.lsn)
    (hfull : ∀ c', insertRecord entry.rowId entry.payload c ≠ some (.ok (), c'))
    (hpage : Overwritten p p' id (.leaf c')) (hs : c'.IsSlotted)
    (hfit : c'.encodedSize ≤ pageSize) (hstamp : c'.lastLsn = entry.lsn) :
    Imaged p' id (entries ++ [entry]) entry.lsn entry.lsn c' where
  has := hpage.has hs
  fits := hfit
  parted_le := UInt64.le_of_eq hstamp.symm
  lsn_le := UInt64.le_of_eq hstamp
  entries_le e he := by
    rw [hstamp]
    exact h.le_of_mem_concat hlsn he
  image := by
    -- the parting LSN moves to this entry, which covers every entry before it
    have himage : ∀ st, Image entries parted lsn c st →
        Image (entries ++ [entry]) entry.lsn entry.lsn c' st :=
      fun st hst => hst.divided hop hlsn h.has.slotted hfull
    refine hpage.traced hno h.has (himage _ h.own) (h.image.mono (fun _ => ?_) himage)
    exact UInt64.lt_of_le_of_lt UInt64.zero_le hlsn

/-- **The page was made** by a split, in a place that was never written. -/
theorem Imaged.made {c₀ : BTreeNode} (hun : Unwritten c₀ (p.line id))
    (hpage : Overwritten p p' id (.leaf c)) (hs : c.IsSlotted) (hfit : c.encodedSize ≤ pageSize)
    (hstamp : c.lastLsn = lsn) (hpos : 0 < lsn) : Imaged p' id [] lsn lsn c where
  has := hpage.has hs
  fits := hfit
  parted_le := UInt64.le_of_eq hstamp.symm
  lsn_le := UInt64.le_of_eq hstamp
  entries_le := nofun
  image := by
    obtain ⟨v, f, hserves, hline⟩ := hpage
    rw [hline]
    exact .inl ⟨(Unwritten.serves hserves hun).1, hpos⟩

/-- The backward pointer of the page was set. -/
theorem Imaged.relinked (h : Imaged p id entries parted lsn c)
    (hno : p.diskManager.faults = []) (hlsn : lsn ≤ lsn') (hlink : Relinked p p' id n lsn') :
    Imaged p' id entries parted lsn'
      { c with hasPrev := true, prevPageId := n.val, lastLsn := lsn' } where
  has := hlink.has hno h.has
  fits := h.fits
  parted_le := UInt64.le_trans h.parted_le_lsn hlsn
  lsn_le := UInt64.le_refl _
  entries_le e he :=
    calc e.lsn ≤ c.lastLsn := h.entries_le e he
      _ ≤ lsn := h.lsn_le
      _ ≤ lsn' := hlsn
  image := by
    have himage : ∀ st, Image entries parted lsn c st → Image entries parted lsn'
        { c with hasPrev := true, prevPageId := n.val, lastLsn := lsn' } st :=
      fun st hst => hst.later hlsn ⟨rfl, rfl⟩
    exact hlink.traced hno h.has (himage _ h.own) (h.image.mono (fun hpos => hpos) himage)

end RecoveryEngine

end SmolDb
