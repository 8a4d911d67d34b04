import SmolDb.Page.Disk
import SmolDb.Page.RoundTrip

/-!
# What the data file gives back

Reading a place gives back what was last written there: a write leaves the places it does not
overlap alone (`readAt_writeAt_of_disjoint`), and page ids that are multiples of the page size
name places that do not overlap. A place that was never written is `Blank`: it cannot be read, or
it reads as zeros, and a page of zeros decodes as a routing node without entries (`zeroNode`).
-/

namespace SmolDb

/-- The id is a multiple of the page size. -/
def PageId.Aligned (self : PageId) : Prop := self.val.toNat % pageSize = 0

instance (id : PageId) : Decidable id.Aligned := inferInstanceAs (Decidable (_ = _))

/-- Different ids name different offsets. -/
theorem PageId.toNat_injective : Function.Injective fun id : PageId => id.val.toNat := by
  rintro ⟨a⟩ ⟨b⟩ h
  exact congrArg PageId.mk (UInt64.toNat_inj.mp h)

/-- What a page of zeros decodes to. -/
def zeroNode : BTreeNode := .internal default

namespace DataFile

variable {f : DataFile}

/-- The node that the page at an offset decodes to. -/
def nodeAt (self : DataFile) (offset : ℕ) : Option BTreeNode :=
  (self.readAt offset pageSize).bind fun page =>
    match BTreeNode.decode page with
    | some (.ok node) => some node
    | _ => none

/-- Every byte of the page at an offset that lies in the file is zero. -/
def Blank (self : DataFile) (offset : ℕ) : Prop :=
  ∀ i, offset ≤ i → i < offset + pageSize → i < self.len → self.bytes i = 0

theorem blank_empty (offset : ℕ) : empty.Blank offset := fun _ _ _ hlen =>
  absurd hlen (Nat.not_lt_zero _)

theorem readAt_eq_some {offset n : ℕ} {b : Buffer n} :
    f.readAt offset n = some b ↔
      offset + n ≤ f.len ∧ b.data = (List.range n).map fun i => f.bytes (offset + i) := by
  unfold readAt
  split
  · next hlen =>
    rw [Option.some.injEq]
    refine ⟨fun h => ⟨hlen, by rw [← h]⟩, fun h => Buffer.ext h.2.symm⟩
  · next hlen => simp [hlen]

theorem len_le_writeAt (offset : ℕ) (data : List UInt8) :
    f.len ≤ (f.writeAt offset data).len := by
  unfold writeAt
  split
  · exact Nat.le_refl _
  · exact Nat.le_max_left ..

/-- The bytes of the file that a write does not reach stay. -/
theorem bytes_writeAt_of_disjoint {offset i : ℕ} {data : List UInt8}
    (h : i < offset ∨ offset + data.length ≤ i) (hi : i < f.len) :
    (f.writeAt offset data).bytes i = f.bytes i := by
  unfold writeAt
  split
  · rfl
  · simp only
    rw [if_neg (by omega), if_pos hi]

/-- Between the end of the file and the place of a write there are zeros. -/
theorem bytes_writeAt_of_gap {offset i : ℕ} {data : List UInt8}
    (h : i < offset ∨ offset + data.length ≤ i) (hi : f.len ≤ i)
    (hlen : i < (f.writeAt offset data).len) : (f.writeAt offset data).bytes i = 0 := by
  unfold writeAt at hlen ⊢
  split
  · next hdata =>
    rw [if_pos hdata] at hlen
    omega
  · simp only
    rw [if_neg (by omega), if_neg (by omega)]

theorem readAt_writeAt_of_disjoint {offset offset' n : ℕ} {data : List UInt8} {b : Buffer n}
    (h : offset + n ≤ offset' ∨ offset' + data.length ≤ offset)
    (hread : f.readAt offset n = some b) : (f.writeAt offset' data).readAt offset n = some b := by
  rw [readAt_eq_some] at hread ⊢
  obtain ⟨hlen, hdata⟩ := hread
  refine ⟨Nat.le_trans hlen (len_le_writeAt ..), ?_⟩
  rw [hdata]
  refine List.map_congr_left fun i hi => ?_
  rw [List.mem_range] at hi
  exact (bytes_writeAt_of_disjoint (by omega) (by omega)).symm

theorem readAt_writeAt_self {offset n : ℕ} (b : Buffer n) (hn : 0 < n) :
    (f.writeAt offset b.data).readAt offset n = some b := by
  have hsize := b.size
  have hne : b.data ≠ [] := fun hnil => by
    rw [hnil] at hsize
    exact absurd hsize (Nat.ne_of_lt hn)
  rw [readAt_eq_some]
  constructor
  · rw [writeAt, if_neg hne]
    simp only
    omega
  · refine List.ext_getElem (by simpa using hsize) fun i hi _ => ?_
    rw [List.getElem_map, List.getElem_range, writeAt, if_neg hne]
    simp only
    rw [if_pos (by omega), Nat.add_sub_cancel_left, List.getD_eq_getElem _ _ hi]

theorem Blank.writeAt {offset offset' : ℕ} {data : List UInt8} (hb : f.Blank offset)
    (h : offset + pageSize ≤ offset' ∨ offset' + data.length ≤ offset) :
    (f.writeAt offset' data).Blank offset := by
  intro i hlo hhi hlen
  have hdisj : i < offset' ∨ offset' + data.length ≤ i := by omega
  by_cases hi : i < f.len
  · rw [bytes_writeAt_of_disjoint hdisj hi]
    exact hb i hlo hhi hi
  · exact bytes_writeAt_of_gap hdisj (Nat.le_of_not_lt hi) hlen

/-! ### Decoded pages -/

/-- A node that comes from a page is clean. -/
theorem isDirty_of_decode {page : Page} {node : BTreeNode}
    (h : BTreeNode.decode page = some (.ok node)) : node.isDirty = false := by
  -- both decoders end by building the node, with the flag down
  have hleaf : Exec.Ensures (fun node : LeafNode => node.isDirty = false) LeafNode.decodeAt := by
    unfold LeafNode.decodeAt
    iterate 11 refine Exec.Ensures.bind fun _ => ?_
    exact Exec.Ensures.pure rfl
  have hinternal : Exec.Ensures (fun node : InternalNode => node.isDirty = false)
      InternalNode.decodeAt := by
    unfold InternalNode.decodeAt
    iterate 8 refine Exec.Ensures.bind fun _ => ?_
    exact Exec.Ensures.pure rfl
  obtain ⟨⟨r, cursor⟩, hat, rfl⟩ := Option.map_eq_some_iff.mp h
  obtain ⟨val, c, -, hat⟩ := Exec.bind_eq_ok.mp hat
  split at hat
  · obtain ⟨leaf, c', hl, hpure⟩ := Exec.bind_eq_ok.mp hat
    cases hpure
    exact hleaf _ _ _ hl
  · split at hat
    · obtain ⟨internal, c', hi, hpure⟩ := Exec.bind_eq_ok.mp hat
      cases hpure
      exact hinternal _ _ _ hi
    · cases hat

/-! ### Blank pages -/

theorem decode_zero : BTreeNode.decode Page.new = some (.ok zeroNode) := rfl

theorem len_of_nodeAt {offset : ℕ} {node : BTreeNode} (h : f.nodeAt offset = some node) :
    offset + pageSize ≤ f.len := by
  obtain ⟨page, hread, -⟩ := Option.bind_eq_some_iff.mp h
  exact (readAt_eq_some.mp hread).1

/-- A blank page that lies in the file reads as zeros. -/
theorem Blank.readAt {offset : ℕ} (hb : f.Blank offset) (hlen : offset + pageSize ≤ f.len) :
    f.readAt offset pageSize = some Page.new := by
  rw [readAt_eq_some]
  refine ⟨hlen, (List.eq_replicate_iff.mpr ⟨by simp, fun b hmem => ?_⟩).symm⟩
  obtain ⟨i, hi, rfl⟩ := List.mem_map.mp hmem
  rw [List.mem_range] at hi
  exact hb _ (Nat.le_add_right ..) (Nat.add_lt_add_left hi _) (by omega)

theorem Blank.nodeAt_of_len {offset : ℕ} (hb : f.Blank offset)
    (hlen : offset + pageSize ≤ f.len) : f.nodeAt offset = some zeroNode := by
  unfold DataFile.nodeAt
  rw [hb.readAt hlen]
  rfl

theorem Blank.nodeAt {offset : ℕ} (hb : f.Blank offset) :
    f.nodeAt offset = none ∨ f.nodeAt offset = some zeroNode := by
  cases hnode : f.nodeAt offset with
  | none => exact .inl rfl
  | some node =>
    rw [hb.nodeAt_of_len (len_of_nodeAt hnode)] at hnode
    exact .inr hnode.symm

/-! ### Written pages -/

theorem nodeAt_writeAt_of_disjoint {offset offset' : ℕ} {data : List UInt8} {node : BTreeNode}
    (h : offset + pageSize ≤ offset' ∨ offset' + data.length ≤ offset)
    (hnode : f.nodeAt offset = some node) :
    (f.writeAt offset' data).nodeAt offset = some node := by
  obtain ⟨page, hread, hdecode⟩ := Option.bind_eq_some_iff.mp hnode
  rw [DataFile.nodeAt, readAt_writeAt_of_disjoint h hread]
  exact hdecode

/-- A page that was encoded and written is read back with the content of the node. -/
theorem nodeAt_written {offset : ℕ} {node : BTreeNode} {page : Page}
    (hs : node.IsSlotted) (henc : node.encode Page.new = some (.ok (), page)) :
    (f.writeAt offset page.data).nodeAt offset = some node.decoded := by
  have hfit : node.encodedSize ≤ pageSize := by
    by_contra hno
    rw [hs.placed.encode_full (Nat.lt_of_not_le hno)] at henc
    cases henc
  obtain ⟨written, _, _, _, henc', _, _, hdecode⟩ := hs.placed.encode_ok hfit Page.new
  rw [henc, Option.some.injEq, Prod.mk.injEq] at henc'
  obtain ⟨-, rfl⟩ := henc'
  rw [DataFile.nodeAt, DataFile.readAt_writeAt_self _ (by decide), Option.bind_some, hdecode]

/-- The file with the image of a node at its place. -/
def save (self : DataFile) (id : PageId) (node : BTreeNode) : DataFile :=
  match node.encode Page.new with
  | some (.ok (), page) => self.writeAt id.val.toNat page.data
  | _ => self

theorem nodeAt_save (id : PageId) {node : BTreeNode} (hs : node.IsSlotted)
    (hfit : node.encodedSize ≤ pageSize) :
    (f.save id node).nodeAt id.val.toNat = some node.decoded := by
  obtain ⟨written, _, _, _, henc, _⟩ := hs.placed.encode_ok hfit Page.new
  unfold save
  rw [henc]
  exact nodeAt_written hs henc

theorem nodeAt_save_of_ne (id : PageId) {id' : PageId} {node node' : BTreeNode}
    (h : id.val.toNat + pageSize ≤ id'.val.toNat ∨ id'.val.toNat + pageSize ≤ id.val.toNat)
    (hnode : f.nodeAt id.val.toNat = some node) :
    (f.save id' node').nodeAt id.val.toNat = some node := by
  unfold save
  split
  · next page _ => exact nodeAt_writeAt_of_disjoint (by rw [page.size]; exact h) hnode
  · exact hnode

theorem Blank.save_of_ne {id id' : PageId} {node : BTreeNode} (hb : f.Blank id.val.toNat)
    (h : id.val.toNat + pageSize ≤ id'.val.toNat ∨ id'.val.toNat + pageSize ≤ id.val.toNat) :
    (f.save id' node).Blank id.val.toNat := by
  unfold save
  split
  · next page _ => exact hb.writeAt (by rw [page.size]; exact h)
  · exact hb

end DataFile

/-- Opening a file leaves it as it is. -/
theorem DiskManager.openFile_ok {file : DataFile} {faults : List (Option ℕ)} {d : DiskManager}
    (h : DiskManager.openFile file faults = .ok d) : d.file = file ∧ d.faults = faults := by
  unfold DiskManager.openFile at h
  split at h
  · split at h
    · cases h
      exact ⟨rfl, rfl⟩
    · cases h
  · cases h
    exact ⟨rfl, rfl⟩

/-- A file that has a header can be opened. -/
theorem DiskManager.openFile_returns {file : DataFile} (hlen : fileHeaderSize ≤ file.len)
    (faults : List (Option ℕ)) : ∃ d, DiskManager.openFile file faults = .ok d := by
  unfold DiskManager.openFile
  rw [if_pos (Nat.lt_of_lt_of_le (by decide) hlen), DataFile.readAt, if_pos (by rwa [Nat.zero_add])]
  exact ⟨_, rfl⟩

/-- Different aligned ids name pages that do not overlap. -/
theorem PageId.Aligned.disjoint {a b : PageId} (ha : a.Aligned) (hb : b.Aligned) (hne : a ≠ b) :
    a.val.toNat + pageSize ≤ b.val.toNat ∨ b.val.toNat + pageSize ≤ a.val.toNat := by
  have hval : a.val.toNat ≠ b.val.toNat := fun h => hne (PageId.toNat_injective h)
  simp only [PageId.Aligned, pageSize] at ha hb ⊢
  omega

/-- A non-zero aligned id names a page behind the header. -/
theorem PageId.Aligned.pageSize_le {a : PageId} (ha : a.Aligned) (hne : a.val ≠ 0) :
    pageSize ≤ a.val.toNat := by
  have hval : a.val.toNat ≠ 0 := fun h => hne (UInt64.toNat_inj.mp h)
  simp only [PageId.Aligned, pageSize] at ha ⊢
  omega

end SmolDb
