import SmolDb.Pool.OnPage
import SmolDb.Wal.Log

/-!
# The recovery engine

`replay` goes through a log in order. Under the write guard of the page an entry names it compares
the entry with the page: an entry whose LSN is not above the page's is skipped, any other is
applied and stamps the page with its LSN. In the end every page is flushed. `init` replays what the
log file has and then truncates it.
-/

namespace SmolDb

namespace BTreeNode

/-- Work on a leaf; replay expects no other node. -/
def asLeaf (x : Exec DbError LeafNode Unit) : Exec DbError BTreeNode Unit
  | .leaf node => (x node).map fun (r, node) => (r, .leaf node)
  | .internal node => some (.error (.corruptPage "attempted to insert a record into internal node"),
      .internal node)

end BTreeNode

namespace RecoveryEngine

open BufferPool

variable {φ : Type}

/-- `RecoveryEngine::apply_entry`. -/
def applyEntry (entry : WalEntry) : Exec DbError BTreeNode Unit :=
  match entry.opcode with
  | .insert => BTreeNode.asLeaf (LeafNode.insertRecord entry.rowId entry.payload)
  | .update => BTreeNode.asLeaf (LeafNode.updateRecord entry.rowId entry.payload)
  | .delete => BTreeNode.asLeaf (LeafNode.deleteRecord entry.rowId)

/-- What `replay` does with an entry under the write guard of its page. -/
def redoEntry (entry : WalEntry) : Exec DbError BTreeNode Unit := do
  let node ← Exec.get
  if entry.lsn ≤ node.getLastLsn then pure ()
  else do
    applyEntry entry
    Exec.modify (BTreeNode.markDirty entry.lsn)

section Flusher

variable [WalFlusher φ]

/-- The loop of `replay`, with `max_observed_lsn`. -/
def replayLoop : List WalEntry → UInt64 → Exec DbError (BufferPool φ) UInt64
  | [], maxObservedLsn => pure maxObservedLsn
  | entry :: batch, maxObservedLsn => do
    onPage entry.pageId (redoEntry entry)
    replayLoop batch (max maxObservedLsn entry.lsn)

/-- `RecoveryEngine::replay`, for one order in which the hash map may yield its keys. -/
def replay (order : HashOrder) (batch : List WalEntry) : Exec DbError (BufferPool φ) UInt64 := do
  let maxObservedLsn ← replayLoop batch 0
  flushAllPages order
  pure maxObservedLsn

/-- What `init` does with the log it has opened. -/
def replayLog (order : HashOrder) : Exec DbError (WalManager × BufferPool φ) UInt64 := do
  let batch ← Exec.zoom Prod.fst (fun wal self => (wal, self.2)) WalManager.readBatch
  if batch.isEmpty then do
    let (wal, _) ← Exec.get
    pure wal.flushedLsn
  else do
    let maxLsn ← Exec.zoom Prod.snd (fun pool self => (self.1, pool)) (replay order batch)
    Exec.zoom Prod.fst (fun wal self => (wal, self.2)) do
      WalManager.truncate
      WalManager.syncFile
    pure maxLsn

/-- `RecoveryEngine::init`. The path names the log file. -/
def init (order : HashOrder) : Exec DbError (LogFile × BufferPool φ) UInt64 :=
  Exec.zoom (fun (file, pool) => (WalManager.openFile file false, pool))
    (fun (wal, pool) _ => (wal.file, pool)) (replayLog order)

end Flusher

end RecoveryEngine

end SmolDb
