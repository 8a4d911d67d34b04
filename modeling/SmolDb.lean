import SmolDb.Error
import SmolDb.Lib.Concat
import SmolDb.Lib.Exec
import SmolDb.Lib.Fenced
import SmolDb.Lib.Linked
import SmolDb.Lib.Listing
import SmolDb.Lib.LittleEndian
import SmolDb.Lib.Runs
import SmolDb.Lib.Search
import SmolDb.Lib.Stack
import SmolDb.Lib.Walk
import SmolDb.Lib.WriteBack
import SmolDb.Lib.Journal
import SmolDb.Lru.Replacer
import SmolDb.Lru.Recency
import SmolDb.Lru.Arena
import SmolDb.Page.Node
import SmolDb.Page.Codec
import SmolDb.Page.Slots
import SmolDb.Page.Decode
import SmolDb.Page.Disk
import SmolDb.Page.Leaf
import SmolDb.Page.RoundTrip
import SmolDb.Page.File
import SmolDb.Page.Live
import SmolDb.Page.Rewrite
import SmolDb.Page.LeafOp
import SmolDb.Page.Lsn
import SmolDb.Page.Budget
import SmolDb.Page.FiniteMap
import SmolDb.Page.Room
import SmolDb.Page.Compaction
import SmolDb.Page.FreeSize
import SmolDb.Page.Invariant
import SmolDb.Wal.Entry
import SmolDb.Wal.Log
import SmolDb.Wal.Stream
import SmolDb.Wal.Durability
import SmolDb.Wal.Exact
import SmolDb.Wal.Torn
import SmolDb.Wal.Carried
import SmolDb.Pool.BufferPool
import SmolDb.Pool.Coherence
import SmolDb.Pool.Fetch
import SmolDb.Pool.Content
import SmolDb.Pool.Flush
import SmolDb.Pool.Clients
import SmolDb.Pool.Service
import SmolDb.Pool.InStep
import SmolDb.Pool.Reopen
import SmolDb.Pool.Allocation
import SmolDb.Pool.Loans
import SmolDb.Pool.LogFirst
import SmolDb.Pool.OnPage
import SmolDb.Pool.Paging
import SmolDb.Pool.Session
import SmolDb.Pool.Stamps
import SmolDb.Pool.Transparency
import SmolDb.Tree.BpTree
import SmolDb.Tree.Halves
import SmolDb.Tree.Chain
import SmolDb.Tree.Insert
import SmolDb.Tree.SplitRoom
import SmolDb.Tree.Effect
import SmolDb.Tree.Lookup
import SmolDb.Tree.Growth
import SmolDb.Tree.SplitReturns
import SmolDb.Tree.Termination
import SmolDb.Tree.Checkpoint
import SmolDb.Tree.InsertFailure
import SmolDb.Tree.Routes
import SmolDb.Recovery.Engine
import SmolDb.Recovery.Redo
import SmolDb.Recovery.Replay
import SmolDb.Recovery.Image
import SmolDb.Recovery.Lsn
import SmolDb.Recovery.Repeat
import SmolDb.Recovery.Inserts
import SmolDb.Recovery.Survival
import SmolDb.Recovery.Lives
import SmolDb.Recovery.DurableMap
import SmolDb.Tree.Descent
import SmolDb.Tree.Upkeep
import SmolDb.Flusher.Background
import SmolDb.Flusher.Interleaving
import SmolDb.Flusher.Progress
import SmolDb.Flusher.Availability
import SmolDb.Flusher.Shutdown
