import MmtkRuby.Collection.GcThreads
import MmtkRuby.Core.Chunks
import MmtkRuby.Core.RangeUpdate
import MmtkRuby.Core.UndoLog
import MmtkRuby.Core.WorkPool
import MmtkRuby.GcLocks
import MmtkRuby.ObjectClosure
import MmtkRuby.ObjectModel.Copy
import MmtkRuby.ObjectModel.Givtbl
import MmtkRuby.ObjectModel.Lookup
import MmtkRuby.Ppp.LivePpps
import MmtkRuby.Ppp.Registry
import MmtkRuby.Ppp.System
import MmtkRuby.Ppp.Balance
import MmtkRuby.Ppp.Coverage
import MmtkRuby.Scanning.Roots
import MmtkRuby.Scanning.WbUnprotected
import MmtkRuby.Utils.ChunkedVecCollector
import MmtkRuby.WeakProc.BucketInvariant
import MmtkRuby.WeakProc.ChunkSafety
import MmtkRuby.WeakProc.Chunking
import MmtkRuby.WeakProc.DeferredBins
import MmtkRuby.WeakProc.EntriesPass
import MmtkRuby.WeakProc.GenericIvTbl
import MmtkRuby.WeakProc.ObjFree
import MmtkRuby.WeakProc.Packets
import MmtkRuby.WeakProc.WbUnprotected
import MmtkRuby.WeakProc.Confluence
import MmtkRuby.Core.SerialRun
import MmtkRuby.WeakProc.GcCycle
import MmtkRuby.Core.Extents
import MmtkRuby.ObjectModel.Store
import MmtkRuby.ObjectModel.Store.Invariant
import MmtkRuby.ObjectModel.Store.Properties
import MmtkRuby.Core.Progress
import MmtkRuby.Utils.AfterAll.Completion
import MmtkRuby.Collection.Joining
import MmtkRuby.Core.LockProgress
import MmtkRuby.GcLocks.Drain
import MmtkRuby.Ppp.Termination
import MmtkRuby.Ppp.RawPointers
import MmtkRuby.ObjectClosure.Nesting
import MmtkRuby.Scanning.Generational
import MmtkRuby.Collection.PanicHook
import MmtkRuby.Scanning.Tracing
import MmtkRuby.Scanning.Termination
import MmtkRuby.Scanning.Gc
import MmtkRuby.Ppp.TracedPointers
import MmtkRuby.WeakProc.TracedGc
