import MmtkRuby.Core.WorkPool
import MmtkRuby.Ppp.Registry
import MmtkRuby.WeakProc.EntriesPass
import MmtkRuby.WeakProc.GenericIvTbl
import MmtkRuby.WeakProc.ObjFree
import MmtkRuby.WeakProc.WbUnprotected

/-!
# The packets of weak processing

In the `VMRefClosure` stage one worker runs `process_weak_refs`, which adds packets to the bucket,
while the others execute those it has added so far. A packet works on the list, the table or the
bits that it is named for.
-/

namespace MmtkRuby

open Core

/-- The weak tables that are processed in chunks. -/
inductive ChunkedTable where
  | frozenStrings
  | globalSymbols
deriving DecidableEq, Repr

/-- The global tables that CRuby updates in one upcall. -/
inductive GlobalTable where
  | finalizerAndObjId
  | overloadedCme
  | ci
deriving DecidableEq, Repr

/-- `st_update_bins_range(table, begin, end)`, given the entries and the bins of the table: what it
leaves of the bins, and the number it returns. -/
abbrev StUpdateBinsRange (E B : Type*) := StTable → ℕ → ℕ → (ℕ → E) → (ℕ → B) → (ℕ → B) × ℕ

/-- The entries are only read, and each bin `i` with `begin ≤ i < end` is updated by itself. -/
def BinLocal {E B : Type*} (stUpdateBinsRange : StUpdateBinsRange E B) : Prop :=
  ∀ table entries, ∃ u : LocalUpdate ℕ B, ∀ beginIdx endIdx bins,
    stUpdateBinsRange table beginIdx endIdx entries bins = u.on (Finset.Ico beginIdx endIdx) bins

namespace WeakRefs

variable (E B G : Type)

/-- What CRuby does when it is called from the packets. -/
structure Upcalls where
  /-- `get_frozen_strings_table` and `get_global_symbols_table` -/
  getTable : ChunkedTable → StTable
  /-- `st_get_size_info`, called before the table is touched -/
  stGetSizeInfo : ChunkedTable → SizeInfo
  stUpdateEntriesRange : StUpdateEntriesRange E
  stUpdateBinsRange : StUpdateBinsRange E B
  updateGlobalTable : GlobalTable → G → G
  givtbl : GivtblUpcalls
  isNoLongerPpp : ObjectReference → Bool

/-- What is fixed during the stage. -/
structure Env where
  profile : Profile
  binding : RubyBinding
  traced : Traced
  currentGcMayMoveObject : Bool
  upcalls : Upcalls E B G

variable {E B G} in
/-- The call of `process_weak_table_chunked` for a table. -/
def Env.weakTable (env : Env E B G) (t : ChunkedTable) : WeakTable :=
  match t with
  | .frozenStrings =>
    ⟨"frozen strings", env.upcalls.getTable t, true, false, env.currentGcMayMoveObject⟩
  | .globalSymbols =>
    ⟨"global symbols", env.upcalls.getTable t, false, true, env.currentGcMayMoveObject⟩

/-! ### The state -/

/-- The parts of the state that packets work on. -/
inductive Component where
  /-- the worker that runs `process_weak_refs` -/
  | processWeakRefs
  | weakProc
  | givtbls
  | globalTable (g : GlobalTable)
  | wbUnprotectedObjects
  | pppRegistry
  | pinBits
  | chunkedTable (t : ChunkedTable)
deriving DecidableEq

/-- The candidates, and the objects for which `call_obj_free` was called. -/
structure ObjFreeState where
  weakProc : WeakProcessor
  freed : Multiset ObjectReference

structure GivtblState where
  movedGivtbl : MovedGivtbl
  genericIvTbl : GenericIvTbl

/-- A table, with the `AfterAll` that its packets share. -/
structure ChunkedTableState where
  entries : ℕ → E
  bins : ℕ → B
  /-- the sum of what `st_update_entries_range` has returned -/
  deletedEntries : ℕ
  afterAll : AfterAll UpdateTableBinsParallel

/-- The type of each part. -/
abbrev State : Component → Type
  | .processWeakRefs => Unit
  | .weakProc => ObjFreeState
  | .givtbls => GivtblState
  | .globalTable _ => G
  | .wbUnprotectedObjects => Finset ObjectReference
  | .pppRegistry => PPPRegistry
  | .pinBits => ObjectReference → Bool
  | .chunkedTable _ => ChunkedTableState E B

variable {E B G}

/-- What an entries packet finds when it starts. -/
def ChunkedTableState.pass (x : ChunkedTableState E B) : EntriesPass E where
  entries := x.entries
  afterAll := x.afterAll
  vmRefClosure := []
  deletedEntries := []

/-- What an entries packet leaves. -/
def ChunkedTableState.afterEntries (x : ChunkedTableState E B) (pass : EntriesPass E) :
    ChunkedTableState E B :=
  { x with
    entries := pass.entries
    deletedEntries := x.deletedEntries + pass.deletedEntries.sum
    afterAll := pass.afterAll }

/-! ### The packets -/

/-- What `process_weak_refs` does next. -/
inductive Pc where
  | addProcessObjFreeCandidates
  | bulkAdd
  | processWeakTableChunked (t : ChunkedTable)
  | addRemoveDeadPPPs
  | takePinnedPppChildren
deriving DecidableEq

/-- The place after the call of `process_weak_table_chunked` for a table. -/
def Pc.afterTable : ChunkedTable → Pc
  | .frozenStrings => .processWeakTableChunked .globalSymbols
  | .globalSymbols => .addRemoveDeadPPPs

inductive Packet where
  /-- the rest of `process_weak_refs`, from the given place on -/
  | processWeakRefs (pc : Pc)
  | processObjFreeCandidates
  | updateGenericIvTbl
  | updateGlobalTable (g : GlobalTable)
  | updateWbUnprotectedObjectsList
  | updateTableEntriesParallel (t : ChunkedTable) (p : UpdateTableEntriesParallel)
  | updateTableBinsParallel (t : ChunkedTable) (p : UpdateTableBinsParallel)
  | removeDeadPPPs
  | unpinPPPChildren (p : UnpinPPPChildren)

def Packet.component : Packet → Component
  | .processWeakRefs (.processWeakTableChunked t) => .chunkedTable t
  | .processWeakRefs .takePinnedPppChildren => .pppRegistry
  | .processWeakRefs _ => .processWeakRefs
  | .processObjFreeCandidates => .weakProc
  | .updateGenericIvTbl => .givtbls
  | .updateGlobalTable g => .globalTable g
  | .updateWbUnprotectedObjectsList => .wbUnprotectedObjects
  | .updateTableEntriesParallel t _ => .chunkedTable t
  | .updateTableBinsParallel t _ => .chunkedTable t
  | .removeDeadPPPs => .pppRegistry
  | .unpinPPPChildren _ => .pinBits

/-- What a packet makes of its part of the state, and the packets that it adds to the bucket. A
packet that panics makes nothing of it. -/
inductive Exec (env : Env E B G) :
    (i : Component) → Packet → State E B G i → State E B G i → Multiset Packet → Prop where
  | addProcessObjFreeCandidates :
      Exec env .processWeakRefs (.processWeakRefs .addProcessObjFreeCandidates) () ()
        {.processWeakRefs .bulkAdd, .processObjFreeCandidates}
  | bulkAdd :
      Exec env .processWeakRefs (.processWeakRefs .bulkAdd) () ()
        {.processWeakRefs (.processWeakTableChunked .frozenStrings), .updateGenericIvTbl,
          .updateGlobalTable .finalizerAndObjId, .updateGlobalTable .overloadedCme,
          .updateGlobalTable .ci, .updateWbUnprotectedObjectsList}
  | processWeakTableChunked {t : ChunkedTable} {x : ChunkedTableState E B} {r : WeakTable.Scheduled}
      (hr : (env.weakTable t).processWeakTableChunked env.profile env.binding
        (env.upcalls.stGetSizeInfo t) = .ok r) :
      Exec env (.chunkedTable t) (.processWeakRefs (.processWeakTableChunked t)) x
        { x with afterAll := r.afterAll }
        (.processWeakRefs (Pc.afterTable t) ::ₘ
          (r.entriesPackets : Multiset _).map (.updateTableEntriesParallel t))
  | addRemoveDeadPPPs :
      Exec env .processWeakRefs (.processWeakRefs .addRemoveDeadPPPs) () ()
        {.processWeakRefs .takePinnedPppChildren, .removeDeadPPPs}
  | takePinnedPppChildren {registry registry' : PPPRegistry} {packet : Option UnpinPPPChildren}
      (hok : registry.cleanupPpps env.profile env.currentGcMayMoveObject =
        .ok (packet, registry')) :
      Exec env .pppRegistry (.processWeakRefs .takePinnedPppChildren) registry registry'
        ((packet.toList : Multiset _).map .unpinPPPChildren)
  | processObjFreeCandidates {x : ObjFreeState} :
      Exec env .weakProc .processObjFreeCandidates x
        { weakProc := (ProcessObjFreeCandidates.doWork env.traced x.weakProc).1
          freed := x.freed + (ProcessObjFreeCandidates.doWork env.traced x.weakProc).2 } 0
  | updateGenericIvTbl {x : GivtblState} (order : DrainOrder x.movedGivtbl) :
      Exec env .givtbls .updateGenericIvTbl x
        { movedGivtbl := (WeakProcessor.updateGenericIvTbl env.upcalls.givtbl env.traced order
            x.genericIvTbl).1
          genericIvTbl := (WeakProcessor.updateGenericIvTbl env.upcalls.givtbl env.traced order
            x.genericIvTbl).2 } 0
  | updateGlobalTable {g : GlobalTable} {x : G} :
      Exec env (.globalTable g) (.updateGlobalTable g) x (env.upcalls.updateGlobalTable g x) 0
  | updateWbUnprotectedObjectsList {x : Finset ObjectReference}
      (oldObjects : List ObjectReference) (hnodup : oldObjects.Nodup)
      (horder : oldObjects.toFinset = x) :
      Exec env .wbUnprotectedObjects .updateWbUnprotectedObjectsList x
        (UpdateWbUnprotectedObjectsList.doWork env.traced oldObjects) 0
  | updateTableEntriesParallel {t : ChunkedTable} {p : UpdateTableEntriesParallel}
      {x : ChunkedTableState E B} :
      Exec env (.chunkedTable t) (.updateTableEntriesParallel t p) x
        (x.afterEntries (p.doWork env.upcalls.stUpdateEntriesRange x.pass))
        (((p.doWork env.upcalls.stUpdateEntriesRange x.pass).vmRefClosure : Multiset _).map
          (.updateTableBinsParallel t))
  | updateTableBinsParallel {t : ChunkedTable} {p : UpdateTableBinsParallel}
      {x : ChunkedTableState E B} :
      Exec env (.chunkedTable t) (.updateTableBinsParallel t p) x
        { x with bins := (env.upcalls.stUpdateBinsRange p.table p.beginIdx p.endIdx x.entries
            x.bins).1 } 0
  | removeDeadPPPs {registry : PPPRegistry} :
      Exec env .pppRegistry .removeDeadPPPs registry
        (RemoveDeadPPPs.doWork env.traced env.upcalls.isNoLongerPpp registry).2 0
  | unpinPPPChildren {p : UnpinPPPChildren} {isPinned isPinned' : ObjectReference → Bool}
      (hok : p.doWork env.profile isPinned = .ok isPinned') :
      Exec env .pinBits (.unpinPPPChildren p) isPinned isPinned' 0

/-- The bucket of the stage. -/
def bucket (env : Env E B G) : WorkPool (State E B G) Packet where
  component := Packet.component
  exec := Exec env
  component_eq := by
    intro i p x y released h
    cases h <;> rfl

/-- The start of the stage: `process_weak_refs` has not added anything yet. -/
def start (state : (i : Component) → State E B G i) : PoolConfig (State E B G) Packet where
  state := state
  pool := {.processWeakRefs .addProcessObjFreeCandidates}

end WeakRefs

end MmtkRuby
