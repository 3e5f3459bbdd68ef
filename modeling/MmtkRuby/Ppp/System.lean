import MmtkRuby.Core.TransitionSystem
import MmtkRuby.Ppp.Registry

/-!
# Pinning and unpinning, step by step

Mutators register PPPs and pin or unpin objects of their own; between them GCs take place. In a GC
the packets of the `Prepare` stage pin one object at a time and interleave freely; they are all
finished before the trace, after which `cleanup_ppps` takes the list of newly pinned objects and a
packet unpins them one at a time.
-/

namespace MmtkRuby

open Core

namespace Ppp

/-- Where the execution of a `PinPPPChildren` packet stands. -/
inductive PinPc where
  | queued
  /-- in the loop that pins, with the children it has not come to and those it newly pinned -/
  | pinning (pppChildren newlyPinned : List ObjectReference)
  | finished

structure PinExec where
  packet : PinPPPChildren
  pc : PinPc

/-- What the packet has pinned but not yet appended to the shared list. -/
def PinExec.newlyPinned (e : PinExec) : Multiset ObjectReference :=
  match e.pc with
  | .pinning _ newlyPinned => newlyPinned
  | .queued | .finished => 0

/-- Where the execution of the `UnpinPPPChildren` packet stands. -/
inductive UnpinPc where
  /-- a non-moving GC has no such packet -/
  | absent
  | queued (packet : UnpinPPPChildren)
  | unpinning (children : List ObjectReference)

def UnpinPc.children : UnpinPc → List ObjectReference
  | .absent => []
  | .queued packet => packet.children
  | .unpinning children => children

/-- What is fixed when the mutators have stopped. -/
structure Gc where
  currentGcMayMoveObject : Bool
  upcalls : PppUpcalls
  ppps : List ObjectReference
  pinnedAtStart : ObjectReference → Bool
  packets : List PinPPPChildren

/-- The children that the PPPs of the list report with `pin = true`. -/
def Gc.reported (gc : Gc) : List ObjectReference := gc.ppps.flatMap gc.upcalls.pinnedChildren

inductive Phase where
  | mutator
  | prepare (gc : Gc) (packets : List PinExec)
  | tracing (gc : Gc)
  | weakRefs (gc : Gc) (removeDeadPPPs : Bool) (unpin : UnpinPc)

structure State where
  registry : PPPRegistry
  isPinned : ObjectReference → Bool
  phase : Phase
  /-- some `unpin_object` of an `UnpinPPPChildren` packet returned `false` -/
  unpinFailed : Bool
  /-- `cleanup_ppps` panicked -/
  panicked : Bool

inductive Step (profile : Profile) : State → Actor → State → Prop where
  | register {s : State} (object : ObjectReference) (hs : s.phase = .mutator) :
      Step profile s .mutator { s with registry := s.registry.register object }
  | registerMany {s : State} (objects : List ObjectReference) (hs : s.phase = .mutator) :
      Step profile s .mutator { s with registry := s.registry.registerMany objects }
  | pinObject {s : State} (object : ObjectReference) (hs : s.phase = .mutator) :
      Step profile s .mutator { s with isPinned := (testAndSet s.isPinned object).2 }
  | unpinObject {s : State} (object : ObjectReference) (hs : s.phase = .mutator) :
      Step profile s .mutator { s with isPinned := (testAndClear s.isPinned object).2 }
  | stopAllMutators {s : State} (currentGcMayMoveObject : Bool) (upcalls : PppUpcalls)
      (hs : s.phase = .mutator) :
      Step profile s .gc
        { s with
          phase := .prepare
            { currentGcMayMoveObject
              upcalls
              ppps := s.registry.ppps
              pinnedAtStart := s.isPinned
              packets := s.registry.pinPppChildren currentGcMayMoveObject }
            ((s.registry.pinPppChildren currentGcMayMoveObject).map (⟨·, .queued⟩)) }
  | scan {s : State} {gc : Gc} (l₁ l₂ : List PinExec) {p : PinPPPChildren}
      {pppChildren : List ObjectReference} {numNoLongerPpps : ℕ}
      (hs : s.phase = .prepare gc (l₁ ++ ⟨p, .queued⟩ :: l₂))
      (hscan : p.scan profile gc.upcalls .unregistered =
        .ok (pppChildren, numNoLongerPpps, .unregistered)) :
      Step profile s .gc
        { s with phase := .prepare gc (l₁ ++ ⟨p, .pinning pppChildren []⟩ :: l₂) }
  | pin {s : State} {gc : Gc} (l₁ l₂ : List PinExec) {p : PinPPPChildren}
      {object : ObjectReference} {pppChildren newlyPinned : List ObjectReference}
      (hs : s.phase = .prepare gc (l₁ ++ ⟨p, .pinning (object :: pppChildren) newlyPinned⟩ :: l₂))
      (hnew : (testAndSet s.isPinned object).1 = true) :
      Step profile s .gc
        { s with
          isPinned := (testAndSet s.isPinned object).2
          phase := .prepare gc (l₁ ++ ⟨p, .pinning pppChildren (newlyPinned ++ [object])⟩ :: l₂) }
  | pinAgain {s : State} {gc : Gc} (l₁ l₂ : List PinExec) {p : PinPPPChildren}
      {object : ObjectReference} {pppChildren newlyPinned : List ObjectReference}
      (hs : s.phase = .prepare gc (l₁ ++ ⟨p, .pinning (object :: pppChildren) newlyPinned⟩ :: l₂))
      (hold : (testAndSet s.isPinned object).1 = false) :
      Step profile s .gc
        { s with
          isPinned := (testAndSet s.isPinned object).2
          phase := .prepare gc (l₁ ++ ⟨p, .pinning pppChildren newlyPinned⟩ :: l₂) }
  | append {s : State} {gc : Gc} (l₁ l₂ : List PinExec) {p : PinPPPChildren}
      {newlyPinned : List ObjectReference}
      (hs : s.phase = .prepare gc (l₁ ++ ⟨p, .pinning [] newlyPinned⟩ :: l₂)) :
      Step profile s .gc
        { s with
          registry := { s.registry with
            pinnedPppChildren := s.registry.pinnedPppChildren ++ newlyPinned }
          phase := .prepare gc (l₁ ++ ⟨p, .finished⟩ :: l₂) }
  | prepared {s : State} {gc : Gc} {packets : List PinExec} (hs : s.phase = .prepare gc packets)
      (hall : ∀ e ∈ packets, e.pc = .finished) :
      Step profile s .gc { s with phase := .tracing gc }
  | cleanupPpps {s : State} {gc : Gc} {packet : Option UnpinPPPChildren} {registry : PPPRegistry}
      (hs : s.phase = .tracing gc)
      (hcleanup : s.registry.cleanupPpps profile gc.currentGcMayMoveObject =
        .ok (packet, registry)) :
      Step profile s .gc
        { s with
          registry
          phase := .weakRefs gc true (packet.elim .absent .queued) }
  | cleanupPppsPanics {s : State} {gc : Gc} {e : Panic} (hs : s.phase = .tracing gc)
      (hcleanup : s.registry.cleanupPpps profile gc.currentGcMayMoveObject = .error e) :
      Step profile s .gc { s with panicked := true }
  | removeDeadPPPs {s : State} {gc : Gc} {unpin : UnpinPc} (traced : Traced)
      (isNoLongerPpp : ObjectReference → Bool) (hs : s.phase = .weakRefs gc true unpin) :
      Step profile s .gc
        { s with
          registry := (RemoveDeadPPPs.doWork traced isNoLongerPpp s.registry).2
          phase := .weakRefs gc false unpin }
  | pollUnpin {s : State} {gc : Gc} {removeDeadPPPs : Bool} {packet : UnpinPPPChildren}
      (hs : s.phase = .weakRefs gc removeDeadPPPs (.queued packet)) :
      Step profile s .gc
        { s with phase := .weakRefs gc removeDeadPPPs (.unpinning packet.children) }
  | unpin {s : State} {gc : Gc} {removeDeadPPPs : Bool} {object : ObjectReference}
      {children : List ObjectReference}
      (hs : s.phase = .weakRefs gc removeDeadPPPs (.unpinning (object :: children))) :
      Step profile s .gc
        { s with
          isPinned := (testAndClear s.isPinned object).2
          unpinFailed := s.unpinFailed || !(testAndClear s.isPinned object).1
          phase := .weakRefs gc removeDeadPPPs (.unpinning children) }
  | resumeMutators {s : State} {gc : Gc} {unpin : UnpinPc} (hs : s.phase = .weakRefs gc false unpin)
      (hdone : unpin = .absent ∨ unpin = .unpinning []) :
      Step profile s .gc { s with phase := .mutator }

/-- Runs from outside a GC, with any PPPs registered and any objects pinned. -/
def system (profile : Profile) : TransitionSystem State Actor where
  init s := s.phase = .mutator ∧ s.registry.pinnedPppChildren = [] ∧
    s.unpinFailed = false ∧ s.panicked = false
  step := Step profile

end Ppp

end MmtkRuby
