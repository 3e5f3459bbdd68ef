import Mathlib.Data.Finset.Range
import MmtkRuby.Core.Extents
import MmtkRuby.Core.TransitionSystem
import MmtkRuby.ObjectModel.Copy

/-!
# The objects of a heap that is copied

Workers copy objects at the same time, and what they do to the memory interleaves byte by byte: one
has copied half of its object when another one clears an old copy, and a third one stores a
forwarding pointer where the size of an object was. CRuby writes to the objects between the GCs, and
during a GC to those that are not being copied.
-/

namespace MmtkRuby

open Core RubyObjectAccess VMObjectModel

namespace ObjectStore

variable {Obj : Type*}

/-- How far a worker has come with the copy of an object. `copy_nonoverlapping` and `write_bytes`
may come to the bytes in any order. -/
inductive CopyPc where
  /-- `alloc_copy` has returned, and the bytes at these offsets have been copied -/
  | copying (copied : Finset ℕ)
  /-- the bytes at these offsets of the old copy have been cleared -/
  | clearing (cleared : Finset ℕ)
  /-- mmtk-core has stored the forwarding pointer -/
  | forwarded
deriving DecidableEq

/-- What the worker knows: `to_start`, and the `object_size` that it read. -/
structure Copying where
  toStart : ℕ
  size : ℕ
  pc : CopyPc

/-- The two copies of an object. -/
inductive Side where
  | old
  | new
deriving DecidableEq

/-- The byte at the offset on this side is that of the object. -/
def CopyPc.HasByte : CopyPc → Side → ℕ → Prop
  | .copying _, .old, _ | .clearing _, .new, _ | .forwarded, .new, _ => True
  | .copying copied, .new, i => i ∈ copied
  | .clearing cleared, .old, i => i ∉ cleared
  | .forwarded, .old, _ => False

structure State (Obj : Type*) where
  memory : Memory
  heap : Heap ObjectReference Obj
  copying : ObjectReference → Option Copying
  /-- what was last written to the object, from its hidden header to the end of its suffix -/
  contents : Obj → Memory

/-- The size of an object of which the hidden header says how large its payload is. -/
def imageSize (build : Build) (image : Memory) : ℕ :=
  prefixSize + (image.loadWord 0 &&& hiddenSizeMask) + build.suffixSize

/-- An object that fits at `a`. -/
structure FitsAt (build : Build) (a : ObjectReference) (image : Memory) : Prop where
  sane : HiddenHeader.isSane (image.loadWord 0) = true
  above : prefixSize ≤ a.toRawAddress
  inBounds : start a + imageSize build image < usizeSize

/-- The copies of the object at `a`, with their starts. -/
inductive CopyAt (heap : Heap ObjectReference Obj) (copying : ObjectReference → Option Copying)
    (a : ObjectReference) (o : Obj) : Side → ℕ → Prop where
  | old (ho : heap.objectAt a = some o) : CopyAt heap copying a o .old (start a)
  | new (ho : heap.objectAt a = some o) {c : Copying} (hc : copying a = some c) :
      CopyAt heap copying a o .new c.toStart

namespace State

variable (s : State Obj)

def CopyAt : ObjectReference → Obj → Side → ℕ → Prop := ObjectStore.CopyAt s.heap s.copying

/-- The byte at the offset on a side of the object at `a` is that of the object. -/
def HasByte (a : ObjectReference) (side : Side) (i : ℕ) : Prop :=
  ∀ c, s.copying a = some c → c.pc.HasByte side i

/-- Where an object is found: where it was until a worker begins to copy it, and at the new address
when the worker is done. -/
inductive FoundAt (o : Obj) : ObjectReference → Prop where
  | here {a : ObjectReference} (ho : s.heap.objectAt a = some o) (hc : s.copying a = none) :
      FoundAt o a
  | moved {a : ObjectReference} {c : Copying} (ho : s.heap.objectAt a = some o)
      (hc : s.copying a = some c) (hpc : c.pc = .forwarded) : FoundAt o (toObj c.toStart)

/-- The memory is not in use. -/
def Fresh (build : Build) (toStart size : ℕ) : Prop :=
  ∀ {a o side st}, s.CopyAt a o side st →
    Separate toStart size st (imageSize build (s.contents o))

/-- A worker that copies the object at `a` has come to `pc`. -/
def advance (a : ObjectReference) (c : Copying) (pc : CopyPc) (memory : Memory) : State Obj :=
  { s with memory, copying := Function.update s.copying a (some { c with pc }) }

end State

open Classical in
inductive Step (build : Build) : State Obj → Actor → State Obj → Prop where
  | alloc {s : State Obj} (a : ObjectReference) (o : Obj) (image memory : Memory)
      (hnew : o ∉ s.heap) (hfree : s.heap.objectAt a = none) (hfits : FitsAt build a image)
      (hfresh : s.Fresh build (start a) (imageSize build image))
      (hholds : memory.Holds (start a) (imageSize build image) image)
      (hframe : ∀ x, ¬ InRange (start a) (imageSize build image) x → memory x = s.memory x) :
      Step build s .mutator
        { s with
          memory
          heap := s.heap.alloc a o hnew
          contents := Function.update s.contents o image }
  | write {s : State Obj} (l : Actor) (a : ObjectReference) (o : Obj) (ha : s.FoundAt o a) (i : ℕ)
      (v : UInt8) (hi : prefixSize ≤ i) (hin : i < imageSize build (s.contents o)) :
      Step build s l
        { s with
          memory := Function.update s.memory (start a + i) v
          contents := Function.update s.contents o (Function.update (s.contents o) i v) }
  | allocCopy {s : State Obj} (a : ObjectReference) (o : Obj) (ho : s.heap.objectAt a = some o)
      (hc : s.copying a = none) {size : ℕ} (hsize : objectSize build s.memory a = .ok size)
      (toStart : ℕ) (halloc : Allocated toStart size) (hfresh : s.Fresh build toStart size) :
      Step build s .gc
        { s with copying := Function.update s.copying a (some ⟨toStart, size, .copying ∅⟩) }
  -- one byte of `copy_nonoverlapping`
  | copyByte {s : State Obj} (a : ObjectReference) (c : Copying) (hc : s.copying a = some c)
      {copied : Finset ℕ} (hpc : c.pc = .copying copied) (i : ℕ) (hi : i < c.size)
      (hrest : i ∉ copied) {fromStart : ℕ} (hstart : objStart build a = .ok fromStart) :
      Step build s .gc
        (s.advance a c (.copying (insert i copied))
          (Function.update s.memory (c.toStart + i) (s.memory (fromStart + i))))
  | clearOldCopy {s : State Obj} (a : ObjectReference) (c : Copying) (hc : s.copying a = some c)
      (hpc : c.pc = .copying (Finset.range c.size)) (hclear : build.clearOldCopy = true) :
      Step build s .gc (s.advance a c (.clearing ∅) s.memory)
  -- one byte of `write_bytes`
  | clearByte {s : State Obj} (a : ObjectReference) (c : Copying) (hc : s.copying a = some c)
      {cleared : Finset ℕ} (hpc : c.pc = .clearing cleared) (i : ℕ) (hi : i < c.size)
      (hrest : i ∉ cleared) {fromStart : ℕ} (hstart : objStart build a = .ok fromStart) :
      Step build s .gc
        (s.advance a c (.clearing (insert i cleared))
          (Function.update s.memory (fromStart + i) 0))
  | forward {s : State Obj} (a : ObjectReference) (c : Copying) (hc : s.copying a = some c)
      (hpc : c.pc = if build.clearOldCopy then .clearing (Finset.range c.size)
        else .copying (Finset.range c.size)) :
      Step build s .gc
        (s.advance a c .forwarded (storeForwardingPointer s.memory a (toObj c.toStart)))
  -- the memory of the old copies and of the objects that were not reached is free again
  | release {s : State Obj} (traced : Traced) (heap' : Heap ObjectReference Obj)
      (hrel : traced.collection.Relocates s.heap heap')
      (hstill : ∀ a, (s.heap.objectAt a).isSome → s.copying a = none → a.forward traced = a)
      (hmoved : ∀ a c, s.copying a = some c →
        c.pc = .forwarded ∧ a.forward traced = toObj c.toStart) :
      Step build s .gc { s with heap := heap', copying := fun _ => none }

/-- Runs from an empty heap. -/
def system (build : Build) (Obj : Type*) : TransitionSystem (State Obj) Actor where
  init s := (∀ a, s.heap.objectAt a = none) ∧ s.copying = fun _ => none
  step := Step build

end ObjectStore

end MmtkRuby
