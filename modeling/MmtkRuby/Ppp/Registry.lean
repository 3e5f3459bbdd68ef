import MmtkRuby.Core.Chunks
import MmtkRuby.Core.UndoLog
import MmtkRuby.ObjectClosure

/-!
# Potential pinning parents

Some objects (PPPs) may hold raw pointers to their children. Before a GC that may move objects,
the children that the PPPs report are pinned, and those that were not pinned before are recorded;
after the trace, the recorded ones are unpinned.
-/

namespace MmtkRuby

open Core

structure PPPRegistry where
  ppps : List ObjectReference
  pinnedPppChildren : List ObjectReference
deriving DecidableEq, Repr

structure PinPPPChildren where
  ppps : List ObjectReference
deriving DecidableEq, Repr

structure UnpinPPPChildren where
  children : List ObjectReference
deriving DecidableEq, Repr

/-- What CRuby answers about PPPs in a GC: `is_no_longer_ppp`, and the visits of
`call_gc_mark_children`. -/
structure PppUpcalls where
  isNoLongerPpp : ObjectReference → Bool
  callGcMarkChildren : ObjectReference → Upcall

namespace PPPRegistry

def new : PPPRegistry := ⟨[], []⟩

def register (r : PPPRegistry) (object : ObjectReference) : PPPRegistry :=
  { r with ppps := r.ppps ++ [object] }

/-- The loop of `register_many`, in one critical section. -/
def registerMany (r : PPPRegistry) (objects : List ObjectReference) : PPPRegistry :=
  objects.foldl register r

@[simp] lemma pinnedPppChildren_registerMany (r : PPPRegistry) (objects : List ObjectReference) :
    (r.registerMany objects).pinnedPppChildren = r.pinnedPppChildren := by
  unfold registerMany
  induction objects generalizing r with
  | nil => rfl
  | cons object objects ih => rw [List.foldl_cons, ih, register]

/-- The packets that `pin_ppp_children` adds to the `Prepare` bucket. -/
def pinPppChildren (r : PPPRegistry) (currentGcMayMoveObject : Bool) : List PinPPPChildren :=
  if !currentGcMayMoveObject then []
  else
    let packetSize := 512
    (chunks packetSize r.ppps).map PinPPPChildren.mk

/-- `cleanup_ppps`: the packet that it adds to the `VMRefClosure` bucket next to `RemoveDeadPPPs`,
if any, and the registry it leaves. -/
def cleanupPpps (profile : Profile) (r : PPPRegistry) (currentGcMayMoveObject : Bool) :
    Except Panic (Option UnpinPPPChildren × PPPRegistry) :=
  if currentGcMayMoveObject then
    .ok (some ⟨r.pinnedPppChildren⟩, { r with pinnedPppChildren := [] })
  else if profile = .debug ∧ r.pinnedPppChildren.length ≠ 0 then .error .pinnedPppChildrenLeft
  else .ok (none, r)

/-- The packets of a moving GC share out the entries of the list, in order. -/
lemma flatMap_pinPppChildren (r : PPPRegistry) (currentGcMayMoveObject : Bool) :
    (r.pinPppChildren currentGcMayMoveObject).flatMap (·.ppps) =
      if currentGcMayMoveObject then r.ppps else [] := by
  cases currentGcMayMoveObject with
  | false => rfl
  | true =>
    have h : (r.pinPppChildren true).map (·.ppps) = chunks 512 r.ppps := by
      simp [pinPppChildren, Function.comp_def]
    rw [List.flatMap, h, flatten_chunks (by decide), if_pos rfl]

end PPPRegistry

/-! ### Pinning -/

namespace PinPPPChildren

variable (profile : Profile) (upcalls : PppUpcalls)

/-- The closure of `do_work`, which captures `ppp_children`. -/
def visitObject (pppChildren : List ObjectReference) (targetObject : ObjectReference)
    (pin : Bool) : List ObjectReference × ObjectReference :=
  (if pin then pppChildren ++ [targetObject] else pppChildren, targetObject)

/-- The code that runs under the closure, with `num_no_longer_ppps`. -/
def scanLoop : List ObjectReference → Upcall × ℕ
  | [] => (.done, 0)
  | obj :: ppps =>
    let (rest, numNoLongerPpps) := scanLoop ppps
    if upcalls.isNoLongerPpp obj then (rest, numNoLongerPpps + 1)
    else ((upcalls.callGcMarkChildren obj).andThen rest, numNoLongerPpps)

/-- The first half of `PinPPPChildren::do_work`, up to the loop that pins: `ppp_children`,
`num_no_longer_ppps`, and the closure of the thread. -/
def scan (closure : ObjectClosure) (p : PinPPPChildren) :
    Except Panic (List ObjectReference × ℕ × ObjectClosure) := do
  let (f, numNoLongerPpps) := scanLoop upcalls p.ppps
  let (pppChildren, closure) ← closure.setTemporarilyAndRunCode profile visitObject f []
  return (pppChildren, numNoLongerPpps, closure)

end PinPPPChildren

/-- The children that an object reports with `pin = true`, if it still is a PPP. -/
def PppUpcalls.pinnedChildren (upcalls : PppUpcalls) (obj : ObjectReference) :
    List ObjectReference :=
  if upcalls.isNoLongerPpp obj then []
  else ((upcalls.callGcMarkChildren obj).visits.filter Prod.snd).map Prod.fst

namespace PinPPPChildren

variable (profile : Profile) (upcalls : PppUpcalls)

lemma foldl_visitObject (visits : List (ObjectReference × Bool))
    (pppChildren : List ObjectReference) :
    visits.foldl (fun s v => (visitObject s v.1 v.2).1) pppChildren =
      pppChildren ++ (visits.filter Prod.snd).map Prod.fst := by
  induction visits generalizing pppChildren with
  | nil => simp
  | cons v visits ih =>
    obtain ⟨target, pin⟩ := v
    rw [List.foldl_cons, ih]
    cases pin <;> simp [visitObject]

lemma visits_scanLoop (ppps : List ObjectReference) :
    ((scanLoop upcalls ppps).1.visits.filter Prod.snd).map Prod.fst =
      ppps.flatMap upcalls.pinnedChildren := by
  induction ppps with
  | nil => rfl
  | cons obj ppps ih =>
    rw [List.flatMap_cons, ← ih, PppUpcalls.pinnedChildren]
    cases h : upcalls.isNoLongerPpp obj <;> simp [scanLoop, h, Upcall.visits_andThen]

/-- The scan collects the children of the PPPs of the packet, in order. -/
lemma scan_eq (p : PinPPPChildren) :
    ∃ numNoLongerPpps, p.scan profile upcalls .unregistered =
      .ok (p.ppps.flatMap upcalls.pinnedChildren, numNoLongerPpps, .unregistered) := by
  have hsame : ∀ s object pin, (visitObject s object pin).2 = object := fun _ _ _ => rfl
  refine ⟨(scanLoop upcalls p.ppps).2, ?_⟩
  simp only [scan, ObjectClosure.setTemporarilyAndRunCode_unregistered,
    Upcall.run_eq_foldl hsame, foldl_visitObject, visits_scanLoop, List.nil_append, bind,
    Except.bind, pure, Except.pure]

end PinPPPChildren

/-! ### Unpinning -/

namespace UnpinPPPChildren

variable (profile : Profile)

/-- One iteration of the loop, on the pin bits. -/
def iteration (isPinned : ObjectReference → Bool) (obj : ObjectReference) :
    Except Panic (ObjectReference → Bool) :=
  let (unpinned, isPinned) := testAndClear isPinned obj
  if profile = .debug ∧ unpinned = false then .error .notUnpinned else .ok isPinned

/-- `UnpinPPPChildren::do_work`. -/
def doWork (p : UnpinPPPChildren) (isPinned : ObjectReference → Bool) :
    Except Panic (ObjectReference → Bool) :=
  p.children.foldlM (iteration profile) isPinned

end UnpinPPPChildren

/-! ### Removing -/

namespace RemoveDeadPPPs

variable (traced : Traced) (isNoLongerPpp : ObjectReference → Bool)

/-- What the packet reports in its probe. -/
structure Counters where
  numPpps : ℕ
  numNoLongerPpps : ℕ
  numDeadPpps : ℕ
deriving DecidableEq, Repr

/-- One call of the closure given to `retain_mut`, on what it has kept and counted so far. -/
def retain (acc : List ObjectReference × ℕ × ℕ) (obj : ObjectReference) :
    List ObjectReference × ℕ × ℕ :=
  let (kept, numNoLongerPpps, numDeadPpps) := acc
  if traced.isLive obj then
    let newObj := (traced.getForwardedObject obj).getD obj
    if isNoLongerPpp newObj then (kept, numNoLongerPpps + 1, numDeadPpps)
    else (kept ++ [newObj], numNoLongerPpps, numDeadPpps)
  else (kept, numNoLongerPpps, numDeadPpps + 1)

/-- `RemoveDeadPPPs::do_work`. -/
def doWork (r : PPPRegistry) : Counters × PPPRegistry :=
  let numPpps := r.ppps.length
  let (ppps, numNoLongerPpps, numDeadPpps) := r.ppps.foldl (retain traced isNoLongerPpp) ([], 0, 0)
  ({ numPpps, numNoLongerPpps, numDeadPpps }, { r with ppps })

end RemoveDeadPPPs

end MmtkRuby
