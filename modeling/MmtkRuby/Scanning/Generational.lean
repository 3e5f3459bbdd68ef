import MmtkRuby.Core.TransitionSystem
import MmtkRuby.Scanning.WbUnprotected
import MmtkRuby.WeakProc.WbUnprotected

/-!
# Generational GCs leave no field dangling

A nursery GC neither moves nor scans the old objects that no write barrier has reported. A young
object that only such an object refers to must therefore be made a root, and must stay where it is,
since nobody updates the field. Stores without a barrier are made to WB-unprotected objects only;
the set of these, over any number of GCs, and the packets that scan it see to the rest.
-/

namespace MmtkRuby

open Core

namespace Generational

variable {Obj : Type*} {profile : Profile}

/-! ### The roots of a GC -/

/-- What CRuby visits when it is asked for roots. -/
structure RootUpcalls where
  /-- `scan_roots_in_mutator_thread`, for each mutator -/
  scanRootsInMutatorThread : List Upcall
  /-- the upcall that each of the global scanners makes -/
  scanRoots : GlobalRootScanner → Upcall
  scanObjectRubyStyle : ObjectReference → Upcall

/-- The upcalls that report roots in every GC. -/
def RootUpcalls.callbacks (upcalls : RootUpcalls) (work : RootScanningWork) : List Upcall :=
  upcalls.scanRootsInMutatorThread ++ work.rootScanningWorkPackets.map upcalls.scanRoots

/-- The objects that a worker hands over when it scans the mutators and runs the packets of
`scan_vm_specific_roots`, those for the WB-unprotected objects in the given order. -/
def scanRoots (profile : Profile) (upcalls : RootUpcalls)
    (isReachable : ObjectReference → Bool) (work : RootScanningWork)
    (order : List ScanWbUnprotectedRoots) : Except Panic (List ObjectReference) := do
  let (factory, closure) ← VMScanning.collectObjectRootsInEach profile .unregistered []
    (upcalls.callbacks work)
  let s ← ScanWbUnprotectedRoots.run profile isReachable upcalls.scanObjectRubyStyle order
    ⟨[], factory, closure⟩
  return s.factory.flatten

lemma scanRoots_eq (upcalls : RootUpcalls) (isReachable : ObjectReference → Bool)
    (work : RootScanningWork) (order : List ScanWbUnprotectedRoots) :
    scanRoots profile upcalls isReachable work order =
      .ok ((upcalls.callbacks work).flatMap (fun callback => callback.visits.map Prod.fst) ++
        ScanWbUnprotectedRoots.children isReachable upcalls.scanObjectRubyStyle
          (order.flatMap (·.objects))) := by
  have hpos : 0 < VMScanning.objectBufferSize := by decide
  have hflatten : ((upcalls.callbacks work).flatMap fun callback =>
      chunks VMScanning.objectBufferSize (callback.visits.map Prod.fst)).flatten =
      (upcalls.callbacks work).flatMap fun callback => callback.visits.map Prod.fst := by
    induction upcalls.callbacks work with
    | nil => rfl
    | cons callback callbacks ih =>
      rw [List.flatMap_cons, List.flatten_append, ih, flatten_chunks hpos, List.flatMap_cons]
  simp only [scanRoots, VMScanning.collectObjectRootsInEach_eq, ScanWbUnprotectedRoots.run_eq,
    bind, Except.bind, pure, Except.pure, List.nil_append]
  rw [List.flatten_append, hflatten, ScanWbUnprotectedRoots.flatten_batches]

/-! ### The heap -/

/-- A field or a root: the address that it holds, with what was there when it was stored. -/
abbrev Ref (Obj : Type*) := ObjectReference × Obj

/-- The heap as the mutators see it, and what the binding and mmtk-core remember of it. -/
structure State (Obj : Type*) where
  wbUnprotectedObjects : Finset ObjectReference
  heap : Heap ObjectReference Obj
  fields : Obj → List (Ref Obj)
  roots : List (Ref Obj)
  /-- the objects that CRuby has registered as WB-unprotected -/
  unprotected : Set Obj
  /-- the objects that have survived a GC -/
  old : Set Obj
  /-- the objects that write barriers have reported since the last GC -/
  modbuf : Set Obj

/-- A nursery GC scans, of the old objects, those that a write barrier has reported. -/
def State.Scanned (s : State Obj) (generational : Option Bool) (o : Obj) : Prop :=
  generational = some true → o ∈ s.old → o ∈ s.modbuf

/-- What CRuby promises when it is asked for roots: every root is visited, and so are the fields of
an object that is scanned. -/
structure RootUpcalls.Visits (upcalls : RootUpcalls) (work : RootScanningWork)
    (s : State Obj) : Prop where
  roots : ∀ q ∈ s.roots, ∃ callback ∈ upcalls.callbacks work,
    q.1 ∈ callback.visits.map Prod.fst
  fields : ∀ a o, s.heap.objectAt a = some o → ∀ q ∈ s.fields o,
    q.1 ∈ (upcalls.scanObjectRubyStyle a).visits.map Prod.fst

/-- What mmtk-core promises of a trace: the roots are reachable and stay where they are, so do the
old objects in a nursery GC, and what a scanned object refers to is reachable. -/
structure Traces (s : State Obj) (generational : Option Bool) (roots : List ObjectReference)
    (traced : Traced) (heap' : Heap ObjectReference Obj) : Prop where
  relocates : traced.collection.Relocates s.heap heap'
  roots : ∀ a ∈ roots, traced.isReachable a = true ∧ a.forward traced = a
  old : generational = some true → ∀ a, ∀ o ∈ s.old, s.heap.objectAt a = some o →
    traced.isReachable a = true ∧ a.forward traced = a
  closed : ∀ a o, s.heap.objectAt a = some o → traced.isReachable a = true →
    s.Scanned generational o → ∀ q ∈ s.fields o, traced.isReachable q.1 = true

open Classical in
/-- After the GC the fields of the scanned objects have new addresses, all survivors are old, and
nothing has been written yet. -/
noncomputable def State.collect (s : State Obj) (generational : Option Bool) (traced : Traced)
    (heap' : Heap ObjectReference Obj) (oldObjects : List ObjectReference) : State Obj where
  wbUnprotectedObjects := UpdateWbUnprotectedObjectsList.doWork traced oldObjects
  heap := heap'
  fields o :=
    if s.Scanned generational o then (s.fields o).map fun q => (q.1.forward traced, q.2)
    else s.fields o
  roots := s.roots
  unprotected := s.unprotected
  old := {o | o ∈ heap'}
  modbuf := ∅

section Steps

variable [DecidableEq Obj]

/-- Mutators store references that they have, and load from objects that they have. -/
inductive Step (profile : Profile) : State Obj → Actor → State Obj → Prop where
  | alloc {s : State Obj} (a : ObjectReference) (o : Obj) (hfree : s.heap.objectAt a = none)
      (hnew : o ∉ s.heap) :
      Step profile s .mutator
        { s with
          heap := s.heap.alloc a o hnew
          fields := Function.update s.fields o []
          roots := (a, o) :: s.roots
          unprotected := s.unprotected \ {o} }
  | load {s : State Obj} {p : Ref Obj} (q : Ref Obj) (hp : p ∈ s.roots) (hq : q ∈ s.fields p.2) :
      Step profile s .mutator { s with roots := q :: s.roots }
  | drop {s : State Obj} (roots : List (Ref Obj)) (hsubset : roots ⊆ s.roots) :
      Step profile s .mutator { s with roots }
  | clear {s : State Obj} (o : Obj) (fields : List (Ref Obj)) (hsubset : fields ⊆ s.fields o) :
      Step profile s .mutator { s with fields := Function.update s.fields o fields }
  | registerWbUnprotectedObject {s : State Obj} {p : Ref Obj} (hp : p ∈ s.roots) :
      Step profile s .mutator
        { s with
          wbUnprotectedObjects := registerWbUnprotectedObject s.wbUnprotectedObjects p.1
          unprotected := insert p.2 s.unprotected }
  -- a store that is followed by `mmtk_object_reference_write_post`
  | store {s : State Obj} {p q : Ref Obj} (hp : p ∈ s.roots) (hq : q ∈ s.roots) :
      Step profile s .mutator
        { s with
          fields := Function.update s.fields p.2 (q :: s.fields p.2)
          modbuf := insert p.2 s.modbuf }
  | storeWithoutBarrier {s : State Obj} {p q : Ref Obj} (hp : p ∈ s.roots) (hq : q ∈ s.roots)
      (hunprotected : p.2 ∈ s.unprotected) :
      Step profile s .mutator
        { s with fields := Function.update s.fields p.2 (q :: s.fields p.2) }
  | gc {s : State Obj} (upcalls : RootUpcalls) (generational : Option Bool)
      (iteration : List ObjectReference) (order : List ScanWbUnprotectedRoots)
      (isReachable : ObjectReference → Bool) {work : RootScanningWork}
      {roots : List ObjectReference} {traced : Traced} {heap' : Heap ObjectReference Obj}
      (oldObjects : List ObjectReference)
      (hiteration : iteration.toFinset = s.wbUnprotectedObjects)
      (hwork : work = VMScanning.scanVmSpecificRoots generational iteration)
      (horder : order.Perm work.wbUnprotectedPackets) (hvisits : upcalls.Visits work s)
      (hold : generational = some true → ∀ a, ∀ o ∈ s.old, s.heap.objectAt a = some o →
        isReachable a = true)
      (hroots : scanRoots profile upcalls isReachable work order = .ok roots)
      (htraces : Traces s generational roots traced heap')
      (hnodup : oldObjects.Nodup) (holdObjects : oldObjects.toFinset = s.wbUnprotectedObjects) :
      Step profile s .gc (s.collect generational traced heap' oldObjects)

/-- Runs from an empty heap. -/
def system (profile : Profile) (Obj : Type*) [DecidableEq Obj] :
    TransitionSystem (State Obj) Actor where
  init s := s.wbUnprotectedObjects = ∅ ∧ (∀ a, s.heap.objectAt a = none) ∧ s.roots = [] ∧
    s.unprotected = ∅ ∧ s.old = ∅
  step := Step profile

end Steps

/-! ### What each state promises -/

/-- Every reference names what it named when it was stored, and an old object that refers to a young
one is known to the next nursery GC. -/
structure Inv (s : State Obj) : Prop where
  roots : ∀ q ∈ s.roots, s.heap.objectAt q.1 = some q.2
  fields : ∀ a o, s.heap.objectAt a = some o → ∀ q ∈ s.fields o, s.heap.objectAt q.1 = some q.2
  old : ∀ o ∈ s.old, o ∈ s.heap
  unprotected : ∀ a o, s.heap.objectAt a = some o → o ∈ s.unprotected →
    a ∈ s.wbUnprotectedObjects
  remembered : ∀ o ∈ s.old, ∀ q ∈ s.fields o, q.2 ∉ s.old → o ∈ s.modbuf ∨ o ∈ s.unprotected

section Gc

variable {s : State Obj} {upcalls : RootUpcalls} {generational : Option Bool}
  {iteration oldObjects roots : List ObjectReference} {order : List ScanWbUnprotectedRoots}
  {isReachable : ObjectReference → Bool} {work : RootScanningWork} {traced : Traced}
  {heap' : Heap ObjectReference Obj}

/-- The addresses of the mutators' roots are handed over. -/
lemma mem_roots_of_root (hvisits : upcalls.Visits work s)
    (hroots : scanRoots profile upcalls isReachable work order = .ok roots)
    {q : Ref Obj} (hq : q ∈ s.roots) : q.1 ∈ roots := by
  rw [scanRoots_eq, Except.ok.injEq] at hroots
  obtain ⟨callback, hcallback, hvisited⟩ := hvisits.roots q hq
  rw [← hroots]
  exact List.mem_append_left _ (List.mem_flatMap.mpr ⟨callback, hcallback, hvisited⟩)

/-- In a nursery GC so are the fields of the reachable WB-unprotected objects. -/
lemma mem_roots_of_field (hiteration : iteration.toFinset = s.wbUnprotectedObjects)
    (horder : order.Perm
      (VMScanning.scanVmSpecificRoots generational iteration).wbUnprotectedPackets)
    (hvisits : upcalls.Visits work s)
    (hroots : scanRoots profile upcalls isReachable work order = .ok roots)
    (hnursery : generational = some true) {a : ObjectReference} {o : Obj}
    (ha : s.heap.objectAt a = some o) (hmem : a ∈ s.wbUnprotectedObjects)
    (hreachable : isReachable a = true) {q : Ref Obj} (hq : q ∈ s.fields o) : q.1 ∈ roots := by
  rw [scanRoots_eq, Except.ok.injEq] at hroots
  rw [VMScanning.wbUnprotectedPackets_eq, if_pos hnursery] at horder
  have hobjects : (order.flatMap (·.objects)).Perm iteration := by
    have hperm := horder.flatMap_right (·.objects)
    rw [List.flatMap_map, List.flatMap_id', flatten_chunks (by decide)] at hperm
    exact hperm
  rw [← hiteration, List.mem_toFinset, ← hobjects.mem_iff] at hmem
  rw [← hroots]
  refine List.mem_append_right _ (List.mem_flatMap.mpr ⟨a, ?_, hvisits.fields a o ha q hq⟩)
  exact List.mem_filter.mpr ⟨hmem, hreachable⟩

lemma Traces.objectAt_of_stays (h : Traces s generational roots traced heap') {q : Ref Obj}
    (hq : s.heap.objectAt q.1 = some q.2)
    (hstays : traced.isReachable q.1 = true ∧ q.1.forward traced = q.1) :
    heap'.objectAt q.1 = some q.2 := by
  obtain ⟨hreachable, hforward⟩ := hstays
  have hmoved := h.relocates.objectAt_forward hq hreachable
  rwa [show traced.collection.forward q.1 = q.1 from hforward] at hmoved

/-- A reference in a field names the same object after a GC: the field has been updated, or what it
refers to has not moved. -/
lemma Inv.fields_collect (h : Inv s) (oldObjects : List ObjectReference)
    (hiteration : iteration.toFinset = s.wbUnprotectedObjects)
    (horder : order.Perm
      (VMScanning.scanVmSpecificRoots generational iteration).wbUnprotectedPackets)
    (hvisits : upcalls.Visits work s)
    (hold : generational = some true → ∀ a, ∀ o ∈ s.old, s.heap.objectAt a = some o →
      isReachable a = true)
    (hroots : scanRoots profile upcalls isReachable work order = .ok roots)
    (htraces : Traces s generational roots traced heap') :
    ∀ b o, heap'.objectAt b = some o →
      ∀ q ∈ (s.collect generational traced heap' oldObjects).fields o,
        heap'.objectAt q.1 = some q.2 := by
  intro b o hb q hq
  obtain ⟨a, ha, hkept, -⟩ := (htraces.relocates b o).mp hb
  by_cases hscanned : s.Scanned generational o
  · simp only [State.collect, if_pos hscanned] at hq
    obtain ⟨p, hp, rfl⟩ := List.mem_map.mp hq
    exact htraces.relocates.objectAt_forward (h.fields a o ha p hp)
      (htraces.closed a o ha hkept hscanned p hp)
  · simp only [State.collect, if_neg hscanned] at hq
    simp only [State.Scanned, not_forall] at hscanned
    obtain ⟨hnursery, holdObject, hsilent⟩ := hscanned
    have hname := h.fields a o ha q hq
    refine htraces.objectAt_of_stays hname ?_
    by_cases hyoung : q.2 ∈ s.old
    · exact htraces.old hnursery q.1 q.2 hyoung hname
    · -- no barrier has reported the object, so it is WB-unprotected
      have hunprotected := (h.remembered o holdObject q hq hyoung).resolve_left hsilent
      exact htraces.roots q.1 (mem_roots_of_field hiteration horder hvisits hroots hnursery ha
        (h.unprotected a o ha hunprotected) (hold hnursery a o holdObject ha) hq)

/-- The set of WB-unprotected objects keeps those that survive, at their new addresses. -/
lemma Inv.unprotected_collect (h : Inv s) (htraces : Traces s generational roots traced heap')
    (holdObjects : oldObjects.toFinset = s.wbUnprotectedObjects) {b : ObjectReference} {o : Obj}
    (hb : heap'.objectAt b = some o) (hunprotected : o ∈ s.unprotected) :
    b ∈ UpdateWbUnprotectedObjectsList.doWork traced oldObjects := by
  obtain ⟨a, ha, hkept, hforward⟩ := (htraces.relocates b o).mp hb
  have hmem := h.unprotected a o ha hunprotected
  rw [← holdObjects, List.mem_toFinset] at hmem
  exact (UpdateWbUnprotectedObjectsList.mem_doWork traced).mpr ⟨a, hmem, hkept, hforward⟩

end Gc

section Mutator

variable [DecidableEq Obj] {s : State Obj}

/-- A new object is referred to by nothing but its root. -/
lemma Inv.alloc (h : Inv s) {a : ObjectReference} {o : Obj} (hfree : s.heap.objectAt a = none)
    (hnew : o ∉ s.heap) :
    Inv { s with
      heap := s.heap.alloc a o hnew
      fields := Function.update s.fields o []
      roots := (a, o) :: s.roots
      unprotected := s.unprotected \ {o} } := by
  have hkept : ∀ q : Ref Obj, s.heap.objectAt q.1 = some q.2 →
      (s.heap.alloc a o hnew).objectAt q.1 = some q.2 := fun q hq =>
    (Heap.objectAt_alloc_iff hfree hnew).mpr (Or.inr hq)
  refine ⟨?_, ?_, ?_, ?_, ?_⟩
  · intro q hq
    rcases List.mem_cons.mp hq with rfl | hq
    · exact (Heap.objectAt_alloc_iff hfree hnew).mpr (Or.inl ⟨rfl, rfl⟩)
    · exact hkept q (h.roots q hq)
  · intro b o' hb q hq
    rcases (Heap.objectAt_alloc_iff hfree hnew).mp hb with ⟨-, rfl⟩ | hb
    · simp at hq
    · have ho : o' ≠ o := fun heq => hnew (heq ▸ Heap.mem_of_objectAt hb)
      simp only [Function.update_of_ne ho] at hq
      exact hkept q (h.fields b o' hb q hq)
  · exact fun o' ho' => (Heap.mem_alloc hfree hnew).mpr (Or.inr (h.old o' ho'))
  · rintro b o' hb ⟨hunprotected, hne⟩
    rcases (Heap.objectAt_alloc_iff hfree hnew).mp hb with ⟨-, heq⟩ | hb
    · exact absurd heq hne
    · exact h.unprotected b o' hb hunprotected
  · intro o' ho' q hq hyoung
    have ho : o' ≠ o := fun heq => hnew (heq ▸ h.old o' ho')
    simp only [Function.update_of_ne ho] at hq
    exact (h.remembered o' ho' q hq hyoung).imp_right fun hunprotected => ⟨hunprotected, ho⟩

/-- Writing references that a mutator has into the fields of one object. -/
lemma Inv.write (h : Inv s) {o : Obj} {fields : List (Ref Obj)} {modbuf : Set Obj}
    (hvalid : ∀ q ∈ fields, q ∈ s.fields o ∨ q ∈ s.roots) (hmodbuf : s.modbuf ⊆ modbuf)
    (hremembered : fields ⊆ s.fields o ∨ o ∈ modbuf ∨ o ∈ s.unprotected) :
    Inv { s with fields := Function.update s.fields o fields, modbuf } := by
  refine ⟨h.roots, ?_, h.old, h.unprotected, ?_⟩
  · intro a o' ha q hq
    by_cases ho : o' = o
    · subst ho
      simp only [Function.update_self] at hq
      exact (hvalid q hq).elim (h.fields a o' ha q) (h.roots q)
    · simp only [Function.update_of_ne ho] at hq
      exact h.fields a o' ha q hq
  · intro o' ho' q hq hyoung
    by_cases ho : o' = o
    · subst ho
      simp only [Function.update_self] at hq
      rcases hremembered with hsubset | hreported
      · exact (h.remembered o' ho' q (hsubset hq) hyoung).imp_left fun hold => hmodbuf hold
      · exact hreported
    · simp only [Function.update_of_ne ho] at hq
      exact (h.remembered o' ho' q hq hyoung).imp_left fun hold => hmodbuf hold

end Mutator

lemma inv_invariant [DecidableEq Obj] : (system profile Obj).IsInvariant Inv where
  init := by
    rintro s ⟨hset, hheap, hroots, hunprotected, hold⟩
    refine ⟨?_, ?_, ?_, ?_, ?_⟩ <;> simp [hheap, hroots, hunprotected, hold]
  step := by
    intro s l s' _ h hstep
    cases hstep with
    | alloc a o hfree hnew => exact h.alloc hfree hnew
    | @load p q hp hq =>
      refine ⟨?_, h.fields, h.old, h.unprotected, h.remembered⟩
      intro r hr
      rcases List.mem_cons.mp hr with rfl | hr
      · exact h.fields p.1 p.2 (h.roots p hp) r hq
      · exact h.roots r hr
    | drop roots hsubset =>
      exact ⟨fun q hq => h.roots q (hsubset hq), h.fields, h.old, h.unprotected, h.remembered⟩
    | clear o fields hsubset =>
      exact h.write (fun q hq => Or.inl (hsubset hq)) subset_rfl (Or.inl hsubset)
    | @registerWbUnprotectedObject p hp =>
      refine ⟨h.roots, h.fields, h.old, ?_, ?_⟩
      · rintro a o ha (rfl | hunprotected)
        · have hsame := s.heap.unique ha (h.roots p hp)
          exact Finset.mem_insert.mpr (Or.inl hsame)
        · exact Finset.mem_insert_of_mem (h.unprotected a o ha hunprotected)
      · intro o ho q hq hyoung
        exact (h.remembered o ho q hq hyoung).imp_right (Set.mem_insert_of_mem _)
    | @store p q hp hq =>
      refine h.write (fun r hr => ?_) (Set.subset_insert _ _)
        (Or.inr (Or.inl (Set.mem_insert _ _)))
      rcases List.mem_cons.mp hr with rfl | hr
      · exact Or.inr hq
      · exact Or.inl hr
    | @storeWithoutBarrier p q hp hq hunprotected =>
      refine h.write (fun r hr => ?_) subset_rfl (Or.inr (Or.inr hunprotected))
      rcases List.mem_cons.mp hr with rfl | hr
      · exact Or.inr hq
      · exact Or.inl hr
    | gc upcalls generational iteration order isReachable oldObjects hiteration hwork horder hvisits
        hold hroots htraces hnodup holdObjects =>
      have hfields :=
        h.fields_collect oldObjects hiteration (hwork ▸ horder) hvisits hold hroots htraces
      refine ⟨?_, hfields, fun o ho => ho, ?_, ?_⟩
      · exact fun q hq => htraces.objectAt_of_stays (h.roots q hq)
          (htraces.roots q.1 (mem_roots_of_root hvisits hroots hq))
      · exact fun b o hb hunprotected => h.unprotected_collect htraces holdObjects hb hunprotected
      · rintro o ⟨b, hb⟩ q hq hyoung
        exact absurd (Heap.mem_of_objectAt (hfields b o hb q hq)) hyoung

/-- No reference dangles: the mutators' and those in the fields of the objects in the heap name the
objects that they named when they were stored. -/
structure NoneDangles (s : State Obj) : Prop where
  roots : ∀ q ∈ s.roots, s.heap.objectAt q.1 = some q.2
  fields : ∀ a o, s.heap.objectAt a = some o → ∀ q ∈ s.fields o, s.heap.objectAt q.1 = some q.2

/-- In every run, over any number of nursery and other GCs, no reference dangles. -/
theorem noneDangles_of_reachable [DecidableEq Obj] {s : State Obj}
    (hs : (system profile Obj).Reachable s) : NoneDangles s := by
  have h := inv_invariant.of_reachable hs
  exact ⟨h.roots, h.fields⟩

/-! #### A field that no barrier has reported -/

/-- A GC that moves nothing. -/
def unmoved : Traced := ⟨fun _ => true, fun _ => true, fun _ => none⟩

lemma fields_collect_unmoved (s : State ℕ) (generational : Option Bool)
    (heap' : Heap ObjectReference ℕ) (oldObjects : List ObjectReference) :
    (s.collect generational unmoved heap' oldObjects).fields = s.fields := by
  funext o
  simp only [State.collect]
  split_ifs
  · exact List.map_id _
  · rfl

lemma reachable_unmoved {s : State ℕ} (hs : (system profile ℕ).Reachable s)
    (upcalls : RootUpcalls) (generational : Option Bool) (iteration : List ObjectReference)
    (hnodup : iteration.Nodup) (hiteration : iteration.toFinset = s.wbUnprotectedObjects)
    (hvisits : upcalls.Visits (VMScanning.scanVmSpecificRoots generational iteration) s) :
    (system profile ℕ).Reachable (s.collect generational unmoved s.heap iteration) := by
  refine hs.step (.gc upcalls generational iteration _ (fun _ => true) iteration hiteration rfl
    (.refl _) hvisits (fun _ _ _ _ _ => rfl) (scanRoots_eq _ _ _ _) ⟨?_, ?_, ?_, ?_⟩ hnodup
    hiteration)
  · intro b o
    constructor
    · exact fun hb => ⟨b, hb, rfl, rfl⟩
    · rintro ⟨a, ha, -, rfl⟩
      exact ha
  · exact fun _ _ => ⟨rfl, rfl⟩
  · exact fun _ _ _ _ _ => ⟨rfl, rfl⟩
  · exact fun _ _ _ _ _ _ _ => rfl

/-- The young object 1 is only referred to by the old object 0, to which it was stored without a
barrier. -/
lemma reachable_unreported : ∃ (s : State ℕ) (parent child : ObjectReference),
    (system .release ℕ).Reachable s ∧ s.wbUnprotectedObjects = {parent} ∧ s.roots = [] ∧
    (∀ o, s.fields o = if o = 0 then [(child, 1)] else []) ∧
    s.heap.objectAt child = some 1 := by
  let parent : ObjectReference := ⟨4096, by decide⟩
  let child : ObjectReference := ⟨8192, by decide⟩
  let empty : Heap ObjectReference ℕ := ⟨fun _ => none, by simp⟩
  have hparent : 0 ∉ empty := by
    rintro ⟨a, ha⟩
    cases ha
  have hchild : 1 ∉ empty.alloc parent 0 hparent := by
    rintro ⟨a, ha⟩
    rcases (Heap.objectAt_alloc_iff rfl hparent).mp ha with ⟨-, heq⟩ | ha
    · cases heq
    · cases ha
  have h₀ : (system .release ℕ).Reachable ⟨∅, empty, fun _ => [], [], ∅, ∅, ∅⟩ :=
    .init ⟨rfl, fun _ => rfl, rfl, rfl, rfl⟩
  have h₁ := h₀.step (.alloc parent 0 rfl hparent)
  have h₂ := h₁.step (.registerWbUnprotectedObject (p := (parent, 0)) List.mem_cons_self)
  have h₃ := reachable_unmoved h₂
    ⟨[.visit parent false fun _ => .done], fun _ => .done, fun _ => .done⟩ (some false) [parent]
    (List.nodup_singleton _) rfl ⟨?_, by simp⟩
  have h₄ := h₃.step (.alloc child 1 rfl hchild)
  have h₅ := h₄.step (.storeWithoutBarrier (p := (parent, 0)) (q := (child, 1))
    (List.mem_cons_of_mem _ List.mem_cons_self) List.mem_cons_self ?_)
  have h₆ := h₅.step (.drop [] (List.nil_subset _))
  · refine ⟨_, parent, child, h₆, rfl, rfl, fun o => ?_, rfl⟩
    by_cases ho : o = 0
    · simp [ho, fields_collect_unmoved]
    · by_cases ho' : o = 1 <;> simp [ho, ho', fields_collect_unmoved]
  · simp [State.collect]
  · intro q hq
    rw [List.mem_singleton.mp hq]
    exact ⟨_, List.mem_cons_self, List.mem_cons_self⟩

/-- CRuby has no roots, and visits the child whenever it scans an object. -/
def visitsChild (child : ObjectReference) : RootUpcalls where
  scanRootsInMutatorThread := []
  scanRoots _ := .done
  scanObjectRubyStyle _ := .visit child false fun _ => .done

lemma visits_visitsChild {s : State ℕ} {child : ObjectReference} (hroots : s.roots = [])
    (hfields : ∀ o, s.fields o = if o = 0 then [(child, 1)] else []) (work : RootScanningWork) :
    (visitsChild child).Visits work s := by
  constructor
  · rw [hroots]
    exact fun q hq => absurd hq List.not_mem_nil
  · intro a o _ q hq
    rw [hfields] at hq
    split_ifs at hq
    · rw [List.mem_singleton.mp hq]
      exact List.mem_cons_self
    · cases hq

/-- The young object is still there after a nursery GC. -/
theorem noneDangles_nursery : ∃ (s : State ℕ) (child : ObjectReference),
    (system .release ℕ).Reachable s ∧ s.roots = [] ∧ s.fields 0 = [(child, 1)] ∧
    s.heap.objectAt child = some 1 ∧ NoneDangles s := by
  obtain ⟨s, parent, child, hs, hset, hroots, hfields, hchild⟩ := reachable_unreported
  have hiteration : [parent].toFinset = s.wbUnprotectedObjects := by rw [hset]; rfl
  have h := reachable_unmoved hs (visitsChild child) (some true) [parent]
    (List.nodup_singleton _) hiteration (visits_visitsChild hroots hfields _)
  refine ⟨_, child, h, hroots, ?_, hchild, noneDangles_of_reachable h⟩
  rw [fields_collect_unmoved, hfields, if_pos rfl]

end Generational

end MmtkRuby
