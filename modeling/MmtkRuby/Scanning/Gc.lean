import Mathlib.Data.Finite.Defs
import MmtkRuby.Scanning.Generational
import MmtkRuby.Scanning.Termination

/-!
# A GC from the roots to the last field

The packets that scan roots hand objects over, and from these on workers trace the heap, of which a
nursery GC takes the old objects as marked. When the workers have come to the end, the heap is what
the mutators' view of a GC says it is: the new addresses that they have written are those of the
objects that the fields referred to.
-/

namespace MmtkRuby

open Core

namespace Generational

variable {Obj : Type*} {profile : Profile}

/-! ### The start of the trace -/

open Classical in
/-- What is visited at an address: the fields of the object, if the GC scans it. -/
noncomputable def State.fieldsAt (s : State Obj) (generational : Option Bool)
    (a : ObjectReference) : List ObjectReference :=
  match s.heap.objectAt a with
  | none => []
  | some o => if s.Scanned generational o then (s.fields o).map Prod.fst else []

/-- At the address is an old object that a nursery GC does not scan. -/
def State.Unscanned (s : State Obj) (generational : Option Bool) (a : ObjectReference) : Prop :=
  ∃ o, s.heap.objectAt a = some o ∧ ¬ s.Scanned generational o

/-- The trace starts with the roots. In a nursery GC the old objects are marked, and those that no
write barrier has reported need not be scanned. -/
structure TraceStarts (s : State Obj) (generational : Option Bool)
    (roots marked : List ObjectReference) (t : Tracing.State) : Prop where
  mem_marked : ∀ a, a ∈ marked ↔
    generational = some true ∧ ∃ o ∈ s.old, s.heap.objectAt a = some o
  forwarded : ∀ a b, t.tracer.forwarded a = some b ↔ a ∈ roots ++ marked ∧ a = b
  queue_nodup : t.tracer.queue.Nodup
  mem_queue : ∀ a, a ∈ t.tracer.queue ↔ a ∈ roots ++ marked ∧ ¬ s.Unscanned generational a
  scanning : t.scanning = 0
  written : ∀ b, t.written b = []
  scanned_nodup : t.scanned.Nodup
  mem_scanned : ∀ a, a ∈ t.scanned ↔ s.Unscanned generational a

section Start

variable {s : State Obj} {generational : Option Bool} {roots marked : List ObjectReference}
  {t : Tracing.State}

lemma State.fieldsAt_of_scanned {a : ObjectReference} {o : Obj}
    (ha : s.heap.objectAt a = some o) (hscanned : s.Scanned generational o) :
    s.fieldsAt generational a = (s.fields o).map Prod.fst := by
  simp [State.fieldsAt, ha, hscanned]

lemma State.fieldsAt_of_unscanned {a : ObjectReference} (ha : s.Unscanned generational a) :
    s.fieldsAt generational a = [] := by
  obtain ⟨o, ho, hnot⟩ := ha
  simp [State.fieldsAt, ho, hnot]

/-- What is visited has been stored in a field. -/
lemma State.mem_fieldsAt {a b : ObjectReference} (hb : b ∈ s.fieldsAt generational a) :
    ∃ o, s.heap.objectAt a = some o ∧ ∃ q ∈ s.fields o, q.1 = b := by
  cases ho : s.heap.objectAt a with
  | none => simp [State.fieldsAt, ho] at hb
  | some o =>
    by_cases hscanned : s.Scanned generational o
    · rw [State.fieldsAt_of_scanned ho hscanned] at hb
      exact ⟨o, rfl, List.mem_map.mp hb⟩
    · rw [State.fieldsAt_of_unscanned ⟨o, ho, hscanned⟩] at hb
      cases hb

/-- An object that is not scanned is marked. -/
lemma TraceStarts.mem_of_unscanned (h : TraceStarts s generational roots marked t)
    {a : ObjectReference} (ha : s.Unscanned generational a) : a ∈ roots ++ marked := by
  obtain ⟨o, ho, hnot⟩ := ha
  simp only [State.Scanned, not_forall] at hnot
  obtain ⟨hnursery, hold, -⟩ := hnot
  exact List.mem_append_right _ ((h.mem_marked a).mpr ⟨hnursery, o, hold, ho⟩)

lemma TraceStarts.inv (h : TraceStarts s generational roots marked t) :
    Tracing.Inv (s.fieldsAt generational) (roots ++ marked) t := by
  have hplaces : t.places = t.tracer.queue + (t.scanned : Multiset ObjectReference) := by
    simp [Tracing.State.places, h.scanning]
  have hmem : ∀ b, b ∈ t.places ↔ b ∈ roots ++ marked := by
    intro b
    rw [hplaces, Multiset.mem_add, Multiset.mem_coe, h.mem_queue, h.mem_scanned]
    constructor
    · rintro (⟨hb, -⟩ | hb)
      · exact hb
      · exact h.mem_of_unscanned hb
    · intro hb
      by_cases hunscanned : s.Unscanned generational b
      · exact Or.inr hunscanned
      · exact Or.inl ⟨hb, hunscanned⟩
  refine ⟨?_, ?_, fun r hr => (h.forwarded r r).mpr ⟨hr, rfl⟩, ?_, ?_, fun b _ _ => h.written b,
    ?_, ?_⟩
  · intro a b ha
    exact ⟨a, ((h.forwarded a b).mp ha).1, .refl⟩
  · intro a b c ha hb
    exact ((h.forwarded a c).mp ha).2.trans ((h.forwarded b c).mp hb).2.symm
  · rw [hplaces]
    refine Multiset.nodup_add.mpr ⟨h.queue_nodup, Multiset.coe_nodup.mpr h.scanned_nodup, ?_⟩
    rw [Multiset.disjoint_left]
    intro a hqueue hscanned
    exact ((h.mem_queue a).mp hqueue).2 ((h.mem_scanned a).mp (Multiset.mem_coe.mp hscanned))
  · intro b
    rw [hmem]
    constructor
    · intro hb
      exact ⟨b, (h.forwarded b b).mpr ⟨hb, rfl⟩⟩
    · rintro ⟨a, ha⟩
      obtain ⟨hroot, rfl⟩ := (h.forwarded a b).mp ha
      exact hroot
  · rw [h.scanning]
    exact fun scan hscan => absurd hscan (Multiset.notMem_zero scan)
  · intro b hb a ha
    obtain rfl := ((h.forwarded a b).mp ha).2
    rw [State.fieldsAt_of_unscanned ((h.mem_scanned a).mp hb), h.written]
    rfl

end Start

/-- Any part of a finite heap can be listed. -/
lemma exists_list_of_finite {heap : Heap ObjectReference Obj}
    (hfinite : {a | (heap.objectAt a).isSome}.Finite) {p : ObjectReference → Prop}
    (hp : ∀ a, p a → ∃ o, heap.objectAt a = some o) :
    ∃ l : List ObjectReference, l.Nodup ∧ ∀ a, a ∈ l ↔ p a := by
  have hpart : {a | p a}.Finite :=
    hfinite.subset fun a ha => Option.isSome_iff_exists.mpr (hp a ha)
  exact ⟨hpart.toFinset.toList, Finset.nodup_toList _, by simp⟩

open Classical in
/-- In a finite heap a trace can start with any roots. -/
lemma exists_traceStarts {s : State Obj} (hfinite : {a | (s.heap.objectAt a).isSome}.Finite)
    (generational : Option Bool) (roots : List ObjectReference) :
    ∃ marked t, TraceStarts s generational roots marked t := by
  obtain ⟨marked, -, hmarked⟩ := exists_list_of_finite hfinite
    (p := fun a => generational = some true ∧ ∃ o ∈ s.old, s.heap.objectAt a = some o)
    fun _ ⟨_, o, _, ho⟩ => ⟨o, ho⟩
  obtain ⟨scanned, hnodup, hscanned⟩ := exists_list_of_finite hfinite
    (p := s.Unscanned generational) fun _ ⟨o, ho, _⟩ => ⟨o, ho⟩
  refine ⟨marked, {
      tracer := {
        forwarded := fun a => if a ∈ roots ++ marked then some a else none
        queue := ((roots ++ marked).toFinset.filter fun a => ¬ s.Unscanned generational a).val }
      scanning := 0
      written := fun _ => []
      scanned }, hmarked, ?_, Finset.nodup _, ?_, rfl, fun _ => rfl, hnodup, hscanned⟩
  · intro a b
    simp only
    split_ifs with ha <;> simp [ha]
  · intro a
    rw [Finset.mem_val, Finset.mem_filter, List.mem_toFinset]

/-! ### The heap is finite -/

lemma finite_alloc {heap : Heap ObjectReference Obj} {a : ObjectReference} {o : Obj}
    (h : {a | (heap.objectAt a).isSome}.Finite) (hfree : heap.objectAt a = none)
    (hnew : o ∉ heap) : {b | ((heap.alloc a o hnew).objectAt b).isSome}.Finite := by
  refine (h.insert a).subset fun b hb => ?_
  obtain ⟨o', ho'⟩ := Option.isSome_iff_exists.mp hb
  rcases (Heap.objectAt_alloc_iff hfree hnew).mp ho' with ⟨rfl, -⟩ | ho'
  · exact Set.mem_insert _ _
  · exact Set.mem_insert_of_mem _ (Option.isSome_iff_exists.mpr ⟨o', ho'⟩)

/-- A GC makes no objects. -/
lemma finite_relocates {c : Collection ObjectReference} {heap heap' : Heap ObjectReference Obj}
    (h : {a | (heap.objectAt a).isSome}.Finite) (hrel : c.Relocates heap heap') :
    {b | (heap'.objectAt b).isSome}.Finite := by
  refine (h.image c.forward).subset fun b hb => ?_
  obtain ⟨o, ho⟩ := Option.isSome_iff_exists.mp hb
  obtain ⟨a, ha, -, hab⟩ := (hrel b o).mp ho
  exact ⟨a, Option.isSome_iff_exists.mpr ⟨o, ha⟩, hab⟩

lemma finite_invariant [DecidableEq Obj] : (system profile Obj).IsInvariant
    fun s => {a | (s.heap.objectAt a).isSome}.Finite where
  init := by
    rintro s ⟨-, hheap, -⟩
    simp [hheap]
  step := by
    intro s l s' _ h hstep
    cases hstep with
    | alloc a o hfree hnew => exact finite_alloc h hfree hnew
    | gc upcalls generational iteration order isReachable oldObjects _ _ _ _ _ _ htraces =>
      exact finite_relocates h htraces.relocates
    | load | drop | clear | registerWbUnprotectedObject | store | storeWithoutBarrier => exact h

/-- What can be reached is a root, or an object that a field refers to. -/
lemma finite_reaches [DecidableEq Obj] {s : State Obj} (hs : (system profile Obj).Reachable s)
    (generational : Option Bool) (roots : List ObjectReference) :
    {a | Tracing.Reaches (s.fieldsAt generational) roots a}.Finite := by
  refine (roots.finite_toSet.union (finite_invariant.of_reachable hs)).subset ?_
  rintro a ⟨r, hr, hpath⟩
  rcases hpath.cases_tail with rfl | ⟨b, -, hb⟩
  · exact Or.inl hr
  · obtain ⟨o, ho, q, hq, rfl⟩ := State.mem_fieldsAt hb
    have hname := (inv_invariant.of_reachable hs).fields b o ho q hq
    exact Or.inr (Option.isSome_iff_exists.mpr ⟨q.2, hname⟩)

/-! ### The end of the trace -/

section Trace

variable {s : State Obj} {generational : Option Bool} {roots marked : List ObjectReference}
  {t : Tracing.State} {heap' : Heap ObjectReference Obj}

/-- A trace that is over keeps the promises that the mutators rely on. -/
lemma traces_of_over
    (hmarked : ∀ a, a ∈ marked ↔
      generational = some true ∧ ∃ o ∈ s.old, s.heap.objectAt a = some o)
    (h : Tracing.Inv (s.fieldsAt generational) (roots ++ marked) t) (hover : t.Over)
    (hrel : t.traced.collection.Relocates s.heap heap') :
    Traces s generational roots t.traced heap' := by
  have hroot : ∀ a ∈ roots ++ marked,
      t.traced.isReachable a = true ∧ a.forward t.traced = a := fun a ha =>
    ⟨Option.isSome_iff_exists.mpr ⟨a, h.roots a ha⟩, Tracing.forward_traced (h.roots a ha)⟩
  refine ⟨hrel, fun a ha => hroot a (List.mem_append_left _ ha), ?_, ?_⟩
  · intro hnursery a o hold ho
    exact hroot a (List.mem_append_right _ ((hmarked a).mpr ⟨hnursery, o, hold, ho⟩))
  · intro a o ho hreachable hscanned q hq
    obtain ⟨b, hb⟩ := Option.isSome_iff_exists.mp hreachable
    have hmem : q.1 ∈ s.fieldsAt generational a := by
      rw [State.fieldsAt_of_scanned ho hscanned]
      exact List.mem_map_of_mem hq
    exact Option.isSome_iff_exists.mpr (h.exists_forwarded_field hover hb hmem)

/-- What the workers have written at the new address of a survivor. -/
lemma written_eq_map (h : Tracing.Inv (s.fieldsAt generational) (roots ++ marked) t)
    (hover : t.Over) (hrel : t.traced.collection.Relocates s.heap heap') {b : ObjectReference}
    {o : Obj} (hb : heap'.objectAt b = some o) :
    ∃ a, s.heap.objectAt a = some o ∧
      t.written b = (s.fieldsAt generational a).map (·.forward t.traced) := by
  obtain ⟨a, ho, hkept, hforward⟩ := (hrel b o).mp hb
  obtain ⟨b', ha⟩ := Option.isSome_iff_exists.mp hkept
  obtain rfl : b' = b := (Tracing.forward_traced ha).symm.trans hforward
  exact ⟨a, ho, h.written_eq hover ha⟩

end Trace

/-- What a GC in which the workers have come to `t` makes of the state. -/
structure CollectedBy (s : State Obj) (generational : Option Bool)
    (roots marked : List ObjectReference) (t : Tracing.State) (s' : State Obj) : Prop where
  survivors : ∀ o, o ∈ s'.heap ↔ ∃ a, s.heap.objectAt a = some o ∧
    Tracing.Reaches (s.fieldsAt generational) (roots ++ marked) a
  written : ∀ b o, s'.heap.objectAt b = some o → s.Scanned generational o →
    t.written b = (s'.fields o).map Prod.fst
  unwritten : ∀ b o, s'.heap.objectAt b = some o → ¬ s.Scanned generational o →
    t.written b = [] ∧ s'.fields o = s.fields o
  names : ∀ b o, s'.heap.objectAt b = some o →
    (s'.fields o).map (fun q => s'.heap.objectAt q.1) = (s.fields o).map fun q => some q.2
  roots : ∀ q ∈ s.roots, s'.heap.objectAt q.1 = some q.2

section Gc

variable [DecidableEq Obj] {s : State Obj} {upcalls : RootUpcalls} {generational : Option Bool}
  {iteration oldObjects roots marked : List ObjectReference} {order : List ScanWbUnprotectedRoots}
  {isReachable : ObjectReference → Bool} {t : Tracing.State}

omit [DecidableEq Obj] in
lemma collectedBy_collect {heap' : Heap ObjectReference Obj}
    (h : Tracing.Inv (s.fieldsAt generational) (roots ++ marked) t) (hover : t.Over)
    (hrel : t.traced.collection.Relocates s.heap heap')
    (hafter : Inv (s.collect generational t.traced heap' oldObjects)) :
    CollectedBy s generational roots marked t
      (s.collect generational t.traced heap' oldObjects) := by
  refine ⟨?_, ?_, ?_, ?_, hafter.roots⟩
  · intro o
    refine hrel.mem_iff.trans (exists_congr fun a => and_congr_right fun _ => ?_)
    exact h.isReachable_iff hover
  · intro b o hb hscanned
    obtain ⟨a, ho, hwritten⟩ := written_eq_map h hover hrel hb
    rw [hwritten, State.fieldsAt_of_scanned ho hscanned]
    simp [State.collect, hscanned]
  · intro b o hb hscanned
    obtain ⟨a, ho, hwritten⟩ := written_eq_map h hover hrel hb
    rw [State.fieldsAt_of_unscanned ⟨o, ho, hscanned⟩] at hwritten
    exact ⟨hwritten, by simp [State.collect, hscanned]⟩
  · intro b o hb
    refine (List.map_congr_left (hafter.fields b o hb)).trans ?_
    by_cases hscanned : s.Scanned generational o <;>
      simp [State.collect, hscanned, Function.comp_def]

/-- Every schedule of the workers comes to the end of the GC. The survivors are the objects that the
handed over roots and the marked objects reach, and the addresses in their fields, as the workers
have written them, name the objects that were stored there. -/
theorem gcCollects_of_reachable (hs : (system profile Obj).Reachable s)
    (hiteration : iteration.toFinset = s.wbUnprotectedObjects)
    (horder : order.Perm
      (VMScanning.scanVmSpecificRoots generational iteration).wbUnprotectedPackets)
    (hvisits : upcalls.Visits (VMScanning.scanVmSpecificRoots generational iteration) s)
    (hold : generational = some true → ∀ a, ∀ o ∈ s.old, s.heap.objectAt a = some o →
      isReachable a = true)
    (hroots : scanRoots profile upcalls isReachable
      (VMScanning.scanVmSpecificRoots generational iteration) order = .ok roots)
    (hnodup : oldObjects.Nodup) (holdObjects : oldObjects.toFinset = s.wbUnprotectedObjects)
    (hstarts : TraceStarts s generational roots marked t) :
    Inevitable (fun t t' => Tracing.Step (s.fieldsAt generational) t () t')
      (fun t => t.Over ∧ ∃ s', (system profile Obj).Reachable s' ∧
        CollectedBy s generational roots marked t s') t := by
  refine (hstarts.inv.inevitable_over (finite_reaches hs generational _)).mono ?_
  rintro t' ⟨hover, h⟩
  obtain ⟨heap', hrel⟩ := h.exists_relocates s.heap
  have hs' := hs.step (.gc upcalls generational iteration order isReachable oldObjects hiteration
    rfl horder hvisits hold hroots (traces_of_over hstarts.mem_marked h hover hrel) hnodup holdObjects)
  exact ⟨hover, _, hs', collectedBy_collect h hover hrel (inv_invariant.of_reachable hs')⟩

end Gc

/-- The nursery GC that keeps the young object, which only an unreported object refers to, ends. -/
theorem gcCollects_nursery : ∃ (s : State ℕ) (roots marked : List ObjectReference)
    (t : Tracing.State) (child : ObjectReference), child ∈ roots ∧ s.roots = [] ∧
    s.heap.objectAt child = some 1 ∧ TraceStarts s (some true) roots marked t ∧
    Inevitable (fun t t' => Tracing.Step (s.fieldsAt (some true)) t () t')
      (fun t => t.Over ∧ ∃ s', (system .release ℕ).Reachable s' ∧
        CollectedBy s (some true) roots marked t s') t := by
  obtain ⟨s, parent, child, hs, hset, hroots, hfields, hchild⟩ := reachable_unreported
  have hiteration : [parent].toFinset = s.wbUnprotectedObjects := by rw [hset]; rfl
  have hvisits := visits_visitsChild hroots hfields
    (VMScanning.scanVmSpecificRoots (some true) [parent])
  have hwork : scanRoots .release (visitsChild child) (fun _ => true)
      (VMScanning.scanVmSpecificRoots (some true) [parent])
      (VMScanning.scanVmSpecificRoots (some true) [parent]).wbUnprotectedPackets = .ok [child] :=
    scanRoots_eq _ _ _ _
  obtain ⟨marked, t, hstarts⟩ :=
    exists_traceStarts (finite_invariant.of_reachable hs) (some true) [child]
  exact ⟨s, [child], marked, t, child, List.mem_cons_self, hroots, hchild, hstarts,
    gcCollects_of_reachable hs hiteration (.refl _) hvisits (fun _ _ _ _ _ => rfl) hwork
      (List.nodup_singleton _) hiteration hstarts⟩

end Generational

end MmtkRuby
