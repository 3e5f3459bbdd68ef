import MmtkRuby.Ppp.RawPointers
import MmtkRuby.Scanning.Tracing

/-!
# Raw pointers through a trace

The trace on which raw pointers rely is one in which workers scan objects through their object
closures. Scanning an object visits what its raw pointers point to as well, and mmtk-core leaves
pinned objects where they are; so the workers need not write raw pointers.
-/

namespace MmtkRuby

open Core

namespace RawPointers

variable {Obj : Type*} {profile : Profile} {fields : ObjectReference → List ObjectReference}
  {roots : List ObjectReference} {s : State Obj} {gc : Ppp.Gc} {t : Tracing.State}

/-- What mmtk-core does not move, and what CRuby visits. -/
structure TracedBy (s : State Obj) (gc : Ppp.Gc) (fields : ObjectReference → List ObjectReference)
    (t : Tracing.State) : Prop where
  pinned : ∀ a b, s.ppp.isPinned a = true → t.tracer.forwarded a = some b → b = a
  still : gc.currentGcMayMoveObject = false → ∀ a b, t.tracer.forwarded a = some b → b = a
  visited : ∀ a o, s.heap.objectAt a = some o → ∀ q ∈ s.raw o, q.1 ∈ fields a

/-- An object that has not been moved is where its address says. -/
lemma forward_eq_self {a : ObjectReference}
    (h : ∀ b, t.tracer.forwarded a = some b → b = a) : a.forward t.traced = a := by
  cases ha : t.tracer.forwarded a with
  | none => simp [ObjectReference.forward, Tracing.State.traced, ha]
  | some b => exact (Tracing.forward_traced ha).trans (h b ha)

/-- What a raw pointer of a traced object points to has been traced. -/
lemma exists_forwarded_raw (h : Tracing.Inv fields roots t) (hover : t.Over)
    (htraced : TracedBy s gc fields t) {a b : ObjectReference} {o : Obj}
    (ho : s.heap.objectAt a = some o) (ha : t.tracer.forwarded a = some b)
    {q : ObjectReference × Obj} (hq : q ∈ s.raw o) : ∃ c, t.tracer.forwarded q.1 = some c :=
  h.exists_forwarded_field hover ha (htraced.visited a o ho q hq)

lemma traceOf_of_over {heap' : Heap ObjectReference Obj} (h : Tracing.Inv fields roots t)
    (hover : t.Over) (htraced : TracedBy s gc fields t)
    (hrel : t.traced.collection.Relocates s.heap heap') : TraceOf s gc t.traced heap' where
  relocates := hrel
  pinned a hpinned := forward_eq_self fun b => htraced.pinned a b hpinned
  still hstill a := forward_eq_self (htraced.still hstill a)
  marked a o ho hlive q hq := by
    obtain ⟨b, ha⟩ := Option.isSome_iff_exists.mp hlive
    exact Option.isSome_iff_exists.mpr (exists_forwarded_raw h hover htraced ho ha hq)

/-- What has become of an object at `a`, and of what its raw pointers point to. -/
structure Stays (s s' : State Obj) (t : Tracing.State) (a : ObjectReference) (o : Obj) : Prop where
  moved : ∃ b, t.tracer.forwarded a = some b ∧ s'.heap.objectAt b = some o
  raw : s'.raw o = s.raw o
  unmoved : ∀ q ∈ s.raw o, t.tracer.forwarded q.1 = some q.1
  names : ∀ q ∈ s.raw o, s'.heap.objectAt q.1 = some q.2

/-- When the packets that pin have run and then workers have traced the heap, the raw pointers of
the objects that can be reached are as they were, and name the same objects. -/
theorem rawPointersStay_of_reachable [DecidableEq Obj] (hs : (system profile Obj).Reachable s)
    (hphase : s.ppp.phase = .tracing gc) (hnone : s.trace = none)
    (ht : (Tracing.system fields roots).Reachable t) (hover : t.Over)
    (htraced : TracedBy s gc fields t) :
    ∃ s', (system profile Obj).Reachable s' ∧ s'.trace = some t.traced ∧
      ∀ a o, s.heap.objectAt a = some o → Tracing.Reaches fields roots a → Stays s s' t a o := by
  have h := Tracing.inv_invariant.of_reachable ht
  obtain ⟨heap', hrel⟩ := h.exists_relocates s.heap
  have hs' := hs.step (.trace hphase hnone (traceOf_of_over h hover htraced hrel))
  refine ⟨_, hs', rfl, fun a o ho hreaches => ?_⟩
  obtain ⟨b, ha⟩ := Option.isSome_iff_exists.mp ((h.isReachable_iff hover).mpr hreaches)
  have hb := Tracing.objectAt_of_forwarded hrel ho ha
  have hnames := (inv_invariant.of_reachable hs').valid b o hb
  refine ⟨⟨b, ha, hb⟩, rfl, fun q hq => ?_, hnames⟩
  obtain ⟨c, hc⟩ := exists_forwarded_raw h hover htraced ho ha hq
  -- the object is at its new address, and at the old one
  have hbefore := (inv_invariant.of_reachable hs).valid a o ho q hq
  have hmoved := Tracing.objectAt_of_forwarded hrel hbefore hc
  rw [hc, heap'.unique hmoved (hnames q hq)]

/-- The child is pinned, and the parent is moved when it is visited as a field of the child. -/
theorem rawPointersStay_family : ∃ (s s' : State ℕ) (t : Tracing.State),
    s.heap.objectAt Ppp.parent = some 0 ∧ s.raw 0 = [(Ppp.child, 1)] ∧
    (system .release ℕ).Reachable s' ∧ s'.heap.objectAt moved = some 0 ∧
    Stays s s' t Ppp.parent 0 := by
  have hparent : Ppp.parent ≠ Ppp.child := by decide
  have hmoved : moved ≠ Ppp.child := by decide
  obtain ⟨t, ht, hover, -, -, hforwarded⟩ := Tracing.reachable_cycle hparent hmoved
  have htraced : TracedBy (familyState [Ppp.child] (testAndSet (fun _ => false) Ppp.child).2
      (.tracing Ppp.oneParent)) Ppp.oneParent (Tracing.cycle Ppp.child Ppp.parent) t := by
    refine ⟨fun a b hpinned ha => ?_, fun hstill => absurd hstill (by simp [Ppp.oneParent]), ?_⟩
    · obtain rfl := eq_child_of_isPinned hpinned
      rcases hforwarded _ b ha with ⟨-, rfl⟩ | ⟨heq, -⟩
      · rfl
      · exact absurd heq.symm hparent
    · intro a o ho q hq
      obtain rfl : o = 0 := by
        by_contra hne
        simp [familyState, rawOfFamily, hne] at hq
      obtain rfl : a = Ppp.parent := family.unique ho rfl
      have hchild : q ∈ rawOfFamily 0 := hq
      rw [eq_of_mem_rawOfFamily hchild]
      simp [Tracing.cycle, hparent]
  obtain ⟨s', hs', -, hstays⟩ :=
    rawPointersStay_of_reachable reachable_familyState rfl rfl ht hover htraced
  have hreaches : Tracing.Reaches (Tracing.cycle Ppp.child Ppp.parent) [Ppp.child] Ppp.parent :=
    ⟨Ppp.child, List.mem_cons_self, .single (by simp [Tracing.cycle])⟩
  have hfamily := hstays Ppp.parent 0 rfl hreaches
  obtain ⟨b, ha, hb⟩ := hfamily.moved
  rcases hforwarded _ b ha with ⟨heq, -⟩ | ⟨-, rfl⟩
  · exact absurd heq hparent
  · exact ⟨_, s', t, rfl, rfl, hs', hb, hfamily⟩

end RawPointers

end MmtkRuby
