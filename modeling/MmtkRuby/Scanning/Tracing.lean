import Mathlib.Algebra.Order.Group.Multiset
import Mathlib.Data.Multiset.Dedup
import Mathlib.Logic.Relation
import Mathlib.Tactic.Abel
import MmtkRuby.Core.TransitionSystem
import MmtkRuby.ObjectClosure

/-!
# Tracing through the object closure

Slots are not enqueued: `scan_object_and_trace_edges` has CRuby scan an object, and each reference
that CRuby visits is given to `trace_object` of mmtk-core, whose answer CRuby writes into the field.
Workers scan different objects at the same time. In the end what was reachable has been scanned
once, and its fields refer to the same objects as before.
-/

namespace MmtkRuby

open Core

/-- The upcall visits the given references one after the other, whatever it is answered. -/
def Upcall.Reads : Upcall → List ObjectReference → Prop
  | .done, references => references = []
  | .visit object _ next, references =>
    ∃ rest, references = object :: rest ∧ ∀ answer, (next answer).Reads rest

namespace Tracing

/-- What mmtk-core knows: the new addresses of the objects that have been traced, and those that
are to be scanned. -/
structure Tracer where
  forwarded : ObjectReference → Option ObjectReference
  queue : Multiset ObjectReference

/-- `trace_object` finds an object that has been traced, or it moves it to a free address (which may
be its own) and has it scanned. -/
inductive TraceObject (s : Tracer) (object : ObjectReference) :
    Tracer → ObjectReference → Prop where
  | traced {target : ObjectReference} (htraced : s.forwarded object = some target) :
      TraceObject s object s target
  | moved (target : ObjectReference) (hnew : s.forwarded object = none)
      (hfree : ∀ a, s.forwarded a ≠ some target) :
      TraceObject s object
        { forwarded := Function.update s.forwarded object (some target)
          queue := target ::ₘ s.queue } target

/-- An object that is being scanned, with what is left of its upcall. -/
structure Scan where
  object : ObjectReference
  rest : Upcall

structure State where
  tracer : Tracer
  scanning : Multiset Scan
  /-- the fields that have been written at each new address -/
  written : ObjectReference → List ObjectReference
  /-- the objects whose scan is over, in order -/
  scanned : List ObjectReference

/-- A worker takes an object from the queue, visits the next of its fields, or has done so with
all. The fields of an object are those that it had when it was traced. -/
inductive Step (fields : ObjectReference → List ObjectReference) : State → Unit → State → Prop where
  | poll {s : State} (object : ObjectReference) (queue : Multiset ObjectReference) (f : Upcall)
      (hqueue : s.tracer.queue = object ::ₘ queue)
      (hreads : ∀ a, s.tracer.forwarded a = some object → f.Reads (fields a)) :
      Step fields s ()
        { s with
          tracer := { s.tracer with queue }
          scanning := ⟨object, f⟩ ::ₘ s.scanning }
  | visit {s : State} (object : ObjectReference) (scanning : Multiset Scan)
      {target answer : ObjectReference} {pin : Bool} {next : ObjectReference → Upcall}
      {tracer : Tracer}
      (hscanning : s.scanning = ⟨object, .visit target pin next⟩ ::ₘ scanning)
      (htrace : TraceObject s.tracer target tracer answer) :
      Step fields s ()
        { s with
          tracer
          scanning := ⟨object, next answer⟩ ::ₘ scanning
          written := Function.update s.written object (s.written object ++ [answer]) }
  | finish {s : State} (object : ObjectReference) (scanning : Multiset Scan)
      (hscanning : s.scanning = ⟨object, .done⟩ ::ₘ scanning) :
      Step fields s () { s with scanning, scanned := s.scanned ++ [object] }

/-- Runs from the point at which the roots, which do not move, have been traced. -/
def system (fields : ObjectReference → List ObjectReference) (roots : List ObjectReference) :
    TransitionSystem State Unit where
  init s := (∀ a, s.tracer.forwarded a = if a ∈ roots then some a else none) ∧
    s.tracer.queue = (roots : Multiset ObjectReference).dedup ∧ s.scanning = 0 ∧
    (∀ object, s.written object = []) ∧ s.scanned = []
  step := Step fields

variable {fields : ObjectReference → List ObjectReference} {roots : List ObjectReference}

/-! ### The closure -/

namespace TraceObject

variable {s t : Tracer} {object answer : ObjectReference}

/-- Nobody is moved twice. -/
lemma forwarded_of (h : TraceObject s object t answer) {a b : ObjectReference}
    (ha : s.forwarded a = some b) : t.forwarded a = some b := by
  cases h with
  | traced _ => exact ha
  | moved _ hnew _ =>
    have hne : a ≠ object := by
      rintro rfl
      rw [hnew] at ha
      cases ha
    exact (Function.update_of_ne hne _ _).trans ha

lemma forwarded_self (h : TraceObject s object t answer) : t.forwarded object = some answer := by
  cases h with
  | traced htraced => exact htraced
  | moved _ _ _ => exact Function.update_self ..

/-- Only the given object is new, and then its address is. -/
lemma forwarded_or (h : TraceObject s object t answer) {a b : ObjectReference}
    (ha : t.forwarded a = some b) :
    s.forwarded a = some b ∨ a = object ∧ ∀ c, s.forwarded c ≠ some b := by
  cases h with
  | traced _ => exact Or.inl ha
  | moved _ _ hfree =>
    rcases update_eq_some_iff.mp ha with ⟨rfl, rfl⟩ | ⟨-, hbefore⟩
    · exact Or.inr ⟨rfl, hfree⟩
    · exact Or.inl hbefore

/-- The addresses of the objects that have been traced before name no other objects now. -/
lemma of_forwarded (h : TraceObject s object t answer) {a b c : ObjectReference}
    (ha : t.forwarded a = some b) (hc : s.forwarded c = some b) : s.forwarded a = some b :=
  (h.forwarded_or ha).resolve_right fun hnew => hnew.2 c hc

/-- A new object is to be scanned. -/
lemma queue_or (h : TraceObject s object t answer) :
    t = s ∨ t.queue = answer ::ₘ s.queue ∧ ∀ a, s.forwarded a ≠ some answer := by
  cases h with
  | traced _ => exact Or.inl rfl
  | moved _ _ hfree => exact Or.inr ⟨rfl, hfree⟩

/-- References that have been forwarded stay so. -/
lemma map_forwarded (h : TraceObject s object t answer) {references news : List ObjectReference}
    (hmap : references.map s.forwarded = news.map some) :
    references.map t.forwarded = news.map some := by
  rw [← hmap]
  refine List.map_congr_left fun a ha => ?_
  have hmem : s.forwarded a ∈ news.map some := hmap ▸ List.mem_map_of_mem ha
  obtain ⟨b, -, hb⟩ := List.mem_map.mp hmem
  rw [← hb]
  exact h.forwarded_of hb.symm

end TraceObject

/-! ### Whole runs -/

/-- The object can be reached from the roots. -/
def Reaches (fields : ObjectReference → List ObjectReference) (roots : List ObjectReference)
    (a : ObjectReference) : Prop :=
  ∃ r ∈ roots, Relation.ReflTransGen (fun a b => b ∈ fields a) r a

/-- Where the traced objects are: they wait to be scanned, are being scanned, or have been. -/
def State.places (s : State) : Multiset ObjectReference :=
  s.tracer.queue + s.scanning.map (·.object) + (s.scanned : Multiset ObjectReference)

lemma State.mem_places_of_scanning {s : State} {object : ObjectReference} {f : Upcall}
    {scanning : Multiset Scan} (hscanning : s.scanning = ⟨object, f⟩ ::ₘ scanning) :
    object ∈ s.places := by
  simp [State.places, hscanning]

/-- The fields of a scanned object have been written, those of an object that is being scanned as
far as its upcall has come. -/
structure Inv (fields : ObjectReference → List ObjectReference) (roots : List ObjectReference)
    (s : State) : Prop where
  reached : ∀ a b, s.tracer.forwarded a = some b → Reaches fields roots a
  injective : ∀ a b c, s.tracer.forwarded a = some c → s.tracer.forwarded b = some c → a = b
  roots : ∀ r ∈ roots, s.tracer.forwarded r = some r
  nodup : s.places.Nodup
  mem_places : ∀ b, b ∈ s.places ↔ ∃ a, s.tracer.forwarded a = some b
  unwritten : ∀ b, b ∉ s.scanning.map (·.object) → b ∉ s.scanned → s.written b = []
  halfway : ∀ scan ∈ s.scanning, ∀ a, s.tracer.forwarded a = some scan.object →
    ∃ before rest, fields a = before ++ rest ∧ scan.rest.Reads rest ∧
      before.map s.tracer.forwarded = (s.written scan.object).map some
  finished : ∀ b ∈ s.scanned, ∀ a, s.tracer.forwarded a = some b →
    (fields a).map s.tracer.forwarded = (s.written b).map some

namespace Inv

variable {s : State} {object : ObjectReference} {scanning : Multiset Scan}

/-- An object in the queue is not being scanned, and has not been. -/
lemma notMem_of_queue (h : Inv fields roots s) {queue : Multiset ObjectReference}
    (hqueue : s.tracer.queue = object ::ₘ queue) :
    object ∉ s.scanning.map (·.object) ∧ object ∉ s.scanned := by
  have hnodup := h.nodup
  simp only [State.places, hqueue, Multiset.cons_add, Multiset.nodup_cons] at hnodup
  refine not_or.mp fun hmem => hnodup.1 ?_
  rw [Multiset.mem_add, Multiset.mem_add, or_assoc]
  exact Or.inr hmem

lemma poll (h : Inv fields roots s) {queue : Multiset ObjectReference} {f : Upcall}
    (hqueue : s.tracer.queue = object ::ₘ queue)
    (hreads : ∀ a, s.tracer.forwarded a = some object → f.Reads (fields a)) :
    Inv fields roots { s with
      tracer := { s.tracer with queue }
      scanning := ⟨object, f⟩ ::ₘ s.scanning } := by
  have hplaces : State.places { s with
      tracer := { s.tracer with queue }
      scanning := ⟨object, f⟩ ::ₘ s.scanning } = s.places := by
    simp [State.places, hqueue]
  obtain ⟨hunscanning, hunscanned⟩ := h.notMem_of_queue hqueue
  refine ⟨h.reached, h.injective, h.roots, hplaces ▸ h.nodup, hplaces ▸ h.mem_places, ?_, ?_,
    h.finished⟩
  · intro b hb hscanned
    refine h.unwritten b (fun hmem => hb ?_) hscanned
    rw [Multiset.map_cons]
    exact Multiset.mem_cons_of_mem hmem
  · intro scan hscan a ha
    rcases Multiset.mem_cons.mp hscan with rfl | hscan
    · refine ⟨[], fields a, rfl, hreads a ha, ?_⟩
      rw [h.unwritten object hunscanning hunscanned]
      rfl
    · exact h.halfway scan hscan a ha

/-- An object is scanned by one worker only. -/
lemma ne_of_scanning (h : Inv fields roots s) {f : Upcall}
    (hscanning : s.scanning = ⟨object, f⟩ ::ₘ scanning) :
    (∀ scan ∈ scanning, scan.object ≠ object) ∧ object ∉ s.scanned := by
  have hnodup := h.nodup
  simp only [State.places, hscanning, Multiset.map_cons, Multiset.add_cons, Multiset.cons_add,
    Multiset.nodup_cons, Multiset.mem_add, not_or] at hnodup
  refine ⟨fun scan hscan heq => hnodup.1.1.2 ?_, hnodup.1.2⟩
  rw [← heq]
  exact Multiset.mem_map_of_mem _ hscan

lemma finish (h : Inv fields roots s) (hscanning : s.scanning = ⟨object, .done⟩ ::ₘ scanning) :
    Inv fields roots { s with scanning, scanned := s.scanned ++ [object] } := by
  have hplaces : State.places { s with scanning, scanned := s.scanned ++ [object] } =
      s.places := by
    simp only [State.places, hscanning, Multiset.map_cons, ← Multiset.coe_add,
      Multiset.coe_singleton]
    rw [← Multiset.singleton_add object]
    abel
  refine ⟨h.reached, h.injective, h.roots, hplaces ▸ h.nodup, hplaces ▸ h.mem_places, ?_, ?_, ?_⟩
  · intro b hb hscanned
    simp only [List.mem_append, List.mem_singleton, not_or] at hscanned
    refine h.unwritten b ?_ hscanned.1
    rw [hscanning, Multiset.map_cons, Multiset.mem_cons, not_or]
    exact ⟨hscanned.2, hb⟩
  · intro scan hscan
    exact h.halfway scan (hscanning ▸ Multiset.mem_cons_of_mem hscan)
  · intro b hb a ha
    rcases List.mem_append.mp hb with hb | hb
    · exact h.finished b hb a ha
    · obtain rfl := List.mem_singleton.mp hb
      obtain ⟨before, rest, hfields, hreads, hwritten⟩ :=
        h.halfway ⟨b, .done⟩ (hscanning ▸ Multiset.mem_cons_self _ _) a ha
      obtain rfl : rest = [] := hreads
      rw [hfields, List.append_nil]
      exact hwritten

/-- The field that an upcall visits is one of the object that is scanned. -/
lemma exists_field (h : Inv fields roots s) {target : ObjectReference} {pin : Bool}
    {next : ObjectReference → Upcall}
    (hscanning : s.scanning = ⟨object, .visit target pin next⟩ ::ₘ scanning) :
    ∃ a before rest, s.tracer.forwarded a = some object ∧ fields a = before ++ target :: rest ∧
      (∀ answer, (next answer).Reads rest) ∧
      before.map s.tracer.forwarded = (s.written object).map some := by
  obtain ⟨a, ha⟩ := (h.mem_places object).mp (State.mem_places_of_scanning hscanning)
  obtain ⟨before, rest, hfields, ⟨rest', rfl, hreads⟩, hwritten⟩ :=
    h.halfway _ (hscanning ▸ Multiset.mem_cons_self _ _) a ha
  exact ⟨a, before, rest', ha, hfields, hreads, hwritten⟩

/-- A reachable object may be traced at any time. -/
lemma trace (h : Inv fields roots s) {target answer : ObjectReference} {tracer : Tracer}
    (htarget : Reaches fields roots target) (htrace : TraceObject s.tracer target tracer answer) :
    Inv fields roots { s with tracer } := by
  -- an object that has been traced before is named by the same old address
  have hold : ∀ {a b : ObjectReference}, tracer.forwarded a = some b → b ∈ s.places →
      s.tracer.forwarded a = some b := by
    intro a b ha hb
    obtain ⟨c, hc⟩ := (h.mem_places b).mp hb
    exact htrace.of_forwarded ha hc
  refine ⟨?_, ?_, fun r hr => htrace.forwarded_of (h.roots r hr), ?_, ?_, h.unwritten, ?_, ?_⟩
  · intro a b ha
    rcases htrace.forwarded_or ha with ha | ⟨rfl, -⟩
    · exact h.reached a b ha
    · exact htarget
  · intro a b c ha hb
    rcases htrace.forwarded_or ha with ha | ⟨rfl, hnew⟩
    · exact h.injective a b c ha (htrace.of_forwarded hb ha)
    · rcases htrace.forwarded_or hb with hb | ⟨rfl, -⟩
      · exact absurd hb (hnew b)
      · rfl
  · rcases htrace.queue_or with rfl | ⟨hqueue, hfree⟩
    · exact h.nodup
    · rw [State.places, hqueue, Multiset.cons_add, Multiset.cons_add, Multiset.nodup_cons]
      refine ⟨fun hmem => ?_, h.nodup⟩
      obtain ⟨a, ha⟩ := (h.mem_places answer).mp hmem
      exact hfree a ha
  · intro b
    rcases htrace.queue_or with rfl | ⟨hqueue, -⟩
    · exact h.mem_places b
    · rw [State.places, hqueue, Multiset.cons_add, Multiset.cons_add, Multiset.mem_cons]
      constructor
      · rintro (rfl | hb)
        · exact ⟨target, htrace.forwarded_self⟩
        · obtain ⟨a, ha⟩ := (h.mem_places b).mp hb
          exact ⟨a, htrace.forwarded_of ha⟩
      · rintro ⟨a, ha⟩
        rcases htrace.forwarded_or ha with ha' | ⟨rfl, -⟩
        · exact Or.inr ((h.mem_places b).mpr ⟨a, ha'⟩)
        · exact Or.inl (Option.some.inj (ha.symm.trans htrace.forwarded_self))
  · intro scan hscan a ha
    have hplace : scan.object ∈ s.places :=
      Multiset.mem_add.mpr
        (Or.inl (Multiset.mem_add.mpr (Or.inr (Multiset.mem_map_of_mem _ hscan))))
    obtain ⟨before, rest, hfields, hreads, hwritten⟩ := h.halfway scan hscan a (hold ha hplace)
    exact ⟨before, rest, hfields, hreads, htrace.map_forwarded hwritten⟩
  · intro b hb a ha
    have hplace : b ∈ s.places := Multiset.mem_add.mpr (Or.inr hb)
    exact htrace.map_forwarded (h.finished b hb a (hold ha hplace))

/-- The new address of a traced object is written into the field that refers to it. -/
lemma write (h : Inv fields roots s) {target answer : ObjectReference} {pin : Bool}
    {next : ObjectReference → Upcall}
    (hscanning : s.scanning = ⟨object, .visit target pin next⟩ ::ₘ scanning)
    (htarget : s.tracer.forwarded target = some answer) :
    Inv fields roots { s with
      scanning := ⟨object, next answer⟩ ::ₘ scanning
      written := Function.update s.written object (s.written object ++ [answer]) } := by
  obtain ⟨hother, hscanned⟩ := h.ne_of_scanning hscanning
  obtain ⟨a₀, before, rest, ha₀, hfields, hreads, hwritten⟩ := h.exists_field hscanning
  have hplaces : State.places { s with
      scanning := ⟨object, next answer⟩ ::ₘ scanning
      written := Function.update s.written object (s.written object ++ [answer]) } =
      s.places := by
    simp [State.places, hscanning]
  refine ⟨h.reached, h.injective, h.roots, hplaces ▸ h.nodup, hplaces ▸ h.mem_places, ?_, ?_, ?_⟩
  · intro b hb hscanned'
    rw [Multiset.map_cons, Multiset.mem_cons, not_or] at hb
    simp only [Function.update_of_ne hb.1]
    refine h.unwritten b ?_ hscanned'
    rw [hscanning, Multiset.map_cons, Multiset.mem_cons, not_or]
    exact hb
  · intro scan hscan a ha
    rcases Multiset.mem_cons.mp hscan with rfl | hscan
    · obtain rfl : a = a₀ := h.injective a a₀ object ha ha₀
      refine ⟨before ++ [target], rest, by simp [hfields], hreads answer, ?_⟩
      simp only [Function.update_self, List.map_append, List.map_cons, List.map_nil]
      rw [hwritten, htarget]
    · simp only [Function.update_of_ne (hother scan hscan)]
      exact h.halfway scan (hscanning ▸ Multiset.mem_cons_of_mem hscan) a ha
  · intro b hb a ha
    have hne : b ≠ object := fun heq => hscanned (heq ▸ hb)
    simp only [Function.update_of_ne hne]
    exact h.finished b hb a ha

/-- A visit traces its target, if nobody has, and writes the answer. -/
lemma visit (h : Inv fields roots s) {target answer : ObjectReference} {pin : Bool}
    {next : ObjectReference → Upcall} {tracer : Tracer}
    (hscanning : s.scanning = ⟨object, .visit target pin next⟩ ::ₘ scanning)
    (htrace : TraceObject s.tracer target tracer answer) :
    Inv fields roots { s with
      tracer
      scanning := ⟨object, next answer⟩ ::ₘ scanning
      written := Function.update s.written object (s.written object ++ [answer]) } := by
  obtain ⟨a, before, rest, ha, hfields, -, -⟩ := h.exists_field hscanning
  have htarget : Reaches fields roots target := by
    obtain ⟨r, hr, hpath⟩ := h.reached a object ha
    exact ⟨r, hr, hpath.tail (by simp [hfields])⟩
  exact (h.trace htarget htrace).write hscanning htrace.forwarded_self

lemma step (h : Inv fields roots s) {l : Unit} {s' : State} (hstep : Step fields s l s') :
    Inv fields roots s' := by
  cases hstep with
  | poll object queue f hqueue hreads => exact h.poll hqueue hreads
  | visit object scanning hscanning htrace => exact h.visit hscanning htrace
  | finish object scanning hscanning => exact h.finish hscanning

end Inv

lemma inv_invariant : (system fields roots).IsInvariant (Inv fields roots) where
  init := by
    rintro s ⟨hforwarded, hqueue, hscanning, hwritten, hscanned⟩
    have hsome : ∀ a b, s.tracer.forwarded a = some b ↔ a ∈ roots ∧ a = b := by
      intro a b
      rw [hforwarded]
      split_ifs with ha <;> simp [ha]
    refine ⟨?_, ?_, fun r hr => (hsome r r).mpr ⟨hr, rfl⟩, ?_, ?_, fun b _ _ => hwritten b, ?_, ?_⟩
    · intro a b ha
      exact ⟨a, ((hsome a b).mp ha).1, .refl⟩
    · intro a b c ha hb
      exact ((hsome a c).mp ha).2.trans ((hsome b c).mp hb).2.symm
    · simpa [State.places, hqueue, hscanning, hscanned] using List.nodup_dedup roots
    · intro b
      simp [State.places, hqueue, hscanning, hscanned, hsome]
    · simp [hscanning]
    · simp [hscanned]
  step _ h hstep := h.step hstep

/-! ### When the trace is over -/

/-- Nothing is to be scanned any more. -/
def State.Over (s : State) : Prop := s.tracer.queue = 0 ∧ s.scanning = 0

/-- What mmtk-core answers about the objects. -/
def State.traced (s : State) : Traced where
  isReachable object := (s.tracer.forwarded object).isSome
  isLive object := (s.tracer.forwarded object).isSome
  getForwardedObject := s.tracer.forwarded

/-- The objects that have been traced are the reachable ones. Each has been scanned once, its fields
have been written with the new addresses of what they referred to, and in a heap in which they name
objects they still name the same ones. -/
structure Complete (fields : ObjectReference → List ObjectReference)
    (roots : List ObjectReference) (s : State) : Prop where
  reachable_iff : ∀ a, s.traced.isReachable a = true ↔ Reaches fields roots a
  scanned_once : s.scanned.Nodup
  scanned_iff : ∀ b, b ∈ s.scanned ↔ ∃ a, s.tracer.forwarded a = some b
  written : ∀ a b, s.tracer.forwarded a = some b →
    s.written b = (fields a).map (·.forward s.traced)
  preserved : ∀ {Obj : Type} (heap : Heap ObjectReference Obj),
    (∀ a, (heap.objectAt a).isSome → ∀ c ∈ fields a, (heap.objectAt c).isSome) →
    ∃ heap', s.traced.collection.Relocates heap heap' ∧
      ∀ a o b, heap.objectAt a = some o → s.tracer.forwarded a = some b →
        heap'.objectAt b = some o ∧
          (s.written b).map heap'.objectAt = (fields a).map heap.objectAt

lemma forward_traced {s : State} {a b : ObjectReference} (ha : s.tracer.forwarded a = some b) :
    a.forward s.traced = b := by
  simp [ObjectReference.forward, State.traced, ha]

namespace Inv

variable {s : State} {a b : ObjectReference}

/-- When the trace is over, all traced objects have been scanned. -/
lemma places_eq_scanned (hover : s.Over) : s.places = (s.scanned : Multiset ObjectReference) := by
  simp [State.places, hover.1, hover.2]

lemma mem_scanned_iff (h : Inv fields roots s) (hover : s.Over) :
    b ∈ s.scanned ↔ ∃ a, s.tracer.forwarded a = some b := by
  rw [← h.mem_places, places_eq_scanned hover, Multiset.mem_coe]

/-- The fields of a traced object refer to traced objects, and have been written. -/
lemma map_forwarded_fields (h : Inv fields roots s) (hover : s.Over)
    (ha : s.tracer.forwarded a = some b) :
    (fields a).map s.tracer.forwarded = (s.written b).map some :=
  h.finished b ((h.mem_scanned_iff hover).mpr ⟨a, ha⟩) a ha

lemma exists_forwarded_field (h : Inv fields roots s) (hover : s.Over)
    (ha : s.tracer.forwarded a = some b) {c : ObjectReference} (hc : c ∈ fields a) :
    ∃ d, s.tracer.forwarded c = some d := by
  have hmem : s.tracer.forwarded c ∈ (s.written b).map some :=
    h.map_forwarded_fields hover ha ▸ List.mem_map_of_mem hc
  obtain ⟨d, -, hd⟩ := List.mem_map.mp hmem
  exact ⟨d, hd.symm⟩

lemma written_eq (h : Inv fields roots s) (hover : s.Over)
    (ha : s.tracer.forwarded a = some b) :
    s.written b = (fields a).map (·.forward s.traced) := by
  apply List.map_injective_iff.mpr (Option.some_injective ObjectReference)
  rw [← h.map_forwarded_fields hover ha, List.map_map]
  refine List.map_congr_left fun c hc => ?_
  obtain ⟨d, hd⟩ := h.exists_forwarded_field hover ha hc
  rw [Function.comp_apply, forward_traced hd, hd]

/-- What has been traced is closed under the fields, and contains the roots. -/
lemma isReachable_iff (h : Inv fields roots s) (hover : s.Over) :
    s.traced.isReachable a = true ↔ Reaches fields roots a := by
  rw [State.traced, Option.isSome_iff_exists]
  constructor
  · rintro ⟨b, ha⟩
    exact h.reached a b ha
  · rintro ⟨r, hr, hpath⟩
    induction hpath with
    | refl => exact ⟨r, h.roots r hr⟩
    | tail _ hc ih =>
      obtain ⟨b, hb⟩ := ih
      exact h.exists_forwarded_field hover hb hc

/-- Two traced objects do not go to the same address. -/
lemma exists_relocates (h : Inv fields roots s) {Obj : Type*} (heap : Heap ObjectReference Obj) :
    ∃ heap', s.traced.collection.Relocates heap heap' := by
  refine Collection.exists_relocates fun a b _ _ ha hb hforward => ?_
  obtain ⟨c, hc⟩ := Option.isSome_iff_exists.mp ha
  obtain ⟨d, hd⟩ := Option.isSome_iff_exists.mp hb
  have heq : c = d := (forward_traced hc).symm.trans (hforward.trans (forward_traced hd))
  exact h.injective a b d (heq ▸ hc) hd

end Inv

lemma objectAt_of_forwarded {s : State} {Obj : Type*} {heap heap' : Heap ObjectReference Obj}
    (hrel : s.traced.collection.Relocates heap heap') {a b : ObjectReference} {o : Obj}
    (ho : heap.objectAt a = some o) (ha : s.tracer.forwarded a = some b) :
    heap'.objectAt b = some o := by
  have hmoved := hrel.objectAt_forward ho (Option.isSome_iff_exists.mpr ⟨b, ha⟩)
  rwa [show s.traced.collection.forward a = b from forward_traced ha] at hmoved

lemma Inv.complete {s : State} (h : Inv fields roots s) (hover : s.Over) :
    Complete fields roots s := by
  refine ⟨fun _ => h.isReachable_iff hover, ?_, fun _ => h.mem_scanned_iff hover,
    fun _ _ => h.written_eq hover, ?_⟩
  · have hnodup := h.nodup
    rwa [places_eq_scanned hover, Multiset.coe_nodup] at hnodup
  · intro Obj heap hnames
    obtain ⟨heap', hrel⟩ := h.exists_relocates heap
    refine ⟨heap', hrel, fun a o b ho ha => ⟨objectAt_of_forwarded hrel ho ha, ?_⟩⟩
    rw [h.written_eq hover ha, List.map_map]
    refine List.map_congr_left fun c hc => ?_
    obtain ⟨d, hd⟩ := h.exists_forwarded_field hover ha hc
    obtain ⟨o', ho'⟩ := Option.isSome_iff_exists.mp (hnames a (by rw [ho]; rfl) c hc)
    rw [Function.comp_apply, forward_traced hd, objectAt_of_forwarded hrel ho' hd, ho']

/-- In every run, with any number of workers, a trace that is over is complete. -/
theorem complete_of_reachable {s : State} (hs : (system fields roots).Reachable s)
    (hover : s.Over) : Complete fields roots s :=
  (inv_invariant.of_reachable hs).complete hover

/-! #### Two objects that refer to each other -/

/-- Each of the two objects refers to the other one, and any other object to none. -/
def cycle (root leaf object : ObjectReference) : List ObjectReference :=
  if object = root then [leaf] else if object = leaf then [root] else []

/-- The leaf is moved while the root is scanned, and refers to the root when it is scanned
itself. -/
lemma reachable_cycle {root leaf moved : ObjectReference} (hleaf : leaf ≠ root)
    (hmoved : moved ≠ root) : ∃ s : State, (system (cycle root leaf) [root]).Reachable s ∧
    s.Over ∧ s.written root = [moved] ∧ s.written moved = [root] ∧
    ∀ a b, s.tracer.forwarded a = some b → a = root ∧ b = root ∨ a = leaf ∧ b = moved := by
  let start : ObjectReference → Option ObjectReference :=
    fun a => if a ∈ [root] then some a else none
  have hstart : ∀ a b, start a = some b → a = root ∧ b = root := by
    intro a b ha
    simp only [start, List.mem_singleton] at ha
    split_ifs at ha with hroot
    exact ⟨hroot, (Option.some.inj ha).symm.trans hroot⟩
  have hafter : ∀ a b, Function.update start leaf (some moved) a = some b →
      a = root ∧ b = root ∨ a = leaf ∧ b = moved := by
    intro a b ha
    by_cases hne : a = leaf
    · subst hne
      rw [Function.update_self] at ha
      exact Or.inr ⟨rfl, (Option.some.inj ha).symm⟩
    · rw [Function.update_of_ne hne] at ha
      exact Or.inl (hstart a b ha)
  have hroot : Function.update start leaf (some moved) root = some root := by
    rw [Function.update_of_ne hleaf.symm]
    simp [start]
  have h₀ : (system (cycle root leaf) [root]).Reachable
      ⟨⟨start, root ::ₘ 0⟩, 0, fun _ => [], []⟩ :=
    .init ⟨fun _ => rfl, rfl, rfl, fun _ => rfl, rfl⟩
  have h₁ := h₀.step (.poll root 0 (.visit leaf false fun _ => .done) rfl fun a ha => ?_)
  have h₂ := h₁.step (.visit root 0 rfl (.moved moved ?_ fun a ha => ?_))
  have h₃ := h₂.step (.finish root 0 rfl)
  have h₄ := h₃.step (.poll moved 0 (.visit root false fun _ => .done) rfl fun a ha => ?_)
  have h₅ := h₄.step (.visit moved 0 rfl (.traced hroot))
  have h₆ := h₅.step (.finish moved 0 rfl)
  · refine ⟨_, h₆, ⟨rfl, rfl⟩, ?_, ?_, hafter⟩
    · simp [Function.update_of_ne hmoved.symm]
    · simp [Function.update_of_ne hmoved]
  · rcases hafter a moved ha with ⟨-, heq⟩ | ⟨rfl, -⟩
    · exact absurd heq hmoved
    · exact ⟨[], by simp [cycle, hleaf], fun _ => rfl⟩
  · simp [start, hleaf]
  · exact hmoved (hstart a moved ha).2
  · obtain ⟨rfl, -⟩ := hstart a root ha
    exact ⟨[], by simp [cycle], fun _ => rfl⟩

def root : ObjectReference := ⟨4160, by decide⟩

def leaf : ObjectReference := ⟨8256, by decide⟩

theorem complete_cycle : ∃ (s : State) (moved : ObjectReference),
    (system (cycle root leaf) [root]).Reachable s ∧ s.Over ∧ s.written root = [moved] ∧
    s.written moved = [root] ∧ Complete (cycle root leaf) [root] s := by
  let moved : ObjectReference := ⟨12288, by decide⟩
  have hleaf : leaf ≠ root := by decide
  have hmoved : moved ≠ root := by decide
  obtain ⟨s, hs, hover, hroot, hwritten, -⟩ := reachable_cycle hleaf hmoved
  exact ⟨s, moved, hs, hover, hroot, hwritten, complete_of_reachable hs hover⟩

end Tracing

end MmtkRuby
