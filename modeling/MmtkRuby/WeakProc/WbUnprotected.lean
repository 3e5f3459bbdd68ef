import Mathlib.Data.Finset.Dedup
import Mathlib.Data.Finset.Insert
import MmtkRuby.Core.TransitionSystem
import MmtkRuby.ObjectReference

/-!
# The set of WB-unprotected objects

The set holds addresses, so each GC takes it, forwards what it found reachable and rebuilds the
set from that. Seen through the objects that live at the addresses, the set only ever loses
objects that died.
-/

namespace MmtkRuby

open Core

/-- `RubyBinding::register_wb_unprotected_object`, on the `HashSet` of the binding. -/
def registerWbUnprotectedObject (objects : Finset ObjectReference) (object : ObjectReference) :
    Finset ObjectReference :=
  insert object objects

/-- `RubyBinding::is_object_wb_unprotected`. -/
def isObjectWbUnprotected (objects : Finset ObjectReference) (object : ObjectReference) : Bool :=
  decide (object ∈ objects)

/-! ### The packet -/

namespace UpdateWbUnprotectedObjectsList

variable (traced : Traced)

/-- One iteration of the loop, on the set that is being rebuilt. -/
def iteration (objects : Finset ObjectReference) (object : ObjectReference) :
    Finset ObjectReference :=
  if traced.isReachable object then insert (object.forward traced) objects else objects

/-- `UpdateWbUnprotectedObjectsList::do_work`, for the old set in the order in which it is
iterated. -/
def doWork (oldObjects : List ObjectReference) : Finset ObjectReference :=
  oldObjects.foldl (iteration traced) ∅

lemma mem_foldl_iteration {oldObjects : List ObjectReference} {objects : Finset ObjectReference}
    {b : ObjectReference} :
    b ∈ oldObjects.foldl (iteration traced) objects ↔ b ∈ objects ∨
      ∃ a ∈ oldObjects, traced.isReachable a = true ∧ a.forward traced = b := by
  induction oldObjects generalizing objects with
  | nil => simp
  | cons object oldObjects ih =>
    rw [List.foldl_cons, ih, iteration]
    simp only [List.mem_cons, exists_eq_or_imp]
    split_ifs with hreach
    · rw [Finset.mem_insert]
      constructor
      · rintro ((rfl | hb) | hb)
        · exact Or.inr (Or.inl ⟨hreach, rfl⟩)
        · exact Or.inl hb
        · exact Or.inr (Or.inr hb)
      · rintro (hb | ⟨-, rfl⟩ | hb)
        · exact Or.inl (Or.inr hb)
        · exact Or.inl (Or.inl rfl)
        · exact Or.inr hb
    · simp [hreach]

/-- The new set holds the forwarded addresses of the reachable members, whatever the order. -/
lemma mem_doWork {oldObjects : List ObjectReference} {b : ObjectReference} :
    b ∈ doWork traced oldObjects ↔ ∃ a ∈ oldObjects,
      traced.collection.keeps a = true ∧ traced.collection.forward a = b := by
  rw [doWork, mem_foldl_iteration]
  simp [Traced.collection]

end UpdateWbUnprotectedObjectsList

/-! ### Whole runs -/

namespace WbUnprotected

variable {Obj : Type*}

/-- The set in a heap, with the registrations made so far: of which object, and how many GCs had
taken place by then. -/
structure State (Obj : Type*) where
  wbUnprotectedObjects : Finset ObjectReference
  history : History ObjectReference Obj
  registrations : Set (Obj × ℕ)

inductive Step : State Obj → Actor → State Obj → Prop where
  | register {s : State Obj} (object : ObjectReference) (o : Obj)
      (ho : s.history.heap.objectAt object = some o) :
      Step s .mutator
        { s with
          wbUnprotectedObjects := registerWbUnprotectedObject s.wbUnprotectedObjects object
          registrations := insert (o, s.history.gcs) s.registrations }
  | alloc {s : State Obj} (a : ObjectReference) (o : Obj)
      (hfree : s.history.heap.objectAt a = none) (hnew : s.history.bornAt o = none) :
      Step s .mutator { s with history := s.history.alloc a o hfree hnew }
  | gc {s : State Obj} (traced : Traced) (heap' : Heap ObjectReference Obj)
      (hrel : traced.collection.Relocates s.history.heap heap')
      (oldObjects : List ObjectReference) (hnodup : oldObjects.Nodup)
      (horder : oldObjects.toFinset = s.wbUnprotectedObjects) :
      Step s .gc
        { s with
          wbUnprotectedObjects := UpdateWbUnprotectedObjectsList.doWork traced oldObjects
          history := s.history.collect traced.collection heap' hrel }

/-- Runs from an empty set, in any heap. -/
def system (Obj : Type*) : TransitionSystem (State Obj) Actor where
  init s := s.wbUnprotectedObjects = ∅ ∧ s.registrations = ∅
  step := Step

/-- The object was registered, and every GC since has found it reachable. -/
def State.Marked (s : State Obj) (o : Obj) : Prop :=
  ∃ k, (o, k) ∈ s.registrations ∧ s.history.ReachedSince k o

/-- The members of the set are the current addresses of the marked objects. -/
def FollowsIdentity (s : State Obj) : Prop :=
  ∀ a, isObjectWbUnprotected s.wbUnprotectedObjects a = true ↔
    ∃ o, s.history.heap.objectAt a = some o ∧ s.Marked o

/-- Only objects that exist have been registered. -/
def RegisteredBorn (s : State Obj) : Prop :=
  ∀ o k, (o, k) ∈ s.registrations → ∃ b, s.history.bornAt o = some b

lemma registeredBorn_invariant : (system Obj).IsInvariant RegisteredBorn where
  init := by
    rintro s ⟨-, hreg⟩ o k hk
    rw [hreg] at hk
    exact absurd hk (Set.notMem_empty _)
  step := by
    intro s l s' _ h hstep
    cases hstep with
    | register object o ho =>
      rintro o' k (heq | hk)
      · obtain ⟨rfl, rfl⟩ := Prod.mk.injEq _ _ _ _ ▸ heq
        obtain ⟨b, hb, -⟩ := s.history.mem_heap_iff.mp (Heap.mem_of_objectAt ho)
        exact ⟨b, hb⟩
      · exact h o' k hk
    | alloc a o hfree hnew =>
      intro o' k hk
      obtain ⟨b, hb⟩ := h o' k hk
      have hne : o' ≠ o := by
        rintro rfl
        rw [hnew] at hb
        cases hb
      exact ⟨b, (History.bornAt_alloc hne hfree hnew).trans hb⟩
    | gc traced heap' hrel oldObjects hnodup horder => exact h

/-- An object that is registered now is marked, and no other object's mark changes. -/
lemma marked_register {s : State Obj} {o o' : Obj} (objects : Finset ObjectReference) :
    State.Marked { s with
        wbUnprotectedObjects := objects
        registrations := insert (o, s.history.gcs) s.registrations } o' ↔
      o' = o ∨ s.Marked o' := by
  constructor
  · rintro ⟨k, heq | hk, hsince⟩
    · exact Or.inl (congrArg Prod.fst heq)
    · exact Or.inr ⟨k, hk, hsince⟩
  · rintro (rfl | ⟨k, hk, hsince⟩)
    · exact ⟨s.history.gcs, Or.inl rfl, fun j hle hlt => absurd hlt (not_lt.mpr hle)⟩
    · exact ⟨k, Or.inr hk, hsince⟩

/-- The address `a` is now that of `o`, so it is the only address whose membership changes. -/
lemma FollowsIdentity.register {s : State Obj} (h : FollowsIdentity s) {object : ObjectReference}
    {o : Obj} (ho : s.history.heap.objectAt object = some o) :
    FollowsIdentity { s with
      wbUnprotectedObjects := registerWbUnprotectedObject s.wbUnprotectedObjects object
      registrations := insert (o, s.history.gcs) s.registrations } := by
  intro a
  have ha := h a
  simp only [isObjectWbUnprotected, decide_eq_true_eq] at ha
  simp only [isObjectWbUnprotected, registerWbUnprotectedObject, decide_eq_true_eq,
    Finset.mem_insert, marked_register]
  rw [ha]
  constructor
  · rintro (rfl | ⟨o', ho', hm⟩)
    · exact ⟨o, ho, Or.inl rfl⟩
    · exact ⟨o', ho', Or.inr hm⟩
  · rintro ⟨o', ho', rfl | hm⟩
    · exact Or.inl (s.history.heap.unique ho' ho)
    · exact Or.inr ⟨o', ho', hm⟩

/-- A new object, also one at a recycled address, is not marked. -/
lemma FollowsIdentity.alloc {s : State Obj} (h : FollowsIdentity s) (hborn : RegisteredBorn s)
    {a : ObjectReference} {o : Obj} (hfree : s.history.heap.objectAt a = none)
    (hnew : s.history.bornAt o = none) :
    FollowsIdentity { s with history := s.history.alloc a o hfree hnew } := by
  intro b
  refine (h b).trans ⟨?_, ?_⟩
  · rintro ⟨o', ho', hm⟩
    exact ⟨o', (History.objectAt_alloc_iff hfree hnew).mpr (Or.inr ho'), hm⟩
  · rintro ⟨o', ho', k, hk, hsince⟩
    rcases (History.objectAt_alloc_iff hfree hnew).mp ho' with ⟨-, rfl⟩ | ho'
    · obtain ⟨b', hb'⟩ := hborn o' k hk
      rw [hnew] at hb'
      cases hb'
    · exact ⟨o', ho', k, hk, hsince⟩

/-- A GC rebuilds the set from the new addresses of the marked objects that it reached. -/
lemma FollowsIdentity.gc {s : State Obj} (h : FollowsIdentity s) {traced : Traced}
    {heap' : Heap ObjectReference Obj} (hrel : traced.collection.Relocates s.history.heap heap')
    {oldObjects : List ObjectReference}
    (horder : oldObjects.toFinset = s.wbUnprotectedObjects) :
    FollowsIdentity { s with
      wbUnprotectedObjects := UpdateWbUnprotectedObjectsList.doWork traced oldObjects
      history := s.history.collect traced.collection heap' hrel } := by
  have hmem : ∀ a, a ∈ oldObjects ↔ ∃ o, s.history.heap.objectAt a = some o ∧ s.Marked o := by
    intro a
    rw [← h a, isObjectWbUnprotected, decide_eq_true_eq, ← horder, List.mem_toFinset]
  intro b
  simp only [isObjectWbUnprotected, decide_eq_true_eq,
    UpdateWbUnprotectedObjectsList.mem_doWork, hmem]
  rw [hrel.named_iff s.Marked b]
  apply exists_congr
  intro o
  apply and_congr_right
  intro ho
  apply exists_congr
  intro k
  rw [History.reachedSince_collect hrel (Heap.mem_of_objectAt ho)]

lemma followsIdentity_invariant : (system Obj).IsInvariant FollowsIdentity where
  init := by
    rintro s ⟨hset, hreg⟩ a
    simp [isObjectWbUnprotected, hset, State.Marked, hreg]
  step := by
    intro s l s' hs h hstep
    cases hstep with
    | register object o ho => exact h.register ho
    | alloc a o hfree hnew =>
      exact h.alloc (registeredBorn_invariant.of_reachable hs) hfree hnew
    | gc traced heap' hrel oldObjects hnodup horder => exact h.gc hrel horder

/-- Between any two GCs of any run, `is_object_wb_unprotected` holds of the current addresses of
the objects that were registered and have been reachable ever since, and of nothing else. -/
theorem isObjectWbUnprotected_iff {s : State Obj} (hs : (system Obj).Reachable s)
    (a : ObjectReference) :
    isObjectWbUnprotected s.wbUnprotectedObjects a = true ↔
      ∃ o, s.history.heap.objectAt a = some o ∧
        ∃ k, (o, k) ∈ s.registrations ∧ s.history.ReachedSince k o :=
  followsIdentity_invariant.of_reachable hs a

/-- A registered object moves, and its mark with it. -/
theorem isObjectWbUnprotected_iff_moved : ∃ (s : State ℕ) (a : ObjectReference),
    (system ℕ).Reachable s ∧ isObjectWbUnprotected s.wbUnprotectedObjects a = true ∧
      (isObjectWbUnprotected s.wbUnprotectedObjects a = true ↔
        ∃ o, s.history.heap.objectAt a = some o ∧
          ∃ k, (o, k) ∈ s.registrations ∧ s.history.ReachedSince k o) := by
  let a : ObjectReference := ⟨4096, by decide⟩
  let b : ObjectReference := ⟨8192, by decide⟩
  let traced : Traced := ⟨fun _ => true, fun _ => true, fun object => if object = a then b else none⟩
  have honly : ∀ x, ((History.start.alloc a 0 rfl rfl).heap.objectAt x).isSome → x = a := by
    intro x hx
    obtain ⟨o, ho⟩ := Option.isSome_iff_exists.mp hx
    rcases (History.objectAt_alloc_iff rfl rfl).mp ho with ⟨hxa, -⟩ | ho
    · exact hxa
    · cases ho
  obtain ⟨heap', hrel⟩ := Collection.exists_relocates (c := traced.collection)
    fun x y hx hy _ _ _ => (honly x hx).trans (honly y hy).symm
  have h₀ : (system ℕ).Reachable ⟨∅, History.start, ∅⟩ := .init ⟨rfl, rfl⟩
  have h₁ := h₀.step (.alloc a 0 rfl rfl)
  have h₂ := h₁.step (.register a 0 rfl)
  have h₃ := h₂.step (.gc traced heap' hrel [a] (List.nodup_singleton a) rfl)
  exact ⟨_, b, h₃, rfl, isObjectWbUnprotected_iff h₃ b⟩

end WbUnprotected

end MmtkRuby
