import MmtkRuby.Core.TransitionSystem
import MmtkRuby.Ppp.Registry

/-!
# Which PPPs are in the list

Mutators register PPPs, at any time between two GCs; `RemoveDeadPPPs` drops those that a GC found
dead or no longer PPPs, and gives the others their new addresses. So the list is the sequence of
all registrations, less those that some GC has ended, under the current addresses.
-/

namespace MmtkRuby

open Core

@[simp] lemma PPPRegistry.ppps_registerMany (r : PPPRegistry) (objects : List ObjectReference) :
    (r.registerMany objects).ppps = r.ppps ++ objects := by
  unfold registerMany
  induction objects generalizing r with
  | nil => simp
  | cons object objects ih =>
    rw [List.foldl_cons, ih]
    simp [register]

/-! ### The packet -/

namespace RemoveDeadPPPs

variable (traced : Traced) (isNoLongerPpp : ObjectReference → Bool)

/-- The object is live and, at its new address, still a PPP. -/
def isLivePpp (obj : ObjectReference) : Bool :=
  traced.isLive obj && !isNoLongerPpp (obj.forward traced)

/-- The object is live but, at its new address, no longer a PPP. -/
def isNoLongerLivePpp (obj : ObjectReference) : Bool :=
  traced.isLive obj && isNoLongerPpp (obj.forward traced)

lemma foldl_retain (objs : List ObjectReference) (acc : List ObjectReference × ℕ × ℕ) :
    objs.foldl (retain traced isNoLongerPpp) acc =
      (acc.1 ++ (objs.filter (isLivePpp traced isNoLongerPpp)).map (·.forward traced),
        acc.2.1 + objs.countP (isNoLongerLivePpp traced isNoLongerPpp),
        acc.2.2 + objs.countP (!traced.isLive ·)) := by
  induction objs generalizing acc with
  | nil => simp
  | cons obj objs ih =>
    obtain ⟨kept, numNoLongerPpps, numDeadPpps⟩ := acc
    rw [List.foldl_cons, ih]
    have hfwd : (traced.getForwardedObject obj).getD obj = obj.forward traced := rfl
    cases hlive : traced.isLive obj with
    | false =>
      simp only [retain, hlive, isLivePpp, isNoLongerLivePpp, Bool.false_and, Bool.not_false,
        Bool.false_eq_true, ↓reduceIte, not_false_eq_true, List.filter_cons_of_neg,
        List.countP_cons_of_neg, List.countP_cons_of_pos]
      rw [Nat.add_assoc, Nat.add_comm 1]
    | true =>
      cases hppp : isNoLongerPpp (obj.forward traced) with
      | false => simp [retain, isLivePpp, isNoLongerLivePpp, hlive, hfwd, hppp]
      | true =>
        simp only [retain, hlive, hfwd, hppp, isLivePpp, isNoLongerLivePpp, Bool.and_self,
          Bool.not_true, Bool.and_false, Bool.false_eq_true, ↓reduceIte, not_false_eq_true,
          List.filter_cons_of_neg, List.countP_cons_of_neg, List.countP_cons_of_pos]
        rw [Nat.add_assoc, Nat.add_comm 1]

/-- An entry is a live PPP, or no longer a PPP, or dead. -/
lemma length_eq (objs : List ObjectReference) :
    objs.length = (objs.filter (isLivePpp traced isNoLongerPpp)).length +
      objs.countP (isNoLongerLivePpp traced isNoLongerPpp) +
      objs.countP (!traced.isLive ·) := by
  rw [← List.countP_eq_length_filter]
  induction objs with
  | nil => rfl
  | cons obj objs ih =>
    rw [List.length_cons, List.countP_cons, List.countP_cons, List.countP_cons, ih]
    cases hlive : traced.isLive obj <;> cases hppp : isNoLongerPpp (obj.forward traced) <;>
      simp only [isLivePpp, isNoLongerLivePpp, hlive, hppp, Bool.not_true, Bool.not_false,
        Bool.and_self, Bool.and_true, Bool.and_false, Bool.false_eq_true, if_true, if_false] <;>
      omega

/-- The live PPPs stay in order under their new addresses, and every entry is counted once. -/
structure Removes (r : PPPRegistry) (result : Counters × PPPRegistry) : Prop where
  ppps : result.2.ppps =
    (r.ppps.filter (isLivePpp traced isNoLongerPpp)).map (·.forward traced)
  numPpps : result.1.numPpps = r.ppps.length
  numDeadPpps : result.1.numDeadPpps = r.ppps.countP (!traced.isLive ·)
  total : result.1.numPpps =
    result.2.ppps.length + result.1.numNoLongerPpps + result.1.numDeadPpps

lemma removes_doWork (r : PPPRegistry) :
    Removes traced isNoLongerPpp r (doWork traced isNoLongerPpp r) := by
  have hsplit := length_eq traced isNoLongerPpp r.ppps
  have hwork : doWork traced isNoLongerPpp r =
      (⟨r.ppps.length, r.ppps.countP (isNoLongerLivePpp traced isNoLongerPpp),
        r.ppps.countP (!traced.isLive ·)⟩,
        { r with ppps :=
          (r.ppps.filter (isLivePpp traced isNoLongerPpp)).map (·.forward traced) }) := by
    simp [doWork, foldl_retain]
  rw [hwork]
  refine ⟨rfl, rfl, rfl, ?_⟩
  rw [List.length_map]
  exact hsplit

end RemoveDeadPPPs

/-! ### Whole runs -/

namespace LivePpps

variable {Obj : Type*}

/-- The registry in a heap, and what has become of the registrations. -/
structure State (Obj : Type*) where
  registry : PPPRegistry
  history : History ObjectReference Obj
  /-- every registration so far, in order, with the number of GCs before it -/
  registrations : List (Obj × ℕ)
  /-- the objects for which `is_no_longer_ppp` holds in each GC, at their new addresses -/
  noLonger : ℕ → Set Obj

/-- A GC takes place and leaves `heap'`. -/
def State.collect (s : State Obj) (traced : Traced) (isNoLongerPpp : ObjectReference → Bool)
    (heap' : Heap ObjectReference Obj)
    (hrel : traced.liveCollection.Relocates s.history.heap heap') : State Obj :=
  { s with
    registry := (RemoveDeadPPPs.doWork traced isNoLongerPpp s.registry).2
    history := s.history.collect traced.liveCollection heap' hrel
    noLonger := Function.update s.noLonger s.history.gcs
      {o | ∃ a, heap'.objectAt a = some o ∧ isNoLongerPpp a = true} }

/-- Any mutator registers or allocates, or a GC takes place. -/
inductive Step : State Obj → Actor → State Obj → Prop where
  | register {s : State Obj} (object : ObjectReference) (o : Obj)
      (ho : s.history.heap.objectAt object = some o) :
      Step s .mutator
        { s with
          registry := s.registry.register object
          registrations := s.registrations ++ [(o, s.history.gcs)] }
  | registerMany {s : State Obj} (objects : List ObjectReference) (os : List Obj)
      (hos : List.Forall₂ (fun object o => s.history.heap.objectAt object = some o) objects os) :
      Step s .mutator
        { s with
          registry := s.registry.registerMany objects
          registrations := s.registrations ++ os.map fun o => (o, s.history.gcs) }
  | alloc {s : State Obj} (a : ObjectReference) (o : Obj)
      (hfree : s.history.heap.objectAt a = none) (hnew : s.history.bornAt o = none) :
      Step s .mutator { s with history := s.history.alloc a o hfree hnew }
  | gc {s : State Obj} (traced : Traced) (isNoLongerPpp : ObjectReference → Bool)
      (heap' : Heap ObjectReference Obj)
      (hrel : traced.liveCollection.Relocates s.history.heap heap') :
      Step s .gc (s.collect traced isNoLongerPpp heap' hrel)

/-- Runs from an empty registry, in any heap. -/
def system (Obj : Type*) : TransitionSystem (State Obj) Actor where
  init s := s.registry = PPPRegistry.new ∧ s.registrations = []
  step := Step

/-- No GC since the registration has found its object dead or no longer a PPP. -/
def State.Survives (s : State Obj) (r : Obj × ℕ) : Prop :=
  ∀ j, r.2 ≤ j → j < s.history.gcs → r.1 ∈ s.history.reached j ∧ r.1 ∉ s.noLonger j

open Classical in
/-- The registrations that still count, in order. -/
noncomputable def State.surviving (s : State Obj) : List (Obj × ℕ) :=
  s.registrations.filter fun r => decide (s.Survives r)

/-- The entries of the list are the current addresses of the surviving registrations, one by one
and in order. -/
structure Tracked (s : State Obj) : Prop where
  entries : List.Forall₂ (fun object r => s.history.heap.objectAt object = some r.1)
    s.registry.ppps s.surviving
  past : ∀ r ∈ s.registrations, r.2 ≤ s.history.gcs

namespace Tracked

variable {s : State Obj}

/-- New registrations survive, since there was no GC after them. -/
lemma register (h : Tracked s) {objects : List ObjectReference} {os : List Obj}
    (hos : List.Forall₂ (fun object o => s.history.heap.objectAt object = some o) objects os)
    {registry : PPPRegistry} (hr : registry.ppps = s.registry.ppps ++ objects) :
    Tracked { s with
      registry := registry
      registrations := s.registrations ++ os.map fun o => (o, s.history.gcs) } := by
  classical
  constructor
  · have hnew : State.surviving { s with
        registry := registry
        registrations := s.registrations ++ os.map fun o => (o, s.history.gcs) } =
        s.surviving ++ os.map fun o => (o, s.history.gcs) := by
      simp only [State.surviving, List.filter_append]
      congr 1
      rw [List.filter_eq_self]
      intro r hr
      obtain ⟨o, -, rfl⟩ := List.mem_map.mp hr
      exact decide_eq_true fun j hle hlt => absurd hlt (not_lt.mpr hle)
    rw [hnew, hr]
    refine List.rel_append h.entries ?_
    rw [List.forall₂_map_right_iff]
    exact hos
  · intro r hr
    rcases List.mem_append.mp hr with hr | hr
    · exact h.past r hr
    · obtain ⟨o, -, rfl⟩ := List.mem_map.mp hr
      exact le_refl _

/-- An allocation is at no entry's address. -/
lemma alloc (h : Tracked s) {a : ObjectReference} {o : Obj}
    (hfree : s.history.heap.objectAt a = none) (hnew : s.history.bornAt o = none) :
    Tracked { s with history := s.history.alloc a o hfree hnew } := by
  refine ⟨?_, h.past⟩
  exact h.entries.imp fun object r hobj =>
    (History.objectAt_alloc_iff hfree hnew).mpr (Or.inr hobj)

section Collect

variable {traced : Traced} {isNoLongerPpp : ObjectReference → Bool}
  {heap' : Heap ObjectReference Obj}
  {hrel : traced.liveCollection.Relocates s.history.heap heap'}

/-- What the earlier GCs have found out stays as it was. -/
lemma collect_of_lt {j : ℕ} (hj : j < s.history.gcs) :
    (s.collect traced isNoLongerPpp heap' hrel).history.reached j = s.history.reached j ∧
      (s.collect traced isNoLongerPpp heap' hrel).noLonger j = s.noLonger j :=
  ⟨History.reached_collect hrel hj, Function.update_of_ne (Nat.ne_of_lt hj) _ _⟩

lemma survives_of_collect {r : Obj × ℕ}
    (h : (s.collect traced isNoLongerPpp heap' hrel).Survives r) : s.Survives r := by
  intro j hle hlt
  have hj := h j hle (Nat.lt_succ_of_lt hlt)
  rwa [(collect_of_lt hlt).1, (collect_of_lt hlt).2] at hj

/-- What a GC finds out about an object of the heap. -/
lemma collect_gcs_iff {object : ObjectReference} {o : Obj}
    (hobj : s.history.heap.objectAt object = some o) :
    (o ∈ (s.collect traced isNoLongerPpp heap' hrel).history.reached s.history.gcs ∧
        o ∉ (s.collect traced isNoLongerPpp heap' hrel).noLonger s.history.gcs) ↔
      RemoveDeadPPPs.isLivePpp traced isNoLongerPpp object = true := by
  have hreached : o ∈ (s.collect traced isNoLongerPpp heap' hrel).history.reached s.history.gcs ↔
      traced.isLive object = true :=
    @History.mem_reached_collect _ _ _ _ _ hrel _ _ hobj
  have hnoLonger : (s.collect traced isNoLongerPpp heap' hrel).noLonger s.history.gcs =
      {o | ∃ a, heap'.objectAt a = some o ∧ isNoLongerPpp a = true} :=
    Function.update_self _ _ _
  rw [hreached, hnoLonger, RemoveDeadPPPs.isLivePpp, Bool.and_eq_true]
  refine and_congr_right fun hlive => ?_
  have hfwd : heap'.objectAt (object.forward traced) = some o :=
    hrel.objectAt_forward hobj hlive
  rw [Bool.not_eq_true', Bool.eq_false_iff, not_iff_not]
  constructor
  · rintro ⟨a, ha, hq⟩
    rwa [← heap'.unique ha hfwd]
  · exact fun hq => ⟨_, hfwd, hq⟩

/-- A registration outlives a GC that finds its object to be a live PPP. -/
lemma survives_collect_iff {object : ObjectReference} {r : Obj × ℕ} (hpast : r.2 ≤ s.history.gcs)
    (hobj : s.history.heap.objectAt object = some r.1) :
    (s.collect traced isNoLongerPpp heap' hrel).Survives r ↔
      s.Survives r ∧ RemoveDeadPPPs.isLivePpp traced isNoLongerPpp object = true := by
  have hnow := @collect_gcs_iff _ _ traced isNoLongerPpp _ hrel _ _ hobj
  rw [← hnow]
  constructor
  · exact fun h => ⟨survives_of_collect h, h _ hpast (Nat.lt_succ_self _)⟩
  · rintro ⟨h, hlast⟩ j hle hlt
    rcases Nat.lt_succ_iff_lt_or_eq.mp hlt with hlt | rfl
    · rw [(collect_of_lt hlt).1, (collect_of_lt hlt).2]
      exact h j hle hlt
    · exact hlast

/-- A GC ends the registrations of the objects that it found dead or no longer PPPs. -/
lemma collect (h : Tracked s) : Tracked (s.collect traced isNoLongerPpp heap' hrel) := by
  classical
  set s' := s.collect traced isNoLongerPpp heap' hrel with hs'
  refine ⟨?_, fun r hr => (h.past r hr).trans (Nat.le_succ _)⟩
  have hsurviving : s'.surviving = s.surviving.filter fun r => decide (s'.Survives r) := by
    rw [State.surviving, State.surviving, List.filter_filter]
    refine List.filter_congr fun r _ => ?_
    rw [← Bool.decide_and, decide_eq_decide]
    exact ⟨fun hr => ⟨hr, survives_of_collect hr⟩, And.left⟩
  have hppps : s'.registry.ppps = _ :=
    (RemoveDeadPPPs.removes_doWork traced isNoLongerPpp s.registry).ppps
  rw [hsurviving, hppps]
  refine forall₂_filter_map h.entries ?_ ?_
  · intro object r hr hobj
    obtain ⟨hmem, hsurv⟩ := List.mem_filter.mp hr
    rw [Bool.eq_iff_iff, decide_eq_true_iff, survives_collect_iff (h.past r hmem) hobj]
    exact ⟨fun hp => ⟨of_decide_eq_true hsurv, hp⟩, And.right⟩
  · intro object r hobj hp
    exact hrel.objectAt_forward hobj (Bool.and_eq_true_iff.mp hp).1

end Collect

end Tracked

lemma tracked_invariant : (system Obj).IsInvariant Tracked where
  init := by
    rintro s ⟨hr, hregs⟩
    constructor
    · simp [State.surviving, hr, hregs, PPPRegistry.new]
    · simp [hregs]
  step := by
    intro s l s' _ h hstep
    cases hstep with
    | register object o ho => exact h.register (.cons ho .nil) rfl
    | registerMany objects os hos => exact h.register hos (by simp)
    | alloc a o hfree hnew => exact h.alloc hfree hnew
    | gc traced isNoLongerPpp heap' hrel => exact h.collect

/-- The list has every registration that still counts, at the current address of its object, and
nothing dead; and a GC, whatever it finds out, removes and counts what it should. -/
structure TracksLivePpps (s : State Obj) : Prop extends Tracked s where
  current : ∀ r ∈ s.registrations, s.Survives r →
    ∃ object ∈ s.registry.ppps, s.history.heap.objectAt object = some r.1
  no_dead : ∀ object ∈ s.registry.ppps, ∃ r ∈ s.registrations, s.Survives r ∧
    s.history.heap.objectAt object = some r.1
  removes : ∀ traced isNoLongerPpp, RemoveDeadPPPs.Removes traced isNoLongerPpp s.registry
    (RemoveDeadPPPs.doWork traced isNoLongerPpp s.registry)

/-- In every state of every run, the list of PPPs is exactly that of the live PPPs. -/
theorem tracksLivePpps_of_reachable {s : State Obj} (hs : (system Obj).Reachable s) :
    TracksLivePpps s := by
  classical
  have h := tracked_invariant.of_reachable hs
  refine ⟨h, ?_, ?_, fun traced isNoLongerPpp => RemoveDeadPPPs.removes_doWork _ _ _⟩
  · intro r hr hsurv
    have hmem : r ∈ s.surviving := List.mem_filter.mpr ⟨hr, decide_eq_true hsurv⟩
    exact exists_related_of_mem h.entries.flip r hmem
  · intro object hobject
    obtain ⟨r, hmem, hobj⟩ := exists_related_of_mem h.entries object hobject
    obtain ⟨hr, hsurv⟩ := List.mem_filter.mp hmem
    exact ⟨r, hr, of_decide_eq_true hsurv, hobj⟩

/-- Object 0, registered twice, is moved over the address of object 1, which dies. -/
theorem tracksLivePpps_moved : ∃ s : State ℕ, (system ℕ).Reachable s ∧
    s.registry.ppps = [⟨8192, by decide⟩, ⟨8192, by decide⟩] ∧
    s.registrations = [(0, 0), (1, 0), (0, 0)] ∧ TracksLivePpps s := by
  let a : ObjectReference := ⟨4096, by decide⟩
  let b : ObjectReference := ⟨8192, by decide⟩
  let traced : Traced :=
    ⟨(· == a), (· == a), fun object => if object = a then some b else none⟩
  have hnew : (History.start.alloc a 0 rfl rfl).bornAt 1 = none :=
    History.bornAt_alloc (by decide) rfl rfl
  obtain ⟨heap', hrel⟩ : ∃ heap', traced.liveCollection.Relocates
      ((History.start.alloc a 0 rfl rfl).alloc b 1 rfl hnew).heap heap' := by
    refine Collection.exists_relocates fun x y _ _ hx hy _ => ?_
    exact (eq_of_beq hx).trans (eq_of_beq hy).symm
  have h₀ : (system ℕ).Reachable ⟨PPPRegistry.new, History.start, [], fun _ => ∅⟩ :=
    .init ⟨rfl, rfl⟩
  have h₁ := h₀.step (.alloc a 0 rfl rfl)
  have h₂ := h₁.step (.alloc b 1 rfl hnew)
  have h₃ := h₂.step (.register a 0 rfl)
  have h₄ := h₃.step (.registerMany [b, a] [1, 0] (.cons rfl (.cons rfl .nil)))
  have h₅ := h₄.step (.gc traced (fun _ => false) heap' hrel)
  exact ⟨_, h₅, rfl, rfl, tracksLivePpps_of_reachable h₅⟩

end LivePpps

end MmtkRuby
