import Mathlib.Algebra.Order.Group.Multiset
import Mathlib.Tactic.Abel
import MmtkRuby.Core.TransitionSystem
import MmtkRuby.ObjectReference

/-!
# Candidates for `obj_free`

Mutators register objects, at any time between two GCs; each GC calls `obj_free` for the
candidates that it found dead and keeps the others under their new addresses; at shutdown the list
is handed out. A registration is a debt: it is outstanding, settled by `obj_free`, or handed out.
-/

namespace MmtkRuby

open Core

structure WeakProcessor where
  objFreeCandidates : List ObjectReference
deriving DecidableEq, Repr

namespace WeakProcessor

def new : WeakProcessor := ⟨[]⟩

def addObjFreeCandidate (w : WeakProcessor) (object : ObjectReference) : WeakProcessor :=
  { w with objFreeCandidates := w.objFreeCandidates ++ [object] }

/-- The loop of `add_obj_free_candidates`, in one critical section. -/
def addObjFreeCandidates (w : WeakProcessor) (objects : List ObjectReference) : WeakProcessor :=
  objects.foldl addObjFreeCandidate w

def getAllObjFreeCandidates (w : WeakProcessor) : List ObjectReference × WeakProcessor :=
  (w.objFreeCandidates, { w with objFreeCandidates := [] })

@[simp] lemma objFreeCandidates_addObjFreeCandidates (w : WeakProcessor)
    (objects : List ObjectReference) :
    (w.addObjFreeCandidates objects).objFreeCandidates = w.objFreeCandidates ++ objects := by
  unfold addObjFreeCandidates
  induction objects generalizing w with
  | nil => simp
  | cons object objects ih =>
    rw [List.foldl_cons, ih]
    simp [addObjFreeCandidate]

end WeakProcessor

/-! ### The packet -/

namespace ProcessObjFreeCandidates

variable (traced : Traced)

/-- One iteration of the loop: `new_candidates` and the calls of `call_obj_free` so far. -/
def iteration (acc : List ObjectReference × List ObjectReference) (object : ObjectReference) :
    List ObjectReference × List ObjectReference :=
  if traced.isReachable object then (acc.1 ++ [object.forward traced], acc.2)
  else (acc.1, acc.2 ++ [object])

/-- `ProcessObjFreeCandidates::do_work`, with the arguments of its calls of `call_obj_free`. -/
def doWork (w : WeakProcessor) : WeakProcessor × List ObjectReference :=
  let (newCandidates, calls) := w.objFreeCandidates.foldl (iteration traced) ([], [])
  ({ w with objFreeCandidates := newCandidates }, calls)

lemma foldl_iteration (objects : List ObjectReference)
    (acc : List ObjectReference × List ObjectReference) :
    objects.foldl (iteration traced) acc =
      (acc.1 ++ (objects.filter traced.isReachable).map (·.forward traced),
        acc.2 ++ objects.filter (!traced.isReachable ·)) := by
  induction objects generalizing acc with
  | nil => simp
  | cons object objects ih =>
    rw [List.foldl_cons, ih]
    cases h : traced.isReachable object <;> simp [iteration, h]

/-- The reachable candidates are forwarded, and `obj_free` is called for the others. -/
lemma doWork_eq (w : WeakProcessor) :
    doWork traced w =
      (⟨(w.objFreeCandidates.filter traced.collection.keeps).map traced.collection.forward⟩,
        w.objFreeCandidates.filter (!traced.collection.keeps ·)) := by
  simp [doWork, foldl_iteration, Traced.collection]

end ProcessObjFreeCandidates
/-! ### Whole runs -/

namespace ObjFree

variable {Obj : Type*}

/-- The candidates in a heap, and what has become of the registrations. -/
structure State (Obj : Type*) where
  weakProc : WeakProcessor
  history : History ObjectReference Obj
  registered : Multiset Obj
  /-- the object at the address that `call_obj_free` was given, and the GC in which it was called -/
  freed : Multiset (Option Obj × ℕ)
  /-- the objects at the addresses that `get_all_obj_free_candidates` returned -/
  handedOut : Multiset (Option Obj)

/-- Any mutator calls one of the functions or allocates, or a GC takes place. -/
inductive Step : State Obj → Actor → State Obj → Prop where
  | addCandidate {s : State Obj} (object : ObjectReference) (o : Obj)
      (ho : s.history.heap.objectAt object = some o) :
      Step s .mutator
        { s with
          weakProc := s.weakProc.addObjFreeCandidate object
          registered := {o} + s.registered }
  | addCandidates {s : State Obj} (objects : List ObjectReference) (os : List Obj)
      (hos : objects.map s.history.heap.objectAt = os.map some) :
      Step s .mutator
        { s with
          weakProc := s.weakProc.addObjFreeCandidates objects
          registered := os + s.registered }
  | getAll {s : State Obj} :
      Step s .mutator
        { s with
          weakProc := s.weakProc.getAllObjFreeCandidates.2
          handedOut := s.handedOut +
            s.weakProc.getAllObjFreeCandidates.1.map s.history.heap.objectAt }
  | alloc {s : State Obj} (a : ObjectReference) (o : Obj)
      (hfree : s.history.heap.objectAt a = none) (hnew : s.history.bornAt o = none) :
      Step s .mutator { s with history := s.history.alloc a o hfree hnew }
  | gc {s : State Obj} (traced : Traced) (heap' : Heap ObjectReference Obj)
      (hrel : traced.collection.Relocates s.history.heap heap') :
      Step s .gc
        { s with
          weakProc := (ProcessObjFreeCandidates.doWork traced s.weakProc).1
          history := s.history.collect traced.collection heap' hrel
          freed := s.freed + (ProcessObjFreeCandidates.doWork traced s.weakProc).2.map
            fun object => (s.history.heap.objectAt object, s.history.gcs) }

/-- Runs from an empty list of candidates, in any heap. -/
def system (Obj : Type*) : TransitionSystem (State Obj) Actor where
  init s := s.weakProc = WeakProcessor.new ∧ s.registered = 0 ∧ s.freed = 0 ∧ s.handedOut = 0
  step := Step

/-- The objects whose candidates are outstanding, by what lives at the recorded addresses. -/
def State.outstanding (s : State Obj) : Multiset (Option Obj) :=
  s.weakProc.objFreeCandidates.map s.history.heap.objectAt

/-- Every registration is outstanding, settled or handed out, and each is so once. -/
structure Balanced (s : State Obj) : Prop where
  balance : s.registered.map some = s.outstanding + s.freed.map Prod.fst + s.handedOut
  freed_first : ∀ o k, (some o, k) ∈ s.freed → s.history.FoundDead o k

namespace Balanced

variable {s : State Obj}

/-- Whatever has become of a registration, its object was registered. -/
lemma exists_of_mem (h : Balanced s) {x : Option Obj}
    (hx : x ∈ s.outstanding + s.freed.map Prod.fst + s.handedOut) :
    ∃ o ∈ s.registered, some o = x := by
  rw [← h.balance] at hx
  exact Multiset.mem_map.mp hx

/-- A candidate is recorded at the address of an object. -/
lemma resolved (h : Balanced s) {a : ObjectReference} (ha : a ∈ s.weakProc.objFreeCandidates) :
    (s.history.heap.objectAt a).isSome := by
  have hmem : s.history.heap.objectAt a ∈ s.outstanding :=
    Multiset.mem_coe.mpr (List.mem_map_of_mem ha)
  obtain ⟨o, -, ho⟩ := h.exists_of_mem
    (Multiset.mem_add.mpr (Or.inl (Multiset.mem_add.mpr (Or.inl hmem))))
  rw [← ho]
  rfl

/-- New registrations become candidates. -/
lemma add (h : Balanced s) {objects : List ObjectReference} {os : List Obj}
    (hos : objects.map s.history.heap.objectAt = os.map some) {w : WeakProcessor}
    (hw : w.objFreeCandidates = s.weakProc.objFreeCandidates ++ objects) :
    Balanced { s with weakProc := w, registered := os + s.registered } := by
  refine ⟨?_, h.freed_first⟩
  have hout : State.outstanding { s with weakProc := w, registered := os + s.registered }
      = s.outstanding + os.map some := by
    simp only [State.outstanding, hw, List.map_append, hos, ← Multiset.coe_add]
  rw [hout, Multiset.map_add, h.balance, Multiset.map_coe]
  abel

lemma getAll (h : Balanced s) :
    Balanced { s with
      weakProc := s.weakProc.getAllObjFreeCandidates.2
      handedOut := s.handedOut +
        s.weakProc.getAllObjFreeCandidates.1.map s.history.heap.objectAt } := by
  refine ⟨?_, h.freed_first⟩
  have hbal := h.balance
  simp only [State.outstanding] at hbal
  simp only [State.outstanding, WeakProcessor.getAllObjFreeCandidates, List.map_nil,
    Multiset.coe_nil, hbal]
  abel

/-- An allocation is at no candidate's address. -/
lemma alloc (h : Balanced s) {a : ObjectReference} {o : Obj}
    (hfree : s.history.heap.objectAt a = none) (hnew : s.history.bornAt o = none) :
    Balanced { s with history := s.history.alloc a o hfree hnew } := by
  refine ⟨?_, fun o' k hk => (h.freed_first o' k hk).alloc hfree hnew⟩
  have hsame : s.weakProc.objFreeCandidates.map (s.history.alloc a o hfree hnew).heap.objectAt
      = s.weakProc.objFreeCandidates.map s.history.heap.objectAt := by
    apply List.map_congr_left
    intro b hb
    obtain ⟨o', ho'⟩ := Option.isSome_iff_exists.mp (h.resolved hb)
    rw [ho']
    exact (History.objectAt_alloc_iff hfree hnew).mpr (Or.inr ho')
  have hbal := h.balance
  simp only [State.outstanding] at hbal
  simp only [State.outstanding, hsame, hbal]

/-- A GC settles the debts of the objects it found dead, and of no others. -/
lemma gc (h : Balanced s) {traced : Traced} {heap' : Heap ObjectReference Obj}
    (hrel : traced.collection.Relocates s.history.heap heap') :
    Balanced { s with
      weakProc := (ProcessObjFreeCandidates.doWork traced s.weakProc).1
      history := s.history.collect traced.collection heap' hrel
      freed := s.freed + (ProcessObjFreeCandidates.doWork traced s.weakProc).2.map
        fun object => (s.history.heap.objectAt object, s.history.gcs) } := by
  rw [ProcessObjFreeCandidates.doWork_eq]
  set cands := s.weakProc.objFreeCandidates with hcands
  refine ⟨?_, ?_⟩
  · have hkept : ((cands.filter traced.collection.keeps).map traced.collection.forward).map
        heap'.objectAt = (cands.filter traced.collection.keeps).map s.history.heap.objectAt :=
      hrel.map_objectAt fun a ha => h.resolved ha
    have hsplit : (cands.map s.history.heap.objectAt : Multiset (Option Obj))
        = (cands.filter traced.collection.keeps).map s.history.heap.objectAt
          + (cands.filter (!traced.collection.keeps ·)).map s.history.heap.objectAt := by
      rw [Multiset.coe_add, ← List.map_append]
      exact Multiset.coe_eq_coe.mpr ((List.filter_append_perm _ cands).symm.map _)
    have hbal := h.balance
    simp only [State.outstanding, ← hcands] at hbal
    simp only [State.outstanding, History.collect, hkept, hbal, hsplit, Multiset.map_add,
      Multiset.map_coe, List.map_map, Function.comp_def]
    abel
  · intro o k hk
    rcases Multiset.mem_add.mp hk with hk | hk
    · exact (h.freed_first o k hk).collect hrel
    · obtain ⟨a, ha, heq⟩ := List.mem_map.mp (Multiset.mem_coe.mp hk)
      obtain ⟨hobj, rfl⟩ := Prod.mk.injEq _ _ _ _ ▸ heq
      apply History.foundDead_collect hrel hobj
      simpa using (List.mem_filter.mp ha).2

end Balanced

lemma balanced_invariant : (system Obj).IsInvariant Balanced where
  init := by
    rintro s ⟨hw, hreg, hfreed, hout⟩
    refine ⟨?_, ?_⟩
    · simp [State.outstanding, hw, hreg, hfreed, hout, WeakProcessor.new]
    · simp [hfreed]
  step := by
    intro s l s' _ h hstep
    cases hstep with
    | addCandidate object o ho =>
      have hos : [object].map s.history.heap.objectAt = [o].map some := by simp [ho]
      exact h.add hos rfl
    | addCandidates objects os hos => exact h.add hos (by simp)
    | getAll => exact h.getAll
    | alloc a o hfree hnew => exact h.alloc hfree hnew
    | gc traced heap' hrel => exact h.gc hrel

variable [DecidableEq Obj]

/-- Each registration is accounted for once, so an object that was registered once is freed at most
once, never while reachable, never after it was handed out, and not forgotten when it dies. -/
structure Accounted (s : State Obj) : Prop extends Balanced s where
  freed_once : ∀ o, s.registered.count o = 1 → (s.freed.map Prod.fst).count (some o) ≤ 1
  freed_unreachable : ∀ o k, (some o, k) ∈ s.freed → o ∉ s.history.reached k
  not_freed_if_handed_out : ∀ o, s.registered.count o = 1 → some o ∈ s.handedOut →
    ∀ k, (some o, k) ∉ s.freed
  not_dropped : ∀ o ∈ s.registered, o ∉ s.history.heap →
    some o ∈ s.handedOut ∨ ∃ k, (some o, k) ∈ s.freed

lemma Balanced.count_eq {s : State Obj} (h : Balanced s) (o : Obj) :
    s.registered.count o = s.outstanding.count (some o) +
      (s.freed.map Prod.fst).count (some o) + s.handedOut.count (some o) := by
  rw [← Multiset.count_add, ← Multiset.count_add, ← h.balance,
    Multiset.count_map_eq_count' some _ (Option.some_injective Obj)]

/-- In every state of every run, every registration is accounted for exactly once. -/
theorem accounted_of_reachable {s : State Obj} (hs : (system Obj).Reachable s) :
    Accounted s := by
  have h := balanced_invariant.of_reachable hs
  have hfreed : ∀ {o k}, (some o, k) ∈ s.freed → 1 ≤ (s.freed.map Prod.fst).count (some o) :=
    fun hk => Multiset.one_le_count_iff_mem.mpr (Multiset.mem_map_of_mem Prod.fst hk)
  refine ⟨h, ?_, ?_, ?_, ?_⟩
  · intro o ho
    have := h.count_eq o
    omega
  · intro o k hk
    exact (h.freed_first o k hk).missed
  · intro o ho hout k hk
    have hcount := h.count_eq o
    have hout' := Multiset.one_le_count_iff_mem.mpr hout
    have := hfreed hk
    omega
  · intro o ho hdead
    have hout : some o ∉ s.outstanding := by
      intro hmem
      obtain ⟨a, -, ha⟩ := List.mem_map.mp (Multiset.mem_coe.mp hmem)
      exact hdead ⟨a, ha⟩
    have hsome : some o ∈ s.outstanding + s.freed.map Prod.fst + s.handedOut := by
      rw [← h.balance]
      exact Multiset.mem_map_of_mem some ho
    rcases Multiset.mem_add.mp hsome with hmem | hmem
    · rcases Multiset.mem_add.mp hmem with hmem | hmem
      · exact absurd hmem hout
      · obtain ⟨⟨x, k⟩, hk, rfl⟩ := Multiset.mem_map.mp hmem
        exact Or.inr ⟨k, hk⟩
    · exact Or.inl hmem

/-- Object 0 dies at an address where object 1 is born, which is handed out. -/
theorem accounted_recycled : ∃ s : State ℕ, (system ℕ).Reachable s ∧
    s.freed = {(some 0, 0)} ∧ s.handedOut = {some 1} ∧ Accounted s := by
  let a : ObjectReference := ⟨4096, by decide⟩
  let traced : Traced := ⟨fun _ => false, fun _ => false, fun _ => none⟩
  have hrel : traced.collection.Relocates (History.start.alloc a 0 rfl rfl).heap
      History.start.heap := by
    intro b o
    simp [traced, Traced.collection, History.start]
  have hnew : (History.start.alloc a 0 rfl rfl).bornAt 1 = none :=
    History.bornAt_alloc (by decide) rfl rfl
  have h₀ : (system ℕ).Reachable ⟨WeakProcessor.new, History.start, 0, 0, 0⟩ :=
    .init ⟨rfl, rfl, rfl, rfl⟩
  have h₁ := h₀.step (.alloc a 0 rfl rfl)
  have h₂ := h₁.step (.addCandidate a 0 rfl)
  have h₃ := h₂.step (.gc traced History.start.heap hrel)
  have h₄ := h₃.step (.alloc a 1 rfl hnew)
  have h₅ := h₄.step (.addCandidates [a] [1] rfl)
  have h₆ := h₅.step .getAll
  exact ⟨_, h₆, rfl, rfl, accounted_of_reachable h₆⟩

end ObjFree

end MmtkRuby
