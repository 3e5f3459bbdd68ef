import MmtkRuby.Ppp.LivePpps
import MmtkRuby.WeakProc.GivtblHistory
import MmtkRuby.WeakProc.Sequential

/-!
# From one GC to the next

Mutators register objects with the binding, and between them GCs take place, in which the workers
execute the packets of weak processing in some order. Seen through any one of the lists and tables
of the binding, such a run is one in which that list is processed in one go.
-/

namespace MmtkRuby

open Core

namespace GcCycle

open WeakRefs (Component Env)

variable {E B G : Type} {Obj : Type*}

/-- The binding in a heap, and what has become of the registrations. -/
structure State (E B G : Type) (Obj : Type*) where
  binding : (i : Component) → WeakRefs.State E B G i
  history : History ObjectReference Obj
  flags : Obj → ℕ
  givtbl : Obj → Ptr
  registered : Multiset Obj
  freed : Multiset (Option Obj × ℕ)
  handedOut : Multiset (Option Obj)
  wbRegistrations : Set (Obj × ℕ)
  pppRegistrations : List (Obj × ℕ)
  noLonger : ℕ → Set Obj

namespace State

variable (s : State E B G Obj)

/-- The candidates for `obj_free`. -/
def objFree : ObjFree.State Obj where
  weakProc := (s.binding .weakProc).weakProc
  history := s.history
  registered := s.registered
  freed := s.freed
  handedOut := s.handedOut

/-- The set of WB-unprotected objects. -/
def wbUnprotected : WbUnprotected.State Obj where
  wbUnprotectedObjects := s.binding .wbUnprotectedObjects
  history := s.history
  registrations := s.wbRegistrations

/-- The list of PPPs. -/
def livePpps : LivePpps.State Obj where
  registry := ⟨(s.binding .pppRegistry).ppps, []⟩
  history := s.history
  registrations := s.pppRegistrations
  noLonger := s.noLonger

/-- The generic instance variable tables. -/
def givtbls : GivtblHistory.State Obj where
  genericIvTbl := (s.binding .givtbls).genericIvTbl
  movedGivtbl := (s.binding .givtbls).movedGivtbl
  history := s.history
  flags := s.flags
  givtbl := s.givtbl

/-- The binding when weak processing begins: objects have been copied, and the children of the PPPs
have been pinned. No `obj_free` has been called in this GC. -/
def atWeakRefs (movedGivtbl : MovedGivtbl) (newlyPinned : List ObjectReference)
    (isPinned : ObjectReference → Bool) : (i : Component) → WeakRefs.State E B G i
  | .weakProc => ⟨(s.binding .weakProc).weakProc, 0⟩
  | .givtbls => ⟨movedGivtbl, (s.binding .givtbls).genericIvTbl⟩
  | .pppRegistry => ⟨(s.binding .pppRegistry).ppps,
      (s.binding .pppRegistry).pinnedPppChildren ++ newlyPinned⟩
  | .pinBits => isPinned
  | .processWeakRefs => s.binding .processWeakRefs
  | .globalTable g => s.binding (.globalTable g)
  | .wbUnprotectedObjects => s.binding .wbUnprotectedObjects
  | .chunkedTable t => s.binding (.chunkedTable t)

end State

/-- The weak tables, which CRuby changes at any time. -/
def isTable : Component → Bool
  | .globalTable _ | .chunkedTable _ => true
  | .processWeakRefs | .weakProc | .givtbls | .wbUnprotectedObjects | .pppRegistry
  | .pinBits => false

/-- What a GC does until its weak processing begins, with what its plan promises: the answers about
liveness agree, moved objects are put in fresh memory, and the children that are recorded are
pinned. -/
structure GcStart (upcalls : GivtblUpcalls) (s : State E B G Obj) (env : Env E B G)
    (heap' : Heap ObjectReference Obj) (copies : List (ObjectReference × ObjectReference))
    (movedGivtbl : MovedGivtbl) (newlyPinned : List ObjectReference)
    (isPinned : ObjectReference → Bool) : Prop where
  lawful : env.upcalls.Lawful
  givtbl : env.upcalls.givtbl = upcalls
  chunk_pos : 1 ≤ env.binding.stEntriesChunkSize
  noOverflow : ∀ t, WeakTable.NoOverflow env.binding (env.upcalls.stGetSizeInfo t)
  relocates : env.traced.collection.Relocates s.history.heap heap'
  live : ∀ a, (s.history.heap.objectAt a).isSome → env.traced.isLive a = env.traced.isReachable a
  copiesOf : GivtblHistory.CopiesOf env.traced s.history.heap copies
  moved : copies.foldlM (VMObjectModel.copyGivtbl s.givtbls.env) (s.binding .givtbls).movedGivtbl =
    .ok movedGivtbl
  pins : WeakRefs.PinsUndoable env
    ⟨(s.binding .pppRegistry).ppps, (s.binding .pppRegistry).pinnedPppChildren ++ newlyPinned⟩
    isPinned

open Classical in
inductive Step (upcalls : GivtblUpcalls) : State E B G Obj → Actor → State E B G Obj → Prop where
  | alloc {s : State E B G Obj} (a : ObjectReference) (o : Obj) (flags : ℕ)
      (hfree : s.history.heap.objectAt a = none) (hnew : s.history.bornAt o = none)
      (hflags : ¬ GivtblHistory.HasExivar flags) :
      Step upcalls s .mutator
        { s with
          history := s.history.alloc a o hfree hnew
          flags := fun o' => if o' = o then flags else s.flags o'
          givtbl := fun o' => if o' = o then 0 else s.givtbl o' }
  | setGivtbl {s : State E B G Obj} (object : ObjectReference) (o : Obj) (givtbl : Ptr)
      (flags : ℕ) (ho : s.history.heap.objectAt object = some o)
      (hflags : GivtblHistory.HasExivar flags ↔ givtbl ≠ 0) :
      Step upcalls s .mutator
        { s with
          binding := Function.update s.binding .givtbls
            { s.binding .givtbls with
              genericIvTbl := (s.binding .givtbls).genericIvTbl.update object givtbl }
          flags := fun o' => if o' = o then flags else s.flags o'
          givtbl := fun o' => if o' = o then givtbl else s.givtbl o' }
  | addObjFreeCandidate {s : State E B G Obj} (object : ObjectReference) (o : Obj)
      (ho : s.history.heap.objectAt object = some o) :
      Step upcalls s .mutator
        { s with
          binding := Function.update s.binding .weakProc
            { s.binding .weakProc with
              weakProc := (s.binding .weakProc).weakProc.addObjFreeCandidate object }
          registered := {o} + s.registered }
  | addObjFreeCandidates {s : State E B G Obj} (objects : List ObjectReference) (os : List Obj)
      (hos : objects.map s.history.heap.objectAt = os.map some) :
      Step upcalls s .mutator
        { s with
          binding := Function.update s.binding .weakProc
            { s.binding .weakProc with
              weakProc := (s.binding .weakProc).weakProc.addObjFreeCandidates objects }
          registered := os + s.registered }
  | getAllObjFreeCandidates {s : State E B G Obj} :
      Step upcalls s .mutator
        { s with
          binding := Function.update s.binding .weakProc
            { s.binding .weakProc with
              weakProc := (s.binding .weakProc).weakProc.getAllObjFreeCandidates.2 }
          handedOut := s.handedOut +
            (s.binding .weakProc).weakProc.getAllObjFreeCandidates.1.map
              s.history.heap.objectAt }
  | registerWbUnprotectedObject {s : State E B G Obj} (object : ObjectReference) (o : Obj)
      (ho : s.history.heap.objectAt object = some o) :
      Step upcalls s .mutator
        { s with
          binding := Function.update s.binding .wbUnprotectedObjects
            (registerWbUnprotectedObject (s.binding .wbUnprotectedObjects) object)
          wbRegistrations := insert (o, s.history.gcs) s.wbRegistrations }
  | registerPpp {s : State E B G Obj} (object : ObjectReference) (o : Obj)
      (ho : s.history.heap.objectAt object = some o) :
      Step upcalls s .mutator
        { s with
          binding := Function.update s.binding .pppRegistry
            ((s.binding .pppRegistry).register object)
          pppRegistrations := s.pppRegistrations ++ [(o, s.history.gcs)] }
  | registerPpps {s : State E B G Obj} (objects : List ObjectReference) (os : List Obj)
      (hos : List.Forall₂ (fun object o => s.history.heap.objectAt object = some o) objects os) :
      Step upcalls s .mutator
        { s with
          binding := Function.update s.binding .pppRegistry
            ((s.binding .pppRegistry).registerMany objects)
          pppRegistrations := s.pppRegistrations ++ os.map fun o => (o, s.history.gcs) }
  | pinBits {s : State E B G Obj} (isPinned : ObjectReference → Bool) :
      Step upcalls s .mutator { s with binding := Function.update s.binding .pinBits isPinned }
  | tables {s : State E B G Obj} (binding : (i : Component) → WeakRefs.State E B G i)
      (hsame : ∀ i, isTable i = false → binding i = s.binding i) :
      Step upcalls s .mutator { s with binding }
  | gc {s : State E B G Obj} {env : Env E B G} {heap' : Heap ObjectReference Obj}
      {copies : List (ObjectReference × ObjectReference)} {movedGivtbl : MovedGivtbl}
      {newlyPinned : List ObjectReference} {isPinned : ObjectReference → Bool}
      (hstart : GcStart upcalls s env heap' copies movedGivtbl newlyPinned isPinned)
      {c : PoolConfig (WeakRefs.State E B G) WeakRefs.Packet}
      (hrun : (WeakRefs.bucket env).Run
        (WeakRefs.start (s.atWeakRefs movedGivtbl newlyPinned isPinned)) c)
      (hfin : WorkPool.Finished c) :
      Step upcalls s .gc
        { s with
          binding := c.state
          history := s.history.collect env.traced.collection heap' hstart.relocates
          freed := s.freed + (c.state .weakProc).freed.map
            fun object => (s.history.heap.objectAt object, s.history.gcs)
          noLonger := Function.update s.noLonger s.history.gcs
            {o | ∃ a, heap'.objectAt a = some o ∧ env.upcalls.isNoLongerPpp a = true} }

/-- Runs from an empty binding, in any heap in which no object has a table. -/
def system (E B G : Type) (Obj : Type*) (upcalls : GivtblUpcalls) :
    TransitionSystem (State E B G Obj) Actor where
  init s := (ObjFree.system Obj).init s.objFree ∧ (WbUnprotected.system Obj).init s.wbUnprotected ∧
    (s.binding .pppRegistry) = PPPRegistry.new ∧ s.pppRegistrations = [] ∧
    (GivtblHistory.system Obj upcalls).init s.givtbls
  step := Step upcalls

/-! ### What a GC comes to -/

namespace GcStart

variable {upcalls : GivtblUpcalls} {s : State E B G Obj} {env : Env E B G}
  {heap' : Heap ObjectReference Obj} {copies : List (ObjectReference × ObjectReference)}
  {movedGivtbl : MovedGivtbl} {newlyPinned : List ObjectReference}
  {isPinned : ObjectReference → Bool}

/-- The record of moved tables is as weak processing expects it. -/
lemma leftByCopies (h : GcStart upcalls s env heap' copies movedGivtbl newlyPinned isPinned)
    (htracked : GivtblHistory.Tracked s.givtbls) :
    WeakRefs.GivtblState.LeftByCopies ⟨movedGivtbl, (s.binding .givtbls).genericIvTbl⟩ := by
  have hapart := htracked.apart h.relocates h.copiesOf
  refine WeakRefs.leftByCopies_of_copyGivtbls htracked.flagsMatch hapart ?_
  have hmoved := h.moved
  rw [show (s.binding .givtbls).movedGivtbl = fun _ => none from htracked.drained] at hmoved
  exact hmoved

/-- Every run of weak processing that ends leaves the same outcome. -/
lemma outcome (h : GcStart upcalls s env heap' copies movedGivtbl newlyPinned isPinned)
    (htracked : GivtblHistory.Tracked s.givtbls)
    {c : PoolConfig (WeakRefs.State E B G) WeakRefs.Packet}
    (hrun : (WeakRefs.bucket env).Run
      (WeakRefs.start (s.atWeakRefs movedGivtbl newlyPinned isPinned)) c)
    (hfin : WorkPool.Finished c) :
    WeakRefs.Outcome env (s.atWeakRefs movedGivtbl newlyPinned isPinned) c.state := by
  have hleft := h.leftByCopies htracked
  obtain ⟨y, hy, hserial⟩ := WeakRefs.exists_serialRun
    (s := s.atWeakRefs movedGivtbl newlyPinned isPinned) h.lawful h.chunk_pos h.noOverflow hleft
    fun _ => h.pins
  have heq := (WeakRefs.commutes_bucket h.lawful).state_eq_of_serialRun (WeakRefs.inv_start hleft)
    hserial hrun hfin
  rwa [heq]

end GcStart

/-! ### The views -/

section Views

variable {upcalls : GivtblUpcalls}

/-- The tables of the objects, whatever else happens. -/
lemma givtbls_refines (hlaw : upcalls.Lawful) : (system E B G Obj upcalls).RefinementMapping
    (GivtblHistory.system Obj upcalls) State.givtbls where
  init h := h.2.2.2.2
  step := by
    intro s l s' _ hview hstep
    have htracked := (GivtblHistory.tracked_invariant hlaw).of_reachable hview
    cases hstep with
    | alloc a o flags hfree hnew hflags =>
      exact Or.inr ⟨.mutator, .alloc a o flags hfree hnew hflags⟩
    | setGivtbl object o givtbl flags ho hflags =>
      exact Or.inr ⟨.mutator, .setGivtbl object o givtbl flags ho hflags⟩
    | addObjFreeCandidate | addObjFreeCandidates | getAllObjFreeCandidates
    | registerWbUnprotectedObject | registerPpp | registerPpps | pinBits => exact Or.inl rfl
    | tables binding hsame =>
      refine Or.inl ?_
      simp only [State.givtbls, hsame .givtbls rfl]
    | @gc env heap' copies movedGivtbl newlyPinned isPinned hstart c hrun hfin =>
      have hout := hstart.outcome htracked hrun hfin
      obtain ⟨copies', hrec, hapart⟩ := hstart.leftByCopies htracked
      obtain ⟨order⟩ := DrainOrder.nonempty_of_records hrec hapart
      have hgivtbls := hout.givtbls order
      rw [hstart.givtbl] at hgivtbls
      refine Or.inr ⟨.gc, ?_⟩
      have hgc : GivtblHistory.Step upcalls s.givtbls .gc _ :=
        .gc env.traced heap' hstart.relocates hstart.copiesOf hstart.moved order
      convert hgc using 1
      simp only [State.givtbls, hgivtbls]
      rfl

/-- What the next GC may rely on. -/
lemma outcome_of_reachable (hlaw : upcalls.Lawful) {s : State E B G Obj}
    (hs : (system E B G Obj upcalls).Reachable s) {env : Env E B G}
    {heap' : Heap ObjectReference Obj} {copies : List (ObjectReference × ObjectReference)}
    {movedGivtbl : MovedGivtbl} {newlyPinned : List ObjectReference}
    {isPinned : ObjectReference → Bool}
    (hstart : GcStart upcalls s env heap' copies movedGivtbl newlyPinned isPinned)
    {c : PoolConfig (WeakRefs.State E B G) WeakRefs.Packet}
    (hrun : (WeakRefs.bucket env).Run
      (WeakRefs.start (s.atWeakRefs movedGivtbl newlyPinned isPinned)) c)
    (hfin : WorkPool.Finished c) :
    WeakRefs.Outcome env (s.atWeakRefs movedGivtbl newlyPinned isPinned) c.state := by
  have hview := (givtbls_refines hlaw).reachable hs
  exact hstart.outcome ((GivtblHistory.tracked_invariant hlaw).of_reachable hview) hrun hfin

/-- However the packets of a GC have been executed so far, the GC can be completed. -/
lemma gc_completes (hlaw : upcalls.Lawful) {s : State E B G Obj}
    (hs : (system E B G Obj upcalls).Reachable s) {env : Env E B G}
    {heap' : Heap ObjectReference Obj} {copies : List (ObjectReference × ObjectReference)}
    {movedGivtbl : MovedGivtbl} {newlyPinned : List ObjectReference}
    {isPinned : ObjectReference → Bool}
    (hstart : GcStart upcalls s env heap' copies movedGivtbl newlyPinned isPinned)
    {c : PoolConfig (WeakRefs.State E B G) WeakRefs.Packet}
    (hrun : (WeakRefs.bucket env).Run
      (WeakRefs.start (s.atWeakRefs movedGivtbl newlyPinned isPinned)) c) :
    ∃ c', (WeakRefs.bucket env).Run c c' ∧ WorkPool.Finished c' := by
  have hview := (givtbls_refines hlaw).reachable hs
  have hleft := hstart.leftByCopies ((GivtblHistory.tracked_invariant hlaw).of_reachable hview)
  obtain ⟨y, -, hserial⟩ := WeakRefs.exists_serialRun
    (s := s.atWeakRefs movedGivtbl newlyPinned isPinned) hstart.lawful hstart.chunk_pos
    hstart.noOverflow hleft fun _ => hstart.pins
  exact ⟨⟨y, 0⟩, (WeakRefs.commutes_bucket hstart.lawful).run_of_serialRun
    (WeakRefs.inv_start hleft) hserial hrun, rfl⟩

/-- The candidates for `obj_free`. -/
lemma objFree_refines (hlaw : upcalls.Lawful) : (system E B G Obj upcalls).RefinementMapping
    (ObjFree.system Obj) State.objFree where
  init h := h.1
  step := by
    intro s l s' hs _ hstep
    cases hstep with
    | alloc a o flags hfree hnew hflags => exact Or.inr ⟨.mutator, .alloc a o hfree hnew⟩
    | addObjFreeCandidate object o ho => exact Or.inr ⟨.mutator, .addCandidate object o ho⟩
    | addObjFreeCandidates objects os hos => exact Or.inr ⟨.mutator, .addCandidates objects os hos⟩
    | getAllObjFreeCandidates => exact Or.inr ⟨.mutator, .getAll⟩
    | setGivtbl | registerWbUnprotectedObject | registerPpp | registerPpps | pinBits =>
      exact Or.inl rfl
    | tables binding hsame =>
      refine Or.inl ?_
      simp only [State.objFree, hsame .weakProc rfl]
    | @gc env heap' copies movedGivtbl newlyPinned isPinned hstart c hrun hfin =>
      have hobjFree := (outcome_of_reachable hlaw hs hstart hrun hfin).objFree
      refine Or.inr ⟨.gc, ?_⟩
      have hgc : ObjFree.Step s.objFree .gc _ := .gc env.traced heap' hstart.relocates
      convert hgc using 1
      simp only [State.objFree, hobjFree, State.atWeakRefs, zero_add]
      rfl

/-- The set of WB-unprotected objects. -/
lemma wbUnprotected_refines (hlaw : upcalls.Lawful) : (system E B G Obj upcalls).RefinementMapping
    (WbUnprotected.system Obj) State.wbUnprotected where
  init h := h.2.1
  step := by
    intro s l s' hs _ hstep
    cases hstep with
    | alloc a o flags hfree hnew hflags => exact Or.inr ⟨.mutator, .alloc a o hfree hnew⟩
    | registerWbUnprotectedObject object o ho => exact Or.inr ⟨.mutator, .register object o ho⟩
    | setGivtbl | addObjFreeCandidate | addObjFreeCandidates | getAllObjFreeCandidates
    | registerPpp | registerPpps | pinBits => exact Or.inl rfl
    | tables binding hsame =>
      refine Or.inl ?_
      simp only [State.wbUnprotected, hsame .wbUnprotectedObjects rfl]
    | @gc env heap' copies movedGivtbl newlyPinned isPinned hstart c hrun hfin =>
      have hset := (outcome_of_reachable hlaw hs hstart hrun hfin).wbUnprotectedObjects
      refine Or.inr ⟨.gc, ?_⟩
      have hgc : WbUnprotected.Step s.wbUnprotected .gc _ := .gc env.traced heap'
        hstart.relocates _ (Finset.nodup_toList _) (Finset.toList_toFinset _)
      convert hgc using 1
      have hwork : c.state .wbUnprotectedObjects = UpdateWbUnprotectedObjectsList.doWork env.traced
          (s.binding .wbUnprotectedObjects).toList := by
        rw [hset]
        ext object
        rw [UpdateWbUnprotectedObjectsList.mem_doWork]
        simp [State.atWeakRefs, Traced.collection, and_assoc]
      simp only [State.wbUnprotected, hwork]
      rfl

lemma registerMany_eq (r : PPPRegistry) (objects : List ObjectReference) :
    r.registerMany objects = ⟨r.ppps ++ objects, r.pinnedPppChildren⟩ :=
  congrArg₂ PPPRegistry.mk (PPPRegistry.ppps_registerMany r objects)
    (PPPRegistry.pinnedPppChildren_registerMany r objects)

/-- The list of PPPs. -/
lemma livePpps_refines (hlaw : upcalls.Lawful) : (system E B G Obj upcalls).RefinementMapping
    (LivePpps.system Obj) State.livePpps where
  init := by
    rintro s ⟨-, -, hr, hregs, -⟩
    exact ⟨by simp only [State.livePpps, hr]; rfl, hregs⟩
  step := by
    intro s l s' hs _ hstep
    cases hstep with
    | alloc a o flags hfree hnew hflags => exact Or.inr ⟨.mutator, .alloc a o hfree hnew⟩
    | registerPpp object o ho => exact Or.inr ⟨.mutator, .register object o ho⟩
    | registerPpps objects os hos =>
      have hreg : LivePpps.Step s.livePpps .mutator _ := .registerMany objects os hos
      refine Or.inr ⟨.mutator, ?_⟩
      convert hreg using 1
      simp only [State.livePpps, registerMany_eq]
      rfl
    | registerWbUnprotectedObject | setGivtbl | addObjFreeCandidate | addObjFreeCandidates
    | getAllObjFreeCandidates | pinBits => exact Or.inl rfl
    | tables binding hsame =>
      refine Or.inl ?_
      simp only [State.livePpps, hsame .pppRegistry rfl]
    | @gc env heap' copies movedGivtbl newlyPinned isPinned hstart c hrun hfin =>
      have hppps := (outcome_of_reachable hlaw hs hstart hrun hfin).ppps
      have hrel : env.traced.liveCollection.Relocates s.history.heap heap' :=
        hstart.relocates.congr hstart.live fun _ => rfl
      refine Or.inr ⟨.gc, ?_⟩
      have hgc : LivePpps.Step s.livePpps .gc _ :=
        .gc env.traced env.upcalls.isNoLongerPpp heap' hrel
      convert hgc using 1
      simp only [State.livePpps, LivePpps.State.collect, hppps,
        History.collect_congr hstart.relocates hrel hstart.live]
      rfl

end Views

/-- What is known of the binding between two GCs: each of its lists is in a state to which it comes
when it is processed in one go, nothing is left of what a GC records for itself, and the next GC
cannot get stuck. -/
structure Refines (upcalls : GivtblUpcalls) (s : State E B G Obj) : Prop where
  objFree : (ObjFree.system Obj).Reachable s.objFree
  wbUnprotected : (WbUnprotected.system Obj).Reachable s.wbUnprotected
  livePpps : (LivePpps.system Obj).Reachable s.livePpps
  givtbls : (GivtblHistory.system Obj upcalls).Reachable s.givtbls
  movedGivtbl : (s.binding .givtbls).movedGivtbl = fun _ => none
  pinnedPppChildren : (s.binding .pppRegistry).pinnedPppChildren = []
  completes : ∀ {env heap' copies movedGivtbl newlyPinned isPinned},
    GcStart upcalls s env heap' copies movedGivtbl newlyPinned isPinned →
    ∀ c, (WeakRefs.bucket env).Run
      (WeakRefs.start (s.atWeakRefs movedGivtbl newlyPinned isPinned)) c →
    ∃ c', (WeakRefs.bucket env).Run c c' ∧ WorkPool.Finished c'

lemma pinnedPppChildren_invariant {upcalls : GivtblUpcalls} (hlaw : upcalls.Lawful) :
    (system E B G Obj upcalls).IsInvariant
      fun s => (s.binding .pppRegistry).pinnedPppChildren = [] where
  init := by
    rintro s ⟨-, -, hr, -⟩
    rw [hr]
    rfl
  step := by
    intro s l s' hs h hstep
    cases hstep with
    | alloc | setGivtbl | addObjFreeCandidate | addObjFreeCandidates | getAllObjFreeCandidates
    | registerWbUnprotectedObject | registerPpp | pinBits => exact h
    | registerPpps objects os hos =>
      exact (PPPRegistry.pinnedPppChildren_registerMany _ _).trans h
    | tables binding hsame =>
      simp only [hsame .pppRegistry rfl]
      exact h
    | @gc env heap' copies movedGivtbl newlyPinned isPinned hstart c hrun hfin =>
      have hchildren := (outcome_of_reachable hlaw hs hstart hrun hfin).pinnedPppChildren
      simp only [hchildren]
      split_ifs with hmove
      · rfl
      · by_contra hne
        exact hmove (hstart.pins.moving hne)

/-- Whatever the mutators register, and in whatever order the workers execute the packets of each
GC, every list of the binding goes through states that it could go through by itself. -/
theorem refines_of_reachable {upcalls : GivtblUpcalls} (hlaw : upcalls.Lawful)
    {s : State E B G Obj} (hs : (system E B G Obj upcalls).Reachable s) : Refines upcalls s := by
  have hgivtbls := (givtbls_refines hlaw).reachable hs
  exact
    { objFree := (objFree_refines hlaw).reachable hs
      wbUnprotected := (wbUnprotected_refines hlaw).reachable hs
      livePpps := (livePpps_refines hlaw).reachable hs
      givtbls := hgivtbls
      movedGivtbl := ((GivtblHistory.tracked_invariant hlaw).of_reachable hgivtbls).drained
      pinnedPppChildren := (pinnedPppChildren_invariant hlaw).of_reachable hs
      completes := fun hstart _ hrun => gc_completes hlaw hs hstart hrun }

/-! ### A run with a GC -/

/-- An empty binding. -/
noncomputable def emptyBinding :
    (i : Component) → WeakRefs.State (Option ℕ) (Option ℕ) ℕ i
  | .processWeakRefs => ()
  | .weakProc => ⟨.new, 0⟩
  | .givtbls => ⟨fun _ => none, 0⟩
  | .globalTable _ => 10
  | .wbUnprotectedObjects => ∅
  | .pppRegistry => .new
  | .pinBits => fun _ => false
  | .chunkedTable _ => ⟨some, some, 0, AfterAll.new .vmRefClosure⟩

noncomputable def emptyState : State (Option ℕ) (Option ℕ) ℕ ℕ where
  binding := emptyBinding
  history := History.start
  flags _ := 0
  givtbl _ := 0
  registered := 0
  freed := 0
  handedOut := 0
  wbRegistrations := ∅
  pppRegistrations := []
  noLonger _ := ∅

lemma init_emptyState : (system (Option ℕ) (Option ℕ) ℕ ℕ
    WeakProcessor.stTableUpcalls).init emptyState := by
  refine ⟨⟨rfl, rfl, rfl, rfl⟩, ⟨rfl, rfl⟩, rfl, rfl, rfl, rfl, fun _ => ?_⟩
  exact ⟨show ¬ GivtblHistory.HasExivar 0 by decide, rfl⟩

/-- An object with a table is registered as WB-unprotected, for `obj_free` and as a PPP, and a GC
moves it. -/
theorem refines_moved : ∃ (s : State (Option ℕ) (Option ℕ) ℕ ℕ) (b : ObjectReference),
    (system (Option ℕ) (Option ℕ) ℕ ℕ WeakProcessor.stTableUpcalls).Reachable s ∧
      s.history.gcs = 1 ∧ s.history.heap.objectAt b = some 0 ∧
      Refines WeakProcessor.stTableUpcalls s := by
  let a : ObjectReference := ⟨4096, by decide⟩
  let b : ObjectReference := ⟨4160, by decide⟩
  have hfwd : a.forward WeakRefs.evenTraced = b := by
    simp [a, b, ObjectReference.forward, WeakRefs.evenTraced]
  have ha : WeakRefs.evenTraced.isReachable a = true := by simp [a, WeakRefs.evenTraced]
  have hb : WeakRefs.evenTraced.isReachable b = true := by simp [b, WeakRefs.evenTraced]
  obtain ⟨heap', hrel, hmoved, hcopies⟩ := GivtblHistory.exists_single_copy (b := b) (o := 0)
    (show ∀ x o, (History.start.alloc a 0 rfl rfl).heap.objectAt x = some o ↔ x = a ∧ o = 0 from
      fun x o => (History.objectAt_alloc_iff rfl rfl).trans (by simp [History.start]))
    ha hb hfwd (by decide)
  have hlaw := WeakProcessor.lawful_stTableUpcalls
  obtain ⟨s, hs, hhistory⟩ : ∃ s, (system (Option ℕ) (Option ℕ) ℕ ℕ
      WeakProcessor.stTableUpcalls).Reachable s ∧
        s.history = History.start.alloc a 0 rfl rfl := by
    have h₁ := (TransitionSystem.Reachable.init init_emptyState).step
      (.alloc a 0 0 rfl rfl (by decide))
    have h₂ := h₁.step (.setGivtbl a 0 7 rubyFlExivar rfl (by decide))
    have h₃ := h₂.step (.addObjFreeCandidate a 0 rfl)
    have h₄ := h₃.step (.registerWbUnprotectedObject a 0 rfl)
    have h₅ := h₄.step (.registerPpp a 0 rfl)
    exact ⟨_, h₅, rfl⟩
  rw [← hhistory] at hrel hcopies
  have htracked := (GivtblHistory.tracked_invariant hlaw).of_reachable
    ((givtbls_refines hlaw).reachable hs)
  have hapart := htracked.apart hrel hcopies
  obtain ⟨movedGivtbl, hok, -⟩ := VMObjectModel.copyGivtbls_eq_ok htracked.flagsMatch hapart.targets
  have hchildren := (pinnedPppChildren_invariant hlaw).of_reachable hs
  have hstart : GcStart WeakProcessor.stTableUpcalls s WeakRefs.weakSetEnv heap' [(a, b)]
      movedGivtbl [] fun _ => false :=
    { lawful := WeakRefs.lawful_weakSetUpcalls
      givtbl := rfl
      chunk_pos := by decide
      noOverflow := fun _ => WeakRefs.noOverflow_weakSetInfo
      relocates := hrel
      live := fun _ _ => rfl
      copiesOf := hcopies
      moved := by
        rw [show (s.binding .givtbls).movedGivtbl = fun _ => none from htracked.drained]
        exact hok
      pins := by
        rw [hchildren]
        exact ⟨List.nodup_nil, fun _ h => absurd h List.not_mem_nil, fun h => absurd rfl h⟩ }
  obtain ⟨c, hrun, hfin⟩ := gc_completes hlaw hs hstart .refl
  have hs' := hs.step (.gc hstart hrun hfin)
  refine ⟨_, b, hs', ?_, hmoved, refines_of_reachable hlaw hs'⟩
  show s.history.gcs + 1 = 1
  rw [hhistory]
  rfl

end GcCycle

end MmtkRuby
