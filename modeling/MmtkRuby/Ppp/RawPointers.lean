import MmtkRuby.Ppp.Coverage
import MmtkRuby.Ppp.LivePpps

/-!
# Raw pointers stay valid

PPPs are registered because they hold addresses that nobody updates when objects move. The list of
PPPs, the packets that pin, the trace, the packet that unpins and the one that removes dead PPPs
work together, over any number of GCs, so that such an address keeps naming the object that it
named when it was stored.
-/

namespace MmtkRuby

open Core

namespace RawPointers

variable {Obj : Type*} {profile : Profile}

/-- The pinning protocol in a heap whose objects hold raw pointers. -/
structure State (Obj : Type*) where
  ppp : Ppp.State
  heap : Heap ObjectReference Obj
  /-- the addresses that an object holds, with what was there when they were stored -/
  raw : Obj → List (ObjectReference × Obj)
  /-- what the trace of this GC has found, once it is over -/
  trace : Option Traced

/-- CRuby reports all raw pointers of an object with `pin = true`, and an object that has some still
is a PPP. -/
def State.Reports (s : State Obj) (upcalls : PppUpcalls) : Prop :=
  ∀ a o, s.heap.objectAt a = some o → ∀ q ∈ s.raw o,
    upcalls.isNoLongerPpp a = false ∧ (q.1, true) ∈ (upcalls.callGcMarkChildren a).visits

/-- What mmtk-core promises of a trace, and CRuby of the marking in it: pinned objects do not move,
a non-moving GC moves none, and what a live object points to is live. -/
structure TraceOf (s : State Obj) (gc : Ppp.Gc) (traced : Traced)
    (heap' : Heap ObjectReference Obj) : Prop where
  relocates : traced.liveCollection.Relocates s.heap heap'
  pinned : ∀ a : ObjectReference, s.ppp.isPinned a = true → a.forward traced = a
  still : gc.currentGcMayMoveObject = false → ∀ a : ObjectReference, a.forward traced = a
  marked : ∀ a o, s.heap.objectAt a = some o → traced.isLive a = true →
    ∀ q ∈ s.raw o, traced.isLive q.1 = true

inductive Step [DecidableEq Obj] (profile : Profile) : State Obj → Actor → State Obj → Prop where
  | alloc {s : State Obj} (a : ObjectReference) (o : Obj) (hphase : s.ppp.phase = .mutator)
      (hfree : s.heap.objectAt a = none) (hnew : o ∉ s.heap) :
      Step profile s .mutator
        { s with heap := s.heap.alloc a o hnew, raw := Function.update s.raw o [] }
  -- a PPP is registered before it holds a raw pointer
  | storeRaw {s : State Obj} (a : ObjectReference) (o : Obj) (q : ObjectReference × Obj)
      (hphase : s.ppp.phase = .mutator) (ha : s.heap.objectAt a = some o)
      (hq : s.heap.objectAt q.1 = some q.2) (hregistered : a ∈ s.ppp.registry.ppps) :
      Step profile s .mutator { s with raw := Function.update s.raw o (q :: s.raw o) }
  | clearRaw {s : State Obj} (o : Obj) (hphase : s.ppp.phase = .mutator) :
      Step profile s .mutator { s with raw := Function.update s.raw o [] }
  | mutate {s : State Obj} {ppp : Ppp.State} (hstep : Ppp.Step profile s.ppp .mutator ppp) :
      Step profile s .mutator { s with ppp }
  | stopAllMutators {s : State Obj} {ppp : Ppp.State} {gc : Ppp.Gc} {packets : List Ppp.PinExec}
      (hphase : s.ppp.phase = .mutator) (hstep : Ppp.Step profile s.ppp .gc ppp)
      (hgc : ppp.phase = .prepare gc packets) (hreports : s.Reports gc.upcalls) :
      Step profile s .gc { s with ppp }
  | prepare {s : State Obj} {ppp : Ppp.State} {gc : Ppp.Gc} {packets : List Ppp.PinExec}
      (hphase : s.ppp.phase = .prepare gc packets) (hstep : Ppp.Step profile s.ppp .gc ppp) :
      Step profile s .gc { s with ppp }
  | trace {s : State Obj} {gc : Ppp.Gc} {traced : Traced} {heap' : Heap ObjectReference Obj}
      (hphase : s.ppp.phase = .tracing gc) (hnone : s.trace = none)
      (htrace : TraceOf s gc traced heap') :
      Step profile s .gc { s with heap := heap', trace := some traced }
  | cleanupPpps {s : State Obj} {ppp : Ppp.State} {gc : Ppp.Gc} {traced : Traced}
      (hphase : s.ppp.phase = .tracing gc) (htraced : s.trace = some traced)
      (hstep : Ppp.Step profile s.ppp .gc ppp) : Step profile s .gc { s with ppp }
  | removeDeadPPPs {s : State Obj} {gc : Ppp.Gc} {unpin : Ppp.UnpinPc} {traced : Traced}
      (isNoLongerPpp : ObjectReference → Bool) (hphase : s.ppp.phase = .weakRefs gc true unpin)
      (htraced : s.trace = some traced)
      (hstill : ∀ a o, s.heap.objectAt a = some o → s.raw o ≠ [] → isNoLongerPpp a = false) :
      Step profile s .gc
        { s with
          ppp := { s.ppp with
            registry := (RemoveDeadPPPs.doWork traced isNoLongerPpp s.ppp.registry).2
            phase := .weakRefs gc false unpin } }
  | unpinPPPChildren {s : State Obj} {ppp : Ppp.State} {gc : Ppp.Gc} {removeDeadPPPs : Bool}
      {unpin unpin' : Ppp.UnpinPc} (hphase : s.ppp.phase = .weakRefs gc removeDeadPPPs unpin)
      (hstep : Ppp.Step profile s.ppp .gc ppp)
      (hnext : ppp.phase = .weakRefs gc removeDeadPPPs unpin') : Step profile s .gc { s with ppp }
  | resumeMutators {s : State Obj} {ppp : Ppp.State} (hstep : Ppp.Step profile s.ppp .gc ppp)
      (hnext : ppp.phase = .mutator) : Step profile s .gc { s with ppp, trace := none }

/-- Runs from outside a GC, from any heap without raw pointers. -/
def system (profile : Profile) (Obj : Type*) [DecidableEq Obj] :
    TransitionSystem (State Obj) Actor where
  init s := (Ppp.system profile).init s.ppp ∧ (∀ o, s.raw o = []) ∧ s.trace = none
  step := Step profile

/-! ### The protocol -/

/-- Seen without the heap, a run is one of the pinning protocol. -/
lemma ppp_refines [DecidableEq Obj] :
    (system profile Obj).RefinementMapping (Ppp.system profile) State.ppp where
  init h := h.1
  step := by
    intro s l s' _ _ hstep
    cases hstep with
    | alloc | storeRaw | clearRaw | trace => exact Or.inl rfl
    | mutate hstep => exact Or.inr ⟨.mutator, hstep⟩
    | stopAllMutators _ hstep | prepare _ hstep | cleanupPpps _ _ hstep
    | unpinPPPChildren _ hstep | resumeMutators hstep => exact Or.inr ⟨.gc, hstep⟩
    | removeDeadPPPs isNoLongerPpp hphase _ =>
      exact Or.inr ⟨.gc, .removeDeadPPPs _ isNoLongerPpp hphase⟩

/-- Every object with raw pointers is in the list. -/
def State.Listed (s : State Obj) : Prop :=
  ∀ a o, s.heap.objectAt a = some o → s.raw o ≠ [] → a ∈ s.ppp.registry.ppps

/-- Every object with raw pointers is in the list, under the address that it had before the
trace. -/
def State.ListedBefore (s : State Obj) (traced : Traced) : Prop :=
  ∀ a o, s.heap.objectAt a = some o → s.raw o ≠ [] →
    ∃ old ∈ s.ppp.registry.ppps, traced.isLive old = true ∧ old.forward traced = a

/-- What is known of the list in each phase. -/
def PhaseListed (s : State Obj) : Ppp.Phase → Prop
  | .mutator => s.trace = none ∧ s.Listed
  | .prepare gc _ =>
    s.trace = none ∧ s.Listed ∧ gc.ppps = s.ppp.registry.ppps ∧ s.Reports gc.upcalls
  | .tracing gc =>
    match s.trace with
    | none => s.Listed ∧ gc.ppps = s.ppp.registry.ppps ∧ s.Reports gc.upcalls
    | some traced => s.ListedBefore traced
  | .weakRefs _ true _ => ∃ traced, s.trace = some traced ∧ s.ListedBefore traced
  | .weakRefs _ false _ => s.Listed

/-- What holds in every state of every run. -/
structure Inv (s : State Obj) : Prop where
  valid : ∀ a o, s.heap.objectAt a = some o → ∀ q ∈ s.raw o, s.heap.objectAt q.1 = some q.2
  phase : PhaseListed s s.ppp.phase

/-! ### The list through a GC -/

section List

variable {s t : Ppp.State} {gc : Ppp.Gc}

/-- Mutators only add to the list, between two GCs. -/
lemma subset_of_mutator (h : Ppp.Step profile s .mutator t) :
    s.phase = .mutator ∧ t.phase = .mutator ∧ s.registry.ppps ⊆ t.registry.ppps := by
  cases h with
  | register object hs => exact ⟨hs, hs, fun a ha => List.mem_append_left _ ha⟩
  | registerMany objects hs =>
    refine ⟨hs, hs, fun a ha => ?_⟩
    rw [PPPRegistry.ppps_registerMany]
    exact List.mem_append_left _ ha
  | pinObject _ hs | unpinObject _ hs => exact ⟨hs, hs, fun a ha => ha⟩

/-- A GC begins with the list as it is. -/
lemma ppps_of_stopAllMutators {packets : List Ppp.PinExec} (h : Ppp.Step profile s .gc t)
    (hs : s.phase = .mutator) (ht : t.phase = .prepare gc packets) :
    gc.ppps = s.registry.ppps ∧ t.registry = s.registry := by
  cases h with
  | stopAllMutators currentGcMayMoveObject upcalls _ =>
    obtain ⟨rfl, -⟩ := Ppp.Phase.prepare.inj ht
    exact ⟨rfl, rfl⟩
  | scan _ _ hs' _ | pin _ _ hs' _ | pinAgain _ _ hs' _ | append _ _ hs' | prepared hs' _
  | cleanupPpps hs' _ | cleanupPppsPanics hs' _ | removeDeadPPPs _ _ hs' | pollUnpin hs'
  | unpin hs' | resumeMutators hs' _ =>
    cases hs.symm.trans hs'

/-- The packets that pin leave the list alone. -/
lemma ppps_of_prepare {packets : List Ppp.PinExec} (h : Ppp.Step profile s .gc t)
    (hs : s.phase = .prepare gc packets) :
    t.registry.ppps = s.registry.ppps ∧
      ((∃ packets', t.phase = .prepare gc packets') ∨ t.phase = .tracing gc) := by
  cases h with
  | scan _ _ hs' _ | pin _ _ hs' _ | pinAgain _ _ hs' _ | append _ _ hs' =>
    rw [hs] at hs'
    obtain ⟨rfl, -⟩ := Ppp.Phase.prepare.inj hs'
    exact ⟨rfl, Or.inl ⟨_, rfl⟩⟩
  | prepared hs' _ =>
    rw [hs] at hs'
    obtain ⟨rfl, -⟩ := Ppp.Phase.prepare.inj hs'
    exact ⟨rfl, Or.inr rfl⟩
  | stopAllMutators _ _ hs' | cleanupPpps hs' _ | cleanupPppsPanics hs' _
  | removeDeadPPPs _ _ hs' | pollUnpin hs' | unpin hs' | resumeMutators hs' _ =>
    cases hs.symm.trans hs'

/-- So does `cleanup_ppps`. -/
lemma ppps_of_tracing (h : Ppp.Step profile s .gc t) (hs : s.phase = .tracing gc) :
    t.registry.ppps = s.registry.ppps ∧
      (t.phase = .tracing gc ∨ ∃ unpin, t.phase = .weakRefs gc true unpin) := by
  cases h with
  | @cleanupPpps gc' packet registry hs' hcleanup =>
    rw [hs] at hs'
    obtain rfl := Ppp.Phase.tracing.inj hs'
    refine ⟨?_, Or.inr ⟨_, rfl⟩⟩
    unfold PPPRegistry.cleanupPpps at hcleanup
    split_ifs at hcleanup <;> cases hcleanup <;> rfl
  | cleanupPppsPanics _ _ => exact ⟨rfl, Or.inl hs⟩
  | stopAllMutators _ _ hs' | scan _ _ hs' _ | pin _ _ hs' _ | pinAgain _ _ hs' _
  | append _ _ hs' | prepared hs' _ | removeDeadPPPs _ _ hs' | pollUnpin hs' | unpin hs'
  | resumeMutators hs' _ =>
    cases hs.symm.trans hs'

/-- So does the packet that unpins. -/
lemma ppps_of_unpin {removeDeadPPPs : Bool} {unpin unpin' : Ppp.UnpinPc}
    (h : Ppp.Step profile s .gc t) (hs : s.phase = .weakRefs gc removeDeadPPPs unpin)
    (ht : t.phase = .weakRefs gc removeDeadPPPs unpin') :
    t.registry.ppps = s.registry.ppps := by
  cases h with
  | pollUnpin | unpin => rfl
  | removeDeadPPPs _ _ hs' =>
    rw [hs] at hs'
    simp only [Ppp.Phase.weakRefs.injEq] at hs' ht
    cases hs'.2.1.symm.trans ht.2.1.symm
  | resumeMutators hs' _ => cases ht
  | stopAllMutators _ _ hs' | scan _ _ hs' _ | pin _ _ hs' _ | pinAgain _ _ hs' _
  | append _ _ hs' | prepared hs' _ | cleanupPpps hs' _ | cleanupPppsPanics hs' _ =>
    cases hs.symm.trans hs'

/-- The mutators find the list as the last packet left it. -/
lemma ppps_of_resumeMutators (h : Ppp.Step profile s .gc t) (ht : t.phase = .mutator) :
    ∃ gc unpin, s.phase = .weakRefs gc false unpin ∧ t.registry.ppps = s.registry.ppps := by
  cases h with
  | @resumeMutators gc unpin hs _ => exact ⟨gc, unpin, hs, rfl⟩
  | cleanupPppsPanics hs _ =>
    cases hs.symm.trans ht
  | stopAllMutators | scan | pin | pinAgain | append | prepared | cleanupPpps | removeDeadPPPs
  | pollUnpin | unpin => cases ht

end List

/-! ### The addresses through a trace -/

variable {s : State Obj} {gc : Ppp.Gc} {traced : Traced} {heap' : Heap ObjectReference Obj}

/-- A raw pointer of a live object names the same object after the trace: what it points to is live
and, being pinned or in a GC that moves nothing, stays where it is. -/
lemma objectAt_of_trace (hvalid : ∀ a o, s.heap.objectAt a = some o → ∀ q ∈ s.raw o,
      s.heap.objectAt q.1 = some q.2)
    (hlisted : s.Listed) (hppps : gc.ppps = s.ppp.registry.ppps) (hreports : s.Reports gc.upcalls)
    (hcovered : gc.Covered s.ppp.isPinned) (htrace : TraceOf s gc traced heap')
    {a : ObjectReference} {o : Obj} (ha : s.heap.objectAt a = some o)
    (hlive : traced.isLive a = true) {q : ObjectReference × Obj} (hq : q ∈ s.raw o) :
    heap'.objectAt q.1 = some q.2 := by
  have hsome := hvalid a o ha q hq
  have hkept : traced.isLive q.1 = true := htrace.marked a o ha hlive q hq
  have hstays : q.1.forward traced = q.1 := by
    cases hmove : gc.currentGcMayMoveObject with
    | false => exact htrace.still hmove q.1
    | true =>
      have hmem : a ∈ gc.ppps := by
        rw [hppps]
        exact hlisted a o ha (List.ne_nil_of_mem hq)
      have hreported : q.1 ∈ gc.reported :=
        List.mem_flatMap.mpr ⟨a, hmem, Ppp.mem_pinnedChildren.mpr (hreports a o ha q hq)⟩
      exact htrace.pinned q.1 (hcovered hmove q.1 hreported)
  have hforward := htrace.relocates.objectAt_forward hsome hkept
  rwa [show traced.liveCollection.forward q.1 = q.1 from hstays] at hforward

/-- Objects that were in the list are in it under their old addresses. -/
lemma listedBefore_of_trace (hlisted : s.Listed) (htrace : TraceOf s gc traced heap') :
    State.ListedBefore { s with heap := heap', trace := some traced } traced := by
  intro b o hb hraw
  obtain ⟨a, ha, hlive, hforward⟩ := (htrace.relocates b o).mp hb
  exact ⟨a, hlisted a o ha hraw, hlive, hforward⟩

/-- `RemoveDeadPPPs` gives the entries their new addresses, and drops none that has raw pointers. -/
lemma listed_of_removeDeadPPPs (h : s.ListedBefore traced) {isNoLongerPpp : ObjectReference → Bool}
    (hstill : ∀ a o, s.heap.objectAt a = some o → s.raw o ≠ [] → isNoLongerPpp a = false)
    {phase : Ppp.Phase} :
    State.Listed { s with
      ppp := { s.ppp with
        registry := (RemoveDeadPPPs.doWork traced isNoLongerPpp s.ppp.registry).2
        phase := phase } } := by
  intro a o ha hraw
  obtain ⟨old, hold, hlive, rfl⟩ := h a o ha hraw
  have hppps := (RemoveDeadPPPs.removes_doWork traced isNoLongerPpp s.ppp.registry).ppps
  simp only [hppps]
  refine List.mem_map.mpr ⟨old, List.mem_filter.mpr ⟨hold, ?_⟩, rfl⟩
  simp [RemoveDeadPPPs.isLivePpp, hlive, hstill _ o ha hraw]

/-! ### Whole runs -/

/-- A list that keeps its entries still has what it has to. -/
lemma State.Listed.mono (h : s.Listed) {ppp : Ppp.State}
    (hsubset : s.ppp.registry.ppps ⊆ ppp.registry.ppps) : State.Listed { s with ppp } :=
  fun a o ha hraw => hsubset (h a o ha hraw)

lemma State.ListedBefore.mono (h : s.ListedBefore traced) {ppp : Ppp.State}
    (hsubset : s.ppp.registry.ppps ⊆ ppp.registry.ppps) :
    State.ListedBefore { s with ppp } traced := by
  intro a o ha hraw
  obtain ⟨old, hold, hrest⟩ := h a o ha hraw
  exact ⟨old, hsubset hold, hrest⟩

variable [DecidableEq Obj]

/-- What a mutator does to the heap and to the raw pointers of one object keeps the others. -/
lemma Inv.mutate (h : Inv s) (hphase : s.ppp.phase = .mutator) {heap : Heap ObjectReference Obj}
    {o : Obj} {raw : List (ObjectReference × Obj)}
    (hold : ∀ a o', o' ≠ o → heap.objectAt a = some o' → s.heap.objectAt a = some o')
    (hkept : ∀ q : ObjectReference × Obj, s.heap.objectAt q.1 = some q.2 →
      heap.objectAt q.1 = some q.2)
    (hraw : ∀ a, heap.objectAt a = some o → ∀ q ∈ raw,
      heap.objectAt q.1 = some q.2 ∧ a ∈ s.ppp.registry.ppps) :
    Inv { s with heap := heap, raw := Function.update s.raw o raw } := by
  have hlisted := h.phase
  rw [hphase] at hlisted
  constructor
  · intro a o' ha q hq
    by_cases ho : o' = o
    · subst ho
      simp only [Function.update_self] at hq
      exact (hraw a ha q hq).1
    · simp only [Function.update_of_ne ho] at hq
      exact hkept q (h.valid a o' (hold a o' ho ha) q hq)
  · simp only [hphase]
    refine ⟨hlisted.1, fun a o' ha hne => ?_⟩
    by_cases ho : o' = o
    · subst ho
      simp only [Function.update_self] at hne
      obtain ⟨q, hq⟩ := List.exists_mem_of_ne_nil raw hne
      exact (hraw a ha q hq).2
    · simp only [Function.update_of_ne ho] at hne
      exact hlisted.2 a o' (hold a o' ho ha) hne

lemma inv_invariant : (system profile Obj).IsInvariant Inv where
  init := by
    rintro s ⟨hppp, hraw, htrace⟩
    constructor
    · simp [hraw]
    · rw [hppp.1]
      exact ⟨htrace, fun a o _ hne => absurd (hraw o) hne⟩
  step := by
    intro s l s' hs h hstep
    have hphase := h.phase
    cases hstep with
    | alloc a o hmutator hfree hnew =>
      refine h.mutate hmutator ?_ ?_ (by simp)
      · intro b o' ho hb
        rcases (Heap.objectAt_alloc_iff hfree hnew).mp hb with ⟨-, heq⟩ | hb
        · exact absurd heq ho
        · exact hb
      · exact fun q hq => (Heap.objectAt_alloc_iff hfree hnew).mpr (Or.inr hq)
    | storeRaw a o q hmutator ha hq hregistered =>
      rw [hmutator] at hphase
      refine h.mutate hmutator (fun _ _ _ hb => hb) (fun _ hb => hb) fun b hb q' hq' => ?_
      obtain rfl := s.heap.unique ha hb
      rcases List.mem_cons.mp hq' with rfl | hq'
      · exact ⟨hq, hregistered⟩
      · exact ⟨h.valid a o ha q' hq', hphase.2 a o ha (List.ne_nil_of_mem hq')⟩
    | clearRaw o hmutator =>
      exact h.mutate hmutator (fun _ _ _ hb => hb) (fun _ hb => hb) (by simp)
    | mutate hstep =>
      obtain ⟨hmutator, hnext, hsubset⟩ := subset_of_mutator hstep
      rw [hmutator] at hphase
      refine ⟨h.valid, ?_⟩
      simp only [hnext]
      exact ⟨hphase.1, hphase.2.mono hsubset⟩
    | stopAllMutators hmutator hstep hgc hreports =>
      rw [hmutator] at hphase
      obtain ⟨hppps, hregistry⟩ := ppps_of_stopAllMutators hstep hmutator hgc
      refine ⟨h.valid, ?_⟩
      simp only [hgc]
      exact ⟨hphase.1, hphase.2.mono fun _ ha => hregistry ▸ ha,
        by rw [hppps, hregistry], hreports⟩
    | prepare hprepare hstep =>
      rw [hprepare] at hphase
      obtain ⟨hnone, hlisted, hppps, hreports⟩ := hphase
      obtain ⟨hsame, hnext⟩ := ppps_of_prepare hstep hprepare
      have hlisted' := hlisted.mono fun _ ha => hsame ▸ ha
      refine ⟨h.valid, ?_⟩
      rcases hnext with ⟨packets', hnext⟩ | hnext
      · simp only [hnext]
        exact ⟨hnone, hlisted', hppps.trans hsame.symm, hreports⟩
      · simp only [hnext, PhaseListed, hnone]
        exact ⟨hlisted', hppps.trans hsame.symm, hreports⟩
    | trace htracing hnone htrace =>
      simp only [htracing, PhaseListed, hnone] at hphase
      obtain ⟨hlisted, hppps, hreports⟩ := hphase
      have hcovered := Ppp.covered_invariant.of_reachable (ppp_refines.reachable hs)
      rw [htracing] at hcovered
      constructor
      · intro b o hb q hq
        obtain ⟨a, ha, hlive, -⟩ := (htrace.relocates b o).mp hb
        exact objectAt_of_trace h.valid hlisted hppps hreports hcovered.2 htrace ha hlive hq
      · simp only [htracing]
        exact listedBefore_of_trace hlisted htrace
    | cleanupPpps htracing htraced hstep =>
      simp only [htracing, PhaseListed, htraced] at hphase
      obtain ⟨hsame, hnext⟩ := ppps_of_tracing hstep htracing
      have hlisted := hphase.mono fun _ ha => hsame ▸ ha
      refine ⟨h.valid, ?_⟩
      rcases hnext with hnext | ⟨unpin, hnext⟩
      · simp only [hnext, PhaseListed, htraced]
        exact hlisted
      · simp only [hnext]
        exact ⟨_, htraced, hlisted⟩
    | removeDeadPPPs isNoLongerPpp hweakRefs htraced hstill =>
      rw [hweakRefs] at hphase
      obtain ⟨traced, htraced', hlisted⟩ := hphase
      cases htraced.symm.trans htraced'
      exact ⟨h.valid, listed_of_removeDeadPPPs hlisted hstill⟩
    | @unpinPPPChildren _ gc removeDeadPPPs unpin unpin' hweakRefs hstep hnext =>
      rw [hweakRefs] at hphase
      have hsame := ppps_of_unpin hstep hweakRefs hnext
      refine ⟨h.valid, ?_⟩
      simp only [hnext]
      cases removeDeadPPPs with
      | true =>
        obtain ⟨traced, htraced, hlisted⟩ := hphase
        exact ⟨traced, htraced, hlisted.mono fun _ ha => hsame ▸ ha⟩
      | false => exact State.Listed.mono hphase fun _ ha => hsame ▸ ha
    | resumeMutators hstep hnext =>
      obtain ⟨gc, unpin, hweakRefs, hsame⟩ := ppps_of_resumeMutators hstep hnext
      rw [hweakRefs] at hphase
      refine ⟨h.valid, ?_⟩
      simp only [hnext]
      exact ⟨rfl, State.Listed.mono hphase fun _ ha => hsame ▸ ha⟩

/-- The raw pointers of the objects in the heap name what they named when they were stored, and
whoever holds one is known to the next GC. -/
structure Valid (s : State Obj) : Prop where
  valid : ∀ a o, s.heap.objectAt a = some o → ∀ q ∈ s.raw o, s.heap.objectAt q.1 = some q.2
  listed : s.ppp.phase = .mutator → s.Listed

/-- In every state of every run no raw pointer dangles, however many GCs have moved objects. -/
theorem valid_of_reachable (hs : (system profile Obj).Reachable s) : Valid s := by
  have h := inv_invariant.of_reachable hs
  refine ⟨h.valid, fun hmutator => ?_⟩
  have hphase := h.phase
  rw [hmutator] at hphase
  exact hphase.2

/-! #### A parent that moves -/

def moved : ObjectReference := ⟨12288, by decide⟩

/-- The parent, object 0, and its child, object 1. -/
def family : Heap ObjectReference ℕ where
  objectAt a := if a = Ppp.parent then some 0 else if a = Ppp.child then some 1 else none
  unique := by
    intro a b o ha hb
    grind

/-- The parent holds a raw pointer to the child. -/
def rawOfFamily : ℕ → List (ObjectReference × ℕ) :=
  Function.update (fun _ => []) 0 [(Ppp.child, 1)]

lemma eq_of_mem_rawOfFamily {o : ℕ} {q : ObjectReference × ℕ} (hq : q ∈ rawOfFamily o) :
    q = (Ppp.child, 1) := by
  by_cases ho : o = 0
  · rw [rawOfFamily, ho, Function.update_self] at hq
    exact List.mem_singleton.mp hq
  · rw [rawOfFamily, Function.update_of_ne ho] at hq
    cases hq

/-- The family in a GC that pins the child. -/
def familyState (pinned : List ObjectReference) (isPinned : ObjectReference → Bool)
    (phase : Ppp.Phase) : State ℕ :=
  ⟨Ppp.oneParentState pinned isPinned phase, family, rawOfFamily, none⟩

lemma reachable_familyState : (system .release ℕ).Reachable
    (familyState [Ppp.child] (testAndSet (fun _ => false) Ppp.child).2
      (.tracing Ppp.oneParent)) := by
  have hpackets : PPPRegistry.pinPppChildren ⟨[Ppp.parent], []⟩ true = [⟨[Ppp.parent]⟩] := by
    simp [PPPRegistry.pinPppChildren, chunks_of_length_le]
  have hreports : (familyState [] (fun _ => false) .mutator).Reports Ppp.pinsChild := by
    intro a o _ q hq
    rw [eq_of_mem_rawOfFamily hq]
    exact ⟨rfl, List.mem_cons_self⟩
  have h₀ : (system .release ℕ).Reachable
      ⟨Ppp.oneParentState [] (fun _ => false) .mutator, family, fun _ => [], none⟩ :=
    .init ⟨⟨rfl, rfl, rfl, rfl⟩, fun _ => rfl, rfl⟩
  have h₁ : (system .release ℕ).Reachable (familyState [] (fun _ => false) .mutator) :=
    h₀.step (.storeRaw Ppp.parent 0 (Ppp.child, 1) rfl rfl rfl List.mem_cons_self)
  have h₂ : (system .release ℕ).Reachable (familyState [] (fun _ => false)
      (.prepare Ppp.oneParent [⟨⟨[Ppp.parent]⟩, .queued⟩])) := by
    have hstep : Ppp.Step .release (familyState [] (fun _ => false) .mutator).ppp .gc
        (familyState [] (fun _ => false)
          (.prepare Ppp.oneParent [⟨⟨[Ppp.parent]⟩, .queued⟩])).ppp := by
      have h := @Ppp.Step.stopAllMutators .release
        (familyState [] (fun _ => false) .mutator).ppp true Ppp.pinsChild rfl
      simp only [familyState, Ppp.oneParentState, hpackets] at h
      exact h
    exact h₁.step (.stopAllMutators rfl hstep rfl hreports)
  have h₃ : (system .release ℕ).Reachable (familyState [] (fun _ => false)
      (.prepare Ppp.oneParent [⟨⟨[Ppp.parent]⟩, .pinning [Ppp.child] []⟩])) := by
    obtain ⟨n, hscan⟩ := PinPPPChildren.scan_eq .release Ppp.pinsChild ⟨[Ppp.parent]⟩
    exact h₂.step (.prepare rfl (.scan [] [] rfl hscan))
  have h₄ := h₃.step (.prepare rfl (.pin [] [] rfl rfl))
  have h₅ := h₄.step (.prepare rfl (.append [] [] rfl))
  exact h₅.step (.prepare rfl (.prepared rfl (by simp)))

lemma eq_child_of_isPinned {a : ObjectReference}
    (ha : (testAndSet (fun _ => false) Ppp.child).2 a = true) : a = Ppp.child := by
  simpa [testAndSet, Function.update_apply] using ha

def movesParent : Traced where
  isReachable object := (family.objectAt object).isSome
  isLive object := (family.objectAt object).isSome
  getForwardedObject object := if object = Ppp.parent then some moved else none

lemma forward_movesParent (a : ObjectReference) :
    a.forward movesParent = if a = Ppp.parent then moved else a := by
  by_cases ha : a = Ppp.parent <;> simp [ObjectReference.forward, movesParent, ha]

/-- The parent goes to where nobody is. -/
lemma forward_movesParent_injective {a b : ObjectReference} (ha : (family.objectAt a).isSome)
    (hb : (family.objectAt b).isSome) (h : a.forward movesParent = b.forward movesParent) :
    a = b := by
  rw [forward_movesParent, forward_movesParent] at h
  simp only [family] at ha hb
  grind [moved, Ppp.parent, Ppp.child]

/-- The raw pointer of the parent to the child is as good after the GC has moved the parent as it
was before. -/
theorem valid_movesParent : ∃ s : State ℕ, (system .release ℕ).Reachable s ∧
    s.raw 0 = [(Ppp.child, 1)] ∧ s.heap.objectAt moved = some 0 ∧
    s.ppp.registry.ppps = [moved] ∧ Valid s := by
  obtain ⟨heap', hrel⟩ : ∃ heap', movesParent.liveCollection.Relocates family heap' := by
    refine Collection.exists_relocates fun a b ha hb _ _ hfwd => ?_
    exact forward_movesParent_injective ha hb hfwd
  have hpinned : ∀ a, (testAndSet (fun _ => false) Ppp.child).2 a = true →
      a.forward movesParent = a := by
    intro a ha
    rw [eq_child_of_isPinned ha]
    exact forward_movesParent _
  have hmarked : ∀ o, ∀ q ∈ rawOfFamily o, movesParent.isLive q.1 = true := by
    intro o q hq
    rw [eq_of_mem_rawOfFamily hq]
    rfl
  have hmoving : Ppp.oneParent.currentGcMayMoveObject ≠ false := by decide
  have h₁ := reachable_familyState.step (.trace rfl rfl
    ⟨hrel, hpinned, fun hstill => absurd hstill hmoving, fun _ o _ _ => hmarked o⟩)
  have h₂ := h₁.step (.cleanupPpps rfl rfl (.cleanupPpps rfl rfl))
  have h₃ := h₂.step (.removeDeadPPPs (fun _ => false) rfl rfl fun _ _ _ _ => rfl)
  exact ⟨_, h₃, rfl, hrel.objectAt_forward (a := Ppp.parent) rfl rfl, rfl, valid_of_reachable h₃⟩

end RawPointers

end MmtkRuby
