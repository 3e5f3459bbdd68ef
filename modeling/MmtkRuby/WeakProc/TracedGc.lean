import MmtkRuby.Core.Progress
import MmtkRuby.Scanning.Tracing
import MmtkRuby.WeakProc.GcCycle

/-!
# A whole GC of the binding

When the mutators have stopped, packets pin the children of the PPPs; then workers trace the heap
and copy objects, whose generic instance variable tables they record; and then there is weak
processing. What becomes of the lists and tables of the binding depends on what the roots reach, and
on nothing else that the workers do.
-/

namespace MmtkRuby

open Core

namespace Tracing

variable {Obj : Type*} {fields : ObjectReference → List ObjectReference}
  {roots : List ObjectReference} {t : State} {heap heap' : Heap ObjectReference Obj}
  {a b : ObjectReference}

/-- What mmtk-core answers when objects have been copied: their copies are reachable, too. -/
def State.answers (t : State) : Traced where
  isReachable object := t.traced.isReachable object || decide (object ∈ t.scanned)
  isLive object := t.traced.isLive object || decide (object ∈ t.scanned)
  getForwardedObject := t.tracer.forwarded

/-- Objects are copied to memory that was free. -/
def State.CopiesToFree (t : State) (heap : Heap ObjectReference Obj) : Prop :=
  ∀ a b, t.tracer.forwarded a = some b → b ≠ a → heap.objectAt b = none

namespace Inv

/-- At the address of an object there is no copy. -/
lemma isReachable_answers (h : Inv fields roots t) (hover : t.Over) (hfree : t.CopiesToFree heap)
    (ha : (heap.objectAt a).isSome) : t.answers.isReachable a = t.traced.isReachable a := by
  cases hk : t.traced.isReachable a with
  | true => simp [State.answers, hk]
  | false =>
    have hnot : a ∉ t.scanned := by
      intro hmem
      obtain ⟨c, hc⟩ := (h.mem_scanned_iff hover).mp hmem
      have hne : a ≠ c := by
        rintro rfl
        simp [State.traced, hc] at hk
      rw [hfree c a hc hne] at ha
      cases ha
    simp [State.answers, hk, hnot]

lemma forwarded_iff (h : Inv fields roots t) (hover : t.Over) (hfree : t.CopiesToFree heap)
    (ha : (heap.objectAt a).isSome) :
    t.tracer.forwarded a = some b ↔ t.answers.isReachable a = true ∧ a.forward t.answers = b := by
  rw [h.isReachable_answers hover hfree ha]
  cases hb : t.tracer.forwarded a with
  | none => simp [State.traced, hb]
  | some c => simp [State.traced, State.answers, ObjectReference.forward, hb]

/-- The objects are moved in the same way. -/
lemma relocates_answers (h : Inv fields roots t) (hover : t.Over) (hfree : t.CopiesToFree heap)
    (hrel : t.traced.collection.Relocates heap heap') :
    t.answers.collection.Relocates heap heap' :=
  hrel.congr (fun _ ha => h.isReachable_answers hover hfree ha) fun _ => rfl

/-- The workers have made finitely many copies. -/
lemma exists_copiesOf (h : Inv fields roots t) (hover : t.Over) (hfree : t.CopiesToFree heap) :
    ∃ copies, GivtblHistory.CopiesOf t.answers heap copies := by
  have hfinite : {p : ObjectReference × ObjectReference | (heap.objectAt p.1).isSome ∧
      t.tracer.forwarded p.1 = some p.2 ∧ p.2 ≠ p.1}.Finite := by
    refine Set.Finite.of_injOn (f := Prod.snd) ?_ ?_ t.scanned.finite_toSet
    · rintro p ⟨-, hp, -⟩
      exact (h.mem_scanned_iff hover).mpr ⟨p.1, hp⟩
    · rintro p ⟨-, hp, -⟩ q ⟨-, hq, -⟩ heq
      exact Prod.ext (h.injective p.1 q.1 q.2 (heq ▸ hp) hq) heq
  have hmem : ∀ p, p ∈ hfinite.toFinset.toList ↔ (heap.objectAt p.1).isSome ∧
      t.tracer.forwarded p.1 = some p.2 ∧ p.2 ≠ p.1 := by simp
  refine ⟨hfinite.toFinset.toList, Finset.nodup_toList _, fun p => ?_, fun p hp => ?_,
    fun p hp => ?_⟩
  · rw [hmem]
    refine and_congr_right fun hsome => ?_
    rw [h.forwarded_iff hover hfree hsome, and_assoc]
  · obtain ⟨-, hp, hne⟩ := (hmem p).mp hp
    exact hfree p.1 p.2 hp hne
  · obtain ⟨-, hp, -⟩ := (hmem p).mp hp
    have hscanned := (h.mem_scanned_iff hover).mpr ⟨p.1, hp⟩
    simp [State.answers, hscanned]

end Inv

end Tracing

namespace GcCycle

open WeakRefs (Component Env)

variable {E B G : Type} {Obj : Type*} {s : State E B G Obj} {env : Env E B G}
  {fields : ObjectReference → List ObjectReference} {roots : List ObjectReference}
  {p : Ppp.State} {gc : Ppp.Gc} {t : Tracing.State}

/-- The packets that pin have come to `p`, and then the workers that trace have come to `t`. -/
structure GcTraced (s : State E B G Obj) (env : Env E B G)
    (fields : ObjectReference → List ObjectReference) (roots : List ObjectReference)
    (p : Ppp.State) (gc : Ppp.Gc) (t : Tracing.State) : Prop where
  pinning : (Ppp.system env.profile).Reachable p
  phase : p.phase = .tracing gc
  mayMove : gc.currentGcMayMoveObject = env.currentGcMayMoveObject
  ppps : p.registry.ppps = (s.binding .pppRegistry).ppps
  pinBits : gc.pinnedAtStart = s.binding .pinBits
  tracing : (Tracing.system fields roots).Reachable t
  done : t.Over
  answers : env.traced = t.answers
  copiesToFree : t.CopiesToFree s.history.heap

/-- The object that was named still exists. -/
def State.Keeps (s : State E B G Obj) (x : Option Obj) : Prop := ∃ o ∈ s.history.heap, x = some o

/-- The object that was named still exists, and the GC has not found it to be no PPP any longer. -/
def State.KeepsPpp (s : State E B G Obj) (gcs : ℕ) (x : Option Obj) : Prop :=
  ∃ o ∈ s.history.heap, x = some o ∧ o ∉ s.noLonger gcs

open Classical in
/-- What a GC that has traced what the roots reach makes of the binding: `obj_free` has been called
for the candidates that are gone, and whatever else the binding names is named as before. -/
structure Finalized (s : State E B G Obj) (fields : ObjectReference → List ObjectReference)
    (roots : List ObjectReference) (s' : State E B G Obj) : Prop where
  survivors : ∀ o, o ∈ s'.history.heap ↔
    ∃ a, s.history.heap.objectAt a = some o ∧ Tracing.Reaches fields roots a
  freed : s'.freed = s.freed +
    (s.objFree.outstanding.filter fun x => ¬ s'.Keeps x).map fun x => (x, s.history.gcs)
  outstanding : s'.objFree.outstanding = s.objFree.outstanding.filter s'.Keeps
  wbUnprotectedObjects : ∀ b, b ∈ s'.binding .wbUnprotectedObjects ↔
    ∃ o, s'.history.heap.objectAt b = some o ∧
      ∃ a ∈ s.binding .wbUnprotectedObjects, s.history.heap.objectAt a = some o
  ppps : (s'.binding .pppRegistry).ppps.map s'.history.heap.objectAt =
    ((s.binding .pppRegistry).ppps.map s.history.heap.objectAt).filter
      (s'.KeepsPpp s.history.gcs)
  givtbls : ∀ b o, s'.history.heap.objectAt b = some o →
    (s'.binding .givtbls).genericIvTbl b = s.givtbl o
  pinBits : s'.binding .pinBits = s.binding .pinBits

/-! ### What weak processing begins with -/

/-- Copies of the objects that workers have moved, in whatever order, leave a record of moved
tables, with which weak processing can begin. -/
lemma GcTraced.exists_gcStart (h : GcTraced s env fields roots p gc t) (hlaw : env.upcalls.Lawful)
    (hpos : 1 ≤ env.binding.stEntriesChunkSize)
    (hov : ∀ t, WeakTable.NoOverflow env.binding (env.upcalls.stGetSizeInfo t))
    (hs : (system E B G Obj env.upcalls.givtbl).Reachable s)
    {copies : List (ObjectReference × ObjectReference)}
    (hcopies : GivtblHistory.CopiesOf env.traced s.history.heap copies) :
    ∃ heap' movedGivtbl, GcStart env.upcalls.givtbl s env heap' copies movedGivtbl
      p.registry.pinnedPppChildren p.isPinned := by
  have htracked := (GivtblHistory.tracked_invariant hlaw.givtbl).of_reachable
    ((givtbls_refines hlaw.givtbl).reachable hs)
  have htrace := Tracing.inv_invariant.of_reachable h.tracing
  obtain ⟨heap', hrel⟩ := htrace.exists_relocates s.history.heap
  have hrel' : env.traced.collection.Relocates s.history.heap heap' := by
    rw [h.answers]
    exact htrace.relocates_answers h.done h.copiesToFree hrel
  have hapart := htracked.apart hrel' hcopies
  obtain ⟨movedGivtbl, hok, -⟩ := VMObjectModel.copyGivtbls_eq_ok htracked.flagsMatch hapart.targets
  have hchildren := (pinnedPppChildren_invariant hlaw.givtbl).of_reachable hs
  refine ⟨heap', movedGivtbl, {
    lawful := hlaw
    givtbl := rfl
    chunk_pos := hpos
    noOverflow := hov
    relocates := hrel'
    live := fun a ha => by rw [h.answers]; rfl
    copiesOf := hcopies
    moved := ?_
    pins := ?_ }⟩
  · rw [show (s.binding .givtbls).movedGivtbl = fun _ => none from htracked.drained]
    exact hok
  · rw [hchildren, List.nil_append, ← h.ppps]
    exact WeakRefs.pinsUndoable_of_reachable h.pinning h.phase h.mayMove

/-! ### What it leaves -/

section Collected

variable {upcalls : GivtblUpcalls} {heap' : Heap ObjectReference Obj}
  {copies : List (ObjectReference × ObjectReference)} {movedGivtbl : MovedGivtbl}
  {newlyPinned : List ObjectReference} {isPinned : ObjectReference → Bool}

/-- The state after the GC. -/
def State.collect (s : State E B G Obj) (env : Env E B G) (heap' : Heap ObjectReference Obj)
    (hrel : env.traced.collection.Relocates s.history.heap heap')
    (binding : (i : Component) → WeakRefs.State E B G i) : State E B G Obj :=
  { s with
    binding
    history := s.history.collect env.traced.collection heap' hrel
    freed := s.freed + (binding .weakProc).freed.map
      fun object => (s.history.heap.objectAt object, s.history.gcs)
    noLonger := Function.update s.noLonger s.history.gcs
      {o | ∃ a, heap'.objectAt a = some o ∧ env.upcalls.isNoLongerPpp a = true} }

/-- Addresses are selected by what they name. -/
lemma map_filter_of_iff {α β : Type*} {f : α → β} {p : α → Bool} {q : β → Prop} [DecidablePred q]
    {l : List α} (h : ∀ a ∈ l, (p a = true ↔ q (f a))) :
    (l.filter p).map f = (l.map f).filter fun x => decide (q x) := by
  rw [List.filter_map]
  congr 1
  refine List.filter_congr fun a ha => ?_
  rw [Bool.eq_iff_iff, h a ha, Function.comp_apply, decide_eq_true_iff]

open Classical in
/-- Every candidate is one of the objects that are kept, or `obj_free` is called for it. -/
lemma objFree_collect (hs : (ObjFree.system Obj).Reachable s.objFree)
    (hrel : env.traced.collection.Relocates s.history.heap heap')
    {binding : (i : Component) → WeakRefs.State E B G i}
    (hout : WeakRefs.Outcome env (s.atWeakRefs movedGivtbl newlyPinned isPinned) binding) :
    (s.collect env heap' hrel binding).objFree.outstanding =
        s.objFree.outstanding.filter (s.collect env heap' hrel binding).Keeps ∧
      (s.collect env heap' hrel binding).freed = s.freed +
        (s.objFree.outstanding.filter fun x => ¬ (s.collect env heap' hrel binding).Keeps x).map
          fun x => (x, s.history.gcs) := by
  set s' := s.collect env heap' hrel binding with hs'
  set candidates := (s.binding .weakProc).weakProc.objFreeCandidates with hcandidates
  have hresolved : ∀ a ∈ candidates, (s.history.heap.objectAt a).isSome := fun a ha =>
    (ObjFree.balanced_invariant.of_reachable hs).resolved ha
  have hkept : (candidates.filter env.traced.collection.keeps).map s.history.heap.objectAt =
      (candidates.map s.history.heap.objectAt).filter fun x => decide (s'.Keeps x) :=
    map_filter_of_iff fun a ha => hrel.keeps_iff (hresolved a ha)
  have hgone : (candidates.filter (!env.traced.collection.keeps ·)).map s.history.heap.objectAt =
      (candidates.map s.history.heap.objectAt).filter fun x => decide (¬ s'.Keeps x) := by
    refine map_filter_of_iff fun a ha => ?_
    rw [Bool.not_eq_true', ← Bool.not_eq_true, not_iff_not]
    exact hrel.keeps_iff (hresolved a ha)
  have hobjFree := hout.objFree
  rw [ProcessObjFreeCandidates.doWork_eq] at hobjFree
  have hweakProc : s'.binding .weakProc = binding .weakProc := rfl
  constructor
  · rw [show s.objFree.outstanding.filter s'.Keeps =
      ((candidates.map s.history.heap.objectAt).filter fun x => decide (s'.Keeps x) :
        List (Option Obj)) from rfl, ← hkept, ← hrel.map_objectAt hresolved]
    rw [ObjFree.State.outstanding, State.objFree, hweakProc, hobjFree]
    rfl
  · rw [show (s.objFree.outstanding.filter fun x => ¬ s'.Keeps x) =
      ((candidates.map s.history.heap.objectAt).filter fun x => decide (¬ s'.Keeps x) :
        List (Option Obj)) from rfl, ← hgone, hs', State.collect, hobjFree]
    simp [State.atWeakRefs, Function.comp_def, hcandidates]

/-- The set follows the registered objects. -/
lemma wbUnprotectedObjects_collect (hs : (WbUnprotected.system Obj).Reachable s.wbUnprotected)
    (hrel : env.traced.collection.Relocates s.history.heap heap')
    {binding : (i : Component) → WeakRefs.State E B G i}
    (hout : WeakRefs.Outcome env (s.atWeakRefs movedGivtbl newlyPinned isPinned) binding)
    (b : ObjectReference) : b ∈ binding .wbUnprotectedObjects ↔
      ∃ o, heap'.objectAt b = some o ∧
        ∃ a ∈ s.binding .wbUnprotectedObjects, s.history.heap.objectAt a = some o := by
  rw [hout.wbUnprotectedObjects, Finset.mem_image]
  constructor
  · rintro ⟨a, ha, rfl⟩
    obtain ⟨hmem, hkept⟩ := Finset.mem_filter.mp ha
    have hmember : isObjectWbUnprotected s.wbUnprotected.wbUnprotectedObjects a = true :=
      decide_eq_true hmem
    obtain ⟨o, ho, -⟩ := (WbUnprotected.followsIdentity_invariant.of_reachable hs a).mp hmember
    exact ⟨o, hrel.objectAt_forward ho hkept, a, hmem, ho⟩
  · rintro ⟨o, hb, a, hmem, ho⟩
    obtain ⟨a', ho', hkept, hforward⟩ := (hrel b o).mp hb
    obtain rfl := s.history.heap.unique ho' ho
    exact ⟨a', Finset.mem_filter.mpr ⟨hmem, hkept⟩, hforward⟩

/-- A PPP stays in the list when it is kept and, where it is then, still one. -/
lemma isLivePpp_iff (hrel : env.traced.collection.Relocates s.history.heap heap')
    (hlive : ∀ a, (s.history.heap.objectAt a).isSome →
      env.traced.isLive a = env.traced.isReachable a)
    {binding : (i : Component) → WeakRefs.State E B G i} {a : ObjectReference}
    (ha : (s.history.heap.objectAt a).isSome) :
    RemoveDeadPPPs.isLivePpp env.traced env.upcalls.isNoLongerPpp a = true ↔
      (s.collect env heap' hrel binding).KeepsPpp s.history.gcs (s.history.heap.objectAt a) := by
  obtain ⟨o, ho⟩ := Option.isSome_iff_exists.mp ha
  have hnoLonger : env.traced.collection.keeps a = true →
      (o ∈ (s.collect env heap' hrel binding).noLonger s.history.gcs ↔
        env.upcalls.isNoLongerPpp (a.forward env.traced) = true) := by
    intro hkept
    have hmoved : heap'.objectAt (a.forward env.traced) = some o := hrel.objectAt_forward ho hkept
    simp only [State.collect, Function.update_self]
    constructor
    · rintro ⟨b, hb, hno⟩
      rwa [← heap'.unique hb hmoved]
    · exact fun hno => ⟨_, hmoved, hno⟩
  rw [RemoveDeadPPPs.isLivePpp, Bool.and_eq_true, Bool.not_eq_true', ← Bool.not_eq_true, hlive a ha,
    State.KeepsPpp]
  constructor
  · rintro ⟨hkept, hppp⟩
    exact ⟨o, hrel.mem_iff.mpr ⟨a, ho, hkept⟩, ho, fun hno => hppp ((hnoLonger hkept).mp hno)⟩
  · rintro ⟨o', hmem, ho', hppp⟩
    obtain rfl : o' = o := Option.some.inj (ho'.symm.trans ho)
    have hkept := (hrel.keeps_iff ha).mpr ⟨o', hmem, ho'⟩
    exact ⟨hkept, fun hno => hppp ((hnoLonger hkept).mpr hno)⟩

open Classical in
/-- The list of PPPs follows its objects until they are PPPs no longer. -/
lemma ppps_collect (hs : (LivePpps.system Obj).Reachable s.livePpps)
    (hrel : env.traced.collection.Relocates s.history.heap heap')
    (hlive : ∀ a, (s.history.heap.objectAt a).isSome →
      env.traced.isLive a = env.traced.isReachable a)
    {binding : (i : Component) → WeakRefs.State E B G i}
    (hout : WeakRefs.Outcome env (s.atWeakRefs movedGivtbl newlyPinned isPinned) binding) :
    (binding .pppRegistry).ppps.map heap'.objectAt =
      ((s.binding .pppRegistry).ppps.map s.history.heap.objectAt).filter
        ((s.collect env heap' hrel binding).KeepsPpp s.history.gcs) := by
  have hentry : ∀ a ∈ (s.binding .pppRegistry).ppps, (s.history.heap.objectAt a).isSome := by
    intro a ha
    obtain ⟨r, -, hr⟩ := exists_related_of_mem
      (LivePpps.tracked_invariant.of_reachable hs).entries a ha
    exact Option.isSome_iff_exists.mpr ⟨r.1, hr⟩
  rw [← map_filter_of_iff fun a ha => isLivePpp_iff hrel hlive (hentry a ha), hout.ppps,
    (RemoveDeadPPPs.removes_doWork _ _ _).ppps, List.map_map]
  refine List.map_congr_left fun a ha => ?_
  obtain ⟨hmem, hlivePpp⟩ := List.mem_filter.mp ha
  obtain ⟨o, ho⟩ := Option.isSome_iff_exists.mp (hentry a hmem)
  have hkept : env.traced.collection.keeps a = true :=
    (hlive a (hentry a hmem)).symm.trans (Bool.and_eq_true_iff.mp hlivePpp).1
  exact (hrel.objectAt_forward ho hkept).trans ho.symm

/-- The children that have been pinned for this GC are unpinned, and nothing else is. -/
lemma pinBits_collect (h : GcTraced s env fields roots p gc t)
    (hempty : (s.binding .pppRegistry).pinnedPppChildren = [])
    {binding : (i : Component) → WeakRefs.State E B G i}
    (hout : WeakRefs.Outcome env
      (s.atWeakRefs movedGivtbl p.registry.pinnedPppChildren p.isPinned) binding) :
    binding .pinBits = s.binding .pinBits := by
  have hbalanced := (Ppp.balanced_invariant.of_reachable h.pinning).phase
  rw [h.phase] at hbalanced
  obtain ⟨hundo, hstill⟩ := hbalanced
  have hmoving : p.registry.pinnedPppChildren ≠ [] → env.currentGcMayMoveObject = true := by
    intro hne
    by_contra hnot
    exact hne (hstill (h.mayMove.trans (Bool.eq_false_iff.mpr hnot)))
  funext object
  have hbit : binding .pinBits object = true ↔ p.isPinned object = true ∧
      ¬ (env.currentGcMayMoveObject = true ∧ object ∈ p.registry.pinnedPppChildren) := by
    have hpins := hout.pinBits object
    simp only [State.atWeakRefs, hempty, List.nil_append] at hpins
    exact hpins
  rw [← h.pinBits, Bool.eq_iff_iff, hbit, hundo.start_iff, Multiset.mem_coe]
  refine and_congr_right fun _ => not_congr ⟨And.right, fun hmem => ⟨hmoving ?_, hmem⟩⟩
  exact List.ne_nil_of_mem hmem

end Collected

/-! ### Every schedule -/

lemma rank_lt_of_step {c c' : PoolConfig (WeakRefs.State E B G) WeakRefs.Packet}
    (hstep : (WeakRefs.bucket env).Step c c') :
    WeakRefs.rank c'.pool < WeakRefs.rank c.pool := by
  cases hstep with
  | @exec i packet rest released x hpool hexec =>
    show WeakRefs.rank (released + rest) < WeakRefs.rank c.pool
    rw [hpool]
    exact WeakRefs.rank_lt_of_exec hexec

/-- Weak processing that can always be completed always is. -/
lemma inevitable_finished {start : PoolConfig (WeakRefs.State E B G) WeakRefs.Packet}
    (hcompletes : ∀ c, (WeakRefs.bucket env).Run start c →
      ∃ c', (WeakRefs.bucket env).Run c c' ∧ WorkPool.Finished c') :
    Inevitable (WeakRefs.bucket env).Step
      (fun c => WorkPool.Finished c ∧ (WeakRefs.bucket env).Run start c) start := by
  refine .of_rank (I := (WeakRefs.bucket env).Run start) (fun c => WeakRefs.rank c.pool) ?_ ?_ .refl
  · intro c c' hrun _ hstep
    exact ⟨hrun.tail hstep, rank_lt_of_step hstep⟩
  · intro c hrun hgoal
    obtain ⟨c', hrest, hfin⟩ := hcompletes c hrun
    rcases Relation.ReflTransGen.cases_head hrest with rfl | ⟨c₁, hstep, -⟩
    · exact absurd ⟨hfin, hrun⟩ hgoal
    · exact ⟨c₁, hstep⟩

/-- Between any two GCs of a run: whatever the interleaving of the packets that pin and of the
workers that trace and copy, every schedule of the packets of weak processing comes to the end of
the GC, and what it makes of the binding is what the roots reach. -/
theorem finalized_of_reachable (hlaw : env.upcalls.Lawful)
    (hpos : 1 ≤ env.binding.stEntriesChunkSize)
    (hov : ∀ t, WeakTable.NoOverflow env.binding (env.upcalls.stGetSizeInfo t))
    (hs : (system E B G Obj env.upcalls.givtbl).Reachable s)
    (h : GcTraced s env fields roots p gc t)
    {copies : List (ObjectReference × ObjectReference)}
    (hcopies : GivtblHistory.CopiesOf env.traced s.history.heap copies) :
    ∃ movedGivtbl, copies.foldlM (VMObjectModel.copyGivtbl s.givtbls.env)
        (s.binding .givtbls).movedGivtbl = .ok movedGivtbl ∧
      Inevitable (WeakRefs.bucket env).Step
        (fun c => WorkPool.Finished c ∧
          ∃ s', (system E B G Obj env.upcalls.givtbl).Reachable s' ∧ s'.binding = c.state ∧
            Finalized s fields roots s')
        (WeakRefs.start (s.atWeakRefs movedGivtbl p.registry.pinnedPppChildren p.isPinned)) := by
  obtain ⟨heap', movedGivtbl, hstart⟩ := h.exists_gcStart hlaw hpos hov hs hcopies
  have hend := inevitable_finished fun c hrun => gc_completes hlaw.givtbl hs hstart hrun
  refine ⟨movedGivtbl, hstart.moved, hend.mono ?_⟩
  rintro c ⟨hfin, hrun⟩
  have hs' := hs.step (.gc hstart hrun hfin)
  have hout := outcome_of_reachable hlaw.givtbl hs hstart hrun hfin
  have htracked := (GivtblHistory.tracked_invariant hlaw.givtbl).of_reachable
    ((givtbls_refines hlaw.givtbl).reachable hs')
  have hchildren := (pinnedPppChildren_invariant hlaw.givtbl).of_reachable hs
  have htrace := Tracing.inv_invariant.of_reachable h.tracing
  obtain ⟨houtstanding, hfreed⟩ :=
    objFree_collect ((objFree_refines hlaw.givtbl).reachable hs) hstart.relocates hout
  refine ⟨hfin, _, hs', rfl, {
    survivors := fun o => ?_
    freed := hfreed
    outstanding := houtstanding
    wbUnprotectedObjects := wbUnprotectedObjects_collect
      ((wbUnprotected_refines hlaw.givtbl).reachable hs) hstart.relocates hout
    ppps := ppps_collect ((livePpps_refines hlaw.givtbl).reachable hs) hstart.relocates
      hstart.live hout
    givtbls := fun b o hb => htracked.bound hb
    pinBits := pinBits_collect h hchildren hout }⟩
  refine hstart.relocates.mem_iff.trans (exists_congr fun a => and_congr_right fun ha => ?_)
  rw [← htrace.isReachable_iff h.done, ← htrace.isReachable_answers h.done h.copiesToFree
    (Option.isSome_iff_exists.mpr ⟨o, ha⟩), ← h.answers]
  rfl

/-! ### A GC that moves a parent, pins its child and frees a third object -/

/-- A third object, to which nothing refers. -/
def third : ObjectReference := ⟨16384, by decide⟩

/-- The parent has a table and is in every list of the binding; it and the third object are to be
freed with `obj_free`. -/
lemma exists_reachable_family :
    ∃ s : State (Option ℕ) (Option ℕ) ℕ ℕ,
      (system (Option ℕ) (Option ℕ) ℕ ℕ WeakProcessor.stTableUpcalls).Reachable s ∧
      (∀ a o, s.history.heap.objectAt a = some o ↔
        a = Ppp.parent ∧ o = 0 ∨ a = Ppp.child ∧ o = 1 ∨ a = third ∧ o = 2) ∧
      (s.binding .pppRegistry).ppps = [Ppp.parent] ∧ s.binding .pinBits = (fun _ => false) ∧
      s.objFree.outstanding = {some 0, some 2} := by
  have hborn₁ : (History.start.alloc Ppp.parent 0 rfl rfl).bornAt 1 = none :=
    History.bornAt_alloc (by decide) rfl rfl
  have hborn₂ : ((History.start.alloc Ppp.parent 0 rfl rfl).alloc Ppp.child 1 rfl hborn₁).bornAt 2 =
      none :=
    (History.bornAt_alloc (by decide) rfl hborn₁).trans (History.bornAt_alloc (by decide) rfl rfl)
  have h₁ := (TransitionSystem.Reachable.init init_emptyState).step
    (.alloc Ppp.parent 0 0 rfl rfl (by decide))
  have h₂ := h₁.step (.alloc Ppp.child 1 0 rfl hborn₁ (by decide))
  have h₃ := h₂.step (.alloc third 2 0 rfl hborn₂ (by decide))
  have h₄ := h₃.step (.setGivtbl Ppp.parent 0 7 rubyFlExivar rfl (by decide))
  have h₅ := h₄.step (.addObjFreeCandidates [Ppp.parent, third] [0, 2] rfl)
  have h₆ := h₅.step (.registerWbUnprotectedObject Ppp.parent 0 rfl)
  have h₇ := h₆.step (.registerPpp Ppp.parent 0 rfl)
  refine ⟨_, h₇, fun a o => ?_, rfl, rfl, rfl⟩
  refine (History.objectAt_alloc_iff rfl hborn₂).trans ?_
  rw [History.objectAt_alloc_iff rfl hborn₁, History.objectAt_alloc_iff rfl rfl]
  simp only [History.start, reduceCtorEq, or_false]
  tauto

theorem finalized_family : ∃ s s' : State (Option ℕ) (Option ℕ) ℕ ℕ,
    (system (Option ℕ) (Option ℕ) ℕ ℕ WeakProcessor.stTableUpcalls).Reachable s' ∧
      s.objFree.outstanding = {some 0, some 2} ∧ 0 ∈ s'.history.heap ∧ 2 ∉ s'.history.heap ∧
      Finalized s (Tracing.cycle Ppp.child Ppp.parent) [Ppp.child] s' := by
  let moved : ObjectReference := ⟨12288, by decide⟩
  obtain ⟨s, hs, hheap, hppps, hpinBits, houtstanding⟩ := exists_reachable_family
  obtain ⟨t, ht, hover, -, -, hforwarded⟩ := Tracing.reachable_cycle
    (show Ppp.parent ≠ Ppp.child by decide) (show moved ≠ Ppp.child by decide)
  have hfree : t.CopiesToFree s.history.heap := by
    intro a b hb hne
    rcases hforwarded a b hb with ⟨rfl, rfl⟩ | ⟨rfl, rfl⟩
    · exact absurd rfl hne
    · rw [Option.eq_none_iff_forall_ne_some]
      intro o ho
      rcases (hheap moved o).mp ho with ⟨heq, -⟩ | ⟨heq, -⟩ | ⟨heq, -⟩ <;>
        exact absurd heq (by decide)
  have htrace := Tracing.inv_invariant.of_reachable ht
  let env : Env (Option ℕ) (Option ℕ) ℕ := { WeakRefs.weakSetEnv with traced := t.answers }
  have h : GcTraced s env (Tracing.cycle Ppp.child Ppp.parent) [Ppp.child]
      (Ppp.oneParentState [Ppp.child] (Function.update (fun _ => false) Ppp.child true)
        (.tracing Ppp.oneParent)) Ppp.oneParent t :=
    { pinning := Ppp.reachable_oneParent_tracing _
      phase := rfl
      mayMove := rfl
      ppps := hppps.symm
      pinBits := hpinBits.symm
      tracing := ht
      done := hover
      answers := rfl
      copiesToFree := hfree }
  obtain ⟨copies, hcopies⟩ := htrace.exists_copiesOf hover hfree
  have hpos : 1 ≤ env.binding.stEntriesChunkSize :=
    show 1 ≤ WeakRefs.weakSetEnv.binding.stEntriesChunkSize by decide
  obtain ⟨movedGivtbl, -, hgc⟩ := finalized_of_reachable WeakRefs.lawful_weakSetUpcalls hpos
    (fun _ => WeakRefs.noOverflow_weakSetInfo) hs h hcopies
  obtain ⟨c, -, s', hs', -, hfinal⟩ := hgc.exists_goal
  refine ⟨s, s', hs', houtstanding, ?_, ?_, hfinal⟩
  · refine (hfinal.survivors 0).mpr ⟨Ppp.parent, (hheap _ _).mpr (Or.inl ⟨rfl, rfl⟩), Ppp.child,
      List.mem_cons_self, .single ?_⟩
    simp [Tracing.cycle]
  · intro hmem
    obtain ⟨a, ha, hreaches⟩ := (hfinal.survivors 2).mp hmem
    obtain ⟨b, hb⟩ := Option.isSome_iff_exists.mp ((htrace.isReachable_iff hover).mpr hreaches)
    rcases (hheap a 2).mp ha with ⟨-, h2⟩ | ⟨-, h2⟩ | ⟨rfl, -⟩
    · cases h2
    · cases h2
    · rcases hforwarded third b hb with ⟨heq, -⟩ | ⟨heq, -⟩ <;> exact absurd heq (by decide)

end GcCycle

end MmtkRuby
