import Mathlib.Algebra.BigOperators.Group.Finset.Basic
import Mathlib.Algebra.Order.Group.Multiset
import MmtkRuby.Scanning.Roots
import MmtkRuby.Utils.ChunkedVecCollector

/-!
# WB-unprotected objects as roots of a nursery GC

A nursery GC scans the WB-unprotected objects that are not in the nursery: the set is cut into
packets of at most 128 objects, and each packet hands the children that it visits to mmtk-core in
batches. Nothing is lost or repeated at either level.
-/

namespace MmtkRuby

open Core

/-- The scanners that `define_global_root_scanner` defines. -/
inductive GlobalRootScanner where
  | scanVMRoots
  | scanEndProcRoots
  | scanGlobalTblRoots
  | scanYjitRoots
  | scanGlobalSymbolsRoots
  | scanFinalizerTblRoots
  | scanObjToIdTblRoots
  | scanMiscRoots
  | scanFinalJobsRoots
deriving DecidableEq, Repr

structure ScanWbUnprotectedRoots where
  objects : List ObjectReference
deriving DecidableEq, Repr

/-- The packets that `scan_vm_specific_roots` adds to the `Prepare` bucket. -/
structure RootScanningWork where
  rootScanningWorkPackets : List GlobalRootScanner
  wbUnprotectedPackets : List ScanWbUnprotectedRoots
deriving DecidableEq, Repr

/-- `VMScanning::scan_vm_specific_roots`, given what a generational plan says of the current GC
and the WB-unprotected objects in the order in which the set is iterated. -/
def VMScanning.scanVmSpecificRoots (generational : Option Bool)
    (wbUnprotectedObjects : List ObjectReference) : RootScanningWork :=
  let rootScanningWorkPackets := [.scanVMRoots, .scanEndProcRoots, .scanGlobalTblRoots,
    .scanYjitRoots, .scanGlobalSymbolsRoots, .scanFinalizerTblRoots, .scanObjToIdTblRoots,
    .scanMiscRoots, .scanFinalJobsRoots]
  let isNurseryGc := generational.any id
  if !isNurseryGc then ⟨rootScanningWorkPackets, []⟩
  else if wbUnprotectedObjects.isEmpty then ⟨rootScanningWorkPackets, []⟩
  else
    let collector := (ChunkedVecCollector.new 128).extend wbUnprotectedObjects
    ⟨rootScanningWorkPackets, collector.intoVecs.map ScanWbUnprotectedRoots.mk⟩

/-- Packets are made for the chunks of the set, and only in a nursery GC. -/
lemma VMScanning.wbUnprotectedPackets_eq (generational : Option Bool)
    (wbUnprotectedObjects : List ObjectReference) :
    (scanVmSpecificRoots generational wbUnprotectedObjects).wbUnprotectedPackets =
      if generational = some true then
        (chunks 128 wbUnprotectedObjects).map ScanWbUnprotectedRoots.mk
      else [] := by
  unfold scanVmSpecificRoots
  rcases generational with _ | nursery
  · rfl
  · cases nursery with
    | false => rfl
    | true =>
      cases wbUnprotectedObjects with
      | nil => simp [chunks_nil]
      | cons object objects =>
        have hchunks := ChunkedVecCollector.intoVecs_extend_new (show 1 ≤ 128 by decide)
          (object :: objects)
        exact congrArg (List.map ScanWbUnprotectedRoots.mk) hchunks

namespace ScanWbUnprotectedRoots

variable (profile : Profile) (isReachable : ObjectReference → Bool)
  (scanObjectRubyStyle : ObjectReference → Upcall)

/-- What the packets have done: the objects given to `scan_object_ruby_style`, the batches given to
the factory, and the closure they leave on the thread. -/
structure Progress where
  scanned : List ObjectReference
  factory : List (List ObjectReference)
  closure : ObjectClosure

/-- The loop of `do_work`: the upcalls it makes, and the objects that it gives to them. -/
def scanLoop : List ObjectReference → Upcall × List ObjectReference
  | [] => (.done, [])
  | object :: objects =>
    let (rest, scanned) := scanLoop objects
    if isReachable object then ((scanObjectRubyStyle object).andThen rest, object :: scanned)
    else (rest, scanned)

/-- `ScanWbUnprotectedRoots::do_work`. -/
def doWork (p : ScanWbUnprotectedRoots) (s : Progress) : Except Panic Progress := do
  let (callback, scanned) := scanLoop isReachable scanObjectRubyStyle p.objects
  let (factory, closure) ←
    VMScanning.collectObjectRootsIn profile s.closure s.factory callback
  return { scanned := s.scanned ++ scanned, factory, closure }

/-- The packets run in the order in which they are listed. -/
def run (order : List ScanWbUnprotectedRoots) (s : Progress) : Except Panic Progress :=
  order.foldlM (fun s p => p.doWork profile isReachable scanObjectRubyStyle s) s

/-- The children that are visited when the reachable ones of the objects are scanned. -/
def children (objects : List ObjectReference) : List ObjectReference :=
  (objects.filter isReachable).flatMap fun object =>
    (scanObjectRubyStyle object).visits.map Prod.fst

lemma scanLoop_eq (objects : List ObjectReference) :
    ((scanLoop isReachable scanObjectRubyStyle objects).1.visits.map Prod.fst,
        (scanLoop isReachable scanObjectRubyStyle objects).2)
      = (children isReachable scanObjectRubyStyle objects, objects.filter isReachable) := by
  induction objects with
  | nil => rfl
  | cons object objects ih =>
    obtain ⟨hvisits, hscanned⟩ := Prod.mk.injEq _ _ _ _ ▸ ih
    cases h : isReachable object with
    | false => simp [scanLoop, children, h, hvisits, hscanned]
    | true => simp [scanLoop, children, h, hvisits, hscanned, Upcall.visits_andThen]

/-- A packet hands over the children of its reachable objects, in chunks. -/
lemma doWork_eq (p : ScanWbUnprotectedRoots) (scanned : List ObjectReference)
    (factory : List (List ObjectReference)) :
    p.doWork profile isReachable scanObjectRubyStyle ⟨scanned, factory, .unregistered⟩ =
      .ok ⟨scanned ++ p.objects.filter isReachable,
        factory ++ chunks VMScanning.objectBufferSize
          (children isReachable scanObjectRubyStyle p.objects), .unregistered⟩ := by
  obtain ⟨hvisits, hscanned⟩ := Prod.mk.injEq _ _ _ _ ▸
    scanLoop_eq isReachable scanObjectRubyStyle p.objects
  simp only [doWork, VMScanning.collectObjectRootsIn_eq, hvisits, hscanned, bind, Except.bind,
    pure, Except.pure]

/-- What a whole run has done, in the order of the packets. -/
lemma run_eq (order : List ScanWbUnprotectedRoots) (scanned : List ObjectReference)
    (factory : List (List ObjectReference)) :
    run profile isReachable scanObjectRubyStyle order ⟨scanned, factory, .unregistered⟩ =
      .ok ⟨scanned ++ order.flatMap fun p => p.objects.filter isReachable,
        factory ++ order.flatMap fun p => chunks VMScanning.objectBufferSize
          (children isReachable scanObjectRubyStyle p.objects), .unregistered⟩ := by
  induction order generalizing scanned factory with
  | nil => simp [run, pure, Except.pure]
  | cons p order ih =>
    unfold run at ih ⊢
    rw [List.foldlM_cons, doWork_eq]
    simp only [bind, Except.bind]
    rw [ih]
    simp

/-- The batches of a packet, put together again, are the children of its objects. -/
lemma flatten_batches (order : List ScanWbUnprotectedRoots) :
    (order.flatMap fun p => chunks VMScanning.objectBufferSize
      (children isReachable scanObjectRubyStyle p.objects)).flatten =
      children isReachable scanObjectRubyStyle (order.flatMap (·.objects)) := by
  induction order with
  | nil => rfl
  | cons p order ih =>
    have hpos : 0 < VMScanning.objectBufferSize := by decide
    simp only [children] at ih ⊢
    rw [List.flatMap_cons, List.flatten_append, ih, flatten_chunks hpos, List.flatMap_cons,
      List.filter_append, List.flatMap_append]

/-- Every batch has between 1 and 4096 objects. -/
lemma length_of_mem_batches {order : List ScanWbUnprotectedRoots} {batch : List ObjectReference}
    (h : batch ∈ order.flatMap fun p => chunks VMScanning.objectBufferSize
      (children isReachable scanObjectRubyStyle p.objects)) :
    1 ≤ batch.length ∧ batch.length ≤ 4096 := by
  obtain ⟨p, -, hbatch⟩ := List.mem_flatMap.mp h
  exact length_of_mem_chunks (n := VMScanning.objectBufferSize) (by decide) hbatch

end ScanWbUnprotectedRoots

/-! ### The remembered set -/

open ScanWbUnprotectedRoots in
/-- The packets have made roots of the children of the reachable objects, each object scanned
once, and kept to the sizes of packets and batches. -/
structure RememberedSetComplete (objects : Finset ObjectReference)
    (isReachable : ObjectReference → Bool) (scanObjectRubyStyle : ObjectReference → Upcall)
    (packets : List ScanWbUnprotectedRoots) (s : Progress) : Prop where
  roots : (s.factory.flatten : Multiset ObjectReference) =
    ∑ object ∈ objects with isReachable object,
      ((scanObjectRubyStyle object).visits.map Prod.fst : Multiset ObjectReference)
  scanned_iff : ∀ object, object ∈ s.scanned ↔ object ∈ objects ∧ isReachable object = true
  scanned_once : s.scanned.Nodup
  packet_size : ∀ p ∈ packets, 1 ≤ p.objects.length ∧ p.objects.length ≤ 128
  batch_size : ∀ batch ∈ s.factory, 1 ≤ batch.length ∧ batch.length ≤ 4096

lemma coe_flatMap_eq_sum {α β : Type*} (l : List α) (f : α → List β) :
    (l.flatMap f : Multiset β) = (l.map fun a => (f a : Multiset β)).sum := by
  induction l with
  | nil => rfl
  | cons a l ih => rw [List.flatMap_cons, ← Multiset.coe_add, ih, List.map_cons, List.sum_cons]

open ScanWbUnprotectedRoots in
/-- In a nursery GC the packets, in any order, make roots of exactly the children of the reachable
WB-unprotected objects; in other GCs, and for the empty set, there are no packets. -/
theorem VMScanning.rememberedSet_complete (profile : Profile) (generational : Option Bool)
    (objects : Finset ObjectReference) {iteration : List ObjectReference}
    (hnodup : iteration.Nodup) (hiteration : iteration.toFinset = objects)
    (isReachable : ObjectReference → Bool) (scanObjectRubyStyle : ObjectReference → Upcall)
    {order : List ScanWbUnprotectedRoots}
    (horder : order.Perm (scanVmSpecificRoots generational iteration).wbUnprotectedPackets) :
    (generational = some true →
      ∃ s, run profile isReachable scanObjectRubyStyle order ⟨[], [], .unregistered⟩ = .ok s ∧
        RememberedSetComplete objects isReachable scanObjectRubyStyle order s) ∧
    (generational ≠ some true ∨ objects = ∅ → order = []) := by
  rw [wbUnprotectedPackets_eq] at horder
  constructor
  · intro hnursery
    rw [if_pos hnursery] at horder
    have hobjects : (order.flatMap (·.objects)).Perm iteration := by
      have hperm := horder.flatMap_right (·.objects)
      rw [List.flatMap_map, List.flatMap_id', flatten_chunks (by decide)] at hperm
      exact hperm
    have hreachable := hobjects.filter isReachable
    have hscanned : (order.flatMap fun p => p.objects.filter isReachable) =
        (order.flatMap (·.objects)).filter isReachable := List.filter_flatMap.symm
    have hrun := run_eq profile isReachable scanObjectRubyStyle order [] []
    simp only [List.nil_append, hscanned] at hrun
    refine ⟨_, hrun, ?_, ?_, ?_, ?_, ?_⟩
    · have hval : (objects.filter (isReachable ·)).val = iteration.filter isReachable := by
        rw [Finset.filter_val, ← hiteration, List.toFinset_val, hnodup.dedup, Multiset.filter_coe]
        simp
      dsimp only
      rw [flatten_batches, children, coe_flatMap_eq_sum, Finset.sum, hval,
        Multiset.map_coe, Multiset.sum_coe]
      exact (hreachable.map _).sum_eq
    · intro object
      rw [hreachable.mem_iff, List.mem_filter, ← hiteration,
        List.mem_toFinset]
    · rw [hreachable.nodup_iff]
      exact hnodup.filter _
    · intro p hp
      obtain ⟨chunk, hchunk, rfl⟩ := List.mem_map.mp (horder.mem_iff.mp hp)
      exact length_of_mem_chunks (n := 128) (by decide) hchunk
    · intro batch hbatch
      exact length_of_mem_batches isReachable scanObjectRubyStyle hbatch
  · rintro (hnot | hempty)
    · rw [if_neg hnot] at horder
      exact horder.eq_nil
    · have hnil : iteration = [] := by
        rw [← List.toFinset_eq_empty_iff, hiteration, hempty]
      rw [hnil, chunks_nil] at horder
      split_ifs at horder
      · exact horder.eq_nil
      · exact horder.eq_nil

def oldObject : ObjectReference := ⟨4096, Nat.succ_ne_zero _⟩

def youngObject : ObjectReference := ⟨8192, Nat.succ_ne_zero _⟩

/-- An object that refers to itself and to the young object. -/
def scanSample (object : ObjectReference) : Upcall :=
  .visit object false fun _ => .visit youngObject false fun _ => .done

open ScanWbUnprotectedRoots in
/-- Of an old and a young object only the old one is scanned. -/
theorem VMScanning.rememberedSet_complete_old :
    (∃ s, run .debug (· = oldObject) scanSample [⟨[youngObject, oldObject]⟩]
        ⟨[], [], .unregistered⟩ = .ok s ∧
      RememberedSetComplete {youngObject, oldObject} (· = oldObject) scanSample
        [⟨[youngObject, oldObject]⟩] s) ∧
    (scanVmSpecificRoots (some true) [youngObject, oldObject]).wbUnprotectedPackets =
      [⟨[youngObject, oldObject]⟩] :=
  ⟨(VMScanning.rememberedSet_complete .debug (some true) {youngObject, oldObject}
    (show [youngObject, oldObject].Nodup by decide) rfl (· = oldObject) scanSample
    (show [⟨[youngObject, oldObject]⟩].Perm _ from .refl _)).1 rfl, rfl⟩

end MmtkRuby
