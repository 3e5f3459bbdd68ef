import MmtkRuby.Core.Chunks
import MmtkRuby.ObjectClosure

/-!
# Batches of roots

`collect_object_roots_in` runs code that visits roots and hands the visited objects to mmtk-core in
batches. The factory of work packets is the list of the batches that it was given.
-/

namespace MmtkRuby

open Core

namespace VMScanning

/-- `OBJECT_BUFFER_SIZE`. -/
def objectBufferSize : ℕ := 4096

/-- The variables that the closure of `collect_object_roots_in` captures: the buffer, and the
arguments of the calls of `create_process_pinning_roots_work`. -/
structure RootsBuffer where
  buffer : List ObjectReference
  factory : List (List ObjectReference)

/-- The closure of `collect_object_roots_in`. All roots are pinned, whatever `pin` says. -/
def visitObject (s : RootsBuffer) (object : ObjectReference) (_pin : Bool) :
    RootsBuffer × ObjectReference :=
  let buffer := s.buffer ++ [object]
  if objectBufferSize ≤ buffer.length then (⟨[], s.factory ++ [buffer]⟩, object)
  else (⟨buffer, s.factory⟩, object)

/-- `VMScanning::collect_object_roots_in`. -/
def collectObjectRootsIn (profile : Profile) (closure : ObjectClosure)
    (factory : List (List ObjectReference)) (callback : Upcall) :
    Except Panic (List (List ObjectReference) × ObjectClosure) := do
  let (s, closure) ← closure.setTemporarilyAndRunCode profile visitObject callback ⟨[], factory⟩
  if s.buffer.isEmpty then return (s.factory, closure)
  else return (s.factory ++ [s.buffer], closure)

/-- The closure collects the visited objects. -/
lemma foldl_visitObject (visits : List (ObjectReference × Bool)) (s : RootsBuffer) :
    visits.foldl (fun s v => (visitObject s v.1 v.2).1) s =
      let c := (visits.map Prod.fst).foldl (Chunker.add objectBufferSize) ⟨s.factory, s.buffer⟩
      ⟨c.pending, c.closed⟩ := by
  induction visits generalizing s with
  | nil => rfl
  | cons v visits ih =>
    rw [List.foldl_cons, ih, List.map_cons, List.foldl_cons]
    simp only [visitObject, Chunker.add]
    split_ifs <;> rfl

/-- Each visit returns the visited object itself. -/
lemma visitObject_snd (s : RootsBuffer) (object : ObjectReference) (pin : Bool) :
    (visitObject s object pin).2 = object := by
  simp only [visitObject]
  split_ifs <;> rfl

/-- The batches are the chunks of the sequence of visited objects. -/
theorem collectObjectRootsIn_eq (profile : Profile) (factory : List (List ObjectReference))
    (callback : Upcall) :
    collectObjectRootsIn profile .unregistered factory callback =
      .ok (factory ++ chunks objectBufferSize (callback.visits.map Prod.fst), .unregistered) := by
  have hpos : 0 < objectBufferSize := by decide
  have hfinish := Chunker.finish_foldl_add (s := ⟨factory, []⟩) hpos hpos
    (callback.visits.map Prod.fst)
  simp only [List.nil_append] at hfinish
  rw [← hfinish, collectObjectRootsIn, ObjectClosure.setTemporarilyAndRunCode_unregistered,
    Upcall.run_eq_foldl visitObject_snd, foldl_visitObject]
  simp only [bind, Except.bind, pure, Except.pure, List.isEmpty_iff, Chunker.finish]
  split_ifs <;> rfl

/-! ### One packet after the other -/

/-- A worker calls `collect_object_roots_in` once for each of the callbacks. -/
def collectObjectRootsInEach (profile : Profile) (closure : ObjectClosure)
    (factory : List (List ObjectReference)) (callbacks : List Upcall) :
    Except Panic (List (List ObjectReference) × ObjectClosure) :=
  callbacks.foldlM (fun (factory, closure) callback =>
    collectObjectRootsIn profile closure factory callback) (factory, closure)

lemma collectObjectRootsInEach_eq (profile : Profile) (factory : List (List ObjectReference))
    (callbacks : List Upcall) :
    collectObjectRootsInEach profile .unregistered factory callbacks =
      .ok (factory ++ callbacks.flatMap fun callback =>
        chunks objectBufferSize (callback.visits.map Prod.fst), .unregistered) := by
  unfold collectObjectRootsInEach
  induction callbacks generalizing factory with
  | nil => simp [pure, Except.pure]
  | cons callback callbacks ih =>
    simp only [List.foldlM_cons, collectObjectRootsIn_eq, bind, Except.bind]
    rw [ih, List.flatMap_cons, List.append_assoc]

/-- The batches are the sequence of the objects that the callback visits, each visit answered by
the visited object. -/
structure Batched (callback : Upcall) (batches : List (List ObjectReference)) : Prop where
  batches_of_visited : ∀ factory, IsChunking objectBufferSize
    ((callback.trace visitObject ⟨[], factory⟩).map Prod.fst) batches
  answered : ∀ factory, ∀ v ∈ callback.trace visitObject ⟨[], factory⟩, v.2 = v.1

lemma batched_chunks (callback : Upcall) :
    Batched callback (chunks objectBufferSize (callback.visits.map Prod.fst)) := by
  have hpos : 0 < objectBufferSize := by decide
  constructor
  · intro factory
    rw [Upcall.trace_eq visitObject_snd, List.map_map]
    exact isChunking_chunks hpos _
  · intro factory v hv
    rw [Upcall.trace_eq visitObject_snd] at hv
    obtain ⟨v, -, rfl⟩ := List.mem_map.mp hv
    rfl

/-- On a worker that collects roots with any callbacks, one after the other, every callback's
visited objects go to the factory in order, and the closure is unregistered in the end. -/
theorem collectObjectRootsInEach_batched (profile : Profile)
    (factory : List (List ObjectReference)) (callbacks : List Upcall) :
    ∃ batches : List (List (List ObjectReference)),
      collectObjectRootsInEach profile .unregistered factory callbacks =
        .ok (factory ++ batches.flatten, .unregistered) ∧
      List.Forall₂ Batched callbacks batches := by
  refine ⟨callbacks.map fun callback => chunks objectBufferSize (callback.visits.map Prod.fst),
    ?_, ?_⟩
  · rw [collectObjectRootsInEach_eq, List.flatMap]
  · rw [List.forall₂_map_right_iff, List.forall₂_same]
    exact fun callback _ => batched_chunks callback

end VMScanning

end MmtkRuby
