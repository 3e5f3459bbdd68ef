import MmtkRuby.Basic
import MmtkRuby.ObjectReference

/-!
# Upcalls that visit objects

Much of the scanning is done by C code that calls back, through the `object_closure` of its
thread, for every object that it meets. The C code is not part of this development: all that
matters of it is which objects it visits, and that may depend on what the closure answers.
-/

namespace MmtkRuby

/-- C code that runs under an `object_closure`: it is done, or it visits an object (which it wants
pinned or not) and goes on with the answer. -/
inductive Upcall where
  | done
  | visit (object : ObjectReference) (pin : Bool) (next : ObjectReference → Upcall)

namespace Upcall

variable {σ : Type*}

/-- One upcall after the other. -/
def andThen : Upcall → Upcall → Upcall
  | .done, q => q
  | .visit object pin next, q => .visit object pin fun answer => (next answer).andThen q

/-- Run an upcall under a closure with the captured variables `σ`. -/
def run (visitObject : σ → ObjectReference → Bool → σ × ObjectReference) : σ → Upcall → σ
  | s, .done => s
  | s, .visit object pin next =>
    run visitObject (visitObject s object pin).1 (next (visitObject s object pin).2)

/-- The visits of an upcall to which every visit answers with the visited object. -/
def visits : Upcall → List (ObjectReference × Bool)
  | .done => []
  | .visit object pin next => (object, pin) :: (next object).visits

/-- The visited objects with the answers that they get, under a given closure. -/
def trace (visitObject : σ → ObjectReference → Bool → σ × ObjectReference) :
    σ → Upcall → List (ObjectReference × ObjectReference)
  | _, .done => []
  | s, .visit object pin next =>
    (object, (visitObject s object pin).2) ::
      trace visitObject (visitObject s object pin).1 (next (visitObject s object pin).2)

lemma visits_andThen (p q : Upcall) : (p.andThen q).visits = p.visits ++ q.visits := by
  induction p with
  | done => rfl
  | visit object pin next ih => simp [andThen, visits, ih]

/-- A closure that answers with the visited object sees the visits one after the other. -/
lemma run_eq_foldl {visitObject : σ → ObjectReference → Bool → σ × ObjectReference}
    (hsame : ∀ s object pin, (visitObject s object pin).2 = object) (s : σ) (f : Upcall) :
    f.run visitObject s = f.visits.foldl (fun s v => (visitObject s v.1 v.2).1) s := by
  induction f generalizing s with
  | done => rfl
  | visit object pin next ih =>
    rw [run, hsame, ih, visits, List.foldl_cons]

/-- Under such a closure, these are the visits that take place, each answered by its object. -/
lemma trace_eq {visitObject : σ → ObjectReference → Bool → σ × ObjectReference}
    (hsame : ∀ s object pin, (visitObject s object pin).2 = object) (s : σ) (f : Upcall) :
    f.trace visitObject s = f.visits.map fun v => (v.1, v.1) := by
  induction f generalizing s with
  | done => rfl
  | visit object pin next ih =>
    rw [trace, hsame, ih, visits, List.map_cons]

end Upcall

/-- The `object_closure` of a GC thread: the default, or a closure of the binding. -/
inductive ObjectClosure where
  | unregistered
  | registered
deriving DecidableEq, Repr

/-- `ObjectClosure::set_temporarily_and_run_code`, with the captured variables that `visit_object`
leaves and the closure that the thread has afterwards. -/
def ObjectClosure.setTemporarilyAndRunCode {σ : Type*} (profile : Profile)
    (closure : ObjectClosure)
    (visitObject : σ → ObjectReference → Bool → σ × ObjectReference) (f : Upcall) (s : σ) :
    Except Panic (σ × ObjectClosure) :=
  if profile = .debug ∧ closure ≠ .unregistered then .error .recursiveObjectClosure
  else .ok (f.run visitObject s, .unregistered)

/-- A thread that runs one packet after the other never sets the closure recursively. -/
lemma ObjectClosure.setTemporarilyAndRunCode_unregistered {σ : Type*} (profile : Profile)
    (visitObject : σ → ObjectReference → Bool → σ × ObjectReference) (f : Upcall) (s : σ) :
    ObjectClosure.unregistered.setTemporarilyAndRunCode profile visitObject f s
      = .ok (f.run visitObject s, .unregistered) := by
  simp [setTemporarilyAndRunCode]

end MmtkRuby
