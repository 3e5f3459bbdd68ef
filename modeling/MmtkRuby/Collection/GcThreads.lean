import Mathlib.Data.Finset.Insert
import Mathlib.Data.List.Nodup
import Mathlib.Data.List.Perm.Basic
import MmtkRuby.Core.TransitionSystem

/-!
# GC threads

`spawn_gc_thread` starts a worker and then records its join handle; the worker enters its id in
`GC_THREADS` for as long as it runs `start_worker`. Before a fork, `join_all_gc_threads` takes all
handles and joins them one by one. A worker may get anywhere, even to its end, before its handle is
recorded.
-/

namespace MmtkRuby

open Core

namespace GcThreads

/-- Where a worker stands. -/
inductive WorkerPc where
  | notSpawned
  /-- about to call `register_gc_thread` -/
  | spawned
  /-- has registered, about to call `start_worker` -/
  | registered
  /-- in `start_worker` -/
  | running
  /-- `start_worker` has returned, about to call `unregister_gc_thread` -/
  | quitting
  /-- has unregistered, about to exit -/
  | unregistered
  | exited
deriving DecidableEq, Repr

/-- Where the VM thread stands. -/
inductive VmPc (ThreadId : Type*) where
  /-- between two calls -/
  | idle
  /-- in `spawn_gc_thread`, about to push the handle of the worker -/
  | pushing (t : ThreadId)
  /-- in `join_all_gc_threads`, with the handles that are left -/
  | joining (handles : List ThreadId)
  /-- `join_all_gc_threads` has returned -/
  | returned
deriving DecidableEq, Repr

variable {ThreadId : Type*}

/-- The worker has registered and not unregistered. -/
def WorkerPc.isRegistered : WorkerPc → Bool
  | .registered | .running | .quitting => true
  | .notSpawned | .spawned | .unregistered | .exited => false

/-- The handles that the VM thread holds. -/
def VmPc.inHand : VmPc ThreadId → List ThreadId
  | .idle | .returned => []
  | .pushing t => [t]
  | .joining handles => handles

/-- The thread is in none of the two functions. -/
def VmPc.isFree : VmPc ThreadId → Bool
  | .idle | .returned => true
  | .pushing _ | .joining _ => false

/-- A handle is that of the thread with the given id. -/
structure State (ThreadId : Type*) where
  gcThreadJoinHandles : List ThreadId
  /-- `GC_THREADS` -/
  gcThreads : Finset ThreadId
  vm : VmPc ThreadId
  worker : ThreadId → WorkerPc
  /-- the threads that were joined, in order -/
  joined : List ThreadId

/-- Whose turn it is. -/
inductive Label (ThreadId : Type*) where
  | vm
  | worker (t : ThreadId)

variable [DecidableEq ThreadId]

/-- `register_gc_thread`. -/
def registerGcThread (gcThreads : Finset ThreadId) (threadId : ThreadId) : Finset ThreadId :=
  insert threadId gcThreads

/-- `unregister_gc_thread`. -/
def unregisterGcThread (gcThreads : Finset ThreadId) (threadId : ThreadId) : Finset ThreadId :=
  gcThreads.erase threadId

/-- The worker `t` moves on, and leaves `GC_THREADS` as given. -/
def State.moveWorker (s : State ThreadId) (t : ThreadId) (pc : WorkerPc)
    (gcThreads : Finset ThreadId) : State ThreadId :=
  { s with worker := Function.update s.worker t pc, gcThreads := gcThreads }

/-- The steps of the VM thread and of the workers. A new thread has an id that no thread had, and
`join` returns when the thread has exited. -/
inductive Step : State ThreadId → Label ThreadId → State ThreadId → Prop where
  | spawn {s : State ThreadId} (t : ThreadId) (hfree : s.vm.isFree = true)
      (hnew : s.worker t = .notSpawned) :
      Step s .vm
        { s with vm := .pushing t, worker := Function.update s.worker t .spawned }
  | pushHandle {s : State ThreadId} (t : ThreadId) (hvm : s.vm = .pushing t) :
      Step s .vm
        { s with vm := .idle, gcThreadJoinHandles := s.gcThreadJoinHandles ++ [t] }
  | takeHandles {s : State ThreadId} (hfree : s.vm.isFree = true) :
      Step s .vm
        { s with vm := .joining s.gcThreadJoinHandles, gcThreadJoinHandles := [] }
  | join {s : State ThreadId} (t : ThreadId) (handles : List ThreadId)
      (hvm : s.vm = .joining (t :: handles)) (hexited : s.worker t = .exited) :
      Step s .vm { s with vm := .joining handles, joined := s.joined ++ [t] }
  | joinedAll {s : State ThreadId} (hvm : s.vm = .joining []) :
      Step s .vm { s with vm := .returned }
  | register {s : State ThreadId} (t : ThreadId) (hpc : s.worker t = .spawned) :
      Step s (.worker t) (s.moveWorker t .registered (registerGcThread s.gcThreads t))
  | startWorker {s : State ThreadId} (t : ThreadId) (hpc : s.worker t = .registered) :
      Step s (.worker t) (s.moveWorker t .running s.gcThreads)
  | stopWorker {s : State ThreadId} (t : ThreadId) (hpc : s.worker t = .running) :
      Step s (.worker t) (s.moveWorker t .quitting s.gcThreads)
  | unregister {s : State ThreadId} (t : ThreadId) (hpc : s.worker t = .quitting) :
      Step s (.worker t) (s.moveWorker t .unregistered (unregisterGcThread s.gcThreads t))
  | exit {s : State ThreadId} (t : ThreadId) (hpc : s.worker t = .unregistered) :
      Step s (.worker t) (s.moveWorker t .exited s.gcThreads)

/-- Runs from a state without threads. -/
def system (ThreadId : Type*) [DecidableEq ThreadId] :
    TransitionSystem (State ThreadId) (Label ThreadId) where
  init s := s.gcThreadJoinHandles = [] ∧ s.gcThreads = ∅ ∧ s.vm = .idle ∧
    (∀ t, s.worker t = .notSpawned) ∧ s.joined = []
  step := Step

/-- Where the handles are: recorded, in the hands of the VM thread, or consumed. -/
def State.handles (s : State ThreadId) : List ThreadId :=
  s.gcThreadJoinHandles ++ s.vm.inHand ++ s.joined

/-- Every thread has one handle, only exited threads were joined, and `GC_THREADS` follows the
workers. -/
structure Inv (s : State ThreadId) : Prop where
  nodup : s.handles.Nodup
  mem_handles : ∀ t, t ∈ s.handles ↔ s.worker t ≠ .notSpawned
  joined_exited : ∀ t ∈ s.joined, s.worker t = .exited
  mem_gcThreads : ∀ t, t ∈ s.gcThreads ↔ (s.worker t).isRegistered = true
  taken : s.vm = .returned ∨ (∃ handles, s.vm = .joining handles) → s.gcThreadJoinHandles = []

namespace Inv

variable {s : State ThreadId}

omit [DecidableEq ThreadId] in
/-- The VM thread passes handles on. -/
lemma vmStep (h : Inv s) {s' : State ThreadId} (hperm : s'.handles.Perm s.handles)
    (hworker : s'.worker = s.worker) (hgc : s'.gcThreads = s.gcThreads)
    (hjoined : ∀ t ∈ s'.joined, s.worker t = .exited)
    (htaken : s'.vm = .returned ∨ (∃ handles, s'.vm = .joining handles) →
      s'.gcThreadJoinHandles = []) : Inv s' where
  nodup := hperm.nodup_iff.mpr h.nodup
  mem_handles t := by rw [hperm.mem_iff, hworker, h.mem_handles]
  joined_exited := by rwa [hworker]
  mem_gcThreads t := by rw [hgc, hworker, h.mem_gcThreads]
  taken := htaken

/-- A worker that has not exited moves on. -/
lemma moveWorker (h : Inv s) {t : ThreadId} {pc : WorkerPc} {gcThreads : Finset ThreadId}
    (hspawned : s.worker t ≠ .notSpawned) (halive : s.worker t ≠ .exited)
    (hpc : pc ≠ .notSpawned)
    (hgc : ∀ u, u ∈ gcThreads ↔ if u = t then pc.isRegistered = true else u ∈ s.gcThreads) :
    Inv (s.moveWorker t pc gcThreads) where
  nodup := h.nodup
  mem_handles u := by
    have hu := h.mem_handles u
    by_cases hut : u = t
    · subst hut
      simp only [State.moveWorker, Function.update_self]
      exact ⟨fun _ => hpc, fun _ => hu.mpr hspawned⟩
    · simp only [State.moveWorker, Function.update_of_ne hut]
      exact hu
  joined_exited u hu := by
    have hexited := h.joined_exited u hu
    have hut : u ≠ t := fun heq => halive (heq ▸ hexited)
    simp only [State.moveWorker, Function.update_of_ne hut]
    exact hexited
  mem_gcThreads u := by
    by_cases hut : u = t
    · subst hut
      simp [State.moveWorker, hgc]
    · simp only [State.moveWorker, Function.update_of_ne hut, hgc, if_neg hut]
      exact h.mem_gcThreads u
  taken := h.taken

/-- A new thread has a handle, in the hands of the VM thread. -/
lemma spawn (h : Inv s) {t : ThreadId} (hfree : s.vm.isFree = true)
    (hnew : s.worker t = .notSpawned) :
    Inv { s with vm := .pushing t, worker := Function.update s.worker t .spawned } := by
  have hinHand : s.vm.inHand = [] := by
    cases hvm : s.vm with
    | idle => rfl
    | returned => rfl
    | pushing u => simp [hvm, VmPc.isFree] at hfree
    | joining handles => simp [hvm, VmPc.isFree] at hfree
  have hnotin : t ∉ s.handles := fun ht => (h.mem_handles t).mp ht hnew
  have hperm : (s.gcThreadJoinHandles ++ [t] ++ s.joined).Perm (t :: s.handles) := by
    rw [State.handles, hinHand, List.append_nil, List.append_assoc]
    exact List.perm_middle
  have hother : ∀ u, u ≠ t → Function.update s.worker t .spawned u = s.worker u :=
    fun u hut => Function.update_of_ne hut _ _
  refine ⟨hperm.nodup_iff.mpr (List.nodup_cons.mpr ⟨hnotin, h.nodup⟩), ?_, ?_, ?_, ?_⟩
  · intro u
    refine hperm.mem_iff.trans ?_
    by_cases hut : u = t
    · subst hut
      simp
    · simp only [List.mem_cons, hut, false_or, hother u hut]
      exact h.mem_handles u
  · intro u hu
    have hut : u ≠ t := by
      rintro rfl
      exact hnotin (List.mem_append_right _ hu)
    exact (hother u hut).trans (h.joined_exited u hu)
  · intro u
    by_cases hut : u = t
    · subst hut
      simp [h.mem_gcThreads, hnew, WorkerPc.isRegistered]
    · simp only [hother u hut]
      exact h.mem_gcThreads u
  · rintro (hvm | ⟨handles, hvm⟩) <;> cases hvm

end Inv

lemma invariant : (system ThreadId).IsInvariant Inv where
  init := by
    rintro s ⟨hhandles, hgc, hvm, hworker, hjoined⟩
    refine ⟨?_, ?_, ?_, ?_, ?_⟩
    · simp [State.handles, hhandles, hvm, hjoined, VmPc.inHand]
    · simp [State.handles, hhandles, hvm, hjoined, VmPc.inHand, hworker]
    · simp [hjoined]
    · simp [hgc, hworker, WorkerPc.isRegistered]
    · simp [hhandles]
  step := by
    intro s l s' _ h hstep
    cases hstep with
    | spawn t hfree hnew => exact h.spawn hfree hnew
    | pushHandle t hvm =>
      refine h.vmStep ?_ rfl rfl h.joined_exited ?_
      · simp [State.handles, hvm, VmPc.inHand]
      · rintro (hvm' | ⟨handles, hvm'⟩) <;> cases hvm'
    | takeHandles hfree =>
      refine h.vmStep ?_ rfl rfl h.joined_exited fun _ => rfl
      cases hvm : s.vm <;> simp [hvm, VmPc.isFree, State.handles, VmPc.inHand] at hfree ⊢
    | join t handles hvm hexited =>
      refine h.vmStep ?_ rfl rfl ?_ fun _ => h.taken (Or.inr ⟨_, hvm⟩)
      · simp only [State.handles, hvm, VmPc.inHand, List.append_assoc, List.cons_append]
        refine List.Perm.append_left _ ?_
        rw [← List.append_assoc]
        exact List.perm_append_singleton _ _
      · intro u hu
        rcases List.mem_append.mp hu with hu | hu
        · exact h.joined_exited u hu
        · rw [List.mem_singleton.mp hu]
          exact hexited
    | joinedAll hvm =>
      refine h.vmStep ?_ rfl rfl h.joined_exited fun _ => h.taken (Or.inr ⟨_, hvm⟩)
      simp [State.handles, hvm, VmPc.inHand]
    | register t hpc =>
      refine h.moveWorker (by simp [hpc]) (by simp [hpc]) (by simp) fun u => ?_
      by_cases hut : u = t <;> simp [registerGcThread, hut, WorkerPc.isRegistered]
    | startWorker t hpc =>
      refine h.moveWorker (by simp [hpc]) (by simp [hpc]) (by simp) fun u => ?_
      by_cases hut : u = t <;> simp [hut, h.mem_gcThreads, hpc, WorkerPc.isRegistered]
    | stopWorker t hpc =>
      refine h.moveWorker (by simp [hpc]) (by simp [hpc]) (by simp) fun u => ?_
      by_cases hut : u = t <;> simp [hut, h.mem_gcThreads, hpc, WorkerPc.isRegistered]
    | unregister t hpc =>
      refine h.moveWorker (by simp [hpc]) (by simp [hpc]) (by simp) fun u => ?_
      by_cases hut : u = t <;> simp [unregisterGcThread, hut, WorkerPc.isRegistered]
    | exit t hpc =>
      refine h.moveWorker (by simp [hpc]) (by simp [hpc]) (by simp) fun u => ?_
      by_cases hut : u = t <;> simp [hut, h.mem_gcThreads, hpc, WorkerPc.isRegistered]

/-- `GC_THREADS` has exactly the workers that have registered and not unregistered, and these have
not been joined; and when `join_all_gc_threads` has returned, every worker spawned so far has
exited, has been joined once, and has left no trace. -/
structure GoneWhenJoined (s : State ThreadId) : Prop where
  mem_gcThreads : ∀ t, t ∈ s.gcThreads ↔ (s.worker t).isRegistered = true
  not_joined : ∀ t ∈ s.gcThreads, s.worker t ≠ .notSpawned ∧ t ∉ s.joined
  gone : s.vm = .returned → s.gcThreadJoinHandles = [] ∧ s.gcThreads = ∅ ∧
    ∀ t, s.worker t ≠ .notSpawned → s.worker t = .exited ∧ s.joined.count t = 1

/-- In every state of every run, the GC threads are accounted for. -/
theorem goneWhenJoined_of_reachable {s : State ThreadId} (hs : (system ThreadId).Reachable s) :
    GoneWhenJoined s := by
  have h := invariant.of_reachable hs
  refine ⟨h.mem_gcThreads, ?_, ?_⟩
  · intro t ht
    have hreg := (h.mem_gcThreads t).mp ht
    constructor
    · intro hpc
      rw [hpc] at hreg
      cases hreg
    · intro hjoined
      rw [h.joined_exited t hjoined] at hreg
      cases hreg
  · intro hvm
    have hempty := h.taken (Or.inl hvm)
    have hjoined : s.handles = s.joined := by
      rw [State.handles, hempty, hvm]
      rfl
    have hall : ∀ t, s.worker t ≠ .notSpawned → t ∈ s.joined := by
      intro t ht
      rw [← hjoined]
      exact (h.mem_handles t).mpr ht
    refine ⟨hempty, ?_, fun t ht => ⟨h.joined_exited t (hall t ht), ?_⟩⟩
    · refine Finset.eq_empty_of_forall_notMem fun t ht => ?_
      have hreg := (h.mem_gcThreads t).mp ht
      have hspawned : s.worker t ≠ .notSpawned := by
        intro hpc
        rw [hpc] at hreg
        cases hreg
      rw [h.joined_exited t (hall t hspawned)] at hreg
      cases hreg
    · exact List.count_eq_one_of_mem (hjoined ▸ h.nodup) (hall t ht)

/-- A worker is gone before its handle is recorded, and is joined before the fork. -/
theorem goneWhenJoined_early_exit : ∃ s : State ℕ, (system ℕ).Reachable s ∧ s.vm = .returned ∧
    s.joined = [7] ∧ GoneWhenJoined s := by
  have h₀ : (system ℕ).Reachable ⟨[], ∅, .idle, fun _ => .notSpawned, []⟩ :=
    .init ⟨rfl, rfl, rfl, fun _ => rfl, rfl⟩
  have h₁ := h₀.step (.spawn 7 rfl rfl)
  have h₂ := h₁.step (.register 7 rfl)
  have h₃ := h₂.step (.startWorker 7 rfl)
  have h₄ := h₃.step (.stopWorker 7 rfl)
  have h₅ := h₄.step (.unregister 7 rfl)
  have h₆ := h₅.step (.exit 7 rfl)
  have h₇ := h₆.step (.pushHandle 7 rfl)
  have h₈ := h₇.step (.takeHandles rfl)
  have h₉ := h₈.step (.join 7 [] rfl rfl)
  have h₁₀ := h₉.step (.joinedAll rfl)
  exact ⟨_, h₁₀, rfl, rfl, goneWhenJoined_of_reachable h₁₀⟩

end GcThreads

end MmtkRuby
