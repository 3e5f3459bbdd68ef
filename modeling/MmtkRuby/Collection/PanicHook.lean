import MmtkRuby.Collection.GcThreads

/-!
# Threads that panic

`set_panic_hook` makes a panic of a thread in `GC_THREADS` abort the process and leaves other panics
to the hook that was there before. So nobody waits for a packet that has panicked, and
`join_all_gc_threads`, which unwraps what `join` returns, does not come across a worker that
panicked in `start_worker`. What the VM thread calls is `extern "C"`: a panic in there does not get
out, but aborts the process as well.
-/

namespace MmtkRuby

open Core

namespace PanicHook

variable {ThreadId : Type*} [DecidableEq ThreadId]

/-- The panic hook of the process. -/
inductive Hook where
  /-- the hook that was there first -/
  | first
  /-- the closure that `set_panic_hook` installs, with the hook that it took -/
  | checkGcThread (oldHook : Hook)
deriving DecidableEq, Repr

/-- What a hook does about a panic. -/
inductive Reaction where
  /-- `handle_gc_thread_panic` -/
  | aborts
  /-- the first hook runs, and the thread unwinds -/
  | runsOldHook
deriving DecidableEq, Repr

/-- `is_gc_thread`. -/
def isGcThread (gcThreads : Finset ThreadId) (threadId : ThreadId) : Bool :=
  decide (threadId ∈ gcThreads)

/-- The hook is called on the panicking thread. -/
def Hook.call (gcThreads : Finset ThreadId) (current : ThreadId) : Hook → Reaction
  | .first => .runsOldHook
  | .checkGcThread oldHook =>
    if isGcThread gcThreads current then .aborts else oldHook.call gcThreads current

/-- `set_panic_hook`, on the content of the `OnceCell` of `GC_THREADS` and the hook. -/
def setPanicHook (cell : Option (Finset ThreadId)) (hook : Hook) :
    Option (Finset ThreadId) × Hook :=
  match cell with
  | some gcThreads => (some gcThreads, hook)
  | none => (some ∅, .checkGcThread hook)

/-- The GC threads of a process in which threads may panic. -/
structure State (ThreadId : Type*) where
  threads : GcThreads.State ThreadId
  hook : Hook
  /-- the calls of `mmtk_init_binding` -/
  initCalls : ℕ
  aborted : Bool
  /-- the workers that have panicked, and where -/
  panics : List (ThreadId × GcThreads.WorkerPc)
  /-- the worker on which `handle.join().unwrap()` panicked -/
  joinFailed : Option ThreadId

/-- The workers whose `join` returns an error. -/
def State.Panicked (s : State ThreadId) (t : ThreadId) : Prop := ∃ pc, (t, pc) ∈ s.panics

/-- In a process that has not been aborted, threads move on or panic, and the binding may be
initialized once more. -/
inductive Step : State ThreadId → GcThreads.Label ThreadId → State ThreadId → Prop where
  | move {s : State ThreadId} {l : GcThreads.Label ThreadId} {threads : GcThreads.State ThreadId}
      (halive : s.aborted = false) (hstep : GcThreads.Step s.threads l threads)
      (hjoin : ∀ t handles, l = .vm → s.threads.vm = .joining (t :: handles) → ¬s.Panicked t) :
      Step s l { s with threads }
  -- `set_panic_hook` finds the cell of `GC_THREADS` set, and `BINDING.set` returns an error
  | initBinding {s : State ThreadId} (halive : s.aborted = false) :
      Step s .vm
        { s with
          hook := (setPanicHook (some s.threads.gcThreads) s.hook).2
          initCalls := s.initCalls + 1
          aborted := true }
  | panicAborts {s : State ThreadId} (t : ThreadId) (halive : s.aborted = false)
      (hspawned : s.threads.worker t ≠ .notSpawned) (hrunning : s.threads.worker t ≠ .exited)
      (hhook : s.hook.call s.threads.gcThreads t = .aborts) :
      Step s (.worker t)
        { s with aborted := true, panics := s.panics ++ [(t, s.threads.worker t)] }
  | panicUnwinds {s : State ThreadId} (t : ThreadId) (halive : s.aborted = false)
      (hspawned : s.threads.worker t ≠ .notSpawned) (hrunning : s.threads.worker t ≠ .exited)
      (hhook : s.hook.call s.threads.gcThreads t = .runsOldHook) :
      Step s (.worker t)
        { s with
          threads := s.threads.moveWorker t .exited s.threads.gcThreads
          panics := s.panics ++ [(t, s.threads.worker t)] }
  -- the panic does not get out of `mmtk_prepare_to_fork`
  | joinFails {s : State ThreadId} (t : ThreadId) (handles : List ThreadId)
      (halive : s.aborted = false) (hvm : s.threads.vm = .joining (t :: handles))
      (hexited : s.threads.worker t = .exited) (hpanicked : s.Panicked t) :
      Step s .vm { s with aborted := true, joinFailed := some t }

/-- Runs from the first call of `mmtk_init_binding`, in a process without GC threads. -/
def system (ThreadId : Type*) [DecidableEq ThreadId] :
    TransitionSystem (State ThreadId) (GcThreads.Label ThreadId) where
  init s := (GcThreads.system ThreadId).init s.threads ∧
    setPanicHook none .first = (some s.threads.gcThreads, s.hook) ∧ s.initCalls = 1 ∧
    s.aborted = false ∧ s.panics = [] ∧ s.joinFailed = none
  step := Step

/-- A worker that unwinds before it registers, or after it has unregistered, leaves the threads as
one that runs to its end. -/
lemma reachable_moveWorker_exited {s : GcThreads.State ThreadId}
    (hs : (GcThreads.system ThreadId).Reachable s) {t : ThreadId}
    (hspawned : s.worker t ≠ .notSpawned) (hrunning : s.worker t ≠ .exited)
    (hregistered : t ∉ s.gcThreads) :
    (GcThreads.system ThreadId).Reachable (s.moveWorker t .exited s.gcThreads) := by
  have hmem := (GcThreads.invariant.of_reachable hs).mem_gcThreads t
  cases hpc : s.worker t with
  | notSpawned => exact absurd hpc hspawned
  | exited => exact absurd hpc hrunning
  | registered | running | quitting =>
    rw [hpc] at hmem
    exact absurd (hmem.mpr rfl) hregistered
  | unregistered => exact hs.step (.exit t hpc)
  | spawned =>
    have h₁ := hs.step (.register t hpc)
    have h₂ := h₁.step (.startWorker t (Function.update_self ..))
    have h₃ := h₂.step (.stopWorker t (Function.update_self ..))
    have h₄ := h₃.step (.unregister t (Function.update_self ..))
    have h₅ := h₄.step (.exit t (Function.update_self ..))
    have hsame : GcThreads.unregisterGcThread (GcThreads.registerGcThread s.gcThreads t) t =
        s.gcThreads := Finset.erase_insert hregistered
    simp only [GcThreads.State.moveWorker, Function.update_idem] at h₅
    rw [hsame] at h₅
    exact h₅

/-- Only the thread whose turn it is in the list of handles is joined. -/
lemma joined_of_step {s s' : GcThreads.State ThreadId} {l : GcThreads.Label ThreadId}
    (hstep : GcThreads.Step s l s') {t : ThreadId} (hjoined : t ∈ s'.joined) :
    t ∈ s.joined ∨ l = .vm ∧ ∃ handles, s.vm = .joining (t :: handles) := by
  cases hstep with
  | join u handles hvm hexited =>
    rcases List.mem_append.mp hjoined with hjoined | hjoined
    · exact Or.inl hjoined
    · obtain rfl := List.mem_singleton.mp hjoined
      exact Or.inr ⟨rfl, handles, hvm⟩
  | spawn | pushHandle | takeHandles | joinedAll | register | startWorker | stopWorker | unregister
  | exit => exact Or.inl hjoined

/-- With the hook installed, the threads in `GC_THREADS` and no others abort the process. -/
lemma call_checkGcThread (gcThreads : Finset ThreadId) (current : ThreadId) :
    (Hook.checkGcThread .first).call gcThreads current =
      if current ∈ gcThreads then .aborts else .runsOldHook := by
  simp [Hook.call, isGcThread]

/-- What is known in every state of every run. -/
structure Inv (s : State ThreadId) : Prop where
  threads : (GcThreads.system ThreadId).Reachable s.threads
  hook : s.hook = .checkGcThread .first
  initCalls : 1 ≤ s.initCalls
  places : ∀ p ∈ s.panics, p.2 ≠ .notSpawned ∧ p.2 ≠ .exited
  aborted_iff : s.aborted = true ↔
    (∃ p ∈ s.panics, p.2.isRegistered = true) ∨ 1 < s.initCalls ∨ s.joinFailed ≠ none
  joinFailed : ∀ {t}, s.joinFailed = some t → ∃ pc, (t, pc) ∈ s.panics ∧ pc.isRegistered = false
  joined : ∀ t ∈ s.threads.joined, ¬s.Panicked t

section Panic

variable {s : State ThreadId} {t : ThreadId}

/-- The hook aborts the process for the workers that have registered and not unregistered. -/
lemma Inv.call_hook (h : Inv s) : s.hook.call s.threads.gcThreads t =
    if (s.threads.worker t).isRegistered then .aborts else .runsOldHook := by
  have hmem := (GcThreads.invariant.of_reachable h.threads).mem_gcThreads t
  rw [h.hook, call_checkGcThread]
  simp only [hmem]

/-- A worker that panics has been spawned and has not exited. -/
lemma Inv.places_append (h : Inv s) (hspawned : s.threads.worker t ≠ .notSpawned)
    (hrunning : s.threads.worker t ≠ .exited) :
    ∀ p ∈ s.panics ++ [(t, s.threads.worker t)], p.2 ≠ .notSpawned ∧ p.2 ≠ .exited := by
  intro p hp
  rcases List.mem_append.mp hp with hp | hp
  · exact h.places p hp
  · rw [List.mem_singleton.mp hp]
    exact ⟨hspawned, hrunning⟩

/-- A worker that runs has not been joined. -/
lemma Inv.not_panicked_append (h : Inv s) (hrunning : s.threads.worker t ≠ .exited)
    {pc : GcThreads.WorkerPc} {u : ThreadId} (hu : u ∈ s.threads.joined) :
    ¬∃ pc', (u, pc') ∈ s.panics ++ [(t, pc)] := by
  rintro ⟨pc', hpc'⟩
  rcases List.mem_append.mp hpc' with hpc' | hpc'
  · exact h.joined u hu ⟨pc', hpc'⟩
  · obtain rfl := congrArg Prod.fst (List.mem_singleton.mp hpc')
    exact hrunning ((GcThreads.invariant.of_reachable h.threads).joined_exited u hu)

end Panic

lemma invariant : (system ThreadId).IsInvariant Inv where
  init := by
    rintro s ⟨hthreads, hhook, hcalls, haborted, hpanics, hjoinFailed⟩
    have hjoined : s.threads.joined = [] := hthreads.2.2.2.2
    refine ⟨.init hthreads, (Prod.mk.inj hhook).2.symm, hcalls.ge, ?_, ?_, ?_, ?_⟩ <;>
      simp [hcalls, haborted, hpanics, hjoinFailed, hjoined]
  step := by
    intro s l s' _ h hstep
    cases hstep with
    | move halive hstep hjoin =>
      refine ⟨h.threads.step hstep, h.hook, h.initCalls, h.places, h.aborted_iff, h.joinFailed,
        fun t ht => ?_⟩
      rcases joined_of_step hstep ht with ht | ⟨hl, handles, hvm⟩
      · exact h.joined t ht
      · exact hjoin t handles hl hvm
    | initBinding halive =>
      refine ⟨h.threads, h.hook, Nat.le_add_right_of_le h.initCalls, h.places, ?_, h.joinFailed,
        h.joined⟩
      exact iff_of_true rfl (Or.inr (Or.inl (Nat.lt_succ_of_le h.initCalls)))
    | panicAborts t halive hspawned hrunning hhook =>
      have hregistered : (s.threads.worker t).isRegistered = true := by
        rw [h.call_hook] at hhook
        split_ifs at hhook with hregistered
        exact hregistered
      refine ⟨h.threads, h.hook, h.initCalls, h.places_append hspawned hrunning, ?_,
        fun hfailed => ?_, fun u hu => h.not_panicked_append hrunning hu⟩
      · exact iff_of_true rfl (Or.inl ⟨_, List.mem_append_right _ List.mem_cons_self, hregistered⟩)
      · obtain ⟨pc, hpc, hbefore⟩ := h.joinFailed hfailed
        exact ⟨pc, List.mem_append_left _ hpc, hbefore⟩
    | panicUnwinds t halive hspawned hrunning hhook =>
      have hregistered : (s.threads.worker t).isRegistered = false := by
        rw [h.call_hook] at hhook
        split_ifs at hhook with hregistered
        exact Bool.eq_false_iff.mpr hregistered
      have hmem := (GcThreads.invariant.of_reachable h.threads).mem_gcThreads t
      refine ⟨reachable_moveWorker_exited h.threads hspawned hrunning ?_, h.hook, h.initCalls,
        h.places_append hspawned hrunning, ?_, fun hfailed => ?_,
        fun u hu => h.not_panicked_append hrunning hu⟩
      · rw [hmem, hregistered]
        exact Bool.false_ne_true
      · rw [h.aborted_iff]
        simp [or_and_right, exists_or, hregistered]
      · obtain ⟨pc, hpc, hbefore⟩ := h.joinFailed hfailed
        exact ⟨pc, List.mem_append_left _ hpc, hbefore⟩
    | joinFails t handles halive hvm hexited hpanicked =>
      refine ⟨h.threads, h.hook, h.initCalls, h.places, ?_, fun hfailed => ?_, h.joined⟩
      · exact iff_of_true rfl (Or.inr (Or.inr (Option.some_ne_none t)))
      · obtain rfl := Option.some.inj hfailed
        obtain ⟨pc, hpc⟩ := hpanicked
        refine ⟨pc, hpc, Bool.eq_false_iff.mpr fun hregistered => ?_⟩
        have haborted := h.aborted_iff.mpr (Or.inl ⟨(_, pc), hpc, hregistered⟩)
        rw [halive] at haborted
        cases haborted

/-- The process is aborted exactly when a worker has panicked between registering and
unregistering, when the binding is initialized again, and when a `join` has failed. It fails only
on a worker that panicked before it registered or after it unregistered; and when
`join_all_gc_threads` has returned, no worker that was spawned has panicked. -/
structure PanicsHandled (s : State ThreadId) : Prop where
  aborted_iff : s.aborted = true ↔
    (∃ p ∈ s.panics, p.2.isRegistered = true) ∨ 1 < s.initCalls ∨ s.joinFailed ≠ none
  joinFailed : ∀ {t}, s.joinFailed = some t → ∃ pc, (t, pc) ∈ s.panics ∧
    (pc = .spawned ∨ pc = .unregistered)
  returned : s.threads.vm = .returned → ∀ t, s.threads.worker t ≠ .notSpawned →
    s.threads.worker t = .exited ∧ ¬s.Panicked t

/-- In every run in which workers may panic anywhere, no panic goes unnoticed. -/
theorem panicsHandled_of_reachable {s : State ThreadId} (hs : (system ThreadId).Reachable s) :
    PanicsHandled s := by
  have h := invariant.of_reachable hs
  have hthreads := GcThreads.invariant.of_reachable h.threads
  refine ⟨h.aborted_iff, ?_, ?_⟩
  · intro t hfailed
    obtain ⟨pc, hpc, hbefore⟩ := h.joinFailed hfailed
    obtain ⟨hspawned, hrunning⟩ := h.places _ hpc
    refine ⟨pc, hpc, ?_⟩
    cases pc with
    | spawned => exact Or.inl rfl
    | unregistered => exact Or.inr rfl
    | notSpawned => exact absurd rfl hspawned
    | exited => exact absurd rfl hrunning
    | registered | running | quitting => cases hbefore
  · intro hvm t ht
    have hjoined : t ∈ s.threads.joined := by
      have hmem := (hthreads.mem_handles t).mpr ht
      rwa [GcThreads.State.handles, hthreads.taken (Or.inl hvm), hvm] at hmem
    exact ⟨hthreads.joined_exited t hjoined, h.joined t hjoined⟩

/-- A worker panics before it registers, another one runs, and the VM thread joins the first. -/
theorem panicsHandled_spawned : ∃ s : State ℕ, (system ℕ).Reachable s ∧ s.aborted = true ∧
    s.panics = [(7, .spawned)] ∧ s.joinFailed = some 7 ∧ s.threads.worker 8 = .running ∧
    PanicsHandled s := by
  have h₀ : (system ℕ).Reachable
      ⟨⟨[], ∅, .idle, fun _ => .notSpawned, []⟩, .checkGcThread .first, 1, false, [], none⟩ :=
    .init ⟨⟨rfl, rfl, rfl, fun _ => rfl, rfl⟩, rfl, rfl, rfl, rfl, rfl⟩
  have h₁ := h₀.step (.move rfl (.spawn 7 rfl rfl) fun _ _ _ hvm => by cases hvm)
  have h₂ := h₁.step (.panicUnwinds 7 rfl (by decide) (by decide) rfl)
  have h₃ := h₂.step (.move rfl (.pushHandle 7 rfl) fun _ _ _ hvm => by cases hvm)
  have h₄ := h₃.step (.move rfl (.spawn 8 rfl rfl) fun _ _ _ hvm => by cases hvm)
  have h₅ := h₄.step (.move rfl (.register 8 rfl) fun _ _ _ hvm => by cases hvm)
  have h₆ := h₅.step (.move rfl (.pushHandle 8 rfl) fun _ _ _ hvm => by cases hvm)
  have h₇ := h₆.step (.move rfl (.startWorker 8 rfl) fun _ _ _ hvm => by cases hvm)
  have h₈ := h₇.step (.move rfl (.takeHandles rfl) fun _ _ _ hvm => by cases hvm)
  have h₉ := h₈.step (.joinFails 7 [8] rfl rfl rfl ⟨_, List.mem_cons_self⟩)
  exact ⟨_, h₉, rfl, rfl, rfl, rfl, panicsHandled_of_reachable h₉⟩

end PanicHook

end MmtkRuby
