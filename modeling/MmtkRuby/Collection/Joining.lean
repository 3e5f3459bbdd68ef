import MmtkRuby.Collection.GcThreads
import MmtkRuby.Core.Progress

/-!
# `join_all_gc_threads` returns

Before a fork, mmtk-core asks the workers to leave `start_worker`. The VM thread waits for them one
after the other, in the order in which they were spawned and not in that in which they exit. No
worker waits for it, so that it gets to the end in every schedule.
-/

namespace MmtkRuby

open Core

namespace GcThreads

variable {ThreadId : Type*} [DecidableEq ThreadId]

/-- The steps of a worker that has been spawned. -/
def WorkerPc.rank : WorkerPc → ℕ
  | .spawned => 5
  | .registered => 4
  | .running => 3
  | .quitting => 2
  | .unregistered => 1
  | .notSpawned | .exited => 0

/-- The steps of the workers that are to be joined, the joins, and the return. -/
def State.rank (s : State ThreadId) : ℕ :=
  match s.vm with
  | .joining handles => ∑ t ∈ handles.toFinset, (s.worker t).rank + handles.length + 1
  | .idle | .pushing _ | .returned => 0

omit [DecidableEq ThreadId] in
/-- While handles are joined, they are those of all threads that have not exited. -/
lemma Inv.mem_inHand {s : State ThreadId} (h : Inv s) {handles : List ThreadId}
    (hvm : s.vm = .joining handles) {t : ThreadId} (hspawned : s.worker t ≠ .notSpawned)
    (halive : s.worker t ≠ .exited) : t ∈ handles := by
  have hmem := (h.mem_handles t).mpr hspawned
  rw [State.handles, h.taken (Or.inr ⟨_, hvm⟩), hvm] at hmem
  rcases List.mem_append.mp hmem with hmem | hmem
  · exact hmem
  · exact absurd (h.joined_exited t hmem) halive

/-- A worker that moves on has less to do. -/
lemma Inv.rank_moveWorker_lt {s : State ThreadId} (h : Inv s) {handles : List ThreadId}
    (hvm : s.vm = .joining handles) {t : ThreadId} {pc : WorkerPc} {gcThreads : Finset ThreadId}
    (hlt : pc.rank < (s.worker t).rank) : (s.moveWorker t pc gcThreads).rank < s.rank := by
  have hmem : t ∈ handles := by
    refine h.mem_inHand hvm ?_ ?_
    · intro heq
      rw [heq] at hlt
      exact absurd hlt (Nat.not_lt_zero _)
    · intro heq
      rw [heq] at hlt
      exact absurd hlt (Nat.not_lt_zero _)
  have hsum : ∑ u ∈ handles.toFinset, (Function.update s.worker t pc u).rank <
      ∑ u ∈ handles.toFinset, (s.worker u).rank := by
    refine Finset.sum_lt_sum (fun u _ => ?_) ⟨t, List.mem_toFinset.mpr hmem, ?_⟩
    · by_cases hut : u = t
      · subst hut
        rw [Function.update_self]
        exact hlt.le
      · rw [Function.update_of_ne hut]
    · rw [Function.update_self]
      exact hlt
  simp only [State.rank, State.moveWorker, hvm]
  omega

/-- Every step brings the return closer. -/
lemma Inv.rank_lt_of_step {s s' : State ThreadId} (h : Inv s) {handles : List ThreadId}
    (hvm : s.vm = .joining handles) {l : Label ThreadId} (hstep : (system ThreadId).step s l s') :
    ((∃ handles', s'.vm = .joining handles') ∨ s'.vm = .returned) ∧ s'.rank < s.rank ∧
      ∀ t, s.worker t ≠ .notSpawned → s'.worker t ≠ .notSpawned := by
  have hworker : ∀ {t : ThreadId} {pc : WorkerPc}, pc ≠ .notSpawned → ∀ u,
      s.worker u ≠ .notSpawned → Function.update s.worker t pc u ≠ .notSpawned := by
    intro t pc hpc u hu
    by_cases hut : u = t
    · subst hut
      rwa [Function.update_self]
    · rwa [Function.update_of_ne hut]
  cases hstep with
  | spawn t hfree _ => simp [hvm, VmPc.isFree] at hfree
  | takeHandles hfree => simp [hvm, VmPc.isFree] at hfree
  | pushHandle t hvm' => simp [hvm] at hvm'
  | join t rest hvm' _ =>
    refine ⟨Or.inl ⟨rest, rfl⟩, ?_, fun _ hu => hu⟩
    have hle : ∑ u ∈ rest.toFinset, (s.worker u).rank ≤
        ∑ u ∈ (t :: rest).toFinset, (s.worker u).rank := by
      refine Finset.sum_le_sum_of_subset ?_
      rw [List.toFinset_cons]
      exact Finset.subset_insert _ _
    simp only [State.rank, hvm', List.length_cons]
    omega
  | joinedAll hvm' =>
    refine ⟨Or.inr rfl, ?_, fun _ hu => hu⟩
    simp [State.rank, hvm']
  | register t hpc | startWorker t hpc | stopWorker t hpc | unregister t hpc | exit t hpc =>
    exact ⟨Or.inl ⟨handles, hvm⟩, h.rank_moveWorker_lt hvm (by simp [hpc, WorkerPc.rank]),
      hworker (by simp)⟩

/-- The worker that is to be joined next can go on, or has exited. -/
lemma Inv.exists_step {s : State ThreadId} (h : Inv s) {handles : List ThreadId}
    (hvm : s.vm = .joining handles) : ∃ l s', (system ThreadId).step s l s' := by
  cases handles with
  | nil => exact ⟨_, _, .joinedAll hvm⟩
  | cons t handles =>
    cases hpc : s.worker t with
    | notSpawned =>
      have hmem : t ∈ s.handles := by simp [State.handles, hvm, VmPc.inHand]
      exact absurd hpc ((h.mem_handles t).mp hmem)
    | spawned => exact ⟨_, _, .register t hpc⟩
    | registered => exact ⟨_, _, .startWorker t hpc⟩
    | running => exact ⟨_, _, .stopWorker t hpc⟩
    | quitting => exact ⟨_, _, .unregister t hpc⟩
    | unregistered => exact ⟨_, _, .exit t hpc⟩
    | exited => exact ⟨_, _, .join t handles hvm hpc⟩

omit [DecidableEq ThreadId] in
/-- When `join_all_gc_threads` has returned, the threads that have a handle have exited. -/
lemma Inv.exited_of_returned {s : State ThreadId} (h : Inv s) (hvm : s.vm = .returned)
    {t : ThreadId} (ht : s.worker t ≠ .notSpawned) : s.worker t = .exited := by
  have hmem := (h.mem_handles t).mpr ht
  rw [State.handles, h.taken (Or.inl hvm), hvm] at hmem
  exact h.joined_exited t hmem

/-- Once it has begun, `join_all_gc_threads` returns in every schedule of the VM thread and the
workers, and then all workers have exited. -/
theorem joinAllGcThreads_returns {s : State ThreadId} (hs : (system ThreadId).Reachable s)
    {handles : List ThreadId} (hvm : s.vm = .joining handles) :
    Inevitable (fun s s' => ∃ l, (system ThreadId).step s l s')
      (fun s' => s'.vm = .returned ∧ ∀ t, s.worker t ≠ .notSpawned → s'.worker t = .exited) s := by
  -- the threads that were spawned before stay so
  refine .of_rank (I := fun s' => (system ThreadId).Reachable s' ∧
      ((∃ handles', s'.vm = .joining handles') ∨ s'.vm = .returned) ∧
      ∀ t, s.worker t ≠ .notSpawned → s'.worker t ≠ .notSpawned) State.rank ?_ ?_
    ⟨hs, Or.inl ⟨handles, hvm⟩, fun _ ht => ht⟩
  · rintro s₁ s₂ ⟨h₁, hjoining, hspawned⟩ hgoal ⟨l, hstep⟩
    have hinv := invariant.of_reachable h₁
    rcases hjoining with ⟨handles', hvm'⟩ | hvm'
    · obtain ⟨hnext, hlt, hkeep⟩ := hinv.rank_lt_of_step hvm' hstep
      exact ⟨⟨h₁.step hstep, hnext, fun t ht => hkeep t (hspawned t ht)⟩, hlt⟩
    · exact absurd ⟨hvm', fun t ht => hinv.exited_of_returned hvm' (hspawned t ht)⟩ hgoal
  · rintro s₁ ⟨h₁, hjoining, hspawned⟩ hgoal
    have hinv := invariant.of_reachable h₁
    rcases hjoining with ⟨handles', hvm'⟩ | hvm'
    · obtain ⟨l, s₂, hstep⟩ := hinv.exists_step hvm'
      exact ⟨s₂, l, hstep⟩
    · exact absurd ⟨hvm', fun t ht => hinv.exited_of_returned hvm' (hspawned t ht)⟩ hgoal

/-- Two workers are joined, of which one has not even registered. -/
theorem joinAllGcThreads_returns_two : ∃ s : State ℕ, (system ℕ).Reachable s ∧
    s.vm = .joining [7, 8] ∧ s.worker 7 = .spawned ∧
    Inevitable (fun s s' => ∃ l, (system ℕ).step s l s')
      (fun s' => s'.vm = .returned ∧ ∀ t, s.worker t ≠ .notSpawned → s'.worker t = .exited) s := by
  have h₀ : (system ℕ).Reachable ⟨[], ∅, .idle, fun _ => .notSpawned, []⟩ :=
    .init ⟨rfl, rfl, rfl, fun _ => rfl, rfl⟩
  have h₁ := h₀.step (.spawn 7 rfl rfl)
  have h₂ := h₁.step (.pushHandle 7 rfl)
  have h₃ := h₂.step (.spawn 8 rfl rfl)
  have h₄ := h₃.step (.register 8 rfl)
  have h₅ := h₄.step (.pushHandle 8 rfl)
  have h₆ := h₅.step (.takeHandles rfl)
  exact ⟨_, h₆, rfl, rfl, joinAllGcThreads_returns h₆ rfl⟩

end GcThreads

end MmtkRuby
