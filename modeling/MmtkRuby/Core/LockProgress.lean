import MmtkRuby.Core.Locks
import MmtkRuby.Core.Progress

/-!
# Threads that never wait for each other

A thread that waits for a lock while it holds another one may be part of a deadlock. When no
critical section is inside another one, whoever holds a lock can go on, and the threads of a pool
finish in every schedule.
-/

namespace Core

namespace Script

variable {L : Type*} [DecidableEq L]

/-- Locks are taken one at a time: who takes a lock holds no other one. -/
def Flat : Script L → Prop
  | .done => True
  | .lock l next | .tryLock l next => (∀ l', next.holds l' = true → l' = l) ∧ next.Flat
  | .unlock _ next => next.Flat
  | .spawn packet next => packet.Flat ∧ next.Flat

/-- The number of steps, those of the packets included. -/
def size : Script L → ℕ
  | .done => 1
  | .lock _ next | .tryLock _ next | .unlock _ next => next.size + 1
  | .spawn packet next => packet.size + next.size + 2

lemma Flat.withLock {l : L} {next : Script L} (h : next.Flat) (hfresh : next.Fresh) :
    (next.withLock l).Flat := by
  refine ⟨fun l' hholds => ?_, h⟩
  simp only [holds, hfresh.2 l', Bool.or_false, beq_iff_eq] at hholds
  exact hholds.symm

lemma Flat.withTryLock {l : L} {next : Script L} (h : next.Flat) (hfresh : next.Fresh) :
    (next.withTryLock l).Flat :=
  h.withLock hfresh

lemma Flat.spawnAll {packets : List (Script L)} {next : Script L} (h : next.Flat)
    (hpackets : ∀ t ∈ packets, t.Flat) : (spawnAll packets next).Flat := by
  induction packets with
  | nil => exact h
  | cons t packets ih =>
    exact ⟨hpackets t (List.mem_cons_self ..),
      ih fun u hu => hpackets u (List.mem_cons_of_mem _ hu)⟩

end Script

namespace Pool

variable {L : Type*} [DecidableEq L] {p p' : Pool L}

/-- No thread and no packet takes a lock inside a critical section. -/
structure AllFlat (p : Pool L) : Prop where
  running : ∀ t ∈ p.running, t.Flat
  queued : ∀ t ∈ p.queued, t.Flat

namespace AllFlat

lemma add (h : p.AllFlat) {t : Script L} (ht : t.Flat) : (p.add t).AllFlat where
  running u hu := by
    rcases Multiset.mem_cons.mp hu with rfl | hu
    · exact ht
    · exact h.running u hu
  queued := h.queued

lemma start (h : p.AllFlat) (hstart : Start p p') : p'.AllFlat := by
  cases hstart with
  | @mk held queued running panicked t =>
    have hrest : AllFlat ⟨held, queued, running, panicked⟩ :=
      ⟨h.running, fun u hu => h.queued u (Multiset.mem_cons_of_mem hu)⟩
    exact hrest.add (h.queued t (Multiset.mem_cons_self ..))

lemma step (h : p.AllFlat) (hstep : Step p p') : p'.AllFlat := by
  have hrunning := h.running
  cases hstep with
  | @lock _ _ rest _ l next _ | @tryLock _ _ rest _ l next _ =>
    obtain ⟨ht, hrest⟩ := Multiset.forall_mem_cons.mp hrunning
    exact ⟨Multiset.forall_mem_cons.mpr ⟨ht.2, hrest⟩, h.queued⟩
  | @unlock _ _ rest _ l next =>
    obtain ⟨ht, hrest⟩ := Multiset.forall_mem_cons.mp hrunning
    exact ⟨Multiset.forall_mem_cons.mpr ⟨ht, hrest⟩, h.queued⟩
  | @spawn _ _ rest _ packet next =>
    obtain ⟨ht, hrest⟩ := Multiset.forall_mem_cons.mp hrunning
    exact ⟨Multiset.forall_mem_cons.mpr ⟨ht.2, hrest⟩,
      Multiset.forall_mem_cons.mpr ⟨ht.1, h.queued⟩⟩
  | tryLockFails | finish =>
    exact ⟨(Multiset.forall_mem_cons.mp hrunning).2, h.queued⟩

end AllFlat

/-! ### The rank -/

/-- The steps that are left, and the starts. -/
def rank (p : Pool L) : ℕ := p.total Script.size + p.queued.card

omit [DecidableEq L] in
lemma Start.rank_lt (h : Start p p') : p'.rank < p.rank := by
  have hsize := h.total_eq Script.size
  cases h
  simp only [rank, Multiset.card_cons] at hsize ⊢
  omega

lemma Step.rank_lt (h : Step p p') : p'.rank < p.rank := by
  cases h <;>
    simp only [rank, total, Multiset.map_cons, Multiset.sum_cons, Script.size,
      Multiset.card_cons] <;> omega

/-! ### Somebody can go on -/

/-- A lock that is held is held by a thread. -/
lemma Consistent.exists_holds (h : p.Consistent) {l : L} (hheld : p.held l = true) :
    ∃ t ∈ p.running, t.holds l = true := by
  by_contra hnone
  have hzero : (p.running.map fun t => (t.holds l).toNat).sum = 0 := by
    refine Multiset.sum_eq_zero fun x hx => ?_
    obtain ⟨t, ht, rfl⟩ := Multiset.mem_map.mp hx
    have hnot : t.holds l ≠ true := fun hholds => hnone ⟨t, ht, hholds⟩
    rw [Bool.eq_false_iff.mpr hnot]
    rfl
  rw [h.held l, hheld] at hzero
  cases hzero

/-- A thread that holds a lock is not about to take one. -/
lemma exists_step_of_holds {t : Script L} {l : L} (hmem : t ∈ p.running) (hflat : t.Flat)
    (hholds : t.holds l = true) : ∃ p', Step p p' := by
  obtain ⟨held, queued, running, panicked⟩ := p
  obtain ⟨rest, rfl⟩ := Multiset.exists_cons_of_mem hmem
  cases t with
  | done => cases hholds
  | lock l' next | tryLock l' next =>
    simp only [Script.holds, Bool.and_eq_true, bne_iff_ne] at hholds
    exact absurd (hflat.1 l hholds.2).symm hholds.1
  | unlock l' next => exact ⟨_, .unlock l' next⟩
  | spawn packet next => exact ⟨_, .spawn packet next⟩

/-- As long as there are threads, one of them can go on. -/
theorem Consistent.exists_step (h : p.Consistent) (hflat : p.AllFlat) (hne : p.running ≠ 0) :
    ∃ p', Step p p' := by
  by_cases hany : ∃ l, p.held l = true
  · obtain ⟨l, hl⟩ := hany
    obtain ⟨t, ht, hholds⟩ := h.exists_holds hl
    exact exists_step_of_holds ht (hflat.running t ht) hholds
  · -- nobody is in a critical section
    have hfree : ∀ l, p.held l = false := fun l => Bool.eq_false_iff.mpr fun hl => hany ⟨l, hl⟩
    obtain ⟨t, ht⟩ := Multiset.exists_mem_of_ne_zero hne
    obtain ⟨held, queued, running, panicked⟩ := p
    obtain ⟨rest, rfl⟩ := Multiset.exists_cons_of_mem ht
    cases t with
    | done => exact ⟨_, .finish⟩
    | lock l next => exact ⟨_, .lock l next (hfree l)⟩
    | tryLock l next => exact ⟨_, .tryLock l next (hfree l)⟩
    | unlock l next => exact ⟨_, .unlock l next⟩
    | spawn packet next => exact ⟨_, .spawn packet next⟩

end Pool

end Core
