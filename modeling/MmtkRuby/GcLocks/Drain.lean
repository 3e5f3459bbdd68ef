import MmtkRuby.Core.LockProgress
import MmtkRuby.GcLocks

/-!
# Every phase of a GC is drained

A stage opens when the work of the stages before it has finished, and the mutators are stopped when
they have left the binding. No critical section of the binding is inside another one, so that
nobody waits for a thread that waits.
-/

namespace MmtkRuby

open Core

namespace GcLocks

open Script

/-! ### No lock is taken inside a critical section -/

lemma flat_getGivtbl (isOriginal : Bool) {next : Script LockName} (h : next.Flat)
    (hfresh : next.Fresh) : (getGivtbl isOriginal next).Flat := by
  cases isOriginal with
  | false => exact h.withLock hfresh
  | true => exact h

lemma flat_marking (lookups : List Bool) {next : Script LockName} (h : next.Flat)
    (hfresh : next.Fresh) : (marking lookups next).Flat := by
  induction lookups with
  | nil => exact h
  | cons isOriginal lookups ih => exact flat_getGivtbl isOriginal ih (fresh_marking lookups hfresh)

lemma flat_done : (Script.done : Script LockName).Flat := trivial

/-- Packets that only mark. -/
lemma flat_markingPackets (packets : List (List Bool)) :
    ∀ t ∈ packets.map (marking · (.done : Script LockName)), t.Flat :=
  List.forall_mem_map.mpr fun lookups _ => flat_marking lookups flat_done Fresh.done

/-- The packets are added inside the critical section, and executed outside. -/
lemma flat_pinPppChildren (currentGcMayMoveObject : Bool) (packets : List (List Bool)) :
    (pinPppChildren currentGcMayMoveObject packets).Flat := by
  cases currentGcMayMoveObject with
  | false => exact trivial
  | true =>
    have hpackets : ∀ t ∈ packets.map pinPPPChildrenPacket, t.Flat :=
      List.forall_mem_map.mpr fun lookups _ =>
        flat_marking lookups (flat_done.withLock Fresh.done) Fresh.done.withLock
    have hnext : (Script.unlock LockName.ppps .done).Flat := trivial
    refine ⟨fun l hholds => ?_, hnext.spawnAll hpackets⟩
    rw [holds_spawnAll] at hholds
    simp only [holds, Bool.or_false, beq_iff_eq] at hholds
    exact hholds.symm

lemma flat_scanVmSpecificRoots (isNurseryGc : Bool) (rootPackets wbPackets : List (List Bool)) :
    (scanVmSpecificRoots isNurseryGc rootPackets wbPackets).Flat := by
  refine Flat.spawnAll ?_ (flat_markingPackets rootPackets)
  cases isNurseryGc with
  | false => exact trivial
  | true =>
    refine (flat_done.spawnAll (flat_markingPackets wbPackets)).withTryLock ?_
    exact Fresh.done.spawnAll (List.forall_mem_map.mpr fun lookups _ => fresh_marking lookups .done)

lemma flat_processWeakRefs (isDebug currentGcMayMoveObject : Bool) (entriesPackets : List ℕ) :
    (processWeakRefs isDebug currentGcMayMoveObject entriesPackets).Flat := by
  have htry : ∀ l : LockName, (withTryLock l .done).Flat :=
    fun _ => flat_done.withTryLock Fresh.done
  have hcleanup : (cleanupPpps isDebug currentGcMayMoveObject).Flat := by
    refine ⟨htry _, ?_⟩
    cases currentGcMayMoveObject with
    | true => exact Flat.withTryLock ⟨trivial, trivial⟩ (Fresh.spawn .done .done)
    | false =>
      cases isDebug with
      | true => exact htry _
      | false => exact trivial
  refine ⟨htry _, Flat.spawnAll (hcleanup.spawnAll ?_) ?_⟩
  · refine List.forall_mem_map.mpr fun binsPackets _ => flat_done.spawnAll fun t ht => ?_
    rw [List.eq_of_mem_replicate ht]
    exact trivial
  · intro t ht
    simp only [List.mem_cons, List.not_mem_nil, or_false] at ht
    rcases ht with rfl | rfl | rfl | rfl | rfl
    · exact htry _
    · exact trivial
    · exact trivial
    · exact trivial
    · exact htry _

lemma allFlat_invariant : system.IsInvariant fun s => s.pool.AllFlat where
  init := by
    rintro s rfl
    exact ⟨by simp, by simp⟩
  step := by
    intro s _ s' _ h hstep
    cases hstep with
    | mutatorCall c => exact h.add (flat_done.withLock Fresh.done)
    | stopTheWorld => exact h.add (flat_pinPppChildren _ _)
    | openPrepare => exact h.add (flat_scanVmSpecificRoots _ _ _)
    | openClosure | resumeMutators => exact h
    | copy hasExivarFlag =>
      refine h.add ?_
      cases hasExivarFlag with
      | true => exact flat_done.withLock Fresh.done
      | false => exact trivial
    | getGivtbl isOriginal => exact h.add (flat_getGivtbl isOriginal flat_done Fresh.done)
    | openVMRefClosure => exact h.add (flat_processWeakRefs _ _ _)
    | startPacket _ hstart => exact h.start hstart
    | run hstep => exact h.step hstep

/-! ### Draining -/

/-- The threads go on with what has been begun: nothing is added from outside, and the GC stays in
its phase. -/
inductive GoOn : State → State → Prop where
  | startPacket {s : State} {pool : Pool LockName} (hphase : s.phase ≠ .stopped)
      (hstart : s.pool.Start pool) : GoOn s { s with pool := pool }
  | run {s : State} {pool : Pool LockName} (hstep : s.pool.Step pool) :
      GoOn s { s with pool := pool }

/-- The next phase can begin. While the mutators are being stopped, packets that have been added
may wait for theirs. -/
structure PhaseOver (s : State) : Prop where
  running : s.pool.running = 0
  queued : s.phase ≠ .stopped → s.pool.queued = 0
  free : ∀ l, s.pool.held l = false
  not_panicked : s.pool.panicked = false

lemma GoOn.step {s t : State} (h : GoOn s t) : system.step s () t := by
  cases h with
  | startPacket hphase hstart => exact .startPacket hphase hstart
  | run hstep => exact .run hstep

lemma GoOn.rank_lt {s t : State} (h : GoOn s t) : t.pool.rank < s.pool.rank := by
  cases h with
  | startPacket _ hstart => exact hstart.rank_lt
  | run hstep => exact hstep.rank_lt

/-- With no threads, no lock is held. -/
lemma phaseOver_of_inv {s : State} (h : Inv s) (hrunning : s.pool.running = 0)
    (hqueued : s.phase ≠ .stopped → s.pool.queued = 0) : PhaseOver s := by
  refine ⟨hrunning, hqueued, fun l => ?_, h.consistent.not_panicked⟩
  have hheld := h.consistent.held l
  rw [hrunning] at hheld
  exact Bool.toNat_eq_zero.mp hheld.symm

lemma exists_goOn {s : State} (hs : system.Reachable s) (hnot : ¬ PhaseOver s) :
    ∃ t, GoOn s t := by
  have hinv := invariant.of_reachable hs
  have hflat := allFlat_invariant.of_reachable hs
  by_cases hrunning : s.pool.running = 0
  · -- a packet waits for a thread
    have hqueued : s.phase ≠ .stopped ∧ s.pool.queued ≠ 0 := by
      by_contra h
      refine hnot (phaseOver_of_inv hinv hrunning fun hphase => ?_)
      by_contra hne
      exact h ⟨hphase, hne⟩
    obtain ⟨t, ht⟩ := Multiset.exists_mem_of_ne_zero hqueued.2
    obtain ⟨phase, held, queued, running, panicked⟩ := s
    obtain ⟨rest, rfl⟩ := Multiset.exists_cons_of_mem ht
    exact ⟨_, .startPacket hqueued.1 (.mk t)⟩
  · obtain ⟨pool, hstep⟩ := hinv.consistent.exists_step hflat hrunning
    exact ⟨_, .run hstep⟩

/-- In every phase of every GC, and between the GCs, the threads that are in the binding, or have
packets of it to execute, finish in every schedule, and leave all locks free. -/
theorem phaseOver_of_reachable {s : State} (hs : system.Reachable s) :
    Inevitable GoOn PhaseOver s :=
  .of_rank (fun s => s.pool.rank) (fun hs _ hgo => ⟨hs.step hgo.step, hgo.rank_lt⟩) exists_goOn hs

/-- In a moving GC, the children of the PPPs are about to be pinned. -/
theorem phaseOver_stopped : ∃ s : State, system.Reachable s ∧ s.phase = .stopped ∧
    s.pool.running ≠ 0 ∧ Inevitable GoOn PhaseOver s := by
  have h₀ : system.Reachable ⟨.mutators, ⟨fun _ => false, 0, 0, false⟩⟩ := .init rfl
  have h₁ := h₀.step (l := ()) (.stopTheWorld true [[false], [true, false]] rfl ⟨rfl, rfl⟩)
  exact ⟨_, h₁, rfl, by simp [Pool.add], phaseOver_of_reachable h₁⟩

end GcLocks

end MmtkRuby
