import MmtkRuby.Core.Progress
import MmtkRuby.Utils.AfterAll.Properties

/-!
# The deferred packets are handed over in the end

Nobody waits in `AfterAll`: the cell is never found borrowed, and the last packet to count down is
not known before. Every schedule of the threads therefore comes to the state in which all entries
packets have finished and the deferred packets are in the bucket.
-/

namespace MmtkRuby

open Core

namespace AfterAll

variable {n : ℕ} {P : Type*} {stage : WorkBucketStage} {deferred : List P}

/-! ### What is left to do -/

/-- The steps before the first push. -/
def SetupPc.rank : SetupPc → ℕ
  | .counting => 4
  | .adding => 3
  | .appending => 2
  | .releasing => 1
  | .scheduling _ => 0

/-- The steps of a packet at most, its push included. -/
def EntriesPc.rank : EntriesPc P → ℕ
  | .waiting => 8
  | .queued => 7
  | .updating => 6
  | .updated => 5
  | .last => 4
  | .borrowed => 3
  | .took _ => 2
  | .handing _ => 1
  | .finished _ => 0

def State.rank (s : State n P) : ℕ := s.setup.rank + ∑ i, (s.pc i).rank

/-- A packet that moves on has less to do. -/
lemma sum_rank_lt {pc : Fin n → EntriesPc P} {i : Fin n} {b : EntriesPc P}
    (h : b.rank < (pc i).rank) : ∑ j, (Function.update pc i b j).rank < ∑ j, (pc j).rank := by
  refine Finset.sum_lt_sum (fun j _ => ?_) ⟨i, Finset.mem_univ i, ?_⟩
  · by_cases hj : j = i
    · subst hj
      rw [Function.update_self]
      exact h.le
    · rw [Function.update_of_ne hj]
  · rw [Function.update_self]
    exact h

/-- Every step gets something done. -/
lemma rank_lt_of_step (hn : n < usizeSize) {s t : State n P} {l : Label n}
    (hs : (protocol n stage deferred).Reachable s) (hstep : (protocol n stage deferred).step s l t) :
    t.rank < s.rank := by
  have hcalm := ((guarded_invariant hn).of_reachable (hs.step hstep)).2
  have hmove : ∀ {i b setup}, setup = s.setup ∨ SetupPc.rank setup = s.setup.rank →
      EntriesPc.rank b < (s.pc i).rank →
      setup.rank + ∑ j, (Function.update s.pc i b j).rank < s.setup.rank + ∑ j, (s.pc j).rank := by
    intro i b setup hsetup hlt
    have hsum := sum_rank_lt hlt
    rcases hsetup with rfl | hsetup <;> omega
  cases hstep with
  | countUp hs | borrowToAdd hs _ | addPackets hs | releaseAdd hs =>
    simp [State.rank, hs, SetupPc.rank]
  | borrowToAddPanics | borrowToTakePanics => cases hcalm
  | @push i hs =>
    have hord := ordered_invariant.of_reachable ‹(protocol n stage deferred).Reachable s›
    have hwaiting : s.pc i = .waiting := (hord.waiting_iff i).mpr (by simp [hs, SetupPc.pushed])
    exact hmove (Or.inr (by simp [hs, SetupPc.rank])) (by simp [hwaiting, EntriesPc.rank])
  | poll i hi | updateReturns i hi | fetchSubLast i hi _ | fetchSub i hi _ | borrowToTake i hi _
  | take i hi | releaseTake i _ hi | bulkAdd i _ hi =>
    exact hmove (Or.inl rfl) (by simp [hi, EntriesPc.rank])

/-- Until all have finished, somebody can go on. -/
lemma exists_step {s : State n P} (hs : (protocol n stage deferred).Reachable s)
    (hnot : ¬ AllFinished s) : ∃ l t, (protocol n stage deferred).step s l t := by
  have hord := ordered_invariant.of_reachable hs
  cases hsetup : s.setup with
  | counting => exact ⟨_, _, .countUp hsetup⟩
  | adding =>
    cases hb : s.isBorrowed with
    | false => exact ⟨_, _, .borrowToAdd hsetup hb⟩
    | true => exact ⟨_, _, .borrowToAddPanics hsetup hb⟩
  | appending => exact ⟨_, _, .addPackets hsetup⟩
  | releasing => exact ⟨_, _, .releaseAdd hsetup⟩
  | scheduling k =>
    by_cases hk : k < n
    · exact ⟨_, _, .push ⟨k, hk⟩ hsetup⟩
    · -- all packets have been pushed, and one of them has not finished
      simp only [AllFinished, not_forall, not_exists] at hnot
      obtain ⟨i, hi⟩ := hnot
      cases hpc : s.pc i with
      | waiting =>
        have hle := (hord.waiting_iff i).mp hpc
        rw [hsetup] at hle
        exact absurd (hle.trans_lt i.isLt) hk
      | queued => exact ⟨_, _, .poll i hpc⟩
      | updating => exact ⟨_, _, .updateReturns i hpc⟩
      | updated =>
        by_cases hold : s.afterAll.fetchSub.1 = 1
        · exact ⟨_, _, .fetchSubLast i hpc hold⟩
        · exact ⟨_, _, .fetchSub i hpc hold⟩
      | last =>
        cases hb : s.isBorrowed with
        | false => exact ⟨_, _, .borrowToTake i hpc hb⟩
        | true => exact ⟨_, _, .borrowToTakePanics i hpc hb⟩
      | borrowed => exact ⟨_, _, .take i hpc⟩
      | took packets => exact ⟨_, _, .releaseTake i packets hpc⟩
      | handing packets => exact ⟨_, _, .bulkAdd i packets hpc⟩
      | finished isLast => exact absurd hpc (hi isLast)

/-! ### `count_down` as one call -/

/-- Packet `i` has made a call of `count_down`. -/
def State.countDown (s : State n P) (i : Fin n) : State n P :=
  let (isLast, packets, afterAll) := s.afterAll.countDown
  { s.goto i (.finished isLast) with
    afterAll
    handedOver := s.handedOver ++ if isLast then [(s.afterAll.stage, packets)] else [] }

/-- No packet holds the borrow while another one has yet to count down. -/
lemma isBorrowed_eq_false (hn : n < usizeSize) {s : State n P}
    (hs : (protocol n stage deferred).Reachable s) {i : Fin n} (hi : s.pc i = .updated) :
    s.isBorrowed = false := by
  obtain ⟨k, hk⟩ := (ordered_invariant.of_reachable hs).scheduling (i := i) (by simp [hi])
  have hguard := ((guarded_invariant hn).of_reachable hs).1
  by_contra hheld
  rw [Bool.not_eq_false] at hheld
  obtain ⟨j, hj⟩ := (hguard.mp hheld).resolve_left (by simp [hk, SetupPc.holds])
  have hpend := ((counted_invariant hn).of_reachable hs).not_pending (releasing_of_holds hj) i
  rw [hi] at hpend
  cases hpend

/-- A `count_down` in which no other thread comes in between is a run of the worker. -/
lemma run_countDown (hn : n < usizeSize) {s : State n P}
    (hs : (protocol n stage deferred).Reachable s) {i : Fin n} (hi : s.pc i = .updated) :
    ∃ ls, (∀ l ∈ ls, l = .worker i) ∧
      (protocol n stage deferred).Run s ls (s.countDown i) := by
  have hfree := isBorrowed_eq_false hn hs hi
  by_cases hold : s.afterAll.counter = 1
  · have hrun : (protocol n stage deferred).Run s (List.replicate 5 (.worker i)) _ :=
      .cons (.fetchSubLast i hi hold) <|
      .cons (.borrowToTake i (Function.update_self _ _ _) hfree) <|
      .cons (.take i (Function.update_self _ _ _)) <|
      .cons (.releaseTake i _ (Function.update_self _ _ _)) <|
      .cons (.bulkAdd i _ (Function.update_self _ _ _)) (.nil _)
    refine ⟨List.replicate 5 (.worker i), fun l => List.eq_of_mem_replicate, ?_⟩
    simpa [State.countDown, State.goto, AfterAll.countDown, AfterAll.fetchSub,
      AfterAll.takePackets, hold, hfree] using hrun
  · have hrun : (protocol n stage deferred).Run s [.worker i] _ :=
      .cons (.fetchSub i hi hold) (.nil _)
    refine ⟨[.worker i], fun l => List.mem_singleton.mp, ?_⟩
    simpa [State.countDown, State.goto, AfterAll.countDown, AfterAll.fetchSub, hold] using hrun

/-! ### Every schedule -/

/-- Whatever a thread does next, all packets finish, and the deferred ones are handed over. A run
that has nobody to go on is over. A packet that is about to count down can make the whole call. -/
structure Completes (stage : WorkBucketStage) (deferred : List P) (s : State n P) : Prop where
  inevitable : Inevitable (fun s t => ∃ l, (protocol n stage deferred).step s l t)
    (fun t => AllFinished t ∧ t.handedOver = [(stage, deferred)]) s
  stuck : (∀ l t, ¬ (protocol n stage deferred).step s l t) →
    AllFinished s ∧ s.handedOver = [(stage, deferred)]
  countDown : ∀ i, s.pc i = .updated → ∃ ls, (∀ l ∈ ls, l = .worker i) ∧
    (protocol n stage deferred).Run s ls (s.countDown i)

/-- The deferred packets of a table are handed over in every schedule, from wherever it has come
to. -/
theorem completes_of_reachable (hpos : 1 ≤ n) (hn : n < usizeSize) {s : State n P}
    (hs : (protocol n stage deferred).Reachable s) : Completes stage deferred s := by
  have hfinish : Inevitable (fun s t => ∃ l, (protocol n stage deferred).step s l t)
      AllFinished s :=
    .of_rank State.rank (fun {s t} hs _ ⟨l, hstep⟩ => ⟨hs.step hstep, rank_lt_of_step hn hs hstep⟩)
      (fun hs hnot => by
        obtain ⟨l, t, hstep⟩ := exists_step hs hnot
        exact ⟨t, l, hstep⟩) hs
  have hcomes : Inevitable (fun s t => ∃ l, (protocol n stage deferred).step s l t)
      (fun t => AllFinished t ∧ t.handedOver = [(stage, deferred)]) s :=
    (hfinish.and_of_invariant hs fun ht ⟨l, hstep⟩ => ht.step hstep).mono
      fun t ⟨hall, ht⟩ => ⟨hall, handedOver_of_allFinished hpos hn ht hall⟩
  exact ⟨hcomes, fun hstuck => hcomes.of_stuck fun t ⟨l, hstep⟩ => hstuck l t hstep,
    fun i => run_countDown hn hs⟩

/-- Three packets, from the start. -/
theorem completes_three :
    (protocol 3 .vmRefClosure [7]).Reachable (State.start .vmRefClosure) ∧
      Completes .vmRefClosure [7] (State.start .vmRefClosure : State 3 ℕ) :=
  ⟨.init rfl, completes_of_reachable (by decide) (by decide) (.init rfl)⟩

end AfterAll

end MmtkRuby
