import MmtkRuby.Core.Locks
import MmtkRuby.Core.TransitionSystem

/-!
# The locks of the binding during a GC

Mutators wait for the locks of the binding. During a GC, when no mutator is in the binding, most
critical sections only try their lock and panic when it is held. Taking and releasing a lock are
separate steps here, of any number of mutators and workers.
-/

namespace MmtkRuby

open Core

namespace GcLocks

/-- The mutexes that are tried during a GC. -/
inductive LockName where
  | objFreeCandidates
  | movedGivtbl
  | ppps
  | pinnedPppChildren
  | wbUnprotectedObjects
deriving DecidableEq, Repr

open Script

/-! ### What takes which lock -/

/-- The functions of the binding that take such a lock on behalf of a mutator. -/
inductive MutatorCall where
  | addObjFreeCandidate
  | addObjFreeCandidates
  | getAllObjFreeCandidates
  | register
  | registerMany
  | registerWbUnprotectedObject
  | isObjectWbUnprotected
deriving DecidableEq, Repr

def MutatorCall.lockName : MutatorCall → LockName
  | .addObjFreeCandidate | .addObjFreeCandidates | .getAllObjFreeCandidates => .objFreeCandidates
  | .register | .registerMany => .ppps
  | .registerWbUnprotectedObject | .isObjectWbUnprotected => .wbUnprotectedObjects

def MutatorCall.script (c : MutatorCall) : Script LockName := withLock c.lockName .done

/-- `RubyObjectAccess::get_givtbl`, which looks into `moved_givtbl` when `generic_iv_tbl_` has no
entry. -/
def getGivtbl (isOriginal : Bool) (next : Script LockName) : Script LockName :=
  if isOriginal then next else withLock .movedGivtbl next

/-- C code that marks, and calls `get_givtbl` for some objects. -/
def marking (lookups : List Bool) (next : Script LockName) : Script LockName :=
  lookups.foldr getGivtbl next

/-- `VMObjectModel::copy`, of an object with `FL_EXIVAR` or of one without. -/
def copy (hasExivarFlag : Bool) : Script LockName :=
  if hasExivarFlag then withLock .movedGivtbl .done else .done

/-- `PinPPPChildren::do_work`. -/
def pinPPPChildrenPacket (lookups : List Bool) : Script LockName :=
  marking lookups (withLock .pinnedPppChildren .done)

/-- `PPPRegistry::pin_ppp_children`, which adds the packets while it holds the lock. -/
def pinPppChildren (currentGcMayMoveObject : Bool) (packets : List (List Bool)) : Script LockName :=
  if !currentGcMayMoveObject then .done
  else .tryLock .ppps (spawnAll (packets.map pinPPPChildrenPacket) (.unlock .ppps .done))

/-- `VMScanning::scan_vm_specific_roots`: the packets of the root scanners, and in a nursery GC
those of the remembered set. -/
def scanVmSpecificRoots (isNurseryGc : Bool) (rootPackets wbPackets : List (List Bool)) :
    Script LockName :=
  spawnAll (rootPackets.map (marking · .done))
    (if !isNurseryGc then .done
    else withTryLock .wbUnprotectedObjects (spawnAll (wbPackets.map (marking · .done)) .done))

def processObjFreeCandidates : Script LockName := withTryLock .objFreeCandidates .done

def updateGenericIvTbl : Script LockName := withTryLock .movedGivtbl .done

def updateWbUnprotectedObjectsList : Script LockName := withTryLock .wbUnprotectedObjects .done

def removeDeadPPPs : Script LockName := withTryLock .ppps .done

/-- `UpdateFinalizerAndObjIdTables`, `UpdateOverloadedCmeTable`, `UpdateCiTable`,
`UpdateTableBinsParallel` and `UnpinPPPChildren` take none of the locks. -/
def lockFreePacket : Script LockName := .done

/-- `UpdateTableEntriesParallel::do_work`, which adds the bins packets if it is the last one. -/
def updateTableEntriesParallel (binsPackets : ℕ) : Script LockName :=
  spawnAll (List.replicate binsPackets lockFreePacket) .done

/-- `PPPRegistry::cleanup_ppps`, in a release or in a debug build. -/
def cleanupPpps (isDebug currentGcMayMoveObject : Bool) : Script LockName :=
  .spawn removeDeadPPPs
    (if currentGcMayMoveObject then
      withTryLock .pinnedPppChildren (.spawn lockFreePacket .done)
    else if isDebug then withTryLock .pinnedPppChildren .done
    else .done)

/-- `VMScanning::process_weak_refs`. The entries packets are those of both chunked tables. -/
def processWeakRefs (isDebug currentGcMayMoveObject : Bool) (entriesPackets : List ℕ) :
    Script LockName :=
  .spawn processObjFreeCandidates
    (spawnAll [updateGenericIvTbl, lockFreePacket, lockFreePacket, lockFreePacket,
        updateWbUnprotectedObjectsList]
      (spawnAll (entriesPackets.map updateTableEntriesParallel)
        (cleanupPpps isDebug currentGcMayMoveObject)))

/-! ### The phases of a GC -/

inductive Phase where
  /-- the mutators run -/
  | mutators
  /-- `stop_the_world` has returned, and `stop_all_mutators` goes on -/
  | stopped
  /-- the `Prepare` stage is open -/
  | prepare
  /-- the stages of the transitive closure are open -/
  | closure
  /-- the `VMRefClosure` stage is open -/
  | vmRefClosure
deriving DecidableEq, Repr

structure State where
  phase : Phase
  pool : Pool LockName

/-- Everything that was begun in the earlier stages has finished. -/
def State.Drained (s : State) : Prop := s.pool.running = 0 ∧ s.pool.queued = 0

/-- A mutator calls the binding, the GC goes on to its next phase, or some thread does its next
step. `stop_the_world` returns when no mutator is in the binding, and a stage opens when the stages
before it are drained. -/
inductive Step : State → State → Prop where
  | mutatorCall {s : State} (c : MutatorCall) (hphase : s.phase = .mutators) :
      Step s { s with pool := s.pool.add c.script }
  | stopTheWorld {s : State} (currentGcMayMoveObject : Bool) (packets : List (List Bool))
      (hphase : s.phase = .mutators) (hidle : s.Drained) :
      Step s ⟨.stopped, s.pool.add (pinPppChildren currentGcMayMoveObject packets)⟩
  | openPrepare {s : State} (isNurseryGc : Bool) (rootPackets wbPackets : List (List Bool))
      (hphase : s.phase = .stopped) (hidle : s.pool.running = 0) :
      Step s ⟨.prepare, s.pool.add (scanVmSpecificRoots isNurseryGc rootPackets wbPackets)⟩
  | openClosure {s : State} (hphase : s.phase = .prepare) (hidle : s.Drained) :
      Step s { s with phase := .closure }
  | copy {s : State} (hasExivarFlag : Bool) (hphase : s.phase = .closure) :
      Step s { s with pool := s.pool.add (copy hasExivarFlag) }
  | getGivtbl {s : State} (isOriginal : Bool)
      (hphase : s.phase = .prepare ∨ s.phase = .closure) :
      Step s { s with pool := s.pool.add (getGivtbl isOriginal .done) }
  | openVMRefClosure {s : State} (isDebug currentGcMayMoveObject : Bool) (entriesPackets : List ℕ)
      (hphase : s.phase = .closure) (hidle : s.Drained) :
      Step s ⟨.vmRefClosure,
        s.pool.add (processWeakRefs isDebug currentGcMayMoveObject entriesPackets)⟩
  | resumeMutators {s : State} (hphase : s.phase = .vmRefClosure) (hidle : s.Drained) :
      Step s { s with phase := .mutators }
  | startPacket {s : State} {pool : Pool LockName} (hphase : s.phase ≠ .stopped)
      (hstart : s.pool.Start pool) : Step s { s with pool := pool }
  | run {s : State} {pool : Pool LockName} (hstep : s.pool.Step pool) :
      Step s { s with pool := pool }

/-- Runs from a state in which the mutators run and no lock is held. -/
def system : TransitionSystem State Unit where
  init s := s = ⟨.mutators, ⟨fun _ => false, 0, 0, false⟩⟩
  step s _ s' := Step s s'

/-! ### What the scripts do with the locks -/

lemma fresh_getGivtbl (isOriginal : Bool) {next : Script LockName} (h : next.Fresh) :
    (getGivtbl isOriginal next).Fresh := by
  cases isOriginal with
  | false => exact h.withLock
  | true => exact h

lemma fresh_marking (lookups : List Bool) {next : Script LockName} (h : next.Fresh) :
    (marking lookups next).Fresh := by
  induction lookups with
  | nil => exact h
  | cons isOriginal lookups ih => exact fresh_getGivtbl isOriginal ih

lemma tries_getGivtbl (l : LockName) (isOriginal : Bool) (next : Script LockName) :
    (getGivtbl isOriginal next).tries l = next.tries l := by
  cases isOriginal <;> rfl

/-- Marking waits for locks but never tries one. -/
lemma tries_marking (l : LockName) (lookups : List Bool) (next : Script LockName) :
    (marking lookups next).tries l = next.tries l := by
  induction lookups with
  | nil => rfl
  | cons isOriginal lookups ih => exact (tries_getGivtbl l isOriginal _).trans ih

/-- Marking uses `moved_givtbl` only. -/
lemma sections_marking {l : LockName} (hl : l ≠ .movedGivtbl) (lookups : List Bool)
    (next : Script LockName) : (marking lookups next).sections l = next.sections l := by
  induction lookups with
  | nil => rfl
  | cons isOriginal lookups ih =>
    cases isOriginal with
    | false =>
      have hne : (LockName.movedGivtbl == l) = false := beq_eq_false_iff_ne.mpr hl.symm
      refine Eq.trans ?_ ih
      simp [marking, getGivtbl, hne]
    | true => exact ih

lemma fresh_pinPppChildren (currentGcMayMoveObject : Bool) (packets : List (List Bool)) :
    (pinPppChildren currentGcMayMoveObject packets).Fresh := by
  cases currentGcMayMoveObject with
  | false => exact .done
  | true =>
    have hpackets : ∀ t ∈ packets.map pinPPPChildrenPacket, t.Fresh :=
      List.forall_mem_map.mpr fun lookups _ => fresh_marking lookups Fresh.done.withLock
    have hnext : (Script.unlock LockName.ppps .done).WellFormed := ⟨rfl, trivial⟩
    refine ⟨⟨?_, hnext.spawnAll hpackets⟩, fun l => ?_⟩
    · rw [holds_spawnAll]
      rfl
    · simp only [pinPppChildren, Bool.not_true, Bool.false_eq_true, if_false, holds, holds_spawnAll]
      cases l <;> rfl

/-- `pin_ppp_children` tries `ppps`, and its packets try nothing. -/
lemma tries_pinPppChildren {l : LockName} (hl : l ≠ .ppps) (currentGcMayMoveObject : Bool)
    (packets : List (List Bool)) :
    (pinPppChildren currentGcMayMoveObject packets).tries l = 0 := by
  cases currentGcMayMoveObject with
  | false => rfl
  | true =>
    have hne : (LockName.ppps == l) = false := beq_eq_false_iff_ne.mpr hl.symm
    have hpackets : ∀ t ∈ packets.map pinPPPChildrenPacket, t.tries l = 0 :=
      List.forall_mem_map.mpr fun lookups _ => tries_marking l lookups _
    simp [pinPppChildren, tries, hne, tries_spawnAll _ hpackets]

/-- `pin_ppp_children` uses `ppps` once, and its packets use other locks. -/
lemma sections_pinPppChildren {l : LockName} (hl : l = .ppps ∨ l = .wbUnprotectedObjects)
    (currentGcMayMoveObject : Bool) (packets : List (List Bool)) :
    (pinPppChildren currentGcMayMoveObject packets).sections l ≤ (LockName.ppps == l).toNat := by
  cases currentGcMayMoveObject with
  | false => exact Nat.zero_le _
  | true =>
    have hpackets : ∀ t ∈ packets.map pinPPPChildrenPacket, t.sections l = 0 := by
      refine List.forall_mem_map.mpr fun lookups _ => ?_
      rw [pinPPPChildrenPacket, sections_marking (by rcases hl with rfl | rfl <;> decide)]
      rcases hl with rfl | rfl <;> rfl
    simp [pinPppChildren, sections, sections_spawnAll _ hpackets]

lemma fresh_scanVmSpecificRoots (isNurseryGc : Bool) (rootPackets wbPackets : List (List Bool)) :
    (scanVmSpecificRoots isNurseryGc rootPackets wbPackets).Fresh := by
  have hpackets : ∀ packets : List (List Bool), ∀ t ∈ packets.map (marking · .done), t.Fresh :=
    fun _ => List.forall_mem_map.mpr fun lookups _ => fresh_marking lookups .done
  refine Fresh.spawnAll ?_ (hpackets rootPackets)
  cases isNurseryGc with
  | false => exact .done
  | true => exact (Fresh.done.spawnAll (hpackets wbPackets)).withTryLock

/-- `scan_vm_specific_roots` tries `wb_unprotected_objects`, and its packets try nothing. -/
lemma tries_scanVmSpecificRoots {l : LockName} (hl : l ≠ .wbUnprotectedObjects)
    (isNurseryGc : Bool) (rootPackets wbPackets : List (List Bool)) :
    (scanVmSpecificRoots isNurseryGc rootPackets wbPackets).tries l = 0 := by
  have hpackets : ∀ packets : List (List Bool), ∀ t ∈ packets.map (marking · .done),
      t.tries l = 0 :=
    fun _ => List.forall_mem_map.mpr fun lookups _ => tries_marking l lookups _
  have hne : (LockName.wbUnprotectedObjects == l) = false := beq_eq_false_iff_ne.mpr hl.symm
  rw [scanVmSpecificRoots, tries_spawnAll _ (hpackets rootPackets)]
  cases isNurseryGc with
  | false => rfl
  | true => simp [hne, tries_spawnAll _ (hpackets wbPackets), tries]

/-- `scan_vm_specific_roots` uses `wb_unprotected_objects` once, and its packets use other locks. -/
lemma sections_scanVmSpecificRoots {l : LockName} (hl : l ≠ .movedGivtbl) (isNurseryGc : Bool)
    (rootPackets wbPackets : List (List Bool)) :
    (scanVmSpecificRoots isNurseryGc rootPackets wbPackets).sections l ≤
      (LockName.wbUnprotectedObjects == l).toNat := by
  have hpackets : ∀ packets : List (List Bool), ∀ t ∈ packets.map (marking · .done),
      t.sections l = 0 :=
    fun _ => List.forall_mem_map.mpr fun lookups _ => sections_marking hl lookups _
  rw [scanVmSpecificRoots, sections_spawnAll _ (hpackets rootPackets)]
  cases isNurseryGc with
  | false => exact Nat.zero_le _
  | true => simp [sections_spawnAll _ (hpackets wbPackets), sections]

lemma fresh_updateTableEntriesParallel (binsPackets : ℕ) :
    (updateTableEntriesParallel binsPackets).Fresh := by
  refine Fresh.done.spawnAll fun t ht => ?_
  rw [List.eq_of_mem_replicate ht]
  exact .done

lemma sections_updateTableEntriesParallel (l : LockName) (binsPackets : ℕ) :
    (updateTableEntriesParallel binsPackets).sections l = 0 := by
  refine sections_spawnAll _ fun t ht => ?_
  rw [List.eq_of_mem_replicate ht]
  rfl

lemma fresh_processWeakRefs (isDebug currentGcMayMoveObject : Bool) (entriesPackets : List ℕ) :
    (processWeakRefs isDebug currentGcMayMoveObject entriesPackets).Fresh := by
  have hcleanup : (cleanupPpps isDebug currentGcMayMoveObject).Fresh := by
    refine Fresh.spawn Fresh.done.withTryLock ?_
    cases currentGcMayMoveObject with
    | true => exact (Fresh.spawn .done .done).withTryLock
    | false =>
      cases isDebug with
      | true => exact Fresh.done.withTryLock
      | false => exact .done
  refine Fresh.spawn Fresh.done.withTryLock (Fresh.spawnAll (hcleanup.spawnAll ?_) ?_)
  · exact List.forall_mem_map.mpr fun binsPackets _ => fresh_updateTableEntriesParallel binsPackets
  · intro t ht
    simp only [List.mem_cons, List.not_mem_nil, or_false] at ht
    rcases ht with rfl | rfl | rfl | rfl | rfl
    · exact Fresh.done.withTryLock
    · exact .done
    · exact .done
    · exact .done
    · exact Fresh.done.withTryLock

/-- `process_weak_refs` and all of its packets use each lock at most once. -/
lemma sections_processWeakRefs (l : LockName) (isDebug currentGcMayMoveObject : Bool)
    (entriesPackets : List ℕ) :
    (processWeakRefs isDebug currentGcMayMoveObject entriesPackets).sections l ≤ 1 := by
  have hentries : ∀ t ∈ entriesPackets.map updateTableEntriesParallel, t.sections l = 0 :=
    List.forall_mem_map.mpr fun binsPackets _ => sections_updateTableEntriesParallel l binsPackets
  simp only [processWeakRefs, sections, spawnAll, List.foldr_cons, List.foldr_nil]
  have := sections_spawnAll (cleanupPpps isDebug currentGcMayMoveObject) hentries
  rw [spawnAll] at this
  rw [this]
  cases l <;> cases isDebug <;> cases currentGcMayMoveObject <;> decide

/-! ### Who may use which lock when -/

/-- In a phase in which a lock may be tried, how many critical sections of it there are at most. -/
def Phase.budget : Phase → LockName → Option ℕ
  | .stopped, .ppps => some 1
  | .stopped, .wbUnprotectedObjects => some 0
  | .prepare, .ppps => some 1
  | .prepare, .wbUnprotectedObjects => some 1
  | .vmRefClosure, _ => some 1
  | _, _ => none

/-- The threads and packets keep to the budget: no tries without one, and no more sections than
it has. -/
def Allowed (budget : Option ℕ) (l : LockName) (pool : Pool LockName) : Prop :=
  match budget with
  | none => pool.total (tries l) = 0
  | some n => pool.total (sections l) ≤ n

namespace Allowed

variable {budget : Option ℕ} {l : LockName} {pool pool' : Pool LockName}

lemma step (h : Allowed budget l pool) (hstep : pool.Step pool') : Allowed budget l pool' := by
  cases budget with
  | none => exact Nat.eq_zero_of_le_zero ((hstep.total_tries_le l).trans (le_of_eq h))
  | some n => exact (hstep.total_sections_le l).trans h

lemma start (h : Allowed budget l pool) (hstart : pool.Start pool') : Allowed budget l pool' := by
  cases budget with
  | none => exact (hstart.total_eq _).trans h
  | some n => exact (hstart.total_eq _).trans_le h

/-- Once everything has finished, every budget is kept. -/
lemma of_drained (hrunning : pool.running = 0) (hqueued : pool.queued = 0) :
    Allowed budget l pool := by
  have hzero : ∀ f : Script LockName → ℕ, pool.total f = 0 := by
    intro f
    simp [Pool.total, hrunning, hqueued]
  cases budget with
  | none => exact hzero _
  | some n => exact (hzero _).trans_le (Nat.zero_le n)

/-- A script without tries fits in where there are none. -/
lemma add_none (h : Allowed none l pool) {t : Script LockName} (ht : t.tries l = 0) :
    Allowed none l (pool.add t) :=
  (Pool.total_add _ _).trans (congrArg₂ (· + ·) ht h)

/-- A script uses up a part of a larger budget. -/
lemma add_some {n m : ℕ} (h : Allowed (some n) l pool) {t : Script LockName}
    (ht : t.sections l + n ≤ m) : Allowed (some m) l (pool.add t) :=
  (Pool.total_add _ _).trans_le ((Nat.add_le_add_left h _).trans ht)

end Allowed

lemma budget_le_one (phase : Phase) (l : LockName) : ∀ n ∈ phase.budget l, n ≤ 1 := by
  cases phase <;> cases l <;> simp [Phase.budget]

structure Inv (s : State) : Prop where
  consistent : s.pool.Consistent
  allowed : ∀ l, Allowed (s.phase.budget l) l s.pool

lemma Inv.guarded {s : State} (h : Inv s) (l : LockName) : s.pool.Guarded l := by
  have hallowed := h.allowed l
  have hle := budget_le_one s.phase l
  cases hbudget : s.phase.budget l with
  | none =>
    rw [hbudget] at hallowed
    exact Or.inl hallowed
  | some n =>
    rw [hbudget] at hallowed hle
    exact Or.inr (hallowed.trans (hle n rfl))

/-- Where there are no budgets, scripts without tries are added. -/
lemma Inv.add_of_no_tries {s : State} (h : Inv s) {t : Script LockName} (hfresh : t.Fresh)
    (htries : ∀ l, t.tries l = 0) (hphase : ∀ l, s.phase.budget l = none ∨ t.sections l = 0) :
    Inv { s with pool := s.pool.add t } := by
  refine ⟨h.consistent.add hfresh, fun l => ?_⟩
  have hallowed := h.allowed l
  cases hbudget : s.phase.budget l with
  | none =>
    rw [hbudget] at hallowed
    exact hallowed.add_none (htries l)
  | some n =>
    rw [hbudget] at hallowed
    have hsections : t.sections l = 0 := by
      have := hphase l
      rw [hbudget] at this
      simpa using this
    exact hallowed.add_some (by omega)

lemma invariant : system.IsInvariant Inv where
  init := by
    rintro s rfl
    refine ⟨⟨?_, ?_, ?_, rfl⟩, fun l => Allowed.of_drained rfl rfl⟩ <;> simp
  step := by
    intro s _ s' _ h hstep
    cases hstep with
    | mutatorCall c hphase =>
      refine h.add_of_no_tries Fresh.done.withLock (fun l => rfl) fun l => Or.inl ?_
      rw [hphase]
      cases l <;> rfl
    | stopTheWorld currentGcMayMoveObject packets hphase hidle =>
      refine ⟨h.consistent.add (fresh_pinPppChildren _ _), fun l => ?_⟩
      have hdrained : ∀ budget, Allowed budget l s.pool :=
        fun budget => Allowed.of_drained hidle.1 hidle.2
      cases l with
      | ppps =>
        have hsections := sections_pinPppChildren (Or.inl rfl) currentGcMayMoveObject packets
        exact (hdrained (some 0)).add_some hsections
      | wbUnprotectedObjects =>
        have hsections := sections_pinPppChildren (Or.inr rfl) currentGcMayMoveObject packets
        exact (hdrained (some 0)).add_some hsections
      | objFreeCandidates | movedGivtbl | pinnedPppChildren =>
        exact (hdrained none).add_none (tries_pinPppChildren (by decide) _ _)
    | openPrepare isNurseryGc rootPackets wbPackets hphase hidle =>
      refine ⟨h.consistent.add (fresh_scanVmSpecificRoots _ _ _), fun l => ?_⟩
      have hallowed := h.allowed l
      rw [hphase] at hallowed
      have hsections : l ≠ .movedGivtbl → _ :=
        fun hl => sections_scanVmSpecificRoots hl isNurseryGc rootPackets wbPackets
      cases l with
      | ppps => exact Allowed.add_some hallowed (Nat.add_le_add_right (hsections (by decide)) 1)
      | wbUnprotectedObjects => exact Allowed.add_some hallowed (hsections (by decide))
      | objFreeCandidates | movedGivtbl | pinnedPppChildren =>
        exact Allowed.add_none hallowed (tries_scanVmSpecificRoots (by decide) _ _ _)
    | openClosure hphase hidle =>
      exact ⟨h.consistent, fun l => Allowed.of_drained hidle.1 hidle.2⟩
    | copy hasExivarFlag hphase =>
      refine h.add_of_no_tries ?_ (fun l => ?_) fun l => Or.inl ?_
      · cases hasExivarFlag with
        | true => exact Fresh.done.withLock
        | false => exact .done
      · cases hasExivarFlag <;> rfl
      · rw [hphase]
        cases l <;> rfl
    | getGivtbl isOriginal hphase =>
      refine h.add_of_no_tries (fresh_getGivtbl isOriginal .done)
        (fun l => tries_getGivtbl l isOriginal _) fun l => ?_
      cases l with
      | movedGivtbl => rcases hphase with hphase | hphase <;> exact Or.inl (by rw [hphase]; rfl)
      | objFreeCandidates | ppps | pinnedPppChildren | wbUnprotectedObjects =>
        exact Or.inr (by cases isOriginal <;> rfl)
    | openVMRefClosure isDebug currentGcMayMoveObject entriesPackets hphase hidle =>
      refine ⟨h.consistent.add (fresh_processWeakRefs _ _ _), fun l => ?_⟩
      have hdrained : Allowed (some 0) l s.pool := Allowed.of_drained hidle.1 hidle.2
      exact hdrained.add_some (sections_processWeakRefs l _ _ _)
    | resumeMutators hphase hidle =>
      exact ⟨h.consistent, fun l => Allowed.of_drained hidle.1 hidle.2⟩
    | startPacket hphase hstart =>
      exact ⟨h.consistent.start hstart, fun l => (h.allowed l).start hstart⟩
    | run hstep =>
      exact ⟨h.consistent.step h.guarded hstep, fun l => (h.allowed l).step hstep⟩

/-- In every state of every run, a thread that is about to try a lock finds it free, and none has
panicked. -/
theorem tryLock_succeeds {s : State} (hs : system.Reachable s) :
    (∀ l next, .tryLock l next ∈ s.pool.running → s.pool.held l = false) ∧
      s.pool.panicked = false := by
  have h := invariant.of_reachable hs
  exact ⟨fun l next hmem => h.consistent.held_eq_false (h.guarded l) hmem,
    h.consistent.not_panicked⟩

/-- While `process_weak_refs` is still running, a worker is about to try `obj_free_candidates`. -/
theorem tryLock_succeeds_objFree : ∃ s : State, system.Reachable s ∧ s.phase = .vmRefClosure ∧
    processObjFreeCandidates ∈ s.pool.running ∧ s.pool.held .objFreeCandidates = false := by
  let rest : Script LockName := spawnAll [updateGenericIvTbl, lockFreePacket, lockFreePacket,
    lockFreePacket, updateWbUnprotectedObjectsList] (cleanupPpps false false)
  have h₀ : system.Reachable ⟨.mutators, ⟨fun _ => false, 0, 0, false⟩⟩ := .init rfl
  have h₁ := h₀.step (l := ()) (.stopTheWorld false [] rfl ⟨rfl, rfl⟩)
  have h₂ := h₁.step (l := ()) (.run .finish)
  have h₃ := h₂.step (l := ()) (.openPrepare false [] [] rfl rfl)
  have h₄ := h₃.step (l := ()) (.run .finish)
  have h₅ := h₄.step (l := ()) (.openClosure rfl ⟨rfl, rfl⟩)
  have h₆ := h₅.step (l := ()) (.openVMRefClosure false false [] rfl ⟨rfl, rfl⟩)
  have h₇ := h₆.step (l := ()) (.run (.spawn processObjFreeCandidates _))
  have h₈ : system.Reachable ⟨.vmRefClosure,
      ⟨fun _ => false, 0, processObjFreeCandidates ::ₘ rest ::ₘ 0, false⟩⟩ :=
    h₇.step (l := ()) (.startPacket (by decide) (.mk processObjFreeCandidates))
  have hmem := Multiset.mem_cons_self processObjFreeCandidates (rest ::ₘ 0)
  exact ⟨_, h₈, rfl, hmem, (tryLock_succeeds h₈).1 .objFreeCandidates _ hmem⟩

end GcLocks

end MmtkRuby
