import MmtkRuby.Core.TransitionSystem
import MmtkRuby.Utils.AfterAll

/-!
# The two passes over a weak table, step by step

The thread that runs `process_weak_table_chunked` counts up, adds the deferred packets and then
pushes `n` entries packets to their bucket, one at a time. A worker may start a packet as soon as
it is pushed. Each atomic instruction and each critical section is a step of its own, and the
steps of all threads interleave freely.
-/

namespace MmtkRuby

open Core

namespace AfterAll

/-- Where the thread that schedules the packets stands. -/
inductive SetupPc where
  /-- about to call `count_up` -/
  | counting
  /-- about to borrow the cell in `add_packets` -/
  | adding
  /-- holds the borrow, about to append -/
  | appending
  /-- has appended, still holds the borrow -/
  | releasing
  /-- in `bulk_add`, with this many entries packets pushed -/
  | scheduling (pushed : ℕ)
deriving DecidableEq, Repr

/-- Where the execution of an entries packet stands. -/
inductive EntriesPc (P : Type*) where
  /-- not in the bucket yet -/
  | waiting
  | queued
  /-- in `st_update_entries_range` -/
  | updating
  /-- `st_update_entries_range` has returned, about to `fetch_sub` -/
  | updated
  /-- `fetch_sub` found 1, about to borrow the cell -/
  | last
  /-- holds the borrow, about to take the packets -/
  | borrowed
  /-- has taken the packets, still holds the borrow -/
  | took (packets : List P)
  /-- about to `bulk_add` the packets it took -/
  | handing (packets : List P)
  /-- `count_down` has returned this value -/
  | finished (isLast : Bool)
deriving DecidableEq, Repr

namespace SetupPc

def pushed : SetupPc → ℕ
  | .counting | .adding | .appending | .releasing => 0
  | .scheduling k => k

def holds : SetupPc → Bool
  | .appending | .releasing => true
  | .counting | .adding | .scheduling _ => false

def appended : SetupPc → Bool
  | .counting | .adding | .appending => false
  | .releasing | .scheduling _ => true

end SetupPc

namespace EntriesPc

variable {P : Type*}

/-- The entries pass of this packet is over. -/
def returned : EntriesPc P → Bool
  | .waiting | .queued | .updating => false
  | .updated | .last | .borrowed | .took _ | .handing _ | .finished _ => true

def holds : EntriesPc P → Bool
  | .borrowed | .took _ => true
  | .waiting | .queued | .updating | .updated | .last | .handing _ | .finished _ => false

/-- The packet has not done its `fetch_sub`. -/
def pending : EntriesPc P → Bool
  | .waiting | .queued | .updating | .updated => true
  | .last | .borrowed | .took _ | .handing _ | .finished _ => false

/-- The packet's `fetch_sub` found 1. -/
def releasing : EntriesPc P → Bool
  | .last | .borrowed | .took _ | .handing _ | .finished true => true
  | .waiting | .queued | .updating | .updated | .finished false => false

/-- The packet has taken the deferred packets out of the cell. -/
def taken : EntriesPc P → Bool
  | .took _ | .handing _ | .finished true => true
  | .waiting | .queued | .updating | .updated | .last | .borrowed | .finished false => false

/-- The packet has handed the deferred packets to the bucket. -/
def handed : EntriesPc P → Bool
  | .finished true => true
  | .waiting | .queued | .updating | .updated | .last | .borrowed | .took _ | .handing _
  | .finished false => false

end EntriesPc

variable (n : ℕ) (P : Type*)

structure State where
  afterAll : AfterAll P
  /-- the flag of the `AtomicRefCell` -/
  isBorrowed : Bool
  setup : SetupPc
  pc : Fin n → EntriesPc P
  /-- the lists given to `bulk_add` by `count_down`, oldest first, each with its bucket -/
  handedOver : List (WorkBucketStage × List P)
  /-- some `borrow_mut` found the cell borrowed -/
  panicked : Bool

/-- Whose turn it is. -/
inductive Label where
  | setup
  | worker (i : Fin n)

variable {n P}

/-- Right after `AfterAll::new`. -/
def State.start (stage : WorkBucketStage) : State n P where
  afterAll := AfterAll.new stage
  isBorrowed := false
  setup := .counting
  pc := fun _ => .waiting
  handedOver := []
  panicked := false

/-- Execution of packet `i` moves on to `pc`. -/
def State.goto (s : State n P) (i : Fin n) (pc : EntriesPc P) : State n P :=
  { s with pc := Function.update s.pc i pc }

/-- The steps of the threads, for a given list of deferred packets. -/
inductive Step (deferred : List P) : State n P → Label n → State n P → Prop where
  | countUp {s : State n P} (hs : s.setup = .counting) :
      Step deferred s .setup { s with afterAll := s.afterAll.countUp n, setup := .adding }
  | borrowToAdd {s : State n P} (hs : s.setup = .adding) (hfree : s.isBorrowed = false) :
      Step deferred s .setup { s with isBorrowed := true, setup := .appending }
  | borrowToAddPanics {s : State n P} (hs : s.setup = .adding) (hheld : s.isBorrowed = true) :
      Step deferred s .setup { s with panicked := true }
  | addPackets {s : State n P} (hs : s.setup = .appending) :
      Step deferred s .setup
        { s with afterAll := s.afterAll.addPackets deferred, setup := .releasing }
  | releaseAdd {s : State n P} (hs : s.setup = .releasing) :
      Step deferred s .setup { s with isBorrowed := false, setup := .scheduling 0 }
  | push {s : State n P} (i : Fin n) (hs : s.setup = .scheduling i) :
      Step deferred s .setup { s.goto i .queued with setup := .scheduling (i + 1) }
  | poll {s : State n P} (i : Fin n) (hi : s.pc i = .queued) :
      Step deferred s (.worker i) (s.goto i .updating)
  | updateReturns {s : State n P} (i : Fin n) (hi : s.pc i = .updating) :
      Step deferred s (.worker i) (s.goto i .updated)
  | fetchSubLast {s : State n P} (i : Fin n) (hi : s.pc i = .updated)
      (hold : s.afterAll.fetchSub.1 = 1) :
      Step deferred s (.worker i) { s.goto i .last with afterAll := s.afterAll.fetchSub.2 }
  | fetchSub {s : State n P} (i : Fin n) (hi : s.pc i = .updated)
      (hold : s.afterAll.fetchSub.1 ≠ 1) :
      Step deferred s (.worker i)
        { s.goto i (.finished false) with afterAll := s.afterAll.fetchSub.2 }
  | borrowToTake {s : State n P} (i : Fin n) (hi : s.pc i = .last)
      (hfree : s.isBorrowed = false) :
      Step deferred s (.worker i) { s.goto i .borrowed with isBorrowed := true }
  | borrowToTakePanics {s : State n P} (i : Fin n) (hi : s.pc i = .last)
      (hheld : s.isBorrowed = true) :
      Step deferred s (.worker i) { s with panicked := true }
  | take {s : State n P} (i : Fin n) (hi : s.pc i = .borrowed) :
      Step deferred s (.worker i)
        { s.goto i (.took s.afterAll.takePackets.1) with afterAll := s.afterAll.takePackets.2 }
  | releaseTake {s : State n P} (i : Fin n) (packets : List P)
      (hi : s.pc i = .took packets) :
      Step deferred s (.worker i) { s.goto i (.handing packets) with isBorrowed := false }
  | bulkAdd {s : State n P} (i : Fin n) (packets : List P)
      (hi : s.pc i = .handing packets) :
      Step deferred s (.worker i)
        { s.goto i (.finished true) with
          handedOver := s.handedOver ++ [(s.afterAll.stage, packets)] }

/-- The protocol of one table with `n` entries packets, and with the given packets deferred to the
bucket of `stage`. -/
def protocol (n : ℕ) (stage : WorkBucketStage) (deferred : List P) :
    TransitionSystem (State n P) (Label n) where
  init s := s = State.start stage
  step := Step deferred

end AfterAll

end MmtkRuby
