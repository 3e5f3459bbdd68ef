import MmtkRuby.Basic

/-!
# `AfterAll`: packets that wait for others

`AfterAll` holds back a list of packets until a counter comes down to zero. Each operation is one
critical section or one atomic instruction of the source; how the operations of several threads
interleave is the subject of `MmtkRuby.Utils.AfterAll.Protocol`.
-/

namespace MmtkRuby

/-- The stages of a GC at which the binding adds work. -/
inductive WorkBucketStage where
  | prepare
  | vmRefClosure
deriving DecidableEq, Repr

structure AfterAll (P : Type*) where
  counter : ℕ
  stage : WorkBucketStage
  packets : List P
deriving DecidableEq, Repr

namespace AfterAll

variable {P : Type*}

def new (stage : WorkBucketStage) : AfterAll P := ⟨0, stage, []⟩

def addPackets (a : AfterAll P) (packets : List P) : AfterAll P :=
  { a with packets := a.packets ++ packets }

def countUp (a : AfterAll P) (n : ℕ) : AfterAll P :=
  { a with counter := wrappingAdd a.counter n }

/-- The `fetch_sub` of `count_down`, with the value it found. -/
def fetchSub (a : AfterAll P) : ℕ × AfterAll P :=
  (a.counter, { a with counter := wrappingSub a.counter 1 })

/-- The `std::mem::take` of `count_down`. -/
def takePackets (a : AfterAll P) : List P × AfterAll P :=
  (a.packets, { a with packets := [] })

/-- `count_down`: its result, the packets it adds to the bucket of `stage` (none unless this was
the last call), and what is left. -/
def countDown (a : AfterAll P) : Bool × List P × AfterAll P :=
  let (old, a) := a.fetchSub
  if old = 1 then
    let (packets, a) := a.takePackets
    (true, packets, a)
  else (false, [], a)

end AfterAll

end MmtkRuby
