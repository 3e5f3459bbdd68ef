import MmtkRuby.Core.Relocation

/-!
# Object references, and what mmtk-core knows about them during a GC
-/

namespace MmtkRuby

open Core

/-- `ObjectReference`: an address that is not zero. -/
structure ObjectReference where
  toRawAddress : ℕ
  ne_zero : toRawAddress ≠ 0
deriving DecidableEq, Repr

/-- The answers of mmtk-core about the objects of a heap that has been traced. -/
structure Traced where
  isReachable : ObjectReference → Bool
  isLive : ObjectReference → Bool
  getForwardedObject : ObjectReference → Option ObjectReference

/-- `Forwardable::forward`. -/
def ObjectReference.forward (traced : Traced) (object : ObjectReference) : ObjectReference :=
  (traced.getForwardedObject object).getD object

/-- The collection in which an object survives when it is reachable. -/
def Traced.collection (traced : Traced) : Collection ObjectReference where
  keeps := traced.isReachable
  forward := ObjectReference.forward traced

/-- The collection in which an object survives when it is live. -/
def Traced.liveCollection (traced : Traced) : Collection ObjectReference where
  keeps := traced.isLive
  forward := ObjectReference.forward traced

/-- Who acts: some mutator, or the collector, which acts while the mutators are stopped. -/
inductive Actor where
  | mutator
  | gc

end MmtkRuby
