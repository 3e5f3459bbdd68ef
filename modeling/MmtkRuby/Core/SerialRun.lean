import Mathlib.Data.Multiset.AddSub
import MmtkRuby.Core.WorkPool

/-!
# One worker instead of many

A single worker that keeps its packets in a list, and executes those that a packet releases before
the rest of the list, empties a pool in a serial run. When the packets commute, every parallel run
that empties the pool ends where the serial run ends.
-/

namespace Core

namespace WorkPool

variable {ι P : Type*} [DecidableEq ι] {S : ι → Type*} (W : WorkPool S P)

/-- A worker that executes the packets of a list in order, after each one those it releases. -/
inductive SerialRun : ((i : ι) → S i) → List P → ((i : ι) → S i) → Prop where
  | nil (s : (i : ι) → S i) : SerialRun s [] s
  | cons {s t : (i : ι) → S i} {i : ι} {p : P} {ps released : List P} {x : S i}
      (hexec : W.exec i p (s i) x (released : Multiset P))
      (hrun : SerialRun (Function.update s i x) (released ++ ps) t) : SerialRun s (p :: ps) t

variable {W} {s t u : (i : ι) → S i} {ps qs : List P}

namespace SerialRun

/-- A packet that releases nothing, and then the others. -/
lemma cons_zero {i : ι} {p : P} {x : S i} (hexec : W.exec i p (s i) x 0)
    (h : W.SerialRun (Function.update s i x) ps t) : W.SerialRun s (p :: ps) t := by
  have hexec' : W.exec i p (s i) x (([] : List P) : Multiset P) := hexec
  exact .cons hexec' h

/-- A packet that releases nothing. -/
lemma single {i : ι} {p : P} {x : S i} (hexec : W.exec i p (s i) x 0) :
    W.SerialRun s [p] (Function.update s i x) :=
  cons_zero hexec (.nil _)

/-- One list after the other. -/
lemma append (h : W.SerialRun s ps t) (h' : W.SerialRun t qs u) : W.SerialRun s (ps ++ qs) u := by
  induction h with
  | nil => exact h'
  | @cons s t i p ps released x hexec _ ih =>
    have hrest := ih h'
    rw [List.append_assoc] at hrest
    exact .cons hexec hrest

/-- A packet, and then what it releases. -/
lemma of_released (ps : List P) {i : ι} {p : P} {x : S i}
    (hexec : W.exec i p (s i) x (ps : Multiset P))
    (h : W.SerialRun (Function.update s i x) ps t) : W.SerialRun s [p] t := by
  refine .cons hexec ?_
  rwa [List.append_nil]

/-- A serial run is a run of the pool, whatever else waits there. -/
lemma run (h : W.SerialRun s ps t) (rest : Multiset P) :
    W.Run ⟨s, (ps : Multiset P) + rest⟩ ⟨t, rest⟩ := by
  induction h with
  | nil s =>
    rw [Multiset.coe_nil, zero_add]
    exact .refl
  | @cons s t i p ps released x hexec _ ih =>
    rw [← Multiset.coe_add, add_assoc] at ih
    have hstep : W.Step ⟨s, (p :: ps : List P) + rest⟩
        ⟨Function.update s i x, released + ((ps : Multiset P) + rest)⟩ :=
      .exec (Multiset.cons_add p (ps : Multiset P) rest) hexec
    exact .head hstep ih

end SerialRun

variable {I : PoolConfig S P → Prop} {c : PoolConfig S P}

/-- However a run has begun, it can be continued to the end of the serial run. -/
theorem Commutes.run_of_serialRun (h : W.Commutes I) (hI : I ⟨s, ps⟩) (hserial : W.SerialRun s ps t)
    (hc : W.Run ⟨s, ps⟩ c) : W.Run c ⟨t, 0⟩ := by
  have hrun := hserial.run 0
  rw [add_zero] at hrun
  exact h.run_of_finished hI hrun rfl hc

/-- Every run that empties the pool ends in the state in which the serial run ends. -/
theorem Commutes.state_eq_of_serialRun (h : W.Commutes I) (hI : I ⟨s, ps⟩)
    (hserial : W.SerialRun s ps t) (hc : W.Run ⟨s, ps⟩ c) (hfin : Finished c) : c.state = t := by
  have heq := hfin.eq_of_run (h.run_of_serialRun hI hserial hc)
  exact (congrArg PoolConfig.state heq).symm

end WorkPool

end Core
