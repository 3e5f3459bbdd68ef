import Mathlib.Logic.Function.Basic
import Mathlib.Algebra.BigOperators.Group.Finset.Basic
import Mathlib.Algebra.BigOperators.Group.Finset.Piecewise
import Mathlib.Algebra.Order.BigOperators.Group.Finset
import Mathlib.Data.Fintype.Basic
import Mathlib.Tactic.Common

/-!
# Labelled transition systems

A system is given by its start states and by what each label may do to a state. A property of
every run is proved by an invariant: it holds at the start and every step preserves it.

Threads are modelled by a program counter for each index of a finite type. How many of them
stand at a given place is a sum over that type, and a step moves one summand.
-/

namespace Core

/-- Start states, and the steps each label allows. -/
structure TransitionSystem (State Label : Type*) where
  init : State → Prop
  step : State → Label → State → Prop

namespace TransitionSystem

variable {State Label : Type*} (T : TransitionSystem State Label)

/-- The states that some run from a start state passes through. -/
inductive Reachable : State → Prop where
  | init {s : State} (h : T.init s) : Reachable s
  | step {s s' : State} {l : Label} (hs : Reachable s) (h : T.step s l s') : Reachable s'

/-- A run from one state to another, with the labels of its steps in order. -/
inductive Run : State → List Label → State → Prop where
  | nil (s : State) : Run s [] s
  | cons {s t u : State} {l : Label} {ls : List Label}
      (h : T.step s l t) (ht : Run t ls u) : Run s (l :: ls) u

/-- An invariant holds in the start states and is preserved by every step from a reachable state,
of which earlier invariants are known. -/
structure IsInvariant (I : State → Prop) : Prop where
  init : ∀ {s}, T.init s → I s
  step : ∀ {s l s'}, T.Reachable s → I s → T.step s l s' → I s'

variable {T}

/-- One run after the other. -/
lemma Run.append {s t u : State} {ls ls' : List Label} (h : T.Run s ls t) (h' : T.Run t ls' u) :
    T.Run s (ls ++ ls') u := by
  induction h with
  | nil => exact h'
  | cons hstep _ ih => exact .cons hstep (ih h')

/-- A loop of which every iteration is a step. -/
lemma Run.of_iterations {f : ℕ → State} {l : Label} {n : ℕ}
    (h : ∀ k < n, T.step (f k) l (f (k + 1))) : T.Run (f 0) (List.replicate n l) (f n) := by
  induction n with
  | zero => exact .nil _
  | succ n ih =>
    rw [List.replicate_succ']
    exact (ih fun k hk => h k (Nat.lt_succ_of_lt hk)).append
      (.cons (h n (Nat.lt_succ_self n)) (.nil _))

/-- What a run from a reachable state leads to is reachable. -/
lemma Reachable.run {s t : State} {ls : List Label} (hs : T.Reachable s) (h : T.Run s ls t) :
    T.Reachable t := by
  induction h with
  | nil => exact hs
  | cons hstep _ ih => exact ih (hs.step hstep)

/-- An invariant holds in every reachable state. -/
theorem IsInvariant.of_reachable {I : State → Prop} (hI : T.IsInvariant I) {s : State}
    (hs : T.Reachable s) : I s := by
  induction hs with
  | init h => exact hI.init h
  | step hs h ih => exact hI.step hs ih h

/-! ### Refinement -/

variable {State' Label' : Type*} {T' : TransitionSystem State' Label'}

variable (T T') in
/-- A view of the states of `T` in which a run of `T` is one of `T'`: a step of `T` is a step of
`T'`, or is not seen. -/
structure RefinementMapping (view : State → State') : Prop where
  init : ∀ {s}, T.init s → T'.init (view s)
  step : ∀ {s l s'}, T.Reachable s → T'.Reachable (view s) → T.step s l s' →
    view s' = view s ∨ ∃ l', T'.step (view s) l' (view s')

/-- What is seen of a reachable state is reachable. -/
theorem RefinementMapping.reachable {view : State → State'} (h : T.RefinementMapping T' view)
    {s : State} (hs : T.Reachable s) : T'.Reachable (view s) := by
  induction hs with
  | init hinit => exact .init (h.init hinit)
  | step hs hstep ih =>
    rcases h.step hs ih hstep with heq | ⟨l', hstep'⟩
    · rwa [heq]
    · exact ih.step hstep'

end TransitionSystem

/-! ### Counting threads -/

section Counting

variable {ι β : Type*} [Fintype ι]

/-- The number of threads at a place that satisfies `p`. -/
def countAt (p : β → Bool) (pc : ι → β) : ℕ := ∑ i, (p (pc i)).toNat

/-- A thread at `p` is counted. -/
lemma countAt_pos {p : β → Bool} {pc : ι → β} {i : ι} (h : p (pc i) = true) :
    0 < countAt p pc := by
  have hle : (p (pc i)).toNat ≤ countAt p pc :=
    Finset.single_le_sum (f := fun i => (p (pc i)).toNat) (fun _ _ => Nat.zero_le _)
      (Finset.mem_univ i)
  rw [h] at hle
  exact hle

/-- Nobody is at `p` exactly when the count is zero. -/
lemma countAt_eq_zero {p : β → Bool} {pc : ι → β} :
    countAt p pc = 0 ↔ ∀ i, p (pc i) = false := by
  simp [countAt, Finset.sum_eq_zero_iff]

/-- Threads that all stand at the same place are counted together or not at all. -/
lemma countAt_const (p : β → Bool) (b : β) :
    countAt p (fun _ : ι => b) = if p b then Fintype.card ι else 0 := by
  cases h : p b <;> simp [countAt, h]

/-- Two different threads at `p` are both counted. -/
lemma eq_of_countAt_le_one {p : β → Bool} {pc : ι → β} (h : countAt p pc ≤ 1) {i j : ι}
    (hi : p (pc i) = true) (hj : p (pc j) = true) : i = j := by
  classical
  by_contra hne
  have hle : ∑ k ∈ {i, j}, (p (pc k)).toNat ≤ countAt p pc :=
    Finset.sum_le_sum_of_subset (Finset.subset_univ _)
  rw [Finset.sum_pair hne, hi, hj] at hle
  exact absurd (hle.trans h) (by decide)

/-- Moving thread `i` to `b` changes only its own summand. -/
lemma countAt_update [DecidableEq ι] (p : β → Bool) (pc : ι → β) (i : ι) (b : β) :
    countAt p (Function.update pc i b) + (p (pc i)).toNat = countAt p pc + (p b).toNat := by
  have hcomp : (fun j => (p (Function.update pc i b j)).toNat)
      = Function.update (fun j => (p (pc j)).toNat) i (p b).toNat := by
    funext j
    by_cases hj : j = i
    · subst hj; simp
    · simp [hj]
  have hi := Finset.mem_univ i
  unfold countAt
  rw [hcomp, Finset.sum_update_of_mem hi,
    ← Finset.sum_sdiff (Finset.singleton_subset_iff.mpr hi), Finset.sum_singleton]
  omega

/-- Moving thread `i` between places that agree on `p` leaves some thread at `p`, or none. -/
lemma exists_update_iff {ι : Type*} [DecidableEq ι] {p : β → Bool} {pc : ι → β} {i : ι} {b : β}
    (h : p (pc i) = p b) :
    (∃ j, p (Function.update pc i b j) = true) ↔ ∃ j, p (pc j) = true := by
  refine exists_congr fun j => ?_
  by_cases hj : j = i
  · subst hj; simp [h]
  · simp [hj]

end Counting

end Core
