import Mathlib.Order.WellFounded
import Mathlib.Tactic.Common

/-!
# What a system comes to

Threads that take their steps in any order come to a goal when no schedule can avoid it: the system
does not get stuck before the goal, and does not go on forever without it. No thread is assumed to
be treated fairly; a rank that every step lowers is enough.
-/

namespace Core

variable {State : Type*} {r : State → State → Prop} {goal : State → Prop} {s : State}

/-- Whichever steps are taken from the state, the goal is reached. -/
inductive Inevitable (r : State → State → Prop) (goal : State → Prop) : State → Prop where
  | now {s : State} (h : goal s) : Inevitable r goal s
  | later {s : State} (henabled : ∃ t, r s t) (h : ∀ t, r s t → Inevitable r goal t) :
      Inevitable r goal s

namespace Inevitable

/-- Every step before the goal lowers a rank, and there always is one. -/
theorem of_rank {R : Type*} [LT R] [WellFoundedLT R] {I : State → Prop} (rank : State → R)
    (hstep : ∀ {s t}, I s → ¬ goal s → r s t → I t ∧ rank t < rank s)
    (henabled : ∀ {s}, I s → ¬ goal s → ∃ t, r s t) (hs : I s) : Inevitable r goal s := by
  have hind : ∀ x s, rank s = x → I s → Inevitable r goal s := by
    intro x
    induction x using WellFoundedLT.induction with
    | ind x ih =>
      rintro s rfl hs
      by_cases hgoal : goal s
      · exact .now hgoal
      · refine .later (henabled hs hgoal) fun t ht => ?_
        obtain ⟨hinv, hlt⟩ := hstep hs hgoal ht
        exact ih _ hlt t rfl hinv
  exact hind _ s rfl hs

/-- A goal that implies another one. -/
lemma mono {goal' : State → Prop} (h : Inevitable r goal s) (himp : ∀ t, goal t → goal' t) :
    Inevitable r goal' s := by
  induction h with
  | now h => exact .now (himp _ h)
  | later henabled _ ih => exact .later henabled ih

/-- What holds along all steps holds at the goal. -/
lemma and_of_invariant {I : State → Prop} (h : Inevitable r goal s) (hs : I s)
    (hstep : ∀ {s t}, I s → r s t → I t) : Inevitable r (fun t => goal t ∧ I t) s := by
  induction h with
  | now h => exact .now ⟨h, hs⟩
  | later henabled _ ih => exact .later henabled fun t ht => ih t ht (hstep hs ht)

/-- Some schedule reaches the goal. -/
lemma exists_goal (h : Inevitable r goal s) : ∃ t, goal t := by
  induction h with
  | now h => exact ⟨_, h⟩
  | later henabled _ ih =>
    obtain ⟨t, ht⟩ := henabled
    exact ih t ht

/-- Where nothing more can happen, the goal has been reached. -/
lemma of_stuck (h : Inevitable r goal s) (hstuck : ∀ t, ¬ r s t) : goal s := by
  cases h with
  | now h => exact h
  | later henabled _ =>
    obtain ⟨t, ht⟩ := henabled
    exact absurd ht (hstuck t)

end Inevitable

end Core
