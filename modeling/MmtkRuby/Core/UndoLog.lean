import Mathlib.Data.Multiset.UnionInter
import Mathlib.Logic.Function.Basic
import Mathlib.Tactic.Common

/-!
# Bits that are set, logged and cleared again

Bits are set by operations that report whether they changed anything. If exactly the changes are
logged, then clearing the bits of the log, in any order, restores the bits as they were at the
start.
-/

namespace Core

variable {ι : Type*} [DecidableEq ι]

/-- Set the bit, and report whether it was clear. -/
def testAndSet (bits : ι → Bool) (i : ι) : Bool × (ι → Bool) :=
  (!bits i, Function.update bits i true)

/-- Clear the bit, and report whether it was set. -/
def testAndClear (bits : ι → Bool) (i : ι) : Bool × (ι → Bool) :=
  (bits i, Function.update bits i false)

/-- The log has, once each, the bits that were clear at the start and are set now. -/
structure UndoLog (start bits : ι → Bool) (log : Multiset ι) : Prop where
  nodup : log.Nodup
  mem_iff : ∀ i, i ∈ log ↔ start i = false ∧ bits i = true
  kept : ∀ i, start i = true → bits i = true

namespace UndoLog

variable {start bits : ι → Bool} {log : Multiset ι} {i : ι}

omit [DecidableEq ι] in
/-- The log is empty at the start. -/
lemma refl (bits : ι → Bool) : UndoLog bits bits 0 where
  nodup := Multiset.nodup_zero
  mem_iff i := by simp
  kept _ h := h

omit [DecidableEq ι] in
/-- With an empty log, the bits are as they were. -/
lemma eq_start (h : UndoLog start bits 0) : bits = start := by
  funext i
  cases hs : start i with
  | true => exact h.kept i hs
  | false =>
    by_contra hb
    rw [Bool.not_eq_false] at hb
    exact Multiset.notMem_zero i ((h.mem_iff i).mpr ⟨hs, hb⟩)

omit [DecidableEq ι] in
/-- What was set at the start is what is set without being logged. -/
lemma start_iff (h : UndoLog start bits log) : start i = true ↔ bits i = true ∧ i ∉ log := by
  rw [h.mem_iff, not_and, Bool.not_eq_true]
  constructor
  · exact fun hs => ⟨h.kept i hs, fun hclear => absurd hs (by simp [hclear])⟩
  · rintro ⟨hb, hnot⟩
    by_contra hs
    rw [Bool.not_eq_true] at hs
    simp [hnot hs] at hb

/-- An operation that reports a change is logged. -/
lemma set (h : UndoLog start bits log) (hi : (testAndSet bits i).1 = true) :
    UndoLog start (testAndSet bits i).2 ({i} + log) := by
  have hclear : bits i = false := by simpa [testAndSet] using hi
  have hnot : i ∉ log := by
    rw [h.mem_iff, hclear]
    simp
  refine ⟨?_, ?_, ?_⟩
  · rw [Multiset.singleton_add, Multiset.nodup_cons]
    exact ⟨hnot, h.nodup⟩
  · intro j
    rw [Multiset.mem_add, Multiset.mem_singleton, h.mem_iff, testAndSet]
    by_cases hj : j = i
    · subst hj
      have hstart : start j = false := by
        by_contra hs
        rw [Bool.not_eq_false] at hs
        rw [h.kept j hs] at hclear
        cases hclear
      simp [hstart]
    · simp [hj]
  · intro j hj
    rw [testAndSet]
    by_cases hji : j = i
    · simp [hji]
    · simpa [hji] using h.kept j hj

/-- An operation that reports no change needs no log. -/
lemma testAndSet_of_false (hi : (testAndSet bits i).1 = false) : (testAndSet bits i).2 = bits := by
  have hset : bits i = true := by simpa [testAndSet] using hi
  rw [testAndSet, ← hset, Function.update_eq_self]

/-- Clearing a logged bit changes it, and takes it off the log. -/
lemma clear (h : UndoLog start bits ({i} + log)) :
    (testAndClear bits i).1 = true ∧ UndoLog start (testAndClear bits i).2 log := by
  have hlogged := (h.mem_iff i).mp (Multiset.mem_add.mpr (Or.inl (Multiset.mem_singleton_self i)))
  have hnodup := h.nodup
  rw [Multiset.singleton_add, Multiset.nodup_cons] at hnodup
  refine ⟨hlogged.2, hnodup.2, ?_, ?_⟩
  · intro j
    rw [testAndClear]
    by_cases hj : j = i
    · subst hj
      simp [hnodup.1]
    · have hmem := h.mem_iff j
      rw [Multiset.mem_add, Multiset.mem_singleton] at hmem
      simpa [hj] using hmem
  · intro j hj
    rw [testAndClear]
    by_cases hji : j = i
    · rw [hji, hlogged.1] at hj
      cases hj
    · simpa [hji] using h.kept j hj

end UndoLog

end Core
