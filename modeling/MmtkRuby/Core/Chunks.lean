import Mathlib.Algebra.Order.Floor.Div
import Mathlib.Data.List.Basic
import Mathlib.Data.Nat.Init
import Mathlib.Tactic.Common

/-!
# Lists in chunks

A list is cut into chunks of `n` elements, of which the last may be shorter but is not empty. It
may be cut at once, or by a collector that is given the elements one by one and closes a chunk as
soon as it is full: the chunks are the same.
-/

namespace Core

variable {α : Type*} {n : ℕ}

/-- Chunks of `n` elements, in order, and the rest. -/
def chunks (n : ℕ) (l : List α) : List (List α) :=
  if _h : 0 < n ∧ l ≠ [] then l.take n :: chunks n (l.drop n) else []
termination_by l.length
decreasing_by
  have := List.length_pos_of_ne_nil _h.2
  rw [List.length_drop]
  omega

lemma chunks_nil : chunks n ([] : List α) = [] := by
  rw [chunks]
  simp

lemma chunks_of_ne_nil (hn : 0 < n) {l : List α} (hl : l ≠ []) :
    chunks n l = l.take n :: chunks n (l.drop n) := by
  rw [chunks, dif_pos ⟨hn, hl⟩]

/-- A list of at most `n` elements is its only chunk. -/
lemma chunks_of_length_le {l : List α} (hn : 0 < n) (hl : l ≠ []) (hle : l.length ≤ n) :
    chunks n l = [l] := by
  rw [chunks_of_ne_nil hn hl, List.take_of_length_le hle, List.drop_of_length_le hle, chunks_nil]

lemma chunks_append {c : List α} (hn : 0 < n) (hc : c.length = n) (l : List α) :
    chunks n (c ++ l) = c :: chunks n l := by
  have hne : c ++ l ≠ [] := by
    apply List.append_ne_nil_of_left_ne_nil
    rintro rfl
    simp at hc
    omega
  rw [chunks_of_ne_nil hn hne, ← hc, List.take_left, List.drop_left]

/-- Induction along the cut: nothing is left, or a chunk is taken off. -/
theorem chunks_induction (hn : 0 < n) {motive : List α → List (List α) → Prop}
    (nil : motive [] [])
    (cons : ∀ l, l ≠ [] → motive (l.drop n) (chunks n (l.drop n)) →
      motive l (l.take n :: chunks n (l.drop n)))
    (l : List α) : motive l (chunks n l) := by
  induction hlen : l.length using Nat.strong_induction_on generalizing l with
  | _ k ih =>
    by_cases hl : l = []
    · rw [hl, chunks_nil]
      exact nil
    · rw [chunks_of_ne_nil hn hl]
      apply cons l hl
      have := List.length_pos_of_ne_nil hl
      exact ih (l.drop n).length (by rw [List.length_drop]; omega) (l.drop n) rfl

/-- The chunks, one after the other, are the list. -/
theorem flatten_chunks (hn : 0 < n) (l : List α) : (chunks n l).flatten = l := by
  refine chunks_induction (motive := fun l cs => cs.flatten = l) hn rfl ?_ l
  intro l _ ih
  rw [List.flatten_cons, ih, List.take_append_drop]

theorem length_of_mem_chunks (hn : 0 < n) {l c : List α} (hc : c ∈ chunks n l) :
    1 ≤ c.length ∧ c.length ≤ n := by
  revert hc
  refine chunks_induction (motive := fun _ cs => c ∈ cs → 1 ≤ c.length ∧ c.length ≤ n) hn ?_ ?_ l
  · intro hc
    cases hc
  · intro l hl ih hc
    rcases List.mem_cons.mp hc with rfl | hc
    · have := List.length_pos_of_ne_nil hl
      rw [List.length_take]
      omega
    · exact ih hc

/-- There are as many chunks as it takes. -/
theorem length_chunks (hn : 0 < n) (l : List α) : (chunks n l).length = l.length ⌈/⌉ n := by
  rw [Nat.ceilDiv_eq_add_pred_div]
  refine chunks_induction (motive := fun l cs => cs.length = (l.length + n - 1) / n) hn ?_ ?_ l
  · exact (Nat.div_eq_of_lt (by rw [List.length_nil]; omega)).symm
  · intro l hl ih
    have hpos := List.length_pos_of_ne_nil hl
    rw [List.length_cons, ih, List.length_drop]
    by_cases hle : n ≤ l.length
    · rw [show l.length + n - 1 = (l.length - n + n - 1) + n by omega, Nat.add_div_right _ hn]
    · rw [Nat.div_eq_of_lt (show l.length - n + n - 1 < n by omega),
        show l.length + n - 1 = (l.length - 1) + n by omega, Nat.add_div_right _ hn,
        Nat.div_eq_of_lt (show l.length - 1 < n by omega)]

/-- A chunk that is followed by another is full. -/
lemma length_of_mem_dropLast_chunks (hn : 0 < n) {l c : List α}
    (hc : c ∈ (chunks n l).dropLast) : c.length = n := by
  revert hc
  refine chunks_induction (motive := fun _ cs => c ∈ cs.dropLast → c.length = n) hn ?_ ?_ l
  · intro hc
    cases hc
  · intro l hl ih hc
    by_cases hrest : l.drop n = []
    · rw [hrest, chunks_nil] at hc
      cases hc
    · have hne : chunks n (l.drop n) ≠ [] := by
        rw [chunks_of_ne_nil hn hrest]
        exact List.cons_ne_nil _ _
      rw [List.dropLast_cons_of_ne_nil hne] at hc
      rcases List.mem_cons.mp hc with rfl | hc
      · have hlt : n < l.length := Nat.lt_of_not_le (mt List.drop_eq_nil_of_le hrest)
        rw [List.length_take]
        exact Nat.min_eq_left (Nat.le_of_lt hlt)
      · exact ih hc

/-- The lists `cs` are the list `l`, cut in order, with full chunks before the last. -/
structure IsChunking (n : ℕ) (l : List α) (cs : List (List α)) : Prop where
  flatten : cs.flatten = l
  nonempty : ∀ c ∈ cs, c ≠ []
  full : ∀ c ∈ cs.dropLast, c.length = n
  last : ∀ c ∈ cs.getLast?, 1 ≤ c.length ∧ c.length ≤ n
  count : cs.length = l.length ⌈/⌉ n

theorem isChunking_chunks (hn : 0 < n) (l : List α) : IsChunking n l (chunks n l) where
  flatten := flatten_chunks hn l
  nonempty c hc := by
    rintro rfl
    exact Nat.not_succ_le_zero 0 (length_of_mem_chunks hn hc).1
  full _ hc := length_of_mem_dropLast_chunks hn hc
  last _ hc := length_of_mem_chunks hn (List.mem_of_getLast? hc)
  count := length_chunks hn l

/-! ### Collecting one by one -/

/-- The closed chunks, and the elements since. -/
structure Chunker (α : Type*) where
  closed : List (List α)
  pending : List α

namespace Chunker

def empty : Chunker α := ⟨[], []⟩

/-- Add an element, and close the chunk if it is full. -/
def add (n : ℕ) (s : Chunker α) (x : α) : Chunker α :=
  if n ≤ (s.pending ++ [x]).length then ⟨s.closed ++ [s.pending ++ [x]], []⟩
  else ⟨s.closed, s.pending ++ [x]⟩

/-- Close the last chunk, if it is not empty. -/
def finish (s : Chunker α) : List (List α) :=
  if s.pending = [] then s.closed else s.closed ++ [s.pending]

lemma length_pending_add (hn : 0 < n) (s : Chunker α) (x : α) : (s.add n x).pending.length < n := by
  unfold add
  split_ifs with hfull
  · exact hn
  · exact Nat.not_le.mp hfull

lemma finish_foldl_add (hn : 0 < n) {s : Chunker α} (hs : s.pending.length < n) (l : List α) :
    (l.foldl (add n) s).finish = s.closed ++ chunks n (s.pending ++ l) := by
  induction l generalizing s with
  | nil =>
    rw [List.foldl_nil, List.append_nil, finish]
    split_ifs with hnil
    · rw [hnil, chunks_nil, List.append_nil]
    · rw [chunks_of_length_le hn hnil (Nat.le_of_lt hs)]
  | cons x l ih =>
    rw [List.foldl_cons, ih (length_pending_add hn s x), add]
    split_ifs with hfull
    · have hlen : (s.pending ++ [x]).length = n := by
        rw [List.length_append, List.length_singleton] at hfull ⊢
        omega
      rw [List.append_cons s.pending x l, chunks_append hn hlen]
      simp
    · simp

/-- A collector that closes full chunks leaves the chunks of what it was given. -/
theorem finish_foldl_empty (hn : 0 < n) (l : List α) :
    (l.foldl (add n) empty).finish = chunks n l := by
  rw [finish_foldl_add hn (by exact hn)]
  rfl

end Chunker

end Core
