import Mathlib.Order.Interval.Finset.Nat
import Mathlib.Data.List.Range
import Mathlib.Data.List.Count
import Mathlib.Data.List.Pairwise
import Mathlib.Algebra.BigOperators.Group.Finset.Basic
import Mathlib.Tactic.Common

/-!
# Cutting an interval into spans

An interval `[lo, hi)` of indices is cut at every `stride`-th index, and each piece is given a
width, clamped at `hi`. The pieces cover the interval exactly when the width is the stride, or
when there is at most one piece and it is wide enough.

Work that touches only the indices of its own span may then be done piece by piece, in any
order, with the same effect as on the whole interval.
-/

namespace Core

/-- A half-open range of indices. Nothing keeps it from being empty or inverted. -/
structure Span where
  lo : ℕ
  hi : ℕ
deriving DecidableEq, Repr

/-- The indices of a span. -/
def Span.indices (s : Span) : Finset ℕ := Finset.Ico s.lo s.hi

@[simp] lemma Span.mem_indices {s : Span} {i : ℕ} : i ∈ s.indices ↔ s.lo ≤ i ∧ i < s.hi := by
  simp [Span.indices]

/-- The spans are non-empty, pairwise disjoint, and their union is `[lo, hi)`. -/
structure ExactCover (spans : List Span) (lo hi : ℕ) : Prop where
  nonempty : ∀ s ∈ spans, s.lo < s.hi
  disjoint : spans.Pairwise fun s t => Disjoint s.indices t.indices
  union : ∀ i, (∃ s ∈ spans, i ∈ s.indices) ↔ i ∈ Finset.Ico lo hi

/-- The order in which the spans are listed does not matter. -/
lemma ExactCover.perm {spans spans' : List Span} {lo hi : ℕ} (h : ExactCover spans lo hi)
    (hp : spans.Perm spans') : ExactCover spans' lo hi where
  nonempty s hs := h.nonempty s (hp.mem_iff.mpr hs)
  disjoint := hp.pairwise h.disjoint fun hst => hst.symm
  union i := by
    rw [← h.union i]
    simp only [hp.mem_iff]

/-- An index lies in exactly one of pairwise disjoint spans, if it lies in any. -/
lemma countP_of_disjoint {spans : List Span} {i : ℕ}
    (hd : spans.Pairwise fun s t => Disjoint s.indices t.indices)
    (hi : ∃ s ∈ spans, i ∈ s.indices) :
    spans.countP (fun s => decide (i ∈ s.indices)) = 1 := by
  induction spans with
  | nil => simp at hi
  | cons s rest ih =>
    obtain ⟨hs, hrest⟩ := List.pairwise_cons.mp hd
    by_cases his : i ∈ s.indices
    · have hnone : rest.countP (fun t => decide (i ∈ t.indices)) = 0 := by
        rw [List.countP_eq_zero]
        intro t ht hit
        exact Finset.disjoint_left.mp (hs t ht) his (of_decide_eq_true hit)
      rw [List.countP_cons_of_pos (by simpa using his), hnone]
    · have hi' : ∃ t ∈ rest, i ∈ t.indices := by
        obtain ⟨t, ht, hit⟩ := hi
        rcases List.mem_cons.mp ht with rfl | ht
        · exact absurd hit his
        · exact ⟨t, ht, hit⟩
      rw [List.countP_cons_of_neg (by simpa using his)]
      exact ih hrest hi'

/-- Every covered index lies in exactly one span. -/
lemma ExactCover.countP_eq_one {spans : List Span} {lo hi i : ℕ} (h : ExactCover spans lo hi)
    (hi : i ∈ Finset.Ico lo hi) : spans.countP (fun s => decide (i ∈ s.indices)) = 1 :=
  countP_of_disjoint h.disjoint ((h.union i).mpr hi)

/-! ### Cutting with a stride -/

/-- Every `step`-th index of `[lo, hi)`, from `lo` on. -/
def strided (lo hi step : ℕ) : List ℕ := List.range' lo ((hi - lo + step - 1) / step) step

lemma strided_of_le {lo hi step : ℕ} (hstep : 0 < step) (h : hi ≤ lo) :
    strided lo hi step = [] := by
  have : (hi - lo + step - 1) / step = 0 := Nat.div_eq_of_lt (by omega)
  simp [strided, this]

lemma strided_of_lt {lo hi step : ℕ} (hstep : 0 < step) (h : lo < hi) :
    strided lo hi step = lo :: strided (lo + step) hi step := by
  have hcount : (hi - lo + step - 1) / step = (hi - (lo + step) + step - 1) / step + 1 := by
    by_cases hlast : hi ≤ lo + step
    · have h₀ : (hi - (lo + step) + step - 1) / step = 0 := Nat.div_eq_of_lt (by omega)
      have h₁ : (hi - lo + step - 1) / step = 1 := by
        rw [show hi - lo + step - 1 = (hi - lo - 1) + step by omega, Nat.add_div_right _ hstep,
          Nat.div_eq_of_lt (by omega)]
      omega
    · rw [show hi - lo + step - 1 = (hi - (lo + step) + step - 1) + step by omega,
        Nat.add_div_right _ hstep]
  rw [strided, hcount, List.range'_succ, strided]

/-- Induction along the cut: either the interval is exhausted, or it has a first piece. -/
theorem strided_induction {hi step : ℕ} (hstep : 0 < step) {motive : ℕ → List ℕ → Prop}
    (nil : ∀ lo, hi ≤ lo → motive lo [])
    (cons : ∀ lo, lo < hi → motive (lo + step) (strided (lo + step) hi step) →
      motive lo (lo :: strided (lo + step) hi step))
    (lo : ℕ) : motive lo (strided lo hi step) := by
  induction hn : hi - lo using Nat.strong_induction_on generalizing lo with
  | _ n ih =>
    by_cases h : lo < hi
    · rw [strided_of_lt hstep h]
      exact cons lo h (ih (hi - (lo + step)) (by omega) (lo + step) rfl)
    · rw [strided_of_le hstep (by omega)]
      exact nil lo (by omega)

lemma length_strided_le {lo hi step : ℕ} (hstep : 0 < step) :
    (strided lo hi step).length ≤ hi - lo := by
  refine strided_induction (motive := fun lo l => l.length ≤ hi - lo) hstep ?_ ?_ lo
  · intro lo _
    simp
  · intro lo hlt ih
    rw [List.length_cons]
    omega

lemma mem_strided {lo hi step b : ℕ} (hstep : 0 < step) (h : b ∈ strided lo hi step) :
    lo ≤ b ∧ b < hi := by
  revert h
  refine strided_induction (motive := fun lo l => b ∈ l → lo ≤ b ∧ b < hi) hstep ?_ ?_ lo
  · intro lo _ hb
    simp at hb
  · intro lo hlt ih hb
    rcases List.mem_cons.mp hb with rfl | hb
    · exact ⟨le_refl _, hlt⟩
    · have := ih hb
      omega

/-- There is a piece exactly when the interval is not empty. -/
lemma strided_eq_nil {lo hi step : ℕ} (hstep : 0 < step) :
    strided lo hi step = [] ↔ hi ≤ lo := by
  constructor
  · intro h
    by_contra hlt
    rw [strided_of_lt hstep (by omega)] at h
    simp at h
  · exact strided_of_le hstep

/-- The last index of `strided lo hi step`, if there is one. -/
def lastStrided (lo hi step : ℕ) : ℕ := lo + (hi - 1 - lo) / step * step

lemma strided_eq_range' {lo hi step : ℕ} (hstep : 0 < step) (h : lo < hi) :
    strided lo hi step = List.range' lo ((hi - 1 - lo) / step + 1) step := by
  rw [strided, show hi - lo + step - 1 = (hi - 1 - lo) + step by omega,
    Nat.add_div_right _ hstep]

lemma lastStrided_mem {lo hi step : ℕ} (hstep : 0 < step) (h : lo < hi) :
    lastStrided lo hi step ∈ strided lo hi step := by
  rw [strided_eq_range' hstep h, List.mem_range']
  exact ⟨(hi - 1 - lo) / step, Nat.lt_succ_self _, by rw [lastStrided, Nat.mul_comm]⟩

lemma le_lastStrided {lo hi step b : ℕ} (hstep : 0 < step) (h : b ∈ strided lo hi step) :
    b ≤ lastStrided lo hi step := by
  have hlt : lo < hi := by
    have := mem_strided hstep h
    omega
  rw [strided_eq_range' hstep hlt, List.mem_range'] at h
  obtain ⟨i, hi', rfl⟩ := h
  have hle := Nat.mul_le_mul_right step (Nat.le_of_lt_succ hi')
  rw [lastStrided, Nat.mul_comm step i]
  omega

/-- All pieces of a width end below a bound when the last one does. -/
lemma forall_strided_add_lt_iff {lo hi step width bound : ℕ} (hstep : 0 < step) :
    (∀ b ∈ strided lo hi step, b + width < bound) ↔
      (lo < hi → lastStrided lo hi step + width < bound) := by
  constructor
  · intro h hlt
    exact h _ (lastStrided_mem hstep hlt)
  · intro h b hb
    have hrange := mem_strided hstep hb
    have hlast := h (by omega)
    have hle := le_lastStrided hstep hb
    omega

/-- The span that begins at `b`, of the given width but not past `hi`. -/
def clampedSpan (width hi b : ℕ) : Span := ⟨b, min (b + width) hi⟩

/-- The pieces of `[lo, hi)`: one at every `stride`-th index, each `width` wide. -/
def pieces (stride width lo hi : ℕ) : List Span :=
  (strided lo hi stride).map (clampedSpan width hi)

/-- Spans that follow each other without gaps from `lo` to `hi`. -/
def Tiles : ℕ → List Span → ℕ → Prop
  | lo, [], hi => lo = hi
  | lo, s :: rest, hi => s.lo = lo ∧ s.lo < s.hi ∧ Tiles s.hi rest hi

lemma Tiles.le {lo hi : ℕ} {spans : List Span} (h : Tiles lo spans hi) : lo ≤ hi := by
  induction spans generalizing lo with
  | nil => exact le_of_eq h
  | cons s rest ih =>
    obtain ⟨rfl, hlt, htl⟩ := h
    have := ih htl
    omega

lemma Tiles.lo_le {lo hi : ℕ} {spans : List Span} (h : Tiles lo spans hi) :
    ∀ s ∈ spans, lo ≤ s.lo := by
  induction spans generalizing lo with
  | nil => simp
  | cons s rest ih =>
    obtain ⟨rfl, hlt, htl⟩ := h
    intro t ht
    rcases List.mem_cons.mp ht with rfl | ht
    · exact le_refl _
    · have := ih htl t ht
      omega

/-- Spans laid end to end cover their interval exactly. -/
theorem Tiles.exactCover {lo hi : ℕ} {spans : List Span} (h : Tiles lo spans hi) :
    ExactCover spans lo hi := by
  induction spans generalizing lo with
  | nil =>
    obtain rfl : lo = hi := h
    exact ⟨by simp, List.Pairwise.nil, by simp⟩
  | cons s rest ih =>
    obtain ⟨rfl, hlt, htl⟩ := h
    have hc := ih htl
    refine ⟨?_, ?_, ?_⟩
    · intro t ht
      rcases List.mem_cons.mp ht with rfl | ht
      · exact hlt
      · exact hc.nonempty t ht
    · refine List.pairwise_cons.mpr ⟨fun t ht => ?_, hc.disjoint⟩
      have hle := htl.lo_le t ht
      rw [Finset.disjoint_left]
      intro i his hit
      rw [Span.mem_indices] at his hit
      omega
    · intro i
      have hle := htl.le
      simp only [List.mem_cons, exists_eq_or_imp]
      rw [hc.union i, Span.mem_indices, Finset.mem_Ico, Finset.mem_Ico]
      omega

/-- With the stride for a width, the pieces are laid end to end. -/
lemma pieces_tiles {stride lo hi : ℕ} (hs : 0 < stride) (hle : lo ≤ hi) :
    Tiles lo (pieces stride stride lo hi) hi := by
  unfold pieces
  revert hle
  refine strided_induction
    (motive := fun lo l => lo ≤ hi → Tiles lo (l.map (clampedSpan stride hi)) hi) hs ?_ ?_ lo
  · intro lo hge hle
    exact Nat.le_antisymm hle hge
  · intro lo hlt ih _
    refine ⟨rfl, ?_, ?_⟩
    · simp only [clampedSpan]
      omega
    · simp only [clampedSpan]
      by_cases hlast : lo + stride ≤ hi
      · rw [Nat.min_eq_left hlast]
        exact ih hlast
      · rw [Nat.min_eq_right (by omega), strided_of_le hs (by omega)]
        rfl

/-- Pieces that are at least as wide as the stride leave no gaps. -/
lemma exists_mem_pieces_iff {stride width lo hi : ℕ} (hs : 0 < stride) (hw : stride ≤ width)
    (i : ℕ) : (∃ s ∈ pieces stride width lo hi, i ∈ s.indices) ↔ i ∈ Finset.Ico lo hi := by
  unfold pieces
  refine strided_induction (motive := fun lo l =>
    (∃ s ∈ l.map (clampedSpan width hi), i ∈ s.indices) ↔ i ∈ Finset.Ico lo hi) hs ?_ ?_ lo
  · intro lo hge
    simp only [List.map_nil, List.not_mem_nil, false_and, exists_false, Finset.mem_Ico, false_iff]
    omega
  · intro lo hlt ih
    rw [List.map_cons]
    simp only [List.mem_cons, exists_eq_or_imp]
    rw [ih, Span.mem_indices, Finset.mem_Ico, Finset.mem_Ico]
    simp only [clampedSpan]
    omega

/-- The pieces of an interval of at most one stride: one, or none. -/
lemma pieces_of_le_stride {stride width lo hi : ℕ} (hs : 0 < stride) (h : hi ≤ lo + stride) :
    pieces stride width lo hi = if lo < hi then [clampedSpan width hi lo] else [] := by
  unfold pieces
  split_ifs with hlt
  · rw [strided_of_lt hs hlt, strided_of_le hs h]
    rfl
  · rw [strided_of_le hs (by omega)]
    rfl

/-- Pieces of a width other than the stride overlap or leave a gap as soon as there are two. -/
lemma not_exactCover_of_ne {stride width lo hi : ℕ} (hs : 0 < stride) (hw : 0 < width)
    (hne : stride ≠ width) (h : lo + stride < hi) :
    ¬ ExactCover (pieces stride width lo hi) lo hi := by
  intro hc
  have htwo : pieces stride width lo hi = clampedSpan width hi lo ::
      clampedSpan width hi (lo + stride) :: pieces stride width (lo + stride + stride) hi := by
    unfold pieces
    rw [strided_of_lt hs (by omega), strided_of_lt hs h]
    rfl
  rcases Nat.lt_or_gt_of_ne hne with hlt | hgt
  · -- too wide: the first two pieces share the index `lo + stride`
    have hd := hc.disjoint
    rw [htwo] at hd
    have h₁₂ := (List.pairwise_cons.mp hd).1 _ (List.mem_cons_self ..)
    have hfst : lo + stride ∈ (clampedSpan width hi lo).indices := by
      simp only [Span.mem_indices, clampedSpan]
      omega
    have hsnd : lo + stride ∈ (clampedSpan width hi (lo + stride)).indices := by
      simp only [Span.mem_indices, clampedSpan]
      omega
    exact Finset.disjoint_left.mp h₁₂ hfst hsnd
  · -- too narrow: the index `lo + width` lies after the first piece and before the second
    obtain ⟨s, hs', hi'⟩ := (hc.union (lo + width)).mpr (by simp only [Finset.mem_Ico]; omega)
    rw [Span.mem_indices] at hi'
    unfold pieces at hs'
    obtain ⟨b, hb, rfl⟩ := List.mem_map.mp hs'
    rw [strided_of_lt hs (by omega)] at hb
    rcases List.mem_cons.mp hb with rfl | hb
    · simp only [clampedSpan] at hi'
      omega
    · have := mem_strided hs hb
      simp only [clampedSpan] at hi'
      omega

/-- The pieces cover the interval exactly when their width is the stride, or when the interval
is no longer than either. -/
theorem exactCover_pieces_iff {stride width lo hi : ℕ} (hs : 0 < stride) (hw : 0 < width)
    (hle : lo ≤ hi) :
    ExactCover (pieces stride width lo hi) lo hi ↔
      stride = width ∨ (hi ≤ lo + stride ∧ hi ≤ lo + width) := by
  by_cases hne : stride = width
  · subst hne
    simp [(pieces_tiles hs hle).exactCover]
  · by_cases hone : hi ≤ lo + stride
    · rw [pieces_of_le_stride hs hone]
      split_ifs with hlt
      · constructor
        · intro hc
          have hlast := (hc.union (hi - 1)).mpr (by simp only [Finset.mem_Ico]; omega)
          simp only [List.mem_singleton, exists_eq_left, Span.mem_indices, clampedSpan] at hlast
          omega
        · intro h
          refine Tiles.exactCover ⟨rfl, ?_, ?_⟩
          · simp only [clampedSpan]
            omega
          · simp only [clampedSpan, Tiles]
            omega
      · have : lo = hi := by omega
        subst this
        have hnil : ExactCover [] lo lo := Tiles.exactCover rfl
        simpa [hne] using hnil
    · simp only [hne, hone, false_or, false_and, iff_false]
      exact not_exactCover_of_ne hs hw hne (by omega)

end Core
