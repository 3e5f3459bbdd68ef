import Mathlib.Data.Finset.Piecewise
import Mathlib.Data.Finset.Card
import MmtkRuby.Core.Tiling

/-!
# Updating an array part by part

An update is local when what it makes of an entry, and whether it deletes it, depends on that
entry only. Doing it on disjoint sets of indices, one after the other, is doing it on their
union, so the sets may be taken in any order.
-/

namespace Core

/-- What becomes of each entry of an array, and which entries are deleted by it. -/
structure LocalUpdate (ι E : Type*) where
  update : ι → E → E
  deletes : ι → E → Bool

namespace LocalUpdate

variable {ι E : Type*} [DecidableEq ι] (u : LocalUpdate ι E)

/-- The update of the entries in `s`, with the number of entries it deleted. -/
def on (s : Finset ι) (a : ι → E) : (ι → E) × ℕ :=
  (s.piecewise (fun i => u.update i (a i)) a, (s.filter fun i => u.deletes i (a i)).card)

/-- One set after the other, adding up the numbers of deleted entries. -/
def onEach : List (Finset ι) → (ι → E) → (ι → E) × ℕ
  | [], a => (a, 0)
  | s :: ss, a => ((onEach ss (u.on s a).1).1, (u.on s a).2 + (onEach ss (u.on s a).1).2)

variable {u} {s t : Finset ι} {a : ι → E} {i : ι}

lemma on_of_mem (h : i ∈ s) : (u.on s a).1 i = u.update i (a i) := by
  simp [on, h]

/-- Entries outside the set are left alone. -/
lemma on_of_notMem (h : i ∉ s) : (u.on s a).1 i = a i := by
  simp [on, h]

lemma on_empty : u.on ∅ a = (a, 0) := by
  simp [on]

/-- Updates of two sets may change places, even where the sets overlap. -/
lemma on_comm (s t : Finset ι) (a : ι → E) :
    (u.on t (u.on s a).1).1 = (u.on s (u.on t a).1).1 ∧
      (u.on s a).2 + (u.on t (u.on s a).1).2 = (u.on t a).2 + (u.on s (u.on t a).1).2 := by
  -- the entries of `r` that an update deletes after one of `q`
  have hcard : ∀ q r : Finset ι, (u.on r (u.on q a).1).2 =
      ((q ∩ r).filter fun i => u.deletes i (u.update i (a i))).card +
        ((r \ q).filter fun i => u.deletes i (a i)).card := by
    intro q r
    have hin : (q ∩ r).filter (fun i => u.deletes i ((u.on q a).1 i)) =
        (q ∩ r).filter fun i => u.deletes i (u.update i (a i)) :=
      Finset.filter_congr fun i hi => by rw [on_of_mem (Finset.mem_inter.mp hi).1]
    have hout : (r \ q).filter (fun i => u.deletes i ((u.on q a).1 i)) =
        (r \ q).filter fun i => u.deletes i (a i) :=
      Finset.filter_congr fun i hi => by rw [on_of_notMem (Finset.mem_sdiff.mp hi).2]
    rw [← hin, ← hout, Finset.inter_comm, ← Finset.card_union_of_disjoint
      (Finset.disjoint_filter_filter (Finset.disjoint_sdiff_inter r q).symm),
      ← Finset.filter_union, Finset.union_comm, Finset.sdiff_union_inter]
    rfl
  have hsplit : ∀ q r : Finset ι, (u.on q a).2 =
      ((q ∩ r).filter fun i => u.deletes i (a i)).card +
        ((q \ r).filter fun i => u.deletes i (a i)).card := by
    intro q r
    rw [← Finset.card_union_of_disjoint
      (Finset.disjoint_filter_filter (Finset.disjoint_sdiff_inter q r).symm),
      ← Finset.filter_union, Finset.union_comm, Finset.sdiff_union_inter]
    rfl
  refine ⟨?_, ?_⟩
  · funext i
    by_cases hs : i ∈ s <;> by_cases ht : i ∈ t <;>
      simp [on_of_mem, on_of_notMem, hs, ht]
  · rw [hcard s t, hcard t s, hsplit s t, hsplit t s, Finset.inter_comm t s]
    omega

/-- An update of disjoint sets is one update of their union. -/
lemma on_union (h : Disjoint s t) :
    u.on (s ∪ t) a = ((u.on t (u.on s a).1).1, (u.on s a).2 + (u.on t (u.on s a).1).2) := by
  have hnot : ∀ {i}, i ∈ t → i ∉ s := fun hit his => Finset.disjoint_left.mp h his hit
  refine Prod.ext ?_ ?_
  · funext i
    by_cases hit : i ∈ t
    · rw [on_of_mem (Finset.mem_union_right s hit), on_of_mem hit, on_of_notMem (hnot hit)]
    · rw [on_of_notMem (s := t) hit]
      by_cases his : i ∈ s
      · rw [on_of_mem (Finset.mem_union_left t his), on_of_mem his]
      · rw [on_of_notMem his, on_of_notMem (by simp [his, hit])]
  · have hsame : (t.filter fun i => u.deletes i ((u.on s a).1 i))
        = t.filter fun i => u.deletes i (a i) := by
      refine Finset.filter_congr fun i hit => ?_
      rw [on_of_notMem (hnot hit)]
    simp only [on] at hsame ⊢
    rw [hsame, Finset.filter_union,
      Finset.card_union_of_disjoint (Finset.disjoint_filter_filter h)]

/-- Sets that are pairwise disjoint may be updated one by one. -/
theorem onEach_of_disjoint {ss : List (Finset ι)} (h : ss.Pairwise Disjoint) (a : ι → E) :
    u.onEach ss a = u.on (ss.foldr (· ∪ ·) ∅) a := by
  induction ss generalizing a with
  | nil => exact on_empty.symm
  | cons s ss ih =>
    obtain ⟨hs, hss⟩ := List.pairwise_cons.mp h
    have hdisj : Disjoint s (ss.foldr (· ∪ ·) ∅) := by
      clear ih h hss
      induction ss with
      | nil => exact Finset.disjoint_empty_right s
      | cons t ss ih =>
        rw [List.foldr_cons, Finset.disjoint_union_right]
        exact ⟨hs t List.mem_cons_self, ih fun r hr => hs r (List.mem_cons_of_mem t hr)⟩
    rw [List.foldr_cons, on_union hdisj, ← ih hss]
    rfl

/-! ### Updates that may be repeated -/

variable (u) in
/-- Updating an entry again changes nothing. -/
def Idempotent : Prop := ∀ i e, u.update i (u.update i e) = u.update i e

/-- An update that may be repeated can be done on sets that overlap. -/
lemma Idempotent.on_union (h : u.Idempotent) (s t : Finset ι) (a : ι → E) :
    (u.on t (u.on s a).1).1 = (u.on (s ∪ t) a).1 := by
  funext i
  by_cases hs : i ∈ s <;> by_cases ht : i ∈ t
  · rw [on_of_mem ht, on_of_mem hs, on_of_mem (Finset.mem_union_left t hs), h]
  · rw [on_of_notMem ht, on_of_mem hs, on_of_mem (Finset.mem_union_left t hs)]
  · rw [on_of_mem ht, on_of_notMem hs, on_of_mem (Finset.mem_union_right s ht)]
  · rw [on_of_notMem ht, on_of_notMem hs, on_of_notMem (by simp [hs, ht])]

/-- Such an update of any sets, one by one, is one update of their union. -/
theorem Idempotent.onEach (h : u.Idempotent) (ss : List (Finset ι)) (a : ι → E) :
    (u.onEach ss a).1 = (u.on (ss.foldr (· ∪ ·) ∅) a).1 := by
  induction ss generalizing a with
  | nil => rw [List.foldr_nil, on_empty]; rfl
  | cons s ss ih => rw [List.foldr_cons, ← h.on_union, ← ih]; rfl

end LocalUpdate

/-- The union of spans has the indices of all of them. -/
lemma mem_foldr_union {spans : List Span} {i : ℕ} :
    i ∈ (spans.map Span.indices).foldr (· ∪ ·) ∅ ↔ ∃ s ∈ spans, i ∈ s.indices := by
  induction spans with
  | nil => simp
  | cons s spans ih => rw [List.map_cons, List.foldr_cons, Finset.mem_union, ih]; simp

/-- Spans that together have the indices of an interval make up the interval. -/
lemma foldr_union_eq_Ico {spans : List Span} {lo hi : ℕ}
    (h : ∀ i, (∃ s ∈ spans, i ∈ s.indices) ↔ i ∈ Finset.Ico lo hi) :
    (spans.map Span.indices).foldr (· ∪ ·) ∅ = Finset.Ico lo hi := by
  ext i
  rw [mem_foldr_union, h i]

/-- The union of the spans of a cover is the interval. -/
lemma ExactCover.foldr_union {spans : List Span} {lo hi : ℕ} (h : ExactCover spans lo hi) :
    (spans.map Span.indices).foldr (· ∪ ·) ∅ = Finset.Ico lo hi :=
  foldr_union_eq_Ico h.union

/-- A local update of the spans of a cover, in the order in which they are listed, is the update
of the whole interval. -/
theorem ExactCover.onEach {E : Type*} {u : LocalUpdate ℕ E} {spans : List Span} {lo hi : ℕ}
    (h : ExactCover spans lo hi) (a : ℕ → E) :
    u.onEach (spans.map Span.indices) a = u.on (Finset.Ico lo hi) a := by
  rw [LocalUpdate.onEach_of_disjoint (List.pairwise_map.mpr h.disjoint), h.foldr_union]

end Core
