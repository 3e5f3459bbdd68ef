import Mathlib.Algebra.Order.BigOperators.Group.Finset
import Mathlib.Data.Fintype.EquivFin
import Mathlib.Data.Set.Finite.Basic
import MmtkRuby.Core.Progress
import MmtkRuby.Scanning.Tracing

/-!
# Every trace comes to its end

Every object is put into the queue once, and every field of it is visited once, in whatever order
the workers take the objects and wherever the objects are moved to.
-/

namespace MmtkRuby

open Core

namespace Tracing

variable {fields : ObjectReference → List ObjectReference} {roots : List ObjectReference}

/-! ### What is left to do -/

/-- The steps that are left for a traced object with `n` fields: it is taken from the queue, its
fields are visited, and its scan ends. -/
def State.left (s : State) (n : ℕ) (b : ObjectReference) : ℕ :=
  if b ∈ s.scanned then 0
  else if b ∈ s.scanning.map (·.object) then n - (s.written b).length + 1
  else n + 2

/-- Likewise for an object that may still have to be traced. -/
def State.rank (fields : ObjectReference → List ObjectReference) (s : State)
    (a : ObjectReference) : ℕ :=
  match s.tracer.forwarded a with
  | none => (fields a).length + 3
  | some b => s.left (fields a).length b

lemma State.left_le (s : State) (n : ℕ) (b : ObjectReference) : s.left n b ≤ n + 2 := by
  rw [State.left]
  split_ifs <;> omega

lemma State.rank_of_forwarded {s : State} {a b : ObjectReference}
    (ha : s.tracer.forwarded a = some b) : s.rank fields a = s.left (fields a).length b := by
  simp [State.rank, ha]

lemma State.left_congr {s t : State} {b : ObjectReference} (n : ℕ)
    (hscanned : b ∈ t.scanned ↔ b ∈ s.scanned)
    (hscanning : b ∈ t.scanning.map (·.object) ↔ b ∈ s.scanning.map (·.object))
    (hwritten : t.written b = s.written b) : t.left n b = s.left n b := by
  rw [State.left, State.left, hwritten]
  exact if_congr hscanned rfl (if_congr hscanning rfl rfl)

/-- A step has to do with one traced object only; others may be traced in it. -/
lemma rank_le_of_left_eq {s t : State} {object a : ObjectReference}
    (hforwarded : ∀ b, s.tracer.forwarded a = some b → t.tracer.forwarded a = some b)
    (hleft : ∀ b n, b ≠ object → t.left n b = s.left n b)
    (ha : s.tracer.forwarded a ≠ some object) : t.rank fields a ≤ s.rank fields a := by
  cases hs : s.tracer.forwarded a with
  | none =>
    simp only [State.rank, hs]
    cases t.tracer.forwarded a with
    | none => exact le_rfl
    | some b => exact (t.left_le _ b).trans (Nat.le_succ _)
  | some b =>
    have hne : b ≠ object := by
      rintro rfl
      exact ha hs
    rw [State.rank_of_forwarded hs, State.rank_of_forwarded (hforwarded b hs), hleft b _ hne]

/-- When less is left for the object, less is left in all. -/
lemma Inv.sum_rank_lt {s t : State} (h : Inv fields roots s) {reached : Finset ObjectReference}
    (hreached : ∀ a, Reaches fields roots a → a ∈ reached) {object : ObjectReference}
    (hobject : object ∈ s.places)
    (hforwarded : ∀ a b, s.tracer.forwarded a = some b → t.tracer.forwarded a = some b)
    (hleft : ∀ b n, b ≠ object → t.left n b = s.left n b)
    (hlt : ∀ a, s.tracer.forwarded a = some object →
      t.left (fields a).length object < s.left (fields a).length object) :
    ∑ a ∈ reached, t.rank fields a < ∑ a ∈ reached, s.rank fields a := by
  obtain ⟨a₀, ha₀⟩ := (h.mem_places object).mp hobject
  have hlt₀ : t.rank fields a₀ < s.rank fields a₀ := by
    rw [State.rank_of_forwarded ha₀, State.rank_of_forwarded (hforwarded a₀ object ha₀)]
    exact hlt a₀ ha₀
  refine Finset.sum_lt_sum (fun a _ => ?_) ⟨a₀, hreached a₀ (h.reached a₀ object ha₀), hlt₀⟩
  by_cases ha : s.tracer.forwarded a = some object
  · obtain rfl := h.injective a a₀ object ha ha₀
    exact hlt₀.le
  · exact rank_le_of_left_eq (hforwarded a) hleft ha

/-- Every step gets something done. -/
lemma Inv.sum_rank_lt_of_step {s t : State} (h : Inv fields roots s)
    {reached : Finset ObjectReference} (hreached : ∀ a, Reaches fields roots a → a ∈ reached)
    {l : Unit} (hstep : Step fields s l t) :
    ∑ a ∈ reached, t.rank fields a < ∑ a ∈ reached, s.rank fields a := by
  cases hstep with
  | poll object queue f hqueue hreads =>
    have hplaces : object ∈ s.places := by simp [State.places, hqueue]
    obtain ⟨hscanning, hscanned⟩ := h.notMem_of_queue hqueue
    refine h.sum_rank_lt hreached hplaces (fun _ _ ha => ha) ?_ ?_
    · intro b n hne
      exact State.left_congr n Iff.rfl (by simp [hne]) rfl
    · intro a _
      rw [State.left, State.left, if_neg hscanned, if_neg hscanned, if_neg hscanning, if_pos]
      · omega
      · simp
  | @visit object scanning target answer pin next tracer hscanning htrace =>
    have hmem : object ∈ s.scanning.map (·.object) := by simp [hscanning]
    obtain ⟨-, hscanned⟩ := h.ne_of_scanning hscanning
    refine h.sum_rank_lt hreached (State.mem_places_of_scanning hscanning)
      (fun _ _ ha => htrace.forwarded_of ha) ?_ ?_
    · intro b n hne
      exact State.left_congr n Iff.rfl (by simp [hscanning, hne]) (Function.update_of_ne hne _ _)
    · intro a ha
      -- a field is left, since the upcall visits it
      obtain ⟨a₀, before, rest, ha₀, hfields, -, hwritten⟩ := h.exists_field hscanning
      obtain rfl := h.injective a a₀ object ha ha₀
      have hlength : before.length = (s.written object).length := by
        simpa using congrArg List.length hwritten
      rw [State.left, State.left, if_neg hscanned, if_neg hscanned, if_pos hmem, if_pos]
      · simp only [Function.update_self, hfields, List.length_append, List.length_cons,
          List.length_nil]
        omega
      · simp
  | finish object scanning hscanning =>
    have hmem : object ∈ s.scanning.map (·.object) := by simp [hscanning]
    obtain ⟨-, hscanned⟩ := h.ne_of_scanning hscanning
    refine h.sum_rank_lt hreached (State.mem_places_of_scanning hscanning)
      (fun _ _ ha => ha) ?_ ?_
    · intro b n hne
      exact State.left_congr n (by simp [hne]) (by simp [hscanning, hne]) rfl
    · intro a _
      rw [State.left, State.left, if_pos, if_neg hscanned, if_pos hmem]
      · exact Nat.succ_pos _
      · simp

/-! ### What can be done -/

/-- The upcall for an object with the given fields. -/
def visitAll : List ObjectReference → Upcall
  | [] => .done
  | target :: targets => .visit target false fun _ => visitAll targets

lemma reads_visitAll (targets : List ObjectReference) : (visitAll targets).Reads targets := by
  induction targets with
  | nil => rfl
  | cons target targets ih => exact ⟨targets, rfl, fun _ => ih⟩

instance : Infinite ObjectReference :=
  .of_injective (fun n : ℕ => ⟨n + 1, n.succ_ne_zero⟩) fun m n h => by simpa using h

/-- There always is an address to which an object can be moved. -/
lemma Inv.exists_traceObject {s : State} (h : Inv fields roots s) (object : ObjectReference) :
    ∃ t answer, TraceObject s.tracer object t answer := by
  cases hforwarded : s.tracer.forwarded object with
  | some target => exact ⟨_, target, .traced hforwarded⟩
  | none =>
    obtain ⟨target, hfree⟩ := Infinite.exists_notMem_finset s.places.toFinset
    refine ⟨_, target, .moved target hforwarded fun a ha => hfree ?_⟩
    exact Multiset.mem_toFinset.mpr ((h.mem_places target).mpr ⟨a, ha⟩)

/-- As long as there is something to scan, a worker can go on. -/
lemma Inv.exists_step {s : State} (h : Inv fields roots s) (hover : ¬ s.Over) :
    ∃ t, Step fields s () t := by
  by_cases hscanning : s.scanning = 0
  · have hqueue : s.tracer.queue ≠ 0 := fun hqueue => hover ⟨hqueue, hscanning⟩
    obtain ⟨object, hobject⟩ := Multiset.exists_mem_of_ne_zero hqueue
    obtain ⟨queue, hqueue⟩ := Multiset.exists_cons_of_mem hobject
    obtain ⟨a₀, ha₀⟩ := (h.mem_places object).mp (by simp [State.places, hobject])
    refine ⟨_, .poll object queue (visitAll (fields a₀)) hqueue fun a ha => ?_⟩
    obtain rfl := h.injective a a₀ object ha ha₀
    exact reads_visitAll _
  · obtain ⟨⟨object, f⟩, hscan⟩ := Multiset.exists_mem_of_ne_zero hscanning
    obtain ⟨scanning, hscanning⟩ := Multiset.exists_cons_of_mem hscan
    cases f with
    | done => exact ⟨_, .finish object scanning hscanning⟩
    | visit target pin next =>
      obtain ⟨tracer, answer, htrace⟩ := h.exists_traceObject target
      exact ⟨_, .visit object scanning hscanning htrace⟩

/-- When finitely many objects can be reached, every schedule of the workers comes to the end of the
trace. -/
lemma Inv.inevitable_over {s : State} (h : Inv fields roots s)
    (hfinite : {a | Reaches fields roots a}.Finite) :
    Inevitable (fun s t => Step fields s () t) (fun t => t.Over ∧ Inv fields roots t) s := by
  refine .of_rank (I := Inv fields roots) (fun t => ∑ a ∈ hfinite.toFinset, t.rank fields a)
    ?_ ?_ h
  · intro s t h _ hstep
    exact ⟨h.step hstep, h.sum_rank_lt_of_step (fun a => hfinite.mem_toFinset.mpr) hstep⟩
  · intro s h hgoal
    exact h.exists_step fun hover => hgoal ⟨hover, h⟩

end Tracing

end MmtkRuby
