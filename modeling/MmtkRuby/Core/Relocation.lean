import Mathlib.Data.List.Forall2
import Mathlib.Data.Set.Basic
import Mathlib.Logic.Function.Basic
import Mathlib.Tactic.Common

/-!
# Objects that move

The address of an object changes when a collection moves it, and an address is used again once
its object is dead. What stays is the identity of the object, which no program sees. A heap says
which object lives at which address, a collection which addresses it keeps and where their objects
go, and a history which objects every collection so far has kept.

Lists and sets of addresses that a collection filters and forwards name, in the new heap, the
objects that they named in the old one.
-/

namespace Core

/-- Which object lives at each address. An object lives at one address only. -/
structure Heap (Ref Obj : Type*) where
  objectAt : Ref → Option Obj
  unique : ∀ {a b o}, objectAt a = some o → objectAt b = some o → a = b

/-- Which addresses a collection keeps, and where the objects there go. -/
structure Collection (Ref : Type*) where
  keeps : Ref → Bool
  forward : Ref → Ref

variable {Ref Obj : Type*}

instance : Membership Obj (Heap Ref Obj) := ⟨fun h o => ∃ a, h.objectAt a = some o⟩

lemma Heap.mem_of_objectAt {h : Heap Ref Obj} {a : Ref} {o : Obj} (ha : h.objectAt a = some o) :
    o ∈ h :=
  ⟨a, ha⟩

/-- An entry of a map with one entry set is the one that is set, or was there before. -/
lemma update_eq_some_iff {α β : Type*} [DecidableEq α] {f : α → Option β} {a b : α} {x y : β} :
    Function.update f a (some x) b = some y ↔ b = a ∧ x = y ∨ b ≠ a ∧ f b = some y := by
  by_cases hba : b = a
  · subst hba
    simp
  · simp [hba]

/-- A new object at the address `a`. -/
def Heap.alloc [DecidableEq Ref] (h : Heap Ref Obj) (a : Ref) (o : Obj) (hnew : o ∉ h) :
    Heap Ref Obj where
  objectAt := Function.update h.objectAt a (some o)
  unique := by
    intro b c o' hb hc
    by_cases hba : b = a <;> by_cases hca : c = a
    · rw [hba, hca]
    · rw [hba, Function.update_self, Option.some.injEq] at hb
      rw [Function.update_of_ne hca, ← hb] at hc
      exact absurd ⟨c, hc⟩ hnew
    · rw [hca, Function.update_self, Option.some.injEq] at hc
      rw [Function.update_of_ne hba, ← hc] at hb
      exact absurd ⟨b, hb⟩ hnew
    · rw [Function.update_of_ne hba] at hb
      rw [Function.update_of_ne hca] at hc
      exact h.unique hb hc

@[simp] lemma Heap.alloc_objectAt [DecidableEq Ref] {h : Heap Ref Obj} {a : Ref} {o : Obj}
    {hnew : o ∉ h} : (h.alloc a o hnew).objectAt = Function.update h.objectAt a (some o) := rfl

/-- An allocation at a free address moves no object. -/
lemma Heap.objectAt_alloc_iff [DecidableEq Ref] {h : Heap Ref Obj} {a b : Ref} {o o' : Obj}
    (hfree : h.objectAt a = none) (hnew : o ∉ h) :
    (h.alloc a o hnew).objectAt b = some o' ↔ b = a ∧ o' = o ∨ h.objectAt b = some o' := by
  rw [Heap.alloc_objectAt, update_eq_some_iff, eq_comm (a := o)]
  refine or_congr_right (and_iff_right_of_imp fun hb => ?_)
  rintro rfl
  rw [hfree] at hb
  cases hb

lemma Heap.mem_alloc [DecidableEq Ref] {h : Heap Ref Obj} {a : Ref} {o o' : Obj}
    (hfree : h.objectAt a = none) (hnew : o ∉ h) :
    o' ∈ h.alloc a o hnew ↔ o' = o ∨ o' ∈ h := by
  constructor
  · rintro ⟨b, hb⟩
    rcases (Heap.objectAt_alloc_iff hfree hnew).mp hb with ⟨-, ho⟩ | hb
    · exact Or.inl ho
    · exact Or.inr ⟨b, hb⟩
  · rintro (ho | ⟨b, hb⟩)
    · exact ⟨a, (Heap.objectAt_alloc_iff hfree hnew).mpr (Or.inl ⟨rfl, ho⟩)⟩
    · exact ⟨b, (Heap.objectAt_alloc_iff hfree hnew).mpr (Or.inr hb)⟩

/-! ### Collections -/

namespace Collection

/-- The heap after the collection `c` of `h`: the objects it keeps, where it puts them. -/
def Relocates (c : Collection Ref) (h h' : Heap Ref Obj) : Prop :=
  ∀ b o, h'.objectAt b = some o ↔ ∃ a, h.objectAt a = some o ∧ c.keeps a = true ∧ c.forward a = b

variable {c : Collection Ref} {h h' : Heap Ref Obj}

/-- A forwarded address names the object that the old address named. -/
lemma Relocates.objectAt_forward (hrel : c.Relocates h h') {a : Ref} {o : Obj}
    (ha : h.objectAt a = some o) (hk : c.keeps a = true) :
    h'.objectAt (c.forward a) = some o :=
  (hrel (c.forward a) o).mpr ⟨a, ha, hk, rfl⟩

/-- All that matters is what the collection does with the objects of the heap. -/
lemma Relocates.congr {c' : Collection Ref} (hrel : c.Relocates h h')
    (hkeeps : ∀ a, (h.objectAt a).isSome → c'.keeps a = c.keeps a)
    (hforward : ∀ a, c'.forward a = c.forward a) : c'.Relocates h h' := by
  intro b o
  rw [hrel b o]
  refine exists_congr fun a => and_congr_right fun ha => ?_
  rw [hkeeps a (by rw [ha]; rfl), hforward]

lemma Relocates.mem_iff (hrel : c.Relocates h h') {o : Obj} :
    o ∈ h' ↔ ∃ a, h.objectAt a = some o ∧ c.keeps a = true := by
  constructor
  · rintro ⟨b, hb⟩
    obtain ⟨a, ha, hk, -⟩ := (hrel b o).mp hb
    exact ⟨a, ha, hk⟩
  · rintro ⟨a, ha, hk⟩
    exact ⟨c.forward a, hrel.objectAt_forward ha hk⟩

/-- The address of an object is kept when the object is. -/
lemma Relocates.keeps_iff (hrel : c.Relocates h h') {a : Ref} (ha : (h.objectAt a).isSome) :
    c.keeps a = true ↔ ∃ o ∈ h', h.objectAt a = some o := by
  obtain ⟨o, ho⟩ := Option.isSome_iff_exists.mp ha
  constructor
  · exact fun hk => ⟨o, hrel.mem_iff.mpr ⟨a, ho, hk⟩, ho⟩
  · rintro ⟨o', hmem, ho'⟩
    obtain ⟨a', ha', hk⟩ := hrel.mem_iff.mp hmem
    rwa [h.unique ho' ha']

/-- Addresses of objects with a property, filtered and forwarded, are the new addresses of the
objects with that property. -/
lemma Relocates.named_iff (hrel : c.Relocates h h') (p : Obj → Prop) (b : Ref) :
    (∃ a, (∃ o, h.objectAt a = some o ∧ p o) ∧ c.keeps a = true ∧ c.forward a = b) ↔
      ∃ o, h'.objectAt b = some o ∧ p o := by
  constructor
  · rintro ⟨a, ⟨o, ha, hp⟩, hk, hb⟩
    exact ⟨o, (hrel b o).mpr ⟨a, ha, hk, hb⟩, hp⟩
  · rintro ⟨o, hb, hp⟩
    obtain ⟨a, ha, hk, hab⟩ := (hrel b o).mp hb
    exact ⟨a, ⟨o, ha, hp⟩, hk, hab⟩

/-- The kept addresses of a list name the same objects before and after. -/
lemma Relocates.map_objectAt (hrel : c.Relocates h h') {as : List Ref}
    (hall : ∀ a ∈ as, (h.objectAt a).isSome) :
    ((as.filter c.keeps).map c.forward).map h'.objectAt = (as.filter c.keeps).map h.objectAt := by
  rw [List.map_map]
  apply List.map_congr_left
  intro a ha
  obtain ⟨hmem, hk⟩ := List.mem_filter.mp ha
  obtain ⟨o, ho⟩ := Option.isSome_iff_exists.mp (hall a hmem)
  rw [Function.comp_apply, hrel.objectAt_forward ho hk, ho]

/-- A collection has a heap to leave behind as long as it puts no two objects at one address. -/
theorem exists_relocates (hinj : ∀ a b, (h.objectAt a).isSome → (h.objectAt b).isSome →
      c.keeps a = true → c.keeps b = true → c.forward a = c.forward b → a = b) :
    ∃ h', c.Relocates h h' := by
  classical
  let source (b : Ref) : Prop :=
    ∃ a, (h.objectAt a).isSome ∧ c.keeps a = true ∧ c.forward a = b
  have hiff : ∀ b o, (if hb : source b then h.objectAt hb.choose else none) = some o ↔
      ∃ a, h.objectAt a = some o ∧ c.keeps a = true ∧ c.forward a = b := by
    intro b o
    split_ifs with hb
    · obtain ⟨hsome, hk, hfwd⟩ := hb.choose_spec
      constructor
      · intro ho
        exact ⟨_, ho, hk, hfwd⟩
      · rintro ⟨a, ha, hka, hab⟩
        have hsome' : (h.objectAt a).isSome := by rw [ha]; rfl
        rw [hinj _ a hsome hsome' hk hka (hfwd.trans hab.symm)]
        exact ha
    · refine ⟨fun ho => absurd ho (by simp), ?_⟩
      rintro ⟨a, ha, hka, hab⟩
      exact absurd ⟨a, by rw [ha]; rfl, hka, hab⟩ hb
  refine ⟨⟨fun b => if hb : source b then h.objectAt hb.choose else none, ?_⟩, hiff⟩
  intro b b' o hb hb'
  obtain ⟨a, ha, -, rfl⟩ := (hiff b o).mp hb
  obtain ⟨a', ha', -, rfl⟩ := (hiff b' o).mp hb'
  rw [h.unique ha ha']

end Collection

/-! ### Lists that go with lists of addresses -/

section Lists

variable {α β : Type*} {R S : α → β → Prop} {as : List α} {bs : List β}

/-- Related lists stay related when both are filtered alike and one is mapped. -/
lemma forall₂_filter_map {f : α → α} {p : α → Bool} {q : β → Bool}
    (h : List.Forall₂ R as bs)
    (hpq : ∀ a, ∀ b ∈ bs, R a b → p a = q b) (hS : ∀ a b, R a b → p a = true → S (f a) b) :
    List.Forall₂ S ((as.filter p).map f) (bs.filter q) := by
  induction h with
  | nil => exact .nil
  | @cons a b as bs hab _ ih =>
    have hhead := hpq a b (List.mem_cons_self ..) hab
    have htail := ih fun a b hb => hpq a b (List.mem_cons_of_mem _ hb)
    cases hp : p a with
    | false =>
      rw [List.filter_cons_of_neg (by simp [hp]), List.filter_cons_of_neg (by simp [← hhead, hp])]
      exact htail
    | true =>
      rw [List.filter_cons_of_pos hp, List.filter_cons_of_pos (by rw [← hhead, hp])]
      exact .cons (hS a b hab hp) htail

/-- A member of the one list has its partner in the other. -/
lemma exists_related_of_mem (h : List.Forall₂ R as bs) : ∀ a ∈ as, ∃ b ∈ bs, R a b := by
  induction h with
  | nil => simp
  | cons hab _ ih =>
    intro a ha
    rcases List.mem_cons.mp ha with rfl | ha
    · exact ⟨_, List.mem_cons_self .., hab⟩
    · obtain ⟨b, hb, hab⟩ := ih a ha
      exact ⟨b, List.mem_cons_of_mem _ hb, hab⟩

end Lists

/-! ### Histories -/

/-- A heap with its past: at which collection each object was born, counting from zero, and the
objects that each collection reached. In the heap are those that no collection of their life has
missed. -/
structure History (Ref Obj : Type*) where
  heap : Heap Ref Obj
  gcs : ℕ
  bornAt : Obj → Option ℕ
  reached : ℕ → Set Obj
  bornAt_le : ∀ {o b}, bornAt o = some b → b ≤ gcs
  mem_heap_iff : ∀ {o}, o ∈ heap ↔
    ∃ b, bornAt o = some b ∧ ∀ j, b ≤ j → j < gcs → o ∈ reached j

namespace History

/-- The first collection that missed `o` is the `k`-th. -/
structure FoundDead (s : History Ref Obj) (o : Obj) (k : ℕ) : Prop where
  past : k < s.gcs
  missed : o ∉ s.reached k
  first : ∃ b ≤ k, s.bornAt o = some b ∧ ∀ j, b ≤ j → j < k → o ∈ s.reached j

/-- Every collection from the `k`-th on has reached `o`. -/
def ReachedSince (s : History Ref Obj) (k : ℕ) (o : Obj) : Prop :=
  ∀ j, k ≤ j → j < s.gcs → o ∈ s.reached j

variable {s : History Ref Obj}

/-- Before any object was born. -/
def start : History Ref Obj where
  heap := ⟨fun _ => none, by simp⟩
  gcs := 0
  bornAt := fun _ => none
  reached := fun _ => ∅
  bornAt_le := by simp
  mem_heap_iff := by simp [Membership.mem]

lemma notMem_heap_of_bornAt {o : Obj} (hnew : s.bornAt o = none) : o ∉ s.heap := by
  intro ho
  obtain ⟨b, hb, -⟩ := s.mem_heap_iff.mp ho
  rw [hnew] at hb
  cases hb

/-! #### An allocation -/

section Alloc

variable [DecidableEq Ref] {a : Ref} {o : Obj}

open Classical in
/-- An object that never was is allocated at a free address. -/
noncomputable def alloc (s : History Ref Obj) (a : Ref) (o : Obj) (hfree : s.heap.objectAt a = none)
    (hnew : s.bornAt o = none) : History Ref Obj where
  heap := s.heap.alloc a o (notMem_heap_of_bornAt hnew)
  gcs := s.gcs
  bornAt := Function.update s.bornAt o (some s.gcs)
  reached := s.reached
  bornAt_le := by
    intro o' b hb
    by_cases ho : o' = o
    · subst ho
      rw [Function.update_self, Option.some.injEq] at hb
      exact le_of_eq hb.symm
    · rw [Function.update_of_ne ho] at hb
      exact s.bornAt_le hb
  mem_heap_iff := by
    intro o'
    rw [Heap.mem_alloc hfree (notMem_heap_of_bornAt hnew)]
    by_cases ho : o' = o
    · subst ho
      simp only [true_or, Function.update_self, true_iff]
      exact ⟨s.gcs, rfl, fun j hle hlt => absurd hlt (not_lt.mpr hle)⟩
    · rw [Function.update_of_ne ho, s.mem_heap_iff]
      simp [ho]

open Classical in
lemma bornAt_alloc {o' : Obj} (hne : o' ≠ o) (hfree : s.heap.objectAt a = none)
    (hnew : s.bornAt o = none) : (s.alloc a o hfree hnew).bornAt o' = s.bornAt o' :=
  Function.update_of_ne hne _ _

lemma objectAt_alloc_iff {b : Ref} {o' : Obj} (hfree : s.heap.objectAt a = none)
    (hnew : s.bornAt o = none) : (s.alloc a o hfree hnew).heap.objectAt b = some o' ↔
      b = a ∧ o' = o ∨ s.heap.objectAt b = some o' :=
  Heap.objectAt_alloc_iff hfree (notMem_heap_of_bornAt hnew)

lemma FoundDead.alloc {o' : Obj} {k : ℕ} (h : s.FoundDead o' k)
    (hfree : s.heap.objectAt a = none) (hnew : s.bornAt o = none) :
    (s.alloc a o hfree hnew).FoundDead o' k := by
  obtain ⟨b, hbk, hb, hall⟩ := h.first
  have hne : o' ≠ o := by
    rintro rfl
    rw [hnew] at hb
    cases hb
  exact ⟨h.past, h.missed, b, hbk, (bornAt_alloc hne hfree hnew).trans hb, hall⟩

end Alloc

/-! #### A collection -/

section Collect

variable {c : Collection Ref} {heap' : Heap Ref Obj}

/-- The objects that the collection `c` reaches. -/
def reachedBy (s : History Ref Obj) (c : Collection Ref) : Set Obj :=
  {o | ∃ a, s.heap.objectAt a = some o ∧ c.keeps a = true}

/-- A collection takes place and leaves `heap'`. -/
def collect (s : History Ref Obj) (c : Collection Ref) (heap' : Heap Ref Obj)
    (hrel : c.Relocates s.heap heap') : History Ref Obj where
  heap := heap'
  gcs := s.gcs + 1
  bornAt := s.bornAt
  reached := Function.update s.reached s.gcs (s.reachedBy c)
  bornAt_le hb := (s.bornAt_le hb).trans (Nat.le_succ _)
  mem_heap_iff := by
    intro o
    rw [hrel.mem_iff]
    constructor
    · rintro ⟨a, ha, hk⟩
      obtain ⟨b, hb, hall⟩ := s.mem_heap_iff.mp (Heap.mem_of_objectAt ha)
      refine ⟨b, hb, fun j hbj hj => ?_⟩
      by_cases hjg : j = s.gcs
      · rw [hjg, Function.update_self]
        exact ⟨a, ha, hk⟩
      · rw [Function.update_of_ne hjg]
        exact hall j hbj (by omega)
    · rintro ⟨b, hb, hall⟩
      have hlast := hall s.gcs (s.bornAt_le hb) (Nat.lt_succ_self _)
      rw [Function.update_self] at hlast
      exact hlast

/-- All that matters is which objects of the heap the collection keeps. -/
lemma collect_congr {c' : Collection Ref} (hrel : c.Relocates s.heap heap')
    (hrel' : c'.Relocates s.heap heap')
    (hkeeps : ∀ a, (s.heap.objectAt a).isSome → c'.keeps a = c.keeps a) :
    s.collect c' heap' hrel' = s.collect c heap' hrel := by
  have hreached : s.reachedBy c' = s.reachedBy c := by
    ext o
    refine exists_congr fun a => and_congr_right fun ha => ?_
    rw [hkeeps a (by rw [ha]; rfl)]
  simp only [collect, hreached]

/-- What the past collections reached stays as it was. -/
lemma reached_collect (hrel : c.Relocates s.heap heap') {j : ℕ} (hj : j < s.gcs) :
    (s.collect c heap' hrel).reached j = s.reached j :=
  Function.update_of_ne (Nat.ne_of_lt hj) _ _

lemma mem_reached_collect {hrel : c.Relocates s.heap heap'} {a : Ref} {o : Obj}
    (ha : s.heap.objectAt a = some o) :
    o ∈ (s.collect c heap' hrel).reached s.gcs ↔ c.keeps a = true := by
  have hself : (s.collect c heap' hrel).reached s.gcs = s.reachedBy c :=
    Function.update_self _ _ _
  rw [hself]
  constructor
  · rintro ⟨a', ha', hk⟩
    rwa [s.heap.unique ha ha']
  · intro hk
    exact ⟨a, ha, hk⟩

lemma FoundDead.collect {o : Obj} {k : ℕ} (h : s.FoundDead o k)
    (hrel : c.Relocates s.heap heap') : (s.collect c heap' hrel).FoundDead o k := by
  have hpast := h.past
  obtain ⟨b, hbk, hb, hall⟩ := h.first
  refine ⟨Nat.lt_succ_of_lt hpast, ?_, b, hbk, hb, fun j hbj hjk => ?_⟩
  · rw [reached_collect hrel hpast]
    exact h.missed
  · rw [reached_collect hrel (by omega)]
    exact hall j hbj hjk

/-- An object that the collection does not keep is found dead by it. -/
lemma foundDead_collect (hrel : c.Relocates s.heap heap') {a : Ref} {o : Obj}
    (ha : s.heap.objectAt a = some o) (hk : c.keeps a = false) :
    (s.collect c heap' hrel).FoundDead o s.gcs := by
  obtain ⟨b, hb, hall⟩ := s.mem_heap_iff.mp (Heap.mem_of_objectAt ha)
  refine ⟨Nat.lt_succ_self _, ?_, b, s.bornAt_le hb, hb, fun j hbj hj => ?_⟩
  · rw [mem_reached_collect ha, hk]
    exact Bool.false_ne_true
  · rw [reached_collect hrel hj]
    exact hall j hbj hj

/-- An object of the new heap has been reached since the `k`-th collection when that was so before
the last one. -/
lemma reachedSince_collect (hrel : c.Relocates s.heap heap') {o : Obj} {k : ℕ}
    (ho : o ∈ heap') : (s.collect c heap' hrel).ReachedSince k o ↔ s.ReachedSince k o := by
  obtain ⟨a, ha, hk⟩ := hrel.mem_iff.mp ho
  constructor
  · intro h j hkj hj
    rw [← reached_collect hrel hj]
    exact h j hkj (Nat.lt_succ_of_lt hj)
  · intro h j hkj hj
    rcases Nat.lt_succ_iff_lt_or_eq.mp hj with hlt | rfl
    · rw [reached_collect hrel hlt]
      exact h j hkj hlt
    · exact (mem_reached_collect ha).mpr hk

end Collect

end History

end Core
