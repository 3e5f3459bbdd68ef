import MmtkRuby.Core.TransitionSystem
import MmtkRuby.WeakProc.GenericIvTbl

/-!
# Generic instance variable tables over many GCs

`generic_iv_tbl_` has addresses for keys, and the flags word of an object says whether there is an
entry for it. Objects move and die, and addresses are used again; what stays is that an object has
the table that it was given, and nothing else has one.
-/

namespace MmtkRuby

open Core

namespace GivtblHistory

variable {Obj : Type*}

/-- The table and the record of moved tables in a heap. The flags word of an object is part of the
object, and is copied with it. -/
structure State (Obj : Type*) where
  genericIvTbl : GenericIvTbl
  movedGivtbl : MovedGivtbl
  history : History ObjectReference Obj
  flags : Obj → ℕ
  /-- the table that CRuby last gave to the object, or null -/
  givtbl : Obj → Ptr

/-- What `copy` and `get_givtbl` find in the state. -/
def State.env (s : State Obj) : GivtblEnv where
  getOriginalGivtbl := s.genericIvTbl
  loadFlags object := (s.history.heap.objectAt object).elim 0 s.flags

/-- `FL_EXIVAR` is set in a flags word. -/
def HasExivar (flags : ℕ) : Prop := flags &&& rubyFlExivar ≠ 0

instance (flags : ℕ) : Decidable (HasExivar flags) := inferInstanceAs (Decidable (_ ≠ _))

/-- The copies of a GC are the moves of the objects that it keeps, each to fresh memory, and what
has been copied is reachable. -/
structure CopiesOf (traced : Traced) (heap : Heap ObjectReference Obj)
    (copies : List (ObjectReference × ObjectReference)) : Prop where
  nodup : copies.Nodup
  mem_iff : ∀ p, p ∈ copies ↔ (heap.objectAt p.1).isSome ∧ traced.isReachable p.1 = true ∧
    p.1.forward traced = p.2 ∧ p.2 ≠ p.1
  fresh : ∀ p ∈ copies, heap.objectAt p.2 = none
  reachable : ∀ p ∈ copies, traced.isReachable p.2 = true

inductive Step (upcalls : GivtblUpcalls) : State Obj → Actor → State Obj → Prop where
  | alloc {s : State Obj} (a : ObjectReference) (o : Obj) (flags : ℕ)
      (hfree : s.history.heap.objectAt a = none) (hnew : s.history.bornAt o = none)
      (hflags : ¬ HasExivar flags) :
      Step upcalls s .mutator
        { s with
          history := s.history.alloc a o hfree hnew
          flags := fun o' => open Classical in if o' = o then flags else s.flags o'
          givtbl := fun o' => open Classical in if o' = o then 0 else s.givtbl o' }
  -- CRuby gives an object a table, another table, or none
  | setGivtbl {s : State Obj} (object : ObjectReference) (o : Obj) (givtbl : Ptr) (flags : ℕ)
      (ho : s.history.heap.objectAt object = some o) (hflags : HasExivar flags ↔ givtbl ≠ 0) :
      Step upcalls s .mutator
        { s with
          genericIvTbl := s.genericIvTbl.update object givtbl
          flags := fun o' => open Classical in if o' = o then flags else s.flags o'
          givtbl := fun o' => open Classical in if o' = o then givtbl else s.givtbl o' }
  | gc {s : State Obj} (traced : Traced) (heap' : Heap ObjectReference Obj)
      (hrel : traced.collection.Relocates s.history.heap heap')
      {copies : List (ObjectReference × ObjectReference)}
      (hcopies : CopiesOf traced s.history.heap copies) {movedGivtbl : MovedGivtbl}
      (hmoved : copies.foldlM (VMObjectModel.copyGivtbl s.env) s.movedGivtbl = .ok movedGivtbl)
      (order : DrainOrder movedGivtbl) :
      Step upcalls s .gc
        { s with
          genericIvTbl := (WeakProcessor.updateGenericIvTbl upcalls traced order s.genericIvTbl).2
          movedGivtbl := (WeakProcessor.updateGenericIvTbl upcalls traced order s.genericIvTbl).1
          history := s.history.collect traced.collection heap' hrel }

/-- Runs from a heap in which no object has a table. -/
def system (Obj : Type*) (upcalls : GivtblUpcalls) : TransitionSystem (State Obj) Actor where
  init s := s.genericIvTbl = 0 ∧ s.movedGivtbl = (fun _ => none) ∧
    ∀ o, ¬ HasExivar (s.flags o) ∧ s.givtbl o = 0
  step := Step upcalls

/-- The entries of the table are those of the objects in the heap, and their flags say so. -/
structure Tracked (s : State Obj) : Prop where
  drained : s.movedGivtbl = fun _ => none
  bound : ∀ {a o}, s.history.heap.objectAt a = some o → s.genericIvTbl a = s.givtbl o
  unbound : ∀ {a}, s.history.heap.objectAt a = none → s.genericIvTbl a = 0
  flags : ∀ o, HasExivar (s.flags o) ↔ s.givtbl o ≠ 0

namespace Tracked

variable {s : State Obj}

/-- The flags that are read at any address tell whether it has an entry. -/
lemma flagsMatch (h : Tracked s) : VMObjectModel.FlagsMatch s.env := by
  intro object
  cases hobj : s.history.heap.objectAt object with
  | none => simp [RubyObjectAccess.hasExivarFlag, State.env, hobj, h.unbound hobj]
  | some o =>
    rw [show s.env.getOriginalGivtbl object = s.givtbl o from h.bound hobj, ← h.flags o]
    simp [RubyObjectAccess.hasExivarFlag, State.env, hobj, HasExivar]

/-- An entry is that of the object at its key. -/
lemma genericIvTbl_eq_iff (h : Tracked s) {a : ObjectReference} {givtbl : Ptr} (hne : givtbl ≠ 0) :
    s.genericIvTbl a = givtbl ↔
      ∃ o, s.history.heap.objectAt a = some o ∧ s.givtbl o = givtbl := by
  cases hobj : s.history.heap.objectAt a with
  | none => simp [h.unbound hobj, hne.symm]
  | some o => simp [h.bound hobj]

/-- A change of one object's table and flags. -/
lemma setGivtbl (h : Tracked s) {object : ObjectReference} {o : Obj} {givtbl : Ptr} {flags : ℕ}
    (ho : s.history.heap.objectAt object = some o) (hflags : HasExivar flags ↔ givtbl ≠ 0) :
    Tracked { s with
      genericIvTbl := s.genericIvTbl.update object givtbl
      flags := fun o' => open Classical in if o' = o then flags else s.flags o'
      givtbl := fun o' => open Classical in if o' = o then givtbl else s.givtbl o' } where
  drained := h.drained
  bound := by
    classical
    intro a o' ha
    by_cases hao : a = object
    · subst hao
      obtain rfl : o' = o := Option.some.inj (ha.symm.trans ho)
      simp
    · have hne : o' ≠ o := fun heq => hao (s.history.heap.unique (heq ▸ ha) ho)
      simp only [hne, if_false, Finsupp.coe_update, Function.update_of_ne hao]
      exact h.bound ha
  unbound := by
    intro a ha
    have hao : a ≠ object := by
      rintro rfl
      rw [ho] at ha
      cases ha
    simp only [Finsupp.coe_update, Function.update_of_ne hao]
    exact h.unbound ha
  flags := by
    classical
    intro o'
    by_cases hne : o' = o
    · simpa [hne] using hflags
    · simpa [hne] using h.flags o'

/-- A new object has no table, also at a recycled address. -/
lemma alloc (h : Tracked s) {a : ObjectReference} {o : Obj} {flags : ℕ}
    (hfree : s.history.heap.objectAt a = none) (hnew : s.history.bornAt o = none)
    (hflags : ¬ HasExivar flags) :
    Tracked { s with
      history := s.history.alloc a o hfree hnew
      flags := fun o' => open Classical in if o' = o then flags else s.flags o'
      givtbl := fun o' => open Classical in if o' = o then 0 else s.givtbl o' } where
  drained := h.drained
  bound := by
    classical
    intro b o' hb
    rcases (History.objectAt_alloc_iff hfree hnew).mp hb with ⟨rfl, rfl⟩ | hold
    · simpa using h.unbound hfree
    · have hne : o' ≠ o := by
        rintro rfl
        exact History.notMem_heap_of_bornAt hnew (Heap.mem_of_objectAt hold)
      simpa [hne] using h.bound hold
  unbound := by
    intro b hb
    refine h.unbound ?_
    by_contra hne
    obtain ⟨o', ho'⟩ := Option.ne_none_iff_exists'.mp hne
    have hb' := (History.objectAt_alloc_iff hfree hnew).mpr (Or.inr ho')
    rw [hb'] at hb
    cases hb
  flags := by
    classical
    intro o'
    by_cases hne : o' = o
    · simpa [hne] using hflags
    · simpa [hne] using h.flags o'

section Gc

variable {traced : Traced} {heap' : Heap ObjectReference Obj}
  {copies : List (ObjectReference × ObjectReference)}

/-- The copies of a GC do not get in each other's way. -/
lemma apart (h : Tracked s) (hrel : traced.collection.Relocates s.history.heap heap')
    (hcopies : CopiesOf traced s.history.heap copies) : Apart copies s.genericIvTbl where
  sources := by
    refine List.Nodup.map_on ?_ hcopies.nodup
    intro p hp q hq heq
    obtain ⟨-, -, hpfwd, -⟩ := (hcopies.mem_iff p).mp hp
    obtain ⟨-, -, hqfwd, -⟩ := (hcopies.mem_iff q).mp hq
    exact Prod.ext heq (by rw [← hpfwd, ← hqfwd, heq])
  targets := by
    refine List.Nodup.map_on ?_ hcopies.nodup
    intro p hp q hq heq
    obtain ⟨hpsome, hpk, hpfwd, -⟩ := (hcopies.mem_iff p).mp hp
    obtain ⟨hqsome, hqk, hqfwd, -⟩ := (hcopies.mem_iff q).mp hq
    obtain ⟨o, ho⟩ := Option.isSome_iff_exists.mp hpsome
    obtain ⟨o', ho'⟩ := Option.isSome_iff_exists.mp hqsome
    have hp' : heap'.objectAt p.2 = some o := hpfwd ▸ hrel.objectAt_forward ho hpk
    have hq' : heap'.objectAt p.2 = some o' := by
      rw [heq, ← hqfwd]
      exact hrel.objectAt_forward ho' hqk
    obtain rfl : o = o' := Option.some.inj (hp'.symm.trans hq')
    exact Prod.ext (s.history.heap.unique ho ho') heq
  apart p hp q hq _ := by
    intro heq
    have hsome := ((hcopies.mem_iff p).mp hp).1
    rw [heq, hcopies.fresh q hq] at hsome
    cases hsome
  free p hp := h.unbound (hcopies.fresh p hp)

/-- Where an object goes is where its key goes. -/
lemma current_eq_forward (h : Tracked s) (hrel : traced.collection.Relocates s.history.heap heap')
    (hcopies : CopiesOf traced s.history.heap copies) {a : ObjectReference} {o : Obj}
    (ho : s.history.heap.objectAt a = some o) (hk : traced.isReachable a = true) :
    current copies a = a.forward traced := by
  have hapart := h.apart hrel hcopies
  by_cases hmove : a.forward traced = a
  · rw [hmove, current_of_notMem]
    rintro p hp rfl
    obtain ⟨-, -, hfwd, hne⟩ := (hcopies.mem_iff p).mp hp
    exact hne (hfwd.symm.trans hmove)
  · have hmem : (a, a.forward traced) ∈ copies :=
      (hcopies.mem_iff _).mpr ⟨by rw [ho]; rfl, hk, rfl, hmove⟩
    exact current_of_mem hapart hmem

/-- An object that is not kept stays where it is, and is not reachable. -/
lemma current_eq_self (hcopies : CopiesOf traced s.history.heap copies) {a : ObjectReference}
    (hk : traced.isReachable a = false) : current copies a = a := by
  refine current_of_notMem ?_
  rintro p hp rfl
  have := ((hcopies.mem_iff p).mp hp).2.1
  rw [hk] at this
  cases this

/-- A key is reachable after the copies when it was before. -/
lemma isReachable_current (h : Tracked s) (hrel : traced.collection.Relocates s.history.heap heap')
    (hcopies : CopiesOf traced s.history.heap copies) {a : ObjectReference} {o : Obj}
    (ho : s.history.heap.objectAt a = some o) :
    traced.isReachable (current copies a) = traced.isReachable a := by
  cases hk : traced.isReachable a with
  | false => rw [current_eq_self hcopies hk, hk]
  | true =>
    rw [h.current_eq_forward hrel hcopies ho hk]
    by_cases hmove : a.forward traced = a
    · rw [hmove, hk]
    · have hmem : (a, a.forward traced) ∈ copies :=
        (hcopies.mem_iff _).mpr ⟨by rw [ho]; rfl, hk, rfl, hmove⟩
      exact hcopies.reachable _ hmem

/-- The keys after a GC are those of the objects that it has kept. -/
lemma updateGenericIvTbl_eq_iff (h : Tracked s) {upcalls : GivtblUpcalls} (hlaw : upcalls.Lawful)
    (hrel : traced.collection.Relocates s.history.heap heap')
    (hcopies : CopiesOf traced s.history.heap copies) {movedGivtbl : MovedGivtbl}
    (hmoved : copies.foldlM (VMObjectModel.copyGivtbl s.env) s.movedGivtbl = .ok movedGivtbl)
    (order : DrainOrder movedGivtbl) {b : ObjectReference} {givtbl : Ptr} (hne : givtbl ≠ 0) :
    (WeakProcessor.updateGenericIvTbl upcalls traced order s.genericIvTbl).2 b = givtbl ↔
      ∃ o, heap'.objectAt b = some o ∧ s.givtbl o = givtbl := by
  have hapart := h.apart hrel hcopies
  -- the record has the copies of the objects that have a table
  obtain ⟨moved, hok, hrec⟩ := VMObjectModel.copyGivtbls_eq_ok h.flagsMatch hapart.targets
  rw [h.drained] at hmoved
  obtain rfl : moved = movedGivtbl := Except.ok.inj (hok.symm.trans hmoved)
  have hrenamed := WeakProcessor.renamed_drainMovedGivtbl hlaw order hrec hapart
  have hclean : (WeakProcessor.updateGenericIvTbl upcalls traced order s.genericIvTbl).2 b =
      if traced.isReachable b then
        (WeakProcessor.drainMovedGivtbl upcalls order s.genericIvTbl).2 b else 0 :=
    hlaw.cleanedUp _ _ _
  rw [hclean]
  constructor
  · intro hb
    split_ifs at hb with hreach
    · obtain ⟨a, hab, ha⟩ := (hrenamed.eq_iff hapart hne).mp hb
      obtain ⟨o, ho, hgivtbl⟩ := (h.genericIvTbl_eq_iff hne).mp ha
      have hk : traced.isReachable a = true := by
        rw [← h.isReachable_current hrel hcopies ho, hab, hreach]
      have hforward := (h.current_eq_forward hrel hcopies ho hk).symm.trans hab
      exact ⟨o, (hrel b o).mpr ⟨a, ho, hk, hforward⟩, hgivtbl⟩
    · exact absurd hb.symm hne
  · rintro ⟨o, hb, hgivtbl⟩
    obtain ⟨a, ho, hk, hab⟩ := (hrel b o).mp hb
    have hcurrent : current copies a = b := (h.current_eq_forward hrel hcopies ho hk).trans hab
    have hreach : traced.isReachable b = true := by
      rw [← hcurrent, h.isReachable_current hrel hcopies ho]
      exact hk
    rw [if_pos hreach]
    exact (hrenamed.eq_iff hapart hne).mpr
      ⟨a, hcurrent, (h.genericIvTbl_eq_iff hne).mpr ⟨o, ho, hgivtbl⟩⟩

/-- A GC renames the entries of the objects that it keeps and drops the others. -/
lemma gc (h : Tracked s) {upcalls : GivtblUpcalls} (hlaw : upcalls.Lawful)
    (hrel : traced.collection.Relocates s.history.heap heap')
    (hcopies : CopiesOf traced s.history.heap copies) {movedGivtbl : MovedGivtbl}
    (hmoved : copies.foldlM (VMObjectModel.copyGivtbl s.env) s.movedGivtbl = .ok movedGivtbl)
    (order : DrainOrder movedGivtbl) :
    Tracked { s with
      genericIvTbl := (WeakProcessor.updateGenericIvTbl upcalls traced order s.genericIvTbl).2
      movedGivtbl := (WeakProcessor.updateGenericIvTbl upcalls traced order s.genericIvTbl).1
      history := s.history.collect traced.collection heap' hrel } := by
  have hentry : ∀ b givtbl, givtbl ≠ 0 →
      ((WeakProcessor.updateGenericIvTbl upcalls traced order s.genericIvTbl).2 b = givtbl ↔
        ∃ o, heap'.objectAt b = some o ∧ s.givtbl o = givtbl) :=
    fun _ _ hne => h.updateGenericIvTbl_eq_iff hlaw hrel hcopies hmoved order hne
  refine ⟨rfl, ?_, ?_, h.flags⟩
  · intro b o hb
    by_cases hne : s.givtbl o = 0
    · rw [hne]
      by_contra hbound
      obtain ⟨o', hb', hgivtbl⟩ := (hentry b _ hbound).mp rfl
      obtain rfl : o = o' := Option.some.inj (hb.symm.trans hb')
      exact hbound (hgivtbl.symm.trans hne)
    · exact (hentry b _ hne).mpr ⟨o, hb, rfl⟩
  · intro b hb
    by_contra hbound
    obtain ⟨o, hb', -⟩ := (hentry b _ hbound).mp rfl
    have hb'' : heap'.objectAt b = none := hb
    rw [hb''] at hb'
    cases hb'

end Gc

end Tracked

lemma tracked_invariant {upcalls : GivtblUpcalls} (hlaw : upcalls.Lawful) :
    (system Obj upcalls).IsInvariant Tracked where
  init := by
    rintro s ⟨htbl, hmoved, hnone⟩
    refine ⟨hmoved, ?_, ?_, ?_⟩
    · intro a o _
      rw [htbl, (hnone o).2]
      rfl
    · intro a _
      rw [htbl]
      rfl
    · intro o
      simp [hnone o]
  step := by
    intro s l s' _ h hstep
    cases hstep with
    | alloc a o flags hfree hnew hflags => exact h.alloc hfree hnew hflags
    | setGivtbl object o givtbl flags ho hflags => exact h.setGivtbl ho hflags
    | gc traced heap' hrel hcopies hmoved order => exact h.gc hlaw hrel hcopies hmoved order

/-- The table has an entry for each object in the heap that was given one, at the address of the
object, and no other; nothing is left in the record; a lookup finds the entry; and no copy of the
next GC panics. -/
structure FollowsObjects (s : State Obj) : Prop where
  entries : ∀ a givtbl, givtbl ≠ 0 → (s.genericIvTbl a = givtbl ↔
    ∃ o, s.history.heap.objectAt a = some o ∧ s.givtbl o = givtbl)
  drained : s.movedGivtbl = fun _ => none
  getGivtbl : ∀ {a o}, s.history.heap.objectAt a = some o → s.givtbl o ≠ 0 →
    RubyObjectAccess.getGivtbl s.env a s.movedGivtbl = .ok (s.givtbl o)
  copies : ∀ copies : List (ObjectReference × ObjectReference), (copies.map Prod.snd).Nodup →
    ∃ movedGivtbl, copies.foldlM (VMObjectModel.copyGivtbl s.env) s.movedGivtbl = .ok movedGivtbl

/-- Whatever objects are given tables, move and die in a run, the table follows them. -/
theorem followsObjects_of_reachable {upcalls : GivtblUpcalls} (hlaw : upcalls.Lawful)
    {s : State Obj} (hs : (system Obj upcalls).Reachable s) : FollowsObjects s := by
  have h := (tracked_invariant hlaw).of_reachable hs
  refine ⟨fun a givtbl hne => h.genericIvTbl_eq_iff hne, h.drained, ?_, ?_⟩
  · intro a o ho hne
    have hsome : RubyObjectAccess.getOriginalGivtbl s.env a = some (s.givtbl o) := by
      rw [RubyObjectAccess.getOriginalGivtbl_eq_some]
      exact ⟨hne, h.bound ho⟩
    rw [RubyObjectAccess.getGivtbl, hsome]
  · intro copies htargets
    obtain ⟨movedGivtbl, hok, -⟩ := VMObjectModel.copyGivtbls_eq_ok h.flagsMatch htargets
    refine ⟨movedGivtbl, ?_⟩
    rw [h.drained]
    exact hok

/-- A GC that moves the only object of a heap. -/
lemma exists_single_copy {traced : Traced} {heap : Heap ObjectReference Obj}
    {a b : ObjectReference} {o : Obj}
    (honly : ∀ x o', heap.objectAt x = some o' ↔ x = a ∧ o' = o)
    (ha : traced.isReachable a = true) (hb : traced.isReachable b = true)
    (hfwd : a.forward traced = b) (hne : b ≠ a) :
    ∃ heap', traced.collection.Relocates heap heap' ∧ heap'.objectAt b = some o ∧
      CopiesOf traced heap [(a, b)] := by
  obtain ⟨heap', hrel⟩ := Collection.exists_relocates (c := traced.collection) (h := heap)
      fun x y hx hy _ _ _ => by
    obtain ⟨o₁, ho₁⟩ := Option.isSome_iff_exists.mp hx
    obtain ⟨o₂, ho₂⟩ := Option.isSome_iff_exists.mp hy
    exact ((honly x o₁).mp ho₁).1.trans ((honly y o₂).mp ho₂).1.symm
  refine ⟨heap', hrel, hfwd ▸ hrel.objectAt_forward ((honly a o).mpr ⟨rfl, rfl⟩) ha,
    List.nodup_singleton _, fun p => ?_, fun p hp => ?_, fun p hp => ?_⟩
  · rw [List.mem_singleton, Option.isSome_iff_exists]
    simp only [honly]
    constructor
    · rintro rfl
      exact ⟨⟨o, rfl, rfl⟩, ha, hfwd, hne⟩
    · rintro ⟨⟨o', hpa, -⟩, -, hp, -⟩
      rw [hpa, hfwd] at hp
      exact Prod.ext hpa hp.symm
  · obtain rfl := List.mem_singleton.mp hp
    rw [Option.eq_none_iff_forall_ne_some]
    exact fun o' ho' => hne ((honly b o').mp ho').1
  · obtain rfl := List.mem_singleton.mp hp
    exact hb

/-- An object that was given the table 7 is moved, and still has it. -/
theorem followsObjects_moved : ∃ (s : State ℕ) (b : ObjectReference),
    (system ℕ WeakProcessor.stTableUpcalls).Reachable s ∧ s.history.heap.objectAt b = some 0 ∧
      s.genericIvTbl b = 7 ∧ FollowsObjects s := by
  let a : ObjectReference := ⟨4096, by decide⟩
  let b : ObjectReference := ⟨8192, by decide⟩
  let traced : Traced :=
    ⟨fun _ => true, fun _ => true, fun object => if object = a then b else none⟩
  obtain ⟨heap', hrel, hb, hcopies⟩ := exists_single_copy (b := b) (o := 0)
    (show ∀ x o, (History.start.alloc a 0 rfl rfl).heap.objectAt x = some o ↔ x = a ∧ o = 0 from
      fun x o => (History.objectAt_alloc_iff rfl rfl).trans (by simp [History.start]))
    (show traced.isReachable a = true from rfl) rfl rfl (by decide)
  have hlaw := WeakProcessor.lawful_stTableUpcalls
  have h₀ : (system ℕ WeakProcessor.stTableUpcalls).Reachable
      ⟨0, fun _ => none, History.start, fun _ => 0, fun _ => 0⟩ :=
    .init ⟨rfl, rfl, fun _ => ⟨show ¬ HasExivar 0 by decide, rfl⟩⟩
  have h₁ := h₀.step (.alloc a 0 0 rfl rfl (by decide))
  have h₂ := h₁.step (.setGivtbl a 0 7 rubyFlExivar rfl (by decide))
  have htracked := (tracked_invariant hlaw).of_reachable h₂
  have hapart := htracked.apart hrel hcopies
  obtain ⟨movedGivtbl, hok, hrec⟩ :=
    VMObjectModel.copyGivtbls_eq_ok htracked.flagsMatch hapart.targets
  obtain ⟨order⟩ := DrainOrder.nonempty_of_records hrec hapart
  have h₃ := h₂.step (.gc traced heap' hrel hcopies hok order)
  have hfollows := followsObjects_of_reachable hlaw h₃
  exact ⟨_, b, h₃, hb, (hfollows.entries b 7 (by decide)).mpr ⟨0, hb, if_pos rfl⟩, hfollows⟩

end GivtblHistory

end MmtkRuby
