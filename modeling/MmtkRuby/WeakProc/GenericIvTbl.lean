import Mathlib.Data.Finsupp.Basic
import MmtkRuby.Core.Renaming
import MmtkRuby.ObjectModel.Givtbl

/-!
# `update_generic_iv_tbl`

The copies of a GC record in `moved_givtbl` which objects with a table have moved. When the trace is
over, the record is drained, in whatever order the `HashMap` yields it, and `generic_iv_tbl_` is
renamed entry by entry; then the keys that are not reachable are removed.
-/

namespace MmtkRuby

open Core

/-- `generic_iv_tbl_`. Objects without an entry are at the null pointer. -/
abbrev GenericIvTbl := ObjectReference →₀ Ptr

/-- What CRuby does to the table: `move_givtbl`, and `cleanup_generic_iv_tbl`, which asks which
objects are reachable. -/
structure GivtblUpcalls where
  moveGivtbl : GenericIvTbl → ObjectReference → ObjectReference → GenericIvTbl
  cleanupGenericIvTbl : Traced → GenericIvTbl → GenericIvTbl

/-- `move_givtbl` moves the binding of the old reference, and the clean-up removes the keys that
are not reachable. -/
structure GivtblUpcalls.Lawful (upcalls : GivtblUpcalls) : Prop where
  moved : ∀ tbl old new, tbl old ≠ 0 → tbl new = 0 → old ≠ new →
    Moved (old, new) tbl (upcalls.moveGivtbl tbl old new)
  cleanedUp : ∀ traced tbl object, upcalls.cleanupGenericIvTbl traced tbl object =
    if traced.isReachable object then tbl object else 0

/-- An order in which `HashMap::drain` may yield the entries. -/
structure DrainOrder (movedGivtbl : MovedGivtbl) where
  entries : List (ObjectReference × MovedGIVTblEntry)
  nodup : entries.Nodup
  mem_iff : ∀ objref entry, (objref, entry) ∈ entries ↔ movedGivtbl objref = some entry

namespace WeakProcessor

variable (upcalls : GivtblUpcalls) {movedGivtbl : MovedGivtbl}

/-- The drain loop of `update_generic_iv_tbl`: what it leaves of `moved_givtbl`, and the table. -/
def drainMovedGivtbl (order : DrainOrder movedGivtbl) (tbl : GenericIvTbl) :
    MovedGivtbl × GenericIvTbl :=
  (fun _ => none, order.entries.foldl
    (fun tbl (newObjref, entry) => upcalls.moveGivtbl tbl entry.oldObjref newObjref) tbl)

/-- `WeakProcessor::update_generic_iv_tbl`. -/
def updateGenericIvTbl (traced : Traced) (order : DrainOrder movedGivtbl) (tbl : GenericIvTbl) :
    MovedGivtbl × GenericIvTbl :=
  let (movedGivtbl, tbl) := drainMovedGivtbl upcalls order tbl
  (movedGivtbl, upcalls.cleanupGenericIvTbl traced tbl)

end WeakProcessor

/-! ### The copies of one GC -/

namespace VMObjectModel

/-- The copies of a GC, from the first on. -/
def copyGivtbls (env : GivtblEnv) (copies : List (ObjectReference × ObjectReference)) :
    Except Panic MovedGivtbl :=
  copies.foldlM (copyGivtbl env) fun _ => none

/-- `FL_EXIVAR` is set on the objects that have a table, and on no others. -/
def FlagsMatch (env : GivtblEnv) : Prop :=
  ∀ object, RubyObjectAccess.hasExivarFlag env object = true ↔ env.getOriginalGivtbl object ≠ 0

variable {env : GivtblEnv} {copies : List (ObjectReference × ObjectReference)}

lemma maybeGivtbl_of_flagsMatch (hflags : FlagsMatch env) (object : ObjectReference) :
    maybeGivtbl env object = .ok (RubyObjectAccess.getOriginalGivtbl env object) := by
  have hpanic : ¬ (RubyObjectAccess.hasExivarFlag env object = true ∧
      env.getOriginalGivtbl object = 0) := fun h => (hflags object).mp h.1 h.2
  rw [maybeGivtbl_eq_ok hpanic]
  split_ifs with hflag
  · rw [RubyObjectAccess.getOriginalGivtbl_eq_some.mpr ⟨(hflags object).mp hflag, rfl⟩]
  · have hnone : env.getOriginalGivtbl object = 0 := by
      by_contra hne
      exact hflag ((hflags object).mpr hne)
    rw [RubyObjectAccess.getOriginalGivtbl_eq_none.mpr hnone]

/-- One insertion adds one entry, where there was none before. -/
lemma insertMovedGivtbl_eq_some {movedGivtbl : MovedGivtbl} {fromObj toObj objref : ObjectReference}
    {entry : MovedGIVTblEntry} (hfree : movedGivtbl toObj = none) :
    insertMovedGivtbl movedGivtbl fromObj toObj (RubyObjectAccess.getOriginalGivtbl env fromObj)
        objref = some entry ↔
      movedGivtbl objref = some entry ∨ (toObj = objref ∧ env.getOriginalGivtbl fromObj ≠ 0 ∧
        entry = ⟨fromObj, env.getOriginalGivtbl fromObj⟩) := by
  cases hg : RubyObjectAccess.getOriginalGivtbl env fromObj with
  | none =>
    rw [RubyObjectAccess.getOriginalGivtbl_eq_none] at hg
    simp [insertMovedGivtbl, hg]
  | some givtbl =>
    obtain ⟨hne, rfl⟩ := RubyObjectAccess.getOriginalGivtbl_eq_some.mp hg
    by_cases ho : objref = toObj
    · subst ho
      rw [insertMovedGivtbl_some_self, Option.some.injEq, hfree]
      simp [hne, eq_comm]
    · rw [insertMovedGivtbl_of_ne _ ho]
      simp [Ne.symm ho]

/-- The copies record those of them whose objects have a table. -/
lemma copyGivtbls_eq_ok (hflags : FlagsMatch env) (htargets : (copies.map Prod.snd).Nodup) :
    ∃ movedGivtbl, copyGivtbls env copies = .ok movedGivtbl ∧
      ∀ objref entry, movedGivtbl objref = some entry ↔
        ∃ c ∈ copies, c.2 = objref ∧ env.getOriginalGivtbl c.1 ≠ 0 ∧
          entry = ⟨c.1, env.getOriginalGivtbl c.1⟩ := by
  -- from any record that has nothing at the destinations
  have hfrom : ∀ moved₀ : MovedGivtbl, (∀ c ∈ copies, moved₀ c.2 = none) →
      ∃ movedGivtbl, copies.foldlM (copyGivtbl env) moved₀ = .ok movedGivtbl ∧
        ∀ objref entry, movedGivtbl objref = some entry ↔ moved₀ objref = some entry ∨
          ∃ c ∈ copies, c.2 = objref ∧ env.getOriginalGivtbl c.1 ≠ 0 ∧
            entry = ⟨c.1, env.getOriginalGivtbl c.1⟩ := by
    induction copies with
    | nil => exact fun moved₀ _ => ⟨moved₀, rfl, by simp⟩
    | cons c copies ih =>
      intro moved₀ hfree
      obtain ⟨hnotin, hnodup⟩ := List.nodup_cons.mp htargets
      have hc := hfree c (List.mem_cons_self ..)
      obtain ⟨movedGivtbl, hok, hiff⟩ := ih hnodup
        (insertMovedGivtbl moved₀ c.1 c.2 (RubyObjectAccess.getOriginalGivtbl env c.1)) <| by
          intro d hd
          have hne : d.2 ≠ c.2 := fun heq => hnotin (heq ▸ List.mem_map_of_mem hd)
          rw [insertMovedGivtbl_of_ne _ hne]
          exact hfree d (List.mem_cons_of_mem _ hd)
      refine ⟨movedGivtbl, ?_, fun objref entry => ?_⟩
      · rw [List.foldlM_cons, copyGivtbl, maybeGivtbl_of_flagsMatch hflags]
        exact hok
      · rw [hiff, insertMovedGivtbl_eq_some hc, or_assoc]
        simp only [List.mem_cons, exists_eq_or_imp]
  obtain ⟨movedGivtbl, hok, hiff⟩ := hfrom (fun _ => none) fun _ _ => rfl
  refine ⟨movedGivtbl, hok, fun objref entry => ?_⟩
  rw [hiff]
  simp

end VMObjectModel

/-! ### The renaming -/

variable {upcalls : GivtblUpcalls} {tbl : GenericIvTbl} {movedGivtbl : MovedGivtbl}
  {copies : List (ObjectReference × ObjectReference)}

/-- The record `moved_givtbl` has the copies of the objects that have a table. -/
def MovedGivtbl.Records (movedGivtbl : MovedGivtbl)
    (copies : List (ObjectReference × ObjectReference)) (tbl : GenericIvTbl) : Prop :=
  ∀ objref entry, movedGivtbl objref = some entry ↔
    ∃ c ∈ copies, c.2 = objref ∧ tbl c.1 ≠ 0 ∧ entry = ⟨c.1, tbl c.1⟩

namespace DrainOrder

/-- The moves that the drain loop makes, in its order. -/
def moves (order : DrainOrder movedGivtbl) : List (ObjectReference × ObjectReference) :=
  order.entries.map fun e => (e.2.oldObjref, e.1)

lemma nodup_moves (order : DrainOrder movedGivtbl) : order.moves.Nodup := by
  refine List.Nodup.map_on ?_ order.nodup
  rintro ⟨objref, entry⟩ hx ⟨objref', entry'⟩ hy heq
  obtain ⟨-, rfl⟩ := Prod.mk.injEq _ _ _ _ ▸ heq
  have hx' := (order.mem_iff objref entry).mp hx
  have hy' := (order.mem_iff objref entry').mp hy
  rw [hx', Option.some.injEq] at hy'
  rw [hy']

lemma mem_moves (order : DrainOrder movedGivtbl) (hrec : movedGivtbl.Records copies tbl)
    (p : ObjectReference × ObjectReference) : p ∈ order.moves ↔ p ∈ copies ∧ tbl p.1 ≠ 0 := by
  constructor
  · intro hp
    obtain ⟨⟨objref, entry⟩, he, rfl⟩ := List.mem_map.mp hp
    obtain ⟨c, hc, rfl, hne, rfl⟩ := (hrec objref entry).mp ((order.mem_iff _ _).mp he)
    exact ⟨hc, hne⟩
  · rintro ⟨hp, hne⟩
    have hentry := (hrec p.2 ⟨p.1, tbl p.1⟩).mpr ⟨p, hp, rfl, hne, rfl⟩
    exact List.mem_map.mpr ⟨_, (order.mem_iff _ _).mpr hentry, rfl⟩

/-- Every order makes the same moves: the copies of the objects that have a table. -/
lemma moves_perm (order : DrainOrder movedGivtbl) (hrec : movedGivtbl.Records copies tbl)
    (hapart : Apart copies tbl) :
    order.moves.Perm (copies.filter fun p => decide (tbl p.1 ≠ 0)) := by
  have hnodup : copies.Nodup := List.Nodup.of_map _ hapart.sources
  rw [List.perm_ext_iff_of_nodup order.nodup_moves (hnodup.filter _)]
  intro p
  rw [order.mem_moves hrec, List.mem_filter, decide_eq_true_iff]

/-- There is an order: that of the copies. -/
lemma nonempty_of_records (hrec : movedGivtbl.Records copies tbl) (hapart : Apart copies tbl) :
    Nonempty (DrainOrder movedGivtbl) := by
  classical
  have hnodup : copies.Nodup := List.Nodup.of_map _ hapart.sources
  refine ⟨⟨(copies.filter fun c => decide (tbl c.1 ≠ 0)).map fun c => (c.2, ⟨c.1, tbl c.1⟩),
    ?_, ?_⟩⟩
  · refine List.Nodup.map_on ?_ (hnodup.filter _)
    intro c hc d hd heq
    exact hapart.eq_of_snd_eq (List.mem_of_mem_filter hc) (List.mem_of_mem_filter hd)
      (congrArg Prod.fst heq)
  · intro objref entry
    rw [hrec objref entry, List.mem_map]
    constructor
    · rintro ⟨c, hc, heq⟩
      obtain ⟨hmem, hbound⟩ := List.mem_filter.mp hc
      obtain ⟨rfl, rfl⟩ := Prod.mk.injEq _ _ _ _ ▸ heq
      exact ⟨c, hmem, rfl, of_decide_eq_true hbound, rfl⟩
    · rintro ⟨c, hc, rfl, hbound, rfl⟩
      exact ⟨c, List.mem_filter.mpr ⟨hc, decide_eq_true hbound⟩, rfl⟩

end DrainOrder

namespace WeakProcessor

/-- The drain loop renames the moved objects, whatever the order. -/
lemma renamed_drainMovedGivtbl (hlaw : upcalls.Lawful) (order : DrainOrder movedGivtbl)
    (hrec : movedGivtbl.Records copies tbl) (hapart : Apart copies tbl) :
    Renamed copies tbl (drainMovedGivtbl upcalls order tbl).2 := by
  have hfold : (drainMovedGivtbl upcalls order tbl).2 =
      order.moves.foldl (fun tbl p => upcalls.moveGivtbl tbl p.1 p.2) tbl := by
    rw [DrainOrder.moves, List.foldl_map]
    rfl
  have hperm := order.moves_perm hrec hapart
  have hmoves := Renamed.foldl order.moves tbl hlaw.moved ((hapart.filter _).perm hperm.symm)
    fun p hp => ((order.mem_moves hrec p).mp hp).2
  rw [hfold]
  refine Renamed.of_filter (b := fun p => decide (tbl p.1 ≠ 0)) hapart ?_ ?_
  · intro p _ hb
    by_contra hne
    exact of_decide_eq_false hb hne
  · exact hmoves.of_mem_iff fun p => hperm.mem_iff

/-- What `update_generic_iv_tbl` does in a GC with the given copies: the record is emptied and the
table renamed, and of the table stay the bindings of the surviving objects. -/
structure UpdatesGenericIvTbl (upcalls : GivtblUpcalls) (traced : Traced)
    (copies : List (ObjectReference × ObjectReference)) (tbl : GenericIvTbl)
    {movedGivtbl : MovedGivtbl} (order : DrainOrder movedGivtbl) : Prop where
  drained : (drainMovedGivtbl upcalls order tbl).1 = fun _ => none
  renamed : Renamed copies tbl (drainMovedGivtbl upcalls order tbl).2
  card : (drainMovedGivtbl upcalls order tbl).2.support.card = tbl.support.card
  surviving : ∀ objref givtbl, givtbl ≠ 0 →
    ((updateGenericIvTbl upcalls traced order tbl).2 objref = givtbl ↔
      ∃ object, current copies object = objref ∧ traced.isReachable objref = true ∧
        tbl object = givtbl)

/-- Whatever the copies of a GC, and whatever the order of the drain, exactly the moved objects are
renamed. -/
theorem updateGenericIvTbl_renames (hlaw : upcalls.Lawful) (traced : Traced) (tbl : GenericIvTbl)
    (loadFlags : ObjectReference → ℕ) (hflags : VMObjectModel.FlagsMatch ⟨tbl, loadFlags⟩)
    (copies : List (ObjectReference × ObjectReference)) (hapart : Apart copies tbl) :
    ∃ movedGivtbl, VMObjectModel.copyGivtbls ⟨tbl, loadFlags⟩ copies = .ok movedGivtbl ∧
      Nonempty (DrainOrder movedGivtbl) ∧
      ∀ order : DrainOrder movedGivtbl, UpdatesGenericIvTbl upcalls traced copies tbl order := by
  obtain ⟨movedGivtbl, hok, hrec⟩ := VMObjectModel.copyGivtbls_eq_ok hflags hapart.targets
  refine ⟨movedGivtbl, hok, DrainOrder.nonempty_of_records hrec hapart, fun order => ?_⟩
  have hrenamed := renamed_drainMovedGivtbl hlaw order hrec hapart
  refine ⟨rfl, hrenamed, hrenamed.card_support hapart, fun objref givtbl hne => ?_⟩
  have hclean : (updateGenericIvTbl upcalls traced order tbl).2 objref =
      if traced.isReachable objref then (drainMovedGivtbl upcalls order tbl).2 objref else 0 :=
    hlaw.cleanedUp _ _ _
  rw [hclean]
  split_ifs with hreach
  · rw [hrenamed.eq_iff hapart hne]
    simp [hreach]
  · simp [hreach, hne.symm]

/-- The operations of an `st_table`. -/
noncomputable def stTableUpcalls : GivtblUpcalls where
  moveGivtbl tbl old new := (tbl.erase old).update new (tbl old)
  cleanupGenericIvTbl traced tbl := tbl.filter fun object => traced.isReachable object = true

lemma lawful_stTableUpcalls : stTableUpcalls.Lawful where
  moved tbl old new _ _ hne := by
    refine ⟨?_, ?_, ?_⟩
    · simp [stTableUpcalls]
    · simp [stTableUpcalls, Function.update_of_ne hne]
    · intro k hold hnew
      simp [stTableUpcalls, Function.update_of_ne hnew, Finsupp.erase_ne hold]
  cleanedUp traced tbl object := by
    simp [stTableUpcalls, Finsupp.filter_apply]

/-- `FL_EXIVAR` is set on the objects that have an entry in the table. -/
noncomputable def exivarEnv (tbl : GenericIvTbl) : GivtblEnv :=
  ⟨tbl, fun object => if tbl object = 0 then 0 else rubyFlExivar⟩

lemma flagsMatch_exivarEnv (tbl : GenericIvTbl) : VMObjectModel.FlagsMatch (exivarEnv tbl) := by
  intro object
  by_cases ho : tbl object = 0
  · simp [exivarEnv, RubyObjectAccess.hasExivarFlag, ho]
  · simp [exivarEnv, RubyObjectAccess.hasExivarFlag, rubyFlExivar, ho]

lemma apart_single {a b : ObjectReference} (hne : a ≠ b) :
    Apart [(a, b)] (Finsupp.single a 7 : GenericIvTbl) :=
  ⟨by simp, by simp, by simp, by simp [Finsupp.single_apply, hne]⟩

/-- Two objects with the tables 7 and 8 are moved, and one without a table. -/
theorem updateGenericIvTbl_renames_two : ∃ (a b c a' b' c' : ObjectReference) (tbl : GenericIvTbl)
    (movedGivtbl : MovedGivtbl), tbl a = 7 ∧ tbl b = 8 ∧ tbl c = 0 ∧
      VMObjectModel.copyGivtbls (exivarEnv tbl) [(a, a'), (b, b'), (c, c')] = .ok movedGivtbl ∧
      Nonempty (DrainOrder movedGivtbl) ∧
      ∀ order : DrainOrder movedGivtbl, UpdatesGenericIvTbl stTableUpcalls
        ⟨fun _ => true, fun _ => true, fun _ => none⟩ [(a, a'), (b, b'), (c, c')] tbl order := by
  let a : ObjectReference := ⟨4096, by decide⟩
  let b : ObjectReference := ⟨4160, by decide⟩
  let c : ObjectReference := ⟨4224, by decide⟩
  let a' : ObjectReference := ⟨8192, by decide⟩
  let b' : ObjectReference := ⟨8256, by decide⟩
  let c' : ObjectReference := ⟨8320, by decide⟩
  let tbl : GenericIvTbl := (Finsupp.single a 7).update b 8
  have htbl : ∀ x, tbl x = if x = b then 8 else if x = a then 7 else 0 := by
    intro x
    simp [tbl, Function.update_apply, Finsupp.single_apply, eq_comm]
  have hapart : Apart [(a, a'), (b, b'), (c, c')] tbl :=
    ⟨by decide, by decide, by decide, by simp only [htbl]; decide⟩
  obtain ⟨movedGivtbl, hok, horder, hupdates⟩ := updateGenericIvTbl_renames lawful_stTableUpcalls
    ⟨fun _ => true, fun _ => true, fun _ => none⟩ tbl (exivarEnv tbl).loadFlags
    (flagsMatch_exivarEnv tbl) _ hapart
  exact ⟨a, b, c, a', b', c', tbl, movedGivtbl, by rw [htbl]; decide, by rw [htbl]; decide,
    by rw [htbl]; decide, hok, horder, hupdates⟩

end WeakProcessor

end MmtkRuby
