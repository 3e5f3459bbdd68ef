import MmtkRuby.Basic

/-!
# Generic instance variable tables of moved objects

CRuby keeps the instance variables of some objects in a table of their own, which it finds in the
global `generic_iv_tbl_` under the reference of the object. That table is not renamed while objects
are moved: what has been moved is recorded in `moved_givtbl` until the trace is over.
-/

namespace MmtkRuby

/-- A raw pointer. The null pointer is `0`. -/
abbrev Ptr := ℕ

/-- What CRuby and the objects themselves hold while the mutators are stopped and objects are
moved: `get_original_givtbl`, which looks up `generic_iv_tbl_` and returns the null pointer where
there is no entry, and the flags words. -/
structure GivtblEnv where
  getOriginalGivtbl : ObjectReference → Ptr
  loadFlags : ObjectReference → ℕ

structure MovedGIVTblEntry where
  oldObjref : ObjectReference
  genIvtbl : Ptr
deriving DecidableEq, Repr

/-- `HashMap<ObjectReference, MovedGIVTblEntry>`. -/
abbrev MovedGivtbl := ObjectReference → Option MovedGIVTblEntry

def rubyFlExivar : ℕ := 1 <<< 10

namespace RubyObjectAccess

variable (env : GivtblEnv) (objref : ObjectReference)

def hasExivarFlag : Bool := env.loadFlags objref &&& rubyFlExivar != 0

def getOriginalGivtbl : Option Ptr :=
  let addr := env.getOriginalGivtbl objref
  if addr = 0 then none else some addr

/-- The second half of `get_givtbl`, with `moved_givtbl` locked. -/
def getMovedGivtbl (movedGivtbl : MovedGivtbl) : Except Panic Ptr :=
  match movedGivtbl objref with
  | some entry => .ok entry.genIvtbl
  | none => .error (.givtblNotFound objref)

/-- `get_givtbl`, which is also `mmtk_get_givtbl_during_gc`. -/
def getGivtbl (movedGivtbl : MovedGivtbl) : Except Panic Ptr :=
  match getOriginalGivtbl env objref with
  | some givtbl => .ok givtbl
  | none => getMovedGivtbl objref movedGivtbl

variable {env objref}

lemma getOriginalGivtbl_eq_some {givtbl : Ptr} :
    getOriginalGivtbl env objref = some givtbl ↔
      givtbl ≠ 0 ∧ env.getOriginalGivtbl objref = givtbl := by
  dsimp only [getOriginalGivtbl]
  split_ifs with h
  · constructor
    · intro hnone
      cases hnone
    · rintro ⟨hne, rfl⟩
      exact absurd h hne
  · rw [Option.some.injEq]
    constructor
    · rintro rfl
      exact ⟨h, rfl⟩
    · exact And.right

lemma getOriginalGivtbl_eq_none :
    getOriginalGivtbl env objref = none ↔ env.getOriginalGivtbl objref = 0 := by
  simp [getOriginalGivtbl]

end RubyObjectAccess

/-! ### Copying -/

namespace VMObjectModel

/-- `maybe_givtbl`, which `copy` reads before it moves the object. -/
def maybeGivtbl (env : GivtblEnv) (fromObj : ObjectReference) :
    Except Panic (Option Ptr) :=
  if RubyObjectAccess.hasExivarFlag env fromObj then
    match RubyObjectAccess.getOriginalGivtbl env fromObj with
    | some givtbl => .ok (some givtbl)
    | none => .error (.exivarWithoutGivtbl fromObj)
  else .ok none

/-- What is read concerns the object alone. -/
lemma maybeGivtbl_congr {env env' : GivtblEnv} {fromObj : ObjectReference}
    (hflags : env.loadFlags fromObj = env'.loadFlags fromObj)
    (hgivtbl : env.getOriginalGivtbl fromObj = env'.getOriginalGivtbl fromObj) :
    maybeGivtbl env fromObj = maybeGivtbl env' fromObj := by
  have hflag : RubyObjectAccess.hasExivarFlag env fromObj =
      RubyObjectAccess.hasExivarFlag env' fromObj := by
    rw [RubyObjectAccess.hasExivarFlag, RubyObjectAccess.hasExivarFlag, hflags]
  have horiginal : RubyObjectAccess.getOriginalGivtbl env fromObj =
      RubyObjectAccess.getOriginalGivtbl env' fromObj := by
    simp only [RubyObjectAccess.getOriginalGivtbl, hgivtbl]
  rw [maybeGivtbl, maybeGivtbl, hflag, horiginal]

/-- `copy` panics on an object with `FL_EXIVAR` but no table, and on no other. -/
lemma maybeGivtbl_eq_error {env : GivtblEnv} {fromObj : ObjectReference}
    (hflag : RubyObjectAccess.hasExivarFlag env fromObj = true)
    (hnull : env.getOriginalGivtbl fromObj = 0) :
    maybeGivtbl env fromObj = .error (.exivarWithoutGivtbl fromObj) := by
  rw [maybeGivtbl, if_pos hflag, RubyObjectAccess.getOriginalGivtbl_eq_none.mpr hnull]

lemma maybeGivtbl_eq_ok {env : GivtblEnv} {fromObj : ObjectReference}
    (h : ¬ (RubyObjectAccess.hasExivarFlag env fromObj = true ∧
      env.getOriginalGivtbl fromObj = 0)) :
    maybeGivtbl env fromObj = .ok (if RubyObjectAccess.hasExivarFlag env fromObj then
      some (env.getOriginalGivtbl fromObj) else none) := by
  unfold maybeGivtbl
  split_ifs with hflag
  · have hne : env.getOriginalGivtbl fromObj ≠ 0 := fun hnull => h ⟨hflag, hnull⟩
    rw [RubyObjectAccess.getOriginalGivtbl_eq_some.mpr ⟨hne, rfl⟩]
  · rfl

/-- What `copy` does at last, with `moved_givtbl` locked. -/
def insertMovedGivtbl (movedGivtbl : MovedGivtbl) (fromObj toObj : ObjectReference)
    (maybeGivtbl : Option Ptr) : MovedGivtbl :=
  match maybeGivtbl with
  | some givtbl => Function.update movedGivtbl toObj (some ⟨fromObj, givtbl⟩)
  | none => movedGivtbl

/-- What one call of `copy` does with the tables of the objects. -/
def copyGivtbl (env : GivtblEnv) (movedGivtbl : MovedGivtbl)
    (c : ObjectReference × ObjectReference) : Except Panic MovedGivtbl := do
  let maybeGivtbl ← maybeGivtbl env c.1
  return insertMovedGivtbl movedGivtbl c.1 c.2 maybeGivtbl

/-- An insertion changes what is recorded for the new object, and nothing else. -/
lemma insertMovedGivtbl_of_ne {movedGivtbl : MovedGivtbl} {fromObj toObj objref : ObjectReference}
    (maybeGivtbl : Option Ptr) (hne : objref ≠ toObj) :
    insertMovedGivtbl movedGivtbl fromObj toObj maybeGivtbl objref = movedGivtbl objref := by
  cases maybeGivtbl with
  | none => rfl
  | some givtbl => exact Function.update_of_ne hne _ _

lemma insertMovedGivtbl_some_self (movedGivtbl : MovedGivtbl) (fromObj toObj : ObjectReference)
    (givtbl : Ptr) :
    insertMovedGivtbl movedGivtbl fromObj toObj (some givtbl) toObj = some ⟨fromObj, givtbl⟩ :=
  Function.update_self _ _ _

end VMObjectModel

end MmtkRuby
