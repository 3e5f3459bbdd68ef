import MmtkRuby.Core.TransitionSystem
import MmtkRuby.ObjectModel.Copy

/-!
# Looking up tables while objects move

In a GC each object is copied at most once, in steps that interleave with those of the other copies
and of the lookups. A lookup may be given the reference that an object had when the GC started, or
its new one once the copy has returned it.
-/

namespace MmtkRuby

open Core

namespace GivtblLookup

/-- Where the copy of an object stands. -/
inductive CopyPc where
  | notCalled
  | called
  | givtblRead (maybeGivtbl : Option Ptr)
  | copied (maybeGivtbl : Option Ptr) (toObj : ObjectReference)
  /-- past the critical section of `moved_givtbl` -/
  | inserted (toObj : ObjectReference)
  | returned (toObj : ObjectReference)
  | panicked (e : Panic)

/-- Where the object goes, once that is settled. -/
def CopyPc.destination : CopyPc → Option ObjectReference
  | .notCalled | .called | .givtblRead _ | .panicked _ => none
  | .copied _ toObj | .inserted toObj | .returned toObj => some toObj

/-- Where a call of `get_givtbl` on `objref`, a reference to `object`, stands. -/
inductive LookupPc where
  | idle
  | called (object objref : ObjectReference)
  /-- not found in `generic_iv_tbl_`: about to lock `moved_givtbl` -/
  | locking (object objref : ObjectReference)
  | returned (object objref : ObjectReference) (givtbl : Ptr)
  | panicked (e : Panic)

/-- An object is named by the reference that it had when the GC started. Which worker copies it
does not matter. -/
structure State (Worker : Type*) where
  movedGivtbl : MovedGivtbl
  copy : ObjectReference → CopyPc
  lookup : Worker → LookupPc

inductive Label (Worker : Type*) where
  | copy (object : ObjectReference)
  | lookup (worker : Worker)

variable {Worker : Type*}

/-- The references to an object that a worker can hold. -/
def State.RefersTo (s : State Worker) (objref object : ObjectReference) : Prop :=
  objref = object ∨ s.copy object = .returned objref

/-- The object has `FL_EXIVAR` and an entry in `generic_iv_tbl_`. -/
structure HasGivtbl (env : GivtblEnv) (object : ObjectReference) : Prop where
  flag : RubyObjectAccess.hasExivarFlag env object = true
  entry : env.getOriginalGivtbl object ≠ 0

inductive Step [DecidableEq Worker] (env : GivtblEnv) :
    State Worker → Label Worker → State Worker → Prop where
  | callCopy {s : State Worker} {fromObj : ObjectReference} (hs : s.copy fromObj = .notCalled)
      (hsource : ∀ o, (s.copy o).destination ≠ some fromObj) :
      Step env s (.copy fromObj) { s with copy := Function.update s.copy fromObj .called }
  | readGivtbl {s : State Worker} {fromObj : ObjectReference} {maybeGivtbl : Option Ptr}
      (hs : s.copy fromObj = .called)
      (hread : VMObjectModel.maybeGivtbl env fromObj = .ok maybeGivtbl) :
      Step env s (.copy fromObj)
        { s with copy := Function.update s.copy fromObj (.givtblRead maybeGivtbl) }
  | readGivtblPanics {s : State Worker} {fromObj : ObjectReference} {e : Panic}
      (hs : s.copy fromObj = .called)
      (hread : VMObjectModel.maybeGivtbl env fromObj = .error e) :
      Step env s (.copy fromObj)
        { s with copy := Function.update s.copy fromObj (.panicked e) }
  -- the guards say that the address that `alloc_copy` returns is fresh
  | allocCopy {s : State Worker} {fromObj : ObjectReference} {maybeGivtbl : Option Ptr}
      (toObj : ObjectReference) (hs : s.copy fromObj = .givtblRead maybeGivtbl)
      (hkey : env.getOriginalGivtbl toObj = 0) (hsource : s.copy toObj = .notCalled)
      (hdest : ∀ o, (s.copy o).destination ≠ some toObj) :
      Step env s (.copy fromObj)
        { s with copy := Function.update s.copy fromObj (.copied maybeGivtbl toObj) }
  | insert {s : State Worker} {fromObj toObj : ObjectReference} {maybeGivtbl : Option Ptr}
      (hs : s.copy fromObj = .copied maybeGivtbl toObj) :
      Step env s (.copy fromObj)
        { s with
          movedGivtbl :=
            VMObjectModel.insertMovedGivtbl s.movedGivtbl fromObj toObj maybeGivtbl
          copy := Function.update s.copy fromObj (.inserted toObj) }
  | returnCopy {s : State Worker} {fromObj toObj : ObjectReference}
      (hs : s.copy fromObj = .inserted toObj) :
      Step env s (.copy fromObj)
        { s with copy := Function.update s.copy fromObj (.returned toObj) }
  | callGetGivtbl {s : State Worker} {w : Worker} {object objref : ObjectReference}
      (hs : s.lookup w = .idle) (hobject : HasGivtbl env object)
      (href : s.RefersTo objref object) :
      Step env s (.lookup w)
        { s with lookup := Function.update s.lookup w (.called object objref) }
  | original {s : State Worker} {w : Worker} {object objref : ObjectReference} {givtbl : Ptr}
      (hs : s.lookup w = .called object objref)
      (hfound : RubyObjectAccess.getOriginalGivtbl env objref = some givtbl) :
      Step env s (.lookup w)
        { s with lookup := Function.update s.lookup w (.returned object objref givtbl) }
  | noOriginal {s : State Worker} {w : Worker} {object objref : ObjectReference}
      (hs : s.lookup w = .called object objref)
      (hnone : RubyObjectAccess.getOriginalGivtbl env objref = none) :
      Step env s (.lookup w)
        { s with lookup := Function.update s.lookup w (.locking object objref) }
  | moved {s : State Worker} {w : Worker} {object objref : ObjectReference} {givtbl : Ptr}
      (hs : s.lookup w = .locking object objref)
      (hfound : RubyObjectAccess.getMovedGivtbl objref s.movedGivtbl = .ok givtbl) :
      Step env s (.lookup w)
        { s with lookup := Function.update s.lookup w (.returned object objref givtbl) }
  | notFound {s : State Worker} {w : Worker} {object objref : ObjectReference} {e : Panic}
      (hs : s.lookup w = .locking object objref)
      (hnone : RubyObjectAccess.getMovedGivtbl objref s.movedGivtbl = .error e) :
      Step env s (.lookup w)
        { s with lookup := Function.update s.lookup w (.panicked e) }
  | done {s : State Worker} {w : Worker} {object objref : ObjectReference} {givtbl : Ptr}
      (hs : s.lookup w = .returned object objref givtbl) :
      Step env s (.lookup w) { s with lookup := Function.update s.lookup w .idle }

/-- `copy` may be called for the object, and `alloc_copy` may return the address. -/
structure State.MayCopy (env : GivtblEnv) (s : State Worker) (fromObj toObj : ObjectReference) :
    Prop where
  notCalled : s.copy fromObj = .notCalled
  source : ∀ o, (s.copy o).destination ≠ some fromObj
  unbound : env.getOriginalGivtbl toObj = 0
  notSource : s.copy toObj = .notCalled
  fresh : ∀ o, (s.copy o).destination ≠ some toObj
  ne : toObj ≠ fromObj

/-- The runs of one GC, from the moment the mutators have stopped. -/
def system (Worker : Type*) [DecidableEq Worker] (env : GivtblEnv) :
    TransitionSystem (State Worker) (Label Worker) where
  init s := s.movedGivtbl = (fun _ => none) ∧ (∀ o, s.copy o = .notCalled) ∧
    ∀ w, s.lookup w = .idle
  step := Step env

/-! ### The invariant -/

/-- From the critical section on, `moved_givtbl` has the table under the new reference, under which
`generic_iv_tbl_` has nothing. -/
def Recorded (env : GivtblEnv) (movedGivtbl : MovedGivtbl) (object : ObjectReference) :
    CopyPc → Prop
  | .notCalled | .called | .panicked _ => True
  | .givtblRead maybeGivtbl => VMObjectModel.maybeGivtbl env object = .ok maybeGivtbl
  | .copied maybeGivtbl toObj =>
    VMObjectModel.maybeGivtbl env object = .ok maybeGivtbl ∧
      env.getOriginalGivtbl toObj = 0
  | .inserted toObj | .returned toObj =>
    env.getOriginalGivtbl toObj = 0 ∧
      (HasGivtbl env object →
        movedGivtbl toObj = some ⟨object, env.getOriginalGivtbl object⟩)

/-- A lookup that locks `moved_givtbl` is one under a new reference. -/
def LookupOk (env : GivtblEnv) (s : State Worker) : LookupPc → Prop
  | .idle => True
  | .called object objref => HasGivtbl env object ∧ s.RefersTo objref object
  | .locking object objref => HasGivtbl env object ∧ s.copy object = .returned objref
  | .returned object _ givtbl => givtbl = env.getOriginalGivtbl object
  | .panicked _ => False

structure Inv (env : GivtblEnv) (s : State Worker) : Prop where
  recorded : ∀ o, Recorded env s.movedGivtbl o (s.copy o)
  distinct : ∀ {o o' toObj}, (s.copy o).destination = some toObj →
    (s.copy o').destination = some toObj → o = o'
  lookups : ∀ w, LookupOk env s (s.lookup w)

variable {env : GivtblEnv}

lemma Inv.recorded_of_eq {s : State Worker} (h : Inv env s) {object : ObjectReference}
    {pc : CopyPc} (hs : s.copy object = pc) : Recorded env s.movedGivtbl object pc :=
  hs ▸ h.recorded object

lemma Inv.lookupOk_of_eq {s : State Worker} (h : Inv env s) {w : Worker} {lpc : LookupPc}
    (hs : s.lookup w = lpc) : LookupOk env s lpc :=
  hs ▸ h.lookups w

/-- The table that `copy` reads for an object that has one. -/
lemma HasGivtbl.maybeGivtbl_eq {object : ObjectReference} (h : HasGivtbl env object) :
    VMObjectModel.maybeGivtbl env object = .ok (some (env.getOriginalGivtbl object)) := by
  have hsome : RubyObjectAccess.getOriginalGivtbl env object =
      some (env.getOriginalGivtbl object) :=
    RubyObjectAccess.getOriginalGivtbl_eq_some.mpr ⟨h.entry, rfl⟩
  simp [VMObjectModel.maybeGivtbl, h.flag, hsome]

/-- The copy of an object is recorded with the table of that object. -/
lemma Recorded.insert {movedGivtbl : MovedGivtbl} {object toObj : ObjectReference}
    {maybeGivtbl : Option Ptr}
    (h : Recorded env movedGivtbl object (.copied maybeGivtbl toObj)) :
    Recorded env (VMObjectModel.insertMovedGivtbl movedGivtbl object toObj maybeGivtbl) object
      (.inserted toObj) := by
  obtain ⟨hread, hkey⟩ := h
  refine ⟨hkey, fun hobject => ?_⟩
  rw [hobject.maybeGivtbl_eq, Except.ok.injEq] at hread
  subst hread
  exact VMObjectModel.insertMovedGivtbl_some_self _ _ _ _

/-- An insertion under another reference leaves what is recorded of an object. -/
lemma Recorded.insert_of_ne {movedGivtbl : MovedGivtbl} {object fromObj toObj : ObjectReference}
    {pc : CopyPc} (h : Recorded env movedGivtbl object pc) (maybeGivtbl : Option Ptr)
    (hne : pc.destination ≠ some toObj) :
    Recorded env (VMObjectModel.insertMovedGivtbl movedGivtbl fromObj toObj maybeGivtbl)
      object pc := by
  cases pc with
  | notCalled | called | givtblRead _ | panicked _ | copied _ _ => exact h
  | inserted toObj' | returned toObj' =>
    have hne' : toObj' ≠ toObj := fun heq => hne (congrArg some heq)
    refine ⟨h.1, fun hobject => ?_⟩
    rw [VMObjectModel.insertMovedGivtbl_of_ne maybeGivtbl hne']
    exact h.2 hobject

section CopyStep

variable {s : State Worker} {fromObj : ObjectReference} {pc : CopyPc}

/-- A reference that a worker can hold remains one while other references come up. -/
lemma State.RefersTo.update {objref object : ObjectReference} (h : s.RefersTo objref object)
    (hpc : ∀ toObj, s.copy fromObj ≠ .returned toObj) {movedGivtbl : MovedGivtbl} :
    State.RefersTo { s with movedGivtbl, copy := Function.update s.copy fromObj pc }
      objref object := by
  refine h.imp_right fun hret => ?_
  have hne : object ≠ fromObj := by
    rintro rfl
    exact hpc _ hret
  dsimp only
  rw [Function.update_of_ne hne, hret]

lemma LookupOk.update {lpc : LookupPc} (h : LookupOk env s lpc)
    (hpc : ∀ toObj, s.copy fromObj ≠ .returned toObj) {movedGivtbl : MovedGivtbl} :
    LookupOk env { s with movedGivtbl, copy := Function.update s.copy fromObj pc } lpc := by
  cases lpc with
  | idle => trivial
  | called object objref => exact ⟨h.1, h.2.update hpc⟩
  | locking object objref =>
    have hne : object ≠ fromObj := by
      rintro rfl
      exact hpc _ h.2
    refine ⟨h.1, ?_⟩
    dsimp only
    rw [Function.update_of_ne hne, h.2]
  | returned object objref givtbl => exact h
  | panicked e => exact h

/-- A step of a copy, which leaves what is recorded of the other objects. -/
lemma Inv.copyStep (h : Inv env s) (hpc : ∀ toObj, s.copy fromObj ≠ .returned toObj)
    {movedGivtbl : MovedGivtbl} (hrecorded : Recorded env movedGivtbl fromObj pc)
    (hothers : ∀ o, o ≠ fromObj → Recorded env movedGivtbl o (s.copy o))
    (hdest : ∀ toObj, pc.destination = some toObj → ∀ o, o ≠ fromObj →
      (s.copy o).destination ≠ some toObj) :
    Inv env { s with movedGivtbl, copy := Function.update s.copy fromObj pc } where
  recorded o := by
    dsimp only
    by_cases ho : o = fromObj
    · subst ho
      rwa [Function.update_self]
    · rw [Function.update_of_ne ho]
      exact hothers o ho
  distinct := by
    intro o o' toObj hto hto'
    dsimp only at hto hto'
    by_cases ho : o = fromObj <;> by_cases ho' : o' = fromObj
    · rw [ho, ho']
    · subst ho
      rw [Function.update_self] at hto
      rw [Function.update_of_ne ho'] at hto'
      exact absurd hto' (hdest toObj hto o' ho')
    · subst ho'
      rw [Function.update_self] at hto'
      rw [Function.update_of_ne ho] at hto
      exact absurd hto (hdest toObj hto' o ho)
    · rw [Function.update_of_ne ho] at hto
      rw [Function.update_of_ne ho'] at hto'
      exact h.distinct hto hto'
  lookups w := (h.lookups w).update hpc

/-- The destination of a copy that is settled stays its own. -/
lemma Inv.destination_ne (h : Inv env s) {toObj : ObjectReference}
    (hto : (s.copy fromObj).destination = some toObj) {o : ObjectReference} (hne : o ≠ fromObj) :
    (s.copy o).destination ≠ some toObj :=
  fun ho => hne (h.distinct ho hto)

end CopyStep

/-- A step of a lookup. -/
lemma Inv.lookupStep [DecidableEq Worker] {s : State Worker} {w : Worker} {lpc : LookupPc}
    (h : Inv env s) (hok : LookupOk env s lpc) :
    Inv env { s with lookup := Function.update s.lookup w lpc } where
  recorded := h.recorded
  distinct := h.distinct
  lookups w' := by
    have hok' : ∀ lpc', LookupOk env s lpc' →
        LookupOk env { s with lookup := Function.update s.lookup w lpc } lpc' := by
      intro lpc' h'
      cases lpc' with
      | idle | called _ _ | locking _ _ | returned _ _ _ | panicked _ => exact h'
    apply hok'
    by_cases hw : w' = w
    · subst hw
      dsimp only
      rwa [Function.update_self]
    · dsimp only
      rw [Function.update_of_ne hw]
      exact h.lookups w'

/-- Under a new reference the table is found in `moved_givtbl`. -/
lemma Inv.getMovedGivtbl_eq {s : State Worker} (h : Inv env s)
    {object objref : ObjectReference} (hobject : HasGivtbl env object)
    (href : s.copy object = .returned objref) :
    RubyObjectAccess.getMovedGivtbl objref s.movedGivtbl =
      .ok (env.getOriginalGivtbl object) := by
  rw [RubyObjectAccess.getMovedGivtbl, (h.recorded_of_eq href).2 hobject]

/-- Under the reference of the start the table is found in `generic_iv_tbl_`, and under no
other. -/
lemma Inv.getOriginalGivtbl_eq {s : State Worker} (h : Inv env s)
    {object objref : ObjectReference} (hobject : HasGivtbl env object)
    (href : s.RefersTo objref object) :
    RubyObjectAccess.getOriginalGivtbl env objref =
        some (env.getOriginalGivtbl object) ∨
      RubyObjectAccess.getOriginalGivtbl env objref = none ∧
        s.copy object = .returned objref := by
  rcases href with rfl | href
  · exact Or.inl (RubyObjectAccess.getOriginalGivtbl_eq_some.mpr ⟨hobject.entry, rfl⟩)
  · have hkey := (h.recorded_of_eq href).1
    exact Or.inr ⟨RubyObjectAccess.getOriginalGivtbl_eq_none.mpr hkey, href⟩

lemma invariant [DecidableEq Worker] : (system Worker env).IsInvariant (Inv env) where
  init := by
    rintro s ⟨-, hcopy, hlookup⟩
    refine ⟨fun o => ?_, ?_, fun w => ?_⟩
    · rw [hcopy]
      trivial
    · intro o o' toObj hto
      rw [hcopy] at hto
      cases hto
    · rw [hlookup]
      trivial
  step := by
    intro s l s' _ h hstep
    cases hstep with
    | callCopy hs hsource =>
      exact h.copyStep (by simp [hs]) trivial (fun o _ => h.recorded o)
        (by simp [CopyPc.destination])
    | readGivtbl hs hread =>
      exact h.copyStep (by simp [hs]) hread (fun o _ => h.recorded o)
        (by simp [CopyPc.destination])
    | readGivtblPanics hs hread =>
      exact h.copyStep (by simp [hs]) trivial (fun o _ => h.recorded o)
        (by simp [CopyPc.destination])
    | @allocCopy fromObj maybeGivtbl toObj hs hkey hsource hdest =>
      refine h.copyStep (by simp [hs]) ⟨h.recorded_of_eq hs, hkey⟩ (fun o _ => h.recorded o) ?_
      rintro _ ⟨⟩ o -
      exact hdest o
    | @insert fromObj toObj maybeGivtbl hs =>
      have hto : (s.copy fromObj).destination = some toObj := by rw [hs]; rfl
      refine h.copyStep (by simp [hs]) (h.recorded_of_eq hs).insert (fun o hne => ?_) ?_
      · exact (h.recorded o).insert_of_ne maybeGivtbl (h.destination_ne hto hne)
      · rintro _ ⟨⟩ o hne
        exact h.destination_ne hto hne
    | @returnCopy fromObj toObj hs =>
      have hrecorded := h.recorded_of_eq hs
      have hto : (s.copy fromObj).destination = some toObj := by rw [hs]; rfl
      refine h.copyStep (by simp [hs]) hrecorded (fun o _ => h.recorded o) ?_
      rintro _ ⟨⟩ o hne
      exact h.destination_ne hto hne
    | callGetGivtbl hs hobject href => exact h.lookupStep ⟨hobject, href⟩
    | @original w object objref givtbl hs hfound =>
      have hok := h.lookupOk_of_eq hs
      apply h.lookupStep
      rcases h.getOriginalGivtbl_eq hok.1 hok.2 with hsome | ⟨hnone, -⟩
      · rw [hfound, Option.some.injEq] at hsome
        exact hsome
      · rw [hfound] at hnone
        cases hnone
    | @noOriginal w object objref hs hnone =>
      have hok := h.lookupOk_of_eq hs
      apply h.lookupStep
      rcases h.getOriginalGivtbl_eq hok.1 hok.2 with hsome | ⟨-, hret⟩
      · rw [hnone] at hsome
        cases hsome
      · exact ⟨hok.1, hret⟩
    | @moved w object objref givtbl hs hfound =>
      have hok := h.lookupOk_of_eq hs
      rw [h.getMovedGivtbl_eq hok.1 hok.2, Except.ok.injEq] at hfound
      exact h.lookupStep hfound.symm
    | @notFound w object objref e hs hnone =>
      have hok := h.lookupOk_of_eq hs
      rw [h.getMovedGivtbl_eq hok.1 hok.2] at hnone
      cases hnone
    | done hs => exact h.lookupStep trivial

/-! ### `copy` as one call -/

/-- Another step of the same copy. -/
lemma destination_update {copy : ObjectReference → CopyPc} {fromObj toObj : ObjectReference}
    {pc : CopyPc} (hpc : pc.destination = none) (hfresh : ∀ o, (copy o).destination ≠ some toObj)
    (o : ObjectReference) : (Function.update copy fromObj pc o).destination ≠ some toObj := by
  by_cases ho : o = fromObj
  · subst ho
    rw [Function.update_self, hpc]
    exact Option.some_ne_none toObj ∘ Eq.symm
  · rw [Function.update_of_ne ho]
    exact hfresh o

/-- A call of `VMObjectModel::copy` that returns, with no other thread coming in between. -/
lemma run_copy [DecidableEq Worker] {s : State Worker} {fromObj newObj : ObjectReference}
    (hmay : s.MayCopy env fromObj newObj) {build : Build} {allocCopy : ℕ → ℕ} {memory : Memory}
    (hflags : RubyObjectAccess.loadFlags memory fromObj = env.loadFlags fromObj)
    {s' : VMObjectModel.CopyState}
    (hcopy : VMObjectModel.copy build env.getOriginalGivtbl allocCopy ⟨memory, s.movedGivtbl⟩
      fromObj = .ok (newObj, s')) :
    (system Worker env).Run s (List.replicate 5 (.copy fromObj))
      { s with
        movedGivtbl := s'.movedGivtbl
        copy := Function.update s.copy fromObj (.returned newObj) } := by
  obtain ⟨givtbl, -, -, hgivtbl, -, -, -, rfl⟩ := VMObjectModel.of_copy_eq_ok hcopy
  have hread : VMObjectModel.maybeGivtbl env fromObj = .ok givtbl := by
    rw [← hgivtbl]
    exact VMObjectModel.maybeGivtbl_congr hflags.symm rfl
  -- the address is still fresh when `alloc_copy` returns it
  have hfresh : ∀ o, (Function.update (Function.update s.copy fromObj .called) fromObj
      (.givtblRead givtbl) o).destination ≠ some newObj :=
    destination_update rfl (destination_update rfl hmay.fresh)
  have hsource : Function.update (Function.update s.copy fromObj .called) fromObj
      (.givtblRead givtbl) newObj = .notCalled := by
    rw [Function.update_idem, Function.update_of_ne hmay.ne]
    exact hmay.notSource
  have hrun : (system Worker env).Run s (List.replicate 5 (.copy fromObj)) _ :=
    .cons (.callCopy hmay.notCalled hmay.source) <|
    .cons (.readGivtbl (Function.update_self _ _ _) hread) <|
    .cons (.allocCopy newObj (Function.update_self _ _ _) hmay.unbound hsource hfresh) <|
    .cons (.insert (Function.update_self _ _ _)) <|
    .cons (.returnCopy (Function.update_self _ _ _)) (.nil _)
  simpa only [Function.update_idem] using hrun

/-! ### Every lookup finds the table of its object -/

section Results

variable [DecidableEq Worker] {s : State Worker} {w : Worker} {object objref : ObjectReference}

/-- A lookup that locks `moved_givtbl` returns with its next step. -/
lemma Inv.returns_of_locking (h : Inv env s) (hs : s.lookup w = .locking object objref) :
    ∃ s', (system Worker env).Run s [.lookup w] s' ∧
      s'.lookup w = .returned object objref (env.getOriginalGivtbl object) := by
  have hok := h.lookupOk_of_eq hs
  have hstep : Step env s (.lookup w) _ :=
    .moved hs (h.getMovedGivtbl_eq hok.1 hok.2)
  exact ⟨_, .cons hstep (.nil _), Function.update_self _ _ _⟩

/-- A lookup returns after at most two steps of its own. -/
lemma Inv.returns_of_called (h : Inv env s) (hs : s.lookup w = .called object objref) :
    ∃ ls s', (∀ l ∈ ls, l = .lookup w) ∧ (system Worker env).Run s ls s' ∧
      s'.lookup w = .returned object objref (env.getOriginalGivtbl object) := by
  have hok := h.lookupOk_of_eq hs
  rcases h.getOriginalGivtbl_eq hok.1 hok.2 with hsome | ⟨hnone, hret⟩
  · have hstep := Step.original hs hsome
    exact ⟨[.lookup w], _, by simp, .cons hstep (.nil _), Function.update_self _ _ _⟩
  · have hlocking : LookupOk env s (.locking object objref) := ⟨hok.1, hret⟩
    have hstep := Step.noOriginal hs hnone
    obtain ⟨s', hrun, hs'⟩ :=
      (h.lookupStep (w := w) hlocking).returns_of_locking (Function.update_self _ _ _)
    exact ⟨[.lookup w, .lookup w], s', by simp, .cons hstep hrun, hs'⟩

/-- What a lookup of the table of an object gives at any time: the table that the object had when
the GC started. A call of `copy` is a run of the system. -/
structure Stable (env : GivtblEnv) (s : State Worker) : Prop where
  returned : ∀ {w object objref givtbl}, s.lookup w = .returned object objref givtbl →
    givtbl = env.getOriginalGivtbl object
  not_panicked : ∀ w e, s.lookup w ≠ .panicked e
  returns : ∀ {w object objref},
    s.lookup w = .called object objref ∨ s.lookup w = .locking object objref →
      ∃ ls s', (∀ l ∈ ls, l = .lookup w) ∧ (system Worker env).Run s ls s' ∧
        s'.lookup w = .returned object objref (env.getOriginalGivtbl object)
  getGivtbl : ∀ {object objref}, HasGivtbl env object → s.RefersTo objref object →
    RubyObjectAccess.getGivtbl env objref s.movedGivtbl =
      .ok (env.getOriginalGivtbl object)
  copy : ∀ {fromObj newObj build allocCopy memory s'}, s.MayCopy env fromObj newObj →
    RubyObjectAccess.loadFlags memory fromObj = env.loadFlags fromObj →
    VMObjectModel.copy build env.getOriginalGivtbl allocCopy ⟨memory, s.movedGivtbl⟩ fromObj =
      .ok (newObj, s') →
    (system Worker env).Run s (List.replicate 5 (.copy fromObj))
      { s with
        movedGivtbl := s'.movedGivtbl
        copy := Function.update s.copy fromObj (.returned newObj) }

/-- The table of an object is found under every reference to it, wherever its copy stands. -/
theorem stable_of_reachable (env : GivtblEnv) {s : State Worker}
    (hs : (system Worker env).Reachable s) : Stable env s := by
  have h := invariant.of_reachable hs
  refine ⟨?_, ?_, ?_, ?_, fun hmay hflags hcopy => run_copy hmay hflags hcopy⟩
  · intro w object objref givtbl hret
    exact h.lookupOk_of_eq hret
  · intro w e hpanic
    exact h.lookupOk_of_eq hpanic
  · rintro w object objref (hcalled | hlocking)
    · exact h.returns_of_called hcalled
    · obtain ⟨s', hrun, hs'⟩ := h.returns_of_locking hlocking
      exact ⟨[.lookup w], s', by simp, hrun, hs'⟩
  · intro object objref hobject href
    rw [RubyObjectAccess.getGivtbl]
    rcases h.getOriginalGivtbl_eq hobject href with hsome | ⟨hnone, hret⟩
    · rw [hsome]
    · rw [hnone]
      exact h.getMovedGivtbl_eq hobject hret

end Results

/-! ### An object that moves while its table is looked up -/

def oldRef : ObjectReference := ⟨8, by decide⟩
def newRef : ObjectReference := ⟨48, by decide⟩

/-- One object with instance variables, whose table is at the address 96. -/
def oneObject : GivtblEnv where
  getOriginalGivtbl o := if o = oldRef then 96 else 0
  loadFlags o := if o = oldRef then rubyFlExivar else 0

def oneObjectStart : State Unit := ⟨fun _ => none, fun _ => .notCalled, fun _ => .idle⟩

/-- The object has been copied, and the lookup under its new reference has found the table. -/
theorem stable_oneObject : ∃ s, (system Unit oneObject).Reachable s ∧
    s.copy oldRef = .returned newRef ∧ s.lookup () = .returned oldRef newRef 96 ∧
    Stable oneObject s := by
  have hobject : HasGivtbl oneObject oldRef := ⟨rfl, by decide⟩
  have hnone : RubyObjectAccess.getOriginalGivtbl oneObject newRef = none := rfl
  have h₀ : (system Unit oneObject).Reachable oneObjectStart :=
    .init ⟨rfl, fun _ => rfl, fun _ => rfl⟩
  have h₁ := h₀.step (.callCopy (rfl : oneObjectStart.copy oldRef = .notCalled) (fun o => nofun))
  have h₂ := h₁.step (.readGivtbl (Function.update_self _ _ _) hobject.maybeGivtbl_eq)
  have h₃ := h₂.step (.allocCopy newRef (Function.update_self _ _ _) rfl rfl ?_)
  · have h₄ := h₃.step (.insert (Function.update_self _ _ _))
    have h₅ := h₄.step (.returnCopy (Function.update_self _ _ _))
    have h₆ := h₅.step (.callGetGivtbl (w := ()) rfl hobject (Or.inr rfl))
    have h₇ := h₆.step (.noOriginal (w := ()) rfl hnone)
    have h₈ := h₇.step (.moved (w := ()) rfl rfl)
    exact ⟨_, h₈, rfl, rfl, stable_of_reachable oneObject h₈⟩
  · intro o
    by_cases ho : o = oldRef
    · subst ho
      simp [CopyPc.destination]
    · simp [Function.update_of_ne ho, oneObjectStart, CopyPc.destination]

end GivtblLookup

end MmtkRuby
