import MmtkRuby.ObjectModel.Store.Invariant

/-!
# The objects are found while they move

An object is found at its old address until a worker begins to copy it, and at its new one when the
worker is done; there it is as it was last written. A call of `copy` that nobody interrupts is one
of the runs.
-/

namespace MmtkRuby

open Core RubyObjectAccess VMObjectModel

namespace ObjectStore

variable {Obj : Type*}

/-- Where an object is found, the memory has an object of its size. -/
lemma Kept.isObject {build : Build} {s : State Obj} (h : Kept build s) {o : Obj}
    {r : ObjectReference} (hr : s.FoundAt o r) :
    FitsAt build r (s.contents o) ∧
      s.memory.Holds (start r) (imageSize build (s.contents o)) (s.contents o) ∧
      IsObject build s.memory r ∧ sizeIn build s.memory r = imageSize build (s.contents o) := by
  have hfits : FitsAt build r (s.contents o) := by
    cases hr with
    | here ho _ => exact h.fits ho
    | @moved a c ho hc _ =>
      obtain ⟨o', ho', hsize, halloc⟩ := h.copying hc
      obtain rfl : o' = o := Option.some.inj (ho'.symm.trans ho)
      refine ⟨(h.fits ho).sane, Nat.le_add_left _ _, ?_⟩
      rw [start_toObj, ← hsize]
      exact halloc.inBounds
  obtain ⟨a, side, hcopy, hbyte, -⟩ := hr.exists_copyAt
  have hholds := (h.holds hcopy).holds fun i _ => hbyte i
  exact ⟨hfits, hholds, isObject_of_holds hfits hholds⟩

/-! ### `copy` as one call -/

namespace State

variable {s : State Obj} {a : ObjectReference} {c : Copying}

lemma copying_advance {pc : CopyPc} {m : Memory} :
    (s.advance a c pc m).copying a = some { c with pc } :=
  Function.update_self _ _ _

lemma advance_self (hc : s.copying a = some c) : s.advance a c c.pc s.memory = s := by
  have hsame : Function.update s.copying a (some c) = s.copying := by
    rw [← hc, Function.update_eq_self]
  simp only [advance, hsame]

lemma advance_advance {pc pc' : CopyPc} {m m' : Memory} :
    (s.advance a c pc m).advance a { c with pc } pc' m' = s.advance a c pc' m' := by
  simp only [advance, Function.update_idem]

end State

section Run

variable {build : Build} {s : State Obj} {a : ObjectReference} {c : Copying} {fromStart k : ℕ}

/-- One more byte of `copy_nonoverlapping`, when it comes to the bytes in order. -/
lemma step_copyByte (hstart : objStart build a = .ok fromStart)
    (hsep : Separate fromStart c.size c.toStart c.size) (hk : k < c.size) :
    (system build Obj).step
      (s.advance a c (.copying (Finset.range k)) (s.memory.copyRange fromStart c.toStart k)) .gc
      (s.advance a c (.copying (Finset.range (k + 1)))
        (s.memory.copyRange fromStart c.toStart (k + 1))) := by
  have hstep := Step.copyByte (s := s.advance a c (.copying (Finset.range k))
      (s.memory.copyRange fromStart c.toStart k)) a { c with pc := .copying (Finset.range k) }
    State.copying_advance rfl k hk Finset.notMem_range_self hstart
  -- nothing has been written where the byte is read
  have hsource : (s.advance a c (.copying (Finset.range k))
      (s.memory.copyRange fromStart c.toStart k)).memory (fromStart + k) =
      s.memory (fromStart + k) := by
    refine Memory.copyRange_of_notMem fun hin => hsep.notMem_right hk ?_
    exact ⟨hin.1, hin.2.trans (Nat.add_lt_add_left hk _)⟩
  rw [State.advance_advance, ← Finset.range_add_one, hsource] at hstep
  rw [← Memory.copyRange_succ]
  exact hstep

lemma run_copyNonoverlapping (hc : s.copying a = some c) (hpc : c.pc = .copying ∅)
    (hstart : objStart build a = .ok fromStart)
    (hsep : Separate fromStart c.size c.toStart c.size) :
    (system build Obj).Run s (List.replicate c.size .gc)
      (s.advance a c (.copying (Finset.range c.size))
        (s.memory.copyRange fromStart c.toStart c.size)) := by
  have hrun := TransitionSystem.Run.of_iterations (f := fun k =>
      s.advance a c (.copying (Finset.range k)) (s.memory.copyRange fromStart c.toStart k))
    fun k hk => step_copyByte hstart hsep hk
  rwa [Finset.range_zero, Memory.copyRange_zero, ← hpc, State.advance_self hc] at hrun

/-- One more byte of `write_bytes`, when it comes to the bytes in order. -/
lemma step_clearByte (hstart : objStart build a = .ok fromStart) (hk : k < c.size) :
    (system build Obj).step
      (s.advance a c (.clearing (Finset.range k)) (s.memory.writeBytes fromStart 0 k)) .gc
      (s.advance a c (.clearing (Finset.range (k + 1)))
        (s.memory.writeBytes fromStart 0 (k + 1))) := by
  have hstep := Step.clearByte (s := s.advance a c (.clearing (Finset.range k))
      (s.memory.writeBytes fromStart 0 k)) a { c with pc := .clearing (Finset.range k) }
    State.copying_advance rfl k hk Finset.notMem_range_self hstart
  rw [State.advance_advance, ← Finset.range_add_one] at hstep
  rw [← Memory.writeBytes_succ]
  exact hstep

lemma run_writeBytes (hc : s.copying a = some c) (hpc : c.pc = .clearing ∅)
    (hstart : objStart build a = .ok fromStart) :
    (system build Obj).Run s (List.replicate c.size .gc)
      (s.advance a c (.clearing (Finset.range c.size))
        (s.memory.writeBytes fromStart 0 c.size)) := by
  have hrun := TransitionSystem.Run.of_iterations (f := fun k =>
      s.advance a c (.clearing (Finset.range k)) (s.memory.writeBytes fromStart 0 k))
    fun k hk => step_clearByte hstart hk
  rwa [Finset.range_zero, Memory.writeBytes_zero, ← hpc, State.advance_self hc] at hrun

/-- mmtk-core stores the forwarding pointer when `copy` has returned. -/
lemma step_forward {pc : CopyPc} (m : Memory) (hpc : pc = if build.clearOldCopy then
      .clearing (Finset.range c.size) else .copying (Finset.range c.size)) :
    (system build Obj).step (s.advance a c pc m) .gc
      (s.advance a c .forwarded (storeForwardingPointer m a (toObj c.toStart))) := by
  have hstep := Step.forward (s := s.advance a c pc m) a { c with pc } State.copying_advance hpc
  rwa [State.advance_advance] at hstep

variable (build) in
/-- All that a worker does to the memory when it copies an object, with no other thread coming in
between. -/
lemma run_forward (hc : s.copying a = some c) (hpc : c.pc = .copying ∅)
    (hstart : objStart build a = .ok fromStart)
    (hsep : Separate fromStart c.size c.toStart c.size) :
    ∃ ls, (system build Obj).Run s ls (s.advance a c .forwarded (storeForwardingPointer
      (copyMemory build.clearOldCopy s.memory fromStart c.toStart c.size) a
      (toObj c.toStart))) := by
  have hrun := run_copyNonoverlapping hc hpc hstart hsep
  unfold copyMemory
  cases hclear : build.clearOldCopy with
  | false =>
    refine ⟨_, hrun.append (.cons (step_forward _ ?_) (.nil _))⟩
    rw [hclear]
    rfl
  | true =>
    have hclearing := Step.clearOldCopy (s := s.advance a c (.copying (Finset.range c.size))
        (s.memory.copyRange fromStart c.toStart c.size)) a
      { c with pc := .copying (Finset.range c.size) } State.copying_advance rfl hclear
    rw [State.advance_advance] at hclearing
    have hcleared := run_writeBytes (s := s.advance a c (.clearing ∅)
        (s.memory.copyRange fromStart c.toStart c.size)) (c := { c with pc := .clearing ∅ })
      State.copying_advance rfl hstart
    rw [State.advance_advance] at hcleared
    refine ⟨_, (hrun.append (.cons hclearing hcleared)).append
      (.cons (step_forward _ ?_) (.nil _))⟩
    rw [hclear]
    rfl

end Run

/-- A call of `copy` that returns, with the store of the forwarding pointer after it. -/
lemma Kept.run_copy {build : Build} {s : State Obj} (h : Kept build s) {a : ObjectReference}
    {o : Obj} (ho : s.heap.objectAt a = some o) (hc : s.copying a = none)
    {getOriginalGivtbl : ObjectReference → Ptr} {movedGivtbl : MovedGivtbl} {toStart : ℕ}
    (halloc : Allocated toStart (imageSize build (s.contents o)))
    (hfresh : s.Fresh build toStart (imageSize build (s.contents o)))
    {newObj : ObjectReference} {s' : CopyState}
    (hcopy : copy build getOriginalGivtbl (fun _ => toStart) ⟨s.memory, movedGivtbl⟩ a =
      .ok (newObj, s')) :
    newObj = toObj toStart ∧
      copyGivtbl ⟨getOriginalGivtbl, loadFlags s.memory⟩ movedGivtbl (a, newObj) =
        .ok s'.movedGivtbl ∧
      ∃ ls, (system build Obj).Run s ls { s with
        memory := storeForwardingPointer s'.memory a newObj
        copying := Function.update s.copying a
          (some ⟨toStart, imageSize build (s.contents o), .forwarded⟩) } := by
  obtain ⟨-, -, hobject, hsize⟩ := h.isObject (.here ho hc)
  have hgivtbl := copyGivtbl_of_copy hcopy
  obtain ⟨_, fromStart, size, -, hstart, hsize', rfl, rfl⟩ := of_copy_eq_ok hcopy
  obtain rfl : start a = fromStart := Except.ok.inj (hobject.objStart_eq.symm.trans hstart)
  obtain rfl : imageSize build (s.contents o) = size := by
    rw [← hsize]
    exact Except.ok.inj (hobject.objectSize_eq.symm.trans hsize')
  refine ⟨rfl, hgivtbl, ?_⟩
  have halloc' : (system build Obj).step s .gc _ := .allocCopy a o ho hc hsize' toStart halloc hfresh
  obtain ⟨ls, hrun⟩ := run_forward build (s := { s with
      copying := Function.update s.copying a
        (some ⟨toStart, imageSize build (s.contents o), .copying ∅⟩) })
    (Function.update_self _ _ _) rfl hstart (hfresh (.old ho)).symm
  refine ⟨.gc :: ls, .cons halloc' ?_⟩
  simpa only [State.advance, Function.update_idem] using hrun

/-! ### What is found -/

/-- Every object is found as it was last written, with its size and its flags, apart from the
others; who comes across the old address of an object that was moved finds the way; and a call of
`copy` is a run. -/
structure FindsObjects (build : Build) (s : State Obj) : Prop where
  isObject : ∀ {o a}, s.FoundAt o a → IsObject build s.memory a
  bytes : ∀ {o a}, s.FoundAt o a →
    s.memory.Holds (start a) (imageSize build (s.contents o)) (s.contents o)
  currentSize : ∀ {o a}, s.FoundAt o a →
    getCurrentSize build s.memory a = .ok (imageSize build (s.contents o))
  objectStart : ∀ {o a}, s.FoundAt o a → refToObjectStart build a = .ok (start a)
  objEnd : ∀ {o a}, s.FoundAt o a →
    objEnd build s.memory a = .ok (start a + imageSize build (s.contents o))
  flags : ∀ {o a}, s.FoundAt o a → prefixSize + Memory.wordBytes ≤ imageSize build (s.contents o) →
    loadFlags s.memory a = (s.contents o).loadWord prefixSize
  apart : ∀ {o a o' a'}, s.FoundAt o a → s.FoundAt o' a' → o ≠ o' →
    Separate (start a) (imageSize build (s.contents o)) (start a')
      (imageSize build (s.contents o'))
  forwarded : ∀ {a c}, s.copying a = some c → c.pc = .forwarded →
    ∃ o, s.heap.objectAt a = some o ∧ s.FoundAt o (toObj c.toStart) ∧
      s.memory.loadWord (forwardingPointerAddr a) = (toObj c.toStart).toRawAddress
  copy : ∀ {a o getOriginalGivtbl movedGivtbl toStart newObj s'}, s.heap.objectAt a = some o →
    s.copying a = none → Allocated toStart (imageSize build (s.contents o)) →
    s.Fresh build toStart (imageSize build (s.contents o)) →
    copy build getOriginalGivtbl (fun _ => toStart) ⟨s.memory, movedGivtbl⟩ a =
      .ok (newObj, s') →
    newObj = toObj toStart ∧
      copyGivtbl ⟨getOriginalGivtbl, loadFlags s.memory⟩ movedGivtbl (a, newObj) =
        .ok s'.movedGivtbl ∧
      ∃ ls, (system build Obj).Run s ls { s with
        memory := storeForwardingPointer s'.memory a newObj
        copying := Function.update s.copying a
          (some ⟨toStart, imageSize build (s.contents o), .forwarded⟩) }

lemma Kept.findsObjects {build : Build} {s : State Obj} (h : Kept build s) :
    FindsObjects build s := by
  refine ⟨fun hr => (h.isObject hr).2.2.1, fun hr => (h.isObject hr).2.1, fun hr => ?_,
    fun hr => (h.isObject hr).2.2.1.objStart_eq, fun hr => ?_, fun {o a} hr hsize => ?_,
    fun {o r o' r'} hr hr' hne => ?_, fun {a c} hc hpc => ?_,
    fun ho hc halloc hfresh hcopy => h.run_copy ho hc halloc hfresh hcopy⟩
  · obtain ⟨-, -, hobject, hsize⟩ := h.isObject hr
    rw [getCurrentSize, hobject.objectSize_eq, hsize]
  · obtain ⟨-, -, hobject, hsize⟩ := h.isObject hr
    rw [hobject.objEnd_eq, hsize]
  · obtain ⟨hfits, hholds, -⟩ := h.isObject hr
    have hword := hholds.loadWord hsize
    rwa [show start a + prefixSize = a.toRawAddress from Nat.sub_add_cancel hfits.above] at hword
  · obtain ⟨a, side, hcopy, -⟩ := hr.exists_copyAt
    obtain ⟨a', side', hcopy', -⟩ := hr'.exists_copyAt
    refine h.separate hcopy hcopy' fun heq => ?_
    obtain ⟨rfl, -⟩ := Prod.mk.inj heq
    exact hne (Option.some.inj (hcopy.objectAt.symm.trans hcopy'.objectAt))
  · obtain ⟨o, ho, -⟩ := h.copying hc
    refine ⟨o, ho, .moved ho hc hpc, ?_⟩
    rw [forwardingPointerAddr_eq]
    exact h.pointer hc hpc

/-- However the copies by the workers interleave, in any number of GCs, every object is found as it
was last written. -/
theorem findsObjects_of_reachable {build : Build} {s : State Obj}
    (hs : (system build Obj).Reachable s) : FindsObjects build s :=
  ((kept_invariant build).of_reachable hs).findsObjects

/-! ### An object that is moved -/

/-- An object with a payload of 16 bytes, all of them zero. -/
def zeroImage : Memory := fun i => if i = 0 then 16 else 0

/-- The object is allocated at 4104, and its flags are set. -/
lemma exists_flagged : ∃ s : State ℕ, (system ⟨.debug, true, true, 0⟩ ℕ).Reachable s ∧
    (∀ x o, s.heap.objectAt x = some o ↔ x = ⟨4104, by decide⟩ ∧ o = 0) ∧
      s.copying = (fun _ => none) ∧ s.contents 0 = Function.update zeroImage 9 4 := by
  classical
  let build : Build := ⟨.debug, true, true, 0⟩
  let a : ObjectReference := ⟨4104, by decide⟩
  have hstart : start a = 4096 := rfl
  let memory : Memory := fun x => if x = 4096 then 16 else 0
  have h₀ : (system build ℕ).Reachable ⟨fun _ => 0, ⟨fun _ => none, by simp⟩, fun _ => none,
      fun _ => fun _ => 0⟩ := .init ⟨fun _ => rfl, rfl⟩
  have hnew : (0 : ℕ) ∉ (⟨fun _ => none, by simp⟩ : Heap ObjectReference ℕ) := by
    rintro ⟨x, hx⟩
    cases hx
  have hholds : memory.Holds (start a) (imageSize build zeroImage) zeroImage := by
    intro i _
    simp [memory, zeroImage, hstart]
  have hframe : ∀ x, ¬ InRange (start a) (imageSize build zeroImage) x → memory x = 0 := by
    intro x hx
    apply if_neg
    rintro rfl
    exact hx (by decide)
  have h₁ := h₀.step (.alloc a 0 zeroImage memory hnew rfl ⟨by decide, by decide, by decide⟩
    (fun hcopy => absurd (CopyAt.objectAt hcopy) (by simp)) hholds hframe)
  have h₂ := h₁.step (.write .mutator a 0 (.here (by simp) rfl) 9 4 (by decide) ?_)
  · refine ⟨_, h₂, fun x o => ?_, rfl, ?_⟩
    · exact (Heap.objectAt_alloc_iff rfl hnew).trans (by simp [a])
    · simp
  · simp only [Function.update_self]
    decide

/-- The object with its flags set is moved by a GC to 8200, and its old copy is cleared. -/
theorem findsObjects_moved : ∃ s : State ℕ,
    (system ⟨.debug, true, true, 0⟩ ℕ).Reachable s ∧ s.FoundAt 0 ⟨8200, by decide⟩ ∧
      loadFlags s.memory ⟨8200, by decide⟩ = rubyFlExivar ∧
      FindsObjects ⟨.debug, true, true, 0⟩ s := by
  let build : Build := ⟨.debug, true, true, 0⟩
  let a : ObjectReference := ⟨4104, by decide⟩
  obtain ⟨s, hs, ho, hc, hcontents⟩ := exists_flagged
  have hsize : imageSize build (s.contents 0) = 24 := by
    rw [hcontents]
    decide
  have hfresh : s.Fresh build 8192 24 := by
    intro x o side st hcopy
    obtain ⟨rfl, rfl⟩ := (ho x o).mp (CopyAt.objectAt hcopy)
    rw [hsize]
    cases hcopy with
    | old _ => exact Or.inr (by decide)
    | new _ hc' =>
      rw [hc] at hc'
      cases hc'
  have hobj : s.heap.objectAt a = some 0 := (ho a 0).mpr ⟨rfl, rfl⟩
  have hnone : s.copying a = none := by rw [hc]
  obtain ⟨t, ht, hsame, hmoved⟩ : ∃ t, (system build ℕ).Reachable t ∧ t.contents = s.contents ∧
      t.FoundAt 0 ⟨8200, by decide⟩ := by
    have hcurrent := ((kept_invariant build).of_reachable hs).findsObjects.currentSize
      (.here hobj hnone)
    rw [hsize] at hcurrent
    have h₁ := hs.step (.allocCopy a 0 hobj hnone hcurrent 8192
      ⟨by decide, by decide, by decide⟩ hfresh)
    obtain ⟨ls, hrun⟩ := run_forward build (s := { s with
        copying := Function.update s.copying a (some ⟨8192, 24, .copying ∅⟩) })
      (Function.update_self _ _ _) rfl rfl (Or.inl (by decide))
    exact ⟨_, h₁.run hrun, rfl,
      .moved (c := ⟨8192, 24, .forwarded⟩) hobj State.copying_advance rfl⟩
  have hfinds := findsObjects_of_reachable ht
  refine ⟨t, ht, hmoved, ?_, hfinds⟩
  rw [← hsame] at hsize hcontents
  rw [hfinds.flags hmoved (by rw [hsize]; decide), hcontents]
  decide

end ObjectStore

end MmtkRuby
