import MmtkRuby.ObjectModel.Store

/-!
# What the copies of the objects hold

In every state of every run, the copies of the objects are apart from each other, each holds the
bytes that have been copied to it and not cleared, and the forwarding pointers are where the sizes
were. A write by CRuby, or by a worker on its own copy, changes one byte of one copy.
-/

namespace MmtkRuby

open Core RubyObjectAccess VMObjectModel

namespace ObjectStore

variable {Obj : Type*}

/-- The copies hold the bytes of their objects as far as they have been copied and not cleared, no
two copies overlap, and a forwarding pointer that has been stored can be read. -/
structure Kept (build : Build) (s : State Obj) : Prop where
  fits : ∀ {a o}, s.heap.objectAt a = some o → FitsAt build a (s.contents o)
  copying : ∀ {a c}, s.copying a = some c → ∃ o, s.heap.objectAt a = some o ∧
    c.size = imageSize build (s.contents o) ∧ Allocated c.toStart c.size
  separate : ∀ {a o side st a' o' side' st'}, s.CopyAt a o side st → s.CopyAt a' o' side' st' →
    (a, side) ≠ (a', side') →
    Separate st (imageSize build (s.contents o)) st' (imageSize build (s.contents o'))
  holds : ∀ {a o side st}, s.CopyAt a o side st →
    s.memory.HoldsOn (s.HasByte a side) st (imageSize build (s.contents o)) (s.contents o)
  pointer : ∀ {a c}, s.copying a = some c → c.pc = .forwarded →
    s.memory.loadWord (start a) = (toObj c.toStart).toRawAddress

/-- A side of an address is one copy of one object. -/
lemma CopyAt.unique {heap : Heap ObjectReference Obj} {copying : ObjectReference → Option Copying}
    {a : ObjectReference} {o o' : Obj} {side : Side} {st st' : ℕ}
    (h : CopyAt heap copying a o side st) (h' : CopyAt heap copying a o' side st') :
    o' = o ∧ st' = st := by
  cases h with
  | old ho =>
    cases h' with
    | old ho' => exact ⟨Option.some.inj (ho'.symm.trans ho), rfl⟩
  | new ho hc =>
    cases h' with
    | new ho' hc' =>
      rw [Option.some.inj (hc'.symm.trans hc)]
      exact ⟨Option.some.inj (ho'.symm.trans ho), rfl⟩

lemma CopyAt.objectAt {heap : Heap ObjectReference Obj}
    {copying : ObjectReference → Option Copying} {a : ObjectReference} {o : Obj} {side : Side}
    {st : ℕ} (h : CopyAt heap copying a o side st) : heap.objectAt a = some o := by
  cases h with
  | old ho => exact ho
  | new ho _ => exact ho

lemma start_toObj (toStart : ℕ) : start (toObj toStart) = toStart := Nat.add_sub_cancel _ _

/-- Where an object is found, there is a whole copy of it, and what is elsewhere has no byte of it
or belongs to another object. -/
lemma State.FoundAt.exists_copyAt {s : State Obj} {r : ObjectReference} {o : Obj}
    (hr : s.FoundAt o r) :
    ∃ a side, s.CopyAt a o side (start r) ∧ (∀ i, s.HasByte a side i) ∧
      (∀ {o' side' st' i}, s.CopyAt a o' side' st' → s.HasByte a side' i → side' = side) ∧
      ∀ {c}, s.copying a = some c → c.pc = .forwarded → side = .new := by
  cases hr with
  | @here a ho hc =>
    refine ⟨_, .old, .old ho, fun i c hc' => ?_, fun hcopy _ => ?_, fun hc' _ => ?_⟩
    · exact absurd (hc.symm.trans hc') (by simp)
    · cases hcopy with
      | old => rfl
      | new _ hc' => exact absurd (hc.symm.trans hc') (by simp)
    · exact absurd (hc.symm.trans hc') (by simp)
  | @moved a c ho hc hpc =>
    have hpcs : ∀ c', s.copying a = some c' → c'.pc = .forwarded := by
      intro c' hc'
      rw [Option.some.inj (hc'.symm.trans hc)]
      exact hpc
    refine ⟨a, .new, ?_, fun i c' hc' => ?_, fun {o' side' st' i} _ hbyte => ?_, fun _ _ => rfl⟩
    · rw [start_toObj]
      exact .new ho hc
    · rw [hpcs c' hc']
      trivial
    · have := hbyte c hc
      rw [hpc] at this
      cases side' with
      | old => cases this
      | new => rfl

lemma wordBytes_le_imageSize {build : Build} {image : Memory} :
    Memory.wordBytes ≤ imageSize build image := by
  unfold imageSize prefixSize objrefOffset Memory.wordBytes
  omega

/-- Where an image is held, there is an object of its size. -/
lemma isObject_of_holds {build : Build} {m image : Memory} {a : ObjectReference}
    (hfits : FitsAt build a image) (h : m.Holds (start a) (imageSize build image) image) :
    IsObject build m a ∧ sizeIn build m a = imageSize build image := by
  have hheader := h.loadWord_zero wordBytes_le_imageSize
  have hsize : sizeIn build m a = imageSize build image := by
    unfold sizeIn imageSize
    rw [hheader]
  exact ⟨⟨by rw [hheader]; exact hfits.sane, hfits.above, by rw [hsize]; exact hfits.inBounds⟩,
    hsize⟩

/-- A write behind the hidden header does not change the size. -/
lemma loadWord_update {image : Memory} {i : ℕ} (hi : prefixSize ≤ i) (v : UInt8) :
    Memory.loadWord (Function.update image i v) 0 = image.loadWord 0 := by
  refine Memory.loadWord_congr fun j hj => ?_
  apply Function.update_of_ne
  unfold prefixSize objrefOffset at hi
  unfold Memory.wordBytes at hj
  omega

namespace Kept

variable {build : Build} {s : State Obj}

/-- What changes in one copy of one object leaves the other copies as they are. -/
lemma holds_of_frame (h : Kept build s) {a a' : ObjectReference} {o o' : Obj} {side side' : Side}
    {st st' : ℕ} (hcopy : s.CopyAt a o side st) {m : Memory}
    (hframe : ∀ x, ¬ InRange st (imageSize build (s.contents o)) x → m x = s.memory x)
    (hcopy' : s.CopyAt a' o' side' st') (hne : (a', side') ≠ (a, side)) :
    m.HoldsOn (s.HasByte a' side') st' (imageSize build (s.contents o')) (s.contents o') :=
  (h.holds hcopy').frame (h.separate hcopy' hcopy hne) hframe

/-- The forwarding pointer is where the old copy was. -/
lemma pointer_of_separate (h : Kept build s) {a : ObjectReference} {c : Copying}
    (hc : s.copying a = some c) (hpc : c.pc = .forwarded) {b k : ℕ}
    (hsep : ∀ {o}, s.CopyAt a o .old (start a) →
      Separate (start a) (imageSize build (s.contents o)) b k)
    {m : Memory} (hframe : ∀ x, ¬ InRange b k x → m x = s.memory x) :
    m.loadWord (start a) = (toObj c.toStart).toRawAddress := by
  obtain ⟨o, ho, -, -⟩ := h.copying hc
  rw [← h.pointer hc hpc]
  refine Memory.loadWord_congr fun i hi => hframe _ ?_
  exact (hsep (.old ho)).notMem_right (lt_of_lt_of_le hi wordBytes_le_imageSize)

lemma pointer_of_frame (h : Kept build s) {a a' : ObjectReference} {o : Obj} {side : Side} {st : ℕ}
    (hcopy : s.CopyAt a o side st) {m : Memory}
    (hframe : ∀ x, ¬ InRange st (imageSize build (s.contents o)) x → m x = s.memory x)
    {c : Copying} (hc : s.copying a' = some c) (hpc : c.pc = .forwarded)
    (hne : (a', .old) ≠ (a, side)) :
    m.loadWord (start a') = (toObj c.toStart).toRawAddress :=
  h.pointer_of_separate hc hpc (fun hcopy' => h.separate hcopy' hcopy hne) hframe

/-! #### The mutators -/

lemma copying_eq_none (h : Kept build s) {a : ObjectReference} (hfree : s.heap.objectAt a = none) :
    s.copying a = none := by
  by_contra hne
  obtain ⟨c, hc⟩ := Option.ne_none_iff_exists'.mp hne
  obtain ⟨o, ho, -⟩ := h.copying hc
  rw [hfree] at ho
  cases ho

open Classical in
lemma alloc (h : Kept build s) {a : ObjectReference} {o : Obj} {image memory : Memory}
    (hnew : o ∉ s.heap) (hfree : s.heap.objectAt a = none) (hfits : FitsAt build a image)
    (hfresh : s.Fresh build (start a) (imageSize build image))
    (hholds : memory.Holds (start a) (imageSize build image) image)
    (hframe : ∀ x, ¬ InRange (start a) (imageSize build image) x → memory x = s.memory x) :
    Kept build { s with
      memory
      heap := s.heap.alloc a o hnew
      contents := Function.update s.contents o image } := by
  have hcontents : ∀ {b o'}, s.heap.objectAt b = some o' →
      Function.update s.contents o image o' = s.contents o' := by
    intro b o' ho'
    apply Function.update_of_ne
    rintro rfl
    exact hnew (Heap.mem_of_objectAt ho')
  -- a copy is the new object, or was there before
  have hcopies : ∀ {b o' side st}, CopyAt (s.heap.alloc a o hnew) s.copying b o' side st →
      (b = a ∧ o' = o ∧ side = .old ∧ st = start a) ∨
        (s.CopyAt b o' side st ∧ Function.update s.contents o image o' = s.contents o') := by
    intro b o' side st hcopy
    cases hcopy with
    | old ho' =>
      rcases (Heap.objectAt_alloc_iff hfree hnew).mp ho' with ⟨rfl, rfl⟩ | hold
      · exact Or.inl ⟨rfl, rfl, rfl, rfl⟩
      · exact Or.inr ⟨.old hold, hcontents hold⟩
    | new ho' hc =>
      rcases (Heap.objectAt_alloc_iff hfree hnew).mp ho' with ⟨rfl, rfl⟩ | hold
      · have hnone := h.copying_eq_none hfree
        exact absurd (hnone.symm.trans hc) (by simp)
      · exact Or.inr ⟨.new hold hc, hcontents hold⟩
  refine ⟨?_, ?_, ?_, ?_, ?_⟩
  · intro b o' ho'
    rcases (Heap.objectAt_alloc_iff hfree hnew).mp ho' with ⟨rfl, rfl⟩ | hold
    · simpa only [Function.update_self] using hfits
    · simpa only [hcontents hold] using h.fits hold
  · intro b c hc
    obtain ⟨o', ho', hsize, halloc⟩ := h.copying hc
    refine ⟨o', (Heap.objectAt_alloc_iff hfree hnew).mpr (Or.inr ho'), ?_, halloc⟩
    simpa only [hcontents ho'] using hsize
  · intro b o₁ side st b' o₂ side' st' hcopy hcopy' hne
    rcases hcopies hcopy with ⟨rfl, rfl, rfl, rfl⟩ | ⟨hold, hsame⟩ <;>
      rcases hcopies hcopy' with ⟨rfl, rfl, rfl, rfl⟩ | ⟨hold', hsame'⟩
    · exact absurd rfl hne
    · simpa only [Function.update_self, hsame'] using hfresh hold'
    · simpa only [Function.update_self, hsame] using (hfresh hold).symm
    · simpa only [hsame, hsame'] using h.separate hold hold' hne
  · intro b o' side st hcopy
    rcases hcopies hcopy with ⟨rfl, rfl, rfl, rfl⟩ | ⟨hcopy, hsame⟩
    · intro i hi _
      simp only [Function.update_self] at hi ⊢
      exact hholds i hi
    · simp only [hsame]
      exact (h.holds hcopy).frame (hfresh hcopy).symm hframe
  · intro b c hc hpc
    exact h.pointer_of_separate hc hpc (fun hcopy => (hfresh hcopy).symm) hframe

open Classical in
lemma write (h : Kept build s) {r : ObjectReference} {o : Obj} (hr : s.FoundAt o r) {i : ℕ}
    (v : UInt8) (hi : prefixSize ≤ i) (hin : i < imageSize build (s.contents o)) :
    Kept build { s with
      memory := Function.update s.memory (start r + i) v
      contents := Function.update s.contents o (Function.update (s.contents o) i v) } := by
  obtain ⟨a, side, hcopy, -, honly, hpointer⟩ := hr.exists_copyAt
  have hheader : ∀ o', Memory.loadWord
      (Function.update s.contents o (Function.update (s.contents o) i v) o') 0 =
        Memory.loadWord (s.contents o') 0 := by
    intro o'
    by_cases ho' : o' = o
    · rw [ho', Function.update_self, loadWord_update hi]
    · rw [Function.update_of_ne ho']
  have hsize : ∀ o', imageSize build
      (Function.update s.contents o (Function.update (s.contents o) i v) o') =
        imageSize build (s.contents o') := by
    intro o'
    unfold imageSize
    rw [hheader]
  have hframe : ∀ x, ¬ InRange (start r) (imageSize build (s.contents o)) x →
      Function.update s.memory (start r + i) v x = s.memory x :=
    fun _ hx => Memory.update_of_notMem hin hx v
  refine ⟨?_, ?_, ?_, ?_, ?_⟩
  · intro b o' ho'
    have hfits := h.fits ho'
    exact ⟨by rw [hheader]; exact hfits.sane, hfits.above, by rw [hsize]; exact hfits.inBounds⟩
  · intro b c hc
    obtain ⟨o', ho', hsize', halloc⟩ := h.copying hc
    exact ⟨o', ho', by rw [hsize]; exact hsize', halloc⟩
  · intro b o₁ side₁ st b' o₂ side₂ st' hcopy₁ hcopy₂ hne
    rw [hsize, hsize]
    exact h.separate hcopy₁ hcopy₂ hne
  · intro b o' side' st hcopy'
    rw [hsize]
    by_cases hsame : (b, side') = (a, side)
    · -- the copy that is written to
      obtain ⟨rfl, rfl⟩ := Prod.mk.inj hsame
      obtain ⟨rfl, rfl⟩ := CopyAt.unique hcopy hcopy'
      simp only [Function.update_self]
      exact (h.holds hcopy).update i v
    · intro j hj hbyte
      have hba : b ≠ a := by
        rintro rfl
        exact hsame (Prod.ext rfl (honly hcopy' hbyte))
      have hne : o' ≠ o := by
        rintro rfl
        exact hba (s.heap.unique hcopy'.objectAt hcopy.objectAt)
      simp only [Function.update_of_ne hne]
      exact h.holds_of_frame hcopy hframe hcopy' hsame j hj hbyte
  · intro b c hc hpc
    apply h.pointer_of_frame hcopy hframe hc hpc
    intro heq
    obtain ⟨rfl, hside⟩ := Prod.mk.inj heq
    rw [hpointer hc hpc] at hside
    cases hside

/-! #### The workers -/

lemma allocCopy (h : Kept build s) {a : ObjectReference} {o : Obj}
    (ho : s.heap.objectAt a = some o) (hc : s.copying a = none) {size : ℕ}
    (hsize : objectSize build s.memory a = .ok size) {toStart : ℕ}
    (halloc : Allocated toStart size) (hfresh : s.Fresh build toStart size) :
    Kept build
      { s with copying := Function.update s.copying a (some ⟨toStart, size, .copying ∅⟩) } := by
  have hold : s.CopyAt a o .old (start a) := .old ho
  have hobject := isObject_of_holds (h.fits ho)
    ((h.holds hold).holds fun _ _ c hc' => absurd (hc.symm.trans hc') (by simp))
  have hsize' : size = imageSize build (s.contents o) := by
    rw [hobject.1.objectSize_eq, hobject.2] at hsize
    exact (Except.ok.inj hsize).symm
  have hcopies : ∀ {b o' side st}, CopyAt s.heap
      (Function.update s.copying a (some ⟨toStart, size, .copying ∅⟩)) b o' side st →
      (b = a ∧ o' = o ∧ side = .new ∧ st = toStart) ∨ s.CopyAt b o' side st := by
    intro b o' side st hcopy
    cases hcopy with
    | old ho' => exact Or.inr (.old ho')
    | @new ho' c hc' =>
      rcases update_eq_some_iff.mp hc' with ⟨rfl, rfl⟩ | ⟨-, hbefore⟩
      · exact Or.inl ⟨rfl, Option.some.inj (ho'.symm.trans ho), rfl, rfl⟩
      · exact Or.inr (.new ho' hbefore)
  refine ⟨h.fits, ?_, ?_, ?_, ?_⟩
  · intro b c hc'
    rcases update_eq_some_iff.mp hc' with ⟨rfl, rfl⟩ | ⟨-, hbefore⟩
    · exact ⟨o, ho, hsize', halloc⟩
    · exact h.copying hbefore
  · intro b o₁ side st b' o₂ side' st' hcopy hcopy' hne
    rcases hcopies hcopy with ⟨rfl, rfl, rfl, rfl⟩ | hbefore <;>
      rcases hcopies hcopy' with ⟨rfl, rfl, rfl, rfl⟩ | hbefore'
    · exact absurd rfl hne
    · rw [← hsize']
      exact hfresh hbefore'
    · rw [← hsize']
      exact (hfresh hbefore).symm
    · exact h.separate hbefore hbefore' hne
  · intro b o' side st hcopy
    rcases hcopies hcopy with ⟨rfl, rfl, rfl, rfl⟩ | hbefore
    · -- nothing has been copied yet
      intro i _ hbyte
      exact absurd (hbyte _ (Function.update_self _ _ _)) (by simp [CopyPc.HasByte])
    · refine (h.holds hbefore).mono fun i _ hbyte c hc' => ?_
      have hba : b ≠ a := by
        rintro rfl
        exact absurd (hc.symm.trans hc') (by simp)
      exact hbyte c ((Function.update_of_ne hba _ _).trans hc')
  · intro b c hc' hpc
    rcases update_eq_some_iff.mp hc' with ⟨rfl, rfl⟩ | ⟨-, hbefore⟩
    · cases hpc
    · exact h.pointer hbefore hpc

/-- A worker goes on with its copy, and writes on one side of it. -/
lemma advance (h : Kept build s) {a : ObjectReference} {o : Obj} {c : Copying}
    (ho : s.heap.objectAt a = some o) (hc : s.copying a = some c) {pc : CopyPc} {m : Memory}
    {side : Side} {st : ℕ} (hcopy : s.CopyAt a o side st)
    (hframe : ∀ x, ¬ InRange st (imageSize build (s.contents o)) x → m x = s.memory x)
    (hholds : m.HoldsOn (pc.HasByte side) st (imageSize build (s.contents o)) (s.contents o))
    (hother : ∀ side', side' ≠ side → ∀ i < c.size, pc.HasByte side' i → c.pc.HasByte side' i)
    (hpointer : pc = .forwarded → m.loadWord (start a) = (toObj c.toStart).toRawAddress) :
    Kept build (s.advance a c pc m) := by
  have hcopies : ∀ {b o' side' st'}, CopyAt s.heap
      (Function.update s.copying a (some { c with pc })) b o' side' st' →
        s.CopyAt b o' side' st' := by
    intro b o' side' st' hcopy'
    cases hcopy' with
    | old ho' => exact .old ho'
    | @new ho' c' hc' =>
      rcases update_eq_some_iff.mp hc' with ⟨rfl, rfl⟩ | ⟨-, hbefore⟩
      · have hnew : s.CopyAt b o' .new c.toStart := .new ho' hc
        exact hnew
      · exact .new ho' hbefore
  refine ⟨h.fits, ?_, ?_, ?_, ?_⟩
  · intro b c' hc'
    rcases update_eq_some_iff.mp hc' with ⟨rfl, rfl⟩ | ⟨-, hbefore⟩
    · obtain ⟨o', ho', hsize, halloc⟩ := h.copying hc
      exact ⟨o', ho', hsize, halloc⟩
    · exact h.copying hbefore
  · intro b o₁ side₁ st₁ b' o₂ side₂ st₂ hcopy₁ hcopy₂ hne
    exact h.separate (hcopies hcopy₁) (hcopies hcopy₂) hne
  · intro b o' side' st' hcopy'
    have hbefore := hcopies hcopy'
    by_cases hba : b = a
    · subst hba
      by_cases hside : side' = side
      · subst hside
        obtain ⟨rfl, rfl⟩ := CopyAt.unique hcopy hbefore
        exact hholds.mono fun i _ hbyte => hbyte _ (Function.update_self _ _ _)
      · refine (h.holds_of_frame hcopy hframe hbefore fun heq => hside (Prod.mk.inj heq).2).mono ?_
        intro i hi hbyte c' hc'
        obtain ⟨o₁, ho₁, hsize, -⟩ := h.copying hc
        obtain rfl : o' = o₁ := Option.some.inj (hbefore.objectAt.symm.trans ho₁)
        rw [Option.some.inj (hc'.symm.trans hc)]
        exact hother side' hside i (hsize ▸ hi) (hbyte _ (Function.update_self _ _ _))
    · refine (h.holds_of_frame hcopy hframe hbefore fun heq => hba (Prod.mk.inj heq).1).mono ?_
      intro i _ hbyte c' hc'
      exact hbyte c' ((Function.update_of_ne hba _ _).trans hc')
  · intro b c' hc' hpc
    rcases update_eq_some_iff.mp hc' with ⟨rfl, rfl⟩ | ⟨hba, hbefore⟩
    · exact hpointer hpc
    · exact h.pointer_of_frame hcopy hframe hbefore hpc fun heq => hba (Prod.mk.inj heq).1

/-- The bytes of a side, as far as they are there while the worker is at `pc`. -/
lemma holdsOn (h : Kept build s) {a : ObjectReference} {o : Obj} {c : Copying}
    (hc : s.copying a = some c) {side : Side} {st : ℕ} (hcopy : s.CopyAt a o side st) :
    s.memory.HoldsOn (c.pc.HasByte side) st (imageSize build (s.contents o)) (s.contents o) := by
  refine (h.holds hcopy).mono fun i _ hbyte c' hc' => ?_
  rwa [Option.some.inj (hc'.symm.trans hc)]

lemma copyByte (h : Kept build s) {a : ObjectReference} {c : Copying} {copied : Finset ℕ}
    (hc : s.copying a = some c) (hpc : c.pc = .copying copied) {i : ℕ} (hi : i < c.size) :
    Kept build (s.advance a c (.copying (insert i copied))
      (Function.update s.memory (c.toStart + i) (s.memory (start a + i)))) := by
  obtain ⟨o, ho, hsize, -⟩ := h.copying hc
  have hold := h.holdsOn hc (.old ho)
  have hnew := h.holdsOn hc (.new ho hc)
  rw [hpc] at hold hnew
  apply h.advance ho hc (.new ho hc)
  · exact fun x hx => Memory.update_of_notMem (hsize ▸ hi) hx _
  · intro j hj hbyte
    by_cases hji : j = i
    · rw [hji, Function.update_self]
      exact hold i (hsize ▸ hi) trivial
    · have hne : c.toStart + j ≠ c.toStart + i := fun heq => hji (Nat.add_left_cancel heq)
      rw [Function.update_of_ne hne]
      exact hnew j hj ((Finset.mem_insert.mp hbyte).resolve_left hji)
  · intro side' hside _ _ _
    rw [hpc]
    cases side' with
    | old => trivial
    | new => exact absurd rfl hside
  · intro hforwarded
    cases hforwarded

lemma clearOldCopy (h : Kept build s) {a : ObjectReference} {c : Copying}
    (hc : s.copying a = some c) (hpc : c.pc = .copying (Finset.range c.size)) :
    Kept build (s.advance a c (.clearing ∅) s.memory) := by
  obtain ⟨o, ho, -, -⟩ := h.copying hc
  have hold := h.holdsOn hc (.old ho)
  rw [hpc] at hold
  refine h.advance ho hc (.old ho) (fun _ _ => rfl) ?_ ?_ ?_
  · exact hold.mono fun _ _ _ => trivial
  · intro side' hside i hi _
    rw [hpc]
    cases side' with
    | old => exact absurd rfl hside
    | new => exact Finset.mem_range.mpr hi
  · intro hforwarded
    cases hforwarded

lemma clearByte (h : Kept build s) {a : ObjectReference} {c : Copying} {cleared : Finset ℕ}
    (hc : s.copying a = some c) (hpc : c.pc = .clearing cleared) {i : ℕ} (hi : i < c.size) :
    Kept build (s.advance a c (.clearing (insert i cleared))
      (Function.update s.memory (start a + i) 0)) := by
  obtain ⟨o, ho, hsize, -⟩ := h.copying hc
  have hold := h.holdsOn hc (.old ho)
  rw [hpc] at hold
  apply h.advance ho hc (.old ho)
  · exact fun x hx => Memory.update_of_notMem (hsize ▸ hi) hx _
  · refine (hold.mono fun j _ hbyte => ?_).update_of_not ?_ 0
    · exact fun hmem => hbyte (Finset.mem_insert_of_mem hmem)
    · exact fun hbyte => hbyte (Finset.mem_insert_self _ _)
  · intro side' hside _ _ _
    rw [hpc]
    cases side' with
    | old => exact absurd rfl hside
    | new => trivial
  · intro hforwarded
    cases hforwarded

lemma forward (h : Kept build s) {a : ObjectReference} {c : Copying}
    (hc : s.copying a = some c)
    (hpc : c.pc = .clearing (Finset.range c.size) ∨ c.pc = .copying (Finset.range c.size)) :
    Kept build
      (s.advance a c .forwarded (storeForwardingPointer s.memory a (toObj c.toStart))) := by
  obtain ⟨o, ho, hsize, halloc⟩ := h.copying hc
  rw [storeForwardingPointer, forwardingPointerAddr_eq]
  apply h.advance ho hc (.old ho)
  · intro x hx
    refine Memory.storeWord_of_notMem fun hin => hx ?_
    exact ⟨hin.1, lt_of_lt_of_le hin.2 (Nat.add_le_add_left wordBytes_le_imageSize _)⟩
  · intro _ _ hbyte
    cases hbyte
  · intro side' hside i hi _
    cases side' with
    | old => exact absurd rfl hside
    | new =>
      rcases hpc with hpc | hpc <;> rw [hpc]
      · trivial
      · exact Finset.mem_range.mpr hi
  · intro _
    -- the new address is a machine word
    apply Memory.loadWord_storeWord
    have hbounds := halloc.inBounds
    have hle : Memory.wordBytes ≤ c.size := hsize ▸ wordBytes_le_imageSize
    have hword : (toObj c.toStart).toRawAddress < usizeSize := by
      unfold Memory.wordBytes at hle
      unfold toObj objrefOffset
      simp only
      omega
    rw [Nat.shiftRight_eq_div_pow]
    exact Nat.div_eq_of_lt hword

lemma release (h : Kept build s) {traced : Traced} {heap' : Heap ObjectReference Obj}
    (hrel : traced.collection.Relocates s.heap heap')
    (hstill : ∀ a, (s.heap.objectAt a).isSome → s.copying a = none → a.forward traced = a)
    (hmoved : ∀ a c, s.copying a = some c →
      c.pc = .forwarded ∧ a.forward traced = toObj c.toStart) :
    Kept build { s with heap := heap', copying := fun _ => none } := by
  -- an object of the new heap was found at its new address
  have hfound : ∀ {b o}, heap'.objectAt b = some o →
      s.FoundAt o b ∧ FitsAt build b (s.contents o) := by
    intro b o hb
    obtain ⟨a, ho, -, hab⟩ := (hrel b o).mp hb
    have hab : a.forward traced = b := hab
    have hfits := h.fits ho
    cases hc : s.copying a with
    | none =>
      rw [hstill a (by rw [ho]; rfl) hc] at hab
      subst hab
      exact ⟨.here ho hc, hfits⟩
    | some c =>
      obtain ⟨hpc, hfwd⟩ := hmoved a c hc
      rw [hfwd] at hab
      subst hab
      obtain ⟨o', ho', hsize, halloc⟩ := h.copying hc
      obtain rfl : o' = o := Option.some.inj (ho'.symm.trans ho)
      refine ⟨.moved ho hc hpc, hfits.sane, Nat.le_add_left _ _, ?_⟩
      rw [start_toObj, ← hsize]
      exact halloc.inBounds
  have hcopies : ∀ {b o side st}, CopyAt heap' (fun _ => none) b o side st →
      heap'.objectAt b = some o ∧ side = .old ∧ st = start b := by
    intro b o side st hcopy
    cases hcopy with
    | old ho => exact ⟨ho, rfl, rfl⟩
    | new _ hc => cases hc
  refine ⟨fun ho => (hfound ho).2, fun hc => absurd hc (by simp), ?_, ?_,
    fun hc => absurd hc (by simp)⟩
  · intro b o side st b' o' side' st' hcopy hcopy' hne
    obtain ⟨hb, rfl, rfl⟩ := hcopies hcopy
    obtain ⟨hb', rfl, rfl⟩ := hcopies hcopy'
    obtain ⟨a, x, hbefore, -⟩ := (hfound hb).1.exists_copyAt
    obtain ⟨a', x', hbefore', -⟩ := (hfound hb').1.exists_copyAt
    refine h.separate hbefore hbefore' fun heq => ?_
    obtain ⟨rfl, -⟩ := Prod.mk.inj heq
    obtain rfl : o = o' := Option.some.inj (hbefore.objectAt.symm.trans hbefore'.objectAt)
    exact hne (Prod.ext (heap'.unique hb hb') rfl)
  · intro b o side st hcopy
    obtain ⟨hb, rfl, rfl⟩ := hcopies hcopy
    obtain ⟨a, x, hbefore, hbyte, -⟩ := (hfound hb).1.exists_copyAt
    exact (h.holds hbefore).mono fun i _ _ => hbyte i

end Kept

lemma kept_invariant (build : Build) : (system build Obj).IsInvariant (Kept build) where
  init := by
    rintro s ⟨hheap, hcopying⟩
    refine ⟨fun {a _} ho => ?_, fun {a _} hc => ?_, fun {a _ _ _ _ _ _ _} hcopy => ?_,
      fun {a _ _ _} hcopy => ?_, fun {a _} hc => ?_⟩
    · exact absurd ((hheap a).symm.trans ho) (by simp)
    · rw [hcopying] at hc
      cases hc
    · exact absurd ((hheap a).symm.trans (CopyAt.objectAt hcopy)) (by simp)
    · exact absurd ((hheap a).symm.trans (CopyAt.objectAt hcopy)) (by simp)
    · rw [hcopying] at hc
      cases hc
  step := by
    intro s l s' _ h hstep
    have hstart : ∀ {a c fromStart}, s.copying a = some c → objStart build a = .ok fromStart →
        fromStart = start a := by
      intro a c fromStart hc hstart
      obtain ⟨o, ho, -⟩ := h.copying hc
      have habove := (h.fits ho).above
      exact Except.ok.inj (hstart.symm.trans (build.profile.sub_of_le habove))
    cases hstep with
    | alloc a o image memory hnew hfree hfits hfresh hholds hframe =>
      exact h.alloc hnew hfree hfits hfresh hholds hframe
    | write l a o ha i v hi hin => exact h.write ha v hi hin
    | allocCopy a o ho hc hsize toStart halloc hfresh => exact h.allocCopy ho hc hsize halloc hfresh
    | copyByte a c hc hpc i hi _ hfrom =>
      rw [hstart hc hfrom]
      exact h.copyByte hc hpc hi
    | clearOldCopy a c hc hpc _ => exact h.clearOldCopy hc hpc
    | clearByte a c hc hpc i hi _ hfrom =>
      rw [hstart hc hfrom]
      exact h.clearByte hc hpc hi
    | forward a c hc hpc =>
      apply h.forward hc
      split_ifs at hpc with hclear
      · exact Or.inl hpc
      · exact Or.inr hpc
    | release traced heap' hrel hstill hmoved => exact h.release hrel hstill hmoved

end ObjectStore

end MmtkRuby
