import MmtkRuby.ObjectModel.Access

/-!
# `VMObjectModel::copy`

An object is copied byte by byte, from its hidden header to the end of its suffix. Its size and
flags are read before the old copy is cleared, if it is, and before mmtk-core overwrites the hidden
header of the old copy with the forwarding pointer.
-/

namespace MmtkRuby

open Core RubyObjectAccess

namespace VMObjectModel

def getCurrentSize (build : Build) (m : Memory) (object : ObjectReference) : Except Panic ℕ :=
  objectSize build m object

def refToObjectStart (build : Build) (object : ObjectReference) : Except Panic ℕ :=
  objStart build object

/-- The memory, and the record of moved tables. -/
structure CopyState where
  memory : Memory
  movedGivtbl : MovedGivtbl

/-- `to_obj`. The addition does not overflow in a range that was allocated. -/
def toObj (toStart : ℕ) : ObjectReference := ⟨toStart + objrefOffset, Nat.succ_ne_zero _⟩

/-- `VMObjectModel::copy`, given which start `alloc_copy` returns for which size. -/
def copy (build : Build) (getOriginalGivtbl : ObjectReference → Ptr) (allocCopy : ℕ → ℕ)
    (s : CopyState) (fromObj : ObjectReference) : Except Panic (ObjectReference × CopyState) := do
  let maybeGivtbl ← maybeGivtbl ⟨getOriginalGivtbl, loadFlags s.memory⟩ fromObj
  let fromStart ← objStart build fromObj
  let size ← objectSize build s.memory fromObj
  let toStart := allocCopy size
  if build.profile = .debug ∧ toStart = 0 then throw .allocCopyZero
  let memory := s.memory.copyRange fromStart toStart size
  let memory := if build.clearOldCopy then memory.writeBytes fromStart 0 size else memory
  return (toObj toStart,
    ⟨memory, insertMovedGivtbl s.movedGivtbl fromObj (toObj toStart) maybeGivtbl⟩)

/-- What `copy` leaves in the memory. -/
def copyMemory (clearOldCopy : Bool) (m : Memory) (fromStart toStart size : ℕ) : Memory :=
  if clearOldCopy then (m.copyRange fromStart toStart size).writeBytes fromStart 0 size
  else m.copyRange fromStart toStart size

/-- What a call of `copy` that returns has read, and what it has done. -/
lemma of_copy_eq_ok {build : Build} {getOriginalGivtbl : ObjectReference → Ptr}
    {allocCopy : ℕ → ℕ} {s s' : CopyState} {fromObj newObj : ObjectReference}
    (h : copy build getOriginalGivtbl allocCopy s fromObj = .ok (newObj, s')) :
    ∃ givtbl fromStart size,
      maybeGivtbl ⟨getOriginalGivtbl, loadFlags s.memory⟩ fromObj = .ok givtbl ∧
      objStart build fromObj = .ok fromStart ∧ objectSize build s.memory fromObj = .ok size ∧
      newObj = toObj (allocCopy size) ∧
      s' = ⟨copyMemory build.clearOldCopy s.memory fromStart (allocCopy size) size,
        insertMovedGivtbl s.movedGivtbl fromObj newObj givtbl⟩ := by
  obtain ⟨givtbl, hgivtbl, h⟩ := bind_eq_ok_iff.mp h
  obtain ⟨fromStart, hstart, h⟩ := bind_eq_ok_iff.mp h
  obtain ⟨size, hsize, h⟩ := bind_eq_ok_iff.mp h
  dsimp only at h
  by_cases hzero : build.profile = .debug ∧ allocCopy size = 0
  · rw [if_pos hzero] at h
    cases h
  rw [if_neg hzero] at h
  obtain ⟨rfl, rfl⟩ := Prod.mk.inj (Except.ok.inj h)
  exact ⟨givtbl, fromStart, size, hgivtbl, hstart, hsize, rfl, rfl⟩

/-- What it has done with the tables. -/
lemma copyGivtbl_of_copy {build : Build} {getOriginalGivtbl : ObjectReference → Ptr}
    {allocCopy : ℕ → ℕ} {s s' : CopyState} {fromObj newObj : ObjectReference}
    (h : copy build getOriginalGivtbl allocCopy s fromObj = .ok (newObj, s')) :
    copyGivtbl ⟨getOriginalGivtbl, loadFlags s.memory⟩ s.movedGivtbl (fromObj, newObj) =
      .ok s'.movedGivtbl := by
  obtain ⟨givtbl, -, -, hgivtbl, -, -, -, rfl⟩ := of_copy_eq_ok h
  rw [copyGivtbl, hgivtbl]
  rfl

/-- `LOCAL_FORWARDING_POINTER_SPEC`: in the header, at this offset in bits. -/
def localForwardingPointerSpec : ℤ := -((objrefOffset * 8 : ℕ) : ℤ)

/-- Where the forwarding pointer of an object is stored. -/
def forwardingPointerAddr (object : ObjectReference) : ℕ :=
  ((object.toRawAddress : ℤ) + localForwardingPointerSpec / 8).toNat

/-- What mmtk-core does when the object has been copied. -/
def storeForwardingPointer (m : Memory) (object newObject : ObjectReference) : Memory :=
  m.storeWord (forwardingPointerAddr object) newObject.toRawAddress

lemma forwardingPointerAddr_eq (object : ObjectReference) :
    forwardingPointerAddr object = start object := by
  unfold forwardingPointerAddr localForwardingPointerSpec start prefixSize objrefOffset
  omega

/-- What `alloc_copy` promises. -/
structure Allocated (toStart size : ℕ) : Prop where
  ne_zero : toStart ≠ 0
  aligned : minObjAlign ∣ toStart
  inBounds : toStart + size < usizeSize

/-- In the memory `m'`, there is at `newObject` a copy of what `object` was in `m`. -/
structure CopyOf (build : Build) (m : Memory) (object : ObjectReference) (m' : Memory)
    (newObject : ObjectReference) : Prop where
  bytes : ∀ i < sizeIn build m object, m' (start newObject + i) = m (start object + i)
  currentSize : getCurrentSize build m' newObject = getCurrentSize build m object
  objectStart : refToObjectStart build newObject = .ok (start newObject)
  objEnd : objEnd build m' newObject = .ok (start newObject + sizeIn build m object)
  flags : prefixSize + Memory.wordBytes ≤ sizeIn build m object →
    loadFlags m' newObject = loadFlags m object ∧
    ∀ givtbls, hasExivarFlag ⟨givtbls, loadFlags m'⟩ newObject =
      hasExivarFlag ⟨givtbls, loadFlags m⟩ object

variable {build : Build} {m m' : Memory} {object newObject : ObjectReference}

/-- A copy of all the bytes is a copy of the object. -/
lemma copyOf_of_bytes (hobj : IsObject build m object)
    (habove : prefixSize ≤ newObject.toRawAddress)
    (hbounds : start newObject + sizeIn build m object < usizeSize)
    (hbytes : ∀ i < sizeIn build m object, m' (start newObject + i) = m (start object + i)) :
    CopyOf build m object m' newObject := by
  have hheader : m'.loadWord (start newObject) = m.loadWord (start object) :=
    Memory.loadWord_congr fun i hi => hbytes i (lt_of_lt_of_le hi prefixSize_le_sizeIn)
  have hsize : sizeIn build m' newObject = sizeIn build m object := by
    unfold sizeIn
    rw [hheader]
  have hnew : IsObject build m' newObject :=
    ⟨by rw [hheader]; exact hobj.sane, habove, by rw [hsize]; exact hbounds⟩
  have hflags : prefixSize + Memory.wordBytes ≤ sizeIn build m object →
      loadFlags m' newObject = loadFlags m object := by
    intro hword
    refine Memory.loadWord_congr fun i hi => ?_
    have hbyte := hbytes (prefixSize + i) (by omega)
    have haddr : ∀ o : ObjectReference, prefixSize ≤ o.toRawAddress →
        start o + (prefixSize + i) = o.toRawAddress + i := by
      intro o ho
      unfold start
      omega
    rwa [haddr _ habove, haddr _ hobj.above] at hbyte
  refine ⟨hbytes, ?_, hnew.objStart_eq, ?_, fun hword => ⟨hflags hword, fun givtbls => ?_⟩⟩
  · rw [getCurrentSize, getCurrentSize, hnew.objectSize_eq, hobj.objectSize_eq, hsize]
  · rw [hnew.objEnd_eq, hsize]
  · simp only [hasExivarFlag, hflags hword]

/-- What `copy` has done to the memory, if it clears the old copy or not. -/
structure MemoryCopied (clearOldCopy : Bool) (m : Memory) (fromStart toStart size : ℕ)
    (m' : Memory) : Prop where
  bytes : ∀ i < size, m' (toStart + i) = m (fromStart + i)
  frame : ∀ a, ¬ InRange toStart size a → (clearOldCopy = true → ¬ InRange fromStart size a) →
    m' a = m a
  cleared : clearOldCopy = true → ∀ a, InRange fromStart size a → m' a = 0

lemma memoryCopied {fromStart toStart size : ℕ} (hdisj : DisjointRanges fromStart toStart size)
    (clearOldCopy : Bool) (m : Memory) :
    MemoryCopied clearOldCopy m fromStart toStart size
      (copyMemory clearOldCopy m fromStart toStart size) := by
  cases clearOldCopy with
  | false =>
    refine ⟨fun i hi => Memory.copyRange_add hi, fun a ha _ => Memory.copyRange_of_notMem ha, ?_⟩
    intro hclear
    cases hclear
  | true =>
    refine ⟨fun i hi => ?_, fun a ha hsource => ?_, fun _ a ha => Memory.writeBytes_of_mem ha⟩
    · rw [copyMemory, if_pos rfl, Memory.writeBytes_of_notMem (hdisj.notMem_left hi)]
      exact Memory.copyRange_add hi
    · rw [copyMemory, if_pos rfl, Memory.writeBytes_of_notMem (hsource rfl)]
      exact Memory.copyRange_of_notMem ha

/-- What a call of `copy` that returns has done. -/
structure Copied (build : Build) (getOriginalGivtbl : ObjectReference → Ptr) (s : CopyState)
    (fromObj : ObjectReference) (toStart : ℕ) (newObj : ObjectReference) (s' : CopyState) :
    Prop where
  newObj_eq : newObj.toRawAddress = toStart + objrefOffset
  start_eq : start newObj = toStart
  memory : MemoryCopied build.clearOldCopy s.memory (start fromObj) toStart
    (sizeIn build s.memory fromObj) s'.memory
  copyOf : CopyOf build s.memory fromObj s'.memory newObj
  movedGivtbl : s'.movedGivtbl =
    if hasExivarFlag ⟨getOriginalGivtbl, loadFlags s.memory⟩ fromObj then
      Function.update s.movedGivtbl newObj (some ⟨fromObj, getOriginalGivtbl fromObj⟩)
    else s.movedGivtbl
  /-- the forwarding pointer overwrites the hidden header of the old copy, and nothing else -/
  forwarding_frame : ∀ a, ¬ InRange (start fromObj) Memory.wordBytes a →
    storeForwardingPointer s'.memory fromObj newObj a = s'.memory a
  forwarding_copyOf : CopyOf build s.memory fromObj
    (storeForwardingPointer s'.memory fromObj newObj) newObj

/-- What the copied memory and the insertion make of the state. -/
lemma copied {getOriginalGivtbl : ObjectReference → Ptr} {s : CopyState}
    {fromObj : ObjectReference} {toStart : ℕ} (hobj : IsObject build s.memory fromObj)
    (halloc : Allocated toStart (sizeIn build s.memory fromObj))
    (hdisj : DisjointRanges (start fromObj) toStart (sizeIn build s.memory fromObj))
    (hmemory : MemoryCopied build.clearOldCopy s.memory (start fromObj) toStart
      (sizeIn build s.memory fromObj) m') :
    Copied build getOriginalGivtbl s fromObj toStart (toObj toStart) ⟨m', insertMovedGivtbl
      s.movedGivtbl fromObj (toObj toStart)
      (if hasExivarFlag ⟨getOriginalGivtbl, loadFlags s.memory⟩ fromObj then
        some (getOriginalGivtbl fromObj) else none)⟩ := by
  have hstart : start (toObj toStart) = toStart := Nat.add_sub_cancel _ _
  have habove : prefixSize ≤ (toObj toStart).toRawAddress := Nat.le_add_left _ _
  have hcopyOf : ∀ m'' : Memory, (∀ i < sizeIn build s.memory fromObj,
      m'' (toStart + i) = s.memory (start fromObj + i)) →
      CopyOf build s.memory fromObj m'' (toObj toStart) := by
    intro m'' hbytes
    rw [← hstart] at hbytes
    exact copyOf_of_bytes hobj habove (by rw [hstart]; exact halloc.inBounds) hbytes
  have hforwarding : ∀ a, ¬ InRange (start fromObj) Memory.wordBytes a →
      storeForwardingPointer m' fromObj (toObj toStart) a = m' a := by
    intro a ha
    rw [storeForwardingPointer, forwardingPointerAddr_eq]
    exact Memory.storeWord_of_notMem ha
  refine ⟨rfl, hstart, hmemory, hcopyOf _ hmemory.bytes, ?_, hforwarding, hcopyOf _ fun i hi => ?_⟩
  · split_ifs <;> rfl
  · -- the new copy is apart from the whole old one, hence from its hidden header
    have hout : ¬ InRange (start fromObj) Memory.wordBytes (toStart + i) := by
      intro hin
      have hle : Memory.wordBytes ≤ sizeIn build s.memory fromObj := prefixSize_le_sizeIn
      exact hdisj.notMem_left hi ⟨hin.1, lt_of_lt_of_le hin.2 (Nat.add_le_add_left hle _)⟩
    rw [hforwarding _ hout]
    exact hmemory.bytes i hi

/-- `copy` panics, before it changes anything, when the flag is set and there is no table;
otherwise it copies the object faithfully. -/
theorem copy_copied (build : Build) (getOriginalGivtbl : ObjectReference → Ptr)
    (allocCopy : ℕ → ℕ) (s : CopyState) (fromObj : ObjectReference)
    (hobj : IsObject build s.memory fromObj)
    (halloc : Allocated (allocCopy (sizeIn build s.memory fromObj))
      (sizeIn build s.memory fromObj))
    (hdisj : DisjointRanges (start fromObj) (allocCopy (sizeIn build s.memory fromObj))
      (sizeIn build s.memory fromObj)) :
    if hasExivarFlag ⟨getOriginalGivtbl, loadFlags s.memory⟩ fromObj ∧
        getOriginalGivtbl fromObj = 0 then
      copy build getOriginalGivtbl allocCopy s fromObj = .error (.exivarWithoutGivtbl fromObj)
    else
      ∃ newObj s', copy build getOriginalGivtbl allocCopy s fromObj = .ok (newObj, s') ∧
        Copied build getOriginalGivtbl s fromObj (allocCopy (sizeIn build s.memory fromObj))
          newObj s' := by
  split_ifs with hpanic
  · rw [copy, maybeGivtbl_eq_error hpanic.1 hpanic.2]
    rfl
  · refine ⟨_, _, ?_, copied hobj halloc hdisj (memoryCopied hdisj build.clearOldCopy s.memory)⟩
    rw [copy, maybeGivtbl_eq_ok hpanic]
    simp only [hobj.objStart_eq, hobj.objectSize_eq, halloc.ne_zero, bind, Except.bind, and_false,
      if_false, pure, Except.pure, copyMemory]

/-- An object at 4104 with a payload of 16 bytes, and `FL_EXIVAR` set. -/
def exivarMemory : Memory := fun a => if a = 4096 then 16 else if a = 4105 then 4 else 0

/-- An object at 4104 with no payload at all, and something else after its hidden header. -/
def emptyMemory : Memory := fun a => if a = 4104 then 1 else 0

/-- That object is copied to 8200, and its table is recorded. -/
theorem copy_copied_exivar : ∃ newObj s',
    copy ⟨.debug, true, true, 0⟩ (fun _ => 7) (fun _ => 8192) ⟨exivarMemory, fun _ => none⟩
      ⟨4104, by decide⟩ = .ok (newObj, s') ∧
    Copied ⟨.debug, true, true, 0⟩ (fun _ => 7) ⟨exivarMemory, fun _ => none⟩ ⟨4104, by decide⟩
      8192 newObj s' := by
  have hcopy := copy_copied ⟨.debug, true, true, 0⟩ (fun _ => 7) (fun _ => 8192)
    ⟨exivarMemory, fun _ => none⟩ ⟨4104, by decide⟩ ⟨by decide, by decide, by decide⟩
    ⟨by decide, by decide, by decide⟩ (Or.inl (by decide))
  rwa [if_neg (by decide)] at hcopy

/-- The flag without a table makes `copy` panic, and of an object without a payload the flags word
is not copied. -/
theorem copy_not_faithful :
    (IsObject ⟨.release, false, false, 0⟩ exivarMemory ⟨4104, by decide⟩ ∧ Allocated 8192 24 ∧
      DisjointRanges 4096 8192 24 ∧
      copy ⟨.release, false, false, 0⟩ (fun _ => 0) (fun _ => 8192) ⟨exivarMemory, fun _ => none⟩
        ⟨4104, by decide⟩ = .error (.exivarWithoutGivtbl ⟨4104, by decide⟩)) ∧
    (IsObject ⟨.release, false, false, 0⟩ emptyMemory ⟨4104, by decide⟩ ∧ Allocated 8192 8 ∧
      DisjointRanges 4096 8192 8 ∧
      ∃ newObj s', copy ⟨.release, false, false, 0⟩ (fun _ => 0) (fun _ => 8192)
          ⟨emptyMemory, fun _ => none⟩ ⟨4104, by decide⟩ = .ok (newObj, s') ∧
        loadFlags s'.memory newObj ≠ loadFlags emptyMemory ⟨4104, by decide⟩) := by
  refine ⟨⟨⟨by decide, by decide, by decide⟩, ⟨by decide, by decide, by decide⟩,
    Or.inl (by decide), rfl⟩, ⟨by decide, by decide, by decide⟩,
    ⟨by decide, by decide, by decide⟩, Or.inl (by decide), _, _, rfl, by decide⟩

end VMObjectModel

end MmtkRuby
