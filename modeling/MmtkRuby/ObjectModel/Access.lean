import MmtkRuby.Core.Memory
import MmtkRuby.ObjectModel.Givtbl

/-!
# The layout of an object

A reference points to the payload of an object. The word before it, the hidden header, holds the
size of the payload in its low 48 bits; after the payload, there may be a suffix. The first word of
the payload holds the flags.
-/

namespace MmtkRuby

open Core

/-- `OBJREF_OFFSET`. -/
def objrefOffset : ℕ := 8

/-- `MIN_OBJ_ALIGN`. -/
def minObjAlign : ℕ := 8

/-- `HIDDEN_SIZE_MASK`. -/
def hiddenSizeMask : ℕ := 0x0000FFFFFFFFFFFF

/-- How the binding was built: the profile and the cargo features; and the `suffix_size` that it was
given. -/
structure Build where
  profile : Profile
  clearOldCopy : Bool
  extraAssert : Bool
  suffixSize : ℕ
deriving DecidableEq, Repr

namespace HiddenHeader

def isSane (prefixWord : ℕ) : Bool := prefixWord &&& (usizeSize - 1 - hiddenSizeMask) == 0

/-- `payload_size`, with its `assert_sane`, which is an `extra_assert!`. -/
def payloadSize (build : Build) (prefixWord : ℕ) : Except Panic ℕ :=
  if (build.profile = .debug ∨ build.extraAssert) ∧ isSane prefixWord = false then
    .error (.hiddenHeaderCorrupted prefixWord)
  else .ok (prefixWord &&& hiddenSizeMask)

end HiddenHeader

namespace RubyObjectAccess

variable (build : Build) (m : Memory) (objref : ObjectReference)

def prefixSize : ℕ := objrefOffset

def objStart : Except Panic ℕ := build.profile.sub objref.toRawAddress prefixSize

def hiddenHeader : Except Panic ℕ := do
  let start ← objStart build objref
  return m.loadWord start

def payloadSize : Except Panic ℕ := do
  let header ← hiddenHeader build m objref
  HiddenHeader.payloadSize build header

def suffixAddr : Except Panic ℕ := do
  let size ← payloadSize build m objref
  build.profile.add objref.toRawAddress size

def objEnd : Except Panic ℕ := do
  let suffix ← suffixAddr build m objref
  build.profile.add suffix build.suffixSize

def objectSize : Except Panic ℕ := do
  let size ← payloadSize build m objref
  let size ← build.profile.add prefixSize size
  build.profile.add size build.suffixSize

/-- `load_flags`, from the `flags_field`. -/
def loadFlags : ℕ := m.loadWord objref.toRawAddress

/-! ### Well-formed objects -/

/-- Where the hidden header is. -/
def start : ℕ := objref.toRawAddress - prefixSize

/-- The number of bytes of the object, from its hidden header to the end of its suffix. -/
def sizeIn : ℕ := prefixSize + (m.loadWord (start objref) &&& hiddenSizeMask) + build.suffixSize

/-- The hidden header is sane, and the object does not extend past either end of the addresses. -/
structure IsObject : Prop where
  sane : HiddenHeader.isSane (m.loadWord (start objref)) = true
  above : prefixSize ≤ objref.toRawAddress
  inBounds : start objref + sizeIn build m objref < usizeSize

variable {build m objref}

lemma prefixSize_le_sizeIn : prefixSize ≤ sizeIn build m objref := by
  unfold sizeIn
  omega

namespace IsObject

lemma objStart_eq (h : IsObject build m objref) : objStart build objref = .ok (start objref) :=
  build.profile.sub_of_le h.above

lemma payloadSize_eq (h : IsObject build m objref) :
    payloadSize build m objref = .ok (m.loadWord (start objref) &&& hiddenSizeMask) := by
  rw [payloadSize, hiddenHeader, h.objStart_eq]
  simp [HiddenHeader.payloadSize, h.sane, bind, Except.bind, pure, Except.pure]

lemma objectSize_eq (h : IsObject build m objref) :
    objectSize build m objref = .ok (sizeIn build m objref) := by
  have hbounds := h.inBounds
  unfold sizeIn at hbounds ⊢
  rw [objectSize, h.payloadSize_eq]
  simp only [bind, Except.bind]
  rw [build.profile.add_of_lt (by omega)]
  exact build.profile.add_of_lt (by omega)

lemma objEnd_eq (h : IsObject build m objref) :
    objEnd build m objref = .ok (start objref + sizeIn build m objref) := by
  have hbounds := h.inBounds
  have habove := h.above
  have hsum : objref.toRawAddress + (m.loadWord (start objref) &&& hiddenSizeMask) +
      build.suffixSize = start objref + sizeIn build m objref := by
    unfold sizeIn start
    omega
  rw [objEnd, suffixAddr, h.payloadSize_eq]
  simp only [bind, Except.bind]
  rw [build.profile.add_of_lt (by omega), ← hsum]
  exact build.profile.add_of_lt (by omega)

end IsObject

end RubyObjectAccess

end MmtkRuby
