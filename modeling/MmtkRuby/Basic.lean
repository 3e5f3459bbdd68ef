import Mathlib.Data.List.Forall2
import MmtkRuby.Core.Tiling
import MmtkRuby.ObjectReference

/-!
# The Rust that the binding is written in

Machine words, the two cargo profiles, and the panics that the modelled functions can raise.
-/

namespace MmtkRuby

open Core

/-- The number of values of `usize`. Only 64-bit targets compile: `HIDDEN_SIZE_MASK` has 48 bits. -/
def usizeSize : ℕ := 2 ^ 64

/-- The cargo profile. Overflow checks and `debug_assert!` are on in `debug` only. -/
inductive Profile where
  | debug
  | release
deriving DecidableEq, Repr

/-- Why a thread panicked. -/
inductive Panic where
  | addOverflow
  | subOverflow
  | stepByZero
  /-- `set_temporarily_and_run_code is recursively called.` -/
  | recursiveObjectClosure
  /-- the `debug_assert_eq!` on the number of `pinned_ppp_children` -/
  | pinnedPppChildrenLeft
  /-- `debug_assert!(unpinned)` -/
  | notUnpinned
  /-- `debug_assert!(!to_start.is_zero())` -/
  | allocCopyZero
  /-- `Hidden header is corrupted: {:x}` -/
  | hiddenHeaderCorrupted (prefixWord : ℕ)
  /-- `Object {} has FL_EXIVAR but no givtbl.` -/
  | exivarWithoutGivtbl (object : ObjectReference)
  /-- `The givtbl of object {} is not found in generic_iv_tbl_ or binding().moved_givtbl` -/
  | givtblNotFound (object : ObjectReference)
deriving DecidableEq, Repr

/-- `a + b` on `usize`: checked in debug builds, wrapping in release builds. -/
def Profile.add (profile : Profile) (a b : ℕ) : Except Panic ℕ :=
  if a + b < usizeSize then .ok (a + b)
  else match profile with
    | .debug => .error .addOverflow
    | .release => .ok ((a + b) % usizeSize)

/-- An addition that does not overflow is the same in both profiles. -/
lemma Profile.add_of_lt (profile : Profile) {a b : ℕ} (h : a + b < usizeSize) :
    profile.add a b = .ok (a + b) := by
  simp [Profile.add, h]

/-- `a - b` on `usize`, likewise. -/
def Profile.sub (profile : Profile) (a b : ℕ) : Except Panic ℕ :=
  if b ≤ a then .ok (a - b)
  else match profile with
    | .debug => .error .subOverflow
    | .release => .ok (a + usizeSize - b)

lemma Profile.sub_of_le (profile : Profile) {a b : ℕ} (h : b ≤ a) :
    profile.sub a b = .ok (a - b) := by
  simp [Profile.sub, h]

/-- `AtomicUsize::fetch_add` on two `usize`s: it wraps in every profile. -/
def wrappingAdd (a b : ℕ) : ℕ := if a + b < usizeSize then a + b else a + b - usizeSize

/-- `AtomicUsize::fetch_sub`, likewise. -/
def wrappingSub (a b : ℕ) : ℕ := if b ≤ a then a - b else a + usizeSize - b

lemma wrappingAdd_of_lt {a b : ℕ} (h : a + b < usizeSize) : wrappingAdd a b = a + b :=
  if_pos h

lemma wrappingSub_of_le {a b : ℕ} (h : b ≤ a) : wrappingSub a b = a - b :=
  if_pos h

/-- `(lo..hi).step_by(step)`, which panics on a step of zero. -/
def stepBy (lo hi step : ℕ) : Except Panic (List ℕ) :=
  if step = 0 then .error .stepByZero else .ok (strided lo hi step)

/-- What follows a computation is reached when the computation returns. -/
lemma bind_eq_ok_iff {α β : Type} {x : Except Panic α} {f : α → Except Panic β} {b : β} :
    (x >>= f) = .ok b ↔ ∃ a, x = .ok a ∧ f a = .ok b := by
  cases x with
  | error e => simp [bind, Except.bind]
  | ok a => simp [bind, Except.bind]

/-- What follows a `step_by` is reached when the step is not zero. -/
lemma stepBy_bind_eq_ok_iff {β : Type} {lo hi step : ℕ} {f : List ℕ → Except Panic β} {b : β} :
    (stepBy lo hi step >>= f) = .ok b ↔ 0 < step ∧ f (strided lo hi step) = .ok b := by
  rw [bind_eq_ok_iff, stepBy]
  by_cases h : step = 0
  · simp [h]
  · simp [h, Nat.pos_of_ne_zero h]

/-- A loop that may panic returns when every iteration does, in the order of the iterations. -/
lemma mapM_eq_ok_iff {α β : Type} {f : α → Except Panic β} {l : List α} {r : List β} :
    l.mapM f = .ok r ↔ List.Forall₂ (fun a b => f a = .ok b) l r := by
  induction l generalizing r with
  | nil =>
    simp [pure, Except.pure, eq_comm]
  | cons a l ih =>
    rw [List.mapM_cons]
    simp only [bind_eq_ok_iff, ih]
    constructor
    · rintro ⟨b, ha, bs, hl, hr⟩
      cases hr
      exact .cons ha hl
    · intro h
      cases h with
      | cons ha hl => exact ⟨_, ha, _, hl, rfl⟩

end MmtkRuby
