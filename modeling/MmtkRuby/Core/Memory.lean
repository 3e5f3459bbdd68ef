import Mathlib.Data.Nat.Notation
import Mathlib.Tactic.Common

/-!
# Byte-addressed memory

Ranges of bytes are copied, filled, and read or written as little-endian words. Each operation is
described by what it leaves in its range and by the bytes outside, which stay. What is read depends
on the bytes that are read only.
-/

namespace Core

/-- The byte at every address. -/
abbrev Memory := ℕ → UInt8

/-- The address is in the range of `n` bytes from `start` on. -/
def InRange (start n a : ℕ) : Prop := start ≤ a ∧ a < start + n

instance (start n a : ℕ) : Decidable (InRange start n a) := inferInstanceAs (Decidable (_ ∧ _))

lemma not_inRange_zero {start a : ℕ} : ¬ InRange start 0 a := by
  unfold InRange
  omega

lemma inRange_succ_iff {start n a : ℕ} :
    InRange start (n + 1) a ↔ a = start + n ∨ InRange start n a := by
  unfold InRange
  omega

/-- Two ranges of `n` bytes have no address in common. -/
def DisjointRanges (start start' n : ℕ) : Prop := start + n ≤ start' ∨ start' + n ≤ start

namespace Memory

variable (m : Memory)

/-- `copy_nonoverlapping::<u8>`, for ranges that do not overlap. -/
def copyRange (src dst n : ℕ) : Memory := fun a =>
  if InRange dst n a then m (src + (a - dst)) else m a

/-- `write_bytes::<u8>`. -/
def writeBytes (dst : ℕ) (val : UInt8) (n : ℕ) : Memory := fun a =>
  if InRange dst n a then val else m a

/-- The number that the `n` bytes from `a` on encode, the least significant first. -/
def loadBytes (a : ℕ) : ℕ → ℕ
  | 0 => 0
  | n + 1 => (m a).toNat + 256 * loadBytes (a + 1) n

/-- The number of bytes of a word. -/
def wordBytes : ℕ := 8

def loadWord (a : ℕ) : ℕ := m.loadBytes a wordBytes

def storeWord (a v : ℕ) : Memory := fun b =>
  if InRange a wordBytes b then UInt8.ofNat (v >>> (8 * (b - a))) else m b

variable {m}

lemma copyRange_add {src dst n i : ℕ} (hi : i < n) :
    m.copyRange src dst n (dst + i) = m (src + i) := by
  have hin : InRange dst n (dst + i) := ⟨Nat.le_add_right _ _, Nat.add_lt_add_left hi _⟩
  rw [copyRange, if_pos hin, Nat.add_sub_cancel_left]

lemma copyRange_of_notMem {src dst n a : ℕ} (ha : ¬ InRange dst n a) :
    m.copyRange src dst n a = m a :=
  if_neg ha

@[simp] lemma copyRange_zero (src dst : ℕ) : m.copyRange src dst 0 = m := by
  funext a
  exact copyRange_of_notMem not_inRange_zero

/-- One more byte is copied. -/
lemma copyRange_succ (src dst n : ℕ) :
    Function.update (m.copyRange src dst n) (dst + n) (m (src + n)) =
      m.copyRange src dst (n + 1) := by
  funext a
  by_cases ha : a = dst + n
  · rw [ha, Function.update_self, copyRange_add (Nat.lt_succ_self n)]
  · rw [Function.update_of_ne ha]
    simp only [copyRange, inRange_succ_iff, ha, false_or]

/-- A byte of the range is changed. -/
lemma update_of_notMem {a n i x : ℕ} (hi : i < n) (hx : ¬ InRange a n x) (v : UInt8) :
    Function.update m (a + i) v x = m x := by
  refine Function.update_of_ne ?_ _ _
  rintro rfl
  exact hx ⟨Nat.le_add_right _ _, Nat.add_lt_add_left hi _⟩

lemma writeBytes_of_mem {dst n a : ℕ} {val : UInt8} (ha : InRange dst n a) :
    m.writeBytes dst val n a = val :=
  if_pos ha

lemma writeBytes_of_notMem {dst n a : ℕ} {val : UInt8} (ha : ¬ InRange dst n a) :
    m.writeBytes dst val n a = m a :=
  if_neg ha

@[simp] lemma writeBytes_zero (dst : ℕ) (val : UInt8) : m.writeBytes dst val 0 = m := by
  funext a
  exact writeBytes_of_notMem not_inRange_zero

/-- One more byte is filled. -/
lemma writeBytes_succ (dst n : ℕ) (val : UInt8) :
    Function.update (m.writeBytes dst val n) (dst + n) val = m.writeBytes dst val (n + 1) := by
  funext a
  by_cases ha : a = dst + n
  · rw [ha, Function.update_self, writeBytes_of_mem (inRange_succ_iff.mpr (Or.inl rfl))]
  · rw [Function.update_of_ne ha]
    simp only [writeBytes, inRange_succ_iff, ha, false_or]

lemma storeWord_of_notMem {a b v : ℕ} (hb : ¬ InRange a wordBytes b) : m.storeWord a v b = m b :=
  if_neg hb

/-- What is loaded depends only on the bytes that are loaded. -/
lemma loadBytes_congr {m' : Memory} {n a a' : ℕ} (h : ∀ i < n, m (a + i) = m' (a' + i)) :
    m.loadBytes a n = m'.loadBytes a' n := by
  induction n generalizing a a' with
  | zero => rfl
  | succ n ih =>
    have hhead := h 0 (Nat.succ_pos n)
    have htail : m.loadBytes (a + 1) n = m'.loadBytes (a' + 1) n := by
      refine ih fun i hi => ?_
      rw [Nat.add_assoc, Nat.add_comm 1, Nat.add_assoc a', Nat.add_comm 1]
      exact h (i + 1) (Nat.succ_lt_succ hi)
    rw [Nat.add_zero, Nat.add_zero] at hhead
    rw [loadBytes, loadBytes, hhead, htail]

lemma loadWord_congr {m' : Memory} {a a' : ℕ}
    (h : ∀ i < wordBytes, m (a + i) = m' (a' + i)) : m.loadWord a = m'.loadWord a' :=
  loadBytes_congr h

end Memory

/-- An address of the one range is not in the other. -/
lemma DisjointRanges.notMem_left {start start' n i : ℕ} (h : DisjointRanges start start' n)
    (hi : i < n) : ¬ InRange start n (start' + i) := by
  unfold DisjointRanges at h
  unfold InRange
  omega

end Core
