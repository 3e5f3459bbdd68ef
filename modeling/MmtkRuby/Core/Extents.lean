import MmtkRuby.Core.Memory

/-!
# Extents of memory and what they hold

An extent is a range of bytes, and holds the bytes of some image. What is written in one extent does
not change what a separate one holds.
-/

namespace Core

/-- No address is both among the `n` bytes from `a` on and among the `k` bytes from `b` on. -/
def Separate (a n b k : ℕ) : Prop := a + n ≤ b ∨ b + k ≤ a

namespace Separate

variable {a b i k n : ℕ}

lemma symm (h : Separate a n b k) : Separate b k a n := Or.symm h

/-- An address of the one extent is not in the other. -/
lemma notMem_right (h : Separate a n b k) (hi : i < n) : ¬ InRange b k (a + i) := by
  unfold Separate at h
  unfold InRange
  omega

end Separate

namespace Memory

/-- Among the `n` bytes from `a` on, those at the offsets `p` are those of the image. -/
def HoldsOn (m : Memory) (p : ℕ → Prop) (a n : ℕ) (image : Memory) : Prop :=
  ∀ i < n, p i → m (a + i) = image i

/-- The `n` bytes from `a` on are those of the image. -/
def Holds (m : Memory) (a n : ℕ) (image : Memory) : Prop := ∀ i < n, m (a + i) = image i

namespace HoldsOn

variable {m m' image : Memory} {p q : ℕ → Prop} {a b k n : ℕ}

lemma mono (h : m.HoldsOn p a n image) (hpq : ∀ i < n, q i → p i) : m.HoldsOn q a n image :=
  fun i hi hq => h i hi (hpq i hi hq)

lemma holds (h : m.HoldsOn p a n image) (hp : ∀ i < n, p i) : m.Holds a n image :=
  fun i hi => h i hi (hp i hi)

/-- Memory that is changed elsewhere only. -/
lemma frame (h : m.HoldsOn p a n image) (hsep : Separate a n b k)
    (hframe : ∀ x, ¬ InRange b k x → m' x = m x) : m'.HoldsOn p a n image := by
  intro i hi hp
  rw [hframe _ (hsep.notMem_right hi)]
  exact h i hi hp

/-- A byte of the extent and of the image is changed. -/
lemma update (h : m.HoldsOn p a n image) (i : ℕ) (v : UInt8) :
    Memory.HoldsOn (Function.update m (a + i) v) p a n (Function.update image i v) := by
  intro j hj hp
  by_cases hji : j = i
  · rw [hji, Function.update_self, Function.update_self]
  · have hne : a + j ≠ a + i := fun heq => hji (Nat.add_left_cancel heq)
    rw [Function.update_of_ne hne, Function.update_of_ne hji]
    exact h j hj hp

/-- A byte at an offset that does not count is changed. -/
lemma update_of_not (h : m.HoldsOn p a n image) {i : ℕ} (hi : ¬ p i) (v : UInt8) :
    Memory.HoldsOn (Function.update m (a + i) v) p a n image := by
  intro j hj hp
  have hne : a + j ≠ a + i := by
    intro heq
    obtain rfl := Nat.add_left_cancel heq
    exact hi hp
  rw [Function.update_of_ne hne]
  exact h j hj hp

end HoldsOn

namespace Holds

variable {m image : Memory} {a n : ℕ}

/-- A word that is loaded from the extent is the word of the image. -/
lemma loadWord (h : m.Holds a n image) {i : ℕ} (hi : i + wordBytes ≤ n) :
    m.loadWord (a + i) = image.loadWord i := by
  refine loadWord_congr fun j hj => ?_
  rw [Nat.add_assoc]
  exact h (i + j) (by omega)

lemma loadWord_zero (h : m.Holds a n image) (hn : wordBytes ≤ n) :
    m.loadWord a = image.loadWord 0 :=
  h.loadWord (i := 0) (by omega)

end Holds

/-! ### Words that are stored -/

/-- The bytes of a number, the least significant first, encode the number. -/
lemma loadBytes_eq {m : Memory} {n a v : ℕ}
    (h : ∀ i < n, m (a + i) = UInt8.ofNat (v >>> (8 * i))) (hv : v >>> (8 * n) = 0) :
    m.loadBytes a n = v := by
  induction n generalizing a v with
  | zero => exact hv.symm
  | succ n ih =>
    have hhead : (m a).toNat = v % 256 := by
      have hbyte := h 0 (Nat.succ_pos n)
      rw [Nat.add_zero] at hbyte
      simp [hbyte]
    have htail : m.loadBytes (a + 1) n = v >>> 8 := by
      refine ih (fun i hi => ?_) ?_
      · have hbyte := h (i + 1) (Nat.succ_lt_succ hi)
        rw [← Nat.shiftRight_add, show 8 + 8 * i = 8 * (i + 1) by omega, ← hbyte]
        congr 1
        omega
      · rw [← Nat.shiftRight_add, show 8 + 8 * n = 8 * (n + 1) by omega]
        exact hv
    rw [loadBytes, hhead, htail, Nat.shiftRight_eq_div_pow]
    exact Nat.mod_add_div v 256

/-- A word is loaded where it was stored. -/
lemma loadWord_storeWord {m : Memory} {a v : ℕ} (hv : v >>> 64 = 0) :
    (m.storeWord a v).loadWord a = v := by
  refine loadBytes_eq (fun i hi => ?_) hv
  have hin : InRange a wordBytes (a + i) := ⟨by omega, by omega⟩
  rw [storeWord, if_pos hin, Nat.add_sub_cancel_left]

end Memory

end Core
