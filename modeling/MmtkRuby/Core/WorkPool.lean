import Mathlib.Algebra.Order.Group.Multiset
import Mathlib.Logic.Function.Basic
import Mathlib.Logic.Relation
import Mathlib.Order.WellFounded
import Mathlib.Tactic.Common

/-!
# Pools of work packets

Packets wait in a pool, and workers take them out in any order. Executing a packet changes one
component of a state and may release further packets. When any two packets that can wait together
commute, all the runs that empty the pool end in the same state.
-/

namespace Core

open Relation

/-- The components of a state, and the packets that wait. -/
structure PoolConfig {ι : Type*} (S : ι → Type*) (P : Type*) where
  state : (i : ι) → S i
  pool : Multiset P

/-- What the execution of a packet may make of the component it works on, and which packets it
releases. -/
structure WorkPool {ι : Type*} (S : ι → Type*) (P : Type*) where
  component : P → ι
  exec : (i : ι) → P → S i → S i → Multiset P → Prop
  component_eq : ∀ {i p x y released}, exec i p x y released → component p = i

namespace WorkPool

variable {ι P : Type*} [DecidableEq ι] {S : ι → Type*} (W : WorkPool S P)

/-- A worker takes some packet out of the pool and executes it. -/
inductive Step (c : PoolConfig S P) : PoolConfig S P → Prop where
  | exec {i : ι} {p : P} {rest released : Multiset P} {x : S i} (hp : c.pool = p ::ₘ rest)
      (hexec : W.exec i p (c.state i) x released) :
      Step c ⟨Function.update c.state i x, released + rest⟩

/-- Any number of packets, one after the other. -/
def Run : PoolConfig S P → PoolConfig S P → Prop := ReflTransGen W.Step

/-- No packet is left. -/
def Finished (c : PoolConfig S P) : Prop := c.pool = 0

/-- Under an invariant, each packet has one possible effect, and the packets in the pool that work
on the same component commute. -/
structure Commutes (I : PoolConfig S P → Prop) : Prop where
  step : ∀ {c c'}, I c → W.Step c c' → I c'
  functional : ∀ {c i p x y m n}, I c → p ∈ c.pool → W.exec i p (c.state i) x m →
    W.exec i p (c.state i) y n → x = y ∧ m = n
  commute : ∀ {c i p q rest x y m n}, I c → c.pool = p ::ₘ q ::ₘ rest → p ≠ q →
    W.exec i p (c.state i) x m → W.exec i q (c.state i) y n →
    ∃ z m' n', W.exec i q x z n' ∧ W.exec i p y z m' ∧ m + n' = n + m'

variable {W} {I : PoolConfig S P → Prop} {c a b : PoolConfig S P}

/-- After a packet, another one of the same component is executed. -/
lemma Step.exec_of_eq {i : ι} {q : P} {rest m n : Multiset P} {x z : S i}
    (hexec : W.exec i q x z n) :
    W.Step ⟨Function.update c.state i x, m + (q ::ₘ rest)⟩
      ⟨Function.update c.state i z, n + (m + rest)⟩ := by
  have hstep : W.Step ⟨Function.update c.state i x, m + (q ::ₘ rest)⟩
      ⟨Function.update (Function.update c.state i x) i z, n + (m + rest)⟩ := by
    refine .exec (Multiset.add_cons q m rest) ?_
    simpa only [Function.update_self] using hexec
  rwa [Function.update_idem] at hstep

/-- After a packet, one of another component has the effect that it would have had before. -/
lemma Step.exec_of_ne {i j : ι} {q : P} {rest m n : Multiset P} {x : S i} {y : S j}
    (hij : j ≠ i) (hexec : W.exec j q (c.state j) y n) :
    W.Step ⟨Function.update c.state i x, m + (q ::ₘ rest)⟩
      ⟨Function.update (Function.update c.state i x) j y, n + (m + rest)⟩ := by
  refine .exec (Multiset.add_cons q m rest) ?_
  simpa only [Function.update_of_ne hij] using hexec

namespace Commutes

/-- Two packets that may come first lead to the same configuration, directly or by one more step
each. -/
lemma diamond (h : W.Commutes I) (hc : I c) (ha : W.Step c a) (hb : W.Step c b) :
    a = b ∨ ∃ d, W.Step a d ∧ W.Step b d := by
  cases ha with
  | @exec i p rest m x hp hexec =>
    cases hb with
    | @exec j q rest' n y hq hexec' =>
      have hpool := hp
      rw [hq, Multiset.cons_eq_cons] at hpool
      rcases hpool with ⟨rfl, rfl⟩ | ⟨hne, cs, rfl, rfl⟩
      · -- the same packet
        obtain rfl : j = i := (W.component_eq hexec').symm.trans (W.component_eq hexec)
        have hmem : q ∈ c.pool := hp ▸ Multiset.mem_cons_self q _
        obtain ⟨rfl, rfl⟩ := h.functional hc hmem hexec hexec'
        exact Or.inl rfl
      · by_cases hij : j = i
        · subst hij
          obtain ⟨z, m', n', hexec₁, hexec₂, hreleased⟩ := h.commute hc hp hne.symm hexec hexec'
          have hcomm : m' + (n + cs) = n' + (m + cs) := by
            rw [← add_assoc, ← add_assoc, add_comm m' n, add_comm n' m, hreleased]
          refine Or.inr ⟨_, Step.exec_of_eq hexec₁, ?_⟩
          rw [← hcomm]
          exact Step.exec_of_eq hexec₂
        · refine Or.inr ⟨_, Step.exec_of_ne hij hexec', ?_⟩
          rw [Function.update_comm (Ne.symm hij), add_left_comm n m cs]
          exact Step.exec_of_ne (Ne.symm hij) hexec

/-- The invariant holds along every run. -/
lemma run (h : W.Commutes I) (hc : I c) (ha : W.Run c a) : I a := by
  induction ha with
  | refl => exact hc
  | tail _ hstep ih => exact h.step ih hstep

/-- Any two runs can be continued to a common configuration. -/
theorem confluent (h : W.Commutes I) (hc : I c) (ha : W.Run c a) (hb : W.Run c b) :
    ∃ d, W.Run a d ∧ W.Run b d := by
  -- the steps from configurations that satisfy the invariant
  let r : PoolConfig S P → PoolConfig S P → Prop := fun x y => I x ∧ W.Step x y
  have hlift : ∀ {x}, W.Run c x → ReflTransGen r c x := by
    intro x hx
    induction hx with
    | refl => exact .refl
    | tail hrun hstep ih => exact ih.tail ⟨h.run hc hrun, hstep⟩
  have hdiamond : ∀ x y z, r x y → r x z → ∃ d, ReflGen r y d ∧ ReflTransGen r z d := by
    rintro x y z ⟨hx, hy⟩ ⟨-, hz⟩
    rcases h.diamond hx hy hz with rfl | ⟨d, hyd, hzd⟩
    · exact ⟨y, .refl, .refl⟩
    · exact ⟨d, .single ⟨h.step hx hy, hyd⟩, .single ⟨h.step hx hz, hzd⟩⟩
  obtain ⟨d, had, hbd⟩ := church_rosser hdiamond (hlift ha) (hlift hb)
  have hmono : r ≤ W.Step := fun _ _ hstep => hstep.2
  exact ⟨d, ReflTransGen.mono hmono _ _ had, ReflTransGen.mono hmono _ _ hbd⟩

end Commutes

/-- A finished run cannot be continued. -/
lemma Finished.eq_of_run (ha : Finished a) (hrun : W.Run a b) : b = a := by
  rcases hrun.cases_head with heq | ⟨d, hstep, -⟩
  · exact heq.symm
  · cases hstep with
    | exec hp => exact absurd (ha.symm.trans hp).symm (Multiset.cons_ne_zero)

/-- Once some run has emptied the pool, all others can be continued to the same end. -/
theorem Commutes.run_of_finished (h : W.Commutes I) (hc : I c) (ha : W.Run c a)
    (hfin : Finished a) (hb : W.Run c b) : W.Run b a := by
  obtain ⟨d, had, hbd⟩ := h.confluent hc ha hb
  rwa [hfin.eq_of_run had] at hbd

/-- All runs that empty the pool end in the same state. -/
theorem Commutes.eq_of_finished (h : W.Commutes I) (hc : I c) (ha : W.Run c a)
    (hfin : Finished a) (hb : W.Run c b) (hfin' : Finished b) : a = b :=
  hfin'.eq_of_run (h.run_of_finished hc ha hfin hb)

/-! ### Termination -/

/-- When every step lowers a rank, there is no infinite run. -/
theorem Commutes.exists_not_step {R : Type*} [LT R] [WellFoundedLT R]
    (h : W.Commutes I) (rank : PoolConfig S P → R)
    (hrank : ∀ {c c'}, I c → W.Step c c' → rank c' < rank c)
    (f : ℕ → PoolConfig S P) (hf : I (f 0)) : ∃ n, ¬ W.Step (f n) (f (n + 1)) := by
  by_contra hall
  simp only [not_exists, not_not] at hall
  have hinv : ∀ n, I (f n) := by
    intro n
    induction n with
    | zero => exact hf
    | succ n ih => exact h.step ih (hall n)
  obtain ⟨n, hn⟩ := WellFounded.not_rel_apply_succ (r := (· < ·)) fun n => rank (f n)
  exact hn (hrank (hinv n) (hall n))

end WorkPool

end Core
