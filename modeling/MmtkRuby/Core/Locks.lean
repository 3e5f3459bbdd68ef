import Mathlib.Algebra.BigOperators.Group.Multiset.Basic
import Mathlib.Algebra.Order.BigOperators.Group.Multiset
import Mathlib.Algebra.Order.Group.Nat
import Mathlib.Logic.Function.Basic
import Mathlib.Tactic.Common

/-!
# Locks that are tried

Threads take locks, either waiting for them or giving up at once when they are held, release them,
and hand packets of work to other threads. A try cannot fail when the critical section that it
opens is the only one, among all that the threads and the packets have before them, that uses the
lock. No step adds a critical section, so that can be counted once and for all.
-/

namespace Core

/-- What a thread has before it, as far as locks and packets are concerned. -/
inductive Script (L : Type*) where
  | done
  /-- wait for the lock and take it -/
  | lock (l : L) (next : Script L)
  /-- take the lock, or panic if it is held -/
  | tryLock (l : L) (next : Script L)
  | unlock (l : L) (next : Script L)
  /-- put a packet into the queue -/
  | spawn (packet next : Script L)

namespace Script

variable {L : Type*} [DecidableEq L]

/-- The thread holds the lock: it will release it without taking it first. -/
def holds (l : L) : Script L → Bool
  | .done => false
  | .lock l' next | .tryLock l' next => l' != l && holds l next
  | .unlock l' next => l' == l || holds l next
  | .spawn _ next => holds l next

/-- How many critical sections of the lock are before the thread and its packets, including that
in which it is. -/
def sections (l : L) : Script L → ℕ
  | .done => 0
  | .lock _ next | .tryLock _ next => sections l next
  | .unlock l' next => (l' == l).toNat + sections l next
  | .spawn packet next => sections l packet + sections l next

/-- How often the thread and its packets will try the lock. -/
def tries (l : L) : Script L → ℕ
  | .done => 0
  | .lock _ next | .unlock _ next => tries l next
  | .tryLock l' next => (l' == l).toNat + tries l next
  | .spawn packet next => tries l packet + tries l next

/-- Every lock that is taken is released, and a packet is handed over without locks. -/
def WellFormed : Script L → Prop
  | .done => True
  | .lock l next | .tryLock l next => next.holds l = true ∧ next.WellFormed
  | .unlock l next => next.holds l = false ∧ next.WellFormed
  | .spawn packet next => (∀ l, packet.holds l = false) ∧ packet.WellFormed ∧ next.WellFormed

/-- A packet that no thread has begun. -/
def Fresh (t : Script L) : Prop := t.WellFormed ∧ ∀ l, t.holds l = false

/-- Several packets, one after the other. -/
def spawnAll (packets : List (Script L)) (next : Script L) : Script L := packets.foldr .spawn next

/-- A critical section, with waiting. -/
def withLock (l : L) (next : Script L) : Script L := .lock l (.unlock l next)

/-- A critical section, without waiting. -/
def withTryLock (l : L) (next : Script L) : Script L := .tryLock l (.unlock l next)

/-- A thread that holds a lock is in a critical section. -/
lemma holds_le_sections (l : L) (t : Script L) : (t.holds l).toNat ≤ t.sections l := by
  induction t with
  | done => exact Nat.zero_le _
  | lock l' next ih | tryLock l' next ih =>
    cases hne : l' != l with
    | false => simp [holds, hne]
    | true => simpa [holds, sections, hne] using ih
  | unlock l' next ih =>
    cases heq : l' == l with
    | false => simpa [holds, sections, heq] using ih
    | true => simp [holds, sections, heq]
  | spawn packet next _ ih => exact ih.trans (Nat.le_add_left _ _)

@[simp] lemma sections_withLock (l l' : L) (next : Script L) :
    (withLock l' next).sections l = (l' == l).toNat + next.sections l := rfl

@[simp] lemma tries_withLock (l l' : L) (next : Script L) :
    (withLock l' next).tries l = next.tries l := rfl

@[simp] lemma sections_withTryLock (l l' : L) (next : Script L) :
    (withTryLock l' next).sections l = (l' == l).toNat + next.sections l := rfl

@[simp] lemma tries_withTryLock (l l' : L) (next : Script L) :
    (withTryLock l' next).tries l = (l' == l).toNat + next.tries l := rfl

omit [DecidableEq L] in
/-- In a count that adds up, packets that count nothing can be left out. -/
lemma count_spawnAll {f : Script L → ℕ}
    (hf : ∀ packet next, f (.spawn packet next) = f packet + f next) {packets : List (Script L)}
    (next : Script L) (h : ∀ t ∈ packets, f t = 0) : f (spawnAll packets next) = f next := by
  induction packets with
  | nil => rfl
  | cons t packets ih =>
    have hrest := ih fun u hu => h u (List.mem_cons_of_mem _ hu)
    rw [spawnAll, List.foldr_cons, hf, h t (List.mem_cons_self ..), Nat.zero_add]
    exact hrest

/-- Packets that do not use the lock do not count. -/
lemma sections_spawnAll {l : L} {packets : List (Script L)} (next : Script L)
    (h : ∀ t ∈ packets, t.sections l = 0) :
    (spawnAll packets next).sections l = next.sections l :=
  count_spawnAll (fun _ _ => rfl) next h

/-- Packets that do not try the lock do not count. -/
lemma tries_spawnAll {l : L} {packets : List (Script L)} (next : Script L)
    (h : ∀ t ∈ packets, t.tries l = 0) : (spawnAll packets next).tries l = next.tries l :=
  count_spawnAll (fun _ _ => rfl) next h

lemma Fresh.done : (Script.done : Script L).Fresh := ⟨trivial, fun _ => rfl⟩

lemma Fresh.withLock {l : L} {next : Script L} (h : next.Fresh) : (next.withLock l).Fresh := by
  refine ⟨⟨by simp [holds], h.2 l, h.1⟩, fun l' => ?_⟩
  cases hne : l != l' with
  | false => simp [Script.withLock, holds, hne]
  | true => simp [Script.withLock, holds, h.2 l', bne_iff_ne.mp hne]

lemma Fresh.withTryLock {l : L} {next : Script L} (h : next.Fresh) : (next.withTryLock l).Fresh :=
  h.withLock

lemma holds_spawnAll (l : L) (packets : List (Script L)) (next : Script L) :
    (spawnAll packets next).holds l = next.holds l := by
  induction packets with
  | nil => rfl
  | cons t packets ih => exact ih

lemma WellFormed.spawnAll {packets : List (Script L)} {next : Script L} (h : next.WellFormed)
    (hpackets : ∀ t ∈ packets, t.Fresh) : (spawnAll packets next).WellFormed := by
  induction packets with
  | nil => exact h
  | cons t packets ih =>
    have ht := hpackets t (List.mem_cons_self ..)
    exact ⟨ht.2, ht.1, ih fun u hu => hpackets u (List.mem_cons_of_mem _ hu)⟩

lemma Fresh.spawnAll {packets : List (Script L)} {next : Script L} (h : next.Fresh)
    (hpackets : ∀ t ∈ packets, t.Fresh) : (spawnAll packets next).Fresh :=
  ⟨h.1.spawnAll hpackets, fun l => (holds_spawnAll l packets next).trans (h.2 l)⟩

lemma Fresh.spawn {packet next : Script L} (hpacket : packet.Fresh) (h : next.Fresh) :
    (Script.spawn packet next).Fresh :=
  ⟨⟨hpacket.2, hpacket.1, h.1⟩, h.2⟩

end Script

/-! ### Threads that share locks -/

/-- Which locks are held, the packets that no thread has begun, and what is before each of the
threads. -/
structure Pool (L : Type*) where
  held : L → Bool
  queued : Multiset (Script L)
  running : Multiset (Script L)
  panicked : Bool

namespace Pool

variable {L : Type*} [DecidableEq L]

/-- One of the threads does what is next. -/
inductive Step : Pool L → Pool L → Prop where
  | lock {held : L → Bool} {queued rest : Multiset (Script L)} {panicked : Bool} (l : L)
      (next : Script L) (hfree : held l = false) :
      Step ⟨held, queued, .lock l next ::ₘ rest, panicked⟩
        ⟨Function.update held l true, queued, next ::ₘ rest, panicked⟩
  | tryLock {held : L → Bool} {queued rest : Multiset (Script L)} {panicked : Bool} (l : L)
      (next : Script L) (hfree : held l = false) :
      Step ⟨held, queued, .tryLock l next ::ₘ rest, panicked⟩
        ⟨Function.update held l true, queued, next ::ₘ rest, panicked⟩
  | tryLockFails {held : L → Bool} {queued rest : Multiset (Script L)} {panicked : Bool} (l : L)
      (next : Script L) (hheld : held l = true) :
      Step ⟨held, queued, .tryLock l next ::ₘ rest, panicked⟩ ⟨held, queued, rest, true⟩
  | unlock {held : L → Bool} {queued rest : Multiset (Script L)} {panicked : Bool} (l : L)
      (next : Script L) :
      Step ⟨held, queued, .unlock l next ::ₘ rest, panicked⟩
        ⟨Function.update held l false, queued, next ::ₘ rest, panicked⟩
  | spawn {held : L → Bool} {queued rest : Multiset (Script L)} {panicked : Bool}
      (packet next : Script L) :
      Step ⟨held, queued, .spawn packet next ::ₘ rest, panicked⟩
        ⟨held, packet ::ₘ queued, next ::ₘ rest, panicked⟩
  | finish {held : L → Bool} {queued rest : Multiset (Script L)} {panicked : Bool} :
      Step ⟨held, queued, .done ::ₘ rest, panicked⟩ ⟨held, queued, rest, panicked⟩

/-- Some thread begins a packet. -/
inductive Start : Pool L → Pool L → Prop where
  | mk {held : L → Bool} {queued running : Multiset (Script L)} {panicked : Bool} (t : Script L) :
      Start ⟨held, t ::ₘ queued, running, panicked⟩ ⟨held, queued, t ::ₘ running, panicked⟩

/-- A sum over all threads and packets. -/
def total (f : Script L → ℕ) (p : Pool L) : ℕ := (p.queued.map f).sum + (p.running.map f).sum

/-- A thread begins a task that it was not given by another one. -/
def add (p : Pool L) (t : Script L) : Pool L := { p with running := t ::ₘ p.running }

/-- Exactly the held locks are held by a thread, by one; and nobody has panicked. -/
structure Consistent (p : Pool L) : Prop where
  wellFormed : ∀ t ∈ p.running, t.WellFormed
  fresh : ∀ t ∈ p.queued, t.Fresh
  held : ∀ l, (p.running.map fun t => (t.holds l).toNat).sum = (p.held l).toNat
  not_panicked : p.panicked = false

/-- Nobody tries the lock, or there is at most one critical section left. -/
def Guarded (l : L) (p : Pool L) : Prop :=
  p.total (Script.tries l) = 0 ∨ p.total (Script.sections l) ≤ 1

variable {p p' : Pool L}

/-- A try of a guarded lock finds it free. -/
theorem Consistent.held_eq_false (hp : p.Consistent) {l : L} (hg : p.Guarded l) {next : Script L}
    (hmem : .tryLock l next ∈ p.running) : p.held l = false := by
  obtain ⟨rest, hrest⟩ := Multiset.exists_cons_of_mem hmem
  have hholds : next.holds l = true := (hp.wellFormed _ hmem).1
  rcases hg with htries | hsections
  · rw [total, hrest, Multiset.map_cons, Multiset.sum_cons] at htries
    simp [Script.tries] at htries
  · -- the section that is about to begin is the only one, so nobody is in another
    have hself : 1 ≤ next.sections l := by
      have hle := Script.holds_le_sections l next
      rwa [hholds] at hle
    rw [total, hrest, Multiset.map_cons, Multiset.sum_cons, Script.sections] at hsections
    have hother : (rest.map fun t => (t.holds l).toNat).sum ≤ (rest.map (Script.sections l)).sum :=
      Multiset.sum_map_le_sum_map _ _ fun t _ => Script.holds_le_sections l t
    have hheld := hp.held l
    rw [hrest, Multiset.map_cons, Multiset.sum_cons] at hheld
    simp only [Script.holds, bne_self_eq_false, Bool.false_and, Bool.toNat_false] at hheld
    rw [← Bool.toNat_eq_zero, ← hheld]
    omega

/-- No step adds a critical section. -/
lemma Step.total_sections_le (h : Step p p') (l : L) :
    p'.total (Script.sections l) ≤ p.total (Script.sections l) := by
  cases h <;> simp only [total, Multiset.map_cons, Multiset.sum_cons, Script.sections] <;> omega

/-- No step adds a try. -/
lemma Step.total_tries_le (h : Step p p') (l : L) :
    p'.total (Script.tries l) ≤ p.total (Script.tries l) := by
  cases h <;> simp only [total, Multiset.map_cons, Multiset.sum_cons, Script.tries] <;> omega

omit [DecidableEq L] in
lemma Start.total_eq (h : Start p p') (f : Script L → ℕ) : p'.total f = p.total f := by
  cases h
  simp only [total, Multiset.map_cons, Multiset.sum_cons]
  omega

omit [DecidableEq L] in
lemma total_add (f : Script L → ℕ) (t : Script L) : (p.add t).total f = f t + p.total f := by
  simp only [total, add, Multiset.map_cons, Multiset.sum_cons]
  omega

namespace Consistent

lemma add (hp : p.Consistent) {t : Script L} (ht : t.Fresh) : (p.add t).Consistent where
  wellFormed u hu := by
    rcases Multiset.mem_cons.mp hu with rfl | hu
    · exact ht.1
    · exact hp.wellFormed u hu
  fresh := hp.fresh
  held l := by
    simp only [Pool.add, Multiset.map_cons, Multiset.sum_cons, ht.2 l, Bool.toNat_false,
      Nat.zero_add]
    exact hp.held l
  not_panicked := hp.not_panicked

lemma start (hp : p.Consistent) (h : Start p p') : p'.Consistent := by
  cases h with
  | @mk held queued running panicked t =>
    have ht := hp.fresh t (Multiset.mem_cons_self ..)
    have hrest : Consistent ⟨held, queued, running, panicked⟩ :=
      ⟨hp.wellFormed, fun u hu => hp.fresh u (Multiset.mem_cons_of_mem hu), hp.held,
        hp.not_panicked⟩
    exact hrest.add ht

/-- A lock is taken, for good until it is released. -/
lemma take {held : L → Bool} {queued rest : Multiset (Script L)} {panicked : Bool} {l : L}
    {t next : Script L} (hp : Consistent ⟨held, queued, t ::ₘ rest, panicked⟩)
    (hfree : held l = false) (hwf : next.holds l = true ∧ next.WellFormed)
    (hholds : ∀ l', t.holds l' = (l != l' && next.holds l')) :
    Consistent ⟨Function.update held l true, queued, next ::ₘ rest, panicked⟩ where
  wellFormed u hu := by
    rcases Multiset.mem_cons.mp hu with rfl | hu
    · exact hwf.2
    · exact hp.wellFormed u (Multiset.mem_cons_of_mem hu)
  fresh := hp.fresh
  held l' := by
    have hheld := hp.held l'
    simp only [Multiset.map_cons, Multiset.sum_cons, hholds] at hheld ⊢
    by_cases hl : l' = l
    · subst hl
      rw [hfree] at hheld
      rw [Function.update_self, hwf.1]
      simp only [bne_self_eq_false, Bool.false_and, Bool.toNat_false] at hheld
      simp only [Bool.toNat_true]
      omega
    · have hne : (l != l') = true := bne_iff_ne.mpr (Ne.symm hl)
      rw [hne, Bool.true_and] at hheld
      rw [Function.update_of_ne hl]
      exact hheld
  not_panicked := hp.not_panicked

/-- What the threads do keeps the locks consistent, as long as the tries are guarded. -/
theorem step (hp : p.Consistent) (hg : ∀ l, p.Guarded l) (h : Step p p') : p'.Consistent := by
  cases h with
  | @lock held queued rest panicked l next hfree =>
    exact hp.take hfree (hp.wellFormed _ (Multiset.mem_cons_self ..)) fun _ => rfl
  | @tryLock held queued rest panicked l next hfree =>
    exact hp.take hfree (hp.wellFormed _ (Multiset.mem_cons_self ..)) fun _ => rfl
  | @tryLockFails held queued rest panicked l next hheld =>
    have hfree : held l = false := hp.held_eq_false (hg l) (Multiset.mem_cons_self ..)
    rw [hheld] at hfree
    cases hfree
  | @unlock held queued rest panicked l next =>
    have hwf : next.holds l = false ∧ next.WellFormed :=
      hp.wellFormed _ (Multiset.mem_cons_self ..)
    refine ⟨fun u hu => ?_, hp.fresh, fun l' => ?_, hp.not_panicked⟩
    · rcases Multiset.mem_cons.mp hu with rfl | hu
      · exact hwf.2
      · exact hp.wellFormed u (Multiset.mem_cons_of_mem hu)
    · have hheld := hp.held l'
      simp only [Multiset.map_cons, Multiset.sum_cons, Script.holds] at hheld ⊢
      by_cases hl : l' = l
      · subst hl
        have hle := Bool.toNat_le (held l')
        simp only [BEq.rfl, Bool.true_or, Bool.toNat_true] at hheld
        rw [Function.update_self, hwf.1, Bool.toNat_false]
        omega
      · rw [Function.update_of_ne hl]
        have hne : (l == l') = false := beq_eq_false_iff_ne.mpr (Ne.symm hl)
        simpa [hne] using hheld
  | @spawn held queued rest panicked packet next =>
    have hwf : (∀ l, packet.holds l = false) ∧ packet.WellFormed ∧ next.WellFormed :=
      hp.wellFormed _ (Multiset.mem_cons_self ..)
    refine ⟨fun u hu => ?_, fun u hu => ?_, fun l' => ?_, hp.not_panicked⟩
    · rcases Multiset.mem_cons.mp hu with rfl | hu
      · exact hwf.2.2
      · exact hp.wellFormed u (Multiset.mem_cons_of_mem hu)
    · rcases Multiset.mem_cons.mp hu with rfl | hu
      · exact ⟨hwf.2.1, hwf.1⟩
      · exact hp.fresh u hu
    · have hheld := hp.held l'
      simpa [Script.holds] using hheld
  | @finish held queued rest panicked =>
    refine ⟨fun u hu => hp.wellFormed u (Multiset.mem_cons_of_mem hu), hp.fresh, fun l' => ?_,
      hp.not_panicked⟩
    have hheld := hp.held l'
    simpa [Script.holds] using hheld

end Consistent

end Pool

end Core
