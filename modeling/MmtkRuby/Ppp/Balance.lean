import Mathlib.Algebra.BigOperators.Group.Multiset.Basic
import Mathlib.Algebra.Order.Group.Multiset
import Mathlib.Tactic.Abel
import MmtkRuby.Ppp.System

/-!
# Every GC undoes its own pinning

In a GC, the newly pinned objects in the shared list, in the local lists of the packets and in the
packet that unpins are together the log of what has been pinned since the GC began. Whoever pins an
object first logs it, and the last packet empties the log.
-/

namespace MmtkRuby

open Core

namespace Ppp

variable {profile : Profile}

/-- Where the log is, in each phase. A non-moving GC never has one. -/
def PhaseBalanced (registry : PPPRegistry) (isPinned : ObjectReference → Bool) : Phase → Prop
  | .mutator => registry.pinnedPppChildren = []
  | .prepare gc packets =>
    UndoLog gc.pinnedAtStart isPinned
      (registry.pinnedPppChildren + (packets.map PinExec.newlyPinned).sum) ∧
    (gc.currentGcMayMoveObject = false → packets = [] ∧ registry.pinnedPppChildren = [])
  | .tracing gc =>
    UndoLog gc.pinnedAtStart isPinned registry.pinnedPppChildren ∧
    (gc.currentGcMayMoveObject = false → registry.pinnedPppChildren = [])
  | .weakRefs gc _ unpin =>
    UndoLog gc.pinnedAtStart isPinned unpin.children ∧ registry.pinnedPppChildren = []

structure Balanced (s : State) : Prop where
  phase : PhaseBalanced s.registry s.isPinned s.phase
  unpinned : s.unpinFailed = false
  calm : s.panicked = false

/-- No assertion depends on what a step does to the registry, the bits and the phase, if the log
stays right. -/
lemma Balanced.of_phase {s : State} (h : Balanced s) {registry : PPPRegistry}
    {isPinned : ObjectReference → Bool} {phase : Phase}
    (hphase : PhaseBalanced registry isPinned phase) :
    Balanced { s with registry, isPinned, phase } :=
  ⟨hphase, h.unpinned, h.calm⟩

/-! ### The packets of the `Prepare` stage -/

@[simp] lemma newlyPinned_pinning (p : PinPPPChildren)
    (pppChildren newlyPinned : List ObjectReference) :
    PinExec.newlyPinned ⟨p, .pinning pppChildren newlyPinned⟩ = newlyPinned := rfl

@[simp] lemma newlyPinned_finished (p : PinPPPChildren) :
    PinExec.newlyPinned ⟨p, .finished⟩ = 0 := rfl

section Prepare

variable {gc : Gc} {registry : PPPRegistry} {isPinned : ObjectReference → Bool}
  {l₁ l₂ : List PinExec} {e e' : PinExec}

lemma sum_newlyPinned :
    ((l₁ ++ e :: l₂).map PinExec.newlyPinned).sum =
      e.newlyPinned + ((l₁ ++ l₂).map PinExec.newlyPinned).sum := by
  simp only [List.map_append, List.map_cons, List.sum_append, List.sum_cons]
  abel

/-- What one packet does to its own list and to the bits keeps the log right, if the log gains what
the bits gain. -/
lemma PhaseBalanced.update {registry' : PPPRegistry} {isPinned' : ObjectReference → Bool}
    (h : PhaseBalanced registry isPinned (.prepare gc (l₁ ++ e :: l₂)))
    (hlog : ∀ rest, UndoLog gc.pinnedAtStart isPinned
        (registry.pinnedPppChildren + (e.newlyPinned + rest)) →
      UndoLog gc.pinnedAtStart isPinned' (registry'.pinnedPppChildren + (e'.newlyPinned + rest))) :
    PhaseBalanced registry' isPinned' (.prepare gc (l₁ ++ e' :: l₂)) := by
  obtain ⟨hundo, hstill⟩ := h
  refine ⟨?_, fun hmove => ?_⟩
  · rw [sum_newlyPinned] at hundo ⊢
    exact hlog _ hundo
  · have hnil := (hstill hmove).1
    simp at hnil

/-- Finished packets have appended what they pinned. -/
lemma sum_newlyPinned_of_finished {packets : List PinExec}
    (hall : ∀ e ∈ packets, e.pc = .finished) : (packets.map PinExec.newlyPinned).sum = 0 := by
  apply List.sum_eq_zero
  intro m hm
  obtain ⟨e, he, rfl⟩ := List.mem_map.mp hm
  simp [PinExec.newlyPinned, hall e he]

end Prepare

/-- Before the packets of a new GC are started, nothing is logged. -/
lemma PhaseBalanced.stopAllMutators {registry : PPPRegistry} {isPinned : ObjectReference → Bool}
    (h : PhaseBalanced registry isPinned .mutator) (currentGcMayMoveObject : Bool)
    (upcalls : PppUpcalls) :
    PhaseBalanced registry isPinned (.prepare
      { currentGcMayMoveObject
        upcalls
        ppps := registry.ppps
        pinnedAtStart := isPinned
        packets := registry.pinPppChildren currentGcMayMoveObject }
      ((registry.pinPppChildren currentGcMayMoveObject).map (⟨·, .queued⟩))) := by
  have hempty : registry.pinnedPppChildren = [] := h
  refine ⟨?_, fun hmove => ⟨?_, hempty⟩⟩
  · have hsum : (((registry.pinPppChildren currentGcMayMoveObject).map
        (PinExec.mk · .queued)).map PinExec.newlyPinned).sum = 0 := by
      apply List.sum_eq_zero
      intro m hm
      simp only [List.map_map, List.mem_map, Function.comp_apply] at hm
      obtain ⟨p, -, rfl⟩ := hm
      rfl
    rw [hempty, hsum]
    exact UndoLog.refl isPinned
  · simp only at hmove
    rw [hmove]
    rfl

/-- `cleanup_ppps` moves the log into the packet that unpins; without one there is no log. -/
lemma PhaseBalanced.cleanupPpps {registry registry' : PPPRegistry}
    {isPinned : ObjectReference → Bool} {gc : Gc} {packet : Option UnpinPPPChildren}
    (h : PhaseBalanced registry isPinned (.tracing gc))
    (hcleanup : registry.cleanupPpps profile gc.currentGcMayMoveObject = .ok (packet, registry')) :
    PhaseBalanced registry' isPinned (.weakRefs gc true (packet.elim .absent .queued)) := by
  obtain ⟨hundo, hstill⟩ := h
  cases hmove : gc.currentGcMayMoveObject with
  | true =>
    simp only [PPPRegistry.cleanupPpps, hmove, if_true, Except.ok.injEq, Prod.mk.injEq] at hcleanup
    obtain ⟨rfl, rfl⟩ := hcleanup
    exact ⟨hundo, rfl⟩
  | false =>
    have hempty := hstill hmove
    simp only [PPPRegistry.cleanupPpps, hmove, hempty, List.length_nil, ne_eq, not_true_eq_false,
      and_false, if_false, Bool.false_eq_true, Except.ok.injEq, Prod.mk.injEq] at hcleanup
    obtain ⟨rfl, rfl⟩ := hcleanup
    rw [hempty] at hundo
    exact ⟨hundo, hempty⟩

/-- The assertion on the length of the list holds in a non-moving GC. -/
lemma PhaseBalanced.cleanupPpps_ne_error {registry : PPPRegistry}
    {isPinned : ObjectReference → Bool} {gc : Gc} (h : PhaseBalanced registry isPinned (.tracing gc))
    (e : Panic) : registry.cleanupPpps profile gc.currentGcMayMoveObject ≠ .error e := by
  cases hmove : gc.currentGcMayMoveObject with
  | true => simp [PPPRegistry.cleanupPpps]
  | false => simp [PPPRegistry.cleanupPpps, h.2 hmove]

lemma balanced_invariant : (system profile).IsInvariant Balanced where
  init := by
    rintro s ⟨hphase, hempty, hunpin, hcalm⟩
    refine ⟨?_, hunpin, hcalm⟩
    rw [hphase]
    exact hempty
  step := by
    intro s l s' _ h hstep
    have hphase := h.phase
    cases hstep with
    | register object hs | pinObject object hs | unpinObject object hs =>
      rw [hs] at hphase
      apply h.of_phase
      rw [hs]
      exact hphase
    | registerMany objects hs =>
      rw [hs] at hphase
      apply h.of_phase
      rw [hs]
      exact (PPPRegistry.pinnedPppChildren_registerMany _ _).trans hphase
    | stopAllMutators currentGcMayMoveObject upcalls hs =>
      rw [hs] at hphase
      exact h.of_phase (hphase.stopAllMutators currentGcMayMoveObject upcalls)
    | scan l₁ l₂ hs hscan =>
      rw [hs] at hphase
      exact h.of_phase (hphase.update fun _ hundo => hundo)
    | @pin gc l₁ l₂ p object pppChildren newlyPinned hs hnew =>
      rw [hs] at hphase
      refine h.of_phase (hphase.update fun rest hundo => ?_)
      have hset := hundo.set hnew
      rw [newlyPinned_pinning] at hset ⊢
      rw [← Multiset.coe_add, Multiset.coe_singleton]
      convert hset using 1
      abel
    | pinAgain l₁ l₂ hs hold =>
      rw [hs] at hphase
      rw [UndoLog.testAndSet_of_false hold]
      exact h.of_phase (hphase.update fun _ hundo => hundo)
    | @append gc l₁ l₂ p newlyPinned hs =>
      rw [hs] at hphase
      refine h.of_phase (hphase.update fun rest hundo => ?_)
      rw [newlyPinned_pinning] at hundo
      rw [newlyPinned_finished, zero_add, ← Multiset.coe_add, add_assoc]
      exact hundo
    | prepared hs hall =>
      rw [hs] at hphase
      obtain ⟨hundo, hstill⟩ := hphase
      rw [sum_newlyPinned_of_finished hall, add_zero] at hundo
      exact h.of_phase ⟨hundo, fun hmove => (hstill hmove).2⟩
    | cleanupPpps hs hcleanup =>
      rw [hs] at hphase
      exact h.of_phase (hphase.cleanupPpps hcleanup)
    | cleanupPppsPanics hs hcleanup =>
      rw [hs] at hphase
      exact absurd hcleanup (hphase.cleanupPpps_ne_error _)
    | removeDeadPPPs traced isNoLongerPpp hs =>
      rw [hs] at hphase
      exact h.of_phase hphase
    | pollUnpin hs =>
      rw [hs] at hphase
      exact h.of_phase hphase
    | @unpin gc removeDeadPPPs object children hs =>
      rw [hs] at hphase
      have hlog : UndoLog gc.pinnedAtStart s.isPinned ({object} + children) := hphase.1
      obtain ⟨hset, hundo⟩ := hlog.clear
      refine ⟨⟨hundo, hphase.2⟩, ?_, h.calm⟩
      simp [h.unpinned, hset]
    | resumeMutators hs hdone =>
      rw [hs] at hphase
      exact h.of_phase hphase.2

/-- In some GC, every packet has run. -/
def GcDone (s : State) (gc : Gc) : Prop :=
  ∃ unpin, s.phase = .weakRefs gc false unpin ∧ (unpin = .absent ∨ unpin = .unpinning [])

/-- What "perfectly undone" means in a state of a run. -/
structure PinningUndone (s : State) : Prop where
  restored : ∀ gc, GcDone s gc → ∀ object, s.isPinned object = gc.pinnedAtStart object
  emptied : ∀ gc, GcDone s gc → s.registry.pinnedPppChildren = []
  unpin_returns_true : s.unpinFailed = false
  no_assertion_fails : s.panicked = false

/-- In every run, each GC leaves the pin bits as it found them. -/
theorem pinningUndone_of_reachable (profile : Profile) {s : State}
    (hs : (system profile).Reachable s) : PinningUndone s := by
  have h := balanced_invariant.of_reachable hs
  have hphase := h.phase
  refine ⟨?_, ?_, h.unpinned, h.calm⟩
  · rintro gc ⟨unpin, hweak, hdone⟩ object
    rw [hweak] at hphase
    have hempty : unpin.children = [] := by
      rcases hdone with rfl | rfl <;> rfl
    have hundo := hphase.1
    rw [hempty] at hundo
    rw [UndoLog.eq_start hundo]
  · rintro gc ⟨unpin, hweak, -⟩
    rw [hweak] at hphase
    exact hphase.2

/-! #### A run with one parent and one child -/

def parent : ObjectReference := ⟨4096, by decide⟩

def child : ObjectReference := ⟨8192, by decide⟩

/-- Every object is a PPP and wants the child pinned. -/
def pinsChild : PppUpcalls where
  isNoLongerPpp _ := false
  callGcMarkChildren _ := .visit child true fun _ => .done

def oneParent : Gc where
  currentGcMayMoveObject := true
  upcalls := pinsChild
  ppps := [parent]
  pinnedAtStart _ := false
  packets := [⟨[parent]⟩]

/-- The parent is registered; the shared list, the bits and the phase are given. -/
def oneParentState (pinnedPppChildren : List ObjectReference)
    (isPinned : ObjectReference → Bool) (phase : Phase) : State where
  registry := ⟨[parent], pinnedPppChildren⟩
  isPinned := isPinned
  phase := phase
  unpinFailed := false
  panicked := false

/-- The child is pinned for the trace. -/
lemma reachable_oneParent_tracing (profile : Profile) : (system profile).Reachable
    (oneParentState [child] (Function.update (fun _ => false) child true) (.tracing oneParent)) := by
  have hpackets : PPPRegistry.pinPppChildren ⟨[parent], []⟩ true = [⟨[parent]⟩] := by
    simp [PPPRegistry.pinPppChildren, chunks_of_length_le]
  have h₀ : (system profile).Reachable (oneParentState [] (fun _ => false) .mutator) :=
    .init ⟨rfl, rfl, rfl, rfl⟩
  have h₁ : (system profile).Reachable (oneParentState [] (fun _ => false)
      (.prepare oneParent [⟨⟨[parent]⟩, .queued⟩])) := by
    have h := h₀.step (.stopAllMutators true pinsChild rfl)
    simp only [oneParentState, hpackets] at h
    exact h
  have h₂ : (system profile).Reachable (oneParentState [] (fun _ => false)
      (.prepare oneParent [⟨⟨[parent]⟩, .pinning [child] []⟩])) := by
    obtain ⟨n, hscan⟩ := PinPPPChildren.scan_eq profile pinsChild ⟨[parent]⟩
    exact h₁.step (.scan [] [] rfl hscan)
  have h₃ := h₂.step (.pin [] [] rfl rfl)
  have h₄ := h₃.step (.append [] [] rfl)
  exact h₄.step (.prepared rfl (by simp))

/-- The child is pinned for the trace, and is not pinned after the GC. -/
theorem pinningUndone_oneParent : ∃ s, (system .debug).Reachable s ∧ GcDone s oneParent ∧
    PinningUndone s := by
  have h₁ := (reachable_oneParent_tracing .debug).step (.cleanupPpps rfl rfl)
  have h₂ := h₁.step (.pollUnpin rfl)
  have h₃ := h₂.step (.unpin rfl)
  have h₄ := h₃.step (.removeDeadPPPs ⟨fun _ => true, fun _ => true, fun _ => none⟩
    (fun _ => false) rfl)
  exact ⟨_, h₄, ⟨.unpinning [], rfl, Or.inr rfl⟩, pinningUndone_of_reachable .debug h₄⟩

end Ppp

end MmtkRuby
