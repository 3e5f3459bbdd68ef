import Mathlib.Data.Prod.Lex
import Mathlib.Order.RelClasses
import MmtkRuby.Core.Progress
import MmtkRuby.Ppp.Balance

/-!
# Every GC comes to the end of its pinning

However the packets that pin and unpin are scheduled, no assertion of theirs stops a GC: the
mutators are resumed, and find the pin bits as they left them.
-/

namespace MmtkRuby

open Core

namespace Ppp

variable {profile : Profile}

/-- The GC that takes place. -/
def Phase.gc : Phase → Option Gc
  | .mutator => none
  | .prepare gc _ | .tracing gc | .weakRefs gc _ _ => some gc

/-! ### What is left to do -/

/-- The steps of a packet that pins: the scan, one for each child, and the append. -/
def PinExec.rank (gc : Gc) (e : PinExec) : ℕ :=
  match e.pc with
  | .queued => (e.packet.ppps.flatMap gc.upcalls.pinnedChildren).length + 2
  | .pinning pppChildren _ => pppChildren.length + 1
  | .finished => 0

def UnpinPc.rank : UnpinPc → ℕ
  | .absent => 0
  | .queued packet => packet.children.length + 1
  | .unpinning children => children.length

/-- The phases that are to come, and the steps of this one. -/
def Phase.rank : Phase → ℕ ×ₗ ℕ
  | .prepare gc packets => toLex (3, (packets.map (PinExec.rank gc)).sum)
  | .tracing _ => toLex (2, 0)
  | .weakRefs _ removeDeadPPPs unpin => toLex (1, removeDeadPPPs.toNat + unpin.rank)
  | .mutator => toLex (0, 0)

/-- A packet that moves on has less to do. -/
lemma rank_prepare_lt {gc : Gc} {l₁ l₂ : List PinExec} {e e' : PinExec}
    (h : e'.rank gc < e.rank gc) :
    (Phase.prepare gc (l₁ ++ e' :: l₂)).rank < (Phase.prepare gc (l₁ ++ e :: l₂)).rank := by
  refine Prod.Lex.toLex_lt_toLex.mpr (Or.inr ⟨rfl, ?_⟩)
  simp only [List.map_append, List.map_cons, List.sum_append, List.sum_cons]
  omega

/-- A step of a GC gets something done, and the GC stays the same until the mutators run again. -/
lemma Balanced.rank_lt_of_step {s t : State} {l : Actor} {gc : Gc} (h : Balanced s)
    (ht : Balanced t) (hgc : s.phase.gc = some gc) (hstep : (system profile).step s l t) :
    t.phase.rank < s.phase.rank ∧
      (t.phase.gc = some gc ∨ t.phase = .mutator ∧ t.isPinned = gc.pinnedAtStart) := by
  have hphase := h.phase
  cases hstep with
  | register object hs | pinObject object hs | unpinObject object hs | registerMany objects hs
  | stopAllMutators currentGcMayMoveObject upcalls hs =>
    rw [hs] at hgc
    cases hgc
  | cleanupPppsPanics hs hcleanup => cases ht.calm
  | @scan gc l₁ l₂ p pppChildren numNoLongerPpps hs hscan =>
    rw [hs] at hgc ⊢
    obtain ⟨n, hok⟩ := PinPPPChildren.scan_eq profile gc.upcalls p
    have hchildren : pppChildren = p.ppps.flatMap gc.upcalls.pinnedChildren :=
      (Prod.mk.inj (Except.ok.inj (hscan.symm.trans hok))).1
    exact ⟨rank_prepare_lt (by simp [PinExec.rank, hchildren]), Or.inl hgc⟩
  | pin l₁ l₂ hs _ | pinAgain l₁ l₂ hs _ | append l₁ l₂ hs =>
    rw [hs] at hgc ⊢
    exact ⟨rank_prepare_lt (by simp [PinExec.rank]), Or.inl hgc⟩
  | prepared hs _ | cleanupPpps hs _ =>
    rw [hs] at hgc ⊢
    exact ⟨Prod.Lex.toLex_lt_toLex.mpr (Or.inl (Nat.lt_succ_self _)), Or.inl hgc⟩
  | removeDeadPPPs _ _ hs | pollUnpin hs | unpin hs =>
    rw [hs] at hgc ⊢
    refine ⟨Prod.Lex.toLex_lt_toLex.mpr (Or.inr ⟨rfl, ?_⟩), Or.inl hgc⟩
    simp [UnpinPc.rank]
  | @resumeMutators gc' unpin hs hdone =>
    rw [hs] at hgc hphase ⊢
    obtain rfl : gc' = gc := Option.some.inj hgc
    refine ⟨Prod.Lex.toLex_lt_toLex.mpr (Or.inl (Nat.lt_succ_self _)), Or.inr ⟨rfl, ?_⟩⟩
    -- everything that was logged has been undone
    have hempty : unpin.children = [] := by
      rcases hdone with rfl | rfl <;> rfl
    have hundo := hphase.1
    rw [hempty] at hundo
    exact hundo.eq_start

/-- A GC that has begun can go on. -/
lemma exists_step (profile : Profile) {s : State} {gc : Gc} (hgc : s.phase.gc = some gc) :
    ∃ l t, (system profile).step s l t := by
  cases hs : s.phase with
  | mutator =>
    rw [hs] at hgc
    cases hgc
  | prepare gc packets =>
    by_cases hall : ∀ e ∈ packets, e.pc = .finished
    · exact ⟨_, _, .prepared hs hall⟩
    · simp only [not_forall] at hall
      obtain ⟨e, he, hpc⟩ := hall
      obtain ⟨l₁, l₂, rfl⟩ := List.append_of_mem he
      obtain ⟨p, pc⟩ := e
      cases pc with
      | queued =>
        obtain ⟨n, hscan⟩ := PinPPPChildren.scan_eq profile gc.upcalls p
        exact ⟨_, _, .scan l₁ l₂ hs hscan⟩
      | pinning pppChildren newlyPinned =>
        cases pppChildren with
        | nil => exact ⟨_, _, .append l₁ l₂ hs⟩
        | cons object pppChildren =>
          cases hnew : (testAndSet s.isPinned object).1 with
          | true => exact ⟨_, _, .pin l₁ l₂ hs hnew⟩
          | false => exact ⟨_, _, .pinAgain l₁ l₂ hs hnew⟩
      | finished => exact absurd rfl hpc
  | tracing gc =>
    cases hcleanup : s.registry.cleanupPpps profile gc.currentGcMayMoveObject with
    | ok result => exact ⟨_, _, .cleanupPpps hs hcleanup⟩
    | error e => exact ⟨_, _, .cleanupPppsPanics hs hcleanup⟩
  | weakRefs gc removeDeadPPPs unpin =>
    cases removeDeadPPPs with
    | true =>
      exact ⟨_, _,
        .removeDeadPPPs ⟨fun _ => true, fun _ => true, fun _ => none⟩ (fun _ => false) hs⟩
    | false =>
      cases unpin with
      | absent => exact ⟨_, _, .resumeMutators hs (Or.inl rfl)⟩
      | queued packet => exact ⟨_, _, .pollUnpin hs⟩
      | unpinning children =>
        cases children with
        | nil => exact ⟨_, _, .resumeMutators hs (Or.inr rfl)⟩
        | cons object children => exact ⟨_, _, .unpin hs⟩

/-! ### `UnpinPPPChildren::do_work` as one call -/

/-- The loop over the children that are left. -/
lemma run_unpinning {gc : Gc} {removeDeadPPPs : Bool} {children : List ObjectReference}
    {s : State} (hs : (system profile).Reachable s)
    (hphase : s.phase = .weakRefs gc removeDeadPPPs (.unpinning children)) :
    ∃ isPinned ls, children.foldlM (UnpinPPPChildren.iteration profile) s.isPinned = .ok isPinned ∧
      (system profile).Run s ls
        { s with isPinned, phase := .weakRefs gc removeDeadPPPs (.unpinning []) } := by
  induction children generalizing s with
  | nil =>
    refine ⟨s.isPinned, [], rfl, ?_⟩
    rw [← hphase]
    exact .nil s
  | cons object children ih =>
    have hstep : (system profile).step s .gc _ := .unpin hphase
    -- the invariant of the next state says that this bit was set
    have hunpinned := (balanced_invariant.of_reachable (hs.step hstep)).unpinned
    simp only [Bool.or_eq_false_iff, Bool.not_eq_false'] at hunpinned
    obtain ⟨hbefore, hset⟩ := hunpinned
    obtain ⟨isPinned, ls, hok, hrun⟩ := ih (hs.step hstep) rfl
    refine ⟨isPinned, .gc :: ls, ?_, ?_⟩
    · rw [List.foldlM_cons, UnpinPPPChildren.iteration]
      simpa [hset, bind, Except.bind] using hok
    · refine .cons hstep ?_
      simpa [hset, hbefore] using hrun

/-- A call of `do_work` in which no other packet comes in between: no assertion of it fails. -/
lemma run_doWork {gc : Gc} {removeDeadPPPs : Bool} {packet : UnpinPPPChildren} {s : State}
    (hs : (system profile).Reachable s)
    (hphase : s.phase = .weakRefs gc removeDeadPPPs (.queued packet)) :
    ∃ isPinned ls, packet.doWork profile s.isPinned = .ok isPinned ∧ (system profile).Run s ls
      { s with isPinned, phase := .weakRefs gc removeDeadPPPs (.unpinning []) } := by
  have hstep : (system profile).step s .gc _ := .pollUnpin hphase
  obtain ⟨isPinned, ls, hok, hrun⟩ := run_unpinning (hs.step hstep) rfl
  exact ⟨isPinned, .gc :: ls, hok, .cons hstep hrun⟩

/-! ### Every schedule -/

/-- What a GC leaves behind when no assertion of its packets has failed. -/
structure GcOver (gc : Gc) (t : State) : Prop where
  resumed : t.phase = .mutator
  pinned : t.isPinned = gc.pinnedAtStart
  nothingLeft : t.registry.pinnedPppChildren = []
  unpinFailed : t.unpinFailed = false
  panicked : t.panicked = false

/-- A GC ends, whatever its packets do next; and its `UnpinPPPChildren` packet can be run as
one. -/
structure GcEnds (profile : Profile) (gc : Gc) (s : State) : Prop where
  inevitable : Inevitable (fun s t => ∃ l, (system profile).step s l t) (GcOver gc) s
  doWork : ∀ {removeDeadPPPs packet}, s.phase = .weakRefs gc removeDeadPPPs (.queued packet) →
    ∃ isPinned ls, packet.doWork profile s.isPinned = .ok isPinned ∧ (system profile).Run s ls
      { s with isPinned, phase := .weakRefs gc removeDeadPPPs (.unpinning []) }

/-- Every GC that has begun ends in every schedule of its packets, with the pin bits as they were at
its start and nothing left to unpin. -/
theorem gcEnds_of_reachable {s : State} (hs : (system profile).Reachable s) {gc : Gc}
    (hgc : s.phase.gc = some gc) : GcEnds profile gc s := by
  have hover : ∀ {t}, (system profile).Reachable t → t.phase = .mutator →
      t.isPinned = gc.pinnedAtStart → GcOver gc t := by
    intro t ht hphase hpinned
    have h := balanced_invariant.of_reachable ht
    have hempty := h.phase
    rw [hphase] at hempty
    exact ⟨hphase, hpinned, hempty, h.unpinned, h.calm⟩
  refine ⟨.of_rank (I := fun t => (system profile).Reachable t ∧
      (t.phase.gc = some gc ∨ t.phase = .mutator ∧ t.isPinned = gc.pinnedAtStart))
    (fun t => t.phase.rank) ?_ ?_ ⟨hs, Or.inl hgc⟩, run_doWork hs⟩
  · rintro t u ⟨ht, hphase⟩ hgoal ⟨l, hstep⟩
    rcases hphase with hphase | ⟨hphase, hpinned⟩
    · have hafter := balanced_invariant.of_reachable (ht.step hstep)
      obtain ⟨hlt, hnext⟩ :=
        (balanced_invariant.of_reachable ht).rank_lt_of_step hafter hphase hstep
      exact ⟨⟨ht.step hstep, hnext⟩, hlt⟩
    · exact absurd (hover ht hphase hpinned) hgoal
  · rintro t ⟨ht, hphase⟩ hgoal
    rcases hphase with hphase | ⟨hphase, hpinned⟩
    · obtain ⟨l, u, hstep⟩ := exists_step profile hphase
      exact ⟨u, l, hstep⟩
    · exact absurd (hover ht hphase hpinned) hgoal

/-- The GC that has pinned the child of the parent ends. -/
theorem gcEnds_oneParent : ∃ s, (system .debug).Reachable s ∧ s.phase = .tracing oneParent ∧
    s.isPinned child = true ∧ GcEnds .debug oneParent s := by
  have hs := reachable_oneParent_tracing .debug
  exact ⟨_, hs, rfl, by simp [oneParentState], gcEnds_of_reachable hs rfl⟩

end Ppp

end MmtkRuby
