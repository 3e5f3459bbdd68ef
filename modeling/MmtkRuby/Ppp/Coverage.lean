import MmtkRuby.Ppp.Balance

/-!
# The children of PPPs stay pinned for the trace

Each entry of the PPP list is in one packet, each packet pins what its PPPs report, and nothing is
unpinned before the packet that unpins is started.
-/

namespace MmtkRuby

open Core

namespace Ppp

variable {profile : Profile}

lemma mem_pinnedChildren {upcalls : PppUpcalls} {ppp c : ObjectReference} :
    c ∈ upcalls.pinnedChildren ppp ↔
      upcalls.isNoLongerPpp ppp = false ∧ (c, true) ∈ (upcalls.callGcMarkChildren ppp).visits := by
  unfold PppUpcalls.pinnedChildren
  cases upcalls.isNoLongerPpp ppp <;> simp

/-- The children that the PPPs of a packet report with `pin = true`. -/
def Gc.childrenOf (gc : Gc) (p : PinPPPChildren) : List ObjectReference :=
  p.ppps.flatMap gc.upcalls.pinnedChildren

/-- Whatever a packet has come to is pinned, and it comes to nothing but the children of its
PPPs. -/
def PinExec.Covers (gc : Gc) (isPinned : ObjectReference → Bool) (e : PinExec) : Prop :=
  match e.pc with
  | .queued => True
  | .pinning pppChildren _ =>
    (∀ c ∈ gc.childrenOf e.packet, c ∈ pppChildren ∨ isPinned c = true) ∧
      ∀ c ∈ pppChildren, c ∈ gc.childrenOf e.packet
  | .finished => ∀ c ∈ gc.childrenOf e.packet, isPinned c = true

/-- The packets share out the list, and only reported children are pinned. -/
structure Gc.Sound (gc : Gc) (isPinned : ObjectReference → Bool) : Prop where
  partition : gc.packets.flatMap (·.ppps) = if gc.currentGcMayMoveObject then gc.ppps else []
  sound : ∀ c, isPinned c = true → gc.pinnedAtStart c = true ∨ c ∈ gc.reported

/-- All reported children are pinned, if the GC may move objects. -/
def Gc.Covered (gc : Gc) (isPinned : ObjectReference → Bool) : Prop :=
  gc.currentGcMayMoveObject = true → ∀ c ∈ gc.reported, isPinned c = true

def PhaseCovered (isPinned : ObjectReference → Bool) : Phase → Prop
  | .mutator => True
  | .prepare gc packets =>
    gc.Sound isPinned ∧ packets.map (·.packet) = gc.packets ∧ ∀ e ∈ packets, e.Covers gc isPinned
  | .tracing gc => gc.Sound isPinned ∧ gc.Covered isPinned
  | .weakRefs gc _ (.queued _) => gc.Sound isPinned ∧ gc.Covered isPinned
  | .weakRefs gc _ .absent | .weakRefs gc _ (.unpinning _) => gc.Sound isPinned

section Prepare

variable {gc : Gc} {isPinned : ObjectReference → Bool} {l₁ l₂ : List PinExec}
  {p : PinPPPChildren} {pc pc' : PinPc}

/-- More pins uncover nothing. -/
lemma PinExec.Covers.testAndSet {e : PinExec} (h : e.Covers gc isPinned)
    (object : ObjectReference) : e.Covers gc (testAndSet isPinned object).2 := by
  have hmono : ∀ c, isPinned c = true → (Core.testAndSet isPinned object).2 c = true := by
    intro c hc
    by_cases hco : c = object
    · simp [Core.testAndSet, hco]
    · simpa [Core.testAndSet, hco] using hc
  obtain ⟨p, pc⟩ := e
  cases pc with
  | queued => trivial
  | pinning pppChildren newlyPinned =>
    exact ⟨fun c hc => (h.1 c hc).imp_right (hmono c), h.2⟩
  | finished => exact fun c hc => hmono c (h c hc)

/-- The children of a packet are reported children. -/
lemma mem_reported (hsound : gc.Sound isPinned) (hp : p ∈ gc.packets) {c : ObjectReference}
    (hc : c ∈ gc.childrenOf p) : c ∈ gc.reported := by
  obtain ⟨ppp, hppp, hc⟩ := List.mem_flatMap.mp hc
  have hmem : ppp ∈ gc.packets.flatMap (·.ppps) := List.mem_flatMap.mpr ⟨p, hp, hppp⟩
  rw [hsound.partition] at hmem
  split_ifs at hmem
  · exact List.mem_flatMap.mpr ⟨ppp, hmem, hc⟩
  · cases hmem

lemma Gc.Sound.testAndSet (h : gc.Sound isPinned) {object : ObjectReference}
    (hobject : object ∈ gc.reported) : gc.Sound (testAndSet isPinned object).2 := by
  refine ⟨h.partition, fun c hc => ?_⟩
  by_cases hco : c = object
  · exact Or.inr (hco ▸ hobject)
  · apply h.sound c
    simpa [Core.testAndSet, hco] using hc

/-- A packet moves on to a place that covers what it has to. -/
lemma PhaseCovered.update (h : PhaseCovered isPinned (.prepare gc (l₁ ++ ⟨p, pc⟩ :: l₂)))
    {isPinned' : ObjectReference → Bool} (hsound : gc.Sound isPinned')
    (hothers : ∀ e : PinExec, e.Covers gc isPinned → e.Covers gc isPinned')
    (hcovers : PinExec.Covers gc isPinned' ⟨p, pc'⟩) :
    PhaseCovered isPinned' (.prepare gc (l₁ ++ ⟨p, pc'⟩ :: l₂)) := by
  obtain ⟨-, hpackets, hall⟩ := h
  refine ⟨hsound, ?_, ?_⟩
  · rw [← hpackets]
    simp
  · intro e he
    rcases List.mem_append.mp he with he | he
    · exact hothers e (hall e (List.mem_append.mpr (Or.inl he)))
    · rcases List.mem_cons.mp he with rfl | he
      · exact hcovers
      · exact hothers e (hall e (List.mem_append.mpr (Or.inr (List.mem_cons_of_mem _ he))))

/-- A packet of the stage is among those that were created, and covers what it has come to. -/
lemma PhaseCovered.mem_packets (h : PhaseCovered isPinned (.prepare gc (l₁ ++ ⟨p, pc⟩ :: l₂))) :
    p ∈ gc.packets ∧ PinExec.Covers gc isPinned ⟨p, pc⟩ := by
  have hmem : ⟨p, pc⟩ ∈ l₁ ++ ⟨p, pc⟩ :: l₂ := List.mem_append.mpr (Or.inr List.mem_cons_self)
  refine ⟨?_, h.2.2 _ hmem⟩
  rw [← h.2.1]
  exact List.mem_map_of_mem hmem

/-- Pinning the next child, whether it was pinned before or not. -/
lemma PhaseCovered.pin {object : ObjectReference}
    {pppChildren newlyPinned newlyPinned' : List ObjectReference}
    (h : PhaseCovered isPinned
      (.prepare gc (l₁ ++ ⟨p, .pinning (object :: pppChildren) newlyPinned⟩ :: l₂))) :
    PhaseCovered (testAndSet isPinned object).2
      (.prepare gc (l₁ ++ ⟨p, .pinning pppChildren newlyPinned'⟩ :: l₂)) := by
  obtain ⟨hp, hcovers⟩ := h.mem_packets
  have hreported := mem_reported h.1 hp (hcovers.2 object List.mem_cons_self)
  apply h.update (h.1.testAndSet hreported) (fun e he => he.testAndSet object)
  refine ⟨fun c hc => ?_, fun c hc => hcovers.2 c (List.mem_cons_of_mem _ hc)⟩
  rcases (hcovers.testAndSet object).1 c hc with hmem | hpinned
  · rcases List.mem_cons.mp hmem with rfl | hmem
    · exact Or.inr (by simp [Core.testAndSet])
    · exact Or.inl hmem
  · exact Or.inr hpinned

/-- When all packets are finished, all reported children are pinned. -/
lemma PhaseCovered.covered {packets : List PinExec}
    (h : PhaseCovered isPinned (.prepare gc packets)) (hall : ∀ e ∈ packets, e.pc = .finished) :
    gc.Covered isPinned := by
  obtain ⟨hsound, hpackets, hcovers⟩ := h
  intro hmove c hc
  obtain ⟨ppp, hppp, hc⟩ := List.mem_flatMap.mp hc
  have hpartition := hsound.partition
  rw [if_pos hmove] at hpartition
  rw [← hpartition, ← hpackets] at hppp
  obtain ⟨p, hp, hppp⟩ := List.mem_flatMap.mp hppp
  obtain ⟨e, he, rfl⟩ := List.mem_map.mp hp
  have hcover := hcovers e he
  rw [PinExec.Covers, hall e he] at hcover
  exact hcover c (List.mem_flatMap.mpr ⟨ppp, hppp, hc⟩)

end Prepare

lemma covered_invariant :
    (system profile).IsInvariant fun s => PhaseCovered s.isPinned s.phase where
  init := by
    rintro s ⟨hphase, -⟩
    rw [hphase]
    trivial
  step := by
    intro s l s' _ h hstep
    cases hstep with
    | register object hs | registerMany objects hs | pinObject object hs | unpinObject object hs =>
      simp only [hs]
      trivial
    | stopAllMutators currentGcMayMoveObject upcalls hs =>
      refine ⟨⟨?_, fun c hc => Or.inl hc⟩, ?_, ?_⟩
      · exact PPPRegistry.flatMap_pinPppChildren _ _
      · rw [List.map_map]
        exact List.map_id _
      · intro e he
        obtain ⟨p, -, rfl⟩ := List.mem_map.mp he
        trivial
    | @scan gc l₁ l₂ p pppChildren numNoLongerPpps hs hscan =>
      rw [hs] at h
      obtain ⟨n, hscan'⟩ := PinPPPChildren.scan_eq profile gc.upcalls p
      rw [hscan', Except.ok.injEq, Prod.mk.injEq] at hscan
      obtain ⟨rfl, -⟩ := hscan
      exact h.update h.1 (fun e he => he) ⟨fun c hc => Or.inl hc, fun c hc => hc⟩
    | pin l₁ l₂ hs hnew =>
      rw [hs] at h
      exact h.pin
    | pinAgain l₁ l₂ hs hold =>
      rw [hs] at h
      exact h.pin
    | append l₁ l₂ hs =>
      rw [hs] at h
      refine h.update h.1 (fun e he => he) fun c hc => ?_
      exact (h.mem_packets.2.1 c hc).resolve_left List.not_mem_nil
    | prepared hs hall =>
      rw [hs] at h
      exact ⟨h.1, h.covered hall⟩
    | @cleanupPpps gc packet registry hs hcleanup =>
      rw [hs] at h
      cases packet with
      | none => exact h.1
      | some packet => exact h
    | cleanupPppsPanics hs hcleanup => exact h
    | @removeDeadPPPs gc unpin traced isNoLongerPpp hs =>
      rw [hs] at h
      cases unpin with
      | absent => exact h
      | queued packet => exact h
      | unpinning children => exact h
    | pollUnpin hs =>
      rw [hs] at h
      exact h.1
    | @unpin gc removeDeadPPPs object children hs =>
      rw [hs] at h
      refine ⟨h.partition, fun c hc => h.sound c ?_⟩
      by_cases hco : c = object
      · simp [testAndClear, hco] at hc
      · simpa [testAndClear, hco] using hc
    | resumeMutators hs hdone => trivial

/-! ### From the end of `Prepare` to the unpinning -/

/-- All `PinPPPChildren` packets have run and `UnpinPPPChildren` has not: the newly pinned objects
are in the shared list, and from `cleanup_ppps` on in the packet that will unpin them. -/
inductive AfterPinning (s : State) (gc : Gc) : List ObjectReference → Prop where
  | prepared {packets : List PinExec} (hs : s.phase = .prepare gc packets)
      (hall : ∀ e ∈ packets, e.pc = .finished) :
      AfterPinning s gc s.registry.pinnedPppChildren
  | tracing (hs : s.phase = .tracing gc) : AfterPinning s gc s.registry.pinnedPppChildren
  | unpinQueued {removeDeadPPPs : Bool} {packet : UnpinPPPChildren}
      (hs : s.phase = .weakRefs gc removeDeadPPPs (.queued packet)) :
      AfterPinning s gc packet.children

/-- What the trace can rely on. -/
structure ChildrenPinned (gc : Gc) (isPinned : ObjectReference → Bool)
    (newlyPinned : List ObjectReference) : Prop where
  covered : ∀ ppp ∈ gc.ppps, gc.upcalls.isNoLongerPpp ppp = false →
    ∀ c, (c, true) ∈ (gc.upcalls.callGcMarkChildren ppp).visits → isPinned c = true
  partition : gc.packets.flatMap (·.ppps) = gc.ppps
  sound : ∀ c, isPinned c = true → gc.pinnedAtStart c = false →
    ∃ ppp ∈ gc.ppps, gc.upcalls.isNoLongerPpp ppp = false ∧
      (c, true) ∈ (gc.upcalls.callGcMarkChildren ppp).visits
  nodup : newlyPinned.Nodup
  mem_iff : ∀ c, c ∈ newlyPinned ↔ gc.pinnedAtStart c = false ∧ isPinned c = true

/-- The phases of a GC between the two stages, with what the invariants say of them. -/
lemma AfterPinning.invariants {s : State} {gc : Gc} {newlyPinned : List ObjectReference}
    (h : AfterPinning s gc newlyPinned) (hs : (system profile).Reachable s) :
    gc.Sound s.isPinned ∧ gc.Covered s.isPinned ∧
      UndoLog gc.pinnedAtStart s.isPinned newlyPinned := by
  have hbal := (balanced_invariant.of_reachable hs).phase
  have hcov := covered_invariant.of_reachable hs
  cases h with
  | prepared hphase hall =>
    rw [hphase] at hbal hcov
    have hundo := hbal.1
    rw [sum_newlyPinned_of_finished hall, add_zero] at hundo
    exact ⟨hcov.1, hcov.covered hall, hundo⟩
  | tracing hphase =>
    rw [hphase] at hbal hcov
    exact ⟨hcov.1, hcov.2, hbal.1⟩
  | unpinQueued hphase =>
    rw [hphase] at hbal hcov
    exact ⟨hcov.1, hcov.2, hbal.1⟩

/-- Throughout the trace of a moving GC the reported children are pinned, and what was newly pinned
is recorded exactly. -/
theorem childrenPinned_of_reachable (profile : Profile) {s : State}
    (hs : (system profile).Reachable s) {gc : Gc} (hmove : gc.currentGcMayMoveObject = true)
    {newlyPinned : List ObjectReference} (hafter : AfterPinning s gc newlyPinned) :
    ChildrenPinned gc s.isPinned newlyPinned := by
  obtain ⟨hsound, hcovered, hundo⟩ := hafter.invariants hs
  have hpartition := hsound.partition
  rw [if_pos hmove] at hpartition
  refine ⟨?_, hpartition, ?_, Multiset.coe_nodup.mp hundo.nodup, hundo.mem_iff⟩
  · intro ppp hppp hstill c hc
    exact hcovered hmove c
      (List.mem_flatMap.mpr ⟨ppp, hppp, mem_pinnedChildren.mpr ⟨hstill, hc⟩⟩)
  · intro c hc hclear
    rcases hsound.sound c hc with hstart | hreported
    · rw [hclear] at hstart
      cases hstart
    · obtain ⟨ppp, hppp, hc⟩ := List.mem_flatMap.mp hreported
      exact ⟨ppp, hppp, mem_pinnedChildren.mp hc⟩

theorem childrenPinned_oneParent : ∃ s, (system .release).Reachable s ∧
    s.phase = .tracing oneParent ∧ ChildrenPinned oneParent s.isPinned [child] :=
  ⟨_, reachable_oneParent_tracing .release, rfl, childrenPinned_of_reachable .release
    (reachable_oneParent_tracing .release) rfl (.tracing rfl)⟩

/-- Between `cleanup_ppps` and the unpinning the newly pinned child is not in the shared list, and
an object that was registered 513 times is in two packets. -/
theorem childrenPinned_not_in_shared_list :
    (∃ s, (system .release).Reachable s ∧
      s.phase = .weakRefs oneParent true (.queued ⟨[child]⟩) ∧
      oneParent.pinnedAtStart child = false ∧ s.isPinned child = true ∧
      child ∉ s.registry.pinnedPppChildren) ∧
    PPPRegistry.pinPppChildren ⟨List.replicate 513 parent, []⟩ true =
      [⟨List.replicate 512 parent⟩, ⟨[parent]⟩] := by
  constructor
  · have h := (reachable_oneParent_tracing .release).step (.cleanupPpps rfl rfl)
    exact ⟨_, h, rfl, rfl, rfl, by simp⟩
  · have hsplit : List.replicate 513 parent = List.replicate 512 parent ++ [parent] :=
      List.replicate_succ'
    simp only [PPPRegistry.pinPppChildren, hsplit]
    rw [chunks_append (by decide) (List.length_replicate), chunks_of_length_le (by decide)
      (List.cons_ne_nil _ _) (by decide)]
    rfl

end Ppp

end MmtkRuby
