import MmtkRuby.Utils.AfterAll.Protocol

/-!
# `AfterAll` is a barrier

Four invariants, each using the ones before it: packets are started in the order of their pushes;
the counter is the number of packets that have not counted down, and once it is zero exactly one
of them carries the release; the borrows of the cell never overlap; the deferred list is handed
over whole.
-/

namespace MmtkRuby

open Core

namespace AfterAll

open EntriesPc

variable {n : ℕ} {P : Type*} {stage : WorkBucketStage} {deferred : List P}

/-! ### Packets are started in order -/

structure Ordered (setup : SetupPc) (pc : Fin n → EntriesPc P) : Prop where
  waiting_iff : ∀ i, pc i = .waiting ↔ setup.pushed ≤ i
  pushed_le : setup.pushed ≤ n

namespace Ordered

variable {setup : SetupPc} {pc : Fin n → EntriesPc P}

/-- A packet that has left the start was pushed, so setting up is over. -/
lemma scheduling (h : Ordered setup pc) {i : Fin n} (hi : pc i ≠ .waiting) :
    ∃ k, setup = .scheduling k := by
  have hlt : ¬ setup.pushed ≤ i := fun hle => hi ((h.waiting_iff i).mpr hle)
  cases setup with
  | scheduling k => exact ⟨k, rfl⟩
  | counting | adding | appending | releasing => simp [SetupPc.pushed] at hlt

lemma waiting (h : Ordered setup pc) (hs : setup.pushed = 0) (i : Fin n) : pc i = .waiting :=
  (h.waiting_iff i).mpr (by omega)

/-- Setting up starts no packet. -/
lemma of_waiting {setup' : SetupPc} (h : Ordered setup pc) (hs : setup.pushed = 0)
    (hs' : setup'.pushed = 0) : Ordered setup' pc where
  waiting_iff i := by simp [h.waiting hs i, hs']
  pushed_le := by omega

/-- A started packet that moves on stays started. -/
lemma update (h : Ordered setup pc) {i : Fin n} {b : EntriesPc P} (hi : pc i ≠ .waiting)
    (hb : b ≠ .waiting) : Ordered setup (Function.update pc i b) where
  waiting_iff j := by
    by_cases hj : j = i
    · subst hj
      simp only [Function.update_self, hb, false_iff]
      exact fun hle => hi ((h.waiting_iff j).mpr hle)
    · rw [Function.update_of_ne hj]
      exact h.waiting_iff j
  pushed_le := h.pushed_le

/-- The next packet in order is pushed. -/
lemma push {i : Fin n} (h : Ordered (.scheduling i) pc) :
    Ordered (.scheduling (i + 1)) (Function.update pc i .queued) where
  waiting_iff j := by
    have hj := h.waiting_iff j
    by_cases hji : j = i
    · subst hji
      simp [SetupPc.pushed]
    · have hne : (j : ℕ) ≠ i := fun he => hji (Fin.ext he)
      rw [Function.update_of_ne hji, hj, SetupPc.pushed, SetupPc.pushed]
      omega
  pushed_le := i.isLt

end Ordered

lemma ordered_invariant :
    (protocol n stage deferred).IsInvariant fun s => Ordered s.setup s.pc where
  init := by
    rintro s rfl
    exact ⟨fun i => by simp [State.start, SetupPc.pushed], Nat.zero_le n⟩
  step := by
    intro s l s' _ h hstep
    cases hstep with
    | countUp hs | addPackets hs | releaseAdd hs | borrowToAdd hs _ =>
      exact h.of_waiting (by simp [hs, SetupPc.pushed]) rfl
    | borrowToAddPanics | borrowToTakePanics => exact h
    | push i hs => exact (hs ▸ h).push
    | poll i hi | updateReturns i hi | fetchSubLast i hi _ | fetchSub i hi _ | borrowToTake i hi _
    | take i hi | releaseTake i _ hi | bulkAdd i _ hi =>
      exact h.update (by simp [hi]) (by simp)

/-! ### The counter, and who releases -/

/-- Until the counter is zero nobody releases; from then on exactly one packet does. -/
def Token (pc : Fin n → EntriesPc P) : Prop :=
  (0 < countAt pending pc ∧ countAt releasing pc = 0) ∨
    (countAt pending pc = 0 ∧ countAt releasing pc = 1)

structure Counted (setup : SetupPc) (counter : ℕ) (pc : Fin n → EntriesPc P) : Prop where
  fresh : setup = .counting → counter = 0
  counter : setup ≠ .counting → counter = countAt pending pc
  token : 0 < n → Token pc

/-- Before the first push every packet is pending. -/
lemma countAt_of_waiting (p : EntriesPc P → Bool) {pc : Fin n → EntriesPc P}
    (h : ∀ i, pc i = .waiting) : countAt p pc = if p .waiting then n else 0 := by
  obtain rfl : pc = fun _ => .waiting := funext h
  simp [countAt_const]

namespace Counted

variable {setup : SetupPc} {counter : ℕ} {pc : Fin n → EntriesPc P}

/-- A move that neither counts down nor starts to release changes no count. -/
lemma update (h : Counted setup counter pc) {i : Fin n} {b : EntriesPc P}
    (hpend : (pc i).pending = b.pending) (hrel : (pc i).releasing = b.releasing) :
    Counted setup counter (Function.update pc i b) := by
  have h₁ := countAt_update pending pc i b
  have h₂ := countAt_update releasing pc i b
  rw [hpend] at h₁
  rw [hrel] at h₂
  have hp : countAt pending (Function.update pc i b) = countAt pending pc := by omega
  have hr : countAt releasing (Function.update pc i b) = countAt releasing pc := by omega
  refine ⟨h.fresh, ?_, ?_⟩
  · rw [hp]
    exact h.counter
  · rw [Token, hp, hr]
    exact h.token

/-- At most one packet ever releases. -/
lemma unique (h : Counted setup counter pc) {i j : Fin n} (hi : (pc i).releasing = true)
    (hj : (pc j).releasing = true) : i = j := by
  refine eq_of_countAt_le_one ?_ hi hj
  rcases h.token i.pos with ⟨-, h₁⟩ | ⟨-, h₁⟩ <;> omega

/-- Once a packet releases, all have counted down. -/
lemma not_pending (h : Counted setup counter pc) {i : Fin n} (hi : (pc i).releasing = true)
    (j : Fin n) : (pc j).pending = false := by
  have hpos := countAt_pos hi
  rcases h.token i.pos with ⟨-, h₁⟩ | ⟨h₁, -⟩
  · omega
  · exact countAt_eq_zero.mp h₁ j

/-- The counter is at least 1 when a packet is about to count down. -/
lemma one_le (h : Counted setup counter pc) (hs : setup ≠ .counting) {i : Fin n}
    (hi : (pc i).pending = true) : 1 ≤ counter := by
  rw [h.counter hs]
  exact countAt_pos hi

/-- Counting down keeps the counter right, and the packet that found 1 gets the token. -/
lemma countDown (h : Counted setup counter pc) (hs : setup ≠ .counting)
    {i : Fin n} {b : EntriesPc P} (hi : (pc i).pending = true) (hb : b.pending = false)
    (hrel : (pc i).releasing = false) (hlast : b.releasing = decide (counter = 1)) :
    Counted setup (wrappingSub counter 1) (Function.update pc i b) := by
  have hone := h.one_le hs hi
  have hcounter := h.counter hs
  have hp := countAt_update pending pc i b
  have hr := countAt_update releasing pc i b
  rw [hi, hb, Bool.toNat_true, Bool.toNat_false] at hp
  rw [hrel, hlast, Bool.toNat_false] at hr
  refine ⟨fun h' => absurd h' hs, fun _ => ?_, fun hpos => ?_⟩
  · rw [wrappingSub_of_le hone]
    omega
  · unfold Token
    rcases h.token hpos with ⟨-, hzero⟩ | ⟨hzero, -⟩
    · by_cases hcase : counter = 1
      · simp only [hcase, decide_true, Bool.toNat_true] at hr
        omega
      · simp only [hcase, decide_false, Bool.toNat_false] at hr
        omega
    · omega

end Counted

lemma counted_invariant (hn : n < usizeSize) :
    (protocol n stage deferred).IsInvariant fun s => Counted s.setup s.afterAll.counter s.pc where
  init := by
    rintro s rfl
    refine ⟨fun _ => rfl, fun h => absurd rfl h, fun hpos => Or.inl ?_⟩
    simp [State.start, countAt_const, pending, releasing, hpos]
  step := by
    intro s l s' hs h hstep
    have hord := ordered_invariant.of_reachable hs
    cases hstep with
    | countUp hs =>
      have hw := hord.waiting (by simp [hs, SetupPc.pushed])
      refine ⟨by simp, fun _ => ?_, h.token⟩
      simp [AfterAll.countUp, h.fresh hs, wrappingAdd_of_lt, hn, countAt_of_waiting pending hw,
        pending]
    | addPackets hs | releaseAdd hs | borrowToAdd hs _ =>
      exact ⟨by simp, fun _ => h.counter (by simp [hs]), h.token⟩
    | borrowToAddPanics | borrowToTakePanics => exact h
    | push i hs =>
      have hi : s.pc i = .waiting := (hord.waiting_iff i).mpr (by simp [hs, SetupPc.pushed])
      have hupd := (hs ▸ h).update (i := i) (b := .queued) (by simp [hi, pending])
        (by simp [hi, releasing])
      exact ⟨by simp, fun _ => hupd.counter (by simp), hupd.token⟩
    | poll i hi | updateReturns i hi | borrowToTake i hi _ | take i hi | releaseTake i _ hi
    | bulkAdd i _ hi =>
      exact h.update (by simp [hi, pending]) (by simp [hi, releasing])
    | fetchSubLast i hi hold | fetchSub i hi hold =>
      obtain ⟨k, hk⟩ := hord.scheduling (i := i) (by simp [hi])
      exact h.countDown (by simp [hk]) (by simp [hi, pending]) rfl
        (by simp [hi, releasing]) (by simpa [releasing, AfterAll.fetchSub] using hold)

/-! ### The borrows of the cell -/

/-- The flag of the cell is set exactly while some thread holds a borrow. -/
def Guarded (setup : SetupPc) (isBorrowed : Bool) (pc : Fin n → EntriesPc P) : Prop :=
  isBorrowed = true ↔ setup.holds = true ∨ ∃ i, (pc i).holds = true

/-- A packet that holds the borrow releases. -/
lemma releasing_of_holds {pc : EntriesPc P} (h : pc.holds = true) : pc.releasing = true := by
  cases pc with
  | borrowed | took => rfl
  | waiting | queued | updating | updated | last | handing | finished => simp [holds] at h

lemma not_exists_holds {pc : Fin n → EntriesPc P} (h : ∀ i, pc i = .waiting) :
    ¬ ∃ i, (pc i).holds = true := by
  simp [h, holds]

lemma Guarded.update {setup : SetupPc} {isBorrowed : Bool} {pc : Fin n → EntriesPc P}
    (h : Guarded setup isBorrowed pc) {i : Fin n} {b : EntriesPc P}
    (hb : (pc i).holds = b.holds) : Guarded setup isBorrowed (Function.update pc i b) := by
  rw [Guarded, exists_update_iff hb]
  exact h

/-- No `borrow_mut` ever finds the cell borrowed. -/
lemma guarded_invariant (hn : n < usizeSize) : (protocol n stage deferred).IsInvariant
    fun s => Guarded s.setup s.isBorrowed s.pc ∧ s.panicked = false where
  init := by
    rintro s rfl
    simp [State.start, Guarded, SetupPc.holds, holds]
  step := by
    rintro s l s' hs ⟨h, hcalm⟩ hstep
    have hord := ordered_invariant.of_reachable hs
    have hcnt := (counted_invariant hn).of_reachable hs
    cases hstep with
    | countUp hs | addPackets hs =>
      refine ⟨?_, hcalm⟩
      simpa [Guarded, hs, SetupPc.holds] using h
    | borrowToAdd hs hfree => exact ⟨by simp [Guarded, SetupPc.holds], hcalm⟩
    | borrowToAddPanics hs hheld =>
      have hnone := not_exists_holds (hord.waiting (by simp [hs, SetupPc.pushed]))
      simp [Guarded, hs, hheld, hnone, SetupPc.holds] at h
    | releaseAdd hs =>
      have hnone := not_exists_holds (hord.waiting (by simp [hs, SetupPc.pushed]))
      exact ⟨by simp [Guarded, hnone, SetupPc.holds], hcalm⟩
    | push i hs =>
      have hi : s.pc i = .waiting := (hord.waiting_iff i).mpr (by simp [hs, SetupPc.pushed])
      have hupd := h.update (i := i) (b := .queued) (by simp [hi, holds])
      refine ⟨?_, hcalm⟩
      simpa [Guarded, State.goto, hs, SetupPc.holds] using hupd
    | poll i hi | updateReturns i hi | fetchSubLast i hi _ | fetchSub i hi _ | bulkAdd i _ hi
    | take i hi => exact ⟨h.update (by simp [hi, holds]), hcalm⟩
    | borrowToTake i hi hfree =>
      refine ⟨?_, hcalm⟩
      simp only [Guarded, true_iff]
      exact Or.inr ⟨i, by simp [State.goto, holds]⟩
    | borrowToTakePanics i hi hheld =>
      -- the holder of the borrow would be a second packet that releases
      obtain ⟨k, hk⟩ := hord.scheduling (i := i) (by simp [hi])
      obtain ⟨j, hj⟩ := (h.mp hheld).resolve_left (by simp [hk, SetupPc.holds])
      have hij := hcnt.unique (i := i) (by simp [hi, releasing]) (releasing_of_holds hj)
      subst hij
      simp [hi, holds] at hj
    | releaseTake i _ hi =>
      obtain ⟨k, hk⟩ := hord.scheduling (i := i) (by simp [hi])
      refine ⟨?_, hcalm⟩
      simp only [Guarded, Bool.false_eq_true, false_iff, not_or, not_exists]
      refine ⟨by simp [State.goto, hk, SetupPc.holds], fun j hj => ?_⟩
      by_cases hji : j = i
      · subst hji
        simp [State.goto, holds] at hj
      · simp only [State.goto, Function.update_of_ne hji] at hj
        exact hji (hcnt.unique (releasing_of_holds hj) (by simp [hi, releasing]))

/-! ### What is handed over -/

lemma stage_invariant :
    (protocol n stage deferred).IsInvariant fun s => s.afterAll.stage = stage where
  init := by
    rintro s rfl
    rfl
  step := by
    intro s l s' _ h hstep
    cases hstep <;> exact h

structure Delivered (stage : WorkBucketStage) (deferred : List P) (setup : SetupPc)
    (packets : List P) (pc : Fin n → EntriesPc P)
    (handedOver : List (WorkBucketStage × List P)) : Prop where
  stored : packets =
    if setup.appended = true ∧ ¬ ∃ i, (pc i).taken = true then deferred else []
  carried : ∀ i took, pc i = .took took ∨ pc i = .handing took → took = deferred
  handed : handedOver = if ∃ i, (pc i).handed = true then [(stage, deferred)] else []

/-- A packet that has taken the deferred ones releases. -/
lemma releasing_of_taken {pc : EntriesPc P} (h : pc.taken = true) : pc.releasing = true := by
  cases pc with
  | took | handing => rfl
  | finished isLast => cases isLast <;> simp_all [taken, releasing]
  | waiting | queued | updating | updated | last | borrowed => simp [taken] at h

/-- A packet that has handed them over has taken them. -/
lemma taken_of_handed {pc : EntriesPc P} (h : pc.handed = true) : pc.taken = true := by
  cases pc with
  | finished isLast => cases isLast <;> simp_all [EntriesPc.handed, taken]
  | waiting | queued | updating | updated | last | borrowed | took | handing =>
    simp [EntriesPc.handed] at h

/-- What a packet carries stays the deferred list. -/
lemma carried_update {pc : Fin n → EntriesPc P} {i : Fin n} {b : EntriesPc P}
    (h : ∀ i took, pc i = .took took ∨ pc i = .handing took → took = deferred)
    (hb : ∀ took, b = .took took ∨ b = .handing took → took = deferred) :
    ∀ j took, Function.update pc i b j = .took took ∨ Function.update pc i b j = .handing took →
      took = deferred := by
  intro j took hj
  by_cases hji : j = i
  · subst hji
    rw [Function.update_self] at hj
    exact hb took hj
  · rw [Function.update_of_ne hji] at hj
    exact h j took hj

/-- A move that neither takes nor hands over delivers nothing. -/
lemma Delivered.update {setup : SetupPc} {packets : List P} {pc : Fin n → EntriesPc P}
    {handedOver : List (WorkBucketStage × List P)}
    (h : Delivered stage deferred setup packets pc handedOver) {i : Fin n} {b : EntriesPc P}
    (htaken : (pc i).taken = b.taken) (hhanded : (pc i).handed = b.handed)
    (hb : ∀ took, b = .took took ∨ b = .handing took → took = deferred) :
    Delivered stage deferred setup packets (Function.update pc i b) handedOver where
  stored := by simpa only [exists_update_iff htaken] using h.stored
  carried := carried_update h.carried hb
  handed := by simpa only [exists_update_iff hhanded] using h.handed

lemma delivered_invariant (hn : n < usizeSize) : (protocol n stage deferred).IsInvariant
    fun s => Delivered stage deferred s.setup s.afterAll.packets s.pc s.handedOver where
  init := by
    rintro s rfl
    exact ⟨rfl, by simp [State.start], by simp [State.start, EntriesPc.handed]⟩
  step := by
    intro s l s' hs h hstep
    have hord := ordered_invariant.of_reachable hs
    have hcnt := (counted_invariant hn).of_reachable hs
    cases hstep with
    | countUp hs | borrowToAdd hs _ | releaseAdd hs =>
      refine ⟨?_, h.carried, h.handed⟩
      simpa [AfterAll.countUp, hs, SetupPc.appended] using h.stored
    | borrowToAddPanics | borrowToTakePanics => exact h
    | addPackets hs =>
      have hw := hord.waiting (by simp [hs, SetupPc.pushed])
      have hstored := h.stored
      simp only [hs, SetupPc.appended, Bool.false_eq_true, false_and, if_false] at hstored
      refine ⟨?_, h.carried, h.handed⟩
      simp [AfterAll.addPackets, hstored, SetupPc.appended, hw, taken]
    | push i hs =>
      have hi : s.pc i = .waiting := (hord.waiting_iff i).mpr (by simp [hs, SetupPc.pushed])
      have hupd := h.update (i := i) (b := .queued) (by simp [hi, taken])
        (by simp [hi, EntriesPc.handed]) (by simp)
      refine ⟨?_, hupd.carried, hupd.handed⟩
      simpa [State.goto, hs, SetupPc.appended] using hupd.stored
    | poll i hi | updateReturns i hi | fetchSubLast i hi _ | fetchSub i hi _
    | borrowToTake i hi _ =>
      exact h.update (by simp [hi, taken]) (by simp [hi, EntriesPc.handed]) (by simp)
    | take i hi =>
      obtain ⟨k, hk⟩ := hord.scheduling (i := i) (by simp [hi])
      have hnone : ¬ ∃ j, (s.pc j).taken = true := by
        rintro ⟨j, hj⟩
        have hji : j = i := hcnt.unique (releasing_of_taken hj) (by simp [hi, releasing])
        simp [hji, hi, taken] at hj
      have hstored := h.stored
      rw [if_pos ⟨by simp [hk, SetupPc.appended], hnone⟩] at hstored
      have hsome : ∃ j, (Function.update s.pc i (.took s.afterAll.packets) j).taken = true :=
        ⟨i, by simp [taken]⟩
      have hsame : (s.pc i).handed = (EntriesPc.took s.afterAll.packets).handed := by
        simp [hi, EntriesPc.handed]
      refine ⟨?_, carried_update h.carried ?_, ?_⟩
      · simp only [State.goto, AfterAll.takePackets, hsome, not_true_eq_false, and_false,
          if_false]
      · simp [AfterAll.takePackets, hstored]
      · simpa only [State.goto, AfterAll.takePackets, exists_update_iff hsame] using h.handed
    | releaseTake i packets hi =>
      have hcarried := h.carried i packets (Or.inl hi)
      exact h.update (by simp [hi, taken]) (by simp [hi, EntriesPc.handed])
        (by simp [hcarried])
    | bulkAdd i packets hi =>
      have hcarried := h.carried i packets (Or.inr hi)
      have hstage := stage_invariant.of_reachable hs
      have hnone : ¬ ∃ j, (s.pc j).handed = true := by
        rintro ⟨j, hj⟩
        have hji : j = i := hcnt.unique (releasing_of_taken (taken_of_handed hj))
          (by simp [hi, releasing])
        simp [hji, hi, EntriesPc.handed] at hj
      have hsome : ∃ j, (Function.update s.pc i (.finished true) j).handed = true :=
        ⟨i, by simp [EntriesPc.handed]⟩
      have hsame : (s.pc i).taken = (EntriesPc.finished true : EntriesPc P).taken := by
        simp [hi, taken]
      refine ⟨?_, carried_update h.carried (by simp), ?_⟩
      · simpa only [State.goto, exists_update_iff hsame] using h.stored
      · have hhanded := h.handed
        rw [if_neg hnone] at hhanded
        simp only [State.goto, hhanded, hcarried, hstage, hsome, if_true, List.nil_append]

/-! ### The barrier -/

/-- Every execution of an entries packet has returned from `do_work`. -/
def AllFinished (s : State n P) : Prop := ∀ i, ∃ isLast, s.pc i = .finished isLast

/-- What a barrier between the two passes has to keep in every state. -/
structure IsBarrier (stage : WorkBucketStage) (deferred : List P) (s : State n P) : Prop where
  after_all : s.handedOver ≠ [] → ∀ i, (s.pc i).returned = true
  at_most_once : s.handedOver = [] ∨ s.handedOver = [(stage, deferred)]
  complete : AllFinished s → s.handedOver = [(stage, deferred)]
  one_last : ∀ i j, s.pc i = .finished true → s.pc j = .finished true → i = j
  exactly_one_last : AllFinished s → ∃! i, s.pc i = .finished true
  no_underflow : ∀ i, s.pc i = .updated → 1 ≤ s.afterAll.counter
  no_panic : s.panicked = false
  setup_alone : s.setup.holds = true → ∀ i, (s.pc i).holds = false
  worker_alone : ∀ i j, (s.pc i).holds = true → (s.pc j).holds = true → i = j

lemma handed_iff {pc : EntriesPc P} : pc.handed = true ↔ pc = .finished true := by
  cases pc with
  | finished isLast => cases isLast <;> simp [EntriesPc.handed]
  | waiting | queued | updating | updated | last | borrowed | took | handing =>
    simp [EntriesPc.handed]

/-- A packet that has counted down has updated its entries. -/
lemma returned_of_not_pending {pc : EntriesPc P} (h : pc.pending = false) :
    pc.returned = true := by
  cases pc with
  | waiting | queued | updating | updated => simp [pending] at h
  | last | borrowed | took | handing | finished => rfl

/-- When all have finished, one of them found the counter at 1. -/
lemma Counted.exists_last {setup : SetupPc} {counter : ℕ} {pc : Fin n → EntriesPc P}
    (h : Counted setup counter pc) (hpos : 0 < n) (hall : ∀ i, ∃ isLast, pc i = .finished isLast) :
    ∃ i, pc i = .finished true := by
  have hpend : countAt pending pc = 0 := by
    rw [countAt_eq_zero]
    intro i
    obtain ⟨isLast, hi⟩ := hall i
    simp [hi, pending]
  by_contra hnone
  have hrel : countAt releasing pc = 0 := by
    rw [countAt_eq_zero]
    intro i
    obtain ⟨isLast, hi⟩ := hall i
    cases isLast with
    | false => simp [hi, releasing]
    | true => exact absurd ⟨i, hi⟩ hnone
  rcases h.token hpos with ⟨h₁, -⟩ | ⟨-, h₁⟩ <;> omega

/-- When all have finished, the deferred packets are in their bucket. -/
lemma handedOver_of_allFinished (hpos : 1 ≤ n) (hn : n < usizeSize) {s : State n P}
    (hs : (protocol n stage deferred).Reachable s) (hall : AllFinished s) :
    s.handedOver = [(stage, deferred)] := by
  obtain ⟨i, hi⟩ := ((counted_invariant hn).of_reachable hs).exists_last hpos hall
  rw [((delivered_invariant hn).of_reachable hs).handed, if_pos ⟨i, handed_iff.mpr hi⟩]

/-- `AfterAll` is a barrier in every state of every interleaving, for any number of packets that
the length of a `Vec` can be. -/
theorem isBarrier_of_reachable (hpos : 1 ≤ n) (hn : n < usizeSize) {s : State n P}
    (hs : (protocol n stage deferred).Reachable s) : IsBarrier stage deferred s := by
  have hord := ordered_invariant.of_reachable hs
  have hcnt := (counted_invariant hn).of_reachable hs
  obtain ⟨hguard, hcalm⟩ := (guarded_invariant hn).of_reachable hs
  have hdel := (delivered_invariant hn).of_reachable hs
  have hlast : ∀ i j, s.pc i = .finished true → s.pc j = .finished true → i = j := by
    intro i j hi hj
    exact hcnt.unique (by simp [hi, releasing]) (by simp [hj, releasing])
  refine ⟨?_, ?_, handedOver_of_allFinished hpos hn hs, hlast, ?_, ?_, hcalm, ?_, ?_⟩
  · intro hne i
    have hex : ∃ j, (s.pc j).handed = true := by
      by_contra hnone
      exact hne (hdel.handed.trans (if_neg hnone))
    obtain ⟨j, hj⟩ := hex
    exact returned_of_not_pending
      (hcnt.not_pending (releasing_of_taken (taken_of_handed hj)) i)
  · rw [hdel.handed]
    split_ifs
    · exact Or.inr rfl
    · exact Or.inl rfl
  · intro hall
    obtain ⟨i, hi⟩ := hcnt.exists_last hpos hall
    exact ⟨i, hi, fun j hj => hlast j i hj hi⟩
  · intro i hi
    obtain ⟨k, hk⟩ := hord.scheduling (i := i) (by simp [hi])
    exact hcnt.one_le (i := i) (by simp [hk]) (by simp [hi, pending])
  · intro hholds i
    by_contra hi
    rw [Bool.not_eq_false] at hi
    obtain ⟨k, hk⟩ := hord.scheduling (i := i) (by rintro hw; simp [hw, holds] at hi)
    simp [hk, SetupPc.holds] at hholds
  · intro i j hi hj
    exact hcnt.unique (releasing_of_holds hi) (releasing_of_holds hj)

/-- Two entries packets and two deferred ones, run to the end: the second packet, which starts
before the first one has counted down, finds 2, and the first one releases. -/
theorem isBarrier_two : ∃ s : State 2 ℕ, (protocol 2 .vmRefClosure [7, 8]).Reachable s ∧
    AllFinished s ∧ s.handedOver = [(.vmRefClosure, [7, 8])] ∧ s.pc 1 = .finished false ∧
    IsBarrier .vmRefClosure [7, 8] s := by
  have h₁ : (protocol 2 .vmRefClosure [7, 8]).Reachable _ := .step (.init rfl) (.countUp rfl)
  have h₂ := h₁.step (.borrowToAdd rfl rfl)
  have h₃ := h₂.step (.addPackets rfl)
  have h₄ := h₃.step (.releaseAdd rfl)
  have h₅ := h₄.step (.push 0 rfl)
  have h₆ := h₅.step (.poll 0 rfl)
  have h₇ := h₆.step (.push 1 rfl)
  have h₈ := h₇.step (.poll 1 rfl)
  have h₉ := h₈.step (.updateReturns 0 rfl)
  have h₁₀ := h₉.step (.updateReturns 1 rfl)
  have h₁₁ := h₁₀.step (.fetchSub 1 rfl (by decide))
  have h₁₂ := h₁₁.step (.fetchSubLast 0 rfl (by decide))
  have h₁₃ := h₁₂.step (.borrowToTake 0 rfl rfl)
  have h₁₄ := h₁₃.step (.take 0 rfl)
  have h₁₅ := h₁₄.step (.releaseTake 0 [7, 8] rfl)
  have h₁₆ := h₁₅.step (.bulkAdd 0 [7, 8] rfl)
  refine ⟨_, h₁₆, fun i => ?_, rfl, rfl, isBarrier_of_reachable (by decide) (by decide) h₁₆⟩
  match i with
  | 0 => exact ⟨true, rfl⟩
  | 1 => exact ⟨false, rfl⟩

end AfterAll

end MmtkRuby
