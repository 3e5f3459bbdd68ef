import MmtkRuby.WeakProc.WeakTable
import MmtkRuby.Utils.AfterAll.Properties

/-!
# When the deferred bins packets are handed over

The packets of one weak table follow the protocol of `AfterAll`, with the entries packets for
workers and the bins packets deferred. The bins packets are released by the last entries packet
that counts down, so a table that has bins but no entry slots never releases them.
-/

namespace MmtkRuby

open Core

namespace WeakTable

variable {profile : Profile} {binding : RubyBinding} {t : WeakTable} {info : SizeInfo}

/-- What the call leaves behind when it comes to the `bulk_add` of the entries packets. -/
def Scheduled.beforePush (r : Scheduled) :
    AfterAll.State r.entriesPackets.length UpdateTableBinsParallel where
  afterAll := r.afterAll
  isBorrowed := false
  setup := .scheduling 0
  pc := fun _ => .waiting
  handedOver := []
  panicked := false

/-- The `bulk_add` of the entries packets that a call has built, and their executions. -/
def Scheduled.protocol (r : Scheduled) :
    TransitionSystem (AfterAll.State r.entriesPackets.length UpdateTableBinsParallel)
      (AfterAll.Label r.entriesPackets.length) where
  init s := s = r.beforePush
  step := AfterAll.Step r.binsPackets

/-- `process_weak_table_chunked` has returned and every entries packet has run. -/
def EntriesDone {n : ℕ} {P : Type*} (s : AfterAll.State n P) : Prop :=
  s.setup = .scheduling n ∧ AfterAll.AllFinished s

/-- The packets that `count_down` has added to buckets, each with its bucket. -/
def released {n : ℕ} {P : Type*} (s : AfterAll.State n P) : List (WorkBucketStage × P) :=
  s.handedOver.flatMap fun added => added.2.map (Prod.mk added.1)

/-- The steps of the call up to that point. -/
lemma Scheduled.reachable_beforePush {r : Scheduled}
    (h : t.processWeakTableChunked profile binding info = .ok r) :
    (AfterAll.protocol r.entriesPackets.length .vmRefClosure r.binsPackets).Reachable
      r.beforePush := by
  obtain ⟨-, -, hcounter, hstage⟩ := processWeakTableChunked_eq_ok_iff.mp h
  have hafter : r.afterAll =
      ((AfterAll.new .vmRefClosure).countUp r.entriesPackets.length).addPackets r.binsPackets := by
    have heta : r.afterAll =
        ⟨wrappingAdd 0 r.entriesPackets.length, .vmRefClosure, r.binsPackets⟩ := by
      rw [← hcounter, ← hstage]
      rfl
    exact heta
  have h₁ : (AfterAll.protocol r.entriesPackets.length .vmRefClosure r.binsPackets).Reachable _ :=
    .step (.init rfl) (.countUp rfl)
  have h₂ := h₁.step (.borrowToAdd rfl rfl)
  have h₃ := h₂.step (.addPackets rfl)
  have h₄ := h₃.step (.releaseAdd rfl)
  rw [beforePush, hafter]
  simpa [AfterAll.State.start] using h₄

/-- What comes after a call is what comes of its steps, taken one by one. -/
lemma Scheduled.reachable {r : Scheduled}
    (h : t.processWeakTableChunked profile binding info = .ok r)
    {s : AfterAll.State r.entriesPackets.length UpdateTableBinsParallel}
    (hs : r.protocol.Reachable s) :
    (AfterAll.protocol r.entriesPackets.length .vmRefClosure r.binsPackets).Reachable s := by
  induction hs with
  | init hinit =>
    rw [show _ = r.beforePush from hinit]
    exact Scheduled.reachable_beforePush h
  | step _ hstep ih => exact ih.step hstep

/-- There is an entries packet exactly when there are entries to process, and their number fits
the counter. -/
lemma Scheduled.length_entriesPackets {r : Scheduled}
    (h : t.processWeakTableChunked profile binding info = .ok r) :
    (r.entriesPackets = [] ↔ info.entriesBound ≤ info.entriesStart) ∧
      r.entriesPackets.length < usizeSize := by
  obtain ⟨hpos, hentries⟩ :=
    entriesPackets_eq_ok_iff.mp (processWeakTableChunked_eq_ok_iff.mp h).1
  have hlen := hentries.length_eq
  have hle : _ ≤ info.entriesBound - info.entriesStart := length_strided_le hpos
  have hbound := info.entriesBound_lt
  refine ⟨?_, by omega⟩
  rw [← List.length_eq_zero_iff, ← hlen, List.length_eq_zero_iff, strided_eq_nil hpos]

lemma Scheduled.binsPackets_eq_nil {r : Scheduled}
    (h : t.processWeakTableChunked profile binding info = .ok r) :
    r.binsPackets = [] ↔ info.binsNum = 0 := by
  obtain ⟨hpos, hbins⟩ := binsPackets_eq_ok_iff.mp (processWeakTableChunked_eq_ok_iff.mp h).2.1
  rw [← List.length_eq_zero_iff, ← hbins.length_eq, List.length_eq_zero_iff,
    strided_eq_nil hpos, Nat.le_zero]

/-- Once the entries packets have run, every bins packet has been handed to the `VMRefClosure`
bucket exactly once: this holds of every schedule exactly when the table has an entry to process
or has no bins. -/
theorem binsPackets_handedOver_iff {r : Scheduled}
    (h : t.processWeakTableChunked profile binding info = .ok r) :
    (∀ s, r.protocol.Reachable s → EntriesDone s →
        released s = r.binsPackets.map (Prod.mk .vmRefClosure)) ↔
      info.entriesStart < info.entriesBound ∨ info.binsNum = 0 := by
  obtain ⟨hnil, hlt⟩ := Scheduled.length_entriesPackets h
  have hbins := Scheduled.binsPackets_eq_nil h
  constructor
  · intro hall
    by_contra hnot
    rw [not_or, not_lt] at hnot
    -- with no entries packet the call ends in a state where everything is finished
    have hempty : r.entriesPackets.length = 0 := List.length_eq_zero_iff.mpr (hnil.mpr hnot.1)
    have hdone : EntriesDone r.beforePush :=
      ⟨congrArg AfterAll.SetupPc.scheduling hempty.symm, fun i => absurd i.isLt (by omega)⟩
    have hmap := hall _ (.init rfl) hdone
    exact hnot.2 (hbins.mp (List.map_eq_nil_iff.mp hmap.symm))
  · rintro (hsome | hzero) s hs ⟨-, hfin⟩
    · have hpos : 1 ≤ r.entriesPackets.length := by
        rw [Nat.one_le_iff_ne_zero, Ne, List.length_eq_zero_iff, hnil]
        omega
      rw [released, AfterAll.handedOver_of_allFinished hpos hlt (Scheduled.reachable h hs) hfin]
      simp
    · have hdel := (AfterAll.delivered_invariant hlt).of_reachable (Scheduled.reachable h hs)
      rw [released, hdel.handed, hbins.mpr hzero]
      split_ifs <;> rfl

/-- A table whose eight entries have all been deleted from the front. -/
def emptiedTable : SizeInfo := ⟨8, 8, 16, by decide, by decide, by decide⟩

/-- What the call makes of it: no entries packet, and one bins packet that waits. -/
def emptiedScheduled : Scheduled where
  entriesPackets := []
  afterAll := ⟨0, .vmRefClosure, [⟨"frozen strings", ⟨4096⟩, 0, 16⟩]⟩

theorem binsPackets_handedOver_iff_emptied :
    (∀ s, emptiedScheduled.protocol.Reachable s → EntriesDone s →
      released s = emptiedScheduled.binsPackets.map (Prod.mk .vmRefClosure)) ↔ 8 < 8 ∨ 16 = 0 :=
  binsPackets_handedOver_iff (show (frozenStrings 4096).processWeakTableChunked .release
    (RubyBinding.new none none) emptiedTable = .ok emptiedScheduled from rfl)

/-- The bins packet of that table is never handed over, although all entries packets (none) have
run. -/
theorem emptied_table_loses_bins :
    (frozenStrings 4096).processWeakTableChunked .release (RubyBinding.new none none)
        emptiedTable = .ok emptiedScheduled ∧
      ∃ s, emptiedScheduled.protocol.Reachable s ∧ EntriesDone s ∧
        released s = [] ∧ emptiedScheduled.binsPackets.length = 1 :=
  ⟨rfl, emptiedScheduled.beforePush, .init rfl, ⟨rfl, fun i => i.elim0⟩, rfl, rfl⟩

end WeakTable

end MmtkRuby
