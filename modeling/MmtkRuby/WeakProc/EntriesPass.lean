import Mathlib
import MmtkRuby.Core.RangeUpdate
import MmtkRuby.WeakProc.Chunking

/-!
# The entries pass of a weak table

`UpdateTableEntriesParallel::do_work` calls `st_update_entries_range`, which is C code. It is a
parameter here, assumed to treat every entry of its range by itself. The packets of a table then
have, in any order, the effect of a single call.
-/

namespace MmtkRuby

open Core

/-- `st_update_entries_range(table, begin, end, weak_keys, weak_values, forward)` on the entries
of the table: what it leaves of them, and the number it returns. -/
abbrev StUpdateEntriesRange (E : Type*) :=
  StTable → ℕ → ℕ → Bool → Bool → Bool → (ℕ → E) → (ℕ → E) × ℕ

/-- Each entry `i` with `begin ≤ i < end` is read and written by itself, and the deleted entries
are counted. -/
def IndexLocal {E : Type*} (stUpdateEntriesRange : StUpdateEntriesRange E) : Prop :=
  ∀ table weakKeys weakValues forward, ∃ u : LocalUpdate ℕ E, ∀ beginIdx endIdx a,
    stUpdateEntriesRange table beginIdx endIdx weakKeys weakValues forward a
      = u.on (Finset.Ico beginIdx endIdx) a

/-- What the packets of one table work on. -/
structure EntriesPass (E : Type*) where
  entries : ℕ → E
  afterAll : AfterAll UpdateTableBinsParallel
  /-- the packets that `count_down` has added to the bucket -/
  vmRefClosure : List UpdateTableBinsParallel
  /-- the `deleted_entries` of the packets that have run -/
  deletedEntries : List ℕ

section DoWork

variable {E : Type*} (stUpdateEntriesRange : StUpdateEntriesRange E)

/-- `UpdateTableEntriesParallel::do_work`. -/
def UpdateTableEntriesParallel.doWork (p : UpdateTableEntriesParallel) (s : EntriesPass E) :
    EntriesPass E :=
  let (entries, deletedEntries) := stUpdateEntriesRange p.table p.beginIdx p.endIdx p.weakKeys
    p.weakValues p.forward s.entries
  let (_isLast, packets, afterAll) := s.afterAll.countDown
  { entries
    afterAll
    vmRefClosure := s.vmRefClosure ++ packets
    deletedEntries := s.deletedEntries ++ [deletedEntries] }

namespace EntriesPass

/-- The packets run in the order in which they are listed. -/
def run (order : List UpdateTableEntriesParallel) (s : EntriesPass E) : EntriesPass E :=
  order.foldl (fun s p => p.doWork stUpdateEntriesRange s) s

variable {stUpdateEntriesRange}

/-- Packets of the table `t` update the entries span by span. -/
lemma run_eq_onEach {t : WeakTable} {u : LocalUpdate ℕ E}
    (hu : ∀ beginIdx endIdx a, stUpdateEntriesRange t.table beginIdx endIdx t.weakKeys
      t.weakValues t.forward a = u.on (Finset.Ico beginIdx endIdx) a)
    (spans : List Span) (s : EntriesPass E) :
    ((run stUpdateEntriesRange (spans.map t.entriesPacketFor) s).entries,
      (run stUpdateEntriesRange (spans.map t.entriesPacketFor) s).deletedEntries.sum)
      = ((u.onEach (spans.map Span.indices) s.entries).1,
        s.deletedEntries.sum + (u.onEach (spans.map Span.indices) s.entries).2) := by
  induction spans generalizing s with
  | nil => rfl
  | cons span spans ih =>
    have hstep : (t.entriesPacketFor span).doWork stUpdateEntriesRange s =
        { entries := (u.on span.indices s.entries).1
          afterAll := s.afterAll.countDown.2.2
          vmRefClosure := s.vmRefClosure ++ s.afterAll.countDown.2.1
          deletedEntries := s.deletedEntries ++ [(u.on span.indices s.entries).2] } := by
      simp only [UpdateTableEntriesParallel.doWork, WeakTable.entriesPacketFor, hu]
      rfl
    have hih := ih ((t.entriesPacketFor span).doWork stUpdateEntriesRange s)
    simp only [run, List.map_cons, List.foldl_cons] at hih ⊢
    rw [hih, hstep]
    simp only [LocalUpdate.onEach, List.sum_append, List.sum_singleton, Nat.add_assoc]

end EntriesPass

/-- The state `s'` is what one call on the whole of the entries would have made of `s`, and the
packets have shared that work without overlap. -/
structure RefinesSingleCall (t : WeakTable) (info : SizeInfo)
    (packets : List UpdateTableEntriesParallel) (s s' : EntriesPass E) : Prop where
  entries : s'.entries = (stUpdateEntriesRange t.table info.entriesStart info.entriesBound
    t.weakKeys t.weakValues t.forward s.entries).1
  deleted : s'.deletedEntries.sum = s.deletedEntries.sum + (stUpdateEntriesRange t.table
    info.entriesStart info.entriesBound t.weakKeys t.weakValues t.forward s.entries).2
  cover : ExactCover (packets.map (·.span)) info.entriesStart info.entriesBound
  untouched : ∀ i, i ∉ Finset.Ico info.entriesStart info.entriesBound →
    s'.entries i = s.entries i

end DoWork

namespace WeakTable

/-- The entries packets, run in any order, refine the single call on all the entries. -/
theorem entriesPackets_refine_single_call {E : Type*}
    {stUpdateEntriesRange : StUpdateEntriesRange E} (hlocal : IndexLocal stUpdateEntriesRange)
    (profile : Profile) (binding : RubyBinding) (t : WeakTable) (info : SizeInfo)
    (hle : info.entriesStart ≤ info.entriesBound) (hpos : 1 ≤ binding.stEntriesChunkSize)
    (hmax : info.entriesBound + binding.stEntriesChunkSize < usizeSize) :
    ∃ packets, t.entriesPackets profile binding info = .ok packets ∧
      (∀ r, t.processWeakTableChunked profile binding info = .ok r →
        r.entriesPackets = packets) ∧
      ∀ order, order.Perm packets → ∀ s : EntriesPass E,
        RefinesSingleCall stUpdateEntriesRange t info order s
          (EntriesPass.run stUpdateEntriesRange order s) := by
  have hov : ∀ b ∈ strided info.entriesStart info.entriesBound binding.stEntriesChunkSize,
      b + binding.stEntriesChunkSize < usizeSize := by
    intro b hb
    have := mem_strided hpos hb
    omega
  have hpackets := entriesPackets_eq_ok profile t hpos hov
  refine ⟨_, hpackets, fun r hr => ?_, fun order hperm s => ?_⟩
  · have hr := (processWeakTableChunked_eq_ok_iff.mp hr).1
    rw [hpackets, Except.ok.injEq] at hr
    exact hr.symm
  · obtain ⟨u, hu⟩ := hlocal t.table t.weakKeys t.weakValues t.forward
    -- a permuted list of packets is the list of the packets of permuted spans
    obtain ⟨spans, hspans, rfl⟩ : ∃ spans : List Span, spans.Perm (pieces binding.stEntriesChunkSize
        binding.stEntriesChunkSize info.entriesStart info.entriesBound) ∧
        spans.map t.entriesPacketFor = order := by
      refine ⟨order.map (·.span), ?_, ?_⟩
      · simpa [Function.comp_def] using hperm.map (·.span)
      · have hsame : ∀ p ∈ order, (t.entriesPacketFor ∘ fun p => p.span) p = id p := by
          intro p hp
          obtain ⟨span, -, rfl⟩ := List.mem_map.mp (hperm.mem_iff.mp hp)
          rfl
        rw [List.map_map, List.map_congr_left hsame, List.map_id]
    have hcover := (pieces_tiles hpos hle).exactCover.perm hspans.symm
    have hrun := EntriesPass.run_eq_onEach hu spans s
    rw [hcover.onEach, Prod.mk.injEq] at hrun
    obtain ⟨hentries, hdeleted⟩ := hrun
    refine ⟨?_, ?_, ?_, ?_⟩
    · rw [hu]
      exact hentries
    · rw [hu]
      exact hdeleted
    · simpa [Function.comp_def] using hcover
    · intro i hi
      rw [hentries]
      exact LocalUpdate.on_of_notMem hi

/-- A weak set of addresses, of which the odd ones are dead and the others move by 64. -/
def weakSetUpdate (weakKeys forward : Bool) : LocalUpdate ℕ (Option ℕ) where
  update _ entry := entry.bind fun addr =>
    if weakKeys && addr % 2 == 1 then none
    else if forward then some (addr + 64)
    else some addr
  deletes _ entry := entry.any fun addr => weakKeys && addr % 2 == 1

def updateWeakSet : StUpdateEntriesRange (Option ℕ) :=
  fun _ beginIdx endIdx weakKeys _ forward a =>
    (weakSetUpdate weakKeys forward).on (Finset.Ico beginIdx endIdx) a

/-- A table whose first ten entries are gone, with three packets' worth of entries left. -/
def shiftedTable : SizeInfo := ⟨10, 3000, 4096, by decide, by decide, by decide⟩

theorem entriesPackets_refine_single_call_weakSet :
    ∃ packets, (frozenStrings 4096).entriesPackets .debug (RubyBinding.new none none)
        shiftedTable = .ok packets ∧
      (∀ r, (frozenStrings 4096).processWeakTableChunked .debug (RubyBinding.new none none)
        shiftedTable = .ok r → r.entriesPackets = packets) ∧
      ∀ order, order.Perm packets → ∀ s : EntriesPass (Option ℕ),
        RefinesSingleCall updateWeakSet (frozenStrings 4096) shiftedTable order s
          (EntriesPass.run updateWeakSet order s) :=
  entriesPackets_refine_single_call
    (fun _ weakKeys _ forward => ⟨weakSetUpdate weakKeys forward, fun _ _ _ => rfl⟩)
    .debug (RubyBinding.new none none) (frozenStrings 4096) shiftedTable (by decide) (by decide)
    (by decide)

end WeakTable

end MmtkRuby
