import MmtkRuby.Binding
import MmtkRuby.Utils.AfterAll

/-!
# `process_weak_table_chunked`

A weak `st_table` is updated in two passes. The entries pass is cut into packets that go to the
`VMRefClosure` bucket at once; the packets of the bins pass are handed to an `AfterAll` that the
entries packets count down.
-/

namespace MmtkRuby

open Core

/-- A `*mut st_table`. -/
structure StTable where
  addr : ℕ
deriving DecidableEq, Repr

/-- What `st_get_size_info` reports about a table, in three `usize`s. -/
structure SizeInfo where
  entriesStart : ℕ
  entriesBound : ℕ
  binsNum : ℕ
  entriesStart_lt : entriesStart < usizeSize
  entriesBound_lt : entriesBound < usizeSize
  binsNum_lt : binsNum < usizeSize
deriving DecidableEq, Repr

/-- A packet of the entries pass. All packets of a table share one `AfterAll`. -/
structure UpdateTableEntriesParallel where
  name : String
  table : StTable
  beginIdx : ℕ
  endIdx : ℕ
  weakKeys : Bool
  weakValues : Bool
  forward : Bool
deriving DecidableEq, Repr

/-- A packet of the bins pass. -/
structure UpdateTableBinsParallel where
  name : String
  table : StTable
  beginIdx : ℕ
  endIdx : ℕ
deriving DecidableEq, Repr

/-- The entries that the packet passes to `st_update_entries_range`. -/
def UpdateTableEntriesParallel.span (p : UpdateTableEntriesParallel) : Span :=
  ⟨p.beginIdx, p.endIdx⟩

/-- The bins that the packet passes to `st_update_bins_range`. -/
def UpdateTableBinsParallel.span (p : UpdateTableBinsParallel) : Span :=
  ⟨p.beginIdx, p.endIdx⟩

/-- The arguments of one call of `process_weak_table_chunked`. -/
structure WeakTable where
  name : String
  table : StTable
  weakKeys : Bool
  weakValues : Bool
  forward : Bool
deriving DecidableEq, Repr

namespace WeakTable

variable (profile : Profile) (binding : RubyBinding) (t : WeakTable) (info : SizeInfo)

/-- The closure that builds the entries packet starting at `b`. -/
def entriesPacket (b : ℕ) : Except Panic UpdateTableEntriesParallel := do
  let e ← profile.add b binding.stEntriesChunkSize
  return {
    name := t.name
    table := t.table
    beginIdx := b
    endIdx := min e info.entriesBound
    weakKeys := t.weakKeys
    weakValues := t.weakValues
    forward := t.forward }

/-- The closure that builds the bins packet starting at `b`. -/
def binsPacket (b : ℕ) : Except Panic UpdateTableBinsParallel := do
  let e ← profile.add b binding.stBinsChunkSize
  return {
    name := t.name
    table := t.table
    beginIdx := b
    endIdx := min e info.binsNum }

/-- The frozen strings table, as `process_weak_stuff` passes it in a moving GC. -/
def frozenStrings (addr : ℕ) : WeakTable := ⟨"frozen strings", ⟨addr⟩, true, false, true⟩

/-- What a call leaves behind: the entries packets it added to the bucket, in order, and the
`AfterAll` they share. -/
structure Scheduled where
  entriesPackets : List UpdateTableEntriesParallel
  afterAll : AfterAll UpdateTableBinsParallel
deriving DecidableEq, Repr

/-- The bins packets that the call built. -/
def Scheduled.binsPackets (r : Scheduled) : List UpdateTableBinsParallel := r.afterAll.packets

/-- `entries_packets`. -/
def entriesPackets : Except Panic (List UpdateTableEntriesParallel) := do
  let begins ← stepBy info.entriesStart info.entriesBound binding.stEntriesChunkSize
  begins.mapM (t.entriesPacket profile binding info)

/-- `bins_packets`, cut at every `entries_chunk_size`-th bin. -/
def binsPackets : Except Panic (List UpdateTableBinsParallel) := do
  let begins ← stepBy 0 info.binsNum binding.stEntriesChunkSize
  begins.mapM (t.binsPacket profile binding info)

/-- `WeakProcessor::process_weak_table_chunked`, given what `st_get_size_info` reported. -/
def processWeakTableChunked : Except Panic Scheduled := do
  let afterAll := AfterAll.new .vmRefClosure
  let entriesPackets ← t.entriesPackets profile binding info
  let afterAll := afterAll.countUp entriesPackets.length
  let binsPackets ← t.binsPackets profile binding info
  let afterAll := afterAll.addPackets binsPackets
  return { entriesPackets, afterAll }

/-- No `begin + chunk_size` of the call exceeds `usize::MAX`. -/
structure NoOverflow : Prop where
  entries : ∀ b ∈ strided info.entriesStart info.entriesBound binding.stEntriesChunkSize,
    b + binding.stEntriesChunkSize < usizeSize
  bins : ∀ b ∈ strided 0 info.binsNum binding.stEntriesChunkSize,
    b + binding.stBinsChunkSize < usizeSize

variable {profile binding t info}

lemma entriesPackets_eq_ok_iff {packets : List UpdateTableEntriesParallel} :
    t.entriesPackets profile binding info = .ok packets ↔
      0 < binding.stEntriesChunkSize ∧
      List.Forall₂ (fun b p => t.entriesPacket profile binding info b = .ok p)
        (strided info.entriesStart info.entriesBound binding.stEntriesChunkSize) packets := by
  rw [entriesPackets, stepBy_bind_eq_ok_iff, mapM_eq_ok_iff]

lemma binsPackets_eq_ok_iff {packets : List UpdateTableBinsParallel} :
    t.binsPackets profile binding info = .ok packets ↔
      0 < binding.stEntriesChunkSize ∧
      List.Forall₂ (fun b p => t.binsPacket profile binding info b = .ok p)
        (strided 0 info.binsNum binding.stEntriesChunkSize) packets := by
  rw [binsPackets, stepBy_bind_eq_ok_iff, mapM_eq_ok_iff]

/-- A call that does not panic has built its packets and counted those of the entries. -/
lemma processWeakTableChunked_eq_ok_iff {r : Scheduled} :
    t.processWeakTableChunked profile binding info = .ok r ↔
      t.entriesPackets profile binding info = .ok r.entriesPackets ∧
      t.binsPackets profile binding info = .ok r.binsPackets ∧
      r.afterAll.counter = wrappingAdd 0 r.entriesPackets.length ∧
      r.afterAll.stage = .vmRefClosure := by
  obtain ⟨es', ⟨counter, stage, bs'⟩⟩ := r
  simp only [processWeakTableChunked, bind_eq_ok_iff]
  constructor
  · rintro ⟨es, hes, bs, hbs, hr⟩
    cases hr
    exact ⟨hes, hbs, rfl, rfl⟩
  · rintro ⟨hes, hbs, rfl, rfl⟩
    exact ⟨es', hes, bs', hbs, rfl⟩

end WeakTable

end MmtkRuby
