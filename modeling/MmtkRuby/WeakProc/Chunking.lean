import MmtkRuby.WeakProc.WeakTable

/-!
# How a weak table is cut into packets

Without overflow, the ranges of the packets are the pieces of `[entries_start, entries_bound)` and
of `[0, bins_num)`. The entries are cut at the chunk size that is also the width of their packets,
so they are covered exactly. The bins are cut at that same stride but their packets are
`st_bins_chunk_size` wide.
-/

namespace MmtkRuby

open Core

namespace WeakTable

variable {binding : RubyBinding} {info : SizeInfo}

/-- The entries packet for a given span. -/
def entriesPacketFor (t : WeakTable) (s : Span) : UpdateTableEntriesParallel where
  name := t.name
  table := t.table
  beginIdx := s.lo
  endIdx := s.hi
  weakKeys := t.weakKeys
  weakValues := t.weakValues
  forward := t.forward

/-- The bins packet for a given span. -/
def binsPacketFor (t : WeakTable) (s : Span) : UpdateTableBinsParallel where
  name := t.name
  table := t.table
  beginIdx := s.lo
  endIdx := s.hi

@[simp] lemma span_entriesPacketFor (t : WeakTable) (s : Span) :
    (t.entriesPacketFor s).span = s := rfl

@[simp] lemma span_binsPacketFor (t : WeakTable) (s : Span) : (t.binsPacketFor s).span = s := rfl

/-- The entries packets of a call differ in their spans only. -/
lemma entriesPacketFor_span {profile : Profile} {t : WeakTable}
    {packets : List UpdateTableEntriesParallel}
    (h : t.entriesPackets profile binding info = .ok packets) :
    ∀ p ∈ packets, t.entriesPacketFor p.span = p := by
  intro p hp
  obtain ⟨b, -, hb⟩ := exists_related_of_mem (entriesPackets_eq_ok_iff.mp h).2.flip p hp
  obtain ⟨e, -, he⟩ := bind_eq_ok_iff.mp hb
  cases he
  rfl

/-- Likewise for the bins packets. -/
lemma binsPacketFor_span {profile : Profile} {t : WeakTable}
    {packets : List UpdateTableBinsParallel}
    (h : t.binsPackets profile binding info = .ok packets) :
    ∀ p ∈ packets, t.binsPacketFor p.span = p := by
  intro p hp
  obtain ⟨b, -, hb⟩ := exists_related_of_mem (binsPackets_eq_ok_iff.mp h).2.flip p hp
  obtain ⟨e, -, he⟩ := bind_eq_ok_iff.mp hb
  cases he
  rfl

/-- If no addition overflows, there is one entries packet for each piece of the entries. -/
lemma entriesPackets_eq_ok (profile : Profile) (t : WeakTable)
    (hpos : 0 < binding.stEntriesChunkSize)
    (hov : ∀ b ∈ strided info.entriesStart info.entriesBound binding.stEntriesChunkSize,
      b + binding.stEntriesChunkSize < usizeSize) :
    t.entriesPackets profile binding info = .ok ((pieces binding.stEntriesChunkSize
      binding.stEntriesChunkSize info.entriesStart info.entriesBound).map t.entriesPacketFor) := by
  rw [entriesPackets_eq_ok_iff, pieces, List.map_map, List.forall₂_map_right_iff,
    List.forall₂_same]
  refine ⟨hpos, fun b hb => ?_⟩
  simp [entriesPacket, entriesPacketFor, clampedSpan, Profile.add_of_lt profile (hov b hb), bind,
    Except.bind, pure, Except.pure]

/-- Likewise, one bins packet for each piece of the bins. -/
lemma binsPackets_eq_ok (profile : Profile) (t : WeakTable)
    (hpos : 0 < binding.stEntriesChunkSize)
    (hov : ∀ b ∈ strided 0 info.binsNum binding.stEntriesChunkSize,
      b + binding.stBinsChunkSize < usizeSize) :
    t.binsPackets profile binding info = .ok ((pieces binding.stEntriesChunkSize
      binding.stBinsChunkSize 0 info.binsNum).map t.binsPacketFor) := by
  rw [binsPackets_eq_ok_iff, pieces, List.map_map, List.forall₂_map_right_iff, List.forall₂_same]
  refine ⟨hpos, fun b hb => ?_⟩
  simp [binsPacket, binsPacketFor, clampedSpan, Profile.add_of_lt profile (hov b hb), bind,
    Except.bind, pure, Except.pure]

/-- A call whose additions stay in range returns, and the ranges of its bins packets are the
pieces of the bins. -/
lemma exists_processWeakTableChunked_eq_ok (profile : Profile) (t : WeakTable)
    (hpos : 0 < binding.stEntriesChunkSize) (hov : NoOverflow binding info) :
    ∃ r, t.processWeakTableChunked profile binding info = .ok r ∧
      r.binsPackets.map (·.span) = pieces binding.stEntriesChunkSize
        binding.stBinsChunkSize 0 info.binsNum := by
  have hentries := entriesPackets_eq_ok profile t hpos hov.entries
  have hbins := binsPackets_eq_ok profile t hpos hov.bins
  generalize hes : List.map t.entriesPacketFor _ = es at hentries
  generalize hbs : List.map t.binsPacketFor _ = bs at hbins
  refine ⟨⟨es, ⟨wrappingAdd 0 es.length, .vmRefClosure, bs⟩⟩, ?_, ?_⟩
  · exact processWeakTableChunked_eq_ok_iff.mpr ⟨hentries, hbins, rfl, rfl⟩
  · simp [Scheduled.binsPackets, ← hbs, Function.comp_def]

/-- Every bin index below `binsNum`, and no other, is in the range of a packet, of only one, and
no packet is empty. -/
structure BinsExactlyOnce (packets : List UpdateTableBinsParallel) (binsNum : ℕ) : Prop where
  cover : ExactCover (packets.map (·.span)) 0 binsNum
  once : ∀ i < binsNum, packets.countP (fun p => decide (i ∈ p.span.indices)) = 1

lemma binsExactlyOnce_iff {packets : List UpdateTableBinsParallel} {binsNum : ℕ} :
    BinsExactlyOnce packets binsNum ↔ ExactCover (packets.map (·.span)) 0 binsNum := by
  refine ⟨fun h => h.cover, fun h => ⟨h, fun i hi => ?_⟩⟩
  have hone := h.countP_eq_one (Finset.mem_Ico.mpr ⟨Nat.zero_le i, hi⟩)
  rwa [List.countP_map] at hone

/-- The bins are covered exactly when both chunk sizes agree, or when the table has no more bins
than either. -/
theorem binsExactlyOnce_iff_chunk_sizes (profile : Profile) (binding : RubyBinding)
    (t : WeakTable) (info : SizeInfo) (hentries : 1 ≤ binding.stEntriesChunkSize)
    (hbins : 1 ≤ binding.stBinsChunkSize) (hov : NoOverflow binding info) :
    ∃ r, t.processWeakTableChunked profile binding info = .ok r ∧
      (BinsExactlyOnce r.binsPackets info.binsNum ↔
        binding.stEntriesChunkSize = binding.stBinsChunkSize ∨
        (info.binsNum ≤ binding.stEntriesChunkSize ∧
          info.binsNum ≤ binding.stBinsChunkSize)) := by
  obtain ⟨r, hr, hspans⟩ :=
    exists_processWeakTableChunked_eq_ok profile t hentries hov
  refine ⟨r, hr, ?_⟩
  rw [binsExactlyOnce_iff, hspans, exactCover_pieces_iff hentries hbins (Nat.zero_le _)]
  simp only [Nat.zero_add]

/-- A table of 1000 entries and 2048 bins. -/
def largeTable : SizeInfo := ⟨0, 1000, 2048, by decide, by decide, by decide⟩

lemma noOverflow_largeTable : NoOverflow (RubyBinding.new none none) largeTable :=
  ⟨by decide, by decide⟩

theorem binsExactlyOnce_iff_chunk_sizes_default :
    ∃ r, (frozenStrings 4096).processWeakTableChunked .release (RubyBinding.new none none)
        largeTable = .ok r ∧
      (BinsExactlyOnce r.binsPackets 2048 ↔ 1024 = 4096 ∨ (2048 ≤ 1024 ∧ 2048 ≤ 4096)) :=
  binsExactlyOnce_iff_chunk_sizes .release (RubyBinding.new none none) (frozenStrings 4096)
    largeTable (by decide) (by decide) noOverflow_largeTable

/-- With the default sizes, bin 1024 of that table is in the ranges `[0, 2048)` and
`[1024, 2048)`. -/
theorem default_sizes_overlap :
    1 ≤ (RubyBinding.new none none).stEntriesChunkSize ∧
    1 ≤ (RubyBinding.new none none).stBinsChunkSize ∧
    NoOverflow (RubyBinding.new none none) largeTable ∧
    ∃ r, (frozenStrings 4096).processWeakTableChunked .release (RubyBinding.new none none)
        largeTable = .ok r ∧
      r.binsPackets.map (·.span) = [⟨0, 2048⟩, ⟨1024, 2048⟩] ∧
      ¬ BinsExactlyOnce r.binsPackets largeTable.binsNum := by
  obtain ⟨r, hr, hspans⟩ := exists_processWeakTableChunked_eq_ok .release
    (frozenStrings 4096) (by decide) noOverflow_largeTable
  refine ⟨by decide, by decide, noOverflow_largeTable, r, hr, hspans.trans (by decide), ?_⟩
  intro h
  have hcover := h.cover
  rw [hspans] at hcover
  exact not_exactCover_of_ne (by decide) (by decide) (by decide) (by decide) hcover

end WeakTable

end MmtkRuby
