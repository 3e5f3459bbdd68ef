import MmtkRuby.WeakProc.Chunking

/-!
# Which chunk sizes are safe

The chunk sizes go from the environment into `step_by` and into `begin + chunk_size` without a
check. A call is safe when the stride is not zero, the packets are not empty, and the end of the
last packet is still a `usize` before it is clamped.
-/

namespace MmtkRuby

open Core

namespace WeakTable

/-- The packets have `begin < end`, and `end` is at most the bound of their table. -/
structure RangesOk (r : Scheduled) (info : SizeInfo) : Prop where
  entries : ∀ p ∈ r.entriesPackets, p.beginIdx < p.endIdx ∧ p.endIdx ≤ info.entriesBound
  bins : ∀ p ∈ r.binsPackets, p.beginIdx < p.endIdx ∧ p.endIdx ≤ info.binsNum

/-- The call neither overflows nor panics, and the packets that it builds are well formed. -/
def ChunkingSafe (profile : Profile) (binding : RubyBinding) (t : WeakTable) (info : SizeInfo) :
    Prop :=
  NoOverflow binding info ∧
  ∃ r, t.processWeakTableChunked profile binding info = .ok r ∧ RangesOk r info

/-- The chunk sizes suit the table: the stride is positive, and, where there is anything to cut,
the last packet neither overflows nor, for the bins, is empty. -/
structure ChunkSizesFit (binding : RubyBinding) (info : SizeInfo) : Prop where
  stride_pos : 1 ≤ binding.stEntriesChunkSize
  entries : info.entriesStart < info.entriesBound →
    lastStrided info.entriesStart info.entriesBound binding.stEntriesChunkSize +
      binding.stEntriesChunkSize < usizeSize
  bins : 0 < info.binsNum → 1 ≤ binding.stBinsChunkSize ∧
    lastStrided 0 info.binsNum binding.stEntriesChunkSize + binding.stBinsChunkSize < usizeSize

variable {binding : RubyBinding} {info : SizeInfo}

lemma noOverflow_iff (hpos : 0 < binding.stEntriesChunkSize) :
    NoOverflow binding info ↔
      (info.entriesStart < info.entriesBound →
        lastStrided info.entriesStart info.entriesBound binding.stEntriesChunkSize +
          binding.stEntriesChunkSize < usizeSize) ∧
      (0 < info.binsNum → lastStrided 0 info.binsNum binding.stEntriesChunkSize +
        binding.stBinsChunkSize < usizeSize) := by
  rw [← forall_strided_add_lt_iff hpos, ← forall_strided_add_lt_iff hpos]
  exact ⟨fun h => ⟨h.entries, h.bins⟩, fun h => ⟨h.1, h.2⟩⟩

/-- Pieces of a positive width are well-formed ranges. -/
lemma pieces_range {stride width lo hi : ℕ} (hstride : 0 < stride) (hwidth : 0 < width) :
    ∀ s ∈ pieces stride width lo hi, s.lo < s.hi ∧ s.hi ≤ hi := by
  intro s hs
  obtain ⟨b, hb, rfl⟩ := List.mem_map.mp hs
  have := mem_strided hstride hb
  simp only [clampedSpan]
  omega

/-- Pieces of width zero are empty ranges, and there is one as soon as there is an index. -/
lemma width_pos_of_pieces_range {stride width lo hi : ℕ} (hstride : 0 < stride) (hlt : lo < hi)
    (h : ∀ s ∈ pieces stride width lo hi, s.lo < s.hi) : 0 < width := by
  have hfirst : clampedSpan width hi lo ∈ pieces stride width lo hi := by
    refine List.mem_map_of_mem ?_
    rw [strided_of_lt hstride hlt]
    exact List.mem_cons_self ..
  have := h _ hfirst
  simp only [clampedSpan] at this
  omega

/-- In a call without overflow, the ranges of all packets are pieces. -/
lemma spans_of_noOverflow (profile : Profile) (t : WeakTable)
    (hpos : 0 < binding.stEntriesChunkSize) (hov : NoOverflow binding info) {r : Scheduled}
    (h : t.processWeakTableChunked profile binding info = .ok r) :
    r.entriesPackets.map (·.span) = pieces binding.stEntriesChunkSize binding.stEntriesChunkSize
        info.entriesStart info.entriesBound ∧
      r.binsPackets.map (·.span) =
        pieces binding.stEntriesChunkSize binding.stBinsChunkSize 0 info.binsNum := by
  obtain ⟨hentries, hbins, -, -⟩ := processWeakTableChunked_eq_ok_iff.mp h
  rw [entriesPackets_eq_ok profile t hpos hov.entries, Except.ok.injEq] at hentries
  rw [binsPackets_eq_ok profile t hpos hov.bins, Except.ok.injEq] at hbins
  rw [← hentries, ← hbins]
  simp [Function.comp_def]

/-- Whatever the environment says, the call is safe exactly when the resulting chunk sizes fit the
table. -/
theorem chunkingSafe_iff (profile : Profile) (entriesVar binsVar : Option String) (t : WeakTable)
    (info : SizeInfo) :
    ChunkingSafe profile (RubyBinding.new entriesVar binsVar) t info ↔
      ChunkSizesFit (RubyBinding.new entriesVar binsVar) info := by
  generalize RubyBinding.new entriesVar binsVar = binding
  constructor
  · rintro ⟨hov, r, hr, hok⟩
    have hpos := (entriesPackets_eq_ok_iff.mp (processWeakTableChunked_eq_ok_iff.mp hr).1).1
    obtain ⟨-, hspans⟩ := spans_of_noOverflow profile t hpos hov hr
    obtain ⟨hentries, hbins⟩ := (noOverflow_iff hpos).mp hov
    refine ⟨hpos, hentries, fun hlt => ⟨?_, hbins hlt⟩⟩
    refine width_pos_of_pieces_range hpos hlt fun s hs => ?_
    rw [← hspans] at hs
    obtain ⟨p, hp, rfl⟩ := List.mem_map.mp hs
    exact (hok.bins p hp).1
  · rintro ⟨hpos, hentries, hbins⟩
    have hov : NoOverflow binding info :=
      (noOverflow_iff hpos).mpr ⟨hentries, fun hlt => (hbins hlt).2⟩
    obtain ⟨r, hr, -⟩ := exists_processWeakTableChunked_eq_ok profile t hpos hov
    obtain ⟨hspansE, hspansB⟩ := spans_of_noOverflow profile t hpos hov hr
    refine ⟨hov, r, hr, ?_, ?_⟩
    · intro p hp
      have hs : p.span ∈ r.entriesPackets.map (·.span) := List.mem_map_of_mem hp
      rw [hspansE] at hs
      exact pieces_range hpos hpos _ hs
    · intro p hp
      have hs : p.span ∈ r.binsPackets.map (·.span) := List.mem_map_of_mem hp
      rw [hspansB] at hs
      -- there is a packet, so there are bins
      have hlt : 0 < info.binsNum := by
        by_contra hnone
        rw [pieces, strided_of_le hpos (by omega)] at hs
        simp at hs
      exact pieces_range hpos (hbins hlt).1 _ hs

/-- A table of one entry and five bins. -/
def smallTable : SizeInfo := ⟨2, 3, 5, by decide, by decide, by decide⟩

/-- With `RUBY_MMTK_ENTRIES_CHUNK_SIZE=0`, every call panics in `step_by`. -/
theorem zero_chunk_size_panics :
    RubyBinding.new (some "0") none = ⟨0, 4096⟩ ∧
    smallTable.entriesStart ≤ smallTable.entriesBound ∧
    (frozenStrings 4096).processWeakTableChunked .release (RubyBinding.new (some "0") none)
      smallTable = .error .stepByZero ∧
    ¬ ChunkingSafe .release (RubyBinding.new (some "0") none) (frozenStrings 4096)
      smallTable := by
  have hpanic : (frozenStrings 4096).processWeakTableChunked .release
      (RubyBinding.new (some "0") none) smallTable = .error .stepByZero := by decide
  refine ⟨by decide, by decide, hpanic, ?_⟩
  rintro ⟨-, r, hr, -⟩
  rw [hpanic] at hr
  cases hr

end WeakTable

end MmtkRuby
