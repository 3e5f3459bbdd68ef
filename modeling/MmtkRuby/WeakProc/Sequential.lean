import MmtkRuby.Core.SerialRun
import MmtkRuby.Ppp.Balance
import MmtkRuby.WeakProc.Confluence

/-!
# What weak processing comes to

A single worker can execute the packets of weak processing one after the other. What it leaves is
easy to say: every list is filtered and forwarded, and every table is updated by one call on all its
entries and one on all its bins. Since the packets commute, all runs of the stage leave that.
-/

namespace MmtkRuby

open Core

namespace WeakRefs

variable {E B G : Type} {env : Env E B G}

/-! ### The outcome -/

/-- Updating a range of bins a second time changes nothing. -/
def BinsRepeatable (stUpdateBinsRange : StUpdateBinsRange E B) : Prop :=
  ∀ table beginIdx endIdx entries bins,
    (stUpdateBinsRange table beginIdx endIdx entries
      (stUpdateBinsRange table beginIdx endIdx entries bins).1).1 =
        (stUpdateBinsRange table beginIdx endIdx entries bins).1

/-- The bins packets leave no gap, and overlap only if bins may be updated repeatedly. -/
def BinsSuit (env : Env E B G) : Prop :=
  env.binding.stEntriesChunkSize = env.binding.stBinsChunkSize ∨
    env.binding.stEntriesChunkSize ≤ env.binding.stBinsChunkSize ∧
      BinsRepeatable env.upcalls.stUpdateBinsRange

/-- What one call of `st_update_entries_range` on the whole table makes of the entries. -/
def Env.updateEntries (env : Env E B G) (t : ChunkedTable) (entries : ℕ → E) : (ℕ → E) × ℕ :=
  env.upcalls.stUpdateEntriesRange (env.weakTable t).table
    (env.upcalls.stGetSizeInfo t).entriesStart (env.upcalls.stGetSizeInfo t).entriesBound
    (env.weakTable t).weakKeys (env.weakTable t).weakValues (env.weakTable t).forward entries

/-- What one call of `st_update_bins_range` on the whole table makes of the bins. -/
def Env.updateBins (env : Env E B G) (t : ChunkedTable) (entries : ℕ → E) (bins : ℕ → B) : ℕ → B :=
  (env.upcalls.stUpdateBinsRange (env.weakTable t).table 0 (env.upcalls.stGetSizeInfo t).binsNum
    entries bins).1

/-- What the stage makes of a chunked table. The bins are forgotten when there is no entry. -/
structure TableOutcome (env : Env E B G) (t : ChunkedTable) (x y : ChunkedTableState E B) :
    Prop where
  entries : y.entries = (env.updateEntries t x.entries).1
  deletedEntries : y.deletedEntries = x.deletedEntries + (env.updateEntries t x.entries).2
  bins : (env.upcalls.stGetSizeInfo t).entriesStart < (env.upcalls.stGetSizeInfo t).entriesBound →
    BinsSuit env → y.bins = env.updateBins t y.entries x.bins
  forgotten : (env.upcalls.stGetSizeInfo t).entriesBound ≤
    (env.upcalls.stGetSizeInfo t).entriesStart → y.bins = x.bins

/-- What the stage makes of its state `x`. -/
structure Outcome (env : Env E B G) (x y : (i : Component) → State E B G i) : Prop where
  objFree : y .weakProc = {
    weakProc := (ProcessObjFreeCandidates.doWork env.traced (x .weakProc).weakProc).1
    freed := (x .weakProc).freed +
      (ProcessObjFreeCandidates.doWork env.traced (x .weakProc).weakProc).2 }
  givtbls : ∀ order : DrainOrder (x .givtbls).movedGivtbl,
    y .givtbls = {
      movedGivtbl := (WeakProcessor.updateGenericIvTbl env.upcalls.givtbl env.traced order
        (x .givtbls).genericIvTbl).1
      genericIvTbl := (WeakProcessor.updateGenericIvTbl env.upcalls.givtbl env.traced order
        (x .givtbls).genericIvTbl).2 }
  globalTables : ∀ g, y (.globalTable g) = env.upcalls.updateGlobalTable g (x (.globalTable g))
  wbUnprotectedObjects : y .wbUnprotectedObjects =
    ((x .wbUnprotectedObjects).filter fun object => env.traced.isReachable object = true).image
      (ObjectReference.forward env.traced)
  ppps : (y .pppRegistry).ppps =
    (RemoveDeadPPPs.doWork env.traced env.upcalls.isNoLongerPpp (x .pppRegistry)).2.ppps
  pinnedPppChildren : (y .pppRegistry).pinnedPppChildren =
    if env.currentGcMayMoveObject then [] else (x .pppRegistry).pinnedPppChildren
  pinBits : ∀ object, y .pinBits object = true ↔ x .pinBits object = true ∧
    ¬ (env.currentGcMayMoveObject = true ∧ object ∈ (x .pppRegistry).pinnedPppChildren)
  tables : ∀ t, TableOutcome env t (x (.chunkedTable t)) (y (.chunkedTable t))

/-! ### The tables -/

/-- The bins packets of a list, one after the other. -/
def binsPass (stUpdateBinsRange : StUpdateBinsRange E B) (entries : ℕ → E)
    (packets : List UpdateTableBinsParallel) (bins : ℕ → B) : ℕ → B :=
  packets.foldl (fun bins p => (stUpdateBinsRange p.table p.beginIdx p.endIdx entries bins).1) bins

section Tables

variable {t : ChunkedTable} {s : (i : Component) → State E B G i}

lemma serialRun_bins (env : Env E B G) (t : ChunkedTable)
    (packets : List UpdateTableBinsParallel) (s : (i : Component) → State E B G i) :
    (bucket env).SerialRun s (packets.map (.updateTableBinsParallel t))
      (Function.update s (.chunkedTable t) { s (.chunkedTable t) with
        bins := binsPass env.upcalls.stUpdateBinsRange (s (.chunkedTable t)).entries packets
          (s (.chunkedTable t)).bins }) := by
  induction packets generalizing s with
  | nil =>
    have hsame : Function.update s (.chunkedTable t) (s (.chunkedTable t)) = s :=
      Function.update_eq_self _ _
    exact hsame.symm ▸ .nil s
  | cons p packets ih =>
    refine .cons_zero .updateTableBinsParallel ?_
    have hrest := ih (Function.update s (.chunkedTable t) { s (.chunkedTable t) with
      bins := (env.upcalls.stUpdateBinsRange p.table p.beginIdx p.endIdx
        (s (.chunkedTable t)).entries (s (.chunkedTable t)).bins).1 })
    rw [Function.update_idem, Function.update_self] at hrest
    exact hrest

/-- A count that is not the last one, and the last one, of packets that are all counted. -/
lemma countDown_eq {P : Type} {a : AfterAll P} {n : ℕ} (hcounter : a.counter = n + 1) :
    a.countDown = if n = 0 then (true, a.packets, ⟨0, a.stage, []⟩)
      else (false, [], { a with counter := n }) := by
  by_cases hn : n = 0
  · simp [AfterAll.countDown, AfterAll.fetchSub, AfterAll.takePackets, hcounter, wrappingSub, hn]
  · simp [AfterAll.countDown, AfterAll.fetchSub, hcounter, wrappingSub, hn]

/-- What the entries packets of a table, and the bins packets that the last one releases, make
of it. -/
structure PacketsOutcome (env : Env E B G) (u : LocalUpdate ℕ E)
    (packets : List UpdateTableEntriesParallel) (x y : ChunkedTableState E B) : Prop where
  entries : y.entries = (u.onEach (packets.map (·.span.indices)) x.entries).1
  deletedEntries : y.deletedEntries =
    x.deletedEntries + (u.onEach (packets.map (·.span.indices)) x.entries).2
  bins : packets ≠ [] →
    y.bins = binsPass env.upcalls.stUpdateBinsRange y.entries x.afterAll.packets x.bins
  forgotten : packets = [] → y.bins = x.bins

lemma serialRun_entries {u : LocalUpdate ℕ E}
    (hu : ∀ beginIdx endIdx a, env.upcalls.stUpdateEntriesRange (env.weakTable t).table beginIdx
      endIdx (env.weakTable t).weakKeys (env.weakTable t).weakValues (env.weakTable t).forward a =
        u.on (Finset.Ico beginIdx endIdx) a)
    {packets : List UpdateTableEntriesParallel}
    (hpackets : ∀ p ∈ packets, (env.weakTable t).entriesPacketFor p.span = p)
    (s : (i : Component) → State E B G i)
    (hcounter : (s (.chunkedTable t)).afterAll.counter = packets.length) :
    ∃ y, PacketsOutcome env u packets (s (.chunkedTable t)) y ∧
      (bucket env).SerialRun s (packets.map (.updateTableEntriesParallel t))
        (Function.update s (.chunkedTable t) y) := by
  induction packets generalizing s with
  | nil =>
    refine ⟨s (.chunkedTable t), ⟨rfl, rfl, fun hne => absurd rfl hne, fun _ => rfl⟩, ?_⟩
    rw [Function.update_eq_self]
    exact .nil s
  | cons p packets ih =>
    set x := s (.chunkedTable t) with hx
    obtain ⟨hp, hrest⟩ := List.forall_mem_cons.mp hpackets
    have hafter := afterEntries_doWork hu hp x
    have hdown := countDown_eq (hcounter.trans (List.length_cons ..))
    have hexec : (bucket env).exec (.chunkedTable t) (.updateTableEntriesParallel t p) x _
        (x.afterAll.countDown.2.1.map (Packet.updateTableBinsParallel t) : List Packet) :=
      .updateTableEntriesParallel
    rw [hafter] at hexec
    by_cases hlast : packets = []
    · -- the last packet releases the bins packets
      subst hlast
      rw [hdown] at hexec
      refine ⟨{
        entries := (u.on p.span.indices x.entries).1
        bins := binsPass env.upcalls.stUpdateBinsRange (u.on p.span.indices x.entries).1
          x.afterAll.packets x.bins
        deletedEntries := x.deletedEntries + (u.on p.span.indices x.entries).2
        afterAll := ⟨0, x.afterAll.stage, []⟩ },
        ⟨rfl, ?_, fun _ => rfl, fun hnil => absurd hnil (by simp)⟩, .cons hexec ?_⟩
      · simp [LocalUpdate.onEach]
      · have hbins := serialRun_bins env t x.afterAll.packets
          (Function.update s (.chunkedTable t) { x with
            entries := (u.on p.span.indices x.entries).1
            deletedEntries := x.deletedEntries + (u.on p.span.indices x.entries).2
            afterAll := ⟨0, x.afterAll.stage, []⟩ })
        rw [Function.update_idem, Function.update_self] at hbins
        simpa using hbins
    · have hlen : packets.length ≠ 0 := fun hzero => hlast (List.length_eq_zero_iff.mp hzero)
      rw [hdown, if_neg hlen] at hexec
      obtain ⟨y, hy, hrun⟩ := ih hrest (Function.update s (.chunkedTable t) { x with
        entries := (u.on p.span.indices x.entries).1
        deletedEntries := x.deletedEntries + (u.on p.span.indices x.entries).2
        afterAll := { x.afterAll with counter := packets.length } }) (by simp)
      rw [Function.update_self] at hy
      rw [Function.update_idem] at hrun
      refine ⟨y, ⟨hy.entries, ?_, fun _ => hy.bins hlast, fun hnil => absurd hnil (by simp)⟩,
        .cons hexec hrun⟩
      rw [hy.deletedEntries, Nat.add_assoc]
      rfl

/-- The entries packets of a whole table have the effect of one call. -/
lemma onEach_pieces {u : LocalUpdate ℕ E} {stride lo hi : ℕ} (hpos : 0 < stride) (a : ℕ → E) :
    u.onEach ((pieces stride stride lo hi).map Span.indices) a = u.on (Finset.Ico lo hi) a := by
  by_cases hle : lo ≤ hi
  · exact (pieces_tiles hpos hle).exactCover.onEach a
  · rw [pieces, strided_of_le hpos (by omega), Finset.Ico_eq_empty (by omega),
      LocalUpdate.on_empty]
    rfl

/-- The bins packets of a list update the bins range by range. -/
lemma binsPass_eq_onEach {stUpdateBinsRange : StUpdateBinsRange E B} {w : WeakTable}
    {entries : ℕ → E} {v : LocalUpdate ℕ B}
    (hv : ∀ beginIdx endIdx bins, stUpdateBinsRange w.table beginIdx endIdx entries bins =
      v.on (Finset.Ico beginIdx endIdx) bins) (spans : List Span) (bins : ℕ → B) :
    binsPass stUpdateBinsRange entries (spans.map w.binsPacketFor) bins =
      (v.onEach (spans.map Span.indices) bins).1 := by
  induction spans generalizing bins with
  | nil => rfl
  | cons span spans ih =>
    rw [List.map_cons, binsPass, List.foldl_cons]
    exact (ih _).trans (by rw [WeakTable.binsPacketFor, hv]; rfl)

/-- Where a range of bins may be updated repeatedly, so may each bin. -/
lemma idempotent_of_repeatable {stUpdateBinsRange : StUpdateBinsRange E B}
    (hrep : BinsRepeatable stUpdateBinsRange) {table : StTable} {entries : ℕ → E}
    {v : LocalUpdate ℕ B} (hv : ∀ beginIdx endIdx bins,
      stUpdateBinsRange table beginIdx endIdx entries bins =
        v.on (Finset.Ico beginIdx endIdx) bins) : v.Idempotent := by
  intro i bin
  have hmem : i ∈ Finset.Ico i (i + 1) := by simp
  have h := congrFun (hrep table i (i + 1) entries fun _ => bin) i
  simp only [hv] at h
  rwa [LocalUpdate.on_of_mem hmem, LocalUpdate.on_of_mem hmem] at h

/-- The bins packets of a whole table have the effect of one call, if the chunk sizes suit. -/
lemma binsPass_eq_updateBins (hbins : BinLocal env.upcalls.stUpdateBinsRange)
    (hpos : 1 ≤ env.binding.stEntriesChunkSize) (hsuit : BinsSuit env) (entries : ℕ → E)
    (bins : ℕ → B) :
    binsPass env.upcalls.stUpdateBinsRange entries ((pieces env.binding.stEntriesChunkSize
      env.binding.stBinsChunkSize 0 (env.upcalls.stGetSizeInfo t).binsNum).map
        (env.weakTable t).binsPacketFor) bins = env.updateBins t entries bins := by
  obtain ⟨v, hv⟩ := hbins (env.weakTable t).table entries
  rw [binsPass_eq_onEach hv, Env.updateBins, hv]
  rcases hsuit with heq | ⟨hle, hrep⟩
  · rw [← heq, onEach_pieces hpos]
  · rw [(idempotent_of_repeatable hrep hv).onEach,
      foldr_union_eq_Ico (exists_mem_pieces_iff hpos hle)]

/-- A table is cut into packets, and these are executed before `process_weak_refs` goes on. -/
lemma serialRun_cut (hlaw : env.upcalls.Lawful) (hpos : 1 ≤ env.binding.stEntriesChunkSize)
    (hov : WeakTable.NoOverflow env.binding (env.upcalls.stGetSizeInfo t))
    (s : (i : Component) → State E B G i) :
    ∃ y, TableOutcome env t (s (.chunkedTable t)) y ∧
      ∀ {s'}, (bucket env).SerialRun (Function.update s (.chunkedTable t) y)
          [.processWeakRefs (Pc.afterTable t)] s' →
        (bucket env).SerialRun s [.processWeakRefs (.processWeakTableChunked t)] s' := by
  set x := s (.chunkedTable t) with hx
  set info := env.upcalls.stGetSizeInfo t with hinfo
  obtain ⟨r, hr, -⟩ := WeakTable.exists_processWeakTableChunked_eq_ok env.profile
    (env.weakTable t) hpos hov
  obtain ⟨hentries, hbins, hcounter, -⟩ := WeakTable.processWeakTableChunked_eq_ok_iff.mp hr
  obtain ⟨hnil, hlt⟩ := WeakTable.Scheduled.length_entriesPackets hr
  have hsource := WeakTable.entriesPacketFor_span hentries
  rw [WeakTable.entriesPackets_eq_ok _ _ hpos hov.entries, Except.ok.injEq] at hentries
  rw [WeakTable.binsPackets_eq_ok _ _ hpos hov.bins, Except.ok.injEq] at hbins
  obtain ⟨u, hu⟩ := hlaw.entries (env.weakTable t).table (env.weakTable t).weakKeys
    (env.weakTable t).weakValues (env.weakTable t).forward
  have hcount : r.afterAll.counter = r.entriesPackets.length := by
    rw [hcounter, wrappingAdd_of_lt (by omega), Nat.zero_add]
  obtain ⟨y, hy, hrun⟩ := serialRun_entries hu hsource
    (Function.update s (.chunkedTable t) { x with afterAll := r.afterAll }) (by simpa using hcount)
  rw [Function.update_self] at hy
  rw [Function.update_idem] at hrun
  have hspans : r.entriesPackets.map (·.span.indices) = (pieces env.binding.stEntriesChunkSize
      env.binding.stEntriesChunkSize info.entriesStart info.entriesBound).map Span.indices := by
    rw [← hentries]
    simp [Function.comp_def]
  refine ⟨y, ⟨?_, ?_, fun hsome hsuit => ?_, fun hnone => ?_⟩, fun hrest => ?_⟩
  · rw [hy.entries, hspans, onEach_pieces hpos, Env.updateEntries, hu]
  · rw [hy.deletedEntries, hspans, onEach_pieces hpos, Env.updateEntries, hu]
  · have hne : r.entriesPackets ≠ [] := fun hempty => Nat.not_le.mpr hsome (hnil.mp hempty)
    have hbins' : r.afterAll.packets = _ := hbins.symm
    rw [hy.bins hne, hbins', binsPass_eq_updateBins hlaw.bins hpos hsuit]
  · exact hy.forgotten (hnil.mpr hnone)
  · refine .of_released (r.entriesPackets.map (.updateTableEntriesParallel t) ++
      [.processWeakRefs (Pc.afterTable t)]) ?_ (hrun.append hrest)
    rw [← Multiset.coe_add, Multiset.add_comm, Multiset.coe_singleton, Multiset.singleton_add]
    exact .processWeakTableChunked hr

end Tables

/-! ### The pin bits -/

/-- The children that are to be unpinned are pinned, once each, by a GC that moves objects. -/
structure PinsUndoable (env : Env E B G) (registry : PPPRegistry)
    (isPinned : ObjectReference → Bool) : Prop where
  nodup : registry.pinnedPppChildren.Nodup
  pinned : ∀ object ∈ registry.pinnedPppChildren, isPinned object = true
  moving : registry.pinnedPppChildren ≠ [] → env.currentGcMayMoveObject = true

/-- The protocol that pins the children leaves them so. -/
lemma pinsUndoable_of_reachable {s : Ppp.State} {gc : Ppp.Gc}
    (hs : (Ppp.system env.profile).Reachable s) (hphase : s.phase = .tracing gc)
    (hmove : gc.currentGcMayMoveObject = env.currentGcMayMoveObject) :
    PinsUndoable env s.registry s.isPinned := by
  have h := (Ppp.balanced_invariant.of_reachable hs).phase
  rw [hphase] at h
  obtain ⟨hundo, hstill⟩ := h
  refine ⟨hundo.nodup, fun object hobject => ((hundo.mem_iff object).mp hobject).2, fun hne => ?_⟩
  by_contra hnot
  exact hne (hstill (hmove.trans (Bool.eq_false_iff.mpr hnot)))

/-- Unpinning clears the bits of the children and no others. -/
lemma unpin_eq_ok (profile : Profile) (children : List ObjectReference)
    (isPinned : ObjectReference → Bool) (hpins : profile = .debug → children.Nodup ∧
      ∀ object ∈ children, isPinned object = true) :
    ∃ isPinned', UnpinPPPChildren.doWork profile ⟨children⟩ isPinned = .ok isPinned' ∧
      ∀ object, isPinned' object = true ↔ isPinned object = true ∧ object ∉ children := by
  simp only [UnpinPPPChildren.doWork]
  induction children generalizing isPinned with
  | nil => exact ⟨isPinned, rfl, by simp⟩
  | cons child children ih =>
    have hiter : UnpinPPPChildren.iteration profile isPinned child =
        .ok (testAndClear isPinned child).2 := by
      refine if_neg fun hpanic => ?_
      have hset := (hpins hpanic.1).2 child (List.mem_cons_self ..)
      exact absurd (hset.symm.trans hpanic.2) (by simp)
    obtain ⟨isPinned', hok, hiff⟩ := ih (testAndClear isPinned child).2 <| by
      intro hdebug
      obtain ⟨hnodup, hall⟩ := hpins hdebug
      obtain ⟨hnotin, hnodup⟩ := List.nodup_cons.mp hnodup
      refine ⟨hnodup, fun object hobject => ?_⟩
      have hne : object ≠ child := by
        rintro rfl
        exact hnotin hobject
      simp only [testAndClear, Function.update_of_ne hne]
      exact hall object (List.mem_cons_of_mem _ hobject)
    refine ⟨isPinned', ?_, fun object => ?_⟩
    · rw [List.foldlM_cons, hiter]
      exact hok
    · rw [hiff, testAndClear, List.mem_cons, not_or]
      by_cases hobject : object = child
      · simp [hobject]
      · simp [hobject]

/-! ### The serial run -/

section SerialRun

variable {s : (i : Component) → State E B G i}

/-- What becomes of the PPPs, of the children and of the pin bits. -/
lemma serialRun_ppps (hpins : env.profile = .debug →
      PinsUndoable env (s .pppRegistry) (s .pinBits)) :
    ∃ registry isPinned,
      (bucket env).SerialRun s [.processWeakRefs .addRemoveDeadPPPs] (Function.update
        (Function.update s .pppRegistry registry) .pinBits isPinned) ∧
      registry.ppps =
        (RemoveDeadPPPs.doWork env.traced env.upcalls.isNoLongerPpp (s .pppRegistry)).2.ppps ∧
      registry.pinnedPppChildren =
        (if env.currentGcMayMoveObject then [] else (s .pppRegistry).pinnedPppChildren) ∧
      ∀ object, isPinned object = true ↔ s .pinBits object = true ∧
        ¬ (env.currentGcMayMoveObject = true ∧ object ∈ (s .pppRegistry).pinnedPppChildren) := by
  set removed := (RemoveDeadPPPs.doWork env.traced env.upcalls.isNoLongerPpp (s .pppRegistry)).2
    with hremoved
  have hchildren : removed.pinnedPppChildren = (s .pppRegistry).pinnedPppChildren := rfl
  -- `RemoveDeadPPPs` is executed first, then `process_weak_refs` takes the children
  have hstart : ∀ {s'}, (bucket env).SerialRun (Function.update s .pppRegistry removed)
      [.processWeakRefs .takePinnedPppChildren] s' →
      (bucket env).SerialRun s [.processWeakRefs .addRemoveDeadPPPs] s' := by
    intro s' h
    refine .of_released (i := .processWeakRefs) (x := ())
      [.removeDeadPPPs, .processWeakRefs .takePinnedPppChildren] ?_ ?_
    · rw [← Multiset.cons_coe, ← Multiset.cons_coe, Multiset.cons_swap]
      exact .addRemoveDeadPPPs
    · have hsame : Function.update s .processWeakRefs () = s := Function.update_eq_self _ s
      rw [hsame]
      exact .cons_zero .removeDeadPPPs h
  cases hmove : env.currentGcMayMoveObject with
  | false =>
    refine ⟨removed, s .pinBits, hstart ?_, rfl, rfl, fun object => by simp⟩
    have hok : removed.cleanupPpps env.profile env.currentGcMayMoveObject =
        .ok (none, removed) := by
      rw [PPPRegistry.cleanupPpps, hmove, if_neg (by simp), if_neg]
      rintro ⟨hdebug, hlen⟩
      have hne : (s .pppRegistry).pinnedPppChildren ≠ [] :=
        fun h => hlen (by rw [hchildren, h]; rfl)
      exact absurd (hmove.symm.trans ((hpins hdebug).moving hne)) (by simp)
    have hsame : Function.update (Function.update s .pppRegistry removed) .pinBits (s .pinBits) =
        Function.update s .pppRegistry removed := by
      rw [Function.update_comm (by simp), Function.update_eq_self]
    rw [hsame]
    have hexec : (bucket env).exec .pppRegistry (.processWeakRefs .takePinnedPppChildren) removed
        removed 0 := .takePinnedPppChildren hok
    have hrun := WorkPool.SerialRun.single (s := Function.update s .pppRegistry removed)
      (by rwa [Function.update_self])
    rwa [Function.update_idem] at hrun
  | true =>
    have hok : removed.cleanupPpps env.profile env.currentGcMayMoveObject =
        .ok (some ⟨removed.pinnedPppChildren⟩, { removed with pinnedPppChildren := [] }) := by
      rw [PPPRegistry.cleanupPpps, if_pos hmove]
    obtain ⟨isPinned, hunpin, hiff⟩ := unpin_eq_ok env.profile
      (s .pppRegistry).pinnedPppChildren (s .pinBits)
      fun hdebug => ⟨(hpins hdebug).nodup, (hpins hdebug).pinned⟩
    refine ⟨{ removed with pinnedPppChildren := [] }, isPinned, hstart ?_, rfl, rfl,
      by simpa using hiff⟩
    have hexec : (bucket env).exec .pppRegistry (.processWeakRefs .takePinnedPppChildren) removed
        { removed with pinnedPppChildren := [] }
        ([.unpinPPPChildren ⟨removed.pinnedPppChildren⟩] : List Packet) :=
      .takePinnedPppChildren hok
    refine .of_released _ (by rwa [Function.update_self]) ?_
    rw [Function.update_idem]
    exact .single (.unpinPPPChildren hunpin)

/-- The packets that process the lists and the tables that are updated in one go. -/
def afterLists (env : Env E B G) (s : (i : Component) → State E B G i)
    (order : DrainOrder (s .givtbls).movedGivtbl) (oldObjects : List ObjectReference) :
    (i : Component) → State E B G i
  | .weakProc => {
      weakProc := (ProcessObjFreeCandidates.doWork env.traced (s .weakProc).weakProc).1
      freed := (s .weakProc).freed +
        (ProcessObjFreeCandidates.doWork env.traced (s .weakProc).weakProc).2 }
  | .givtbls => {
      movedGivtbl := (WeakProcessor.updateGenericIvTbl env.upcalls.givtbl env.traced order
        (s .givtbls).genericIvTbl).1
      genericIvTbl := (WeakProcessor.updateGenericIvTbl env.upcalls.givtbl env.traced order
        (s .givtbls).genericIvTbl).2 }
  | .globalTable g => env.upcalls.updateGlobalTable g (s (.globalTable g))
  | .wbUnprotectedObjects => UpdateWbUnprotectedObjectsList.doWork env.traced oldObjects
  | .processWeakRefs => s .processWeakRefs
  | .pppRegistry => s .pppRegistry
  | .pinBits => s .pinBits
  | .chunkedTable t => s (.chunkedTable t)

/-- These packets are executed before `process_weak_refs` goes on. -/
lemma serialRun_lists (order : DrainOrder (s .givtbls).movedGivtbl)
    {oldObjects : List ObjectReference} (hnodup : oldObjects.Nodup)
    (horder : oldObjects.toFinset = s .wbUnprotectedObjects) {y : (i : Component) → State E B G i}
    (h : (bucket env).SerialRun (afterLists env s order oldObjects)
      [.processWeakRefs (.processWeakTableChunked .frozenStrings)] y) :
    (bucket env).SerialRun s [.processWeakRefs .addProcessObjFreeCandidates] y := by
  have hserial : ∀ s' : (i : Component) → State E B G i,
      Function.update s' .processWeakRefs () = s' := fun s' => Function.update_eq_self _ s'
  refine .of_released (i := .processWeakRefs) (x := ())
    [.processObjFreeCandidates, .processWeakRefs .bulkAdd] ?_ ?_
  · rw [← Multiset.cons_coe, ← Multiset.cons_coe, Multiset.cons_swap]
    exact .addProcessObjFreeCandidates
  rw [hserial]
  refine .cons_zero .processObjFreeCandidates ?_
  refine .of_released (i := .processWeakRefs) (x := ())
    ([.updateGenericIvTbl, .updateGlobalTable .finalizerAndObjId,
      .updateGlobalTable .overloadedCme, .updateGlobalTable .ci, .updateWbUnprotectedObjectsList] ++
      [.processWeakRefs (.processWeakTableChunked .frozenStrings)]) ?_ ?_
  · rw [Multiset.coe_eq_coe.mpr List.perm_append_comm]
    exact .bulkAdd
  rw [hserial]
  refine .cons_zero (.updateGenericIvTbl order) ?_
  refine .cons_zero .updateGlobalTable ?_
  refine .cons_zero .updateGlobalTable ?_
  refine .cons_zero .updateGlobalTable ?_
  refine .cons_zero (.updateWbUnprotectedObjectsList oldObjects hnodup horder) ?_
  convert h using 1
  · funext i
    cases i with
    | globalTable g => cases g <;> rfl
    | _ => rfl
  · rfl

/-- A serial run of the whole stage leaves the outcome. -/
theorem exists_serialRun (hlaw : env.upcalls.Lawful) (hpos : 1 ≤ env.binding.stEntriesChunkSize)
    (hov : ∀ t, WeakTable.NoOverflow env.binding (env.upcalls.stGetSizeInfo t))
    (hcopies : GivtblState.LeftByCopies (s .givtbls))
    (hpins : env.profile = .debug → PinsUndoable env (s .pppRegistry) (s .pinBits)) :
    ∃ y, Outcome env s y ∧
      (bucket env).SerialRun s [.processWeakRefs .addProcessObjFreeCandidates] y := by
  obtain ⟨copies, hrec, hapart⟩ := hcopies
  obtain ⟨order⟩ := DrainOrder.nonempty_of_records hrec hapart
  have hnodup := Finset.nodup_toList (s .wbUnprotectedObjects)
  have horder := Finset.toList_toFinset (s .wbUnprotectedObjects)
  -- the states between the parts of the run
  set s₁ := afterLists env s order (s .wbUnprotectedObjects).toList with hs₁
  obtain ⟨frozenStrings, hfrozenStrings, hcut₁⟩ :=
    serialRun_cut hlaw hpos (hov .frozenStrings) s₁
  set s₂ := Function.update s₁ (.chunkedTable .frozenStrings) frozenStrings with hs₂
  obtain ⟨globalSymbols, hglobalSymbols, hcut₂⟩ :=
    serialRun_cut hlaw hpos (hov .globalSymbols) s₂
  set s₃ := Function.update s₂ (.chunkedTable .globalSymbols) globalSymbols with hs₃
  obtain ⟨registry, isPinned, hrun, hppps, hchildren, hbits⟩ := serialRun_ppps (s := s₃) hpins
  refine ⟨_, ⟨rfl, fun order' => ?_, fun g => rfl, ?_, hppps, hchildren, hbits, fun t => ?_⟩,
    serialRun_lists order hnodup horder (hcut₁ (hcut₂ hrun))⟩
  · have heq := updateGenericIvTbl_eq hlaw.givtbl ⟨copies, hrec, hapart⟩ order order'
    rw [← heq]
    rfl
  · ext object
    refine (UpdateWbUnprotectedObjectsList.mem_doWork env.traced).trans ?_
    simp [Traced.collection, and_assoc]
  · cases t with
    | frozenStrings => exact hfrozenStrings
    | globalSymbols => exact hglobalSymbols

end SerialRun

/-! ### All runs -/

/-- However many workers execute the packets of weak processing, and in whatever order: what they
have done so far can be completed, and once the bucket is empty they have done what the packets do
one after the other, with one call for each table. -/
theorem processWeakRefs_outcome (env : Env E B G) (hlaw : env.upcalls.Lawful)
    (hpos : 1 ≤ env.binding.stEntriesChunkSize)
    (hov : ∀ t, WeakTable.NoOverflow env.binding (env.upcalls.stGetSizeInfo t))
    (state : (i : Component) → State E B G i)
    (hcopies : GivtblState.LeftByCopies (state .givtbls))
    (hpins : env.profile = .debug → PinsUndoable env (state .pppRegistry) (state .pinBits)) :
    ∃ y, Outcome env state y ∧
      (∀ c, (bucket env).Run (start state) c → (bucket env).Run c ⟨y, 0⟩) ∧
      ∀ c, (bucket env).Run (start state) c → WorkPool.Finished c → c.state = y := by
  have hcomm : (bucket env).Commutes (Inv env) := commutes_bucket hlaw
  have hinv : Inv env (start state) := inv_start hcopies
  obtain ⟨y, hy, hserial⟩ := exists_serialRun hlaw hpos hov hcopies hpins
  refine ⟨y, hy, fun c hc => hcomm.run_of_serialRun hinv hserial hc, fun c hc hfin => ?_⟩
  exact hcomm.state_eq_of_serialRun hinv hserial hc hfin

/-- Bins that are emptied when their entry is gone stay empty. -/
lemma binsSuit_weakSetEnv : BinsSuit weakSetEnv := by
  refine Or.inr ⟨by decide, fun table beginIdx endIdx entries bins => ?_⟩
  have hidem : (weakSetBins entries).Idempotent := by
    intro i bin
    simp [weakSetBins, Option.filter_filter]
  have h := hidem.on_union (Finset.Ico beginIdx endIdx) (Finset.Ico beginIdx endIdx) bins
  rwa [Finset.union_self] at h

/-- With the default chunk sizes, for which the bins packets overlap. -/
theorem processWeakRefs_outcome_weakSet :
    ∃ (a b : ObjectReference) (movedGivtbl : MovedGivtbl),
      VMObjectModel.copyGivtbls (WeakProcessor.exivarEnv (Finsupp.single a 7)) [(a, b)] =
        .ok movedGivtbl ∧
      BinsSuit weakSetEnv ∧ ∃ y, Outcome weakSetEnv (weakSetState a b movedGivtbl) y ∧
        (∀ c, (bucket weakSetEnv).Run (start (weakSetState a b movedGivtbl)) c →
          (bucket weakSetEnv).Run c ⟨y, 0⟩) ∧
        ∀ c, (bucket weakSetEnv).Run (start (weakSetState a b movedGivtbl)) c →
          WorkPool.Finished c → c.state = y := by
  let a : ObjectReference := ⟨4096, by decide⟩
  let b : ObjectReference := ⟨4160, by decide⟩
  have hflags := WeakProcessor.flagsMatch_exivarEnv (Finsupp.single a 7)
  have hapart : Apart [(a, b)] (Finsupp.single a 7 : GenericIvTbl) :=
    WeakProcessor.apart_single (by decide)
  obtain ⟨movedGivtbl, hok, -⟩ := VMObjectModel.copyGivtbls_eq_ok hflags hapart.targets
  refine ⟨a, b, movedGivtbl, hok, binsSuit_weakSetEnv, ?_⟩
  refine processWeakRefs_outcome weakSetEnv lawful_weakSetUpcalls (by decide)
    (fun _ => noOverflow_weakSetInfo) _ (leftByCopies_of_copyGivtbls hflags hapart hok) fun _ => ?_
  exact ⟨List.nodup_singleton a, by simp [weakSetState], fun _ => rfl⟩

end WeakRefs

end MmtkRuby
