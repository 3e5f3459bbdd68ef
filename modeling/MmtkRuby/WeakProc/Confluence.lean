import MmtkRuby.WeakProc.BucketInvariant

/-!
# Weak processing is confluent

The packets of different parts of the state do not see each other. Of the packets of one table, the
entries packets commute because `st_update_entries_range` treats each entry by itself, and so do
the bins packets; a bins packet is only released when no entries packet is left, so it always sees
the same entries.
-/

namespace MmtkRuby

open Core

namespace WeakRefs

variable {E B G : Type} {env : Env E B G}

/-! ### Commutation -/

/-- The drain of `moved_givtbl` has the same effect in every order. -/
lemma updateGenericIvTbl_eq (hlaw : env.upcalls.givtbl.Lawful) {x : GivtblState}
    (hx : x.LeftByCopies) (order order' : DrainOrder x.movedGivtbl) :
    WeakProcessor.updateGenericIvTbl env.upcalls.givtbl env.traced order x.genericIvTbl =
      WeakProcessor.updateGenericIvTbl env.upcalls.givtbl env.traced order' x.genericIvTbl := by
  obtain ⟨copies, hrec, hapart⟩ := hx
  have h := WeakProcessor.renamed_drainMovedGivtbl hlaw order hrec hapart
  have h' := WeakProcessor.renamed_drainMovedGivtbl hlaw order' hrec hapart
  simp only [WeakProcessor.updateGenericIvTbl, h.unique h']
  rfl

/-- The set of WB-unprotected objects is rebuilt to the same set in every order. -/
lemma updateWbUnprotectedObjectsList_eq {traced : Traced}
    {oldObjects oldObjects' : List ObjectReference}
    (h : oldObjects.toFinset = oldObjects'.toFinset) :
    UpdateWbUnprotectedObjectsList.doWork traced oldObjects =
      UpdateWbUnprotectedObjectsList.doWork traced oldObjects' := by
  ext object
  simp only [UpdateWbUnprotectedObjectsList.mem_doWork, ← List.mem_toFinset, h]

/-- Each packet has one possible effect. -/
lemma Inv.functional {c : PoolConfig (State E B G) Packet} (h : Inv env c)
    (hlaw : env.upcalls.givtbl.Lawful) {i : Component} {p : Packet} {x y : State E B G i}
    {m n : Multiset Packet} (hx : Exec env i p (c.state i) x m)
    (hy : Exec env i p (c.state i) y n) : x = y ∧ m = n := by
  cases hx with
  | addProcessObjFreeCandidates | bulkAdd | addRemoveDeadPPPs | processObjFreeCandidates
  | updateGlobalTable | updateTableEntriesParallel | updateTableBinsParallel | removeDeadPPPs =>
    cases hy
    exact ⟨rfl, rfl⟩
  | processWeakTableChunked hr =>
    cases hy with
    | processWeakTableChunked hr' =>
      rw [hr, Except.ok.injEq] at hr'
      subst hr'
      exact ⟨rfl, rfl⟩
  | takePinnedPppChildren hok =>
    cases hy with
    | takePinnedPppChildren hok' =>
      rw [hok, Except.ok.injEq, Prod.mk.injEq] at hok'
      obtain ⟨rfl, rfl⟩ := hok'
      exact ⟨rfl, rfl⟩
  | updateGenericIvTbl order =>
    cases hy with
    | updateGenericIvTbl order' =>
      rw [updateGenericIvTbl_eq hlaw h.givtbls order order']
      exact ⟨rfl, rfl⟩
  | updateWbUnprotectedObjectsList oldObjects hnodup horder =>
    cases hy with
    | updateWbUnprotectedObjectsList oldObjects' hnodup' horder' =>
      exact ⟨updateWbUnprotectedObjectsList_eq (horder.trans horder'.symm), rfl⟩
  | unpinPPPChildren hok =>
    cases hy with
    | unpinPPPChildren hok' =>
      rw [hok, Except.ok.injEq] at hok'
      exact ⟨hok', rfl⟩

/-- What an entries packet makes of its table. -/
lemma afterEntries_doWork {stUpdateEntriesRange : StUpdateEntriesRange E} {t : WeakTable}
    {u : LocalUpdate ℕ E}
    (hu : ∀ beginIdx endIdx a, stUpdateEntriesRange t.table beginIdx endIdx t.weakKeys
      t.weakValues t.forward a = u.on (Finset.Ico beginIdx endIdx) a)
    {p : UpdateTableEntriesParallel} (hp : t.entriesPacketFor p.span = p)
    (s : ChunkedTableState E B) :
    s.afterEntries (p.doWork stUpdateEntriesRange s.pass) =
      { s with
        entries := (u.on p.span.indices s.entries).1
        deletedEntries := s.deletedEntries + (u.on p.span.indices s.entries).2
        afterAll := s.afterAll.countDown.2.2 } := by
  rw [← hp]
  simp only [UpdateTableEntriesParallel.doWork, WeakTable.entriesPacketFor, hu,
    ChunkedTableState.afterEntries, ChunkedTableState.pass, List.nil_append, List.sum_singleton]
  rfl

/-- The entries packets of a table may change places. -/
lemma afterEntries_comm {stUpdateEntriesRange : StUpdateEntriesRange E}
    (hlocal : IndexLocal stUpdateEntriesRange) {t : WeakTable} {p q : UpdateTableEntriesParallel}
    (hp : t.entriesPacketFor p.span = p) (hq : t.entriesPacketFor q.span = q)
    {s x y : ChunkedTableState E B} (hx : x = s.afterEntries (p.doWork stUpdateEntriesRange s.pass))
    (hy : y = s.afterEntries (q.doWork stUpdateEntriesRange s.pass)) :
    y.afterEntries (p.doWork stUpdateEntriesRange y.pass) =
      x.afterEntries (q.doWork stUpdateEntriesRange x.pass) := by
  obtain ⟨u, hu⟩ := hlocal t.table t.weakKeys t.weakValues t.forward
  have hcomm := LocalUpdate.on_comm (u := u) p.span.indices q.span.indices s.entries
  rw [hx, hy]
  simp only [afterEntries_doWork hu hp, afterEntries_doWork hu hq, hcomm.1, Nat.add_assoc, hcomm.2]

/-- So may the bins packets, while the entries stay as they are. -/
lemma stUpdateBinsRange_comm {stUpdateBinsRange : StUpdateBinsRange E B}
    (hlocal : BinLocal stUpdateBinsRange) {t : WeakTable} {p q : UpdateTableBinsParallel}
    (hp : t.binsPacketFor p.span = p) (hq : t.binsPacketFor q.span = q) (entries : ℕ → E)
    (bins : ℕ → B) :
    (stUpdateBinsRange p.table p.beginIdx p.endIdx entries
        (stUpdateBinsRange q.table q.beginIdx q.endIdx entries bins).1).1 =
      (stUpdateBinsRange q.table q.beginIdx q.endIdx entries
        (stUpdateBinsRange p.table p.beginIdx p.endIdx entries bins).1).1 := by
  obtain ⟨u, hu⟩ := hlocal t.table entries
  have htable : p.table = t.table := congrArg UpdateTableBinsParallel.table hp.symm
  have htable' : q.table = t.table := congrArg UpdateTableBinsParallel.table hq.symm
  simp only [htable, htable', hu]
  exact (LocalUpdate.on_comm _ _ bins).1

/-- `cleanup_ppps` takes the one list and `RemoveDeadPPPs` works on the other. -/
lemma cleanupPpps_doWork {profile : Profile} {registry registry' : PPPRegistry} {moving : Bool}
    {packet : Option UnpinPPPChildren} (traced : Traced) (isNoLongerPpp : ObjectReference → Bool)
    (hok : registry.cleanupPpps profile moving = .ok (packet, registry')) :
    (RemoveDeadPPPs.doWork traced isNoLongerPpp registry).2.cleanupPpps profile moving =
      .ok (packet, (RemoveDeadPPPs.doWork traced isNoLongerPpp registry').2) := by
  cases moving with
  | true =>
    rw [PPPRegistry.cleanupPpps, if_pos rfl, Except.ok.injEq, Prod.mk.injEq] at hok
    obtain ⟨rfl, rfl⟩ := hok
    rfl
  | false =>
    by_cases hdebug : profile = .debug ∧ registry.pinnedPppChildren.length ≠ 0
    · rw [PPPRegistry.cleanupPpps, if_neg Bool.false_ne_true, if_pos hdebug] at hok
      cases hok
    · rw [PPPRegistry.cleanupPpps, if_neg Bool.false_ne_true, if_neg hdebug, Except.ok.injEq,
        Prod.mk.injEq] at hok
      obtain ⟨rfl, rfl⟩ := hok
      exact if_neg hdebug

namespace Inv

variable {c : PoolConfig (State E B G) Packet} {p q : Packet} {rest : Multiset Packet}

/-- The packets that `process_weak_refs` goes on with, and the one it ends with, are never in the
bucket together. -/
lemma not_serial_pair (h : Inv env c) (hp : c.pool = p ::ₘ q ::ₘ rest)
    (hserial : p.isSerial = true) : q.isSerial ≠ true := by
  intro hserial'
  have hle := h.serial
  simp only [hp, Multiset.countP_cons, hserial, hserial', if_true] at hle
  omega

/-- Packets of one component commute. -/
lemma commute (h : Inv env c) (hentries : IndexLocal env.upcalls.stUpdateEntriesRange)
    (hbins : BinLocal env.upcalls.stUpdateBinsRange) (hp : c.pool = p ::ₘ q ::ₘ rest)
    (hne : p ≠ q) {i : Component} {x y : State E B G i} {m n : Multiset Packet}
    (hx : Exec env i p (c.state i) x m) (hy : Exec env i q (c.state i) y n) :
    ∃ z m' n', Exec env i q x z n' ∧ Exec env i p y z m' ∧ m + n' = n + m' := by
  cases hx with
  | addProcessObjFreeCandidates | bulkAdd | addRemoveDeadPPPs | unpinPPPChildren =>
    cases hy <;> exact absurd rfl (h.not_serial_pair hp rfl)
  | processObjFreeCandidates | updateGenericIvTbl | updateGlobalTable
  | updateWbUnprotectedObjectsList =>
    -- there is only one packet of the component
    cases hy
    exact absurd rfl hne
  | @processWeakTableChunked t _ r hr =>
    have hexcl := (h.table_of_cons (t := t) hp).exclusive
    cases hy with
    | processWeakTableChunked hr' => exact absurd rfl hne
    | updateTableEntriesParallel => simp at hexcl
    | updateTableBinsParallel => simp at hexcl
  | takePinnedPppChildren hok =>
    cases hy with
    | takePinnedPppChildren hok' => exact absurd rfl hne
    | removeDeadPPPs =>
      exact ⟨_, _, _, .removeDeadPPPs, .takePinnedPppChildren (cleanupPpps_doWork _ _ hok),
        add_comm _ _⟩
  | @updateTableEntriesParallel t p =>
    have htab := h.table_of_cons (t := t) hp
    have hexcl := htab.exclusive
    cases hy with
    | processWeakTableChunked hr => simp at hexcl
    | @updateTableEntriesParallel _ q =>
      have hcomm := afterEntries_comm (s := c.state (.chunkedTable t)) hentries
        (htab.entriesOf p (by simp)) (htab.entriesOf q (by simp)) rfl rfl
      have hexec := @Exec.updateTableEntriesParallel _ _ _ env t p
        ((c.state (.chunkedTable t)).afterEntries
          (q.doWork env.upcalls.stUpdateEntriesRange (c.state (.chunkedTable t)).pass))
      rw [hcomm] at hexec
      exact ⟨_, _, _, .updateTableEntriesParallel, hexec, rfl⟩
    | updateTableBinsParallel => simp at hexcl
  | @updateTableBinsParallel t p =>
    have htab := h.table_of_cons (t := t) hp
    have hexcl := htab.exclusive
    cases hy with
    | processWeakTableChunked hr => simp at hexcl
    | updateTableEntriesParallel => simp at hexcl
    | @updateTableBinsParallel _ q =>
      have hcomm := stUpdateBinsRange_comm hbins (htab.binsOf p (by simp))
        (htab.binsOf q (by simp)) (c.state (.chunkedTable t)).entries
        (c.state (.chunkedTable t)).bins
      refine ⟨_, _, _, .updateTableBinsParallel, ?_, rfl⟩
      rw [← hcomm]
      exact .updateTableBinsParallel
  | removeDeadPPPs =>
    cases hy with
    | takePinnedPppChildren hok =>
      exact ⟨_, _, _, .takePinnedPppChildren (cleanupPpps_doWork _ _ hok), .removeDeadPPPs,
        add_comm _ _⟩
    | removeDeadPPPs => exact absurd rfl hne

end Inv

/-! ### Termination -/

/-- How many steps of `process_weak_refs` a packet stands for. -/
def Packet.remaining : Packet → ℕ
  | .processWeakRefs .addProcessObjFreeCandidates => 6
  | .processWeakRefs .bulkAdd => 5
  | .processWeakRefs (.processWeakTableChunked .frozenStrings) => 4
  | .processWeakRefs (.processWeakTableChunked .globalSymbols) => 3
  | .processWeakRefs .addRemoveDeadPPPs => 2
  | .processWeakRefs .takePinnedPppChildren => 1
  | _ => 0

def Packet.entriesPackets : Packet → ℕ
  | .updateTableEntriesParallel _ _ => 1
  | _ => 0

/-- The steps left to `process_weak_refs`, the number of entries packets and that of all packets. -/
def rank (pool : Multiset Packet) : ℕ ×ₗ ℕ ×ₗ ℕ :=
  toLex ((pool.map Packet.remaining).sum,
    toLex ((pool.map Packet.entriesPackets).sum, Multiset.card pool))

lemma sum_map_map_eq_zero {α : Type*} {f : α → Packet} {w : Packet → ℕ} (hw : ∀ a, w (f a) = 0)
    (s : Multiset α) : ((s.map f).map w).sum = 0 := by
  rw [Multiset.map_map, Multiset.sum_eq_zero]
  intro n hn
  obtain ⟨a, -, rfl⟩ := Multiset.mem_map.mp hn
  exact hw a

/-- Only `process_weak_refs` adds entries packets, and only they add any others. -/
lemma rank_lt_of_exec {i : Component} {p : Packet} {s x : State E B G i}
    {released rest : Multiset Packet} (hexec : Exec env i p s x released) :
    rank (released + rest) < rank (p ::ₘ rest) := by
  have hlt : (released.map Packet.remaining).sum < p.remaining ∨
      (released.map Packet.remaining).sum = p.remaining ∧
        ((released.map Packet.entriesPackets).sum < p.entriesPackets ∨
          (released.map Packet.entriesPackets).sum = p.entriesPackets ∧ released = 0) := by
    cases hexec with
    | addProcessObjFreeCandidates => exact Or.inl (by decide)
    | bulkAdd => exact Or.inl (by decide)
    | @processWeakTableChunked t _ r hr =>
      refine Or.inl ?_
      rw [Multiset.map_cons, Multiset.sum_cons, sum_map_map_eq_zero fun _ => rfl]
      cases t <;> decide
    | addRemoveDeadPPPs => exact Or.inl (by decide)
    | takePinnedPppChildren hok =>
      refine Or.inl ?_
      rw [sum_map_map_eq_zero fun _ => rfl]
      decide
    | updateTableEntriesParallel =>
      refine Or.inr ⟨sum_map_map_eq_zero (fun _ => rfl) _, Or.inl ?_⟩
      rw [sum_map_map_eq_zero fun _ => rfl]
      exact Nat.zero_lt_one
    | _ => exact Or.inr ⟨rfl, Or.inr ⟨rfl, rfl⟩⟩
  simp only [rank, Prod.Lex.toLex_lt_toLex, Multiset.map_add, Multiset.sum_add, Multiset.map_cons,
    Multiset.sum_cons, Multiset.card_add, Multiset.card_cons]
  rcases hlt with hlt | ⟨heq, hlt | ⟨heq', rfl⟩⟩
  · exact Or.inl (by omega)
  · exact Or.inr ⟨by omega, Or.inl (by omega)⟩
  · exact Or.inr ⟨by omega, Or.inr ⟨by omega, by simp⟩⟩

/-! ### Progress -/

/-- The packets with a `debug_assert!` that fails. -/
def Packet.Panics (env : Env E B G) (state : (i : Component) → State E B G i) : Packet → Prop
  | .processWeakRefs .takePinnedPppChildren =>
    PPPRegistry.cleanupPpps env.profile (state .pppRegistry) env.currentGcMayMoveObject =
      .error .pinnedPppChildrenLeft
  | .unpinPPPChildren p => p.doWork env.profile (state .pinBits) = .error .notUnpinned
  | _ => False

/-- The loop that unpins the children ends, unless an assertion fails. -/
lemma unpin_ok_or_error (profile : Profile) (p : UnpinPPPChildren)
    (isPinned : ObjectReference → Bool) :
    (∃ isPinned', p.doWork profile isPinned = .ok isPinned') ∨
      profile = .debug ∧ p.doWork profile isPinned = .error .notUnpinned := by
  obtain ⟨children⟩ := p
  simp only [UnpinPPPChildren.doWork]
  induction children generalizing isPinned with
  | nil => exact Or.inl ⟨isPinned, rfl⟩
  | cons obj children ih =>
    rw [List.foldlM_cons]
    by_cases hfail : profile = .debug ∧ (testAndClear isPinned obj).1 = false
    · have hobj : UnpinPPPChildren.iteration profile isPinned obj = .error .notUnpinned :=
        if_pos hfail
      rw [hobj]
      exact Or.inr ⟨hfail.1, rfl⟩
    · have hobj : UnpinPPPChildren.iteration profile isPinned obj =
          .ok (testAndClear isPinned obj).2 := if_neg hfail
      rw [hobj]
      exact ih _

/-- Likewise `cleanup_ppps`. -/
lemma cleanupPpps_ok_or_error (profile : Profile) (registry : PPPRegistry) (moving : Bool) :
    (∃ r, registry.cleanupPpps profile moving = .ok r) ∨
      profile = .debug ∧ registry.cleanupPpps profile moving = .error .pinnedPppChildrenLeft := by
  unfold PPPRegistry.cleanupPpps
  split_ifs with hmoving hdebug
  · exact Or.inl ⟨_, rfl⟩
  · exact Or.inr ⟨hdebug.1, rfl⟩
  · exact Or.inl ⟨_, rfl⟩

/-- A packet in the bucket can be executed, unless an assertion fails. -/
lemma Inv.exec_or_panics {c : PoolConfig (State E B G) Packet} (h : Inv env c)
    (hpos : 1 ≤ env.binding.stEntriesChunkSize)
    (hov : ∀ t, WeakTable.NoOverflow env.binding (env.upcalls.stGetSizeInfo t)) (p : Packet) :
    (∃ i x released, Exec env i p (c.state i) x released) ∨
      env.profile = .debug ∧ p.Panics env c.state := by
  cases p with
  | processWeakRefs pc =>
    cases pc with
    | addProcessObjFreeCandidates => exact Or.inl ⟨_, _, _, .addProcessObjFreeCandidates⟩
    | bulkAdd => exact Or.inl ⟨_, _, _, .bulkAdd⟩
    | processWeakTableChunked t =>
      obtain ⟨r, hr, -⟩ := WeakTable.exists_processWeakTableChunked_eq_ok env.profile
        (env.weakTable t) hpos (hov t)
      exact Or.inl ⟨_, _, _, .processWeakTableChunked hr⟩
    | addRemoveDeadPPPs => exact Or.inl ⟨_, _, _, .addRemoveDeadPPPs⟩
    | takePinnedPppChildren =>
      rcases cleanupPpps_ok_or_error env.profile (c.state .pppRegistry)
        env.currentGcMayMoveObject with ⟨⟨packet, registry⟩, hok⟩ | hpanic
      · exact Or.inl ⟨_, _, _, .takePinnedPppChildren hok⟩
      · exact Or.inr hpanic
  | processObjFreeCandidates => exact Or.inl ⟨_, _, _, .processObjFreeCandidates⟩
  | updateGenericIvTbl =>
    obtain ⟨copies, hrec, hapart⟩ := h.givtbls
    obtain ⟨order⟩ := DrainOrder.nonempty_of_records hrec hapart
    exact Or.inl ⟨_, _, _, .updateGenericIvTbl order⟩
  | updateGlobalTable g => exact Or.inl ⟨_, _, _, .updateGlobalTable⟩
  | updateWbUnprotectedObjectsList =>
    exact Or.inl ⟨_, _, _, .updateWbUnprotectedObjectsList _
      (Finset.nodup_toList (c.state .wbUnprotectedObjects)) (Finset.toList_toFinset _)⟩
  | updateTableEntriesParallel t p => exact Or.inl ⟨_, _, _, .updateTableEntriesParallel⟩
  | updateTableBinsParallel t p => exact Or.inl ⟨_, _, _, .updateTableBinsParallel⟩
  | removeDeadPPPs => exact Or.inl ⟨_, _, _, .removeDeadPPPs⟩
  | unpinPPPChildren p =>
    rcases unpin_ok_or_error env.profile p (c.state .pinBits) with ⟨isPinned, hok⟩ | hpanic
    · exact Or.inl ⟨_, _, _, .unpinPPPChildren hok⟩
    · exact Or.inr hpanic

/-! ### The runs of the stage -/

/-- What the workers may rely on in CRuby. -/
structure Upcalls.Lawful (upcalls : Upcalls E B G) : Prop where
  givtbl : upcalls.givtbl.Lawful
  entries : IndexLocal upcalls.stUpdateEntriesRange
  bins : BinLocal upcalls.stUpdateBinsRange

/-- The order of the packets does not matter. -/
structure Confluent (env : Env E B G) (c : PoolConfig (State E B G) Packet) : Prop where
  /-- all runs that leave no packet end in the same state -/
  unique : ∀ {a b}, (bucket env).Run c a → WorkPool.Finished a → (bucket env).Run c b →
    WorkPool.Finished b → a = b
  /-- if there is such a run, every other one can be continued to its end -/
  reached : ∀ {a b}, (bucket env).Run c a → WorkPool.Finished a → (bucket env).Run c b →
    (bucket env).Run b a
  /-- no run goes on for ever -/
  finite : ∀ f : ℕ → PoolConfig (State E B G) Packet, f 0 = c →
    ∃ n, ¬ (bucket env).Step (f n) (f (n + 1))
  /-- only failing assertions stop a run before its end -/
  stops : ∀ {a}, (bucket env).Run c a → (∀ b, ¬ (bucket env).Step a b) →
    WorkPool.Finished a ∨ env.profile = .debug ∧ ∀ p ∈ a.pool, p.Panics env a.state

lemma commutes_bucket (hlaw : env.upcalls.Lawful) : (bucket env).Commutes (Inv env) where
  step h hstep := h.step hstep
  functional h _ hx hy := h.functional hlaw.givtbl hx hy
  commute h hp hne hx hy := h.commute hlaw.entries hlaw.bins hp hne hx hy

/-- At the start, the bucket has the worker that is about to fill it. -/
lemma inv_start {state : (i : Component) → State E B G i}
    (hcopies : GivtblState.LeftByCopies (state .givtbls)) : Inv env (start state) where
  serial := Nat.le_refl 1
  givtbls := hcopies
  tables t := by
    have hview : view t (start state).pool = (1, 0, 0) := by cases t <;> rfl
    rw [hview]
    exact ⟨fun _ => ⟨rfl, rfl⟩, by simp, by simp, by simp, by simp, by simp⟩

/-- In whatever order the workers execute the packets of weak processing, among them those that are
added during the run, they end in the same state. -/
theorem processWeakRefs_confluent (env : Env E B G) (hlaw : env.upcalls.Lawful)
    (hpos : 1 ≤ env.binding.stEntriesChunkSize)
    (hov : ∀ t, WeakTable.NoOverflow env.binding (env.upcalls.stGetSizeInfo t))
    (state : (i : Component) → State E B G i)
    (hcopies : GivtblState.LeftByCopies (state .givtbls)) : Confluent env (start state) := by
  have hcomm : (bucket env).Commutes (Inv env) := commutes_bucket hlaw
  have hinv : Inv env (start state) := inv_start hcopies
  refine ⟨?_, ?_, ?_, ?_⟩
  · intro a b ha hfin hb hfin'
    exact hcomm.eq_of_finished hinv ha hfin hb hfin'
  · intro a b ha hfin hb
    exact hcomm.run_of_finished hinv ha hfin hb
  · intro f hf
    refine hcomm.exists_not_step (fun c => rank c.pool) ?_ f (hf ▸ hinv)
    intro c c' _ hstep
    cases hstep with
    | @exec i p rest released x hp hexec =>
      show rank (released + rest) < rank c.pool
      rw [hp]
      exact rank_lt_of_exec hexec
  · intro a ha hstuck
    have h := hcomm.run hinv ha
    have hpanic : ∀ p ∈ a.pool, env.profile = .debug ∧ p.Panics env a.state := by
      intro p hp
      rcases h.exec_or_panics hpos hov p with ⟨i, x, released, hexec⟩ | hpanic
      · obtain ⟨rest, hrest⟩ := Multiset.exists_cons_of_mem hp
        exact absurd (WorkPool.Step.exec hrest hexec) (hstuck _)
      · exact hpanic
    rcases a.pool.empty_or_exists_mem with hempty | ⟨p, hp⟩
    · exact Or.inl hempty
    · exact Or.inr ⟨(hpanic p hp).1, fun q hq => (hpanic q hq).2⟩

/-! ### A stage with every kind of packet -/

/-- A bin holds the index of an entry, and is emptied when the entry is gone. -/
def weakSetBins (entries : ℕ → Option ℕ) : LocalUpdate ℕ (Option ℕ) where
  update _ bin := bin.filter fun i => (entries i).isSome
  deletes _ bin := bin.any fun i => (entries i).isNone

/-- Objects at addresses that are multiples of 16 survive, and move by 64. -/
def evenTraced : Traced where
  isReachable object := object.toRawAddress % 16 == 0
  isLive object := object.toRawAddress % 16 == 0
  getForwardedObject object :=
    if object.toRawAddress % 16 = 0 then some ⟨object.toRawAddress + 64, by omega⟩ else none

def weakSetInfo : SizeInfo := ⟨4, 2500, 4097, by decide, by decide, by decide⟩

lemma noOverflow_weakSetInfo : WeakTable.NoOverflow (RubyBinding.new none none) weakSetInfo :=
  ⟨by decide, by decide⟩

noncomputable def weakSetUpcalls : Upcalls (Option ℕ) (Option ℕ) ℕ where
  getTable
    | .frozenStrings => ⟨4096⟩
    | .globalSymbols => ⟨8192⟩
  stGetSizeInfo _ := weakSetInfo
  stUpdateEntriesRange := WeakTable.updateWeakSet
  stUpdateBinsRange _ beginIdx endIdx entries :=
    (weakSetBins entries).on (Finset.Ico beginIdx endIdx)
  updateGlobalTable _ size := size / 2
  givtbl := WeakProcessor.stTableUpcalls
  isNoLongerPpp object := object.toRawAddress % 32 == 0

lemma lawful_weakSetUpcalls : weakSetUpcalls.Lawful where
  givtbl := WeakProcessor.lawful_stTableUpcalls
  entries _ weakKeys _ forward := ⟨WeakTable.weakSetUpdate weakKeys forward, fun _ _ _ => rfl⟩
  bins _ entries := ⟨weakSetBins entries, fun _ _ _ => rfl⟩

noncomputable def weakSetEnv : Env (Option ℕ) (Option ℕ) ℕ where
  profile := .debug
  binding := RubyBinding.new none none
  traced := evenTraced
  currentGcMayMoveObject := true
  upcalls := weakSetUpcalls

/-- Two objects, of which the first had the table 7 and was pinned. -/
noncomputable def weakSetState (a b : ObjectReference) (movedGivtbl : MovedGivtbl) :
    (i : Component) → State (Option ℕ) (Option ℕ) ℕ i
  | .processWeakRefs => ()
  | .weakProc => ⟨⟨[a, b]⟩, 0⟩
  | .givtbls => ⟨movedGivtbl, Finsupp.single a 7⟩
  | .globalTable _ => 10
  | .wbUnprotectedObjects => {a, b}
  | .pppRegistry => ⟨[a, b], [a]⟩
  | .pinBits => fun object => object = a
  | .chunkedTable _ => ⟨some, some, 0, AfterAll.new .vmRefClosure⟩

theorem processWeakRefs_confluent_weakSet :
    ∃ (a b : ObjectReference) (movedGivtbl : MovedGivtbl),
      VMObjectModel.copyGivtbls (WeakProcessor.exivarEnv (Finsupp.single a 7)) [(a, b)] =
        .ok movedGivtbl ∧
      Confluent weakSetEnv (start (weakSetState a b movedGivtbl)) := by
  let a : ObjectReference := ⟨4096, by decide⟩
  let b : ObjectReference := ⟨4160, by decide⟩
  have hflags := WeakProcessor.flagsMatch_exivarEnv (Finsupp.single a 7)
  have hapart : Apart [(a, b)] (Finsupp.single a 7 : GenericIvTbl) :=
    WeakProcessor.apart_single (by decide)
  obtain ⟨movedGivtbl, hok, -⟩ := VMObjectModel.copyGivtbls_eq_ok hflags hapart.targets
  refine ⟨a, b, movedGivtbl, hok, ?_⟩
  exact processWeakRefs_confluent weakSetEnv lawful_weakSetUpcalls (by decide)
    (fun _ => noOverflow_weakSetInfo) _ (leftByCopies_of_copyGivtbls hflags hapart hok)

end WeakRefs

end MmtkRuby
