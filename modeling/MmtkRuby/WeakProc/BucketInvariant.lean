import MmtkRuby.WeakProc.DeferredBins
import MmtkRuby.WeakProc.Packets

/-!
# What is in the bucket

An invariant of the `VMRefClosure` stage: which packets can wait together. While a table is still to
be cut, it has no packets; its bins packets wait until its entries packets have counted down to
zero; and the record of moved tables is as the copies have left it until it is drained.
-/

namespace MmtkRuby

open Core

namespace WeakRefs

variable {E B G : Type} {env : Env E B G}

/-! ### What is in the bucket -/

/-- The rest of `process_weak_refs`, and the packet that it adds when it ends. -/
def Packet.isSerial : Packet → Bool
  | .processWeakRefs _ | .unpinPPPChildren _ => true
  | _ => false

lemma countP_isSerial_map {α : Type*} {f : α → Packet} (hf : ∀ a, (f a).isSerial = false)
    (s : Multiset α) : (s.map f).countP (·.isSerial) = 0 := by
  rw [Multiset.countP_eq_zero]
  intro p hp
  obtain ⟨a, -, rfl⟩ := Multiset.mem_map.mp hp
  simp [hf a]

/-- The table has not been cut into packets yet. -/
def Pc.isBefore (t : ChunkedTable) : Pc → Bool
  | .addProcessObjFreeCandidates | .bulkAdd | .processWeakTableChunked .frozenStrings => true
  | .processWeakTableChunked .globalSymbols => t = .globalSymbols
  | .addRemoveDeadPPPs | .takePinnedPppChildren => false

/-- What concerns a table: how often it is still to be cut into packets, and its packets. -/
abbrev TableView := ℕ × Multiset UpdateTableEntriesParallel × Multiset UpdateTableBinsParallel

def Packet.view (t : ChunkedTable) : Packet → TableView
  | .processWeakRefs pc => (if pc.isBefore t then 1 else 0, 0, 0)
  | .updateTableEntriesParallel t' p => if t' = t then (0, {p}, 0) else 0
  | .updateTableBinsParallel t' p => if t' = t then (0, 0, {p}) else 0
  | _ => 0

def view (t : ChunkedTable) (pool : Multiset Packet) : TableView := (pool.map (Packet.view t)).sum

@[simp] lemma Packet.view_cut (t : ChunkedTable) :
    (Packet.processWeakRefs (.processWeakTableChunked t)).view t = (1, 0, 0) := by
  cases t <;> rfl

@[simp] lemma Packet.view_entries (t : ChunkedTable) (p : UpdateTableEntriesParallel) :
    (Packet.updateTableEntriesParallel t p).view t = (0, {p}, 0) :=
  if_pos rfl

@[simp] lemma Packet.view_bins (t : ChunkedTable) (p : UpdateTableBinsParallel) :
    (Packet.updateTableBinsParallel t p).view t = (0, 0, {p}) :=
  if_pos rfl

@[simp] lemma view_zero (t : ChunkedTable) : view t 0 = 0 := rfl

@[simp] lemma view_cons (t : ChunkedTable) (p : Packet) (pool : Multiset Packet) :
    view t (p ::ₘ pool) = p.view t + view t pool := by
  simp [view]

@[simp] lemma view_add (t : ChunkedTable) (pool pool' : Multiset Packet) :
    view t (pool + pool') = view t pool + view t pool' := by
  simp [view]

/-- The view of packets that are made from a list. -/
lemma view_map {α : Type*} {t : ChunkedTable} {f : α → Packet} {g : Multiset α → TableView}
    (hzero : g 0 = 0) (hcons : ∀ a s, g (a ::ₘ s) = (f a).view t + g s) (s : Multiset α) :
    view t (s.map f) = g s := by
  induction s using Multiset.induction_on with
  | empty => exact hzero.symm
  | cons a s ih => rw [Multiset.map_cons, view_cons, ih, hcons]

lemma view_entriesPackets (t t' : ChunkedTable) (packets : Multiset UpdateTableEntriesParallel) :
    view t (packets.map (.updateTableEntriesParallel t')) =
      if t' = t then (0, packets, 0) else 0 := by
  refine view_map (g := fun packets => if t' = t then (0, packets, 0) else 0) ?_ ?_ packets
  · split_ifs <;> rfl
  · intro p packets
    rw [Packet.view]
    split_ifs <;> simp

lemma view_binsPackets (t t' : ChunkedTable) (packets : Multiset UpdateTableBinsParallel) :
    view t (packets.map (.updateTableBinsParallel t')) =
      if t' = t then (0, 0, packets) else 0 := by
  refine view_map (g := fun packets => if t' = t then (0, 0, packets) else 0) ?_ ?_ packets
  · split_ifs <;> rfl
  · intro p packets
    rw [Packet.view]
    split_ifs <;> simp

/-- Only the rest of `process_weak_refs` cuts a table into packets. -/
lemma view_fst_le (t : ChunkedTable) (pool : Multiset Packet) :
    (view t pool).1 ≤ pool.countP (·.isSerial) := by
  induction pool using Multiset.induction_on with
  | empty => exact le_refl 0
  | cons p pool ih =>
    have hp : (p.view t).1 ≤ if p.isSerial then 1 else 0 := by
      cases p <;> simp only [Packet.view, Packet.isSerial] <;> split_ifs <;> simp
    rw [view_cons, Multiset.countP_cons, Prod.fst_add]
    omega

/-! ### The invariant -/

/-- The record `moved_givtbl` and the table are as the copies of a GC leave them. -/
def GivtblState.LeftByCopies (x : GivtblState) : Prop :=
  ∃ copies, x.movedGivtbl.Records copies x.genericIvTbl ∧ Apart copies x.genericIvTbl

lemma leftByCopies_of_copyGivtbls {tbl : GenericIvTbl} {loadFlags : ObjectReference → ℕ}
    {copies : List (ObjectReference × ObjectReference)} {movedGivtbl : MovedGivtbl}
    (hflags : VMObjectModel.FlagsMatch ⟨tbl, loadFlags⟩) (hapart : Apart copies tbl)
    (hok : VMObjectModel.copyGivtbls ⟨tbl, loadFlags⟩ copies = .ok movedGivtbl) :
    GivtblState.LeftByCopies ⟨movedGivtbl, tbl⟩ := by
  obtain ⟨movedGivtbl', hok', hrec⟩ := VMObjectModel.copyGivtbls_eq_ok hflags hapart.targets
  rw [hok, Except.ok.injEq] at hok'
  subst hok'
  exact ⟨copies, hrec, hapart⟩

/-- The packets of a table, from the call that makes them until the last one is executed. -/
structure TableInv (env : Env E B G) (t : ChunkedTable) (x : ChunkedTableState E B) (uncut : ℕ)
    (entries : Multiset UpdateTableEntriesParallel) (bins : Multiset UpdateTableBinsParallel) :
    Prop where
  notCut : 0 < uncut → entries = 0 ∧ bins = 0
  counter : uncut = 0 → x.afterAll.counter = Multiset.card entries
  /-- the bins packets wait for the entries packets -/
  heldBack : entries ≠ 0 → bins = 0
  entriesOf : ∀ p ∈ entries, (env.weakTable t).entriesPacketFor p.span = p
  binsOf : ∀ p ∈ bins, (env.weakTable t).binsPacketFor p.span = p
  deferredOf : uncut = 0 → ∀ p ∈ x.afterAll.packets, (env.weakTable t).binsPacketFor p.span = p

/-- What holds of the stage at any time. -/
structure Inv (env : Env E B G) (c : PoolConfig (State E B G) Packet) : Prop where
  serial : c.pool.countP (·.isSerial) ≤ 1
  givtbls : GivtblState.LeftByCopies (c.state .givtbls)
  tables : ∀ t, TableInv env t (c.state (.chunkedTable t)) (view t c.pool).1 (view t c.pool).2.1
    (view t c.pool).2.2

namespace TableInv

variable {t : ChunkedTable} {x y : ChunkedTableState E B} {uncut : ℕ}
  {entries : Multiset UpdateTableEntriesParallel} {bins : Multiset UpdateTableBinsParallel}

/-- The call of `process_weak_table_chunked` sets the counter to the number of entries packets. -/
lemma cut {r : WeakTable.Scheduled}
    (hr : (env.weakTable t).processWeakTableChunked env.profile env.binding
      (env.upcalls.stGetSizeInfo t) = .ok r) :
    TableInv env t { x with afterAll := r.afterAll } 0 r.entriesPackets 0 := by
  obtain ⟨hentries, hbins, hcounter, -⟩ := WeakTable.processWeakTableChunked_eq_ok_iff.mp hr
  obtain ⟨-, hlt⟩ := WeakTable.Scheduled.length_entriesPackets hr
  refine ⟨fun hpos => absurd hpos (lt_irrefl 0), fun _ => ?_, fun _ => rfl, ?_, ?_, fun _ => ?_⟩
  · show r.afterAll.counter = _
    rw [hcounter, wrappingAdd_of_lt (by omega)]
    simp
  · intro p hp
    exact WeakTable.entriesPacketFor_span hentries p hp
  · intro p hp
    exact absurd hp (Multiset.notMem_zero p)
  · exact WeakTable.binsPacketFor_span hbins

/-- An entries packet counts down, and the last one releases the bins packets. -/
lemma countDown {p : UpdateTableEntriesParallel} (h : TableInv env t x uncut (p ::ₘ entries) bins)
    (hy : y.afterAll = x.afterAll.countDown.2.2) :
    TableInv env t y uncut entries (x.afterAll.countDown.2.1 + bins) := by
  have hcut : uncut = 0 := by
    by_contra hne
    exact Multiset.cons_ne_zero (h.notCut (Nat.pos_of_ne_zero hne)).1
  have hbins : bins = 0 := h.heldBack Multiset.cons_ne_zero
  subst hcut hbins
  have hcounter : x.afterAll.counter = Multiset.card entries + 1 := by
    rw [h.counter rfl, Multiset.card_cons]
  have hentries : ∀ q ∈ entries, (env.weakTable t).entriesPacketFor q.span = q :=
    fun q hq => h.entriesOf q (Multiset.mem_cons_of_mem hq)
  by_cases hlast : entries = 0
  · subst hlast
    have hdown : x.afterAll.countDown =
        (true, x.afterAll.packets, ⟨0, x.afterAll.stage, []⟩) := by
      simp [AfterAll.countDown, AfterAll.fetchSub, AfterAll.takePackets, hcounter, wrappingSub]
    rw [hdown] at hy ⊢
    refine ⟨by simp, by simp [hy], by simp, by simp, ?_, by simp [hy]⟩
    intro q hq
    exact h.deferredOf rfl q (by simpa using hq)
  · have hdown : x.afterAll.countDown =
        (false, [], { x.afterAll with counter := Multiset.card entries }) := by
      simp [AfterAll.countDown, AfterAll.fetchSub, hcounter, wrappingSub, hlast]
    rw [hdown] at hy ⊢
    refine ⟨by simp, by simp [hy], by simp, hentries, by simp, ?_⟩
    rw [hy]
    exact h.deferredOf

/-- Packets of different passes are never in the bucket together. -/
lemma exclusive (h : TableInv env t x uncut entries bins) :
    (uncut = 0 ∨ entries = 0 ∧ bins = 0) ∧ (entries = 0 ∨ bins = 0) := by
  refine ⟨?_, ?_⟩
  · rcases Nat.eq_zero_or_pos uncut with hzero | hpos
    · exact Or.inl hzero
    · exact Or.inr (h.notCut hpos)
  · by_cases hentries : entries = 0
    · exact Or.inl hentries
    · exact Or.inr (h.heldBack hentries)

/-- A bins packet leaves the counter alone. -/
lemma execBins {p : UpdateTableBinsParallel} (h : TableInv env t x uncut entries (p ::ₘ bins))
    (hy : y.afterAll = x.afterAll) : TableInv env t y uncut entries bins := by
  have hentries : entries = 0 := by
    by_contra hne
    exact Multiset.cons_ne_zero (h.heldBack hne)
  have hcut : uncut = 0 := by
    by_contra hne
    exact Multiset.cons_ne_zero (h.notCut (Nat.pos_of_ne_zero hne)).2
  subst hentries hcut
  refine ⟨by simp, fun _ => ?_, by simp, by simp, ?_, fun _ => ?_⟩
  · rw [hy]
    exact h.counter rfl
  · exact fun q hq => h.binsOf q (Multiset.mem_cons_of_mem hq)
  · rw [hy]
    exact h.deferredOf rfl

end TableInv

namespace Inv

variable {c c' : PoolConfig (State E B G) Packet}

lemma serial_add (h : Inv env c) {p : Packet} {rest released : Multiset Packet}
    (hp : c.pool = p ::ₘ rest)
    (hserial : released.countP (·.isSerial) ≤ if p.isSerial then 1 else 0) :
    (released + rest).countP (·.isSerial) ≤ 1 := by
  have hle := h.serial
  rw [hp, Multiset.countP_cons] at hle
  rw [Multiset.countP_add]
  omega

/-- A packet that neither touches a table nor cuts one. -/
lemma frame (h : Inv env c) {i : Component} {p : Packet} {rest released : Multiset Packet}
    {x : State E B G i} (hp : c.pool = p ::ₘ rest) (htable : ∀ t, Component.chunkedTable t ≠ i)
    (hserial : released.countP (·.isSerial) ≤ if p.isSerial then 1 else 0)
    (hgivtbls : GivtblState.LeftByCopies (Function.update c.state i x .givtbls))
    (hview : ∀ t, view t released = p.view t) :
    Inv env ⟨Function.update c.state i x, released + rest⟩ := by
  refine ⟨h.serial_add hp hserial, hgivtbls, fun t => ?_⟩
  have htab := h.tables t
  rw [hp, view_cons, ← hview t, ← view_add] at htab
  simpa only [Function.update_of_ne (htable t)] using htab

/-- A packet of the table `t`. -/
lemma ofTable (h : Inv env c) {t : ChunkedTable} {p : Packet} {rest released : Multiset Packet}
    {x : ChunkedTableState E B} (hp : c.pool = p ::ₘ rest)
    (hserial : released.countP (·.isSerial) ≤ if p.isSerial then 1 else 0)
    (hview : ∀ t', t' ≠ t → view t' released = p.view t')
    (ht : TableInv env t x (view t released + view t rest).1 (view t released + view t rest).2.1
      (view t released + view t rest).2.2) :
    Inv env ⟨Function.update c.state (.chunkedTable t) x, released + rest⟩ := by
  refine ⟨h.serial_add hp hserial, ?_, fun t' => ?_⟩
  · have hne : Component.givtbls ≠ .chunkedTable t := by simp
    simpa only [Function.update_of_ne hne] using h.givtbls
  · by_cases heq : t' = t
    · subst heq
      simpa only [Function.update_self, view_add] using ht
    · have hne : Component.chunkedTable t' ≠ .chunkedTable t := by simpa using heq
      have htab := h.tables t'
      rw [hp, view_cons, ← hview t' heq, ← view_add] at htab
      simpa only [Function.update_of_ne hne] using htab

/-- What a packet in the bucket says about a table. -/
lemma table_of_cons (h : Inv env c) {t : ChunkedTable} {p : Packet} {rest : Multiset Packet}
    (hp : c.pool = p ::ₘ rest) :
    TableInv env t (c.state (.chunkedTable t)) ((p.view t).1 + (view t rest).1)
      ((p.view t).2.1 + (view t rest).2.1) ((p.view t).2.2 + (view t rest).2.2) := by
  have htab := h.tables t
  rwa [hp, view_cons] at htab

/-- `process_weak_refs` cuts the table `t` into packets. -/
lemma cut (h : Inv env c) {t : ChunkedTable} {rest : Multiset Packet} {r : WeakTable.Scheduled}
    (hr : (env.weakTable t).processWeakTableChunked env.profile env.binding
      (env.upcalls.stGetSizeInfo t) = .ok r)
    (hp : c.pool = .processWeakRefs (.processWeakTableChunked t) ::ₘ rest) :
    Inv env ⟨Function.update c.state (.chunkedTable t)
        { c.state (.chunkedTable t) with afterAll := r.afterAll },
      .processWeakRefs (Pc.afterTable t) ::ₘ
        (r.entriesPackets : Multiset _).map (.updateTableEntriesParallel t) + rest⟩ := by
  -- nothing of the table is in the bucket before this packet is executed
  have hrest : view t rest = 0 := by
    have hserial := h.serial
    have hle := view_fst_le t rest
    rw [hp, Multiset.countP_cons_of_pos _ (by simp [Packet.isSerial])] at hserial
    obtain ⟨hentries, hbins⟩ := (h.table_of_cons (t := t) hp).notCut (by simp)
    refine Prod.ext ?_ (Prod.ext ?_ ?_)
    · simp only [Prod.fst_zero]
      omega
    · simpa using hentries
    · simpa using hbins
  refine h.ofTable hp ?_ ?_ ?_
  · rw [Multiset.countP_cons, countP_isSerial_map fun _ => rfl, zero_add]
    exact le_refl 1
  · intro t' ht'
    rw [view_cons, view_entriesPackets, if_neg ht'.symm]
    revert ht'
    cases t <;> cases t' <;> simp [Packet.view, Pc.isBefore, Pc.afterTable]
  · have hview : view t (.processWeakRefs (Pc.afterTable t) ::ₘ
        (r.entriesPackets : Multiset _).map (.updateTableEntriesParallel t)) =
          (0, (r.entriesPackets : Multiset _), 0) := by
      rw [view_cons, view_entriesPackets, if_pos rfl]
      cases t <;> simp [Packet.view, Pc.isBefore, Pc.afterTable]
    rw [hrest, hview, add_zero]
    exact .cut hr

lemma step (h : Inv env c) (hstep : (bucket env).Step c c') : Inv env c' := by
  cases hstep with
  | @exec i p rest released x hp hexec =>
    have hexec' : Exec env i p (c.state i) x released := hexec
    cases hexec' with
    | addProcessObjFreeCandidates | addRemoveDeadPPPs | processObjFreeCandidates
    | updateWbUnprotectedObjectsList | removeDeadPPPs =>
      exact h.frame hp (by simp) (by decide) h.givtbls fun t => rfl
    | bulkAdd => exact h.frame hp (by simp) (by decide) h.givtbls fun t => by cases t <;> rfl
    | updateGlobalTable | unpinPPPChildren =>
      exact h.frame hp (by simp) (by simp) h.givtbls fun t => rfl
    | processWeakTableChunked hr => exact h.cut hr hp
    | @takePinnedPppChildren _ _ packet hok =>
      refine h.frame hp (by simp) ?_ h.givtbls fun t => ?_
      · refine (Multiset.countP_le_card _ _).trans ?_
        cases packet with
        | none => exact Nat.zero_le 1
        | some packet => exact Nat.le_refl 1
      · cases packet <;> rfl
    | updateGenericIvTbl order =>
      refine h.frame hp (by simp) (by decide) ?_ fun t => rfl
      -- nothing is left to be moved
      refine ⟨[], ?_, by simp, by simp, by simp, by simp⟩
      intro objref entry
      simp [WeakProcessor.updateGenericIvTbl, WeakProcessor.drainMovedGivtbl]
    | @updateTableEntriesParallel t p =>
      have htab := h.table_of_cons (t := t) hp
      simp only [Packet.view_entries, zero_add, Multiset.singleton_add] at htab
      refine h.ofTable hp ?_ ?_ ?_
      · rw [countP_isSerial_map fun _ => rfl]
        exact Nat.zero_le _
      · intro t' ht'
        rw [view_binsPackets, if_neg ht'.symm, Packet.view, if_neg ht'.symm]
      · simp only [view_binsPackets, if_pos, Prod.fst_add, Prod.snd_add, zero_add]
        exact htab.countDown rfl
    | @updateTableBinsParallel t p =>
      have htab := h.table_of_cons (t := t) hp
      simp only [Packet.view_bins, zero_add, Multiset.singleton_add] at htab
      refine h.ofTable hp (by simp) ?_ ?_
      · intro t' ht'
        rw [Packet.view, if_neg ht'.symm, view_zero]
      · rw [view_zero, zero_add]
        exact htab.execBins rfl

end Inv

end WeakRefs

end MmtkRuby
