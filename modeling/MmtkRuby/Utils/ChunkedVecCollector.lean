import MmtkRuby.Core.Chunks

/-!
# `ChunkedVecCollector`
-/

namespace MmtkRuby

open Core

structure ChunkedVecCollector (T : Type*) where
  vecs : List (List T)
  currentVec : List T
  chunkSize : ℕ
deriving DecidableEq, Repr

namespace ChunkedVecCollector

variable {T : Type*}

def new (chunkSize : ℕ) : ChunkedVecCollector T := ⟨[], [], chunkSize⟩

def flush (c : ChunkedVecCollector T) : ChunkedVecCollector T :=
  { c with vecs := c.vecs ++ [c.currentVec], currentVec := [] }

def add (c : ChunkedVecCollector T) (item : T) : ChunkedVecCollector T :=
  let c := { c with currentVec := c.currentVec ++ [item] }
  if c.currentVec.length = c.chunkSize then c.flush else c

/-- The `Extend` instance. -/
def extend (c : ChunkedVecCollector T) (items : List T) : ChunkedVecCollector T :=
  items.foldl add c

def intoVecs (c : ChunkedVecCollector T) : List (List T) :=
  if c.currentVec.isEmpty then c.vecs else c.flush.vecs

/-- What the collector holds. -/
def chunker (c : ChunkedVecCollector T) : Chunker T := ⟨c.vecs, c.currentVec⟩

@[simp] lemma chunkSize_add (c : ChunkedVecCollector T) (item : T) :
    (c.add item).chunkSize = c.chunkSize := by
  simp only [add]
  split_ifs <;> rfl

/-- Since the pending vector is shorter than a chunk, it is full when it has that size exactly. -/
lemma chunker_add {c : ChunkedVecCollector T} (h : c.chunker.pending.length < c.chunkSize)
    (item : T) : (c.add item).chunker = c.chunker.add c.chunkSize item := by
  obtain ⟨vecs, currentVec, chunkSize⟩ := c
  have hiff : (currentVec ++ [item]).length = chunkSize ↔
      chunkSize ≤ (currentVec ++ [item]).length := by
    simp only [chunker] at h
    rw [List.length_append, List.length_singleton]
    omega
  dsimp only [add, chunker, Chunker.add, flush]
  by_cases hfull : chunkSize ≤ (currentVec ++ [item]).length
  · rw [if_pos hfull, if_pos (hiff.mpr hfull)]
  · rw [if_neg hfull, if_neg (mt hiff.mp hfull)]

lemma chunker_extend {c : ChunkedVecCollector T} (h : c.chunker.pending.length < c.chunkSize)
    (items : List T) :
    (c.extend items).chunker = items.foldl (Chunker.add c.chunkSize) c.chunker := by
  unfold extend
  induction items generalizing c with
  | nil => rfl
  | cons item items ih =>
    rw [List.foldl_cons, List.foldl_cons, ih, chunkSize_add, chunker_add h]
    rw [chunkSize_add, chunker_add h]
    exact Chunker.length_pending_add (by omega) _ _

lemma intoVecs_eq_finish (c : ChunkedVecCollector T) : c.intoVecs = c.chunker.finish := by
  obtain ⟨vecs, currentVec, chunkSize⟩ := c
  cases currentVec <;> rfl

/-- The vectors are the chunks of the items. -/
theorem intoVecs_extend_new {chunkSize : ℕ} (hpos : 1 ≤ chunkSize) (items : List T) :
    ((new chunkSize).extend items).intoVecs = chunks chunkSize items := by
  have hnew : (new chunkSize : ChunkedVecCollector T).chunker.pending.length <
      (new chunkSize : ChunkedVecCollector T).chunkSize := hpos
  rw [intoVecs_eq_finish, chunker_extend hnew]
  exact Chunker.finish_foldl_empty hpos items

/-! ### Any mix of calls -/

/-- A call of `add` or of `extend`. -/
inductive Call (T : Type*) where
  | add (item : T)
  | extend (items : List T)

/-- The items that a call is given. -/
def Call.items : Call T → List T
  | .add item => [item]
  | .extend items => items

def Call.run (c : ChunkedVecCollector T) : Call T → ChunkedVecCollector T
  | .add item => c.add item
  | .extend items => c.extend items

/-- What the calls make of a new collector. -/
def runCalls (chunkSize : ℕ) (calls : List (Call T)) : ChunkedVecCollector T :=
  calls.foldl Call.run (new chunkSize)

/-- It only matters which items are added, in which order. -/
lemma runCalls_eq_extend (chunkSize : ℕ) (calls : List (Call T)) :
    runCalls chunkSize calls = (new chunkSize).extend (calls.flatMap Call.items) := by
  have hrun : ∀ c : ChunkedVecCollector T,
      calls.foldl Call.run c = c.extend (calls.flatMap Call.items) := by
    induction calls with
    | nil => exact fun c => rfl
    | cons call calls ih =>
      intro c
      rw [List.foldl_cons, ih, List.flatMap_cons, extend, extend, List.foldl_append]
      cases call with
      | add item => rfl
      | extend items => rfl
  exact hrun (new chunkSize)

lemma length_currentVec_extend_lt {c : ChunkedVecCollector T}
    (h : c.currentVec.length < c.chunkSize) (items : List T) :
    (c.extend items).currentVec.length < (c.extend items).chunkSize := by
  unfold extend
  induction items generalizing c with
  | nil => exact h
  | cons item items ih =>
    apply ih
    have hadd := congrArg Chunker.pending (chunker_add h item)
    dsimp only [chunker] at hadd
    rw [hadd, chunkSize_add]
    exact Chunker.length_pending_add (Nat.zero_lt_of_lt h) _ _

@[simp] lemma chunkSize_extend (c : ChunkedVecCollector T) (items : List T) :
    (c.extend items).chunkSize = c.chunkSize := by
  unfold extend
  induction items generalizing c with
  | nil => rfl
  | cons item items ih => rw [List.foldl_cons, ih, chunkSize_add]

/-- Whatever mix of calls adds the items, they come out in chunks, and before each item the pending
vector is shorter than a chunk. -/
theorem runCalls_isChunking {chunkSize : ℕ} (hpos : 1 ≤ chunkSize) (calls : List (Call T)) :
    IsChunking chunkSize (calls.flatMap Call.items) (runCalls chunkSize calls).intoVecs ∧
      (runCalls chunkSize calls).currentVec.length < chunkSize ∧
      ∀ items, items <+: calls.flatMap Call.items →
        ((new chunkSize).extend items).currentVec.length < chunkSize := by
  have hpending : ∀ items : List T,
      ((new chunkSize).extend items).currentVec.length < chunkSize := by
    intro items
    have hnew : (new chunkSize : ChunkedVecCollector T).currentVec.length < chunkSize := hpos
    have h := length_currentVec_extend_lt hnew items
    rwa [chunkSize_extend] at h
  rw [runCalls_eq_extend, intoVecs_extend_new hpos]
  exact ⟨isChunking_chunks hpos _, hpending _, fun items _ => hpending items⟩

/-- Five items in two calls make two full vectors and one of a single item. -/
theorem runCalls_isChunking_five :
    (runCalls 2 [.extend [1, 2, 3], .extend [4, 5]]).intoVecs = [[1, 2], [3, 4], [5]] ∧
    IsChunking 2 [1, 2, 3, 4, 5] (runCalls 2 [.extend [1, 2, 3], .extend [4, 5]]).intoVecs :=
  ⟨rfl, (runCalls_isChunking (by decide) [.extend [1, 2, 3], .extend [4, 5]]).1⟩

end ChunkedVecCollector

end MmtkRuby
