import Mathlib.Data.Finsupp.Defs
import Mathlib.Tactic.Common

/-!
# Renaming the keys of a finite map

A finite map binds finitely many keys, and the others are at zero. Bindings are moved from key to
key, one after the other. When every move is to a key that is neither bound nor a source or a target
of another move, the order of the moves does not matter, and no binding is lost or overwritten.
-/

namespace Core

variable {K V : Type*} [Zero V]

/-- The binding of `p.1` has moved to `p.2`. -/
structure Moved (p : K × K) (f f' : K →₀ V) : Prop where
  target : f' p.2 = f p.1
  source : f' p.1 = 0
  other : ∀ k, k ≠ p.1 → k ≠ p.2 → f' k = f k

/-- All the bindings of `ps` have moved, each in one go. -/
structure Renamed (ps : List (K × K)) (f f' : K →₀ V) : Prop where
  target : ∀ p ∈ ps, f' p.2 = f p.1
  source : ∀ p ∈ ps, f' p.1 = 0
  other : ∀ k, (∀ p ∈ ps, k ≠ p.1 ∧ k ≠ p.2) → f' k = f k

/-- The moves `ps` do not get in each other's way, nor in that of the bindings of `f`. -/
structure Apart (ps : List (K × K)) (f : K →₀ V) : Prop where
  sources : (ps.map Prod.fst).Nodup
  targets : (ps.map Prod.snd).Nodup
  apart : ∀ p ∈ ps, ∀ q ∈ ps, p ≠ q → p.1 ≠ q.2
  free : ∀ p ∈ ps, f p.2 = 0

variable {ps : List (K × K)} {f f' : K →₀ V}

namespace Apart

lemma eq_of_fst_eq (h : Apart ps f) {p q : K × K} (hp : p ∈ ps) (hq : q ∈ ps)
    (heq : p.1 = q.1) : p = q :=
  List.inj_on_of_nodup_map h.sources hp hq heq

lemma eq_of_snd_eq (h : Apart ps f) {p q : K × K} (hp : p ∈ ps) (hq : q ∈ ps)
    (heq : p.2 = q.2) : p = q :=
  List.inj_on_of_nodup_map h.targets hp hq heq

lemma perm {qs : List (K × K)} (h : Apart ps f) (hp : ps.Perm qs) : Apart qs f where
  sources := (hp.map Prod.fst).nodup_iff.mp h.sources
  targets := (hp.map Prod.snd).nodup_iff.mp h.targets
  apart p hp' q hq := h.apart p (hp.mem_iff.mpr hp') q (hp.mem_iff.mpr hq)
  free p hp' := h.free p (hp.mem_iff.mpr hp')

lemma filter (h : Apart ps f) (b : K × K → Bool) : Apart (ps.filter b) f where
  sources := h.sources.sublist (List.filter_sublist.map Prod.fst)
  targets := h.targets.sublist (List.filter_sublist.map Prod.snd)
  apart p hp q hq := h.apart p (List.mem_of_mem_filter hp) q (List.mem_of_mem_filter hq)
  free p hp := h.free p (List.mem_of_mem_filter hp)

/-- No key of the first move is one of the others. -/
lemma of_mem_tail {p q : K × K} (h : Apart (p :: ps) f) (hq : q ∈ ps) :
    q.1 ≠ p.1 ∧ q.2 ≠ p.2 ∧ q.1 ≠ p.2 ∧ p.1 ≠ q.2 := by
  have hp := List.mem_cons_self (a := p) (l := ps)
  have hq' := List.mem_cons_of_mem p hq
  have hfst : q.1 ≠ p.1 := by
    intro heq
    exact (List.nodup_cons.mp h.sources).1 (heq ▸ List.mem_map_of_mem hq)
  have hsnd : q.2 ≠ p.2 := by
    intro heq
    exact (List.nodup_cons.mp h.targets).1 (heq ▸ List.mem_map_of_mem hq)
  have hne : q ≠ p := fun heq => hfst (congrArg Prod.fst heq)
  exact ⟨hfst, hsnd, h.apart q hq' p hp hne, h.apart p hp q hq' hne.symm⟩

/-- The moves after the first one are still apart. -/
lemma tail {p : K × K} (h : Apart (p :: ps) f) (hmoved : Moved p f f') : Apart ps f' where
  sources := (List.nodup_cons.mp h.sources).2
  targets := (List.nodup_cons.mp h.targets).2
  apart q hq r hr := h.apart q (List.mem_cons_of_mem _ hq) r (List.mem_cons_of_mem _ hr)
  free q hq := by
    have hq' := List.mem_cons_of_mem p hq
    obtain ⟨-, htarget, -, hsource⟩ := h.of_mem_tail hq
    rw [hmoved.other q.2 hsource.symm htarget]
    exact h.free q hq'

end Apart

namespace Renamed

lemma nil (f : K →₀ V) : Renamed [] f f := ⟨by simp, by simp, fun _ _ => rfl⟩

/-- One move and then the others. -/
lemma cons {p : K × K} {g : K →₀ V} (hapart : Apart (p :: ps) f) (hmoved : Moved p f g)
    (h : Renamed ps g f') : Renamed (p :: ps) f f' := by
  refine ⟨?_, ?_, ?_⟩
  · intro q hq
    rcases List.mem_cons.mp hq with rfl | hq
    · rw [h.other _ fun r hr => ?_, hmoved.target]
      obtain ⟨-, hsnd, hcross, -⟩ := hapart.of_mem_tail hr
      exact ⟨hcross.symm, hsnd.symm⟩
    · obtain ⟨hfst, -, hcross, -⟩ := hapart.of_mem_tail hq
      rw [h.target q hq, hmoved.other _ hfst hcross]
  · intro q hq
    rcases List.mem_cons.mp hq with rfl | hq
    · rw [h.other _ fun r hr => ?_, hmoved.source]
      obtain ⟨hfst, -, -, hcross⟩ := hapart.of_mem_tail hr
      exact ⟨hfst.symm, hcross⟩
    · exact h.source q hq
  · intro k hk
    have hhead := hk p (List.mem_cons_self ..)
    rw [h.other k fun q hq => hk q (List.mem_cons_of_mem _ hq),
      hmoved.other k hhead.1 hhead.2]

/-- Moves in sequence rename, whatever their order. -/
theorem foldl {move : (K →₀ V) → K → K → K →₀ V} (ps : List (K × K)) (f : K →₀ V)
    (hmove : ∀ g o n, g o ≠ 0 → g n = 0 → o ≠ n → Moved (o, n) g (move g o n))
    (hapart : Apart ps f) (hbound : ∀ p ∈ ps, f p.1 ≠ 0) :
    Renamed ps f (ps.foldl (fun g p => move g p.1 p.2) f) := by
  induction ps generalizing f with
  | nil => exact nil f
  | cons p ps ih =>
    have hp := List.mem_cons_self (a := p) (l := ps)
    have hne : p.1 ≠ p.2 := fun heq => hbound p hp (heq ▸ hapart.free p hp)
    have hmoved := hmove f p.1 p.2 (hbound p hp) (hapart.free p hp) hne
    rw [List.foldl_cons]
    refine cons hapart hmoved (ih _ (hapart.tail hmoved) fun q hq => ?_)
    obtain ⟨hfst, -, hcross, -⟩ := hapart.of_mem_tail hq
    rw [hmoved.other q.1 hfst hcross]
    exact hbound q (List.mem_cons_of_mem p hq)

/-- The order in which the moves are listed does not matter. -/
lemma of_mem_iff {qs : List (K × K)} (h : Renamed ps f f') (hmem : ∀ p, p ∈ ps ↔ p ∈ qs) :
    Renamed qs f f' where
  target p hp := h.target p ((hmem p).mpr hp)
  source p hp := h.source p ((hmem p).mpr hp)
  other k hk := h.other k fun p hp => hk p ((hmem p).mp hp)

/-- The result is determined by the moves. -/
theorem unique {f'' : K →₀ V} (h : Renamed ps f f') (h' : Renamed ps f f'') : f' = f'' := by
  ext k
  by_cases hk : ∀ p ∈ ps, k ≠ p.1 ∧ k ≠ p.2
  · rw [h.other k hk, h'.other k hk]
  · push Not at hk
    obtain ⟨p, hp, himp⟩ := hk
    by_cases hsource : k = p.1
    · rw [hsource, h.source p hp, h'.source p hp]
    · rw [himp hsource, h.target p hp, h'.target p hp]

/-- Moves of keys that are not bound change nothing. -/
lemma of_filter {b : K × K → Bool} (hapart : Apart ps f)
    (hunbound : ∀ p ∈ ps, b p = false → f p.1 = 0) (h : Renamed (ps.filter b) f f') :
    Renamed ps f f' := by
  have hother : ∀ p ∈ ps, b p = false → f' p.1 = 0 ∧ f' p.2 = 0 := by
    intro p hp hb
    have hne : ∀ q ∈ ps.filter b, p ≠ q := by
      rintro q hq rfl
      rw [(List.mem_filter.mp hq).2] at hb
      cases hb
    have hfst : f' p.1 = f p.1 := by
      refine h.other _ fun q hq => ⟨fun heq => ?_, ?_⟩
      · exact hne q hq (hapart.eq_of_fst_eq hp (List.mem_of_mem_filter hq) heq)
      · exact hapart.apart p hp q (List.mem_of_mem_filter hq) (hne q hq)
    have hsnd : f' p.2 = f p.2 := by
      refine h.other _ fun q hq => ⟨?_, fun heq => ?_⟩
      · exact (hapart.apart q (List.mem_of_mem_filter hq) p hp (hne q hq).symm).symm
      · exact hne q hq (hapart.eq_of_snd_eq hp (List.mem_of_mem_filter hq) heq)
    rw [hfst, hsnd]
    exact ⟨hunbound p hp hb, hapart.free p hp⟩
  refine ⟨?_, ?_, fun k hk => h.other k fun p hp => hk p (List.mem_of_mem_filter hp)⟩
  · intro p hp
    cases hb : b p with
    | false => rw [(hother p hp hb).2, hunbound p hp hb]
    | true => exact h.target p (List.mem_filter.mpr ⟨hp, hb⟩)
  · intro p hp
    cases hb : b p with
    | false => exact (hother p hp hb).1
    | true => exact h.source p (List.mem_filter.mpr ⟨hp, hb⟩)

end Renamed

/-! ### Where a key has gone -/

section Current

variable [DecidableEq K]

/-- The key that a key has become. -/
def current (ps : List (K × K)) (k : K) : K :=
  ((ps.find? fun p => p.1 = k).map Prod.snd).getD k

lemma current_of_mem (hapart : Apart ps f) {p : K × K} (hp : p ∈ ps) : current ps p.1 = p.2 := by
  have hfind : ps.find? (fun q => decide (q.1 = p.1)) = some p := by
    have hsome : (ps.find? fun q => decide (q.1 = p.1)).isSome := by
      rw [List.find?_isSome]
      exact ⟨p, hp, decide_eq_true rfl⟩
    obtain ⟨q, hq⟩ := Option.isSome_iff_exists.mp hsome
    have heq : q.1 = p.1 := by simpa using List.find?_some hq
    rw [hq, hapart.eq_of_fst_eq (List.mem_of_find?_eq_some hq) hp heq]
  rw [current, hfind, Option.map_some, Option.getD_some]

lemma current_of_notMem {k : K} (hk : ∀ p ∈ ps, p.1 ≠ k) : current ps k = k := by
  have hfind : ps.find? (fun q => decide (q.1 = k)) = none := by
    rw [List.find?_eq_none]
    intro p hp
    simpa using hk p hp
  rw [current, hfind, Option.map_none, Option.getD_none]

/-- What is bound after the renaming: each binding of before, under the current key. -/
theorem Renamed.eq_iff (h : Renamed ps f f') (hapart : Apart ps f) {k : K} {v : V} (hv : v ≠ 0) :
    f' k = v ↔ ∃ o, current ps o = k ∧ f o = v := by
  constructor
  · intro hk
    by_cases hnone : ∀ p ∈ ps, k ≠ p.1 ∧ k ≠ p.2
    · exact ⟨k, current_of_notMem fun p hp => (hnone p hp).1.symm, (h.other k hnone).symm.trans hk⟩
    · push Not at hnone
      obtain ⟨p, hp, himp⟩ := hnone
      have hsource : k ≠ p.1 := by
        rintro rfl
        exact hv (hk.symm.trans (h.source p hp))
      obtain rfl := himp hsource
      exact ⟨p.1, current_of_mem hapart hp, (h.target p hp).symm.trans hk⟩
  · rintro ⟨o, rfl, ho⟩
    by_cases hmem : ∃ p ∈ ps, p.1 = o
    · obtain ⟨p, hp, rfl⟩ := hmem
      rw [current_of_mem hapart hp, h.target p hp, ho]
    · push Not at hmem
      rw [current_of_notMem hmem, h.other o fun p hp => ⟨(hmem p hp).symm, ?_⟩, ho]
      rintro rfl
      exact hv (ho.symm.trans (hapart.free p hp))

/-- No two bindings have come to the same key. -/
lemma current_injOn (hapart : Apart ps f) {k l : K} (hk : f k ≠ 0) (hl : f l ≠ 0)
    (heq : current ps k = current ps l) : k = l := by
  have hcases : ∀ m, f m ≠ 0 → (∃ p ∈ ps, p.1 = m ∧ current ps m = p.2) ∨
      ((∀ p ∈ ps, m ≠ p.2) ∧ current ps m = m) := by
    intro m hm
    by_cases hmem : ∃ p ∈ ps, p.1 = m
    · obtain ⟨p, hp, rfl⟩ := hmem
      exact Or.inl ⟨p, hp, rfl, current_of_mem hapart hp⟩
    · push Not at hmem
      refine Or.inr ⟨fun p hp hmp => hm ?_, current_of_notMem hmem⟩
      rw [hmp, hapart.free p hp]
  rcases hcases k hk with ⟨p, hp, rfl, hcp⟩ | ⟨hnk, hck⟩ <;>
    rcases hcases l hl with ⟨q, hq, rfl, hcq⟩ | ⟨hnl, hcl⟩
  · rw [hapart.eq_of_snd_eq hp hq (hcp.symm.trans (heq.trans hcq))]
  · exact absurd (hcl.symm.trans (heq.symm.trans hcp)) (hnl p hp)
  · exact absurd (hck.symm.trans (heq.trans hcq)) (hnk q hq)
  · exact hck.symm.trans (heq.trans hcl)

/-- No binding is lost, and none is added. -/
theorem Renamed.card_support (h : Renamed ps f f') (hapart : Apart ps f) :
    f'.support.card = f.support.card := by
  symm
  refine Finset.card_bij (fun k _ => current ps k) ?_ ?_ ?_
  · intro k hk
    rw [Finsupp.mem_support_iff] at hk ⊢
    rw [(h.eq_iff hapart hk).mpr ⟨k, rfl, rfl⟩]
    exact hk
  · intro k hk l hl heq
    rw [Finsupp.mem_support_iff] at hk hl
    exact current_injOn hapart hk hl heq
  · intro k hk
    rw [Finsupp.mem_support_iff] at hk
    obtain ⟨o, ho, hfo⟩ := (h.eq_iff hapart hk).mp rfl
    refine ⟨o, ?_, ho⟩
    rw [Finsupp.mem_support_iff, hfo]
    exact hk

end Current

end Core
