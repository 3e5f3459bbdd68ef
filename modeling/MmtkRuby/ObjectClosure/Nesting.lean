import MmtkRuby.ObjectClosure

/-!
# Nested uses of the object closure

A GC thread has one `object_closure`, which `set_temporarily_and_run_code` sets before it runs the
code that it is given and resets to the default afterwards, not to what it was before. It is not
reentrant: this says what becomes of code that uses it recursively all the same.
-/

namespace MmtkRuby

/-- A closure over the captured variables `σ`, as C code can call it. -/
abbrev VisitObject (σ : Type*) := σ → ObjectReference → Bool → σ × ObjectReference

/-- Code on a GC thread: it visits objects through the `object_closure`, and calls
`set_temporarily_and_run_code` with code of the same kind, after which it goes on. -/
inductive GcThreadCode (σ : Type*) where
  | done
  | visit (object : ObjectReference) (pin : Bool) (next : ObjectReference → GcThreadCode σ)
  | setTemporarilyAndRunCode (visitObject : VisitObject σ) (f : GcThreadCode σ)
      (next : σ → GcThreadCode σ)

/-- The panics of `abi.rs` that concern the closure. -/
inductive ObjectClosurePanic where
  /-- `set_temporarily_and_run_code is recursively called.` -/
  | recursivelyCalled
  /-- `object_closure is not set.  worker ordinal: {}, object: {}, pin: {}` -/
  | notSet (object : ObjectReference) (pin : Bool)

namespace GcThreadCode

variable {σ : Type*}

/-- Run code on a thread with the given `object_closure`: `none` is the default, which panics
(`c_function_unregistered`). -/
def run (profile : Profile) :
    GcThreadCode σ → Option (VisitObject σ) → σ →
      Except ObjectClosurePanic (σ × Option (VisitObject σ))
  | .done, closure, s => .ok (s, closure)
  | .visit object pin _, none, _ => .error (.notSet object pin)
  | .visit object pin next, some visitObject, s =>
    run profile (next (visitObject s object pin).2) (some visitObject) (visitObject s object pin).1
  | .setTemporarilyAndRunCode visitObject f next, closure, s =>
    if profile = .debug ∧ closure.isSome then .error .recursivelyCalled
    else
      match run profile f (some visitObject) s with
      | .error e => .error e
      | .ok (s, _) => run profile (next s) none s

/-- What the code is meant to do: every visit is answered by the closure of the innermost call
around it. -/
def runScoped :
    GcThreadCode σ → Option (VisitObject σ) → σ → Except ObjectClosurePanic σ
  | .done, _, s => .ok s
  | .visit object pin _, none, _ => .error (.notSet object pin)
  | .visit object pin next, some visitObject, s =>
    runScoped (next (visitObject s object pin).2) (some visitObject) (visitObject s object pin).1
  | .setTemporarilyAndRunCode visitObject f next, closure, s =>
    match runScoped f (some visitObject) s with
    | .error e => .error e
    | .ok s => runScoped (next s) closure s

/-- In the run, no call of `set_temporarily_and_run_code` is made inside another. -/
def Flat : GcThreadCode σ → Option (VisitObject σ) → σ → Prop
  | .done, _, _ => True
  | .visit _ _ _, none, _ => True
  | .visit object pin next, some visitObject, s =>
    Flat (next (visitObject s object pin).2) (some visitObject) (visitObject s object pin).1
  | .setTemporarilyAndRunCode visitObject f next, closure, s =>
    closure = none ∧ Flat f (some visitObject) s ∧
      ∀ s', runScoped f (some visitObject) s = .ok s' → Flat (next s') closure s'

/-- In the run, the code around a nested call visits nothing after it. The flag says that the
closure has been reset by such a call. -/
def Undisturbed : GcThreadCode σ → Option (VisitObject σ) → Bool → σ → Prop
  | .done, _, _, _ => True
  | .visit _ _ _, none, _, _ => True
  | .visit object pin next, some visitObject, reset, s =>
    reset = false ∧ Undisturbed (next (visitObject s object pin).2) (some visitObject) false
      (visitObject s object pin).1
  | .setTemporarilyAndRunCode visitObject f next, closure, _, s =>
    Undisturbed f (some visitObject) false s ∧
      ∀ s', runScoped f (some visitObject) s = .ok s' → Undisturbed (next s') closure true s'

/-- A thread whose closure is that of the innermost call or has been reset by a nested one does
what it is meant to do, as long as it does not panic. -/
lemma runScoped_of_run {profile : Profile} {p : GcThreadCode σ}
    {closure innermost : Option (VisitObject σ)} (hclosure : closure = innermost ∨ closure = none)
    {s s' : σ} {closure' : Option (VisitObject σ)}
    (h : p.run profile closure s = .ok (s', closure')) : p.runScoped innermost s = .ok s' := by
  induction p generalizing closure innermost s s' closure' with
  | done =>
    obtain ⟨rfl, -⟩ := Prod.mk.inj (Except.ok.inj h)
    rfl
  | visit object pin next ih =>
    cases closure with
    | none => cases h
    | some visitObject =>
      obtain rfl : innermost = some visitObject := by simpa [eq_comm] using hclosure
      exact ih _ (Or.inl rfl) h
  | setTemporarilyAndRunCode visitObject f next ihf ihnext =>
    rw [run] at h
    split_ifs at h
    cases hf : f.run profile (some visitObject) s with
    | error e =>
      rw [hf] at h
      cases h
    | ok result =>
      rw [hf] at h
      rw [runScoped, ihf (Or.inl rfl) hf]
      exact ihnext _ (Or.inr rfl) h

/-- Without nested calls both profiles do what is meant, panics included. -/
lemma run_of_flat {profile : Profile} {p : GcThreadCode σ} {closure : Option (VisitObject σ)}
    {s : σ} (h : p.Flat closure s) :
    p.run profile closure s = (p.runScoped closure s).map (·, closure) := by
  induction p generalizing closure s with
  | done => rfl
  | visit object pin next ih =>
    cases closure with
    | none => rfl
    | some visitObject => exact ih _ h
  | setTemporarilyAndRunCode visitObject f next ihf ihnext =>
    obtain ⟨rfl, hf, hnext⟩ := h
    rw [run, runScoped, ihf hf]
    simp only [Option.isSome_none, Bool.false_eq_true, and_false, ↓reduceIte]
    cases hrun : f.runScoped (some visitObject) s with
    | error e => rfl
    | ok s' => exact ihnext _ (hnext s' hrun)

/-- A debug build returns from no run with a nested call. -/
lemma flat_of_run_debug {p : GcThreadCode σ} {closure : Option (VisitObject σ)} {s : σ}
    {result : σ × Option (VisitObject σ)} (h : p.run .debug closure s = .ok result) :
    p.Flat closure s := by
  induction p generalizing closure s result with
  | done => trivial
  | visit object pin next ih =>
    cases closure with
    | none => cases h
    | some visitObject => exact ih _ h
  | setTemporarilyAndRunCode visitObject f next ihf ihnext =>
    rw [run] at h
    split_ifs at h with hnested
    have hclosure : closure = none := by simpa using hnested
    subst hclosure
    cases hf : f.run .debug (some visitObject) s with
    | error e =>
      rw [hf] at h
      cases h
    | ok result' =>
      rw [hf] at h
      refine ⟨rfl, ihf hf, fun s' hs' => ?_⟩
      rw [runScoped_of_run (Or.inl rfl) hf, Except.ok.injEq] at hs'
      subst hs'
      exact ihnext _ h

/-! ### Release builds -/

/-- Whoever starts with the default closure ends with it. -/
lemma closure_of_run {profile : Profile} {p : GcThreadCode σ} {s s' : σ}
    {closure' : Option (VisitObject σ)} (h : p.run profile none s = .ok (s', closure')) :
    closure' = none := by
  induction p generalizing s s' closure' with
  | done => exact (Prod.mk.inj (Except.ok.inj h)).2.symm
  | visit object pin next ih => cases h
  | setTemporarilyAndRunCode visitObject f next ihf ihnext =>
    rw [run] at h
    split_ifs at h
    cases hf : f.run profile (some visitObject) s with
    | error e =>
      rw [hf] at h
      cases h
    | ok result =>
      rw [hf] at h
      exact ihnext _ h

/-- The closure that the thread has when the innermost call has set `closure`. -/
def current (closure : Option (VisitObject σ)) (reset : Bool) : Option (VisitObject σ) :=
  if reset then none else closure

lemma undisturbed_of_run_release {p : GcThreadCode σ} {closure : Option (VisitObject σ)}
    (reset : Bool) {s : σ} {result : σ × Option (VisitObject σ)}
    (h : p.run .release (current closure reset) s = .ok result) :
    p.Undisturbed closure reset s := by
  induction p generalizing closure reset s result with
  | done => trivial
  | visit object pin next ih =>
    cases closure with
    | none => trivial
    | some visitObject =>
      cases reset with
      | true => cases h
      | false => exact ⟨rfl, ih _ false h⟩
  | setTemporarilyAndRunCode visitObject f next ihf ihnext =>
    rw [run, if_neg (by simp)] at h
    cases hf : f.run .release (some visitObject) s with
    | error e =>
      rw [hf] at h
      cases h
    | ok result' =>
      rw [hf] at h
      refine ⟨ihf false hf, fun s' hs' => ?_⟩
      rw [runScoped_of_run (Or.inl rfl) hf, Except.ok.injEq] at hs'
      subst hs'
      exact ihnext _ true h

lemma run_release_of_undisturbed {p : GcThreadCode σ} {closure : Option (VisitObject σ)}
    {reset : Bool} {s s' : σ} (h : p.Undisturbed closure reset s)
    (hs' : p.runScoped closure s = .ok s') :
    ∃ closure', p.run .release (current closure reset) s = .ok (s', closure') := by
  induction p generalizing closure reset s s' with
  | done =>
    obtain rfl := Except.ok.inj hs'
    exact ⟨_, rfl⟩
  | visit object pin next ih =>
    cases closure with
    | none => cases hs'
    | some visitObject =>
      obtain ⟨rfl, h⟩ := h
      exact ih _ h hs'
  | setTemporarilyAndRunCode visitObject f next ihf ihnext =>
    obtain ⟨hf, hnext⟩ := h
    rw [runScoped] at hs'
    cases hrun : f.runScoped (some visitObject) s with
    | error e =>
      rw [hrun] at hs'
      cases hs'
    | ok s₁ =>
      rw [hrun] at hs'
      obtain ⟨closure₁, hf'⟩ := ihf hf hrun
      obtain ⟨closure', hnext'⟩ := ihnext _ (hnext s₁ hrun) hs'
      refine ⟨closure', ?_⟩
      rw [run, if_neg (by simp), show f.run .release (some visitObject) s = _ from hf']
      exact hnext'

/-! ### The code of the binding -/

/-- C code that only visits objects. -/
def ofUpcall : Upcall → GcThreadCode σ
  | .done => .done
  | .visit object pin next => .visit object pin fun answer => ofUpcall (next answer)

lemma runScoped_ofUpcall (visitObject : VisitObject σ) (f : Upcall) (s : σ) :
    (ofUpcall f).runScoped (some visitObject) s = .ok (f.run visitObject s) := by
  induction f generalizing s with
  | done => rfl
  | visit object pin next ih => exact ih _ _

lemma flat_ofUpcall (visitObject : VisitObject σ) (f : Upcall) (s : σ) :
    (ofUpcall f).Flat (some visitObject) s := by
  induction f generalizing s with
  | done => trivial
  | visit object pin next ih => exact ih _ _

/-- A worker that runs packets which give C code to `set_temporarily_and_run_code`. -/
def ofPackets : List (VisitObject σ × Upcall) → GcThreadCode σ
  | [] => .done
  | (visitObject, f) :: packets =>
    .setTemporarilyAndRunCode visitObject (ofUpcall f) fun _ => ofPackets packets

lemma flat_ofPackets (packets : List (VisitObject σ × Upcall)) (s : σ) :
    (ofPackets packets).Flat none s := by
  induction packets generalizing s with
  | nil => trivial
  | cons packet packets ih => exact ⟨rfl, flat_ofUpcall _ _ _, fun s' _ => ih s'⟩

/-- What the packets do, one after the other. -/
lemma run_ofPackets (profile : Profile) (packets : List (VisitObject σ × Upcall)) (s : σ) :
    (ofPackets packets).run profile none s =
      .ok (packets.foldl (fun s p => p.2.run p.1 s) s, none) := by
  rw [run_of_flat (flat_ofPackets packets s)]
  suffices h : (ofPackets packets).runScoped none s =
      .ok (packets.foldl (fun s p => p.2.run p.1 s) s) by rw [h]; rfl
  induction packets generalizing s with
  | nil => rfl
  | cons packet packets ih =>
    rw [ofPackets, runScoped, runScoped_ofUpcall]
    exact ih _

/-- The `object_closure` as the packets of the other modules see it. -/
def view : Option (VisitObject σ) → ObjectClosure
  | none => .unregistered
  | some _ => .registered

/-- For C code that only visits objects, this is `set_temporarily_and_run_code` as the packets
use it. -/
lemma setTemporarilyAndRunCode_eq_ok_iff {profile : Profile} {closure : Option (VisitObject σ)}
    {visitObject : VisitObject σ} {f : Upcall} {s s' : σ} :
    (view closure).setTemporarilyAndRunCode profile visitObject f s = .ok (s', .unregistered) ↔
      (GcThreadCode.setTemporarilyAndRunCode visitObject (ofUpcall f) fun _ => .done).run profile
        closure s = .ok (s', none) := by
  have hf : (ofUpcall f).run profile (some visitObject) s =
      .ok (f.run visitObject s, some visitObject) := by
    rw [run_of_flat (flat_ofUpcall _ _ _), runScoped_ofUpcall]
    rfl
  cases closure <;> cases profile <;>
    simp [ObjectClosure.setTemporarilyAndRunCode, view, run, hf]

/-! ### Any code -/

variable (σ) in
/-- In a debug build exactly the code without nested calls returns, in a release build also that
which visits nothing after them; and what returns has done what it is meant to do. The packets of
the binding return in both, each call of theirs as the packets themselves use it. -/
structure Answered : Prop where
  debug : ∀ (p : GcThreadCode σ) (s s' : σ) closure', p.run .debug none s = .ok (s', closure') ↔
    p.Flat none s ∧ p.runScoped none s = .ok s' ∧ closure' = none
  release : ∀ (p : GcThreadCode σ) (s s' : σ) closure',
    p.run .release none s = .ok (s', closure') ↔
      p.Undisturbed none false s ∧ p.runScoped none s = .ok s' ∧ closure' = none
  packets : ∀ profile (packets : List (VisitObject σ × Upcall)) (s : σ),
    (ofPackets packets).run profile none s =
      .ok (packets.foldl (fun s p => p.2.run p.1 s) s, none)
  call : ∀ profile closure (visitObject : VisitObject σ) f (s s' : σ),
    (view closure).setTemporarilyAndRunCode profile visitObject f s = .ok (s', .unregistered) ↔
      (setTemporarilyAndRunCode visitObject (ofUpcall f) fun _ => .done).run profile closure s =
        .ok (s', none)

lemma run_debug_eq_ok_iff {p : GcThreadCode σ} {s s' : σ} {closure' : Option (VisitObject σ)} :
    p.run .debug none s = .ok (s', closure') ↔
      p.Flat none s ∧ p.runScoped none s = .ok s' ∧ closure' = none := by
  constructor
  · exact fun h => ⟨flat_of_run_debug h, runScoped_of_run (Or.inl rfl) h, closure_of_run h⟩
  · rintro ⟨hflat, hs', rfl⟩
    rw [run_of_flat hflat, hs']
    rfl

lemma run_release_eq_ok_iff {p : GcThreadCode σ} {s s' : σ} {closure' : Option (VisitObject σ)} :
    p.run .release none s = .ok (s', closure') ↔
      p.Undisturbed none false s ∧ p.runScoped none s = .ok s' ∧ closure' = none := by
  constructor
  · exact fun h => ⟨undisturbed_of_run_release false h,
      runScoped_of_run (Or.inl rfl) h, closure_of_run h⟩
  · rintro ⟨hundisturbed, hs', rfl⟩
    obtain ⟨closure', h⟩ := run_release_of_undisturbed hundisturbed hs'
    obtain rfl := closure_of_run h
    exact h

/-- No visit is ever answered by another closure than that of the innermost call around it. -/
theorem run_answered (σ : Type*) : Answered σ :=
  ⟨fun _ _ _ _ => run_debug_eq_ok_iff, fun _ _ _ _ => run_release_eq_ok_iff, run_ofPackets,
    fun _ _ _ _ _ _ => setTemporarilyAndRunCode_eq_ok_iff⟩

-- a nested call after which nothing is visited: a debug build panics, a release build does not
example (visitObject : VisitObject ℕ) :
    let p := GcThreadCode.setTemporarilyAndRunCode visitObject
      (.setTemporarilyAndRunCode visitObject .done fun _ => .done) fun _ => .done
    p.run .debug none 0 = .error .recursivelyCalled ∧ p.run .release none 0 = .ok (0, none) :=
  ⟨rfl, rfl⟩

end GcThreadCode

end MmtkRuby
