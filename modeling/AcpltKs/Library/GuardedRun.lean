import Mathlib.Data.List.Basic

/-! Runs of a deterministic step function over a list of events, and the induction rules for
invariants that hold along runs whose steps all satisfy a guard. -/
namespace GuardedRun

variable {σ ε : Type*}

/-- The state after the events `es`. -/
def run (step : σ → ε → σ) (s : σ) (es : List ε) : σ := es.foldl step s

/-- Every step of the run satisfies the guard in the state it starts from. -/
def Along (step : σ → ε → σ) (guard : σ → ε → Prop) : σ → List ε → Prop
  | _, [] => True
  | s, e :: es => guard s e ∧ Along step guard (step s e) es

variable {step : σ → ε → σ} {guard : σ → ε → Prop}

@[simp] theorem run_nil (s : σ) : run step s [] = s := rfl

@[simp] theorem run_cons (s : σ) (e : ε) (es : List ε) :
    run step s (e :: es) = run step (step s e) es := rfl

theorem run_append (s : σ) (es fs : List ε) :
    run step s (es ++ fs) = run step (run step s es) fs := List.foldl_append ..

theorem along_append {s : σ} {es fs : List ε} :
    Along step guard s (es ++ fs) ↔
      Along step guard s es ∧ Along step guard (run step s es) fs := by
  induction es generalizing s with
  | nil => simp [Along]
  | cons e es ih => simp [Along, ih, and_assoc]

theorem Along.mono {guard' : σ → ε → Prop} (h : ∀ s e, guard s e → guard' s e) {s : σ}
    {es : List ε} (hs : Along step guard s es) : Along step guard' s es := by
  induction es generalizing s with
  | nil => trivial
  | cons e es ih => exact ⟨h s e hs.1, ih hs.2⟩

theorem Along.and {guard' : σ → ε → Prop} {s : σ} {es : List ε} (h : Along step guard s es)
    (h' : Along step guard' s es) : Along step (fun s e => guard s e ∧ guard' s e) s es := by
  induction es generalizing s with
  | nil => trivial
  | cons e es ih => exact ⟨⟨h.1, h'.1⟩, ih h.2 h'.2⟩

/-- Whether a run is guarded can be computed. -/
instance decidableAlong (step : σ → ε → σ) [∀ s e, Decidable (guard s e)] :
    ∀ s es, Decidable (Along step guard s es)
  | _, [] => .isTrue trivial
  | s, e :: es => @instDecidableAnd _ _ _ (decidableAlong step (step s e) es)

/-- A guard on the events alone. -/
theorem Along.of_forall (guard : ε → Prop) {s : σ} {es : List ε} (h : ∀ e ∈ es, guard e) :
    Along step (fun _ e => guard e) s es := by
  induction es generalizing s with
  | nil => trivial
  | cons e es ih =>
    exact ⟨h e List.mem_cons_self, ih fun f hf => h f (List.mem_cons_of_mem e hf)⟩

/-- An invariant that every guarded step preserves holds after every guarded run. -/
theorem run_invariant {I : σ → Prop}
    (hstep : ∀ s e, I s → guard s e → I (step s e)) {s : σ} {es : List ε}
    (h : I s) (hs : Along step guard s es) : I (run step s es) := by
  induction es generalizing s with
  | nil => exact h
  | cons e es ih => exact ih (hstep s e h hs.1) hs.2

/-- Where an unguarded step that is admitted breaks the property, it holds all along exactly the
guarded ones of the runs admitted. -/
theorem along_iff_of_admits {I P : σ → Prop} {admits : σ → ε → Prop} (hI : ∀ s, I s → P s)
    (hstep : ∀ s e, I s → admits s e → guard s e → I (step s e))
    (hbreak : ∀ s e, I s → admits s e → ¬ guard s e → ¬ P (step s e)) {s : σ} {es : List ε}
    (h : I s) (hadmits : Along step admits s es) :
    (∀ fs, fs <+: es → P (run step s fs)) ↔ Along step guard s es := by
  induction es generalizing s with
  | nil =>
    refine ⟨fun _ => trivial, ?_⟩
    rintro - fs hfs
    rw [List.prefix_nil.mp hfs]
    exact hI s h
  | cons e es ih =>
    constructor
    · intro hP
      have hguard : guard s e := by
        by_contra hnot
        exact hbreak s e h hadmits.1 hnot (hP [e] ⟨es, rfl⟩)
      refine ⟨hguard, (ih (hstep s e h hadmits.1 hguard) hadmits.2).mp ?_⟩
      intro fs hfs
      exact hP (e :: fs) (List.cons_prefix_cons.mpr ⟨rfl, hfs⟩)
    · rintro ⟨hguard, hrest⟩ fs hfs
      cases fs with
      | nil => exact hI s h
      | cons f fs =>
        obtain ⟨rfl, htail⟩ := List.cons_prefix_cons.mp hfs
        exact (ih (hstep s f h hadmits.1 hguard) hadmits.2).mpr hrest fs htail

/-- Where an unguarded step breaks the property, it holds all along exactly the guarded runs. -/
theorem along_iff {I P : σ → Prop} (hI : ∀ s, I s → P s)
    (hstep : ∀ s e, I s → guard s e → I (step s e))
    (hbreak : ∀ s e, I s → ¬ guard s e → ¬ P (step s e)) {s : σ} {es : List ε} (h : I s) :
    (∀ fs, fs <+: es → P (run step s fs)) ↔ Along step guard s es :=
  along_iff_of_admits hI (fun s e hs _ => hstep s e hs) (fun s e hs _ => hbreak s e hs) h
    (.of_forall (fun _ => True) fun _ _ => trivial)

/-- An invariant that every step preserves holds after every run. -/
theorem run_invariant_of_step {I : σ → Prop} (hstep : ∀ s e, I s → I (step s e)) {s : σ}
    (es : List ε) (h : I s) : I (run step s es) := by
  induction es generalizing s with
  | nil => exact h
  | cons e es ih => exact ih (hstep s e h)

end GuardedRun
