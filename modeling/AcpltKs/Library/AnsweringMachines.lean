import Mathlib.Data.List.Basic

/-! Machines that answer one request after the other, and may fail: two machines that give like
answers, request by request, do so over whole runs. -/
namespace AnsweringMachines

variable {S T C A B : Type*} {α β γ δ : Type*}

/-- The answers to all requests, and the state in the end; nothing if the machine fails. -/
def runAll (step : S → C → Option (A × S)) : S → List C → Option (List A × S)
  | s, [] => some ([], s)
  | s, c :: cs => do
      let (a, s) ← step s c
      let (as, s) ← runAll step s cs
      some (a :: as, s)

/-- A request, and the others after it. -/
theorem runAll_cons {step : S → C → Option (A × S)} {s t u : S} {c : C} {cs : List C} {a : A}
    {as : List A} (hc : step s c = some (a, t)) (h : runAll step t cs = some (as, u)) :
    runAll step s (c :: cs) = some (a :: as, u) := by
  simp [runAll, hc, h]

/-- One more request. -/
theorem runAll_concat {step : S → C → Option (A × S)} {s t u : S} {cs : List C} {c : C}
    {as : List A} {a : A} (h : runAll step s cs = some (as, t)) (hc : step t c = some (a, u)) :
    runAll step s (cs ++ [c]) = some (as ++ [a], u) := by
  induction cs generalizing s as with
  | nil =>
    cases h
    exact runAll_cons hc rfl
  | cons c' cs ih =>
    obtain ⟨⟨a', s₁⟩, hfirst, h⟩ := Option.bind_eq_some_iff.mp h
    obtain ⟨⟨as', t'⟩, hrest, h⟩ := Option.bind_eq_some_iff.mp h
    cases h
    exact runAll_cons hfirst (ih hrest)

theorem rel_bind {r : α → β → Prop} {r' : γ → δ → Prop} {x : Option α} {y : Option β}
    {f : α → Option γ} {g : β → Option δ} (hxy : Option.Rel r x y)
    (hfg : ∀ a b, r a b → Option.Rel r' (f a) (g b)) :
    Option.Rel r' (x.bind f) (y.bind g) := by
  cases hxy with
  | none => exact .none
  | some hab => exact hfg _ _ hab

/-- Machines in related states give like answers and get to related states, or both fail. -/
theorem rel_runAll {step : S → C → Option (A × S)} {step' : T → C → Option (B × T)}
    {I : S → T → Prop} {good : C → Prop} {like : A → B → Prop}
    (hstep : ∀ s t c, I s t → good c →
      Option.Rel (fun x y => like x.1 y.1 ∧ I x.2 y.2) (step s c) (step' t c))
    {cs : List C} (hcs : ∀ c ∈ cs, good c) {s : S} {t : T} (h : I s t) :
    Option.Rel (fun x y => List.Forall₂ like x.1 y.1 ∧ I x.2 y.2)
      (runAll step s cs) (runAll step' t cs) := by
  induction cs generalizing s t with
  | nil => exact .some ⟨.nil, h⟩
  | cons c cs ih =>
    obtain ⟨hc, hcs⟩ := List.forall_mem_cons.mp hcs
    refine rel_bind (hstep s t c h hc) ?_
    rintro ⟨a, s₁⟩ ⟨b, t₁⟩ ⟨hab, h₁⟩
    refine rel_bind (ih hcs h₁) ?_
    rintro ⟨as, s₂⟩ ⟨bs, t₂⟩ ⟨habs, h₂⟩
    exact .some ⟨.cons hab habs, h₂⟩

end AnsweringMachines
