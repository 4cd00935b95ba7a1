import Mathlib.Data.List.Basic

/-! Graphs with labels on their edges, at most one edge of each label from a vertex: where a walk
along labels leads, and which walks are affected if some of the edges change. -/
namespace LabelledGraphs

variable {V L : Type*}

/-- The vertex that a sequence of labels leads to. -/
def walk (edge : V → L → Option V) : V → List L → Option V
  | v, [] => some v
  | v, l :: ls => (edge v l).bind fun w => walk edge w ls

variable {edge edge' : V → L → Option V} {changed : V → L → Prop} {v w : V} {l : L} {ls : List L}

theorem walk_append (v : V) (ls ms : List L) :
    walk edge v (ls ++ ms) = (walk edge v ls).bind fun w => walk edge w ms := by
  induction ls generalizing v with
  | nil => rfl
  | cons l ls ih =>
    rw [List.cons_append, walk, walk, Option.bind_assoc]
    congr 1
    funext w
    exact ih w

theorem walk_singleton (v : V) (l : L) : walk edge v [l] = edge v l := by
  simp [walk]

theorem walk_concat (v : V) (ls : List L) (l : L) :
    walk edge v (ls ++ [l]) = (walk edge v ls).bind fun w => edge w l := by
  rw [walk_append]
  congr 1
  funext w
  exact walk_singleton w l

/-- Somewhere on its way the walk comes to one of these edges. -/
def Meets (edge : V → L → Option V) (changed : V → L → Prop) (v : V) (ls : List L) : Prop :=
  ∃ before l after w, ls = before ++ l :: after ∧ walk edge v before = some w ∧ changed w l

theorem Meets.head (h : changed v l) (ls : List L) : Meets edge changed v (l :: ls) :=
  ⟨[], l, ls, v, rfl, rfl, h⟩

theorem Meets.cons (hedge : edge v l = some w) (h : Meets edge changed w ls) :
    Meets edge changed v (l :: ls) := by
  obtain ⟨before, m, after, u, rfl, hwalk, hchanged⟩ := h
  exact ⟨l :: before, m, after, u, rfl, by rw [walk, hedge]; exact hwalk, hchanged⟩

/-- A walk that meets none of the edges that change leads to where it led before. -/
theorem walk_eq_of_not_meets (hsame : ∀ v l, ¬ changed v l → edge' v l = edge v l)
    (h : ¬ Meets edge changed v ls) : walk edge' v ls = walk edge v ls := by
  induction ls generalizing v with
  | nil => rfl
  | cons l ls ih =>
    have hfirst : ¬ changed v l := fun hchanged => h (.head hchanged ls)
    rw [walk, walk, hsame v l hfirst]
    cases hedge : edge v l with
    | none => rfl
    | some w => exact ih fun hrest => h (.cons hedge hrest)

theorem Meets.congr (hsame : ∀ v l, ¬ changed v l → edge' v l = edge v l)
    (h : Meets edge' changed v ls) : Meets edge changed v ls := by
  by_contra hnot
  obtain ⟨before, l, after, w, rfl, hwalk, hchanged⟩ := h
  have hbefore : ¬ Meets edge changed v before := by
    rintro ⟨before', m, after', u, rfl, hwalk', hchanged'⟩
    exact hnot ⟨before', m, after' ++ l :: after, u, by simp, hwalk', hchanged'⟩
  rw [walk_eq_of_not_meets hsame hbefore] at hwalk
  exact hnot ⟨before, l, after, w, rfl, hwalk, hchanged⟩

/-- Which walks meet the edges does not depend on where these lead. -/
theorem meets_iff (hsame : ∀ v l, ¬ changed v l → edge' v l = edge v l) :
    Meets edge' changed v ls ↔ Meets edge changed v ls :=
  ⟨.congr hsame, .congr fun v l hl => (hsame v l hl).symm⟩

/-- What holds of the vertex and is carried along every edge holds at the end of every walk. -/
theorem walk_invariant {I : V → Prop} (hstep : ∀ v l w, I v → edge v l = some w → I w) (h : I v)
    (hwalk : walk edge v ls = some w) : I w := by
  induction ls generalizing v with
  | nil => exact Option.some.inj hwalk ▸ h
  | cons l ls ih =>
    obtain ⟨u, hedge, hrest⟩ := Option.bind_eq_some_iff.mp hwalk
    exact ih (hstep v l u h hedge) hrest

/-- On vertices that the edges do not lead out of, walks depend on the edges from these alone. -/
theorem walk_congr {I : V → Prop} (hstep : ∀ v l w, I v → edge v l = some w → I w)
    (hsame : ∀ v l, I v → edge' v l = edge v l) (h : I v) : walk edge' v ls = walk edge v ls := by
  induction ls generalizing v with
  | nil => rfl
  | cons l ls ih =>
    rw [walk, walk, hsame v l h]
    cases hedge : edge v l with
    | none => rfl
    | some w => exact ih (hstep v l w h hedge)

end LabelledGraphs
