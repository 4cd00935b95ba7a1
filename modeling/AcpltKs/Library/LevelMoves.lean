import Mathlib.Data.List.Induction
import Mathlib.Data.List.Forall2

/-! Moves down and up the levels of a hierarchy, never above its root. -/
namespace LevelMoves

variable {α β : Type*}

inductive Move (α : Type*) where
  | stay
  | up
  | down (a : α)
  deriving DecidableEq

/-- The path to the place where a move leads to. -/
def Move.apply (path : List α) : Move α → List α
  | .stay => path
  | .up => path.dropLast
  | .down a => path ++ [a]

def follow (path : List α) (moves : List (Move α)) : List α := moves.foldl Move.apply path

/-- What some moves have done: the levels that they have gone down and not up again, how often they
have gone up from there, and whether, at last, they have gone up to another one of these levels. -/
structure Trace (α : Type*) where
  items : List α
  climbed : ℕ
  retreated : Bool

namespace Trace

def start : Trace α := ⟨[], 0, false⟩

def move (t : Trace α) : Move α → Trace α
  | .stay => t
  | .up =>
      if t.items = [] then { t with climbed := t.climbed + 1 }
      else { t with items := t.items.dropLast, retreated := decide (2 ≤ t.items.length) }
  | .down a => { t with items := t.items ++ [a], retreated := false }

/-- Both have gone down to the same levels. -/
structure Rel (R : α → β → Prop) (t : Trace α) (t' : Trace β) : Prop where
  items : List.Forall₂ R t.items t'.items
  climbed : t.climbed = t'.climbed
  retreated : t.retreated = t'.retreated

end Trace

def trace (moves : List (Move α)) : Trace α := moves.foldl Trace.move Trace.start

/-- The same move, down to the same level. -/
inductive Move.Rel (R : α → β → Prop) : Move α → Move β → Prop
  | stay : Move.Rel R .stay .stay
  | up : Move.Rel R .up .up
  | down {a : α} {b : β} : R a b → Move.Rel R (.down a) (.down b)

variable {R : α → β → Prop} {path : List α} {moves : List (Move α)} {m : Move α}

theorem follow_append_singleton : follow path (moves ++ [m]) = m.apply (follow path moves) := by
  simp only [follow, List.foldl_append, List.foldl_cons, List.foldl_nil]

theorem trace_append_singleton : trace (moves ++ [m]) = (trace moves).move m := by
  simp only [trace, List.foldl_append, List.foldl_cons, List.foldl_nil]

/-- The way up from the beginning comes first, and what remains of the way down behind it. -/
theorem follow_eq (path : List α) (moves : List (Move α)) : follow path moves =
    path.take (path.length - (trace moves).climbed) ++ (trace moves).items := by
  induction moves using List.reverseRecOn with
  | nil => simp [follow, trace, Trace.start]
  | append_singleton moves m ih =>
    rw [follow_append_singleton, trace_append_singleton, ih]
    cases m with
    | stay => rfl
    | up =>
      by_cases hnil : (trace moves).items = []
      · rw [Trace.move, if_pos hnil, hnil, List.append_nil, List.append_nil, Move.apply,
          List.dropLast_eq_take, List.length_take, List.take_take]
        congr 1
        dsimp only
        omega
      · rw [Trace.move, if_neg hnil, Move.apply, List.dropLast_append_of_ne_nil hnil]
    | down a => rw [Trace.move, Move.apply, List.append_assoc]

/-- There is only something left below another level if there is something left. -/
theorem items_ne_nil_of_retreated (h : (trace moves).retreated = true) :
    (trace moves).items ≠ [] := by
  induction moves using List.reverseRecOn with
  | nil => exact absurd h (by simp [trace, Trace.start])
  | append_singleton moves m ih =>
    rw [trace_append_singleton] at h ⊢
    cases m with
    | stay => exact ih h
    | up =>
      rw [Trace.move] at h ⊢
      split_ifs at h ⊢ with hnil
      · exact absurd hnil (ih h)
      · refine List.ne_nil_of_length_pos ?_
        have hlength := of_decide_eq_true h
        rw [List.length_dropLast]
        omega
    | down a => simp [Trace.move]

theorem Trace.Rel.move {t : Trace α} {t' : Trace β} {m' : Move β} (h : t.Rel R t')
    (hm : m.Rel R m') : (t.move m).Rel R (t'.move m') := by
  cases hm with
  | stay => exact h
  | up =>
    have hlength := h.items.length_eq
    have hnil : t.items = [] ↔ t'.items = [] := by
      rw [← List.length_eq_zero_iff, hlength, List.length_eq_zero_iff]
    rw [Trace.move, Trace.move]
    by_cases ht : t.items = []
    · rw [if_pos ht, if_pos (hnil.mp ht)]
      exact ⟨h.items, congrArg (· + 1) h.climbed, h.retreated⟩
    · rw [if_neg ht, if_neg fun ht' => ht (hnil.mpr ht')]
      refine ⟨?_, h.climbed, by rw [hlength]⟩
      rw [List.dropLast_eq_take, List.dropLast_eq_take, hlength]
      exact List.forall₂_take _ h.items
  | down hR => exact ⟨List.rel_append h.items (.cons hR .nil), h.climbed, rfl⟩

/-- The same moves leave the same levels. -/
theorem trace_rel {moves' : List (Move β)} (h : List.Forall₂ (Move.Rel R) moves moves') :
    (trace moves).Rel R (trace moves') := by
  have hstart : (Trace.start : Trace α).Rel R Trace.start := ⟨.nil, rfl, rfl⟩
  rw [trace, trace]
  generalize (Trace.start : Trace α) = t, (Trace.start : Trace β) = t' at hstart
  induction h generalizing t t' with
  | nil => exact hstart
  | cons hm _ ih => exact ih _ _ (hstart.move hm)

end LevelMoves
