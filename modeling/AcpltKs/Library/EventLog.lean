import Mathlib.Data.List.Basic

/-! Logs of events, newest last: properties that an entry has in view of the entries before it. -/
namespace EventLog

variable {α : Type*}

/-- Every entry is legitimate after the entries before it. -/
def Always (ok : List α → α → Prop) (l : List α) : Prop :=
  ∀ before a after, l = before ++ a :: after → ok before a

/-- The entries after the last one that matches. -/
def sinceLast (p : α → Bool) (l : List α) : List α :=
  l.foldl (fun recent a => if p a then [] else recent ++ [a]) []

theorem always_nil {ok : List α → α → Prop} : Always ok [] := by
  intro before a after h
  exact absurd h (by simp)

theorem always_concat {ok : List α → α → Prop} {l : List α} {a : α} :
    Always ok (l ++ [a]) ↔ Always ok l ∧ ok l a := by
  constructor
  · intro h
    refine ⟨fun before b after hl => h before b (after ++ [a]) ?_, h l a [] rfl⟩
    rw [hl, List.append_assoc, List.cons_append]
  · rintro ⟨hl, ha⟩ before b after h
    rcases List.eq_nil_or_concat' after with rfl | ⟨after, c, rfl⟩
    · obtain ⟨rfl, hb⟩ := List.append_inj' h rfl
      rwa [← (List.cons.inj hb).1]
    · rw [← List.cons_append, ← List.append_assoc] at h
      exact hl before b after (List.append_inj' h rfl).1

@[simp] theorem sinceLast_nil (p : α → Bool) : sinceLast p [] = [] := rfl

theorem sinceLast_concat (p : α → Bool) (l : List α) (a : α) :
    sinceLast p (l ++ [a]) = if p a then [] else sinceLast p l ++ [a] := by
  rw [sinceLast, List.foldl_append]
  rfl

theorem mem_sinceLast_concat {p : α → Bool} {l : List α} {a b : α} :
    b ∈ sinceLast p (l ++ [a]) ↔ p a = false ∧ (b ∈ sinceLast p l ∨ b = a) := by
  rw [sinceLast_concat]
  cases p a <;> simp

end EventLog
