import Mathlib.Data.List.Basic

/-! Iterators with a position: whether there is an element, which one, and where to go from there.
What a loop over such an iterator visits, and what it visits if some elements are skipped. -/
namespace Iterators

/-- Nothing if there is no element, or no way on. -/
structure Cursor (σ α : Type*) where
  more : σ → Bool
  get : σ → Option α
  next : σ → Option σ

namespace Cursor
variable {σ α : Type*} (c : Cursor σ α)

/-- A loop from a position on comes to an end, and it visits these elements. -/
inductive Yields : σ → List α → Prop
  | done {s : σ} (hmore : c.more s = false) : Yields s []
  | step {s s' : σ} {a : α} {l : List α} (hmore : c.more s = true) (hget : c.get s = some a)
      (hnext : c.next s = some s') (hrest : Yields s' l) : Yields s (a :: l)

/-- Go on until there is an element that passes the test. -/
def skip (test : α → Option Bool) : ℕ → σ → Option σ
  | 0, _ => none
  | fuel + 1, s =>
      if c.more s then
        ((c.get s).bind test).bind fun passes =>
          if passes then some s else (c.next s).bind fun s' => skip test fuel s'
      else some s

/-- The iterator that skips what does not pass the test. -/
def filtered (test : α → Option Bool) (fuel : ℕ) : Cursor σ α where
  more := c.more
  get := c.get
  next s := (c.next s).bind (c.skip test fuel)

variable {c} {s : σ} {l l' : List α}

/-- The loop is what it visits. -/
theorem Yields.unique (h : c.Yields s l) (h' : c.Yields s l') : l = l' := by
  induction h generalizing l' with
  | done hmore =>
    cases h' with
    | done => rfl
    | step hmore' => exact absurd (hmore.symm.trans hmore') Bool.false_ne_true
  | step hmore hget hnext _ ih =>
    cases h' with
    | done hmore' => exact absurd (hmore'.symm.trans hmore) Bool.false_ne_true
    | step _ hget' hnext' hrest' =>
      obtain rfl := Option.some.inj (hget.symm.trans hget')
      obtain rfl := Option.some.inj (hnext.symm.trans hnext')
      rw [ih hrest']

/-- A relation between positions and what is left, which every step keeps, tells what is visited. -/
theorem yields_of_left (left : σ → List α → Prop) (hdone : ∀ s, left s [] → c.more s = false)
    (hstep : ∀ s a l, left s (a :: l) → c.more s = true ∧ c.get s = some a ∧
      ∃ s', c.next s = some s' ∧ left s' l) (h : left s l) : c.Yields s l := by
  induction l generalizing s with
  | nil => exact .done (hdone s h)
  | cons a l ih =>
    obtain ⟨hmore, hget, s', hnext, hrest⟩ := hstep s a l h
    exact .step hmore hget hnext (ih hrest)

section Skip
variable {test : α → Option Bool} {passes : α → Bool} {fuel : ℕ}

/-- An iterator that skips visits what passes the test. -/
theorem Yields.skip (h : c.Yields s l) (htest : ∀ a ∈ l, test a = some (passes a))
    (hfuel : l.length < fuel) {n : ℕ} (hn : l.length < n) :
    ∃ s', c.skip test n s = some s' ∧ (c.filtered test fuel).Yields s' (l.filter passes) := by
  induction h generalizing n with
  | @done s hmore =>
    obtain ⟨n, rfl⟩ := Nat.exists_eq_add_of_lt hn
    exact ⟨s, by simp [Cursor.skip, hmore], .done hmore⟩
  | @step s s' a l hmore hget hnext _ ih =>
    rw [List.length_cons] at hfuel hn
    obtain ⟨n, rfl⟩ := Nat.exists_eq_succ_of_ne_zero (show n ≠ 0 by omega)
    have hrest := fun b hb => htest b (List.mem_cons_of_mem a hb)
    have ha := htest a List.mem_cons_self
    cases hpasses : passes a with
    | true =>
      obtain ⟨s'', hskip, hyields⟩ := ih hrest (by omega) (n := fuel) (by omega)
      rw [List.filter_cons_of_pos hpasses]
      refine ⟨s, by simp [Cursor.skip, hmore, hget, ha, hpasses], .step hmore hget ?_ hyields⟩
      rw [filtered]
      simp only [hnext, Option.bind_some, hskip]
    | false =>
      obtain ⟨s'', hskip, hyields⟩ := ih hrest (by omega) (n := n) (by omega)
      rw [List.filter_cons_of_neg (by rw [hpasses]; exact Bool.false_ne_true)]
      exact ⟨s'', by simp [Cursor.skip, hmore, hget, ha, hpasses, hnext, hskip], hyields⟩

end Skip
end Cursor
end Iterators
