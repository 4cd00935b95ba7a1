import Mathlib.Data.Nat.Init
import Mathlib.Tactic.SplitIfs

/-! Loops that test behind their body, where the test may change the state as well, and the rule for
their total correctness. -/
namespace DoWhile

variable {σ : Type*}

/-- Repeat the body as long as the test behind it says so, for at most so many passes. -/
def run (body : σ → σ) (again : σ → Bool × σ) : ℕ → σ → Option σ
  | 0, _ => none
  | fuel + 1, s =>
      let tested := again (body s)
      if tested.1 then run body again fuel tested.2 else some tested.2

variable {body : σ → σ} {again : σ → Bool × σ}

theorem run_mono {fuel fuel' : ℕ} {s s' : σ} (h : run body again fuel s = some s')
    (hle : fuel ≤ fuel') : run body again fuel' s = some s' := by
  induction fuel generalizing fuel' s with
  | zero => cases h
  | succ fuel ih =>
    obtain ⟨fuel', rfl⟩ : ∃ n, fuel' = n + 1 := ⟨fuel' - 1, by omega⟩
    unfold run at h ⊢
    dsimp only at h ⊢
    split_ifs at h ⊢
    · exact ih h (by omega)
    · exact h

/-- An invariant that counts the passes left bounds their number, and what the last test leaves
holds in the end. -/
theorem run_total {Inv : ℕ → σ → Prop} {Q : σ → Prop}
    (hagain : ∀ n s, Inv n s → (again (body s)).1 = true →
      ∃ m, n = m + 1 ∧ Inv m (again (body s)).2)
    (hexit : ∀ n s, Inv n s → (again (body s)).1 = false → Q (again (body s)).2)
    {n : ℕ} {s : σ} (h : Inv n s) : ∃ s', run body again (n + 1) s = some s' ∧ Q s' := by
  induction n generalizing s with
  | zero =>
    have hstop : (again (body s)).1 = false := by
      cases hb : (again (body s)).1 with
      | false => rfl
      | true =>
        obtain ⟨m, hm, -⟩ := hagain 0 s h hb
        cases hm
    refine ⟨_, ?_, hexit 0 s h hstop⟩
    simp [run, hstop]
  | succ n ih =>
    unfold run
    dsimp only
    cases hb : (again (body s)).1 with
    | false => exact ⟨_, rfl, hexit (n + 1) s h hb⟩
    | true =>
      obtain ⟨m, hm, hinv⟩ := hagain (n + 1) s h hb
      obtain rfl : n = m := by omega
      exact ih hinv

end DoWhile
