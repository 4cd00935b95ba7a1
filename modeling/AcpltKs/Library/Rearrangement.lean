import Mathlib.Algebra.Group.End
import Mathlib.Logic.Equiv.Basic
import Mathlib.Order.Defs.Unbundled

/-! Arrays the elements of which are moved within a range, and ranges that are in order. -/
namespace Rearrangement

variable {α : Type*} {l r l' r' : ℕ} {el el' el'' : Array α}

/-- The same elements, of which only those in the range have moved. -/
structure Rearranged (l r : ℕ) (el el' : Array α) : Prop where
  perm : el'.Perm el
  moved : ∃ σ : Equiv.Perm ℕ, (∀ k, σ k ≠ k → l ≤ k ∧ k ≤ r) ∧ ∀ k, el'[k]? = el[σ k]?

namespace Rearranged

theorem refl (l r : ℕ) (el : Array α) : Rearranged l r el el :=
  ⟨.refl el, 1, fun _ h => absurd rfl h, fun _ => rfl⟩

theorem trans (h : Rearranged l r el el') (h' : Rearranged l r el' el'') :
    Rearranged l r el el'' := by
  obtain ⟨hperm, σ, hσ, hel⟩ := h
  obtain ⟨hperm', σ', hσ', hel'⟩ := h'
  refine ⟨hperm'.trans hperm, σ * σ', ?_, ?_⟩
  · intro k hk
    by_cases hk' : σ' k = k
    · apply hσ
      rwa [Equiv.Perm.mul_apply, hk'] at hk
    · exact hσ' k hk'
  · intro k
    rw [hel', hel, Equiv.Perm.mul_apply]

theorem mono (h : Rearranged l r el el') (hl : l' ≤ l) (hr : r ≤ r') :
    Rearranged l' r' el el' := by
  obtain ⟨hperm, σ, hσ, hel⟩ := h
  refine ⟨hperm, σ, ?_, hel⟩
  intro k hk
  obtain ⟨hlk, hkr⟩ := hσ k hk
  exact ⟨hl.trans hlk, hkr.trans hr⟩

theorem swap {i j : ℕ} (hi : i < el.size) (hj : j < el.size) (hli : l ≤ i) (hir : i ≤ r)
    (hlj : l ≤ j) (hjr : j ≤ r) : Rearranged l r el (el.swap i j hi hj) := by
  refine ⟨Array.swap_perm hi hj, Equiv.swap i j, ?_, ?_⟩
  · intro k hk
    by_cases hki : k = i
    · exact hki ▸ ⟨hli, hir⟩
    · by_cases hkj : k = j
      · exact hkj ▸ ⟨hlj, hjr⟩
      · exact absurd (Equiv.swap_apply_of_ne_of_ne hki hkj) hk
  · intro k
    rw [Array.getElem?_swap]
    by_cases hki : k = i
    · subst hki
      rw [Equiv.swap_apply_left, Array.getElem?_eq_getElem hj]
      by_cases hjk : j = k
      · simp [hjk]
      · rw [if_neg hjk, if_pos rfl]
    · by_cases hkj : k = j
      · subst hkj
        rw [Equiv.swap_apply_right, Array.getElem?_eq_getElem hi, if_pos rfl]
      · rw [Equiv.swap_apply_of_ne_of_ne hki hkj, if_neg (Ne.symm hkj), if_neg (Ne.symm hki)]

theorem size_eq (h : Rearranged l r el el') : el'.size = el.size := h.perm.size_eq

/-- What lies outside the range stays. -/
theorem outside (h : Rearranged l r el el') {k : ℕ} (hk : ¬ (l ≤ k ∧ k ≤ r)) :
    el'[k]? = el[k]? := by
  obtain ⟨-, σ, hσ, hel⟩ := h
  have hfix : σ k = k := by
    by_contra hmoved
    exact hk (hσ k hmoved)
  rw [hel, hfix]

/-- What holds of all elements in a larger range still does. -/
theorem forall_within {P : α → Prop} (h : Rearranged l r el el') (hl : l' ≤ l) (hr : r ≤ r')
    (hP : ∀ k, l' ≤ k → k ≤ r' → ∀ x ∈ el[k]?, P x) :
    ∀ k, l' ≤ k → k ≤ r' → ∀ x ∈ el'[k]?, P x := by
  obtain ⟨-, σ, hσ, hel⟩ := h
  intro k hlk hkr x hx
  rw [hel] at hx
  by_cases hfix : σ k = k
  · rw [hfix] at hx
    exact hP k hlk hkr x hx
  · have hmoved : σ (σ k) ≠ σ k := fun heq => hfix (σ.injective heq)
    obtain ⟨hlσ, hσr⟩ := hσ (σ k) hmoved
    exact hP (σ k) (hl.trans hlσ) (hσr.trans hr) x hx

end Rearranged

variable (lt : α → α → Prop)

/-- Within the range, no element is less than one in front of it. -/
def Ordered (l r : ℕ) (el : Array α) : Prop :=
  ∀ p q, l ≤ p → p < q → q ≤ r → ∀ x ∈ el[p]?, ∀ y ∈ el[q]?, ¬ lt y x

variable {lt}

theorem not_lt_trans [IsStrictWeakOrder α lt] {a b c : α} (hab : ¬ lt b a) (hbc : ¬ lt c b) :
    ¬ lt c a := by
  intro hca
  by_cases hbc' : lt b c
  · exact hab (IsTrans.trans b c a hbc' hca)
  · by_cases hab' : lt a b
    · exact hbc (IsTrans.trans c a b hca hab')
    · exact (IsStrictWeakOrder.incomp_trans a b c ⟨hab', hab⟩ ⟨hbc', hbc⟩).2 hca

theorem not_lt_of_lt [IsStrictWeakOrder α lt] {a b : α} (h : lt a b) : ¬ lt b a := by
  intro h'
  exact Std.Irrefl.irrefl a (IsTrans.trans (r := lt) a b a h h')

theorem Ordered.of_le (el : Array α) (h : r ≤ l) : Ordered lt l r el := by
  intro p q hp hpq hq
  omega

theorem Ordered.congr (h : Ordered lt l r el) (hsame : ∀ k, l ≤ k → k ≤ r → el'[k]? = el[k]?) :
    Ordered lt l r el' := by
  intro p q hp hpq hq
  rw [hsame p hp (by omega), hsame q (by omega) hq]
  exact h p q hp hpq hq

/-- Two ranges in order, with a value between them. -/
theorem Ordered.join [IsStrictWeakOrder α lt] {i : ℕ} {v : α} (hleft : Ordered lt l (i - 1) el)
    (hright : Ordered lt i r el) (hle : ∀ k, l ≤ k → k ≤ i - 1 → ∀ x ∈ el[k]?, ¬ lt v x)
    (hge : ∀ k, i ≤ k → k ≤ r → ∀ x ∈ el[k]?, ¬ lt x v) : Ordered lt l r el := by
  intro p q hp hpq hq x hx y hy
  by_cases hqi : q < i
  · exact hleft p q hp hpq (by omega) x hx y hy
  · by_cases hpi : i ≤ p
    · exact hright p q hpi hpq hq x hx y hy
    · exact not_lt_trans (hle p hp (by omega) x hx) (hge q (by omega) hq y hy)

end Rearrangement
