import Mathlib.Algebra.BigOperators.Group.Finset.Basic
import Mathlib.Order.Basic
import Mathlib.Tactic

/-! Binary heaps in an array: the root is at 0, and the children of `i` are at `2 * i + 1` and
`2 * i + 2`. While a value is on its way to its place, the array has a hole; the rules below say
how the hole moves and when it may be filled. -/
namespace BinaryHeap
open Function

variable {α : Type*} {a : ℕ → α} {n k : ℕ} {v : α}

def parent (i : ℕ) : ℕ := (i - 1) / 2

theorem parent_lt {i : ℕ} (h : 0 < i) : parent i < i := by
  unfold parent
  omega

theorem parent_eq_iff {i j : ℕ} (h : 0 < i) : parent i = j ↔ i = 2 * j + 1 ∨ i = 2 * j + 2 := by
  unfold parent
  omega

@[simp] theorem parent_left (i : ℕ) : parent (2 * i + 1) = i := by
  simp [parent]

@[simp] theorem parent_right (i : ℕ) : parent (2 * i + 2) = i := by
  unfold parent
  omega

/-- The positions below `k` in the tree, and `k` itself. -/
inductive Descends (k : ℕ) : ℕ → Prop
  | refl : Descends k k
  | child {i : ℕ} : 0 < i → Descends k (parent i) → Descends k i

theorem Descends.le {i : ℕ} (h : Descends k i) : k ≤ i := by
  induction h with
  | refl => exact le_rfl
  | child h0 _ ih => exact ih.trans (parent_lt h0).le

theorem descends_zero (i : ℕ) : Descends 0 i := by
  induction i using Nat.strong_induction_on with
  | _ i ih =>
    by_cases h0 : i = 0
    · exact h0 ▸ .refl
    · exact .child (Nat.pos_of_ne_zero h0) (ih _ (parent_lt (Nat.pos_of_ne_zero h0)))

/-- Whatever is below `k` is below one of its children. -/
theorem Descends.cases_child {i : ℕ} (h : Descends k i) :
    i = k ∨ Descends (2 * k + 1) i ∨ Descends (2 * k + 2) i := by
  induction h with
  | refl => exact Or.inl rfl
  | @child i h0 _ ih =>
    refine Or.inr ?_
    rcases ih with hk | hl | hr
    · rcases (parent_eq_iff h0).mp hk with rfl | rfl
      · exact Or.inl .refl
      · exact Or.inr .refl
    · exact Or.inl (.child h0 hl)
    · exact Or.inr (.child h0 hr)

/-- What the first `n` cells hold. -/
def contents (a : ℕ → α) (n : ℕ) : Multiset α := ∑ i ∈ Finset.range n, {a i}

@[simp] theorem contents_zero (a : ℕ → α) : contents a 0 = 0 := rfl

theorem contents_succ (a : ℕ → α) (n : ℕ) : contents a (n + 1) = a n ::ₘ contents a n := by
  rw [contents, Finset.sum_range_succ, add_comm, Multiset.singleton_add, contents]

theorem contents_congr {b : ℕ → α} (h : ∀ i < n, a i = b i) : contents a n = contents b n :=
  Finset.sum_congr rfl fun i hi => by rw [h i (Finset.mem_range.mp hi)]

@[simp] theorem mem_contents {x : α} : x ∈ contents a n ↔ ∃ i < n, a i = x := by
  simp [contents, Multiset.mem_sum, eq_comm]

@[simp] theorem card_contents (a : ℕ → α) (n : ℕ) : (contents a n).card = n := by
  simp [contents]

/-- Moving the hole does not change what the array holds together with the value. -/
theorem contents_move {i j : ℕ} (hi : i < n) (hj : j < n) (hij : i ≠ j) (v : α) :
    contents (update (update a i (a j)) j v) n = contents (update a i v) n := by
  refine Finset.sum_equiv (Equiv.swap i j) (fun l => ?_) fun l _ => ?_
  · by_cases hli : l = i
    · simp [hli, hi, hj]
    · by_cases hlj : l = j
      · simp [hlj, hi, hj]
      · rw [Equiv.swap_apply_of_ne_of_ne hli hlj]
  · by_cases hlj : l = j
    · simp [hlj]
    · by_cases hli : l = i
      · simp [hli, hij]
        rw [update_of_ne hij.symm]
      · rw [Equiv.swap_apply_of_ne_of_ne hli hlj]
        simp [hli, hlj]

/-- Replacing a cell exchanges one element. -/
theorem contents_update (hk : k < n) (v : α) :
    a k ::ₘ contents (update a k v) n = v ::ₘ contents a n := by
  induction n with
  | zero => omega
  | succ n ih =>
    rw [contents_succ, contents_succ]
    by_cases hkn : k = n
    · subst hkn
      have hrest : contents (update a k v) k = contents a k :=
        contents_congr fun i hi => update_of_ne (by omega) _ _
      rw [hrest, update_self, Multiset.cons_swap]
    · rw [update_of_ne (Ne.symm hkn), Multiset.cons_swap, ih (by omega), Multiset.cons_swap]

/-- Taking the element at `k` out and putting the last one into its place. -/
theorem contents_replace (hk : k < n) :
    a k ::ₘ contents (update a k (a n)) n = contents a (n + 1) := by
  rw [contents_update hk, contents_succ]

section Order
variable [Preorder α]

/-- No element is smaller than its parent. -/
def IsHeap (a : ℕ → α) (n : ℕ) : Prop := ∀ i, 0 < i → i < n → a (parent i) ≤ a i

theorem IsHeap.le_of_descends (h : IsHeap a n) {i : ℕ} (hd : Descends k i) (hi : i < n) :
    a k ≤ a i := by
  induction hd with
  | refl => exact le_rfl
  | child h0 _ ih => exact (ih ((parent_lt h0).trans hi)).trans (h _ h0 hi)

theorem IsHeap.root_le (h : IsHeap a n) {i : ℕ} (hi : i < n) : a 0 ≤ a i :=
  h.le_of_descends (descends_zero i) hi

theorem IsHeap.mono {m : ℕ} (h : IsHeap a n) (hm : m ≤ n) : IsHeap a m :=
  fun i h0 hi => h i h0 (hi.trans_le hm)

theorem IsHeap.congr {b : ℕ → α} (h : IsHeap a n) (hab : ∀ i < n, b i = a i) : IsHeap b n :=
  fun i h0 hi => by
    rw [hab i hi, hab _ ((parent_lt h0).trans hi)]
    exact h i h0 hi

/-- Away from the hole at `k`, everything is in order, and so are the hole's children with its
parent. -/
structure Holed (a : ℕ → α) (n k : ℕ) : Prop where
  apart : ∀ i, 0 < i → i < n → i ≠ k → parent i ≠ k → a (parent i) ≤ a i
  across : 0 < k → ∀ i, 0 < i → i < n → parent i = k → a (parent k) ≤ a i

/-- Any position of a heap may become a hole. -/
theorem IsHeap.holed (h : IsHeap a n) (hk : k < n) : Holed a n k :=
  ⟨fun i h0 hi _ _ => h i h0 hi, fun hk0 i h0 hi hp =>
    (h k hk0 hk).trans (hp ▸ h i h0 hi)⟩

/-- A value that fits between the neighbours of the hole completes the heap. -/
theorem Holed.fill (h : Holed a n k) (hup : 0 < k → a (parent k) ≤ v)
    (hdown : ∀ i, 0 < i → i < n → parent i = k → v ≤ a i) : IsHeap (update a k v) n := by
  intro i h0 hi
  have hlt := parent_lt h0
  by_cases hik : i = k
  · subst hik
    rw [update_self, update_of_ne hlt.ne]
    exact hup h0
  · rw [update_of_ne hik]
    by_cases hpk : parent i = k
    · rw [hpk, update_self]
      exact hdown i h0 hi hpk
    · rw [update_of_ne hpk]
      exact h.apart i h0 hi hik hpk

/-- The hole moves down to the smaller child. -/
theorem Holed.down {j : ℕ} (h : Holed a n k) (hj0 : 0 < j) (hj : j < n) (hp : parent j = k)
    (hmin : ∀ i, 0 < i → i < n → parent i = k → a j ≤ a i) :
    Holed (update a k (a j)) n j := by
  have hkj : k < j := hp ▸ parent_lt hj0
  refine ⟨fun i h0 hi hij hpj => ?_, fun _ i h0 hi hpi => ?_⟩
  · have hlt := parent_lt h0
    by_cases hik : i = k
    · subst hik
      rw [update_self, update_of_ne hlt.ne]
      exact h.across h0 j hj0 hj hp
    · rw [update_of_ne hik]
      by_cases hpk : parent i = k
      · rw [hpk, update_self]
        exact hmin i h0 hi hpk
      · rw [update_of_ne hpk]
        exact h.apart i h0 hi hik hpk
  · have hlt := parent_lt h0
    rw [hp, update_self, update_of_ne (by omega)]
    exact hpi ▸ h.apart i h0 hi (by omega) (by omega)

/-- The hole moves up to its parent, as long as that is not smaller than the value. -/
theorem Holed.up (h : Holed a n k) (hk0 : 0 < k) (hk : k < n) :
    Holed (update a k (a (parent k))) n (parent k) := by
  have hlt := parent_lt hk0
  refine ⟨fun i h0 hi hip hpp => ?_, fun hp0 i h0 hi hpi => ?_⟩
  · have hik : i ≠ k := fun he => hpp (by rw [he])
    rw [update_of_ne hik]
    by_cases hpk : parent i = k
    · rw [hpk, update_self]
      exact h.across hk0 i h0 hi hpk
    · rw [update_of_ne hpk]
      exact h.apart i h0 hi hik hpk
  · have hlt' := parent_lt hp0
    have hgrand : a (parent (parent k)) ≤ a (parent k) :=
      h.apart _ hp0 (by omega) (by omega) (by omega)
    rw [update_of_ne (by omega)]
    by_cases hik : i = k
    · rwa [hik, update_self]
    · rw [update_of_ne hik]
      refine hgrand.trans ?_
      have happart := h.apart i h0 hi hik (by omega)
      rwa [hpi] at happart

end Order
end BinaryHeap
