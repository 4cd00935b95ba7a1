import Mathlib.Data.Multiset.Count
import Mathlib.Logic.Function.Basic

/-! Cells of a heap that are shared by references and counted: taking and dropping references,
and what becomes of the contents. -/
namespace SharedCells
open Function

variable {β : Type*}

structure Cell (β : Type*) where
  content : β
  count : ℕ

/-- One reference more. -/
def retain (heap : ℕ → Option (Cell β)) (r : ℕ) : ℕ → Option (Cell β) :=
  update heap r ((heap r).map fun c => { c with count := c.count + 1 })

/-- One reference less; a cell without any is gone. -/
def release (heap : ℕ → Option (Cell β)) (r : ℕ) : ℕ → Option (Cell β) :=
  update heap r ((heap r).bind fun c =>
    if c.count - 1 = 0 then none else some { c with count := c.count - 1 })

/-- A new cell with one reference. -/
def alloc (heap : ℕ → Option (Cell β)) (r : ℕ) (x : β) : ℕ → Option (Cell β) :=
  update heap r (some ⟨x, 1⟩)

def contentAt (heap : ℕ → Option (Cell β)) (r : ℕ) : Option β := (heap r).map (·.content)

/-- There are the cells that are referred to, each with the number of its references. -/
def Counted (heap : ℕ → Option (Cell β)) (refs : Multiset ℕ) : Prop :=
  ∀ r, (heap r).map (·.count) = if r ∈ refs then some (refs.count r) else none

variable {heap : ℕ → Option (Cell β)} {refs : Multiset ℕ} {r q : ℕ}

namespace Counted

theorem cell (h : Counted heap refs) (hr : r ∈ refs) :
    ∃ c, heap r = some c ∧ c.count = refs.count r := by
  have hcount := h r
  rw [if_pos hr] at hcount
  exact Option.map_eq_some_iff.mp hcount

theorem not_mem (h : Counted heap refs) (hr : heap r = none) : r ∉ refs := by
  intro hmem
  obtain ⟨c, hc, -⟩ := h.cell hmem
  rw [hr] at hc
  cases hc

theorem retain (h : Counted heap refs) (hr : r ∈ refs) :
    Counted (retain heap r) (r ::ₘ refs) := by
  obtain ⟨c, hc, hcount⟩ := h.cell hr
  intro q
  unfold SharedCells.retain
  by_cases hq : q = r
  · subst hq
    rw [update_self, hc, if_pos (Multiset.mem_cons_self _ _), Multiset.count_cons_self, ← hcount]
    rfl
  · rw [update_of_ne hq, h q, Multiset.count_cons_of_ne hq]
    simp only [Multiset.mem_cons, hq, false_or]

theorem release (h : Counted heap (r ::ₘ refs)) : Counted (release heap r) refs := by
  obtain ⟨c, hc, hcount⟩ := h.cell (Multiset.mem_cons_self r refs)
  rw [Multiset.count_cons_self] at hcount
  intro q
  unfold SharedCells.release
  by_cases hq : q = r
  · subst hq
    rw [update_self, hc, Option.bind_some, hcount, Nat.add_sub_cancel]
    by_cases hmem : q ∈ refs
    · rw [if_neg (Multiset.count_ne_zero.mpr hmem), if_pos hmem]
      rfl
    · rw [if_pos (Multiset.count_eq_zero.mpr hmem), if_neg hmem]
      rfl
  · rw [update_of_ne hq, h q, Multiset.count_cons_of_ne hq]
    simp only [Multiset.mem_cons, hq, false_or]

theorem alloc (h : Counted heap refs) (hr : heap r = none) (x : β) :
    Counted (alloc heap r x) (r ::ₘ refs) := by
  intro q
  unfold SharedCells.alloc
  by_cases hq : q = r
  · subst hq
    rw [update_self, if_pos (Multiset.mem_cons_self _ _), Multiset.count_cons_self,
      Multiset.count_eq_zero.mpr (h.not_mem hr)]
    rfl
  · rw [update_of_ne hq, h q, Multiset.count_cons_of_ne hq]
    simp only [Multiset.mem_cons, hq, false_or]

/-- A cell is written to in place. -/
theorem write (h : Counted heap refs) {c c' : Cell β} (hr : heap r = some c)
    (hcount : c'.count = c.count) : Counted (update heap r (some c')) refs := by
  intro q
  by_cases hq : q = r
  · subst hq
    have hcell := h q
    rw [hr, Option.map_some] at hcell
    rw [update_self, Option.map_some, hcount, hcell]
  · rw [update_of_ne hq, h q]

end Counted

theorem contentAt_retain (heap : ℕ → Option (Cell β)) (r q : ℕ) :
    contentAt (retain heap r) q = contentAt heap q := by
  unfold contentAt retain
  by_cases hq : q = r
  · subst hq
    rw [update_self, Option.map_map]
    rfl
  · rw [update_of_ne hq]

/-- What is still referred to keeps its content. -/
theorem contentAt_release (h : Counted heap (r ::ₘ refs)) (hq : q ∈ refs) :
    contentAt (release heap r) q = contentAt heap q := by
  unfold contentAt release
  by_cases hqr : q = r
  · subst hqr
    obtain ⟨c, hc, hcount⟩ := h.cell (Multiset.mem_cons_self q refs)
    rw [Multiset.count_cons_self] at hcount
    have hpos := Multiset.count_pos.mpr hq
    rw [update_self, hc, Option.bind_some, if_neg (by omega)]
    rfl
  · rw [update_of_ne hqr]

theorem contentAt_alloc (heap : ℕ → Option (Cell β)) (r q : ℕ) (x : β) :
    contentAt (alloc heap r x) q = if q = r then some x else contentAt heap q := by
  unfold contentAt alloc
  by_cases hq : q = r
  · rw [hq, update_self, if_pos rfl]
    rfl
  · rw [update_of_ne hq, if_neg hq]

end SharedCells
