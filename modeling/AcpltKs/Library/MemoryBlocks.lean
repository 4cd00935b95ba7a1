import Mathlib.Data.List.Basic
import Mathlib.Logic.Function.Basic

/-! Memory that is handed out in blocks and taken back. A block goes by a number that no other
block ever gets, so a pointer to a block that was taken back stays good for nothing. -/
namespace MemoryBlocks
open Function

/-- The cells of the blocks there are; a cell that was never written to holds nothing. -/
structure Memory (α : Type*) where
  block : ℕ → Option (List (Option α))
  next : ℕ
  fresh : ∀ p, next ≤ p → block p = none

variable {α : Type*}

namespace Memory

/-- No block has been handed out. -/
def empty : Memory α := ⟨fun _ => none, 0, fun _ _ => rfl⟩

def alloc (m : Memory α) (cells : List (Option α)) : Memory α where
  block := update m.block m.next (some cells)
  next := m.next + 1
  fresh p hp := by
    rw [update_of_ne (by omega)]
    exact m.fresh p (by omega)

def drop (m : Memory α) (p : ℕ) : Memory α where
  block := update m.block p none
  next := m.next
  fresh q hq := by
    by_cases h : q = p
    · rw [h, update_self]
    · rw [update_of_ne h]
      exact m.fresh q hq

def write (m : Memory α) (p i : ℕ) (x : α) : Memory α where
  block := update m.block p ((m.block p).map fun cells => cells.set i (some x))
  next := m.next
  fresh q hq := by
    by_cases h : q = p
    · rw [h, update_self, ← h, m.fresh q hq, Option.map_none]
    · rw [update_of_ne h]
      exact m.fresh q hq

/-- `free`; it has no outcome where there is no such block. -/
def free (m : Memory α) (p : ℕ) : Option (Memory α) := (m.block p).map fun _ => m.drop p

/-- The first cells stay, and what is missing behind them is new. -/
def resize (cells : List (Option α)) (n : ℕ) : List (Option α) :=
  cells.take n ++ List.replicate (n - cells.length) none

/-- `realloc` of the null pointer or of a block, with the pointer it returns; it has no outcome
where there is no such block. -/
def realloc (m : Memory α) (p : Option ℕ) (n : ℕ) (granted : Bool) :
    Option (Option ℕ × Memory α) :=
  match p with
  | none => some (if granted then (some m.next, m.alloc (List.replicate n none)) else (none, m))
  | some p => (m.block p).map fun cells =>
      if granted then (some m.next, (m.drop p).alloc (resize cells n)) else (none, m)

/-- There has to be such a cell, and something in it. -/
def load (m : Memory α) (p i : ℕ) : Option α := (m.block p).bind fun cells => cells[i]?.join

/-- There has to be such a cell. -/
def store (m : Memory α) (p i : ℕ) (x : α) : Option (Memory α) :=
  (m.block p).bind fun cells => if i < cells.length then some (m.write p i x) else none

/-- A block of `n` cells of which the first hold the `xs`. -/
def Holds (m : Memory α) (p : ℕ) (xs : List α) (n : ℕ) : Prop :=
  ∃ rest, m.block p = some (xs.map some ++ rest) ∧ xs.length + rest.length = n

/-- What an owner of a block, or of none, has in the memory, beside which everything is as in
`m₀`. -/
inductive Owns (m₀ m : Memory α) : Option ℕ → List α → ℕ → Prop
  | null (hnext : m₀.next ≤ m.next) (hothers : m.block = m₀.block) : Owns m₀ m none [] 0
  | block {p : ℕ} {xs : List α} {n : ℕ} (hnext : m₀.next ≤ m.next) (hnew : m₀.next ≤ p)
      (hholds : m.Holds p xs n) (hothers : ∀ q, q ≠ p → m.block q = m₀.block q) :
      Owns m₀ m (some p) xs n

variable {m₀ m : Memory α} {p : ℕ} {ptr : Option ℕ} {xs : List α} {n n' : ℕ}

theorem Holds.load (h : m.Holds p xs n) {i : ℕ} (hi : i < xs.length) : m.load p i = xs[i]? := by
  obtain ⟨rest, hblock, -⟩ := h
  unfold Memory.load
  rw [hblock, Option.bind_some, List.getElem?_append_left (by simpa using hi), List.getElem?_map,
    List.getElem?_eq_getElem hi]
  rfl

/-- What was in a block is in it when it got larger. -/
theorem Holds.resize (h : m.Holds p xs n) (hn : n ≤ n') {cells : List (Option α)}
    (hcells : m.block p = some cells) :
    ∃ rest, resize cells n' = xs.map some ++ rest ∧ xs.length + rest.length = n' := by
  obtain ⟨rest, hblock, hlength⟩ := h
  obtain rfl : xs.map some ++ rest = cells := Option.some.inj (hblock.symm.trans hcells)
  refine ⟨rest ++ List.replicate (n' - n) none, ?_, ?_⟩
  · unfold Memory.resize
    rw [List.take_of_length_le (by simp; omega), List.append_assoc]
    simp [hlength]
  · rw [List.length_append, List.length_replicate]
    omega

theorem realloc_some (m : Memory α) (p n : ℕ) (granted : Bool) :
    m.realloc (some p) n granted = (m.block p).map fun cells =>
      if granted then (some m.next, (m.drop p).alloc (resize cells n)) else (none, m) := rfl

theorem realloc_dangling (h : m.block p = none) (n : ℕ) (granted : Bool) :
    m.realloc (some p) n granted = none := by
  rw [realloc_some, h, Option.map_none]

theorem free_dangling (h : m.block p = none) : m.free p = none := by
  unfold free
  rw [h, Option.map_none]

namespace Owns

theorem init (m : Memory α) : Owns m m none [] 0 := .null (Nat.le_refl _) rfl

theorem of_null (h : Owns m₀ m none xs n) : m.block = m₀.block ∧ xs = [] := by
  cases h with
  | null hnext hothers => exact ⟨hothers, rfl⟩

theorem load (h : Owns m₀ m (some p) xs n) {i : ℕ} (hi : i < xs.length) :
    m.load p i = xs[i]? := by
  cases h with
  | block hnext hnew hholds hothers => exact hholds.load hi

/-- The block may move, and what is in it does so too. -/
theorem realloc (h : Owns m₀ m ptr xs n) (hn : n ≤ n') :
    ∃ q m', m.realloc ptr n' true = some (some q, m') ∧ Owns m₀ m' (some q) xs n' := by
  cases h with
  | null hnext hothers =>
    refine ⟨m.next, m.alloc (List.replicate n' none), rfl, ?_⟩
    apply Owns.block
    · exact Nat.le_succ_of_le hnext
    · exact hnext
    · exact ⟨List.replicate n' none, update_self .., by simp⟩
    · intro q hq
      exact (update_of_ne hq ..).trans (congrFun hothers q)
  | @block p xs n hnext hnew hholds hothers =>
    obtain ⟨rest, hblock, hlength⟩ := hholds
    obtain ⟨rest', hresize, hlength'⟩ := Holds.resize ⟨rest, hblock, hlength⟩ hn hblock
    refine ⟨m.next, (m.drop p).alloc (resize (xs.map some ++ rest) n'), ?_, ?_⟩
    · rw [realloc_some, hblock]
      rfl
    · apply Owns.block
      · exact Nat.le_succ_of_le hnext
      · exact hnext
      · exact ⟨rest', (update_self ..).trans (congrArg some hresize), hlength'⟩
      · intro q hq
        refine (update_of_ne hq ..).trans ?_
        by_cases hqp : q = p
        · subst hqp
          exact (update_self ..).trans (m₀.fresh q hnew).symm
        · exact (update_of_ne hqp ..).trans (hothers q hqp)

theorem realloc_refused (h : Owns m₀ m ptr xs n) (n' : ℕ) :
    m.realloc ptr n' false = some (none, m) := by
  cases h with
  | null hnext hothers => rfl
  | block hnext hnew hholds hothers =>
    obtain ⟨rest, hblock, -⟩ := hholds
    rw [realloc_some, hblock]
    rfl

/-- The next cell is filled. -/
theorem store (h : Owns m₀ m (some p) xs n) (hn : xs.length < n) (x : α) :
    ∃ m', m.store p xs.length x = some m' ∧ Owns m₀ m' (some p) (xs ++ [x]) n := by
  cases h with
  | block hnext hnew hholds hothers =>
    obtain ⟨rest, hblock, hlength⟩ := hholds
    cases rest with
    | nil => exact absurd hlength (by simp; omega)
    | cons y rest =>
      refine ⟨m.write p xs.length x, ?_, ?_⟩
      · unfold Memory.store
        rw [hblock, Option.bind_some, if_pos (by simp)]
      · refine Owns.block hnext hnew ?_ ?_
        · refine ⟨rest, ?_, ?_⟩
          · refine (update_self ..).trans ?_
            rw [hblock, Option.map_some, List.set_append_right _ _ (by simp)]
            simp
          · rw [← hlength]
            simp
            omega
        · intro q hq
          exact (update_of_ne hq ..).trans (hothers q hq)

/-- Everything is back as it was. -/
theorem free (h : Owns m₀ m (some p) xs n) :
    ∃ m', m.free p = some m' ∧ m₀.next ≤ p ∧ m'.block = m₀.block := by
  cases h with
  | block hnext hnew hholds hothers =>
    obtain ⟨rest, hblock, -⟩ := hholds
    refine ⟨m.drop p, ?_, hnew, ?_⟩
    · unfold Memory.free
      rw [hblock, Option.map_some]
    · funext q
      by_cases hq : q = p
      · subst hq
        exact (update_self ..).trans (m₀.fresh q hnew).symm
      · exact (update_of_ne hq ..).trans (hothers q hq)

end Owns
end Memory
end MemoryBlocks
