import Mathlib.Data.List.Range
import Mathlib.Tactic

/-! Flat memory as a total function of the address, with block reads and writes. Nothing bounds
the addresses: what a block access may touch is the business of whoever makes it. -/
namespace ByteMemory

variable {α : Type*}

/-- The `n` cells from address `off` on. -/
def read (m : ℕ → α) (off n : ℕ) : List α := (List.range n).map fun i => m (off + i)

/-- Store the list `bs` from address `off` on. -/
def write (m : ℕ → α) (off : ℕ) (bs : List α) : ℕ → α := fun i =>
  if i < off then m i else bs.getD (i - off) (m i)

@[simp] theorem read_length (m : ℕ → α) (off n : ℕ) : (read m off n).length = n := by
  simp [read]

@[simp] theorem read_zero (m : ℕ → α) (off : ℕ) : read m off 0 = [] := rfl

@[simp] theorem read_eq_nil {m : ℕ → α} {off n : ℕ} : read m off n = [] ↔ n = 0 := by
  simp [← List.length_eq_zero_iff]

theorem read_getElem {m : ℕ → α} {off n i : ℕ} (h : i < (read m off n).length) :
    (read m off n)[i] = m (off + i) := by
  simp [read]

theorem read_add (m : ℕ → α) (off n k : ℕ) :
    read m off (n + k) = read m off n ++ read m (off + n) k := by
  simp only [read, List.range_add, List.map_append, List.map_map, Function.comp_def, Nat.add_assoc]

theorem read_take (m : ℕ → α) (off : ℕ) {n k : ℕ} (h : k ≤ n) :
    (read m off n).take k = read m off k := by
  obtain ⟨j, rfl⟩ := Nat.exists_eq_add_of_le h
  rw [read_add, List.take_append_of_le_length (by simp), List.take_of_length_le (by simp)]

theorem read_drop (m : ℕ → α) (off : ℕ) {n k : ℕ} (h : k ≤ n) :
    (read m off n).drop k = read m (off + k) (n - k) := by
  obtain ⟨j, rfl⟩ := Nat.exists_eq_add_of_le h
  rw [read_add, List.drop_append_of_le_length (by simp), List.drop_of_length_le (by simp)]
  simp

/-- Reads agree as soon as the cells they cover do. -/
theorem read_congr {m m' : ℕ → α} {off n : ℕ} (h : ∀ i, i < n → m (off + i) = m' (off + i)) :
    read m off n = read m' off n := by
  apply List.map_congr_left
  intro i hi
  exact h i (List.mem_range.mp hi)

/-- Cells agree where the reads that cover them do. -/
theorem cell_of_read {m m' : ℕ → α} {off n i : ℕ} (h : read m off n = read m' off n)
    (hi : i < n) : m (off + i) = m' (off + i) :=
  List.map_inj_left.mp h i (List.mem_range.mpr hi)

/-- A write leaves the cells below it alone. -/
theorem read_write_below (m : ℕ → α) (bs : List α) {off off' n : ℕ} (h : off' + n ≤ off) :
    read (write m off bs) off' n = read m off' n := by
  apply read_congr
  intro i hi
  simp [write, show off' + i < off by omega]

/-- A write leaves the cells above it alone. -/
theorem read_write_above (m : ℕ → α) (bs : List α) {off off' n : ℕ}
    (h : off + bs.length ≤ off') : read (write m off bs) off' n = read m off' n := by
  apply read_congr
  intro i hi
  simp [write, show ¬ off' + i < off by omega,
    List.getElem?_eq_none (show bs.length ≤ off' + i - off by omega)]

theorem read_write_self (m : ℕ → α) (off : ℕ) (bs : List α) :
    read (write m off bs) off bs.length = bs := by
  apply List.ext_getElem (by simp)
  intro i hi hi'
  simp [read_getElem, write, hi']

/-- Writing right behind what was read so far appends to it. -/
theorem read_write_append (m : ℕ → α) (off : ℕ) (bs : List α) :
    read (write m off bs) 0 (off + bs.length) = read m 0 off ++ bs := by
  rw [read_add, read_write_below m bs (by omega), Nat.zero_add, read_write_self]

end ByteMemory
