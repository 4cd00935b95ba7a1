import Mathlib.Algebra.BigOperators.Group.Finset.Basic
import Mathlib.Tactic

/-! Tables with open addressing. A search follows a path through the slots until it comes to an
empty slot or to what it looks for; a deleted entry leaves a mark behind over which searches
go on. -/
namespace OpenAddressing
open Function

inductive Slot (α : Type*) where
  | empty
  | deleted
  | used (a : α)

variable {α : Type*} {σ : ℕ → Slot α} {path : ℕ → ℕ} {p : α → Bool} {n m x : ℕ}

section Totals
variable {M : Type*} [AddCommMonoid M]

/-- What the first `n` slots come to. -/
def total (f : Slot α → M) (σ : ℕ → Slot α) (n : ℕ) : M := ∑ i ∈ Finset.range n, f (σ i)

@[simp] theorem total_zero (f : Slot α → M) (σ : ℕ → Slot α) : total f σ 0 = 0 := rfl

theorem total_succ (f : Slot α → M) (σ : ℕ → Slot α) (n : ℕ) :
    total f σ (n + 1) = total f σ n + f (σ n) := Finset.sum_range_succ _ _

/-- Changing a slot exchanges its share. -/
theorem total_update (f : Slot α → M) (hx : x < n) (s : Slot α) :
    total f (update σ x s) n + f (σ x) = total f σ n + f s := by
  have hmem := Finset.mem_range.mpr hx
  rw [total, total, ← Finset.add_sum_erase _ _ hmem, ← Finset.add_sum_erase _ (fun i => f (σ i)) hmem,
    update_self]
  have hrest : ∑ i ∈ (Finset.range n).erase x, f (update σ x s i) =
      ∑ i ∈ (Finset.range n).erase x, f (σ i) :=
    Finset.sum_congr rfl fun i hi => by rw [update_of_ne (Finset.ne_of_mem_erase hi)]
  rw [hrest]
  abel

theorem total_add (f g : Slot α → M) (σ : ℕ → Slot α) (n : ℕ) :
    total (fun s => f s + g s) σ n = total f σ n + total g σ n := Finset.sum_add_distrib

theorem map_total {N : Type*} [AddCommMonoid N] (φ : M →+ N) (f : Slot α → M) (σ : ℕ → Slot α)
    (n : ℕ) : φ (total f σ n) = total (fun s => φ (f s)) σ n := map_sum φ _ _

end Totals

namespace Slot

def isEmpty : Slot α → Bool
  | empty => true
  | _ => false

/-- Is there an entry or the mark of a deleted one? -/
def occupied : Slot α → ℕ
  | empty => 0
  | _ => 1

def deletions : Slot α → ℕ
  | deleted => 1
  | _ => 0

def entries : Slot α → Multiset α
  | used a => {a}
  | _ => 0

@[simp] theorem occupied_empty : (empty : Slot α).occupied = 0 := rfl
@[simp] theorem occupied_deleted : (deleted : Slot α).occupied = 1 := rfl
@[simp] theorem occupied_used (a : α) : (used a).occupied = 1 := rfl
@[simp] theorem deletions_empty : (empty : Slot α).deletions = 0 := rfl
@[simp] theorem deletions_deleted : (deleted : Slot α).deletions = 1 := rfl
@[simp] theorem deletions_used (a : α) : (used a).deletions = 0 := rfl
@[simp] theorem entries_empty : (empty : Slot α).entries = 0 := rfl
@[simp] theorem entries_deleted : (deleted : Slot α).entries = 0 := rfl
@[simp] theorem entries_used (a : α) : (used a).entries = {a} := rfl

theorem card_entries_add (s : Slot α) : s.entries.card + s.deletions = s.occupied := by
  cases s <;> rfl

/-- Does a search for `p` end at this slot? -/
def stops (p : α → Bool) : Slot α → Bool
  | empty => true
  | deleted => false
  | used a => p a

end Slot

/-- The entries of the first `n` slots. -/
def entries (σ : ℕ → Slot α) (n : ℕ) : Multiset α := total Slot.entries σ n

theorem mem_entries {a : α} : a ∈ entries σ n ↔ ∃ i < n, σ i = .used a := by
  rw [entries, total, Multiset.mem_sum]
  constructor
  · rintro ⟨i, hi, ha⟩
    refine ⟨i, Finset.mem_range.mp hi, ?_⟩
    cases hs : σ i <;> simp [hs, Slot.entries] at ha
    rw [ha]
  · rintro ⟨i, hi, hs⟩
    exact ⟨i, Finset.mem_range.mpr hi, by simp [hs, Slot.entries]⟩

/-- Entries and marks make up the occupied slots. -/
theorem card_entries_add (σ : ℕ → Slot α) (n : ℕ) :
    (entries σ n).card + total Slot.deletions σ n = total Slot.occupied σ n := by
  have hcard : (entries σ n).card = total (fun s => s.entries.card) σ n :=
    map_total (Multiset.cardHom : Multiset α →+ ℕ) Slot.entries σ n
  rw [hcard, ← total_add]
  exact Finset.sum_congr rfl fun i _ => (σ i).card_entries_add

/-- Where not all slots are occupied, there is an empty one. -/
theorem exists_empty (h : total Slot.occupied σ n < n) : ∃ i < n, σ i = .empty := by
  by_contra hnone
  simp only [not_exists, not_and] at hnone
  have hall : total Slot.occupied σ n = ∑ i ∈ Finset.range n, 1 :=
    Finset.sum_congr rfl fun i hi => by
      cases hs : σ i with
      | empty => exact absurd hs (hnone i (Finset.mem_range.mp hi))
      | deleted | used => rfl
  simp [hall] at h

/-- Follow the path from step `m` on to where the search ends. -/
def follow (σ : ℕ → Slot α) (path : ℕ → ℕ) (p : α → Bool) : ℕ → ℕ → Option ℕ
  | 0, _ => none
  | fuel + 1, m => if (σ (path m)).stops p then some m else follow σ path p fuel (m + 1)

theorem follow_eq_none {fuel : ℕ} :
    follow σ path p fuel m = none ↔ ∀ l, m ≤ l → l < m + fuel → (σ (path l)).stops p = false := by
  induction fuel generalizing m with
  | zero => exact iff_of_true rfl fun l hl hlt => by omega
  | succ fuel ih =>
    by_cases hs : (σ (path m)).stops p = true
    · simp only [follow, hs, ↓reduceIte, reduceCtorEq, false_iff]
      exact fun h => by simpa [hs] using h m le_rfl (by omega)
    · simp only [follow, hs, ↓reduceIte, ih, Bool.false_eq_true]
      constructor
      · intro h l hl hlt
        rcases Nat.eq_or_lt_of_le hl with rfl | hl
        · simpa using hs
        · exact h l hl (by omega)
      · exact fun h l hl hlt => h l (by omega) (by omega)

/-- The search ends at the first step where it may. -/
theorem follow_eq_some {fuel k : ℕ} (h : follow σ path p fuel m = some k) :
    m ≤ k ∧ (σ (path k)).stops p = true ∧ ∀ l, m ≤ l → l < k → (σ (path l)).stops p = false := by
  induction fuel generalizing m with
  | zero => simp [follow] at h
  | succ fuel ih =>
    by_cases hs : (σ (path m)).stops p = true
    · simp only [follow, hs, ↓reduceIte, Option.some.injEq] at h
      subst h
      exact ⟨le_rfl, hs, fun l hl hlt => by omega⟩
    · simp only [follow, hs, ↓reduceIte, Bool.false_eq_true] at h
      obtain ⟨hle, hk, hbefore⟩ := ih h
      refine ⟨by omega, hk, fun l hl hlt => ?_⟩
      rcases Nat.eq_or_lt_of_le hl with rfl | hl
      · simpa using hs
      · exact hbefore l hl hlt

/-- The path leads to slot `x` over occupied slots, which `x` is one of. -/
def Reaches (σ : ℕ → Slot α) (path : ℕ → ℕ) (x : ℕ) : Prop :=
  ∃ m, path m = x ∧ ∀ l ≤ m, σ (path l) ≠ .empty

/-- Occupying more slots does no harm. -/
theorem Reaches.mono {σ' : ℕ → Slot α} (h : Reaches σ path x)
    (hσ : ∀ i, σ i ≠ .empty → σ' i ≠ .empty) : Reaches σ' path x := by
  obtain ⟨m, hm, hall⟩ := h
  exact ⟨m, hm, fun l hl => hσ _ (hall l hl)⟩

/-- A search ends before an empty slot if the path reaches an entry it looks for. -/
theorem follow_of_reaches {fuel : ℕ} {a : α} (h : Reaches σ path x) (hx : σ x = .used a)
    (hp : p a = true) (hfuel : ∃ l < fuel, path l = x) :
    ∃ k b, follow σ path p fuel 0 = some k ∧ σ (path k) = .used b ∧ p b = true := by
  obtain ⟨m, rfl, hall⟩ := h
  have hstops : (σ (path m)).stops p = true := by simp [hx, Slot.stops, hp]
  -- the first visit to the slot is early enough, and all slots up to there are occupied
  obtain ⟨l, hl, hlx, hlall⟩ : ∃ l < fuel, path l = path m ∧ ∀ i ≤ l, σ (path i) ≠ .empty := by
    obtain ⟨l, hl, hlx⟩ := hfuel
    rcases le_total l m with hlm | hml
    · exact ⟨l, hl, hlx, fun i hi => hall i (hi.trans hlm)⟩
    · exact ⟨m, hml.trans_lt hl, rfl, hall⟩
  cases hf : follow σ path p fuel 0 with
  | none =>
    have := follow_eq_none.mp hf l (Nat.zero_le _) (by omega)
    rw [hlx, hstops] at this
    exact absurd this (by simp)
  | some k =>
    obtain ⟨-, hk, hbefore⟩ := follow_eq_some hf
    have hkl : k ≤ l := by
      by_contra hlt
      have := hbefore l (Nat.zero_le _) (by omega)
      rw [hlx, hstops] at this
      exact absurd this (by simp)
    cases hs : σ (path k) with
    | empty => exact absurd hs (hlall k hkl)
    | deleted => simp [hs, Slot.stops] at hk
    | used b => exact ⟨k, b, rfl, hs, by simpa [hs, Slot.stops] using hk⟩

/-- With an empty slot on the path, every search ends. -/
theorem follow_terminates {fuel : ℕ} (hx : σ x = .empty) (hfuel : ∃ l < fuel, path l = x) :
    ∃ k, follow σ path p fuel 0 = some k := by
  cases hf : follow σ path p fuel 0 with
  | none =>
    obtain ⟨l, hl, rfl⟩ := hfuel
    have := follow_eq_none.mp hf l (Nat.zero_le _) (by omega)
    simp [hx, Slot.stops] at this
  | some k => exact ⟨k, rfl⟩

end OpenAddressing
