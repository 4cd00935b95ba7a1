import AcpltKs.Library.Rearrangement
import Mathlib.Tactic.SplitIfs

/-! The sorting of arrays in the PLT library. Accesses outside the array have no outcome, and neither
has a run with less fuel than loops and recursion need. -/
namespace AcpltKs.PltSort
open Rearrangement

variable {α : Type} (lt : α → α → Prop) [DecidableRel lt]

/-- `_swap` of two elements of the array -/
def swap (el : Array α) (i j : ℕ) : Option (Array α) :=
  if h : i < el.size ∧ j < el.size then some (el.swap i j h.1 h.2) else none

/-- The elements are swapped if the first of the indices given has the lesser one. -/
def swapIfLess (el : Array α) (b a : ℕ) : Option (Array α) := do
  let eb ← el[b]?
  let ea ← el[a]?
  if lt eb ea then swap el b a else some el

/-- `_sort2` -/
def sort2 (el : Array α) (a b : ℕ) : Option (Array α) := swapIfLess lt el b a

/-- `_sort3` -/
def sort3 (el : Array α) (a b c : ℕ) : Option (Array α) := do
  let el ← swapIfLess lt el b a
  let el ← swapIfLess lt el c a
  swapIfLess lt el c b

/-- `while(el[++i] < v);` -/
def scanUp (el : Array α) (v : α) : ℕ → ℕ → Option ℕ
  | 0, _ => none
  | fuel + 1, i => do
      let x ← el[i + 1]?
      if lt x v then scanUp el v fuel (i + 1) else some (i + 1)

/-- `while(v < el[--j]);`, where the index in front of the first one is outside of every array. -/
def scanDown (el : Array α) (v : α) : ℕ → Option ℕ
  | 0 => none
  | j + 1 => do
      let x ← el[j]?
      if lt v x then scanDown el v j else some j

/-- The loop around the scans; it answers where the upper part begins. -/
def partition (v : α) : ℕ → Array α → ℕ → ℕ → Option (Array α × ℕ)
  | 0, _, _, _ => none
  | fuel + 1, el, i, j => do
      let i ← scanUp lt el v (fuel + 1) i
      let j ← scanDown lt el v j
      if j ≤ i then some (el, i)
      else
        let el ← swap el i j
        partition v fuel el i j

/-- `_rek_qsort` -/
def rekQsort : ℕ → Array α → ℕ → ℕ → Option (Array α)
  | 0, _, _, _ => none
  | fuel + 1, el, l, r =>
      if l < r then
        let distance := r - l
        if distance = 1 then sort2 lt el l r
        else if distance = 2 then sort3 lt el l (l + 1) r
        else do
          let m := (r + l) / 2
          let el ← sort3 lt el l m r
          let v ← el[m]?
          let (el, i) ← partition lt v (fuel + 1) el l r
          let el ← rekQsort fuel el l (i - 1)
          rekQsort fuel el i r
      else some el

/-- The index of the last element of an empty array is the largest there is. -/
def qsort (fuel : ℕ) (toSort : Array α) : Option (Array α) :=
  if toSort.isEmpty then none else rekQsort lt fuel toSort 0 (toSort.size - 1)

variable {el : Array α} {l r : ℕ} {v : α}

theorem swap_spec {i j : ℕ} {x y : α} (hi : el[i]? = some x) (hj : el[j]? = some y) (hij : i ≠ j)
    (hli : l ≤ i) (hir : i ≤ r) (hlj : l ≤ j) (hjr : j ≤ r) :
    ∃ el', swap el i j = some el' ∧ Rearranged l r el el' ∧ el'[i]? = some y ∧ el'[j]? = some x ∧
      ∀ k, k ≠ i → k ≠ j → el'[k]? = el[k]? := by
  obtain ⟨hilt, rfl⟩ := Array.getElem?_eq_some_iff.mp hi
  obtain ⟨hjlt, rfl⟩ := Array.getElem?_eq_some_iff.mp hj
  refine ⟨_, dif_pos ⟨hilt, hjlt⟩, Rearranged.swap hilt hjlt hli hir hlj hjr, ?_, ?_, ?_⟩
  · rw [Array.getElem?_swap, if_neg hij.symm, if_pos rfl]
  · rw [Array.getElem?_swap, if_pos rfl]
  · intro k hki hkj
    rw [Array.getElem?_swap, if_neg hkj.symm, if_neg hki.symm]

theorem swapIfLess_spec {b a : ℕ} {y x : α} (hb : el[b]? = some y) (ha : el[a]? = some x)
    (hba : b ≠ a) (hlb : l ≤ b) (hbr : b ≤ r) (hla : l ≤ a) (har : a ≤ r) :
    ∃ el', swapIfLess lt el b a = some el' ∧ Rearranged l r el el' ∧
      (lt y x ∧ el'[b]? = some x ∧ el'[a]? = some y ∨
        ¬ lt y x ∧ el'[b]? = some y ∧ el'[a]? = some x) ∧
      ∀ k, k ≠ b → k ≠ a → el'[k]? = el[k]? := by
  unfold swapIfLess
  rw [hb, ha]
  simp only [Option.bind_eq_bind, Option.bind_some]
  by_cases hlt : lt y x
  · obtain ⟨el', hswap, hmoved, hb', ha', hother⟩ := swap_spec hb ha hba hlb hbr hla har
    exact ⟨el', by rw [if_pos hlt, hswap], hmoved, Or.inl ⟨hlt, hb', ha'⟩, hother⟩
  · exact ⟨el, if_neg hlt, Rearranged.refl l r el, Or.inr ⟨hlt, hb, ha⟩, fun _ _ _ => rfl⟩

variable [IsStrictWeakOrder α lt]

theorem sort2_spec {a b : ℕ} (hab : a < b) (hb : b < el.size) (hla : l ≤ a) (hbr : b ≤ r) :
    ∃ el', sort2 lt el a b = some el' ∧ Rearranged l r el el' ∧
      ∃ x y, el'[a]? = some x ∧ el'[b]? = some y ∧ ¬ lt y x := by
  have ha : a < el.size := hab.trans hb
  obtain ⟨el', hsort, hmoved, hvalues, -⟩ := swapIfLess_spec lt (l := l) (r := r)
    (Array.getElem?_eq_getElem hb) (Array.getElem?_eq_getElem ha) hab.ne' (by omega) hbr hla
    (by omega)
  refine ⟨el', hsort, hmoved, ?_⟩
  obtain ⟨hlt, hb', ha'⟩ | ⟨hlt, hb', ha'⟩ := hvalues
  · exact ⟨_, _, ha', hb', not_lt_of_lt hlt⟩
  · exact ⟨_, _, ha', hb', hlt⟩

theorem sort3_spec {a b c : ℕ} (hab : a < b) (hbc : b < c) (hc : c < el.size) (hla : l ≤ a)
    (hcr : c ≤ r) : ∃ el', sort3 lt el a b c = some el' ∧ Rearranged l r el el' ∧
      ∃ x y z, el'[a]? = some x ∧ el'[b]? = some y ∧ el'[c]? = some z ∧
        ¬ lt y x ∧ ¬ lt z y := by
  have hb : b < el.size := hbc.trans hc
  have ha : a < el.size := hab.trans hb
  obtain ⟨el₁, h₁, hmoved₁, hvalues₁, hother₁⟩ := swapIfLess_spec lt (l := l) (r := r)
    (Array.getElem?_eq_getElem hb) (Array.getElem?_eq_getElem ha) hab.ne' (by omega) (by omega) hla
    (by omega)
  -- The least of the two goes to the front, the least of all of them after the second test.
  obtain ⟨x₁, y₁, ha₁, hb₁, hle₁⟩ :
      ∃ x y, el₁[a]? = some x ∧ el₁[b]? = some y ∧ ¬ lt y x := by
    obtain ⟨hlt, hb', ha'⟩ | ⟨hlt, hb', ha'⟩ := hvalues₁
    · exact ⟨_, _, ha', hb', not_lt_of_lt hlt⟩
    · exact ⟨_, _, ha', hb', hlt⟩
  have hc₁ : el₁[c]? = some el[c] := by
    rw [hother₁ c hbc.ne' (by omega)]
    exact Array.getElem?_eq_getElem hc
  obtain ⟨el₂, h₂, hmoved₂, hvalues₂, hother₂⟩ := swapIfLess_spec lt (l := l) (r := r)
    hc₁ ha₁ (by omega) (by omega) hcr hla (by omega)
  have hb₂ : el₂[b]? = some y₁ := by rw [hother₂ b (by omega) hab.ne', hb₁]
  obtain ⟨x₂, z₂, ha₂, hc₂, hle₂, hxy₂⟩ :
      ∃ x z, el₂[a]? = some x ∧ el₂[c]? = some z ∧ ¬ lt z x ∧ ¬ lt y₁ x := by
    obtain ⟨hlt, hc', ha'⟩ | ⟨hlt, hc', ha'⟩ := hvalues₂
    · exact ⟨_, _, ha', hc', not_lt_of_lt hlt, not_lt_trans (not_lt_of_lt hlt) hle₁⟩
    · exact ⟨_, _, ha', hc', hlt, hle₁⟩
  obtain ⟨el₃, h₃, hmoved₃, hvalues₃, hother₃⟩ := swapIfLess_spec lt (l := l) (r := r)
    hc₂ hb₂ (by omega) (by omega) hcr (by omega) (by omega)
  have ha₃ : el₃[a]? = some x₂ := by rw [hother₃ a (by omega) (by omega), ha₂]
  refine ⟨el₃, ?_, (hmoved₁.trans hmoved₂).trans hmoved₃, ?_⟩
  · rw [sort3, h₁, Option.bind_eq_bind, Option.bind_some, h₂, Option.bind_some, h₃]
  · obtain ⟨hlt, hc', hb'⟩ | ⟨hlt, hc', hb'⟩ := hvalues₃
    · exact ⟨_, _, _, ha₃, hb', hc', hle₂, not_lt_of_lt hlt⟩
    · exact ⟨_, _, _, ha₃, hb', hc', hxy₂, hlt⟩

omit [IsStrictWeakOrder α lt] in
/-- An element that is not less than the pivot stops the scan, wherever it is. -/
theorem scanUp_spec {i stop : ℕ} {x : α} {fuel : ℕ} (hstop : el[stop]? = some x) (hx : ¬ lt x v)
    (hi : i < stop) (hfuel : stop ≤ i + fuel) :
    ∃ i', scanUp lt el v fuel i = some i' ∧ i < i' ∧ i' ≤ stop ∧
      (∀ k, i < k → k < i' → ∀ y ∈ el[k]?, lt y v) ∧ ∃ y, el[i']? = some y ∧ ¬ lt y v := by
  induction fuel generalizing i with
  | zero => omega
  | succ fuel ih =>
    obtain ⟨hstoplt, -⟩ := Array.getElem?_eq_some_iff.mp hstop
    have hi' : i + 1 < el.size := by omega
    rw [scanUp, Array.getElem?_eq_getElem hi', Option.bind_eq_bind, Option.bind_some]
    by_cases hlt : lt el[i + 1] v
    · have hne : i + 1 ≠ stop := by
        rintro rfl
        rw [Array.getElem?_eq_getElem hi', Option.some_inj] at hstop
        exact hx (hstop ▸ hlt)
      obtain ⟨i', hscan, hlow, hhigh, hbetween, hend⟩ := ih (i := i + 1) (by omega) (by omega)
      refine ⟨i', by rw [if_pos hlt, hscan], by omega, hhigh, ?_, hend⟩
      intro k hk hki' y hy
      by_cases hki : k = i + 1
      · rw [hki, Array.getElem?_eq_getElem hi', Option.mem_some_iff] at hy
        exact hy ▸ hlt
      · exact hbetween k (by omega) hki' y hy
    · refine ⟨i + 1, if_neg hlt, by omega, by omega, ?_, _, Array.getElem?_eq_getElem hi', hlt⟩
      intro k hk hki'
      omega

omit [IsStrictWeakOrder α lt] in
/-- An element that the pivot is not less than stops the scan. -/
theorem scanDown_spec {j stop : ℕ} {x : α} (hstop : el[stop]? = some x) (hx : ¬ lt v x)
    (hj : stop < j) (hsize : j ≤ el.size) :
    ∃ j', scanDown lt el v j = some j' ∧ j' < j ∧ stop ≤ j' ∧
      (∀ k, j' < k → k < j → ∀ y ∈ el[k]?, lt v y) ∧ ∃ y, el[j']? = some y ∧ ¬ lt v y := by
  induction j with
  | zero => omega
  | succ j ih =>
    have hj' : j < el.size := by omega
    rw [scanDown, Array.getElem?_eq_getElem hj', Option.bind_eq_bind, Option.bind_some]
    by_cases hlt : lt v el[j]
    · have hne : stop ≠ j := by
        rintro rfl
        rw [Array.getElem?_eq_getElem hj', Option.some_inj] at hstop
        exact hx (hstop ▸ hlt)
      obtain ⟨j', hscan, hhigh, hlow, hbetween, hend⟩ := ih (by omega) (by omega)
      refine ⟨j', by rw [if_pos hlt, hscan], by omega, hlow, ?_, hend⟩
      intro k hk hkj y hy
      by_cases hkj' : k = j
      · rw [hkj', Array.getElem?_eq_getElem hj', Option.mem_some_iff] at hy
        exact hy ▸ hlt
      · exact hbetween k hk (by omega) y hy
    · refine ⟨j, if_neg hlt, by omega, by omega, ?_, _, Array.getElem?_eq_getElem hj', hlt⟩
      intro k hk hkj
      omega

variable {lt}

/-- What lies up to the first index is not above the pivot, what lies from the second one on is not
below it; these two are the stops of the scans. -/
structure Parted (lt : α → α → Prop) (v : α) (l r i j : ℕ) (el : Array α) : Prop where
  left : l ≤ i
  between : i < j
  right : j ≤ r
  inside : r < el.size
  low : ∀ k, l ≤ k → k ≤ i → ∀ x ∈ el[k]?, ¬ lt v x
  high : ∀ k, j ≤ k → k ≤ r → ∀ x ∈ el[k]?, ¬ lt x v

theorem Parted.partition {i j : ℕ} (fuel : ℕ) (h : Parted lt v l r i j el) (hfuel : j ≤ i + fuel) :
    ∃ el' i', partition lt v fuel el i j = some (el', i') ∧ Rearranged l r el el' ∧
      l < i' ∧ i' ≤ r ∧ (∀ k, l ≤ k → k ≤ i' - 1 → ∀ x ∈ el'[k]?, ¬ lt v x) ∧
      ∀ k, i' ≤ k → k ≤ r → ∀ x ∈ el'[k]?, ¬ lt x v := by
  induction fuel generalizing el i j with
  | zero =>
    have hij := h.between
    omega
  | succ fuel ih =>
    obtain ⟨hleft, hbetween, hright, hinside, hlow, hhigh⟩ := h
    have hjsome := Array.getElem?_eq_getElem (show j < el.size by omega)
    have hisome := Array.getElem?_eq_getElem (show i < el.size by omega)
    obtain ⟨i', hup, hii', hi'j, hpassed, x, hx, hxv⟩ :=
      scanUp_spec lt hjsome (hhigh j (by omega) hright _ hjsome) hbetween hfuel
    obtain ⟨j', hdown, hj'j, hij', hpassed', y, hy, hyv⟩ :=
      scanDown_spec lt hisome (hlow i hleft (by omega) _ hisome) hbetween (by omega)
    rw [PltSort.partition, hup, Option.bind_eq_bind, Option.bind_some, hdown, Option.bind_some]
    by_cases hcross : j' ≤ i'
    · refine ⟨el, i', if_pos hcross, Rearranged.refl l r el, by omega, by omega, ?_, ?_⟩
      · intro k hk hki' z hz
        by_cases hki : k ≤ i
        · exact hlow k hk hki z hz
        · exact not_lt_of_lt (hpassed k (by omega) (by omega) z hz)
      · intro k hk hkr z hz
        by_cases hjk : j ≤ k
        · exact hhigh k hjk hkr z hz
        · by_cases hki' : k = i'
          · rw [hki', hx, Option.mem_some_iff] at hz
            exact hz ▸ hxv
          · exact not_lt_of_lt (hpassed' k (by omega) (by omega) z hz)
    · obtain ⟨el', hswap, hmoved, hi', hj', hother⟩ :=
        swap_spec (l := l) (r := r) hx hy (by omega) (by omega) (by omega) (by omega) (by omega)
      have hparted : Parted lt v l r i' j' el' := by
        refine ⟨by omega, by omega, by omega, by rw [hmoved.size_eq]; omega, ?_, ?_⟩
        · intro k hk hki' z hz
          by_cases heq : k = i'
          · rw [heq, hi', Option.mem_some_iff] at hz
            exact hz ▸ hyv
          · rw [hother k heq (by omega)] at hz
            by_cases hki : k ≤ i
            · exact hlow k hk hki z hz
            · exact not_lt_of_lt (hpassed k (by omega) (by omega) z hz)
        · intro k hk hkr z hz
          by_cases heq : k = j'
          · rw [heq, hj', Option.mem_some_iff] at hz
            exact hz ▸ hxv
          · rw [hother k (by omega) heq] at hz
            by_cases hjk : j ≤ k
            · exact hhigh k hjk hkr z hz
            · exact not_lt_of_lt (hpassed' k (by omega) (by omega) z hz)
      obtain ⟨el'', i'', hrest, hmoved', hparts⟩ := ih hparted (by omega)
      refine ⟨el'', i'', ?_, hmoved.trans hmoved', hparts⟩
      rw [if_neg hcross, hswap]
      exact hrest

theorem sort2_ordered (hlr : r = l + 1) (hr : r < el.size) :
    ∃ el', sort2 lt el l r = some el' ∧ Rearranged l r el el' ∧ Ordered lt l r el' := by
  obtain ⟨el', hsort, hmoved, x, y, hx, hy, hle⟩ :=
    sort2_spec lt (show l < r by omega) hr (Nat.le_refl l) (Nat.le_refl r)
  refine ⟨el', hsort, hmoved, ?_⟩
  intro p q hp hpq hq a ha b hb
  obtain rfl : p = l := by omega
  obtain rfl : q = r := by omega
  rw [hx, Option.mem_some_iff] at ha
  rw [hy, Option.mem_some_iff] at hb
  exact ha ▸ hb ▸ hle

theorem sort3_ordered (hlr : r = l + 2) (hr : r < el.size) :
    ∃ el', sort3 lt el l (l + 1) r = some el' ∧ Rearranged l r el el' ∧ Ordered lt l r el' := by
  obtain ⟨el', hsort, hmoved, x, y, z, hx, hy, hz, hxy, hyz⟩ :=
    sort3_spec lt (show l < l + 1 by omega) (show l + 1 < r by omega) hr
      (Nat.le_refl l) (Nat.le_refl r)
  refine ⟨el', hsort, hmoved, ?_⟩
  apply Ordered.join (i := l + 1) (v := y) (Ordered.of_le _ (by omega))
  · intro p q hp hpq hq a ha b hb
    obtain rfl : p = l + 1 := by omega
    obtain rfl : q = r := by omega
    rw [hy, Option.mem_some_iff] at ha
    rw [hz, Option.mem_some_iff] at hb
    exact ha ▸ hb ▸ hyz
  · intro k hk hkl a ha
    obtain rfl : k = l := by omega
    rw [hx, Option.mem_some_iff] at ha
    exact ha ▸ hxy
  · intro k hk hkr a ha
    by_cases hkl : k = l + 1
    · rw [hkl, hy, Option.mem_some_iff] at ha
      exact ha ▸ Std.Irrefl.irrefl y
    · obtain rfl : k = r := by omega
      rw [hz, Option.mem_some_iff] at ha
      exact ha ▸ hyz

variable (lt)

/-- The median of three values is a pivot for the range between the least and the greatest. -/
theorem sort3_parted (hlr : l + 2 < r) (hr : r < el.size) :
    ∃ el' v, sort3 lt el l ((r + l) / 2) r = some el' ∧ el'[(r + l) / 2]? = some v ∧
      Rearranged l r el el' ∧ Parted lt v l r l r el' := by
  obtain ⟨el', hsort, hmoved, x, v, z, hx, hv, hz, hxv, hvz⟩ :=
    sort3_spec lt (show l < (r + l) / 2 by omega) (show (r + l) / 2 < r by omega) hr
      (Nat.le_refl l) (Nat.le_refl r)
  refine ⟨el', v, hsort, hv, hmoved, Nat.le_refl l, by omega, Nat.le_refl r,
    by rw [hmoved.size_eq]; exact hr, ?_, ?_⟩
  · intro k hk hkl a ha
    obtain rfl : k = l := by omega
    rw [hx, Option.mem_some_iff] at ha
    exact ha ▸ hxv
  · intro k hk hkr a ha
    obtain rfl : k = r := by omega
    rw [hz, Option.mem_some_iff] at ha
    exact ha ▸ hvz

variable {lt}

omit [DecidableRel lt] in
/-- Two parts that are brought into order one after the other, on either side of the pivot. -/
theorem ordered_of_parts {i : ℕ} {el₂ el₃ el₄ : Array α} (hli : l < i) (hir : i ≤ r)
    (hlow : ∀ k, l ≤ k → k ≤ i - 1 → ∀ x ∈ el₂[k]?, ¬ lt v x)
    (hhigh : ∀ k, i ≤ k → k ≤ r → ∀ x ∈ el₂[k]?, ¬ lt x v)
    (hmoved₃ : Rearranged l (i - 1) el₂ el₃) (hordered₃ : Ordered lt l (i - 1) el₃)
    (hmoved₄ : Rearranged i r el₃ el₄) (hordered₄ : Ordered lt i r el₄) :
    Rearranged l r el₂ el₄ ∧ Ordered lt l r el₄ := by
  have hlow₄ : ∀ k, k ≤ i - 1 → el₄[k]? = el₃[k]? := by
    intro k hk
    apply hmoved₄.outside
    omega
  have hhigh₃ : ∀ k, i ≤ k → el₃[k]? = el₂[k]? := by
    intro k hk
    apply hmoved₃.outside
    omega
  constructor
  · exact (hmoved₃.mono (Nat.le_refl l) (by omega)).trans
      (hmoved₄.mono (by omega) (Nat.le_refl r))
  · apply Ordered.join (i := i) (v := v) _ hordered₄
    · intro k hk hki
      rw [hlow₄ k hki]
      exact hmoved₃.forall_within (Nat.le_refl l) (Nat.le_refl _) hlow k hk hki
    · apply hmoved₄.forall_within (P := fun x => ¬ lt x v) (Nat.le_refl i) (Nat.le_refl r)
      intro k hk hkr
      rw [hhigh₃ k hk]
      exact hhigh k hk hkr
    · exact hordered₃.congr fun k _ hk => hlow₄ k hk

variable (lt)

/-- Both parts of a range are shorter than the range, which bounds the depth of the recursion. -/
theorem rekQsort_spec (fuel : ℕ) (hlr : l ≤ r) (hr : r < el.size) (hfuel : r < l + fuel) :
    ∃ el', rekQsort lt fuel el l r = some el' ∧ Rearranged l r el el' ∧ Ordered lt l r el' := by
  induction fuel generalizing el l r with
  | zero => omega
  | succ fuel ih =>
    unfold rekQsort
    by_cases hlt : l < r
    · rw [if_pos hlt]
      dsimp only
      by_cases hone : r - l = 1
      · rw [if_pos hone]
        exact sort2_ordered (by omega) hr
      · rw [if_neg hone]
        by_cases htwo : r - l = 2
        · rw [if_pos htwo]
          exact sort3_ordered (by omega) hr
        · rw [if_neg htwo]
          obtain ⟨el₁, v, hsort, hv, hmoved₁, hparted⟩ :=
            sort3_parted lt (show l + 2 < r by omega) hr
          obtain ⟨el₂, i, hpartition, hmoved₂, hli, hir, hlow, hhigh⟩ :=
            hparted.partition (fuel + 1) (by omega)
          have hsize₂ : el₂.size = el.size := by rw [hmoved₂.size_eq, hmoved₁.size_eq]
          obtain ⟨el₃, hleft, hmoved₃, hordered₃⟩ :=
            ih (show l ≤ i - 1 by omega) (show i - 1 < el₂.size by omega) (by omega)
          have hsize₃ : el₃.size = el.size := by rw [hmoved₃.size_eq, hsize₂]
          obtain ⟨el₄, hright, hmoved₄, hordered₄⟩ :=
            ih hir (show r < el₃.size by omega) (by omega)
          obtain ⟨hmoved, hordered⟩ :=
            ordered_of_parts hli hir hlow hhigh hmoved₃ hordered₃ hmoved₄ hordered₄
          refine ⟨el₄, ?_, (hmoved₁.trans hmoved₂).trans hmoved, hordered⟩
          rw [hsort]
          simp only [Option.bind_eq_bind, Option.bind_some, hv, hpartition, hleft, hright]
    · rw [if_neg hlt]
      exact ⟨el, rfl, Rearranged.refl l r el, Ordered.of_le el (by omega)⟩

variable {lt}

/-- An array that is not empty is sorted, by accesses to its elements only. -/
theorem qsort_sorts (el : Array α) (hel : el ≠ #[]) {fuel : ℕ} (hfuel : el.size ≤ fuel) :
    ∃ el', qsort lt fuel el = some el' ∧ el'.Perm el ∧
      ∀ k (hk : k + 1 < el'.size), ¬ lt el'[k + 1] el'[k] := by
  have hsize : 0 < el.size := Array.size_pos_iff.mpr hel
  obtain ⟨el', hsort, hmoved, hordered⟩ := rekQsort_spec lt fuel
    (Nat.zero_le (el.size - 1)) (show el.size - 1 < el.size by omega) (by omega)
  refine ⟨el', ?_, hmoved.perm, ?_⟩
  · rw [qsort, if_neg (by simpa using hel), hsort]
  · intro k hk
    have hlast := hmoved.size_eq
    have hk' : k < el'.size := by omega
    exact hordered k (k + 1) (Nat.zero_le k) (Nat.lt_succ_self k) (by omega) _
      (Array.getElem?_eq_getElem hk') _ (Array.getElem?_eq_getElem hk)

/-- Elements that are equal for the order, among them the pivot. -/
theorem qsort_sorts_equal :
    ∃ el', qsort (fun a b : ℕ × ℕ => a.1 < b.1) 6
        #[(2, 0), (1, 0), (2, 1), (1, 1), (2, 2), (2, 3)] = some el' ∧
      el'.Perm #[(2, 0), (1, 0), (2, 1), (1, 1), (2, 2), (2, 3)] ∧
      ∀ k (hk : k + 1 < el'.size), ¬ el'[k + 1].1 < el'[k].1 := by
  have horder : IsStrictWeakOrder (ℕ × ℕ) fun a b => a.1 < b.1 :=
    { irrefl := fun a => Nat.lt_irrefl a.1
      trans := fun a b c => Nat.lt_trans
      incomp_trans := fun a b c hab hbc => by omega }
  exact qsort_sorts _ (by simp) (by decide)

end AcpltKs.PltSort
