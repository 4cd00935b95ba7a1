import AcpltKs.Plt.PriorityQueueOrder

/-! What the search for an element comes across in a priority queue, whether or not the queue is
ordered. -/
namespace AcpltKs
open BinaryHeap Function

namespace PltPriorityQueue

section Code
variable {α : Type*} [Preorder α] [DecidableLE α] [DecidableLT α] [BEq α]

/-- The positions below `node` in the order of the search: only where it is not larger than `elem`
is a child entered. -/
def searchOrder (q : PltPriorityQueue α) (elem : α) : ℕ → ℕ → List ℕ
  | 0, _ => []
  | fuel + 1, node =>
      node ::
        ((if leftChild node < q.size ∧ elem ≥ q.elems (leftChild node) then
            q.searchOrder elem fuel (leftChild node) else []) ++
          if rightChild node < q.size ∧ elem ≥ q.elems (rightChild node) then
            q.searchOrder elem fuel (rightChild node) else [])

/-- The elements in the order of the search. -/
def onTheWay (q : PltPriorityQueue α) (elem : α) : List α :=
  (q.searchOrder elem (q.size + 1) 0).map q.elems

/-- The cells that `locateFrom` looks at. -/
def locateInspects (q : PltPriorityQueue α) (elem : α) : ℕ → ℕ → List ℕ
  | 0, _ => []
  | fuel + 1, node =>
      node ::
        if elem == q.elems node then []
        else if leftChild node < q.size then
          (leftChild node :: if elem ≥ q.elems (leftChild node) then
              q.locateInspects elem fuel (leftChild node) else []) ++
            if q.leftFound elem fuel node < q.size then []
            else if rightChild node < q.size then
              rightChild node :: if elem ≥ q.elems (rightChild node) then
                q.locateInspects elem fuel (rightChild node) else []
            else []
        else []

/-- The cells that `downheapLoop` looks at. -/
def downheapInspects (size : ℕ) (v : α) : ℕ → (ℕ → α) → ℕ → List ℕ
  | 0, _, _ => []
  | fuel + 1, elems, k =>
      if k ≤ parent (size - 1) then
        let lc := leftChild k
        let rc := lc + 1
        let j := if rc < size ∧ elems rc < elems lc then rc else lc
        (if rc < size then [rc, lc] else []) ++
          j :: if elems j ≥ v then [] else
            downheapInspects size v fuel (update elems k (elems j)) j
      else []

/-- The cells that `remove` looks at. -/
def removeInspects (q : PltPriorityQueue α) (elem : α) : List ℕ :=
  let loc := q.locate elem
  let last := q.size - 1
  q.locateInspects elem (q.size + 1) 0 ++
    if loc < q.size ∧ last > 0 ∧ loc < last then
      last :: downheapInspects last (q.elems last) last q.elems loc
    else []

end Code

section Search
variable {α : Type*} [Preorder α] [DecidableLE α] [BEq α] {q : PltPriorityQueue α} {x : α}

omit [BEq α] in
theorem mem_searchOrder {fuel node i : ℕ} (h : i ∈ q.searchOrder x fuel node) :
    i = node ∨ node < i ∧ i < q.size := by
  induction fuel generalizing node with
  | zero => exact absurd h List.not_mem_nil
  | succ fuel ih =>
    rw [searchOrder, List.mem_cons, List.mem_append] at h
    obtain rfl | h | h := h
    · exact Or.inl rfl
    · split_ifs at h with hc
      · have hi := ih h
        unfold leftChild at hc hi
        omega
      · exact absurd h List.not_mem_nil
    · split_ifs at h with hc
      · have hi := ih h
        unfold rightChild at hc hi
        omega
      · exact absurd h List.not_mem_nil

/-- The search returns the first position that holds an element equal to `x`. -/
theorem locateFrom_eq_find (q : PltPriorityQueue α) (x : α) (fuel node : ℕ) :
    q.locateFrom x fuel node =
      ((q.searchOrder x fuel node).find? fun i => x == q.elems i).getD q.size := by
  induction fuel generalizing node with
  | zero => rfl
  | succ fuel ih =>
    rw [locateFrom_succ, searchOrder, List.find?_cons]
    by_cases hx : (x == q.elems node) = true
    · rw [if_pos hx, hx]
      rfl
    rw [if_neg hx, Bool.eq_false_of_not_eq_true hx, List.find?_append]
    by_cases hl : leftChild node < q.size
    swap
    · have hr : ¬ rightChild node < q.size := by
        unfold leftChild at hl
        unfold rightChild
        omega
      simp [hl, hr]
    have hright : q.rightFound x fuel node =
        ((if rightChild node < q.size ∧ x ≥ q.elems (rightChild node) then
          q.searchOrder x fuel (rightChild node) else []).find? fun i => x == q.elems i).getD
            q.size := by
      unfold rightFound
      split_ifs with hr hzero
      · exact ih _
      · have hfound := q.locateFrom_found x fuel hr.1
        have hpos : 0 < rightChild node := by
          unfold rightChild
          omega
        unfold Found at hfound
        omega
      · rfl
    have hleft : q.leftFound x fuel node =
        ((if leftChild node < q.size ∧ x ≥ q.elems (leftChild node) then
          q.searchOrder x fuel (leftChild node) else []).find? fun i => x == q.elems i).getD
            q.size := by
      unfold leftFound
      by_cases hx : x ≥ q.elems (leftChild node)
      · rw [if_pos hx, if_pos ⟨hl, hx⟩, ih]
      · rw [if_neg hx, if_neg fun h => hx h.2]
        rfl
    rw [if_pos hl, hright, hleft]
    cases hfind : (if leftChild node < q.size ∧ x ≥ q.elems (leftChild node) then
        q.searchOrder x fuel (leftChild node) else []).find? fun i => x == q.elems i with
    | none => simp
    | some i =>
      have hi : i < q.size := by
        have hmem := List.mem_of_find?_eq_some hfind
        split_ifs at hmem with hc
        · have hcases := mem_searchOrder hmem
          omega
        · exact absurd hmem List.not_mem_nil
      simp [hi]

theorem locate_eq_find (q : PltPriorityQueue α) (x : α) :
    q.locate x = ((q.searchOrder x (q.size + 1) 0).find? fun i => x == q.elems i).getD q.size :=
  locateFrom_eq_find q x (q.size + 1) 0

/-- What the search comes to, in terms of the elements on its way. -/
theorem locate_cases (hne : q.size ≠ 0) (x : α) :
    (∃ before after, q.onTheWay x = before ++ q.elems (q.locate x) :: after ∧
        q.locate x < q.size ∧ (x == q.elems (q.locate x)) = true ∧
        ∀ y ∈ before, (x == y) = false) ∨
      q.locate x = q.size ∧ ∀ y ∈ q.onTheWay x, (x == y) = false := by
  cases hfind : (q.searchOrder x (q.size + 1) 0).find? fun i => x == q.elems i with
  | none =>
    refine Or.inr ⟨by rw [locate_eq_find, hfind]; rfl, fun y hy => ?_⟩
    obtain ⟨i, hi, rfl⟩ := List.mem_map.mp hy
    simpa using List.find?_eq_none.mp hfind i hi
  | some i =>
    have hloc : q.locate x = i := by
      rw [locate_eq_find, hfind]
      rfl
    obtain ⟨hx, before, after, happend, hbefore⟩ := List.find?_eq_some_iff_append.mp hfind
    have hcases := mem_searchOrder (List.mem_of_find?_eq_some hfind)
    refine Or.inl ⟨before.map q.elems, after.map q.elems, ?_, by omega, by rwa [hloc], ?_⟩
    · rw [onTheWay, happend, hloc, List.map_append, List.map_cons]
    · intro y hy
      obtain ⟨j, hj, rfl⟩ := List.mem_map.mp hy
      simpa using hbefore j hj

/-- The search looks at the root even of an empty queue. -/
theorem mem_locateInspects {fuel node i : ℕ} (h : i ∈ q.locateInspects x fuel node) :
    i = node ∨ i < q.size := by
  induction fuel generalizing node with
  | zero => exact absurd h List.not_mem_nil
  | succ fuel ih =>
    have hbelow : ∀ {c : ℕ} (enters : Prop) [Decidable enters], c < q.size →
        i ∈ (c :: if enters then q.locateInspects x fuel c else []) → i < q.size := by
      intro c enters _ hc hi
      split_ifs at hi
      · obtain rfl | hi := List.mem_cons.mp hi
        · exact hc
        · obtain rfl | hi := ih hi
          · exact hc
          · exact hi
      · rwa [List.mem_singleton.mp hi]
    rw [locateInspects, List.mem_cons] at h
    refine h.imp_right fun h => ?_
    by_cases hx : (x == q.elems node) = true
    · rw [if_pos hx] at h
      exact absurd h List.not_mem_nil
    by_cases hl : leftChild node < q.size
    · rw [if_neg hx, if_pos hl] at h
      obtain h | h := List.mem_append.mp h
      · exact hbelow _ hl h
      · by_cases hfound : q.leftFound x fuel node < q.size
        · rw [if_pos hfound] at h
          exact absurd h List.not_mem_nil
        · by_cases hr : rightChild node < q.size
          · rw [if_neg hfound, if_pos hr] at h
            exact hbelow _ hr h
          · rw [if_neg hfound, if_neg hr] at h
            exact absurd h List.not_mem_nil
    · rw [if_neg hx, if_neg hl] at h
      exact absurd h List.not_mem_nil

end Search

section Removal
variable {α : Type*} [Preorder α] [DecidableLE α] [DecidableLT α] {n k : ℕ} {v : α} {a : ℕ → α}

omit [DecidableLE α] in
/-- On its way down the hole stays inside of the array. -/
theorem smallerChild_bounds (hn : n ≠ 1) (hk : k ≤ parent (n - 1)) (h0 : k < n) :
    k < smallerChild a n k ∧ smallerChild a n k < n := by
  have hchild := (le_parent_iff (by omega)).mp hk
  unfold smallerChild leftChild at *
  split_ifs <;> omega

/-- Whether or not the array is a heap, the value gets into it and nothing else gets lost. -/
theorem downheapLoop_contents {fuel : ℕ} (hk : k < n) (hfuel : n ≤ k + fuel)
    (hsole : n = 1 → v ≤ a 1) :
    BinaryHeap.contents (downheapLoop n v fuel a k) n = BinaryHeap.contents (update a k v) n := by
  induction fuel generalizing a k with
  | zero => rfl
  | succ fuel ih =>
    rw [downheapLoop_succ]
    split_ifs with hle hstop
    · rfl
    · have hn : n ≠ 1 := by
        rintro rfl
        obtain rfl : k = 0 := by omega
        exact hstop (by simpa [smallerChild, leftChild] using hsole rfl)
      obtain ⟨hkj, hj⟩ := smallerChild_bounds (a := a) hn hle hk
      rw [ih hj (by omega) fun h => absurd h hn, contents_move hk hj hkj.ne]
    · rfl

theorem downheapInspects_succ (fuel : ℕ) (a : ℕ → α) (k : ℕ) :
    downheapInspects n v (fuel + 1) a k =
      if k ≤ parent (n - 1) then
        (if leftChild k + 1 < n then [leftChild k + 1, leftChild k] else []) ++
          smallerChild a n k :: if a (smallerChild a n k) ≥ v then [] else
            downheapInspects n v fuel (update a k (a (smallerChild a n k))) (smallerChild a n k)
      else [] := rfl

/-- With one element only, the loop looks at the cell behind it, which has held the value. -/
theorem mem_downheapInspects {fuel i : ℕ} (hk : k < n) (hsole : n = 1 → v ≤ a 1)
    (h : i ∈ downheapInspects n v fuel a k) : i < n + 1 := by
  induction fuel generalizing a k with
  | zero => exact absurd h List.not_mem_nil
  | succ fuel ih =>
    rw [downheapInspects_succ] at h
    by_cases hle : k ≤ parent (n - 1)
    swap
    · rw [if_neg hle] at h
      exact absurd h List.not_mem_nil
    rw [if_pos hle] at h
    by_cases hn : n = 1
    · subst hn
      obtain rfl : k = 0 := by omega
      have hchild : smallerChild a 1 0 = 1 := by simp [smallerChild, leftChild]
      rw [hchild, if_pos (hsole rfl), if_neg (by unfold leftChild; omega)] at h
      obtain rfl : i = 1 := by simpa using h
      exact Nat.lt_succ_self 1
    · obtain ⟨hkj, hj⟩ := smallerChild_bounds (a := a) hn hle hk
      obtain h | h := List.mem_append.mp h
      · split_ifs at h with hrc
        · have hcases : i = leftChild k + 1 ∨ i = leftChild k := by simpa using h
          omega
        · exact absurd h List.not_mem_nil
      · obtain rfl | h := List.mem_cons.mp h
        · omega
        · split_ifs at h
          · exact absurd h List.not_mem_nil
          · exact ih hj (fun h1 => absurd h1 hn) h

variable [BEq α] {q : PltPriorityQueue α} {x : α}

theorem remove_of_not_found (h : ¬ q.locate x < q.size) : q.remove x = (false, q) := by
  simp only [remove, if_neg h]

/-- The element that is found is removed, whether or not the queue is ordered. -/
theorem remove_of_found (h : q.locate x < q.size) :
    (q.remove x).1 = true ∧ q.contents = q.elems (q.locate x) ::ₘ (q.remove x).2.contents := by
  obtain ⟨n, hn⟩ := Nat.exists_eq_succ_of_ne_zero (Nat.ne_zero_of_lt h)
  by_cases hlast : q.locate x = n
  · have hr : q.remove x = (true, { q with size := n }) := by simp [remove, hlast, hn]
    rw [hr, hlast, contents, contents, hn, contents_succ]
    exact ⟨rfl, rfl⟩
  · have hinner : q.locate x < n := by omega
    have hr : q.remove x = (true, { q with
        size := n, elems := downheapLoop n (q.elems n) n q.elems (q.locate x) }) := by
      simp [remove, hn, hinner, hinner.le, downheap, Nat.zero_lt_of_lt hinner]
    rw [hr, contents, contents, hn]
    refine ⟨rfl, ?_⟩
    rw [downheapLoop_contents hinner (by omega) (fun h1 => by rw [h1]), contents_replace hinner]

theorem mem_removeInspects (hne : q.size ≠ 0) {i : ℕ} (h : i ∈ q.removeInspects x) :
    i < q.size := by
  obtain ⟨n, hn⟩ := Nat.exists_eq_succ_of_ne_zero hne
  obtain h | h := List.mem_append.mp h
  · have hcases := mem_locateInspects h
    omega
  · split_ifs at h with hloc
    · obtain rfl | h := List.mem_cons.mp h
      · omega
      · have hlt := mem_downheapInspects hloc.2.2 (fun h1 => by rw [h1]) h
        omega
    · exact absurd h List.not_mem_nil

end Removal

end PltPriorityQueue
end AcpltKs
