import AcpltKs.Plt.PriorityQueue

/-! The operations of the priority queue keep the heap in order, but for one case: an element that is
removed from the middle is replaced by the last one, which then only moves down. -/
namespace AcpltKs
open BinaryHeap Function GuardedRun

namespace PltPriorityQueue

section Equations
variable {α : Type*} [Preorder α] [DecidableLE α] [DecidableLT α] {n : ℕ} {v : α}

theorem parent_eq {i : ℕ} (h : 0 < i) : parent i = BinaryHeap.parent i := by
  rw [parent, if_neg (by omega), BinaryHeap.parent]

/-- The child that `downheap` compares with. -/
def smallerChild (a : ℕ → α) (n k : ℕ) : ℕ :=
  if leftChild k + 1 < n ∧ a (leftChild k + 1) < a (leftChild k) then leftChild k + 1
  else leftChild k

theorem downheapLoop_succ (fuel : ℕ) (a : ℕ → α) (k : ℕ) :
    downheapLoop n v (fuel + 1) a k =
      if k ≤ parent (n - 1) then
        if a (smallerChild a n k) ≥ v then update a k v
        else downheapLoop n v fuel (update a k (a (smallerChild a n k))) (smallerChild a n k)
      else update a k v := rfl

end Equations

section Loops
variable {α : Type*} [Preorder α] [DecidableLE α] [DecidableLT α] [BEq α] [PltComparable α]
  {a : ℕ → α} {n k : ℕ} {v : α}

omit [DecidableLE α] [DecidableLT α] in
theorem le_of_not_lt {x y : α} (h : ¬ x < y) : y ≤ x := by
  rcases PltComparable.total x y with hle | hle
  · exact not_not.mp fun hyx => h (lt_of_le_not_ge hle hyx)
  · exact hle

omit [DecidableLE α] in
/-- It is a child, and no other one is smaller. -/
theorem smallerChild_spec (h : leftChild k < n) :
    smallerChild a n k < n ∧ 0 < smallerChild a n k ∧
      BinaryHeap.parent (smallerChild a n k) = k ∧
      ∀ i, 0 < i → i < n → BinaryHeap.parent i = k → a (smallerChild a n k) ≤ a i := by
  unfold leftChild at h
  by_cases hr : leftChild k + 1 < n ∧ a (leftChild k + 1) < a (leftChild k)
  · rw [smallerChild, if_pos hr]
    simp only [leftChild] at hr ⊢
    refine ⟨hr.1, by omega, parent_right k, fun i h0 hi hp => ?_⟩
    rcases (parent_eq_iff h0).mp hp with rfl | rfl
    · exact hr.2.le
    · exact le_rfl
  · rw [smallerChild, if_neg hr]
    simp only [leftChild] at hr ⊢
    refine ⟨h, by omega, parent_left k, fun i h0 hi hp => ?_⟩
    rcases (parent_eq_iff h0).mp hp with rfl | rfl
    · exact le_rfl
    · exact le_of_not_lt fun hlt => hr ⟨hi, hlt⟩

/-- With more than one element, the positions up to the parent of the last one have children. -/
theorem le_parent_iff (hn : 1 < n) : k ≤ parent (n - 1) ↔ leftChild k < n := by
  rw [parent_eq (by omega), BinaryHeap.parent, leftChild]
  omega

/-- From a hole whose parent is not larger than `v`, the loop completes a heap. With one element
only, it compares with the cell behind it. -/
theorem downheapLoop_isHeap {fuel : ℕ} (h : Holed a n k) (hk : k < n)
    (hup : 0 < k → a (BinaryHeap.parent k) ≤ v) (hfuel : n ≤ k + fuel)
    (hsole : n = 1 → v ≤ a 1) :
    IsHeap (downheapLoop n v fuel a k) n ∧
      BinaryHeap.contents (downheapLoop n v fuel a k) n =
        BinaryHeap.contents (update a k v) n := by
  induction fuel generalizing a k with
  | zero => omega
  | succ fuel ih =>
    rw [downheapLoop_succ]
    by_cases hn : n = 1
    · subst hn
      obtain rfl : k = 0 := by omega
      have hchild : smallerChild a 1 0 = 1 := by simp [smallerChild, leftChild]
      rw [hchild, if_pos (Nat.zero_le _), if_pos (hsole rfl)]
      exact ⟨h.fill hup fun i h0 hi _ => by omega, rfl⟩
    · by_cases hchild : leftChild k < n
      · obtain ⟨hj, hj0, hp, hmin⟩ := smallerChild_spec (a := a) hchild
        rw [if_pos ((le_parent_iff (by omega)).mpr hchild)]
        generalize smallerChild a n k = j at hj hj0 hp hmin
        have hkj : k < j := hp ▸ parent_lt hj0
        by_cases hstop : a j ≥ v
        · rw [if_pos hstop]
          exact ⟨h.fill hup fun i h0 hi hpi => hstop.trans (hmin i h0 hi hpi), rfl⟩
        · rw [if_neg hstop]
          have hle : a j ≤ v := (PltComparable.total v (a j)).resolve_left hstop
          obtain ⟨hheap, hcontents⟩ := ih (h.down hj0 hj hp hmin) hj
            (fun _ => by rw [hp, update_self]; exact hle) (by omega) fun hn1 => absurd hn1 hn
          exact ⟨hheap, hcontents.trans (contents_move hk hj hkj.ne v)⟩
      · rw [if_neg fun hle => hchild ((le_parent_iff (by omega)).mp hle)]
        refine ⟨h.fill hup fun i h0 hi hpi => ?_, rfl⟩
        rw [leftChild] at hchild
        rcases (parent_eq_iff h0).mp hpi with rfl | rfl <;> omega

/-- Where `v` is smaller than the parent of the hole, the loop leaves it there. -/
theorem downheapLoop_of_lt (fuel : ℕ) (h : Holed a n k) (hk0 : 0 < k) (hk : k < n)
    (hlt : v < a (BinaryHeap.parent k)) : downheapLoop n v fuel a k = update a k v := by
  cases fuel with
  | zero => rfl
  | succ fuel =>
    rw [downheapLoop_succ]
    split
    next hle =>
      obtain ⟨hj, hj0, hp, -⟩ := smallerChild_spec (a := a) ((le_parent_iff (by omega)).mp hle)
      exact if_pos (hlt.le.trans (h.across hk0 _ hj0 hj hp))
    next => rfl

/-- From a hole whose children are not smaller than `v`, the loop completes a heap. -/
theorem upheapLoop_isHeap {fuel : ℕ} (h : Holed a n k) (hk : k < n)
    (hdown : ∀ i, 0 < i → i < n → BinaryHeap.parent i = k → v ≤ a i) (hfuel : k ≤ fuel) :
    IsHeap (upheapLoop v fuel a k) n ∧
      BinaryHeap.contents (upheapLoop v fuel a k) n = BinaryHeap.contents (update a k v) n := by
  induction fuel generalizing a k with
  | zero => exact ⟨h.fill (fun h0 => by omega) hdown, rfl⟩
  | succ fuel ih =>
    by_cases hk0 : k > 0
    · have hlt := parent_lt hk0
      simp only [upheapLoop, hk0, ↓reduceIte, parent_eq hk0]
      split
      next hless =>
        have hdown' : ∀ i, 0 < i → i < n → BinaryHeap.parent i = BinaryHeap.parent k →
            v ≤ update a k (a (BinaryHeap.parent k)) i := by
          intro i h0 hi hp
          by_cases hik : i = k
          · rw [hik, update_self]
            exact hless.le
          · rw [update_of_ne hik]
            have happart := h.apart i h0 hi hik (by omega)
            rw [hp] at happart
            exact hless.le.trans happart
        obtain ⟨hheap, hcontents⟩ := ih (h.up hk0 hk) (hlt.trans hk) hdown' (by omega)
        exact ⟨hheap, hcontents.trans (contents_move hk (hlt.trans hk) hlt.ne' v)⟩
      next hstop => exact ⟨h.fill (fun _ => le_of_not_lt hstop) hdown, rfl⟩
    · simp only [upheapLoop, hk0, ↓reduceIte, and_true]
      exact h.fill (fun h0 => absurd h0 hk0) hdown

/-- Either nothing was found, or an element equal to `x` at `node` or behind it. -/
def Found (q : PltPriorityQueue α) (x : α) (node r : ℕ) : Prop :=
  r = q.size ∨ node ≤ r ∧ r < q.size ∧ (x == q.elems r) = true

/-- The search of the left subtree. -/
def leftFound (q : PltPriorityQueue α) (x : α) (fuel node : ℕ) : ℕ :=
  if x ≥ q.elems (leftChild node) then q.locateFrom x fuel (leftChild node) else q.size

/-- The search of the right subtree. -/
def rightFound (q : PltPriorityQueue α) (x : α) (fuel node : ℕ) : ℕ :=
  if rightChild node < q.size ∧ x ≥ q.elems (rightChild node) then
    if q.locateFrom x fuel (rightChild node) ≠ 0 then q.locateFrom x fuel (rightChild node)
    else q.size
  else q.size

omit [DecidableLT α] [PltComparable α] in
theorem locateFrom_succ (q : PltPriorityQueue α) (x : α) (fuel node : ℕ) :
    q.locateFrom x (fuel + 1) node =
      if (x == q.elems node) = true then node
      else if leftChild node < q.size then
        if q.leftFound x fuel node < q.size then q.leftFound x fuel node
        else q.rightFound x fuel node
      else q.size := rfl

omit [DecidableLT α] [PltComparable α] in
theorem locateFrom_found (q : PltPriorityQueue α) (x : α) (fuel : ℕ) {node : ℕ}
    (hnode : node < q.size) : q.Found x node (q.locateFrom x fuel node) := by
  induction fuel generalizing node with
  | zero => exact Or.inl rfl
  | succ fuel ih =>
    have hchild : ∀ {c r}, node < c → q.Found x c r → q.Found x node r := fun hc hr =>
      hr.imp_right fun ⟨hle, hrest⟩ => ⟨by omega, hrest⟩
    rw [locateFrom_succ]
    split_ifs with hx hl hleft
    · exact Or.inr ⟨le_rfl, hnode, hx⟩
    · rw [leftFound]
      split_ifs
      · exact hchild (by unfold leftChild; omega) (ih hl)
      · exact Or.inl rfl
    · rw [rightFound]
      split_ifs with hr
      · exact hchild (by unfold rightChild; omega) (ih hr.1)
      · exact Or.inl rfl
      · exact Or.inl rfl
    · exact Or.inl rfl

omit [DecidableLT α] in
/-- In a heap, `locateFrom` finds whatever there is below its node. -/
theorem locateFrom_complete {q : PltPriorityQueue α} {x : α} {fuel node : ℕ}
    (hheap : IsHeap q.elems q.size) (hfuel : q.size ≤ node + fuel)
    (hnone : q.size ≤ q.locateFrom x fuel node) {i : ℕ} (hi : i < q.size)
    (hd : Descends node i) : (x == q.elems i) = false := by
  induction fuel generalizing node with
  | zero => exact absurd hd.le (by omega)
  | succ fuel ih =>
    rw [locateFrom_succ] at hnone
    have hnode := hd.le
    split_ifs at hnone with hx hl hleft
    · omega
    · omega
    · -- an element below a child that is larger than `x` is not equal to it
      have hpruned : ∀ c, Descends c i → ¬ x ≥ q.elems c → (x == q.elems i) = false := by
        intro c hc hlt
        by_contra heq
        have hle := (PltComparable.le_of_beq x (q.elems i) (by simpa using heq)).2
        exact hlt ((hheap.le_of_descends hc hi).trans hle)
      have hcases : i = node ∨ Descends (leftChild node) i ∨ Descends (rightChild node) i :=
        hd.cases_child
      rcases hcases with rfl | hdl | hdr
      · simpa using hx
      · by_cases hle : x ≥ q.elems (leftChild node)
        · rw [leftFound, if_pos hle] at hleft
          exact ih (by unfold leftChild; omega) (by omega) hdl
        · exact hpruned _ hdl hle
      · by_cases hle : x ≥ q.elems (rightChild node)
        · have hr : rightChild node < q.size := hdr.le.trans_lt hi
          have hpos : 0 < rightChild node := by unfold rightChild; omega
          have hfound := q.locateFrom_found x fuel hr
          rw [rightFound, if_pos ⟨hr, hle⟩] at hnone
          refine ih (by unfold rightChild; omega) ?_ hdr
          split_ifs at hnone with h0
          · exact hnone
          · rcases hfound with hf | ⟨hf, -⟩
            · exact hf.ge
            · omega
        · exact hpruned _ hdr hle
    · rcases hd.cases_child with rfl | hdl | hdr
      · simpa using hx
      · exact absurd (hdl.le.trans_lt hi) hl
      · have := hdr.le
        unfold leftChild at hl
        omega

end Loops

section Operations
variable {α : Type*} [Preorder α] [DecidableLE α] [DecidableLT α] [BEq α] [PltComparable α]
  {q : PltPriorityQueue α}

omit [DecidableLE α] [DecidableLT α] [BEq α] [PltComparable α] in
/-- The root of a heap is a minimum. -/
theorem Ordered.of_isHeap (h : IsHeap q.elems q.size) : q.Ordered := by
  refine ⟨h, fun hne => ⟨BinaryHeap.mem_contents.mpr ⟨0, Nat.pos_of_ne_zero hne, rfl⟩, fun y hy => ?_⟩⟩
  obtain ⟨i, hi, rfl⟩ := BinaryHeap.mem_contents.mp hy
  exact h.root_le hi

omit [DecidableLT α] in
/-- `locate` finds an element equal to `x`, unless there is none. -/
theorem locate_spec (h : IsHeap q.elems q.size) (x : α) :
    q.locate x < q.size ∧ (x == q.elems (q.locate x)) = true ∨
      ¬ q.locate x < q.size ∧ ∀ y ∈ q.contents, (x == y) = false := by
  by_cases hlt : q.locate x < q.size
  · rcases q.locateFrom_found x (q.size + 1) (Nat.zero_lt_of_lt hlt) with hnone | ⟨-, -, hx⟩
    · exact absurd hnone hlt.ne
    · exact Or.inl ⟨hlt, hx⟩
  · refine Or.inr ⟨hlt, fun y hy => ?_⟩
    obtain ⟨i, hi, rfl⟩ := BinaryHeap.mem_contents.mp hy
    exact locateFrom_complete h (by omega) (not_lt.mp hlt) hi (descends_zero i)

omit [DecidableLE α] [DecidableLT α] [BEq α] [PltComparable α] in
/-- Growing changes neither the order nor the elements. -/
theorem grow_ordered (h : IsHeap q.elems q.size) {cap : ℕ} {memory : NewArray α} {ok : Bool}
    {q' : PltPriorityQueue α} (hg : q.grow cap memory = (ok, q')) :
    IsHeap q'.elems q'.size ∧ q'.contents = q.contents ∧ (ok = false → memory = none) := by
  cases memory with
  | none =>
    obtain ⟨rfl, rfl⟩ := Prod.mk.inj hg
    exact ⟨h, rfl, fun _ => rfl⟩
  | some p =>
    obtain ⟨rfl, rfl⟩ := Prod.mk.inj hg
    exact ⟨h.congr fun i hi => if_pos hi, contents_congr fun i hi => if_pos hi, by simp⟩

/-- The hole at the end is filled by the new element. -/
theorem upheap_ordered (h : IsHeap q.elems q.size) (x : α) :
    IsHeap (upheapLoop x q.size q.elems q.size) (q.size + 1) ∧
      BinaryHeap.contents (upheapLoop x q.size q.elems q.size) (q.size + 1) =
        x ::ₘ q.contents := by
  have hholed : Holed q.elems (q.size + 1) q.size :=
    ⟨fun i h0 hi hne _ => h i h0 (by omega), fun _ i h0 hi hp => by
      have := parent_lt h0
      omega⟩
  obtain ⟨hheap, hcontents⟩ := upheapLoop_isHeap (v := x) hholed (Nat.lt_succ_self _)
    (fun i h0 hi hp => by
      have := parent_lt h0
      omega) le_rfl
  refine ⟨hheap, hcontents.trans ?_⟩
  rw [contents_succ, update_self]
  exact congrArg _ (contents_congr fun i hi => update_of_ne hi.ne _ _)

theorem add_ordered (h : IsHeap q.elems q.size) {x : α} {memory : NewArray α} {ok : Bool}
    {q' : PltPriorityQueue α} (ha : q.add x memory = (ok, q')) :
    IsHeap q'.elems q'.size ∧ Meets q.contents q'.contents (.add x memory) (.done ok) := by
  rcases hg : (if q.size = q.capacity then q.grow (q.capacity + q.growsize) memory
    else (true, q)) with ⟨ok₁, q₁⟩
  have hgrown : IsHeap q₁.elems q₁.size ∧ q₁.contents = q.contents ∧
      (ok₁ = false → memory = none) := by
    split_ifs at hg
    · exact grow_ordered h hg
    · obtain ⟨rfl, rfl⟩ := Prod.mk.inj hg
      exact ⟨h, rfl, by simp⟩
  obtain ⟨hheap, hcontents, hmemory⟩ := hgrown
  simp only [add, hg] at ha
  cases ok₁ with
  | false =>
    obtain ⟨rfl, rfl⟩ := Prod.mk.inj ha
    exact ⟨hheap, Or.inr ⟨rfl, hmemory rfl, hcontents⟩⟩
  | true =>
    obtain ⟨rfl, rfl⟩ := Prod.mk.inj ha
    obtain ⟨hheap', hcontents'⟩ := upheap_ordered hheap x
    exact ⟨hheap', Or.inl ⟨rfl, hcontents'.trans (by rw [hcontents])⟩⟩

/-- The last element moves down from a hole in the rest of the heap. -/
theorem downheap_ordered {n : ℕ} {a : ℕ → α} {k : ℕ} (h : IsHeap a (n + 1)) (hk : k < n)
    (hup : 0 < k → a (BinaryHeap.parent k) ≤ a n) :
    IsHeap (downheapLoop n (a n) n a k) n ∧
      a k ::ₘ BinaryHeap.contents (downheapLoop n (a n) n a k) n =
        BinaryHeap.contents a (n + 1) := by
  obtain ⟨hheap, hcontents⟩ := downheapLoop_isHeap ((h.mono n.le_succ).holed hk) hk hup
    (Nat.le_add_left _ _) (fun hn => by rw [hn])
  exact ⟨hheap, by rw [hcontents, contents_replace hk]⟩

theorem removeFirst_ordered (h : IsHeap q.elems q.size) (hne : q.size ≠ 0) :
    IsHeap q.removeFirst.2.elems q.removeFirst.2.size ∧
      Meets q.contents q.removeFirst.2.contents .removeFirst (.first (some q.removeFirst.1)) := by
  obtain ⟨n, hn⟩ := Nat.exists_eq_succ_of_ne_zero hne
  have hmin : ∀ y ∈ q.contents, q.elems 0 ≤ y := ((Ordered.of_isHeap h).2 hne).2
  rw [hn] at h
  by_cases h0 : n = 0
  · subst h0
    refine ⟨fun i hi0 hi => ?_, ?_, hmin⟩
    · simp [removeFirst, hn] at hi
    · simp [removeFirst, contents, hn, contents_succ]
  · obtain ⟨hheap, hcontents⟩ := downheap_ordered h (Nat.pos_of_ne_zero h0) fun hk => by omega
    have hresult : q.removeFirst = (q.elems 0, { q with
        size := n, elems := downheapLoop n (q.elems n) n q.elems 0 }) := by
      simp [removeFirst, downheap, hn, Nat.pos_of_ne_zero h0]
    rw [hresult]
    exact ⟨hheap, by rw [contents, hn]; exact hcontents.symm, hmin⟩

/-- There is nothing to remove, or the last element is removed, or it replaces another one. -/
theorem remove_cases (h : IsHeap q.elems q.size) (x : α) :
    (¬ q.locate x < q.size ∧ (∀ y ∈ q.contents, (x == y) = false) ∧ q.remove x = (false, q)) ∨
      ∃ n, q.size = n + 1 ∧ (x == q.elems (q.locate x)) = true ∧
        (q.locate x = n ∧ q.remove x = (true, { q with size := n }) ∨
          q.locate x < n ∧ q.remove x = (true, { q with
            size := n, elems := downheapLoop n (q.elems n) n q.elems (q.locate x) })) := by
  rcases locate_spec h x with ⟨hlt, hx⟩ | ⟨hlt, hnone⟩
  · obtain ⟨n, hn⟩ := Nat.exists_eq_succ_of_ne_zero (Nat.ne_zero_of_lt hlt)
    refine Or.inr ⟨n, hn, hx, ?_⟩
    by_cases hlast : q.locate x = n
    · exact Or.inl ⟨hlast, by simp [remove, hlast, hn]⟩
    · have hinner : q.locate x < n := by omega
      exact Or.inr ⟨hinner, by
        simp [remove, hn, hinner, hinner.le, downheap, Nat.zero_lt_of_lt hinner]⟩
  · exact Or.inl ⟨hlt, hnone, by simp [remove, hlt]⟩

/-- Removing an element of a heap leaves a heap exactly if the last one is not smaller than the
parent of the place it goes to. -/
theorem remove_isHeap_iff (h : IsHeap q.elems q.size) (x : α) :
    IsHeap (q.remove x).2.elems (q.remove x).2.size ↔ q.KeepsOrder (.remove x) := by
  rcases remove_cases h x with ⟨hlt, -, hr⟩ | ⟨n, hn, -, ⟨hlast, hr⟩ | ⟨hinner, hr⟩⟩ <;> rw [hr]
  · exact iff_of_true h fun _ hl => absurd hl (by omega)
  · rw [hn] at h
    exact iff_of_true (h.mono n.le_succ) fun _ hl => absurd hl (by omega)
  · rw [KeepsOrder, hn, Nat.add_sub_cancel]
    rw [hn] at h
    constructor
    · intro hheap h0 _ hless
      rw [parent_eq h0] at hless
      have hstays := downheapLoop_of_lt n ((h.mono n.le_succ).holed hinner) h0 hinner
        hless
      have hle := hheap _ h0 hinner
      simp only [hstays] at hle
      rw [update_self, update_of_ne (parent_lt h0).ne] at hle
      exact not_lt_of_ge hle hless
    · intro hkeeps
      refine (downheap_ordered h hinner fun h0 => ?_).1
      have hnot := hkeeps h0 hinner
      rw [parent_eq h0] at hnot
      exact le_of_not_lt hnot

theorem remove_meets (h : IsHeap q.elems q.size) {x : α} (hk : q.KeepsOrder (.remove x)) :
    Meets q.contents (q.remove x).2.contents (.remove x) (.done (q.remove x).1) := by
  rcases remove_cases h x with ⟨-, hnone, hr⟩ | ⟨n, hn, hx, ⟨hlast, hr⟩ | ⟨hinner, hr⟩⟩ <;> rw [hr]
  · exact Or.inr ⟨rfl, hnone, rfl⟩
  · refine Or.inl ⟨rfl, _, hx, ?_⟩
    rw [contents, hn, hlast]
    exact contents_succ q.elems n
  · refine Or.inl ⟨rfl, _, hx, ?_⟩
    rw [hn] at h
    rw [KeepsOrder, hn, Nat.add_sub_cancel] at hk
    rw [contents, hn]
    refine (downheap_ordered h hinner fun h0 => ?_).2.symm
    have hnot := hk h0 hinner
    rw [parent_eq h0] at hnot
    exact le_of_not_lt hnot

/-- One operation on a heap. -/
theorem step_ordered (h : IsHeap q.elems q.size) (op : Op α) :
    (IsHeap (q.step op).elems (q.step op).size ↔ q.KeepsOrder op) ∧
      (q.KeepsOrder op → Meets q.contents (q.step op).contents op (q.perform op).1) := by
  cases op with
  | add x memory =>
    obtain ⟨hheap, hmeets⟩ := add_ordered h (rfl : q.add x memory = _)
    exact ⟨iff_of_true hheap trivial, fun _ => hmeets⟩
  | removeFirst =>
    by_cases h0 : q.size = 0
    · simp only [step, perform, isEmpty, h0, decide_true, ↓reduceIte]
      exact ⟨iff_of_true (h0 ▸ h) trivial, fun _ => ⟨by rw [contents, h0, contents_zero], rfl⟩⟩
    · obtain ⟨hheap, hmeets⟩ := removeFirst_ordered h h0
      simp only [step, perform, isEmpty, h0, decide_false, Bool.false_eq_true, ↓reduceIte]
      exact ⟨iff_of_true hheap trivial, fun _ => hmeets⟩
  | remove x => exact ⟨remove_isHeap_iff h x, remove_meets h⟩

/-- A run from a heap behaves exactly if all its steps keep the order. -/
theorem behaves_iff (h : IsHeap q.elems q.size) (ops : List (Op α)) :
    q.Behaves ops ↔ Along step KeepsOrder q ops := by
  induction ops generalizing q with
  | nil => exact iff_of_true (Ordered.of_isHeap h) trivial
  | cons op ops ih =>
    obtain ⟨hheap, hmeets⟩ := step_ordered h op
    constructor
    · rintro ⟨-, -, hrest⟩
      have hnext : IsHeap (q.step op).elems (q.step op).size := by
        cases ops with
        | nil => exact hrest.1
        | cons => exact hrest.1.1
      exact ⟨hheap.mp hnext, (ih hnext).mp hrest⟩
    · rintro ⟨hkeeps, hrest⟩
      exact ⟨Ordered.of_isHeap h, hmeets hkeeps, (ih (hheap.mpr hkeeps)).mpr hrest⟩

end Operations
end PltPriorityQueue

/-- From an empty queue on, the array is a heap all the time, with the elements added and not yet
removed, and all operations come to what they should, exactly if no element that is removed from the
middle is replaced by one that is smaller than the parent there. -/
theorem priorityQueue_behaves_iff {α : Type*} [Preorder α] [DecidableLE α] [DecidableLT α] [BEq α]
    [PltComparable α] (undefined : ℕ → α) (growsize : ℕ) (memory : NewArray α)
    (ops : List (PltPriorityQueue.Op α)) :
    (PltPriorityQueue.create undefined growsize memory).Behaves ops ↔
      Along PltPriorityQueue.step PltPriorityQueue.KeepsOrder
        (PltPriorityQueue.create undefined growsize memory) ops := by
  refine PltPriorityQueue.behaves_iff (fun i _ hi => ?_) ops
  cases memory <;> simp [PltPriorityQueue.create, PltPriorityQueue.grow] at hi

instance : PltComparable ℕ := ⟨le_total, fun _ _ h => (beq_iff_eq.mp h).symm ▸ ⟨le_rfl, le_rfl⟩⟩

/-- An empty queue of numbers. -/
def emptyQueue : PltPriorityQueue ℕ := .create (fun _ => 0) 16 (some fun _ => 7)

/-- The last element, 3, goes where 11 was, below 10. -/
def removeEleven : List (PltPriorityQueue.Op ℕ) :=
  [0, 10, 1, 11, 12, 2, 3].map (.add · none) ++ [.remove 11]

theorem not_behaves_removeEleven : ¬ emptyQueue.Behaves removeEleven := by
  intro h
  have hempty : IsHeap emptyQueue.elems emptyQueue.size := fun i _ hi => absurd hi i.not_lt_zero
  obtain ⟨-, -, -, -, -, -, -, hkeeps, -⟩ := (PltPriorityQueue.behaves_iff hempty _).mp h
  exact hkeeps (by decide) (by decide) (by decide)

/-- Two elements from the middle, and the first one. -/
theorem behaves_removeTwo :
    emptyQueue.Behaves [.add 3 none, .add 5 none, .add 4 none, .add 6 none, .remove 5, .remove 9,
      .removeFirst, .remove 4] := by
  refine (priorityQueue_behaves_iff (fun _ => 0) 16 (some fun _ => 7) _).mpr
    ⟨trivial, trivial, trivial, trivial, ?_, ?_, trivial, ?_, trivial⟩
  · exact fun _ _ => by decide
  · exact fun _ hlt => absurd hlt (by decide)
  · exact fun h0 => absurd h0 (by decide)

end AcpltKs
