import Mathlib.Data.List.Chain
import Mathlib.Data.List.Nodup
import Mathlib.Data.Sum.Basic
import Mathlib.Logic.Function.Basic

/-! Doubly linked lists whose links are in the items themselves. Each list is a ring through a head,
and an item outside all lists is linked with itself. -/
namespace LinkedRings
open Function

/-- The links of the nodes: heads of lists on the left, items on the right. -/
structure Links (ι κ : Type*) where
  next : ι ⊕ κ → ι ⊕ κ
  prev : ι ⊕ κ → ι ⊕ κ

variable {ι κ : Type*}

/-- All lists are empty. -/
def Links.empty : Links ι κ := ⟨id, id⟩

namespace Links

/-- One node stands behind the other. -/
structure Follows (L : Links ι κ) (a b : ι ⊕ κ) : Prop where
  next : L.next a = b
  prev : L.prev b = a

section Operations
variable [DecidableEq ι] [DecidableEq κ]

/-- Insert `x` behind `n`, link by link. -/
def addAfter (L : Links ι κ) (x n : ι ⊕ κ) : Links ι κ :=
  let next := update (update L.next x (L.next n)) n x
  let y := next x
  ⟨next, update (update L.prev x (L.prev y)) y x⟩

/-- Take `x` out of its list, link by link. -/
def remove (L : Links ι κ) (x : ι ⊕ κ) : Links ι κ :=
  let prev := update L.prev (L.next x) (L.prev x)
  let next := update L.next (prev x) (L.next x)
  ⟨update next x x, update prev x x⟩

variable {L : Links ι κ} {a b x n : ι ⊕ κ}

theorem remove_prev_self (L : Links ι κ) (x : ι ⊕ κ) :
    update L.prev (L.next x) (L.prev x) x = L.prev x := by
  by_cases h : x = L.next x
  · rw [← h, update_self]
  · exact update_of_ne h ..

theorem Follows.remove (h : L.Follows a b) (hp : a ≠ L.prev x) (hn : b ≠ L.next x) (ha : a ≠ x)
    (hb : b ≠ x) : (L.remove x).Follows a b := by
  constructor
  · rw [Links.remove, remove_prev_self]
    exact (update_of_ne ha ..).trans ((update_of_ne hp ..).trans h.next)
  · exact (update_of_ne hb ..).trans ((update_of_ne hn ..).trans h.prev)

/-- The neighbours of a node that is taken out become neighbours. -/
theorem remove_joins (hp : L.prev x ≠ x) (hn : L.next x ≠ x) :
    (L.remove x).Follows (L.prev x) (L.next x) := by
  constructor
  · rw [Links.remove, remove_prev_self]
    exact (update_of_ne hp ..).trans (update_self ..)
  · exact (update_of_ne hn ..).trans (update_self ..)

theorem remove_self (L : Links ι κ) (x : ι ⊕ κ) : (L.remove x).Follows x x :=
  ⟨update_self .., update_self ..⟩

/-- A node that is linked with itself stays so. -/
theorem remove_of_self (h : L.Follows x x) : L.remove x = L := by
  have hprev : update L.prev x x = L.prev := update_eq_iff.mpr ⟨h.prev.symm, fun _ _ => rfl⟩
  have hnext : update L.next x x = L.next := update_eq_iff.mpr ⟨h.next.symm, fun _ _ => rfl⟩
  simp only [remove, h.next, h.prev, hprev, hnext]

theorem Follows.addAfter (h : L.Follows a b) (hn : a ≠ n) (hb' : b ≠ L.next n) (ha : a ≠ x)
    (hb : b ≠ x) (hx : x ≠ n) : (L.addAfter x n).Follows a b := by
  have hy : update (update L.next x (L.next n)) n x x = L.next n :=
    (update_of_ne hx ..).trans (update_self ..)
  constructor
  · exact (update_of_ne hn ..).trans ((update_of_ne ha ..).trans h.next)
  · rw [Links.addAfter, hy]
    exact (update_of_ne hb' ..).trans ((update_of_ne hb ..).trans h.prev)

/-- A new node stands between `n` and what was behind it. -/
theorem addAfter_between (hx : x ≠ n) (hy : L.next n ≠ x) (hprev : L.prev (L.next n) = n) :
    (L.addAfter x n).Follows n x ∧ (L.addAfter x n).Follows x (L.next n) := by
  have hnext : update (update L.next x (L.next n)) n x x = L.next n :=
    (update_of_ne hx ..).trans (update_self ..)
  refine ⟨⟨update_self .., ?_⟩, ⟨hnext, ?_⟩⟩
  · rw [Links.addAfter, hnext]
    exact (update_of_ne hy.symm ..).trans ((update_self ..).trans hprev)
  · rw [Links.addAfter, hnext]
    exact update_self ..

end Operations
end Links

section Chains
variable {α : Type*} {R S : α → α → Prop}

/-- Only the first node of a chain is never behind another, and only the last never before. -/
theorem isChain_imp {l : List α} (h : l.IsChain R)
    (himp : ∀ a ∈ l.dropLast, ∀ b ∈ l.tail, R a b → S a b) : l.IsChain S := by
  induction l with
  | nil => exact List.isChain_nil
  | cons a l ih =>
    cases l with
    | nil => exact List.isChain_singleton a
    | cons b l =>
      rw [List.isChain_cons_cons] at h ⊢
      refine ⟨himp a (by simp) b (by simp) h.1, ih h.2 fun c hc d hd => himp c ?_ d ?_⟩
      · exact List.mem_cons_of_mem a hc
      · exact List.mem_of_mem_tail hd

theorem notMem_dropLast {l : List α} (h : l.Nodup) {p : α} (hp : p ∈ l.getLast?) :
    p ∉ l.dropLast := by
  obtain ⟨hne, rfl⟩ := List.mem_getLast?_eq_getLast hp
  rw [← List.dropLast_append_getLast hne, List.nodup_append] at h
  exact fun hmem => h.2.2 _ hmem _ (List.mem_singleton_self _) rfl

theorem notMem_tail {l : List α} (h : l.Nodup) {q : α} (hq : q ∈ l.head?) : q ∉ l.tail := by
  cases l with
  | nil => exact absurd hq (by simp)
  | cons a l =>
    obtain rfl : a = q := by simpa using hq
    exact (List.nodup_cons.mp h).1

/-- Two chains survive a change of the links between them. -/
theorem isChain_of_agree {A B : List α} {p q x : α} (hA : A.IsChain R) (hB : B.IsChain R)
    (hnA : A.Nodup) (hnB : B.Nodup) (hp : p ∈ A.getLast?) (hq : q ∈ B.head?)
    (hpB : p ∉ B.dropLast) (hqA : q ∉ A.tail) (hxA : x ∉ A) (hxB : x ∉ B)
    (hagree : ∀ a b, R a b → a ≠ p → b ≠ q → a ≠ x → b ≠ x → S a b) :
    A.IsChain S ∧ B.IsChain S := by
  constructor
  · refine isChain_imp hA fun a ha b hb hab => hagree a b hab ?_ ?_ ?_ ?_
    · rintro rfl
      exact notMem_dropLast hnA hp ha
    · rintro rfl
      exact hqA hb
    · rintro rfl
      exact hxA (List.dropLast_subset _ ha)
    · rintro rfl
      exact hxA (List.mem_of_mem_tail hb)
  · refine isChain_imp hB fun a ha b hb hab => hagree a b hab ?_ ?_ ?_ ?_
    · rintro rfl
      exact hpB ha
    · rintro rfl
      exact notMem_tail hnB hq hb
    · rintro rfl
      exact hxB (List.dropLast_subset _ ha)
    · rintro rfl
      exact hxB (List.mem_of_mem_tail hb)

end Chains

/-- Each list is the ring behind its head, and an item is in one list at most. -/
structure Rings (L : Links ι κ) (lists : ι → List κ) : Prop where
  chain : ∀ i, (Sum.inl i :: ((lists i).map Sum.inr ++ [Sum.inl i])).IsChain L.Follows
  nodup : ∀ i, (lists i).Nodup
  eq_of_mem : ∀ i j x, x ∈ lists i → x ∈ lists j → i = j
  loose : ∀ x, (∀ i, x ∉ lists i) → L.Follows (.inr x) (.inr x)

theorem Rings.empty : Rings (Links.empty : Links ι κ) fun _ => [] := by
  refine ⟨fun i => ?_, fun _ => List.nodup_nil, fun i j x h => absurd h List.not_mem_nil,
    fun x _ => ⟨rfl, rfl⟩⟩
  simp only [List.map_nil, List.nil_append, List.isChain_cons_cons, List.isChain_singleton,
    and_true]
  exact ⟨rfl, rfl⟩

/-- The nodes of a list up to some place. -/
def front (i : ι) (l : List κ) : List (ι ⊕ κ) := .inl i :: l.map .inr

/-- The nodes of a list from some place on. -/
def back (i : ι) (l : List κ) : List (ι ⊕ κ) := l.map .inr ++ [.inl i]

/-- The last node up to some place. -/
def lastNode (i : ι) (l : List κ) : ι ⊕ κ := (l.getLast?.map .inr).getD (.inl i)

/-- The first node from some place on. -/
def firstNode (i : ι) (l : List κ) : ι ⊕ κ := (l.head?.map .inr).getD (.inl i)

section Halves
variable (i : ι) (l l' : List κ) (x : κ)

theorem getLast?_front : (front i l).getLast? = some (lastNode i l) := by
  rcases List.eq_nil_or_concat l with rfl | ⟨l, a, rfl⟩
  · rfl
  · simp [front, lastNode, List.getLast?_cons]

theorem head?_back : (back i l).head? = some (firstNode i l) := by
  cases l <;> rfl

theorem inr_mem_front : .inr x ∈ front i l ↔ x ∈ l := by
  simp [front]

theorem inr_mem_back : .inr x ∈ back i l ↔ x ∈ l := by
  simp [back]

variable {i l}

theorem nodup_front (h : l.Nodup) : (front i l).Nodup :=
  List.nodup_cons.mpr ⟨by simp, h.map Sum.inr_injective⟩

theorem nodup_back (h : l.Nodup) : (back i l).Nodup := by
  rw [back, ← List.concat_eq_append]
  exact List.Nodup.concat (by simp) (h.map Sum.inr_injective)

end Halves

section Rings
variable {L : Links ι κ} {lists : ι → List κ} {i : ι} {l₁ l₂ : List κ} {x : κ}

/-- A ring, cut in two. -/
theorem Rings.cut (h : Rings L lists) (hl : lists i = l₁ ++ l₂) :
    (front i l₁).IsChain L.Follows ∧ (back i l₂).IsChain L.Follows ∧
      L.Follows (lastNode i l₁) (firstNode i l₂) := by
  have hchain := h.chain i
  have heq : Sum.inl i :: ((lists i).map Sum.inr ++ [Sum.inl i]) = front i l₁ ++ back i l₂ := by
    rw [hl, List.map_append, front, back, List.cons_append, List.append_assoc]
  rw [heq, List.isChain_append] at hchain
  exact ⟨hchain.1, hchain.2.1,
    hchain.2.2 _ (getLast?_front i l₁) _ (head?_back i l₂)⟩

/-- Two halves that are linked make a ring. -/
theorem isChain_of_halves (hfront : (front i l₁).IsChain L.Follows)
    (hback : (back i l₂).IsChain L.Follows)
    (hjoin : L.Follows (lastNode i l₁) (firstNode i l₂)) :
    (Sum.inl i :: ((l₁ ++ l₂).map Sum.inr ++ [Sum.inl i])).IsChain L.Follows := by
  have heq : Sum.inl i :: ((l₁ ++ l₂).map Sum.inr ++ [Sum.inl i]) = front i l₁ ++ back i l₂ := by
    rw [List.map_append, front, back, List.cons_append, List.append_assoc]
  rw [heq, List.isChain_append]
  refine ⟨hfront, hback, fun p hp q hq => ?_⟩
  rw [getLast?_front, Option.mem_some_iff] at hp
  rw [head?_back, Option.mem_some_iff] at hq
  rwa [← hp, ← hq]

/-- The two halves of a ring survive a change of the links between them and of those of `x`. -/
theorem Rings.halves {L' : Links ι κ} (h : Rings L lists) (hl : lists i = l₁ ++ l₂ ∨
    lists i = l₁ ++ x :: l₂) (hnodup : (l₁ ++ x :: l₂).Nodup)
    (hagree : ∀ a b, L.Follows a b → a ≠ lastNode i l₁ → b ≠ firstNode i l₂ → a ≠ .inr x →
      b ≠ .inr x → L'.Follows a b) :
    (front i l₁).IsChain L'.Follows ∧ (back i l₂).IsChain L'.Follows := by
  obtain ⟨hfront, hback⟩ : (front i l₁).IsChain L.Follows ∧ (back i l₂).IsChain L.Follows := by
    obtain hl | hl := hl
    · exact ⟨(h.cut hl).1, (h.cut hl).2.1⟩
    · have hback := (h.cut (hl.trans (List.append_cons ..))).2.1
      exact ⟨(h.cut hl).1, hback⟩
  obtain ⟨hn₁, hn₂, hdisj⟩ := List.nodup_append.mp hnodup
  obtain ⟨hx₂, hn₂⟩ := List.nodup_cons.mp hn₂
  refine isChain_of_agree hfront hback (nodup_front hn₁) (nodup_back hn₂) (getLast?_front i l₁)
    (head?_back i l₂) ?_ ?_ ?_ ?_ hagree
  · rw [back, List.dropLast_concat]
    intro hmem
    obtain ⟨y, hy, heq⟩ := List.mem_map.mp hmem
    have hlast := List.mem_of_getLast? (getLast?_front i l₁)
    rw [← heq, inr_mem_front] at hlast
    exact hdisj y hlast y (List.mem_cons_of_mem x hy) rfl
  · rw [front, List.tail_cons]
    intro hmem
    obtain ⟨y, hy, heq⟩ := List.mem_map.mp hmem
    have hfirst := List.mem_of_head? (head?_back i l₂)
    rw [← heq, inr_mem_back] at hfirst
    exact hdisj y hy y (List.mem_cons_of_mem x hfirst) rfl
  · rw [inr_mem_front]
    exact fun hx => hdisj x hx x List.mem_cons_self rfl
  · rwa [inr_mem_back]

/-- The last node of another list is none of this one. -/
theorem Rings.lastNode_notMem (h : Rings L lists) {j : ι} (hij : j ≠ i)
    (hsub : ∀ y ∈ l₁, y ∈ lists i) :
    lastNode i l₁ ∉ Sum.inl j :: ((lists j).map Sum.inr ++ [Sum.inl j]) := by
  have hlast := List.mem_of_getLast? (getLast?_front i l₁)
  intro hmem
  rcases hnode : lastNode i l₁ with k | y
  · rw [hnode] at hlast hmem
    obtain rfl : k = i := by simpa [front] using hlast
    simp [hij.symm] at hmem
  · rw [hnode] at hlast hmem
    rw [inr_mem_front] at hlast
    have hy : y ∈ lists j := by simpa using hmem
    exact hij (h.eq_of_mem j i y hy (hsub y hlast))

theorem Rings.firstNode_notMem (h : Rings L lists) {j : ι} (hij : j ≠ i)
    (hsub : ∀ y ∈ l₂, y ∈ lists i) :
    firstNode i l₂ ∉ Sum.inl j :: ((lists j).map Sum.inr ++ [Sum.inl j]) := by
  have hfirst := List.mem_of_head? (head?_back i l₂)
  intro hmem
  rcases hnode : firstNode i l₂ with k | y
  · rw [hnode] at hfirst hmem
    obtain rfl : k = i := by simpa [back] using hfirst
    simp [hij.symm] at hmem
  · rw [hnode] at hfirst hmem
    rw [inr_mem_back] at hfirst
    have hy : y ∈ lists j := by simpa using hmem
    exact hij (h.eq_of_mem j i y hy (hsub y hfirst))

/-- The other rings survive it as well. -/
theorem Rings.others {L' : Links ι κ} (h : Rings L lists) {j : ι} (hij : j ≠ i)
    (hsub : ∀ y ∈ l₁ ++ l₂, y ∈ lists i) (hx : x ∉ lists j)
    (hagree : ∀ a b, L.Follows a b → a ≠ lastNode i l₁ → b ≠ firstNode i l₂ → a ≠ .inr x →
      b ≠ .inr x → L'.Follows a b) :
    (Sum.inl j :: ((lists j).map Sum.inr ++ [Sum.inl j])).IsChain L'.Follows := by
  have hlast := h.lastNode_notMem hij fun y hy => hsub y (List.mem_append_left l₂ hy)
  have hfirst := h.firstNode_notMem hij fun y hy => hsub y (List.mem_append_right l₁ hy)
  have hnot : Sum.inr x ∉ Sum.inl j :: ((lists j).map Sum.inr ++ [Sum.inl j]) := by
    simpa using hx
  refine isChain_imp (h.chain j) fun a ha b hb hab => ?_
  replace ha := List.dropLast_subset _ ha
  replace hb := List.mem_of_mem_tail hb
  exact hagree a b hab (ne_of_mem_of_not_mem ha hlast) (ne_of_mem_of_not_mem hb hfirst)
    (ne_of_mem_of_not_mem ha hnot) (ne_of_mem_of_not_mem hb hnot)

theorem ne_lastNode {y : κ} (hy : y ∉ l₁) : Sum.inr y ≠ lastNode i l₁ := by
  intro heq
  have hlast := List.mem_of_getLast? (getLast?_front i l₁)
  rw [← heq, inr_mem_front] at hlast
  exact hy hlast

theorem ne_firstNode {y : κ} (hy : y ∉ l₂) : Sum.inr y ≠ firstNode i l₂ := by
  intro heq
  have hfirst := List.mem_of_head? (head?_back i l₂)
  rw [← heq, inr_mem_back] at hfirst
  exact hy hfirst

end Rings

/-- The items from a node on, up to a head of a list. -/
def Links.walk (L : Links ι κ) : ℕ → ι ⊕ κ → List κ
  | 0, _ => []
  | _ + 1, .inl _ => []
  | fuel + 1, .inr x => x :: L.walk fuel (L.next (.inr x))

/-- Whoever walks along a list sees all of it. -/
theorem Rings.walk {L : Links ι κ} {lists : ι → List κ} (h : Rings L lists) {i : ι}
    {l₁ l₂ : List κ} (hl : lists i = l₁ ++ l₂) {fuel : ℕ} (hfuel : l₂.length ≤ fuel) :
    L.walk fuel (firstNode i l₂) = l₂ := by
  induction l₂ generalizing l₁ fuel with
  | nil => cases fuel <;> rfl
  | cons x l₂ ih =>
    obtain _ | fuel := fuel
    · exact absurd hfuel (by simp)
    · have hl' : lists i = (l₁ ++ [x]) ++ l₂ := by rw [hl, ← List.append_cons]
      have hnext : L.next (.inr x) = firstNode i l₂ := by
        have hcut := (h.cut hl').2.2.next
        rwa [lastNode, List.getLast?_concat] at hcut
      have hrest := ih hl' (Nat.le_of_succ_le_succ hfuel)
      rw [← hnext] at hrest
      exact congrArg (x :: ·) hrest

section Operations
variable [DecidableEq ι] [DecidableEq κ] {L : Links ι κ} {lists : ι → List κ} {i : ι}
  {l₁ l₂ : List κ} {x : κ}

/-- An item that is taken out leaves the others in their lists. -/
theorem Rings.remove_mem (h : Rings L lists) (hl : lists i = l₁ ++ x :: l₂) :
    Rings (L.remove (.inr x)) (update lists i (l₁ ++ l₂)) := by
  have hnodup : (l₁ ++ x :: l₂).Nodup := hl ▸ h.nodup i
  have hbefore : L.Follows (lastNode i l₁) (.inr x) := (h.cut hl).2.2
  have hafter : L.Follows (.inr x) (firstNode i l₂) := by
    have hcut := (h.cut (hl.trans (List.append_cons ..))).2.2
    rwa [lastNode, List.getLast?_concat] at hcut
  have hmem : ∀ y, y ∈ l₁ ++ l₂ → y ∈ lists i := by
    intro y hy
    rw [hl, List.mem_append, List.mem_cons]
    rw [List.mem_append] at hy
    tauto
  have hsub : ∀ j y, y ∈ update lists i (l₁ ++ l₂) j → y ∈ lists j := by
    intro j y hy
    by_cases hj : j = i
    · subst hj
      exact hmem y (by rwa [update_self] at hy)
    · rwa [update_of_ne hj] at hy
  have hx : x ∈ lists i := by
    rw [hl]
    exact List.mem_append_right _ List.mem_cons_self
  have hnot : x ∉ l₁ ++ l₂ := by
    rw [List.nodup_middle] at hnodup
    exact (List.nodup_cons.mp hnodup).1
  have hprev : L.prev (.inr x) ≠ .inr x := by
    rw [hbefore.prev]
    exact (ne_lastNode fun hx₁ => hnot (List.mem_append_left _ hx₁)).symm
  have hnext : L.next (.inr x) ≠ .inr x := by
    rw [hafter.next]
    exact (ne_firstNode fun hx₂ => hnot (List.mem_append_right _ hx₂)).symm
  have hagree : ∀ a b, L.Follows a b → a ≠ lastNode i l₁ → b ≠ firstNode i l₂ → a ≠ .inr x →
      b ≠ .inr x → (L.remove (.inr x)).Follows a b :=
    fun a b hab ha hb hax hbx => hab.remove (hbefore.prev ▸ ha) (hafter.next ▸ hb) hax hbx
  refine ⟨fun j => ?_, fun j => ?_, fun j k y hj hk => ?_, fun y hy => ?_⟩
  · by_cases hj : j = i
    · subst hj
      rw [update_self]
      obtain ⟨hfront, hback⟩ := h.halves (Or.inr hl) hnodup hagree
      refine isChain_of_halves hfront hback ?_
      have hjoin := Links.remove_joins hprev hnext
      rwa [hbefore.prev, hafter.next] at hjoin
    · rw [update_of_ne hj]
      exact h.others hj hmem (fun hxj => hj (h.eq_of_mem j i x hxj hx)) hagree
  · by_cases hj : j = i
    · subst hj
      rw [update_self]
      exact (hl ▸ h.nodup j).sublist ((List.sublist_cons_self x l₂).append_left l₁)
    · rw [update_of_ne hj]
      exact h.nodup j
  · exact h.eq_of_mem j k y (hsub j y hj) (hsub k y hk)
  · by_cases hyx : y = x
    · rw [hyx]
      exact L.remove_self _
    · have hyi : y ∉ l₁ ++ l₂ := by
        have := hy i
        rwa [update_self] at this
      have hout : ∀ j, y ∉ lists j := by
        intro j hyj
        by_cases hj : j = i
        · rw [hj, hl, List.mem_append, List.mem_cons] at hyj
          rw [List.mem_append] at hyi
          tauto
        · have := hy j
          rw [update_of_ne hj] at this
          exact this hyj
      exact hagree _ _ (h.loose y hout)
        (ne_lastNode fun hy₁ => hyi (List.mem_append_left _ hy₁))
        (ne_firstNode fun hy₂ => hyi (List.mem_append_right _ hy₂))
        (fun heq => hyx (Sum.inr.inj heq)) (fun heq => hyx (Sum.inr.inj heq))

/-- Taking an item out of whatever list it is in. -/
theorem Rings.remove (h : Rings L lists) (x : κ) :
    Rings (L.remove (.inr x)) fun i => (lists i).erase x := by
  by_cases hx : ∃ i, x ∈ lists i
  · obtain ⟨i, hi⟩ := hx
    obtain ⟨l₁, l₂, -, hl, herase⟩ := List.exists_erase_eq hi
    have heq : (fun j => (lists j).erase x) = update lists i (l₁ ++ l₂) := by
      funext j
      by_cases hj : j = i
      · rw [hj, update_self, herase]
      · rw [update_of_ne hj, List.erase_of_not_mem fun hxj => hj (h.eq_of_mem j i x hxj hi)]
    rw [heq]
    exact h.remove_mem hl
  · have hnot : ∀ i, x ∉ lists i := fun i hi => hx ⟨i, hi⟩
    rw [Links.remove_of_self (h.loose x hnot)]
    simpa only [List.erase_of_not_mem (hnot _)] using h

/-- An item that is in no list gets into one. -/
theorem Rings.addAfter (h : Rings L lists) (hx : ∀ j, x ∉ lists j) (hl : lists i = l₁ ++ l₂) :
    Rings (L.addAfter (.inr x) (lastNode i l₁)) (update lists i (l₁ ++ x :: l₂)) := by
  have hcut := (h.cut hl).2.2
  have hnot : x ∉ l₁ ++ l₂ := hl ▸ hx i
  have hnodup : (l₁ ++ x :: l₂).Nodup := by
    rw [List.nodup_middle, List.nodup_cons]
    exact ⟨hnot, hl ▸ h.nodup i⟩
  have hmem : ∀ y ∈ l₁ ++ l₂, y ∈ lists i := fun y hy => hl ▸ hy
  have hlast : Sum.inr x ≠ lastNode i l₁ :=
    ne_lastNode fun hx₁ => hnot (List.mem_append_left _ hx₁)
  have hfirst : Sum.inr x ≠ firstNode i l₂ :=
    ne_firstNode fun hx₂ => hnot (List.mem_append_right _ hx₂)
  obtain ⟨hbefore, hafter⟩ := Links.addAfter_between (L := L) hlast (hcut.next ▸ hfirst.symm)
    (by rw [hcut.next, hcut.prev])
  have hagree : ∀ a b, L.Follows a b → a ≠ lastNode i l₁ → b ≠ firstNode i l₂ → a ≠ .inr x →
      b ≠ .inr x → (L.addAfter (.inr x) (lastNode i l₁)).Follows a b :=
    fun a b hab ha hb hax hbx => hab.addAfter ha (hcut.next ▸ hb) hax hbx hlast
  have hsub : ∀ j y, y ∈ update lists i (l₁ ++ x :: l₂) j → y = x ∧ j = i ∨ y ∈ lists j := by
    intro j y hy
    by_cases hj : j = i
    · subst hj
      rw [update_self, List.mem_append, List.mem_cons] at hy
      rw [hl, List.mem_append]
      tauto
    · rw [update_of_ne hj] at hy
      exact Or.inr hy
  refine ⟨fun j => ?_, fun j => ?_, fun j k y hj hk => ?_, fun y hy => ?_⟩
  · by_cases hj : j = i
    · subst hj
      rw [update_self]
      obtain ⟨hfront, hback⟩ := h.halves (Or.inl hl) hnodup hagree
      have hjoin : (front j l₁ ++ Sum.inr x :: back j l₂).IsChain
          (L.addAfter (.inr x) (lastNode j l₁)).Follows := by
        rw [List.isChain_append, List.isChain_cons]
        refine ⟨hfront, ⟨fun q hq => ?_, hback⟩, fun p hp q hq => ?_⟩
        · rw [head?_back, Option.mem_some_iff] at hq
          rwa [← hq, ← hcut.next]
        · rw [getLast?_front, Option.mem_some_iff] at hp
          rw [List.head?_cons, Option.mem_some_iff] at hq
          rwa [← hp, ← hq]
      simpa [front, back] using hjoin
    · rw [update_of_ne hj]
      exact h.others hj hmem (hx j) hagree
  · by_cases hj : j = i
    · subst hj
      rw [update_self]
      exact hnodup
    · rw [update_of_ne hj]
      exact h.nodup j
  · obtain ⟨hyx, hji⟩ | hj' := hsub j y hj
    · obtain ⟨-, hki⟩ | hk' := hsub k y hk
      · rw [hji, hki]
      · exact absurd (hyx ▸ hk') (hx k)
    · obtain ⟨hyx, -⟩ | hk' := hsub k y hk
      · exact absurd (hyx ▸ hj') (hx j)
      · exact h.eq_of_mem j k y hj' hk'
  · have hout : ∀ j, y ∉ lists j := by
      intro j hyj
      by_cases hj : j = i
      · subst hj
        have := hy j
        rw [update_self, List.mem_append, List.mem_cons] at this
        rw [hl, List.mem_append] at hyj
        tauto
      · have := hy j
        rw [update_of_ne hj] at this
        exact this hyj
    have hyx : y ≠ x := by
      rintro rfl
      have := hy i
      rw [update_self] at this
      exact this (List.mem_append_right _ List.mem_cons_self)
    exact hagree _ _ (h.loose y hout)
      (ne_lastNode fun hy₁ => hout i (hl ▸ List.mem_append_left _ hy₁))
      (ne_firstNode fun hy₂ => hout i (hl ▸ List.mem_append_right _ hy₂))
      (fun heq => hyx (Sum.inr.inj heq)) (fun heq => hyx (Sum.inr.inj heq))

/-- Behind the head is the front of the list. -/
theorem Rings.addAfter_head (h : Rings L lists) (hx : ∀ j, x ∉ lists j) (i : ι) :
    Rings (L.addAfter (.inr x) (.inl i)) (update lists i (x :: lists i)) := by
  have hsplit : lists i = [] ++ lists i := rfl
  exact h.addAfter hx hsplit

end Operations
end LinkedRings
