import AcpltKs.Library.GuardedRun
import AcpltKs.Library.NodeLists
import Mathlib.Data.List.Nodup

/-! The doubly linked lists of the PLT library, the nodes of which are linked in memory. -/
namespace AcpltKs
open Function NodeLists

variable {α : Type}

structure PltListNode (α : Type) where
  next : Option ℕ
  prev : Option ℕ
  info : α

/-- A list and the memory its nodes are in. -/
structure PltListBase (α : Type) where
  nodes : ℕ → Option (PltListNode α)
  first : Option ℕ
  last : Option ℕ

namespace PltListBase

def setNext (s : PltListBase α) (p : ℕ) (next : Option ℕ) : Option (PltListBase α) :=
  (s.nodes p).map fun node => { s with nodes := update s.nodes p (some { node with next := next }) }

def setPrev (s : PltListBase α) (p : ℕ) (prev : Option ℕ) : Option (PltListBase α) :=
  (s.nodes p).map fun node => { s with nodes := update s.nodes p (some { node with prev := prev }) }

/-- A null pointer in the place of a node is followed by nobody. -/
def setNextOf (s : PltListBase α) (p next : Option ℕ) : Option (PltListBase α) :=
  match p with
  | some p => s.setNext p next
  | none => some s

def setPrevOf (s : PltListBase α) (p prev : Option ℕ) : Option (PltListBase α) :=
  match p with
  | some p => s.setPrev p prev
  | none => some s

/-- A node is constructed; `new` answers an address that is not in use. -/
def create (s : PltListBase α) (p : ℕ) (t : α) : PltListBase α :=
  { s with nodes := update s.nodes p (some ⟨none, none, t⟩) }

def delete (s : PltListBase α) (p : ℕ) : PltListBase α :=
  { s with nodes := update s.nodes p none }

def addFirst (s : PltListBase α) (p : ℕ) : Option (PltListBase α) := do
  let s ← s.setPrev p none
  let s ← s.setPrevOf s.first (some p)
  let s ← s.setNext p s.first
  let s := { s with first := some p }
  return if s.last.isNone then { s with last := s.first } else s

def addLast (s : PltListBase α) (p : ℕ) : Option (PltListBase α) := do
  let s ← s.setNext p none
  let s ← s.setNextOf s.last (some p)
  let s ← s.setPrev p s.last
  let s := { s with last := some p }
  return if s.first.isNone then { s with first := s.last } else s

def remove (s : PltListBase α) (p : ℕ) : Option (PltListBase α) := do
  let node ← s.nodes p
  let pred := node.prev
  let succ := node.next
  let s ← s.setNextOf pred succ
  let s := { s with first := if pred.isNone then succ else s.first }
  let s ← s.setPrevOf succ pred
  let s := { s with last := if succ.isNone then pred else s.last }
  let s ← s.setPrev p none
  s.setNext p none

/-- The first node is removed and answered; an empty list has none. -/
def removeFirst (s : PltListBase α) : Option (PltListBase α × ℕ) := do
  let p ← s.first
  let s ← s.remove p
  return (s, p)

def removeLast (s : PltListBase α) : Option (PltListBase α × ℕ) := do
  let p ← s.last
  let s ← s.remove p
  return (s, p)

/-- The loop of `size`, for at most so many rounds. -/
def sizeFrom (s : PltListBase α) : ℕ → Option ℕ → ℕ → Option ℕ
  | 0, _, _ => none
  | _ + 1, none, res => some res
  | fuel + 1, some p, res => do
      let node ← s.nodes p
      s.sizeFrom fuel node.next (res + 1)

def size (s : PltListBase α) (fuel : ℕ) : Option ℕ := s.sizeFrom fuel s.first 0

end PltListBase

/-! The lists that make the nodes themselves. -/
namespace PltList
open PltListBase

def addFirst (s : PltListBase α) (p : Option ℕ) (t : α) : Option (PltListBase α × Bool) :=
  match p with
  | some p => do
      let s ← (s.create p t).addFirst p
      return (s, true)
  | none => some (s, false)

def addLast (s : PltListBase α) (p : Option ℕ) (t : α) : Option (PltListBase α × Bool) :=
  match p with
  | some p => do
      let s ← (s.create p t).addLast p
      return (s, true)
  | none => some (s, false)

def removeFirst (s : PltListBase α) : Option (PltListBase α × α) := do
  let (s, p) ← s.removeFirst
  let node ← s.nodes p
  return (s.delete p, node.info)

def removeLast (s : PltListBase α) : Option (PltListBase α × α) := do
  let (s, p) ← s.removeLast
  let node ← s.nodes p
  return (s.delete p, node.info)

/-- The loop of `remove` over the nodes, for at most so many rounds. -/
def removeFrom [BEq α] (s : PltListBase α) (t : α) :
    ℕ → Option ℕ → Option (PltListBase α × Bool)
  | 0, _ => none
  | _ + 1, none => some (s, false)
  | fuel + 1, some p => do
      let node ← s.nodes p
      if node.info == t then
        let s ← s.remove p
        return (s.delete p, true)
      else removeFrom s t fuel node.next

def remove [BEq α] (s : PltListBase α) (fuel : ℕ) (t : α) : Option (PltListBase α × Bool) :=
  removeFrom s t fuel s.first

end PltList

namespace PltListBase

def nextAt (s : PltListBase α) (p : ℕ) : Option (Option ℕ) := (s.nodes p).map (·.next)

def prevAt (s : PltListBase α) (p : ℕ) : Option (Option ℕ) := (s.nodes p).map (·.prev)

def infoAt (s : PltListBase α) (p : ℕ) : Option α := (s.nodes p).map (·.info)

variable {s : PltListBase α} {p : ℕ}

theorem isSome_infoAt (s : PltListBase α) (p : ℕ) : (s.infoAt p).isSome = (s.nodes p).isSome :=
  Option.isSome_map

theorem setNextOf_spec {p : Option ℕ} (hp : ∀ q ∈ p, (s.infoAt q).isSome) (next : Option ℕ) :
    ∃ s', s.setNextOf p next = some s' ∧ s'.first = s.first ∧ s'.last = s.last ∧
      (∀ q, s'.nextAt q = if p = some q then some next else s.nextAt q) ∧
      (∀ q, s'.prevAt q = s.prevAt q) ∧ ∀ q, s'.infoAt q = s.infoAt q := by
  cases p with
  | none => exact ⟨s, rfl, rfl, rfl, by simp, by simp, by simp⟩
  | some p =>
    have hsome := hp p rfl
    rw [isSome_infoAt, Option.isSome_iff_exists] at hsome
    obtain ⟨node, hnode⟩ := hsome
    refine ⟨{ s with nodes := update s.nodes p (some { node with next := next }) },
      by rw [setNextOf, setNext, hnode, Option.map_some], rfl, rfl, ?_, ?_, ?_⟩ <;>
    · intro q
      by_cases hq : q = p
      · subst hq
        simp [nextAt, prevAt, infoAt, hnode]
      · simp [nextAt, prevAt, infoAt, update_of_ne hq, Ne.symm hq]

theorem setPrevOf_spec {p : Option ℕ} (hp : ∀ q ∈ p, (s.infoAt q).isSome) (prev : Option ℕ) :
    ∃ s', s.setPrevOf p prev = some s' ∧ s'.first = s.first ∧ s'.last = s.last ∧
      (∀ q, s'.prevAt q = if p = some q then some prev else s.prevAt q) ∧
      (∀ q, s'.nextAt q = s.nextAt q) ∧ ∀ q, s'.infoAt q = s.infoAt q := by
  cases p with
  | none => exact ⟨s, rfl, rfl, rfl, by simp, by simp, by simp⟩
  | some p =>
    have hsome := hp p rfl
    rw [isSome_infoAt, Option.isSome_iff_exists] at hsome
    obtain ⟨node, hnode⟩ := hsome
    refine ⟨{ s with nodes := update s.nodes p (some { node with prev := prev }) },
      by rw [setPrevOf, setPrev, hnode, Option.map_some], rfl, rfl, ?_, ?_, ?_⟩ <;>
    · intro q
      by_cases hq : q = p
      · subst hq
        simp [nextAt, prevAt, infoAt, hnode]
      · simp [nextAt, prevAt, infoAt, update_of_ne hq, Ne.symm hq]

end PltListBase

/-- What a list stands for: the contents of the nodes there are, and the nodes in the list in their
order. -/
structure NodeSequence (α : Type) where
  info : ℕ → Option α
  nodes : List ℕ

namespace PltListBase

/-- The two ways through the list lead through the nodes of the sequence. -/
structure Represents (s : PltListBase α) (a : NodeSequence α) : Prop where
  info : ∀ p, s.infoAt p = a.info p
  forward : Leads (·.next) s.nodes s.first a.nodes none
  backward : Leads (·.prev) s.nodes s.last a.nodes.reverse none
  nodup : a.nodes.Nodup

variable {s : PltListBase α} {a : NodeSequence α} {p : ℕ}

namespace Represents

theorem first_eq (h : s.Represents a) : s.first = a.nodes.head? := h.forward.start_eq

theorem last_eq (h : s.Represents a) : s.last = a.nodes.getLast? := by
  rw [h.backward.start_eq, List.head?_reverse]

theorem isSome_info (h : s.Represents a) (hp : p ∈ a.nodes) : (s.infoAt p).isSome := by
  rw [isSome_infoAt]
  exact h.forward.isSome hp

theorem addFirst (h : s.Represents a) (hp : (a.info p).isSome) (hnot : p ∉ a.nodes) :
    ∃ s', s.addFirst p = some s' ∧ s'.Represents { a with nodes := p :: a.nodes } := by
  have hp' : ∀ q ∈ some p, (s.infoAt q).isSome := by simpa [h.info] using hp
  obtain ⟨s₁, h₁, hfirst₁, hlast₁, hprev₁, hnext₁, hinfo₁⟩ := setPrevOf_spec hp' none
  have hfirst : ∀ q ∈ s₁.first, (s₁.infoAt q).isSome := by
    intro q hq
    rw [hfirst₁, h.first_eq] at hq
    rw [hinfo₁]
    exact h.isSome_info (List.mem_of_mem_head? hq)
  obtain ⟨s₂, h₂, hfirst₂, hlast₂, hprev₂, hnext₂, hinfo₂⟩ := setPrevOf_spec hfirst (some p)
  have hp₂ : ∀ q ∈ some p, (s₂.infoAt q).isSome := by simpa [hinfo₂, hinfo₁] using hp'
  obtain ⟨s₃, h₃, hfirst₃, hlast₃, hnext₃, hprev₃, hinfo₃⟩ := setNextOf_spec hp₂ s₂.first
  have hlast : s₃.last = a.nodes.getLast? := by rw [hlast₃, hlast₂, hlast₁, h.last_eq]
  refine ⟨{ s₃ with
    first := some p, last := if a.nodes.reverse.isEmpty then some p else s.last }, ?_, ?_⟩
  · have hset₁ : s.setPrev p none = some s₁ := h₁
    have hset₃ : s₂.setNext p s₂.first = some s₃ := h₃
    simp only [PltListBase.addFirst, hset₁, h₂, hset₃, Option.bind_eq_bind, Option.bind_some]
    cases hl : a.nodes <;> simp [hlast₃, hlast₂, hlast₁, h.last_eq, hl]
  · have hnext : ∀ q, s₃.nextAt q = if some p = some q then some s.first else s.nextAt q := by
      intro q
      rw [hnext₃, hnext₂, hnext₁, hfirst₂, hfirst₁]
    have hprev : ∀ q, s₃.prevAt q = if a.nodes.head? = some q then some (some p)
        else if some p = some q then some none else s.prevAt q := by
      intro q
      rw [hprev₃, hprev₂, hprev₁, hfirst₁, h.first_eq]
    refine ⟨?_, ?_, ?_, List.nodup_cons.mpr ⟨hnot, h.nodup⟩⟩
    · intro q
      rw [← h.info q, ← hinfo₁, ← hinfo₂]
      exact hinfo₃ q
    · refine Leads.cons (?_ : Leads _ _ s.first _ _) ?_
      · apply h.forward.of_links
        intro q hq
        have hqp : p ≠ q := fun heq => hnot (heq ▸ hq)
        exact (hnext q).trans (by simp [hqp, nextAt])
      · exact (hnext p).trans (by simp)
    · rw [List.reverse_cons]
      apply h.backward.snoc (List.nodup_reverse.mpr h.nodup)
      · intro q hq hlastq
        have hqp : p ≠ q := fun heq => hnot (heq ▸ List.mem_reverse.mp hq)
        rw [List.getLast?_reverse] at hlastq
        exact (hprev q).trans (by simp [hqp, hlastq, prevAt])
      · intro q hq
        rw [List.getLast?_reverse] at hq
        exact (hprev q).trans (if_pos hq)
      · have hhead : a.nodes.head? ≠ some p := fun heq => hnot (List.mem_of_mem_head? heq)
        exact (hprev p).trans (by simp [hhead])

theorem addLast (h : s.Represents a) (hp : (a.info p).isSome) (hnot : p ∉ a.nodes) :
    ∃ s', s.addLast p = some s' ∧ s'.Represents { a with nodes := a.nodes ++ [p] } := by
  have hp' : ∀ q ∈ some p, (s.infoAt q).isSome := by simpa [h.info] using hp
  obtain ⟨s₁, h₁, hfirst₁, hlast₁, hnext₁, hprev₁, hinfo₁⟩ := setNextOf_spec hp' none
  have hlast : ∀ q ∈ s₁.last, (s₁.infoAt q).isSome := by
    intro q hq
    rw [hlast₁, h.last_eq] at hq
    rw [hinfo₁]
    exact h.isSome_info (List.mem_of_mem_getLast? hq)
  obtain ⟨s₂, h₂, hfirst₂, hlast₂, hnext₂, hprev₂, hinfo₂⟩ := setNextOf_spec hlast (some p)
  have hp₂ : ∀ q ∈ some p, (s₂.infoAt q).isSome := by simpa [hinfo₂, hinfo₁] using hp'
  obtain ⟨s₃, h₃, hfirst₃, hlast₃, hprev₃, hnext₃, hinfo₃⟩ := setPrevOf_spec hp₂ s₂.last
  refine ⟨{ s₃ with
    last := some p, first := if a.nodes.isEmpty then some p else s.first }, ?_, ?_⟩
  · have hset₁ : s.setNext p none = some s₁ := h₁
    have hset₃ : s₂.setPrev p s₂.last = some s₃ := h₃
    simp only [PltListBase.addLast, hset₁, h₂, hset₃, Option.bind_eq_bind, Option.bind_some]
    cases hl : a.nodes <;> simp [hfirst₃, hfirst₂, hfirst₁, h.first_eq, hl]
  · have hprev : ∀ q, s₃.prevAt q = if some p = some q then some s.last else s.prevAt q := by
      intro q
      rw [hprev₃, hprev₂, hprev₁, hlast₂, hlast₁]
    have hnext : ∀ q, s₃.nextAt q = if a.nodes.getLast? = some q then some (some p)
        else if some p = some q then some none else s.nextAt q := by
      intro q
      rw [hnext₃, hnext₂, hnext₁, hlast₁, h.last_eq]
    have hnodup : (a.nodes ++ [p]).Nodup := by
      apply List.nodup_append.mpr
      refine ⟨h.nodup, List.nodup_singleton p, ?_⟩
      rintro q hq r hr rfl
      exact hnot (List.mem_singleton.mp hr ▸ hq)
    refine ⟨?_, ?_, ?_, hnodup⟩
    · intro q
      rw [← h.info q, ← hinfo₁, ← hinfo₂]
      exact hinfo₃ q
    · apply h.forward.snoc h.nodup
      · intro q hq hlastq
        have hqp : p ≠ q := fun heq => hnot (heq ▸ hq)
        exact (hnext q).trans (by simp [hqp, hlastq, nextAt])
      · intro q hq
        exact (hnext q).trans (if_pos hq)
      · have hend : a.nodes.getLast? ≠ some p := fun heq => hnot (List.mem_of_mem_getLast? heq)
        exact (hnext p).trans (by simp [hend])
    · rw [List.reverse_append, List.reverse_singleton, List.singleton_append]
      refine Leads.cons (?_ : Leads _ _ s.last _ _) ?_
      · apply h.backward.of_links
        intro q hq
        have hqp : p ≠ q := fun heq => hnot (heq ▸ List.mem_reverse.mp hq)
        exact (hprev q).trans (by simp [hqp, prevAt])
      · exact (hprev p).trans (by simp)

theorem remove (h : s.Represents a) (hp : p ∈ a.nodes) :
    ∃ s', s.remove p = some s' ∧ s'.Represents { a with nodes := a.nodes.erase p } := by
  obtain ⟨l, l', hl⟩ := List.append_of_mem hp
  have hnodup := h.nodup
  have hforward := h.forward
  have hbackward := h.backward
  rw [hl, List.reverse_append, List.reverse_cons, List.append_assoc, List.singleton_append]
    at hbackward
  rw [hl] at hnodup hforward
  obtain ⟨-, node, hnode, hsucc⟩ := leads_middle.mp hforward
  obtain ⟨-, node', hnode', hpred⟩ := leads_middle.mp hbackward
  obtain rfl : node = node' := Option.some_inj.mp (hnode.symm.trans hnode')
  have hsucc' : node.next = l'.head? := hsucc.start_eq
  have hpred' : node.prev = l.getLast? := by rw [hpred.start_eq, List.head?_reverse]
  have happart : ∀ q ∈ l, ∀ r ∈ p :: l', q ≠ r := (List.nodup_append.mp hnodup).2.2
  have hpl : p ∉ l := fun hmem => happart p hmem p List.mem_cons_self rfl
  have hpl' : p ∉ l' := (List.nodup_cons.mp (List.nodup_append.mp hnodup).2.1).1
  have hpredsome : ∀ q ∈ node.prev, (s.infoAt q).isSome := by
    intro q hq
    rw [hpred'] at hq
    apply h.isSome_info
    rw [hl]
    exact List.mem_append_left _ (List.mem_of_mem_getLast? hq)
  obtain ⟨s₁, h₁, hfirst₁, hlast₁, hnext₁, hprev₁, hinfo₁⟩ := setNextOf_spec hpredsome node.next
  have hsuccsome : ∀ q ∈ node.next, (s₁.infoAt q).isSome := by
    intro q hq
    rw [hsucc'] at hq
    rw [hinfo₁]
    apply h.isSome_info
    rw [hl]
    exact List.mem_append_right _ (List.mem_cons_of_mem _ (List.mem_of_mem_head? hq))
  obtain ⟨s₂, h₂, hfirst₂, hlast₂, hprev₂, hnext₂, hinfo₂⟩ := setPrevOf_spec (s := { s₁ with
    first := if node.prev.isNone then node.next else s₁.first }) hsuccsome node.prev
  have hpsome : ∀ q ∈ some p, (s₂.infoAt q).isSome := by
    rintro q ⟨⟩
    rw [hinfo₂]
    exact (congrArg _ (hinfo₁ p)).trans (h.isSome_info hp)
  obtain ⟨s₃, h₃, hfirst₃, hlast₃, hprev₃, hnext₃, hinfo₃⟩ := setPrevOf_spec (s := { s₂ with
    last := if node.next.isNone then node.prev else s₂.last }) hpsome none
  have hpsome₃ : ∀ q ∈ some p, (s₃.infoAt q).isSome := by
    intro q hq
    rw [hinfo₃]
    exact hpsome q hq
  obtain ⟨s₄, h₄, hfirst₄, hlast₄, hnext₄, hprev₄, hinfo₄⟩ := setNextOf_spec hpsome₃ none
  have hset₃ : PltListBase.setPrev { s₂ with
    last := if node.next.isNone then node.prev else s₂.last } p none = some s₃ := h₃
  have hset₄ : s₃.setNext p none = some s₄ := h₄
  have hnext : ∀ q, s₄.nextAt q = if some p = some q then some none
      else if l.getLast? = some q then some node.next else s.nextAt q := by
    intro q
    rw [hnext₄, hnext₃, ← hpred', ← hnext₁]
    exact congrArg _ (hnext₂ q)
  have hprev : ∀ q, s₄.prevAt q = if some p = some q then some none
      else if l'.head? = some q then some node.prev else s.prevAt q := by
    intro q
    rw [hprev₄, hprev₃, ← hsucc', ← hprev₁]
    exact congrArg _ (hprev₂ q)
  have hfirst : s₄.first = if l.isEmpty then node.next else s.first := by
    rw [hfirst₄, hfirst₃, ← hfirst₁]
    refine hfirst₂.trans ?_
    cases l with
    | nil => simp [hpred']
    | cons b l => simp [hpred', List.getLast?_cons]
  have hlast : s₄.last = if l'.reverse.isEmpty then node.prev else s.last := by
    rw [hlast₄, hlast₃, ← hlast₁]
    cases l' with
    | nil => simp [hsucc']
    | cons b l' => simpa [hsucc'] using hlast₂
  have hremove : s.remove p = some s₄ := by
    simp only [PltListBase.remove, hnode, h₁, h₂, hset₃, hset₄, Option.bind_eq_bind,
      Option.bind_some]
  refine ⟨s₄, hremove, ?_⟩
  have herase : a.nodes.erase p = l ++ l' := by
    rw [hl, List.erase_append_right _ hpl, List.erase_cons_head]
  have hkept : (l ++ l').Nodup := by
    rw [← herase]
    exact h.nodup.erase p
  constructor
  · intro q
    rw [← h.info q, ← hinfo₁, hinfo₄, hinfo₃]
    exact hinfo₂ q
  · rw [hfirst, herase]
    apply hforward.leave (List.nodup_append.mp hnodup).1
    · rw [hnode, Option.map_some]
    · intro q hq hlastq
      have hqp : p ≠ q := by
        rintro rfl
        exact (List.mem_append.mp hq).elim hpl hpl'
      exact (hnext q).trans (by simp [hqp, hlastq, nextAt])
    · intro q hq
      have hqp : p ≠ q := fun heq => hpl (heq ▸ List.mem_of_mem_getLast? hq)
      exact (hnext q).trans (by simp_all)
    · intro q hq hlastq
      exact happart q (List.mem_of_mem_getLast? hlastq) q (List.mem_cons_of_mem p hq) rfl
  · rw [hlast, herase, List.reverse_append]
    apply hbackward.leave (List.nodup_reverse.mpr (List.nodup_cons.mp
      (List.nodup_append.mp hnodup).2.1).2)
    · rw [hnode, Option.map_some]
    · intro q hq hlastq
      rw [List.getLast?_reverse] at hlastq
      have hqp : p ≠ q := by
        rintro rfl
        simp only [List.mem_append, List.mem_reverse] at hq
        exact hq.elim hpl' hpl
      exact (hprev q).trans (by simp [hqp, hlastq, prevAt])
    · intro q hq
      rw [List.getLast?_reverse] at hq
      have hqp : p ≠ q := fun heq => hpl' (heq ▸ List.mem_of_mem_head? hq)
      exact (hprev q).trans (by simp_all)
    · intro q hq hlastq
      rw [List.getLast?_reverse] at hlastq
      exact happart q (List.mem_reverse.mp hq) q
        (List.mem_cons_of_mem p (List.mem_of_mem_head? hlastq)) rfl
  · rw [herase]
    exact hkept

/-- Only nodes that are there can be in the list. -/
theorem not_mem (h : s.Represents a) (hfresh : a.info p = none) : p ∉ a.nodes := by
  intro hp
  have hsome := h.isSome_info hp
  rw [h.info, hfresh] at hsome
  cases hsome

theorem create (h : s.Represents a) (hfresh : a.info p = none) (t : α) :
    (s.create p t).Represents { a with info := update a.info p (some t) } := by
  have hp := h.not_mem hfresh
  constructor
  · intro q
    unfold infoAt PltListBase.create
    dsimp only
    by_cases hq : q = p
    · rw [hq, update_self, update_self, Option.map_some]
    · rw [update_of_ne hq, update_of_ne hq]
      exact h.info q
  · exact h.forward.update hp _
  · exact h.backward.update (fun hmem => hp (List.mem_reverse.mp hmem)) _
  · exact h.nodup

theorem delete (h : s.Represents a) (hp : p ∉ a.nodes) :
    (s.delete p).Represents { a with info := update a.info p none } := by
  constructor
  · intro q
    unfold infoAt PltListBase.delete
    dsimp only
    by_cases hq : q = p
    · rw [hq, update_self, update_self, Option.map_none]
    · rw [update_of_ne hq, update_of_ne hq]
      exact h.info q
  · exact h.forward.update hp _
  · exact h.backward.update (fun hmem => hp (List.mem_reverse.mp hmem)) _
  · exact h.nodup

theorem removeFirst (h : s.Represents a) (hp : a.nodes.head? = some p) :
    ∃ s', s.removeFirst = some (s', p) ∧ s'.Represents { a with nodes := a.nodes.erase p } := by
  obtain ⟨s', hremove, h'⟩ := h.remove (List.mem_of_mem_head? hp)
  refine ⟨s', ?_, h'⟩
  rw [PltListBase.removeFirst, h.first_eq, hp]
  simp [hremove]

theorem removeLast (h : s.Represents a) (hp : a.nodes.getLast? = some p) :
    ∃ s', s.removeLast = some (s', p) ∧ s'.Represents { a with nodes := a.nodes.erase p } := by
  obtain ⟨s', hremove, h'⟩ := h.remove (List.mem_of_mem_getLast? hp)
  refine ⟨s', ?_, h'⟩
  rw [PltListBase.removeLast, h.last_eq, hp]
  simp [hremove]

theorem size (h : s.Represents a) {fuel : ℕ} (hfuel : a.nodes.length < fuel) :
    s.size fuel = some a.nodes.length := by
  have hfrom : ∀ (l : List ℕ) (start : Option ℕ) (fuel res : ℕ), l.length < fuel →
      Leads (·.next) s.nodes start l none → s.sizeFrom fuel start res = some (res + l.length) := by
    intro l
    induction l with
    | nil =>
      rintro _ fuel res hfuel rfl
      obtain ⟨fuel, rfl⟩ := Nat.exists_eq_add_of_lt hfuel
      rfl
    | cons q l ih =>
      rintro _ fuel res hfuel ⟨rfl, node, hnode, hl⟩
      obtain ⟨fuel, rfl⟩ : ∃ n, fuel = n + 1 := Nat.exists_eq_succ_of_ne_zero (by omega)
      rw [sizeFrom, hnode, Option.bind_eq_bind, Option.bind_some,
        ih _ fuel (res + 1) (Nat.lt_of_succ_lt_succ hfuel) hl, List.length_cons]
      congr 1
      omega
  rw [PltListBase.size, hfrom a.nodes s.first fuel 0 hfuel h.forward, Nat.zero_add]

end Represents

/-- The empty list, before there are any nodes. -/
def empty : PltListBase α := ⟨fun _ => none, none, none⟩

end PltListBase

namespace NodeSequence

def empty : NodeSequence α := ⟨fun _ => none, []⟩

/-- The first node in the sequence the contents of which equal a value. -/
def find? [BEq α] (a : NodeSequence α) (t : α) : Option ℕ :=
  a.nodes.find? fun p => (a.info p).any (· == t)

/-- A node is taken out of the sequence. -/
def erase (a : NodeSequence α) (p : ℕ) : NodeSequence α := { a with nodes := a.nodes.erase p }

def create (a : NodeSequence α) (p : ℕ) (t : α) : NodeSequence α :=
  { a with info := update a.info p (some t) }

def delete (a : NodeSequence α) (p : ℕ) : NodeSequence α :=
  { a with info := update a.info p none }

/-- A node is taken out of the sequence and is gone. -/
def discard (a : NodeSequence α) (p : ℕ) : NodeSequence α := (a.erase p).delete p

end NodeSequence

namespace PltList
open PltListBase
variable {s : PltListBase α} {a : NodeSequence α} {p : ℕ}

theorem addFirst_represents (h : s.Represents a) (hfresh : a.info p = none) (t : α) :
    ∃ s', addFirst s (some p) t = some (s', true) ∧
      s'.Represents { a.create p t with nodes := p :: a.nodes } := by
  obtain ⟨s', hadd, h'⟩ := (h.create hfresh t).addFirst (p := p) (by simp) (h.not_mem hfresh)
  exact ⟨s', by simp [addFirst, hadd], h'⟩

theorem addLast_represents (h : s.Represents a) (hfresh : a.info p = none) (t : α) :
    ∃ s', addLast s (some p) t = some (s', true) ∧
      s'.Represents { a.create p t with nodes := a.nodes ++ [p] } := by
  obtain ⟨s', hadd, h'⟩ := (h.create hfresh t).addLast (p := p) (by simp) (h.not_mem hfresh)
  exact ⟨s', by simp [addLast, hadd], h'⟩

theorem delete_represents (h : s.Represents (a.erase p)) (hnodup : a.nodes.Nodup) :
    (s.delete p).Represents (a.discard p) := h.delete hnodup.not_mem_erase

theorem removeFirst_represents (h : s.Represents a) (hp : a.nodes.head? = some p) :
    ∃ s' t, removeFirst s = some (s', t) ∧ a.info p = some t ∧ s'.Represents (a.discard p) := by
  obtain ⟨s', hremove, h'⟩ := h.removeFirst hp
  have hinfo := h'.info p
  have hsome := h.isSome_info (List.mem_of_mem_head? hp)
  rw [h.info, ← hinfo, isSome_infoAt, Option.isSome_iff_exists] at hsome
  obtain ⟨node, hnode⟩ := hsome
  refine ⟨s'.delete p, node.info, by simp [removeFirst, hremove, hnode], ?_,
    delete_represents h' h.nodup⟩
  rw [← hinfo, infoAt, hnode, Option.map_some]

theorem removeLast_represents (h : s.Represents a) (hp : a.nodes.getLast? = some p) :
    ∃ s' t, removeLast s = some (s', t) ∧ a.info p = some t ∧ s'.Represents (a.discard p) := by
  obtain ⟨s', hremove, h'⟩ := h.removeLast hp
  have hinfo := h'.info p
  have hsome := h.isSome_info (List.mem_of_mem_getLast? hp)
  rw [h.info, ← hinfo, isSome_infoAt, Option.isSome_iff_exists] at hsome
  obtain ⟨node, hnode⟩ := hsome
  refine ⟨s'.delete p, node.info, by simp [removeLast, hremove, hnode], ?_,
    delete_represents h' h.nodup⟩
  rw [← hinfo, infoAt, hnode, Option.map_some]

variable [BEq α]

/-- The loop of `remove` ends at the first node it looks for, or behind the last node. -/
theorem removeFrom_eq (h : s.Represents a) (t : α) {l : List ℕ} {start : Option ℕ} {fuel : ℕ}
    (hl : Leads (·.next) s.nodes start l none) (hfuel : l.length < fuel) :
    removeFrom s t fuel start = match l.find? fun p => (a.info p).any (· == t) with
      | none => some (s, false)
      | some p => (s.remove p).map fun s' => (s'.delete p, true) := by
  induction l generalizing start fuel with
  | nil =>
    obtain ⟨fuel, rfl⟩ := Nat.exists_eq_add_of_lt hfuel
    obtain rfl : start = none := hl
    rfl
  | cons q l ih =>
    obtain ⟨rfl, node, hnode, hl⟩ := hl
    obtain ⟨fuel, rfl⟩ : ∃ n, fuel = n + 1 := Nat.exists_eq_succ_of_ne_zero (by omega)
    have hinfo : a.info q = some node.info := by rw [← h.info, infoAt, hnode, Option.map_some]
    rw [removeFrom, hnode, Option.bind_eq_bind, Option.bind_some, List.find?_cons, hinfo,
      Option.any_some]
    cases hfound : node.info == t with
    | true =>
      simp only [if_true]
      cases s.remove q <;> rfl
    | false =>
      simp only [Bool.false_eq_true, if_false]
      exact ih hl (Nat.lt_of_succ_lt_succ hfuel)

theorem remove_represents (h : s.Represents a) (t : α) {fuel : ℕ} (hfuel : a.nodes.length < fuel) :
    ∃ s', remove s fuel t = some (s', (a.find? t).isSome) ∧
      s'.Represents ((a.find? t).elim a a.discard) := by
  unfold remove
  rw [removeFrom_eq h t h.forward hfuel]
  change ∃ s', (match a.find? t with
    | none => some (s, false)
    | some p => (s.remove p).map fun s' : PltListBase α => (s'.delete p, true)) = _ ∧ _
  cases hfind : a.find? t with
  | none => exact ⟨s, rfl, h⟩
  | some p =>
    obtain ⟨s', hremove, h'⟩ := h.remove (List.mem_of_find?_eq_some hfind)
    dsimp only
    rw [hremove]
    exact ⟨s'.delete p, rfl, delete_represents h' h.nodup⟩

end PltList

/-- What is done with a list. The nodes of an intrusive list are its users'; the other lists make a
node for each element and delete it with the element. -/
inductive ListOperation (α : Type)
  | create (p : ℕ) (t : α)
  | delete (p : ℕ)
  | addFirst (p : ℕ)
  | addLast (p : ℕ)
  | remove (p : ℕ)
  | removeFirst
  | removeLast
  | insertFirst (p : Option ℕ) (t : α)
  | insertLast (p : Option ℕ) (t : α)
  | takeFirst
  | takeLast
  | removeValue (t : α)

variable [BEq α]

/-- Loops over the nodes end within so many rounds. -/
def PltListBase.perform (fuel : ℕ) (s : PltListBase α) : ListOperation α → Option (PltListBase α)
  | .create p t => some (s.create p t)
  | .delete p => some (s.delete p)
  | .addFirst p => s.addFirst p
  | .addLast p => s.addLast p
  | .remove p => s.remove p
  | .removeFirst => s.removeFirst.map (·.1)
  | .removeLast => s.removeLast.map (·.1)
  | .insertFirst p t => (PltList.addFirst s p t).map (·.1)
  | .insertLast p t => (PltList.addLast s p t).map (·.1)
  | .takeFirst => (PltList.removeFirst s).map (·.1)
  | .takeLast => (PltList.removeLast s).map (·.1)
  | .removeValue t => (PltList.remove s fuel t).map (·.1)

namespace NodeSequence

/-- The same operations on a sequence. -/
def step (a : NodeSequence α) : ListOperation α → NodeSequence α
  | .create p t => a.create p t
  | .delete p => a.delete p
  | .addFirst p => { a with nodes := p :: a.nodes }
  | .addLast p => { a with nodes := a.nodes ++ [p] }
  | .remove p => a.erase p
  | .removeFirst => a.nodes.head?.elim a a.erase
  | .removeLast => a.nodes.getLast?.elim a a.erase
  | .insertFirst p t => p.elim a fun p => { a.create p t with nodes := p :: a.nodes }
  | .insertLast p t => p.elim a fun p => { a.create p t with nodes := a.nodes ++ [p] }
  | .takeFirst => a.nodes.head?.elim a a.discard
  | .takeLast => a.nodes.getLast?.elim a a.discard
  | .removeValue t => (a.find? t).elim a a.discard

/-- Nodes are made where there is none, added while they are not in the list, and removed or taken
from a list that has them; what is in the list is not deleted. -/
def Admits (a : NodeSequence α) : ListOperation α → Prop
  | .create p _ => a.info p = none
  | .delete p => p ∉ a.nodes
  | .addFirst p | .addLast p => (a.info p).isSome ∧ p ∉ a.nodes
  | .remove p => p ∈ a.nodes
  | .insertFirst p _ | .insertLast p _ => ∀ q ∈ p, a.info q = none
  | .removeFirst | .removeLast | .takeFirst | .takeLast => a.nodes ≠ []
  | .removeValue _ => True

theorem length_step_le (a : NodeSequence α) (op : ListOperation α) :
    (a.step op).nodes.length ≤ a.nodes.length + 1 := by
  have herase : ∀ p : Option ℕ, (p.elim a a.erase).nodes.length ≤ a.nodes.length + 1 := by
    intro p
    cases p with
    | none => exact Nat.le_succ _
    | some p => exact Nat.le_succ_of_le List.length_erase_le
  have hdiscard : ∀ p : Option ℕ, (p.elim a a.discard).nodes.length ≤ a.nodes.length + 1 := by
    intro p
    cases p with
    | none => exact Nat.le_succ _
    | some p => exact Nat.le_succ_of_le List.length_erase_le
  cases op with
  | create | delete | addFirst | addLast => simp [step, create, delete]
  | remove p => exact herase (some p)
  | removeFirst | removeLast => exact herase _
  | insertFirst p | insertLast p => cases p <;> simp [step]
  | takeFirst | takeLast => exact hdiscard _
  | removeValue t => exact hdiscard _

end NodeSequence

namespace PltListBase
variable {s : PltListBase α} {a : NodeSequence α}

/-- Each operation does to the list what it does to the sequence. -/
theorem Represents.perform (h : s.Represents a) {op : ListOperation α} (hop : a.Admits op)
    {fuel : ℕ} (hfuel : a.nodes.length < fuel) :
    ∃ s', s.perform fuel op = some s' ∧ s'.Represents (a.step op) := by
  cases op with
  | create p t => exact ⟨_, rfl, h.create hop t⟩
  | delete p => exact ⟨_, rfl, h.delete hop⟩
  | addFirst p => exact h.addFirst hop.1 hop.2
  | addLast p => exact h.addLast hop.1 hop.2
  | remove p => exact h.remove hop
  | removeFirst =>
    obtain ⟨p, hp⟩ := Option.isSome_iff_exists.mp (List.isSome_head?.mpr hop)
    obtain ⟨s', hremove, h'⟩ := h.removeFirst hp
    refine ⟨s', by rw [PltListBase.perform, hremove, Option.map_some], ?_⟩
    rw [NodeSequence.step, hp]
    exact h'
  | removeLast =>
    obtain ⟨p, hp⟩ := Option.isSome_iff_exists.mp (List.getLast?_isSome.mpr hop)
    obtain ⟨s', hremove, h'⟩ := h.removeLast hp
    refine ⟨s', by rw [PltListBase.perform, hremove, Option.map_some], ?_⟩
    rw [NodeSequence.step, hp]
    exact h'
  | insertFirst p t =>
    cases p with
    | none => exact ⟨s, rfl, h⟩
    | some p =>
      obtain ⟨s', hadd, h'⟩ := PltList.addFirst_represents h (hop p rfl) t
      exact ⟨s', by rw [PltListBase.perform, hadd, Option.map_some], h'⟩
  | insertLast p t =>
    cases p with
    | none => exact ⟨s, rfl, h⟩
    | some p =>
      obtain ⟨s', hadd, h'⟩ := PltList.addLast_represents h (hop p rfl) t
      exact ⟨s', by rw [PltListBase.perform, hadd, Option.map_some], h'⟩
  | takeFirst =>
    obtain ⟨p, hp⟩ := Option.isSome_iff_exists.mp (List.isSome_head?.mpr hop)
    obtain ⟨s', t, hremove, -, h'⟩ := PltList.removeFirst_represents h hp
    refine ⟨s', by rw [PltListBase.perform, hremove, Option.map_some], ?_⟩
    rw [NodeSequence.step, hp]
    exact h'
  | takeLast =>
    obtain ⟨p, hp⟩ := Option.isSome_iff_exists.mp (List.getLast?_isSome.mpr hop)
    obtain ⟨s', t, hremove, -, h'⟩ := PltList.removeLast_represents h hp
    refine ⟨s', by rw [PltListBase.perform, hremove, Option.map_some], ?_⟩
    rw [NodeSequence.step, hp]
    exact h'
  | removeValue t =>
    obtain ⟨s', hremove, h'⟩ := PltList.remove_represents h t hfuel
    exact ⟨s', by rw [PltListBase.perform, hremove, Option.map_some], h'⟩

theorem Represents.run {ops : List (ListOperation α)} (h : s.Represents a)
    (hops : GuardedRun.Along NodeSequence.step NodeSequence.Admits a ops) {fuel : ℕ}
    (hfuel : a.nodes.length + ops.length < fuel) :
    ∃ s', ops.foldlM (PltListBase.perform fuel) s = some s' ∧
      s'.Represents (GuardedRun.run NodeSequence.step a ops) ∧
      (GuardedRun.run NodeSequence.step a ops).nodes.length < fuel := by
  induction ops generalizing s a with
  | nil => exact ⟨s, rfl, h, hfuel⟩
  | cons op ops ih =>
    rw [List.length_cons] at hfuel
    have hlt : a.nodes.length < fuel := by omega
    obtain ⟨s', hperform, h'⟩ := h.perform hops.1 hlt
    have hlength := a.length_step_le op
    obtain ⟨t, hrun, ht⟩ := ih h' hops.2 (by omega)
    refine ⟨t, ?_, ht⟩
    rw [List.foldlM_cons, hperform]
    exact hrun

omit [BEq α] in
theorem empty_represents : (empty : PltListBase α).Represents NodeSequence.empty :=
  ⟨fun _ => rfl, rfl, rfl, List.nodup_nil⟩

/-- Whatever is done with a list from the beginning, the nodes added and not removed are linked in
both directions in the order of the operations, and they are as many as `size` tells. -/
theorem perform_sequence {ops : List (ListOperation α)}
    (hops : GuardedRun.Along NodeSequence.step NodeSequence.Admits NodeSequence.empty ops)
    {fuel : ℕ} (hfuel : ops.length < fuel) :
    let a := GuardedRun.run NodeSequence.step NodeSequence.empty ops
    ∃ s : PltListBase α, ops.foldlM (PltListBase.perform fuel) empty = some s ∧
      Leads (·.next) s.nodes s.first a.nodes none ∧
      Leads (·.prev) s.nodes s.last a.nodes.reverse none ∧
      s.size fuel = some a.nodes.length := by
  have hstart : (NodeSequence.empty : NodeSequence α).nodes.length + ops.length < fuel := by
    simpa [NodeSequence.empty] using hfuel
  obtain ⟨s, hrun, h, hlength⟩ := empty_represents.run hops hstart
  exact ⟨s, hrun, h.forward, h.backward, h.size hlength⟩

/-- Two elements equal to the one that is removed, and an intrusive node between them. -/
theorem perform_sequence_values :
    let ops := [.insertLast (some 1) 7, .create 2 8, .addFirst 2, .insertFirst (some 3) 7,
      .removeValue 7, .removeLast, .addLast 1]
    let a := GuardedRun.run NodeSequence.step NodeSequence.empty ops
    a.nodes = [2, 1] ∧
    ∃ s : PltListBase ℕ, ops.foldlM (PltListBase.perform 8) empty = some s ∧
      Leads (·.next) s.nodes s.first a.nodes none ∧
      Leads (·.prev) s.nodes s.last a.nodes.reverse none ∧
      s.size 8 = some a.nodes.length := by
  refine ⟨by decide, perform_sequence ?_ (by decide)⟩
  simp [GuardedRun.Along, NodeSequence.Admits, NodeSequence.step, NodeSequence.empty,
    NodeSequence.create, NodeSequence.find?, NodeSequence.discard, NodeSequence.erase,
    NodeSequence.delete, update_apply]

end PltListBase

end AcpltKs
