import Mathlib.Logic.Function.Basic
import Mathlib.Data.List.Basic

/-! Nodes in a heap that are linked by pointers to the next one. -/
namespace NodeLists
open Function

variable {ν : Type*} (next : ν → Option ℕ)

/-- From `start`, the pointers lead through exactly these nodes to `stop`. -/
def Leads (heap : ℕ → Option ν) : Option ℕ → List ℕ → Option ℕ → Prop
  | start, [], stop => start = stop
  | start, a :: l, stop => start = some a ∧ ∃ node, heap a = some node ∧
      Leads heap (next node) l stop

variable {next} {heap heap' : ℕ → Option ν} {start stop : Option ℕ} {a : ℕ} {l l' : List ℕ}

theorem leads_append : Leads next heap start (l ++ l') stop ↔
    ∃ mid, Leads next heap start l mid ∧ Leads next heap mid l' stop := by
  induction l generalizing start with
  | nil =>
    constructor
    · exact fun h => ⟨start, rfl, h⟩
    · rintro ⟨mid, rfl, h⟩
      exact h
  | cons b l ih =>
    constructor
    · rintro ⟨rfl, node, hnode, h⟩
      obtain ⟨mid, hl, hl'⟩ := ih.mp h
      exact ⟨mid, ⟨rfl, node, hnode, hl⟩, hl'⟩
    · rintro ⟨mid, ⟨rfl, node, hnode, hl⟩, hl'⟩
      exact ⟨rfl, node, hnode, ih.mpr ⟨mid, hl, hl'⟩⟩

theorem leads_singleton : Leads next heap start [a] stop ↔
    start = some a ∧ ∃ node, heap a = some node ∧ next node = stop := Iff.rfl

/-- Where the pointers lead to depends on the nodes on the way only. -/
theorem Leads.congr (h : Leads next heap start l stop) (hsame : ∀ a ∈ l, heap' a = heap a) :
    Leads next heap' start l stop := by
  induction l generalizing start with
  | nil => exact h
  | cons b l ih =>
    obtain ⟨rfl, node, hnode, h⟩ := h
    refine ⟨rfl, node, (hsame b List.mem_cons_self).trans hnode, ih h fun a ha => ?_⟩
    exact hsame a (List.mem_cons_of_mem b ha)

theorem Leads.update (h : Leads next heap start l stop) (ha : a ∉ l) (node : Option ν) :
    Leads next (update heap a node) start l stop :=
  h.congr fun b hb => update_of_ne (fun heq : b = a => ha (heq ▸ hb)) ..

theorem Leads.start_eq (h : Leads next heap start l none) : start = l.head? := by
  cases l with
  | nil => exact h
  | cons b l => exact h.1

/-- The last node of a list leads to its end. -/
theorem Leads.last (h : Leads next heap start l stop) (ha : l.getLast? = some a) :
    ∃ node, heap a = some node ∧ next node = stop := by
  obtain ⟨front, rfl⟩ := List.getLast?_eq_some_iff.mp ha
  obtain ⟨mid, -, hlast⟩ := leads_append.mp h
  exact (leads_singleton.mp hlast).2

/-- Only the pointers of the nodes on the way matter. -/
theorem Leads.of_links {μ : Type*} {next' : μ → Option ℕ} {heap' : ℕ → Option μ}
    (h : Leads next heap start l stop)
    (hsame : ∀ a ∈ l, (heap' a).map next' = (heap a).map next) :
    Leads next' heap' start l stop := by
  induction l generalizing start with
  | nil => exact h
  | cons b l ih =>
    obtain ⟨rfl, node, hnode, h⟩ := h
    have hb := hsame b List.mem_cons_self
    rw [hnode, Option.map_some, Option.map_eq_some_iff] at hb
    obtain ⟨node', hnode', hnext⟩ := hb
    refine ⟨rfl, node', hnode', ?_⟩
    rw [hnext]
    apply ih h
    intro a ha
    exact hsame a (List.mem_cons_of_mem b ha)

/-- A node in front of the list. -/
theorem Leads.cons (h : Leads next heap start l stop) (hnext : (heap a).map next = some start) :
    Leads next heap (some a) (a :: l) stop := by
  obtain ⟨node, hnode, rfl⟩ := Option.map_eq_some_iff.mp hnext
  exact ⟨rfl, node, hnode, h⟩

/-- A node of the list, what leads to it and what it leads to. -/
theorem leads_middle : Leads next heap start (l ++ a :: l') stop ↔
    Leads next heap start l (some a) ∧ ∃ node, heap a = some node ∧
      Leads next heap (next node) l' stop := by
  constructor
  · intro h
    obtain ⟨mid, hl, rfl, node, hnode, hl'⟩ := leads_append.mp h
    exact ⟨hl, node, hnode, hl'⟩
  · rintro ⟨hl, node, hnode, hl'⟩
    exact leads_append.mpr ⟨some a, hl, rfl, node, hnode, hl'⟩

theorem Leads.isSome (h : Leads next heap start l stop) (ha : a ∈ l) : (heap a).isSome := by
  obtain ⟨l₁, l₂, rfl⟩ := List.append_of_mem ha
  obtain ⟨-, node, hnode, -⟩ := leads_middle.mp h
  rw [hnode]
  rfl

section
variable {μ : Type*} {next' : μ → Option ℕ} {heap' : ℕ → Option μ}

/-- The last node on the way, if there is one, is made to point elsewhere. -/
theorem Leads.redirect {stop' : Option ℕ} (h : Leads next heap start l stop)
    (hsame : ∀ b ∈ l, l.getLast? ≠ some b → (heap' b).map next' = (heap b).map next)
    (hnodup : l.Nodup) (hlast : ∀ b ∈ l.getLast?, (heap' b).map next' = some stop') :
    Leads next' heap' (if l.isEmpty then stop' else start) l stop' := by
  obtain rfl | ⟨front, b, rfl⟩ := List.eq_nil_or_concat l
  · rw [List.isEmpty_nil, if_pos rfl]
    rfl
  rw [List.concat_eq_append] at h hsame hnodup hlast ⊢
  have hb := hlast b (by simp)
  obtain ⟨node, hnode, hnext⟩ := Option.map_eq_some_iff.mp hb
  obtain ⟨mid, hfront, rfl, -⟩ := leads_append.mp h
  have hstart : (if (front ++ [b]).isEmpty then stop' else start) = start := by simp
  rw [hstart]
  refine leads_append.mpr ⟨some b, hfront.of_links ?_, rfl, node, hnode, hnext⟩
  intro c hc
  apply hsame c (List.mem_append_left _ hc)
  intro heq
  have hcb : b = c := by simpa using heq
  exact (List.nodup_append.mp hnodup).2.2 c hc b (by simp) hcb.symm

/-- A node behind the list. -/
theorem Leads.snoc (h : Leads next heap start l none) (hnodup : l.Nodup)
    (hsame : ∀ b ∈ l, l.getLast? ≠ some b → (heap' b).map next' = (heap b).map next)
    (hlast : ∀ b ∈ l.getLast?, (heap' b).map next' = some (some a))
    (hnew : (heap' a).map next' = some none) :
    Leads next' heap' (if l.isEmpty then some a else start) (l ++ [a]) none := by
  refine leads_append.mpr ⟨some a, h.redirect hsame hnodup hlast, ?_⟩
  exact Leads.cons rfl hnew

/-- A node is left out. -/
theorem Leads.leave {succ : Option ℕ} (h : Leads next heap start (l ++ a :: l') stop)
    (hnodup : l.Nodup) (hsucc : (heap a).map next = some succ)
    (hsame : ∀ b ∈ l ++ l', l.getLast? ≠ some b → (heap' b).map next' = (heap b).map next)
    (hlast : ∀ b ∈ l.getLast?, (heap' b).map next' = some succ)
    (hapart : ∀ b ∈ l', l.getLast? ≠ some b) :
    Leads next' heap' (if l.isEmpty then succ else start) (l ++ l') stop := by
  obtain ⟨hl, node, hnode, hl'⟩ := leads_middle.mp h
  rw [hnode, Option.map_some, Option.some_inj] at hsucc
  subst hsucc
  refine leads_append.mpr ⟨next node, hl.redirect ?_ hnodup hlast, hl'.of_links ?_⟩
  · intro b hb
    exact hsame b (List.mem_append_left _ hb)
  · intro b hb
    exact hsame b (List.mem_append_right _ hb) (hapart b hb)

end

end NodeLists
