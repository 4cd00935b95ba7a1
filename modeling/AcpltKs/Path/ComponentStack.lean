import Mathlib.Algebra.Order.Ring.Nat
import AcpltKs.Library.LevelMoves
import AcpltKs.Path.Resolving

/-! The stack of components in the resolution of a path: when it is a proper list, and when all its
nodes are freed. -/
namespace AcpltKs
open Function LevelMoves NodeLists

/-- A component of the path to be resolved. -/
structure PathPiece where
  p : ℕ
  len : ℕ
  joinWithPrevious : Bool
  deriving DecidableEq

def KscPPComponent.piece (c : KscPPComponent) : PathPiece := ⟨c.p, c.len, c.joinWithPrevious⟩

/-- The components on the stack, from the bottom to the top; older ones have smaller addresses. The
pointer of the last one, which is never repaired when one is taken off, leads to `stop`. -/
structure ResolveState.Stacked (s : ResolveState) (l : List ℕ) (stop : Option ℕ) : Prop where
  sorted : l.Pairwise (· < ·)
  live : ∀ a, a ∈ l ↔ (s.nodes a).isSome = true
  leads : Leads KscPPComponent.next s.nodes s.stackBottom l stop
  top : s.stackTop = l.getLast?
  prev : ∀ front a back, l = front ++ a :: back →
    ∃ c, s.nodes a = some c ∧ c.prev = front.getLast?
  lt_next : ∀ a ∈ l, a < s.next
  stop_deleted : ∀ a ∈ stop, s.nodes a = none
  stop_of_nil : l = [] → stop = none

/-- From the bottom, the pointers lead through the components that have been pushed and not popped,
in this order, to the top. -/
def ResolveState.ProperList (s : ResolveState) : Prop :=
  ∃ l : List ℕ, l.Pairwise (· < ·) ∧ (∀ a, a ∈ l ↔ (s.nodes a).isSome = true) ∧
    Leads KscPPComponent.next s.nodes s.stackBottom l none ∧ s.stackTop = l.getLast?

/-- The states of the loop after each component. -/
inductive Scanned (str : KsString) (room : ℕ → Bool) (keepComponents : ℕ) : ResolveState → Prop
  | start : Scanned str room keepComponents (.start keepComponents)
  | next {s s' : ResolveState} : Scanned str room keepComponents s → charAt str s.cursor.p ≠ 0 →
      scanComponent str room s = some (.ok s') → Scanned str room keepComponents s'

/-- The stack is a proper list after each component, and in the end all nodes have been freed, none of
them being used afterwards. -/
structure KeepsStack (str : KsString) (room : ℕ → Bool) (keepComponents : ℕ) : Prop where
  proper : ∀ s, Scanned str room keepComponents s → s.ProperList
  freed : ∃ outcome, scan str room (str.length + 1) (.start keepComponents) = some outcome ∧
    match outcome with
    | .error s => ∀ a, s.nodes a = none
    | .ok s => ∀ keep final, ∃ final' nodes,
        addComponents str (s.next + 1) keep s.stackBottom s.nodes final = some (final', nodes) ∧
          ∀ a, nodes a = none

namespace PathReading

/-- The number of names. -/
def names (readings : List PathReading) : ℕ :=
  readings.countP fun
    | .name .. => true
    | _ => false

/-- The number of names that no `..` has taken back. -/
def depth (readings : List PathReading) : ℕ :=
  readings.foldl (fun d reading =>
    match reading with
    | .stay => d
    | .up => d - 1
    | .name .. => d + 1) 0

end PathReading

/-- The components of a path up to some place, as far as there is room for them. -/
inductive ReadTo (str : KsString) (room : ℕ → Bool) : List PathReading → PathCursor → Prop
  | start : ReadTo str room [] ⟨0, 0, true, false⟩
  | next {readings : List PathReading} {cursor cursor' : PathCursor} {reading : PathReading} :
      ReadTo str room readings cursor → charAt str cursor.p ≠ 0 →
      readComponent str cursor = some (reading, cursor') →
      (∀ p len joinWithPrevious, reading = .name p len joinWithPrevious →
        room (PathReading.names readings) = true) →
      ReadTo str room (readings ++ [reading]) cursor'

/-- The path is invalid here, or there is no memory for the next name. -/
def Stops (str : KsString) (room : ℕ → Bool) (readings : List PathReading) (cursor : PathCursor) :
    Prop :=
  charAt str cursor.p ≠ 0 ∧ (readComponent str cursor = none ∨
    ∃ p len joinWithPrevious cursor', readComponent str cursor =
      some (.name p len joinWithPrevious, cursor') ∧ room (PathReading.names readings) = false)

/-- No `..` takes back a name that follows another one, and if the path is given up, there is no name
left. -/
structure StackSafe (str : KsString) (room : ℕ → Bool) : Prop where
  up : ∀ readings cursor cursor', ReadTo str room readings cursor → charAt str cursor.p ≠ 0 →
    readComponent str cursor = some (.up, cursor') → PathReading.depth readings ≤ 1
  stop : ∀ readings cursor, ReadTo str room readings cursor → Stops str room readings cursor →
    PathReading.depth readings = 0

/-- Nodes that hold these components, and no others. -/
structure Holds (nodes : ℕ → Option KscPPComponent) (start : Option ℕ) (l : List ℕ)
    (stop : Option ℕ) (pieces : List PathPiece) : Prop where
  leads : Leads KscPPComponent.next nodes start l stop
  nodup : l.Nodup
  live : ∀ a, a ∈ l ↔ (nodes a).isSome = true
  pieces : (l.map fun a => (nodes a).map KscPPComponent.piece) = pieces.map some

/-- What the components add to a path. -/
def buildComponents (str : KsString) (keepComponents : ℕ) : List PathPiece → KsString
  | [] => []
  | c :: pieces =>
      leadingSlash keepComponents (charAt str c.p) ++
        (str.drop c.p).take (c.len + ((pieces.takeWhile (·.joinWithPrevious)).map (·.len)).sum) ++
        buildComponents str (max keepComponents 1) (pieces.dropWhile (·.joinWithPrevious))
termination_by pieces => pieces.length
decreasing_by exact Nat.lt_succ_of_le (List.length_dropWhile_le ..)

section Building
variable {nodes : ℕ → Option KscPPComponent} {start stop : Option ℕ} {a : ℕ} {l : List ℕ}
  {c : PathPiece} {pieces : List PathPiece}

theorem Holds.first (h : Holds nodes start (a :: l) stop (c :: pieces)) :
    start = some a ∧ ∃ node, nodes a = some node ∧ node.piece = c :=
  ⟨h.leads.1, Option.map_eq_some_iff.mp (List.cons.inj h.pieces).1⟩

/-- The first node is freed. -/
theorem Holds.tail (h : Holds nodes start (a :: l) stop (c :: pieces)) {node : KscPPComponent}
    (hnode : nodes a = some node) : Holds (update nodes a none) node.next l stop pieces := by
  obtain ⟨hnot, hnodup⟩ := List.nodup_cons.mp h.nodup
  obtain ⟨-, node', hnode', hleads⟩ := h.leads
  obtain rfl := Option.some.inj (hnode.symm.trans hnode')
  refine ⟨hleads.update hnot none, hnodup, fun b => ?_, ?_⟩
  · by_cases hb : b = a
    · simp [hb, hnot]
    · rw [update_of_ne hb, ← h.live, List.mem_cons, or_iff_right hb]
  · refine Eq.trans (List.map_congr_left fun b hb => ?_) (List.cons.inj h.pieces).2
    rw [update_of_ne fun heq : b = a => hnot (heq ▸ hb)]

theorem Holds.length_eq (h : Holds nodes start l stop pieces) : l.length = pieces.length := by
  simpa using congrArg List.length h.pieces

theorem Holds.nodes_eq_none (h : Holds nodes start [] stop pieces) : nodes = fun _ => none := by
  funext a
  rw [← Option.not_isSome_iff_eq_none, ← h.live]
  exact List.not_mem_nil

/-- The components that follow those before are freed as well, unless a deleted one is used. -/
theorem Holds.swallow (h : Holds nodes start l stop pieces) (hstop : ∀ a ∈ stop, nodes a = none)
    {fuel : ℕ} (hfuel : l.length < fuel) (len : ℕ) :
    (AcpltKs.swallow fuel start nodes len = none ∧ stop.isSome = true) ∨
    ∃ start' nodes' l', AcpltKs.swallow fuel start nodes len = some (start', nodes',
        len + ((pieces.takeWhile (·.joinWithPrevious)).map (·.len)).sum) ∧
      Holds nodes' start' l' stop (pieces.dropWhile (·.joinWithPrevious)) ∧
      (∀ a ∈ stop, nodes' a = none) ∧ (stop.isSome = true → l' ≠ []) ∧ l'.length ≤ l.length := by
  induction pieces generalizing nodes start l fuel len with
  | nil =>
    obtain rfl := List.length_eq_zero_iff.mp h.length_eq
    obtain ⟨fuel, rfl⟩ := Nat.exists_eq_succ_of_ne_zero (Nat.ne_of_gt (Nat.zero_lt_of_lt hfuel))
    obtain rfl : start = stop := h.leads
    cases start with
    | none => exact Or.inr ⟨none, nodes, [], rfl, h, hstop, by simp, le_rfl⟩
    | some a =>
      refine Or.inl ⟨?_, rfl⟩
      rw [AcpltKs.swallow, hstop a rfl]
      rfl
  | cons c pieces ih =>
    obtain _ | ⟨a, l⟩ := l
    · exact absurd h.length_eq (by simp)
    obtain ⟨fuel, rfl⟩ := Nat.exists_eq_succ_of_ne_zero (Nat.ne_of_gt (Nat.zero_lt_of_lt hfuel))
    obtain ⟨rfl, node, ha, rfl⟩ := h.first
    rw [AcpltKs.swallow, ha, Option.bind_eq_bind, Option.bind_some]
    by_cases hjoin : node.joinWithPrevious = true
    · have hstop' : ∀ b ∈ stop, update nodes a none b = none := by
        intro b hb
        by_cases hba : b = a
        · rw [hba, update_self]
        · rw [update_of_ne hba, hstop b hb]
      have hpiece : node.piece.joinWithPrevious = true := hjoin
      obtain ⟨hnone, hsome⟩ | ⟨start', nodes', l', heq, hholds, hstop'', hne, hlength⟩ :=
        ih (h.tail ha) hstop' (Nat.succ_lt_succ_iff.mp hfuel) (len + node.len)
      · exact Or.inl ⟨by rw [if_pos hjoin, hnone], hsome⟩
      · refine Or.inr ⟨start', nodes', l', ?_, ?_, hstop'', hne, hlength.trans (Nat.le_succ _)⟩
        · rw [if_pos hjoin, heq, List.takeWhile_cons_of_pos hpiece, List.map_cons, List.sum_cons,
            ← Nat.add_assoc]
          rfl
        · rwa [List.dropWhile_cons_of_pos hpiece]
    · have hpiece : ¬ node.piece.joinWithPrevious = true := hjoin
      refine Or.inr ⟨some a, nodes, a :: l, ?_, ?_, hstop, by simp, le_rfl⟩
      · rw [if_neg hjoin, List.takeWhile_cons_of_neg hpiece, List.map_nil, List.sum_nil, Nat.add_zero]
      · rwa [List.dropWhile_cons_of_neg hpiece]

/-- All components are added to the path and freed, if the last one does not lead to one that has been
deleted. -/
theorem Holds.addComponents (h : Holds nodes start l stop pieces)
    (hstop : ∀ a ∈ stop, nodes a = none) (hne : stop.isSome = true → l ≠ []) (str : KsString)
    {fuel : ℕ} (hfuel : l.length < fuel) (keepComponents : ℕ) (final : KsString) :
    AcpltKs.addComponents str fuel keepComponents start nodes final =
      if stop.isSome then none
      else some (final ++ buildComponents str keepComponents pieces, fun _ => none) := by
  induction fuel generalizing nodes start l pieces keepComponents final with
  | zero => exact absurd hfuel (Nat.not_lt_zero _)
  | succ fuel ih =>
    obtain _ | ⟨a, l⟩ := l
    · obtain rfl := List.length_eq_zero_iff.mp h.length_eq.symm
      have hsome : ¬ stop.isSome = true := fun hsome => hne hsome rfl
      obtain rfl : start = none := h.leads.trans (Option.not_isSome_iff_eq_none.mp hsome)
      rw [if_neg hsome, AcpltKs.addComponents, buildComponents, List.append_nil, h.nodes_eq_none]
    obtain _ | ⟨c, pieces⟩ := pieces
    · exact absurd h.length_eq (by simp)
    obtain ⟨rfl, node, ha, rfl⟩ := h.first
    have hlt : l.length < fuel := Nat.succ_lt_succ_iff.mp hfuel
    have hstop' : ∀ b ∈ stop, update nodes a none b = none := by
      intro b hb
      by_cases hba : b = a
      · rw [hba, update_self]
      · rw [update_of_ne hba, hstop b hb]
    rw [AcpltKs.addComponents, ha, Option.bind_eq_bind, Option.bind_some]
    obtain ⟨hnone, hsome⟩ | ⟨start', nodes', l', heq, hholds, hstop'', hne', hlength⟩ :=
      (h.tail ha).swallow hstop' (Nat.lt_succ_of_lt hlt) node.len
    · rw [hnone, if_pos hsome]
      rfl
    · rw [heq, Option.bind_eq_bind, Option.bind_some]
      dsimp only
      rw [ih hholds hstop'' hne' (hlength.trans_lt hlt), buildComponents]
      simp only [List.append_assoc]
      rfl

end Building

namespace ResolveState
variable {s : ResolveState} {l front : List ℕ} {stop : Option ℕ} {a : ℕ}

/-- Only the list itself and its ends matter. -/
theorem Stacked.congr (h : s.Stacked l stop) {s' : ResolveState} (hnodes : s'.nodes = s.nodes)
    (hbottom : s'.stackBottom = s.stackBottom) (htop : s'.stackTop = s.stackTop)
    (hnext : s'.next = s.next) : s'.Stacked l stop where
  sorted := h.sorted
  live := by rw [hnodes]; exact h.live
  leads := by rw [hnodes, hbottom]; exact h.leads
  top := htop.trans h.top
  prev := by rw [hnodes]; exact h.prev
  lt_next := by rw [hnext]; exact h.lt_next
  stop_deleted := by rw [hnodes]; exact h.stop_deleted
  stop_of_nil := h.stop_of_nil

/-- The stack is a proper list unless its last pointer leads to a component that has been deleted. -/
theorem Stacked.properList_iff (h : s.Stacked l stop) : s.ProperList ↔ stop = none := by
  constructor
  · rintro ⟨l', -, -, hleads, htop⟩
    cases hlast : l.getLast? with
    | none => exact h.stop_of_nil (List.getLast?_eq_none_iff.mp hlast)
    | some a =>
      obtain ⟨node, hnode, rfl⟩ := h.leads.last hlast
      obtain ⟨node', hnode', hnone⟩ := hleads.last (htop.symm.trans (h.top.trans hlast))
      obtain rfl := Option.some.inj (hnode.symm.trans hnode')
      exact hnone
  · rintro rfl
    exact ⟨l, h.sorted, h.live, h.leads, h.top⟩

theorem start_stacked (keepComponents : ℕ) : (start keepComponents).Stacked [] none where
  sorted := List.Pairwise.nil
  live := by simp [start]
  leads := rfl
  top := rfl
  prev := by simp
  lt_next := by simp
  stop_deleted := by simp
  stop_of_nil := fun _ => rfl

theorem Stacked.nodup (h : s.Stacked l stop) : l.Nodup :=
  h.sorted.imp fun hlt => Nat.ne_of_lt hlt

theorem Stacked.length_le (h : s.Stacked l stop) : l.length ≤ s.next := by
  have hsubset : l ⊆ List.range s.next := fun a ha => List.mem_range.mpr (h.lt_next a ha)
  simpa using (List.subperm_of_subset h.nodup hsubset).length_le

theorem Stacked.eq_nil_of_none (h : s.Stacked l stop) (hnone : ∀ a, s.nodes a = none) : l = [] := by
  refine List.eq_nil_iff_forall_not_mem.mpr fun a ha => ?_
  have hsome := (h.live a).mp ha
  rw [hnone a] at hsome
  exact absurd hsome (by simp)

/-- An empty stack. -/
theorem Stacked.pop_nil (h : s.Stacked [] stop) :
    s.pop = some { s with keepComponents := s.keepComponents - 1 } := by
  have htop : s.stackTop = none := h.top
  rw [pop, htop]

/-- A component is taken off the stack. The one below is left with a pointer to it. -/
theorem Stacked.pop (h : s.Stacked (front ++ [a]) stop) :
    ∃ s', s.pop = some s' ∧ s'.Stacked front (if front = [] then none else some a) ∧
      s'.nodes = update s.nodes a none ∧ s'.next = s.next ∧
      s'.keepComponents = s.keepComponents := by
  have htop : s.stackTop = some a := by
    rw [h.top, List.getLast?_concat]
  obtain ⟨c, hc, hprev⟩ := h.prev front a [] rfl
  obtain ⟨hfront, -, hlt⟩ := List.pairwise_append.mp h.sorted
  have hnot : a ∉ front := fun ha => lt_irrefl a (hlt a ha a List.mem_cons_self)
  obtain ⟨mid, hleads, rfl, -⟩ := leads_append.mp h.leads
  refine ⟨{ s with
      stackTop := c.prev
      stackBottom := if c.prev = none then none else s.stackBottom
      nodes := update s.nodes a none }, ?_, ?_, rfl, rfl, rfl⟩
  · rw [ResolveState.pop, htop]
    simp [hc]
  refine ⟨hfront, fun b => ?_, ?_, hprev, fun front' b back heq => ?_, fun b hb => ?_,
    fun b hb => ?_, fun hnil => if_pos hnil⟩
  · by_cases hb : b = a
    · simp [hb, hnot]
    · simp only [update_of_ne hb, ← h.live, List.mem_append, List.mem_singleton, hb, or_false]
  · by_cases hnil : front = []
    · subst hnil
      simp only [hprev, List.getLast?_nil]
      rfl
    · rw [if_neg hnil, if_neg (by rw [hprev]; simpa using hnil)]
      exact hleads.update hnot none
  · have hba : b ≠ a := by
      rintro rfl
      exact hnot (heq ▸ by simp)
    obtain ⟨d, hd, hprev'⟩ := h.prev front' b (back ++ [a]) (by rw [heq]; simp)
    exact ⟨d, (update_of_ne hba ..).trans hd, hprev'⟩
  · exact h.lt_next b (List.mem_append_left _ hb)
  · by_cases hnil : front = []
    · rw [if_pos hnil] at hb
      exact absurd hb (by simp)
    · rw [if_neg hnil] at hb
      obtain rfl := Option.some.inj hb
      exact update_self ..

/-- A component is put on the stack. The one below is linked to it. -/
theorem Stacked.push (h : s.Stacked l stop) (p len : ℕ) (joinWithPrevious : Bool) :
    ∃ s', s.push p len joinWithPrevious = some s' ∧ s'.Stacked (l ++ [s.next]) none ∧
      (∀ b ∈ l, (s'.nodes b).map KscPPComponent.piece = (s.nodes b).map KscPPComponent.piece) ∧
      (s'.nodes s.next).map KscPPComponent.piece = some ⟨p, len, joinWithPrevious⟩ ∧
      s'.next = s.next + 1 ∧ s'.keepComponents = s.keepComponents := by
  have hnot : s.next ∉ l := fun hmem => lt_irrefl _ (h.lt_next _ hmem)
  have hsorted : (l ++ [s.next]).Pairwise (· < ·) := by
    rw [List.pairwise_append]
    refine ⟨h.sorted, List.pairwise_singleton _ _, fun a ha b hb => ?_⟩
    rw [List.mem_singleton.mp hb]
    exact h.lt_next a ha
  have hlt : ∀ a ∈ l ++ [s.next], a < s.next + 1 := by
    intro a ha
    obtain ha | ha := List.mem_append.mp ha
    · exact Nat.lt_succ_of_lt (h.lt_next a ha)
    · rw [List.mem_singleton.mp ha]
      exact Nat.lt_succ_self _
  rcases List.eq_nil_or_concat l with rfl | ⟨front, top, rfl⟩
  · have htop : s.stackTop = none := h.top
    have hbottom : s.stackBottom = none := h.leads.trans (h.stop_of_nil rfl)
    refine ⟨{ s with
      next := s.next + 1
      stackBottom := some s.next
      nodes := update s.nodes s.next (some ⟨none, none, p, len, joinWithPrevious⟩)
      stackTop := some s.next }, ?_, ⟨hsorted, fun a => ?_, ?_, rfl, ?_, hlt, by simp, by simp⟩,
      by simp, by simp [KscPPComponent.piece], rfl, rfl⟩
    · rw [ResolveState.push, htop, hbottom]
      rfl
    · by_cases ha : a = s.next
      · simp [ha]
      · simp only [update_of_ne ha, ← h.live, List.nil_append, List.mem_singleton, ha,
          List.not_mem_nil]
    · exact ⟨rfl, _, update_self .., rfl⟩
    · intro front a back heq
      obtain rfl : front = [] := by
        cases front with
        | nil => rfl
        | cons b front => exact absurd (congrArg List.length heq) (by simp)
      obtain ⟨rfl, -⟩ := List.cons.inj heq
      exact ⟨_, update_self .., rfl⟩
  · rw [List.concat_eq_append] at *
    have htop : s.stackTop = some top := by rw [h.top, List.getLast?_concat]
    obtain ⟨t, ht, -⟩ := h.leads.last (a := top) (by simp)
    have hbottom : s.stackBottom ≠ none := by
      have hleads := h.leads
      intro hnone
      rw [hnone] at hleads
      cases front with
      | nil => exact absurd hleads.1 (by simp)
      | cons b front => exact absurd hleads.1 (by simp)
    have hne : top ≠ s.next := fun heq => hnot (by rw [← heq]; simp)
    refine ⟨{ s with
      next := s.next + 1
      nodes := update (update s.nodes s.next (some ⟨some top, none, p, len, joinWithPrevious⟩)) top
        (some { t with next := some s.next })
      stackTop := some s.next }, ?_,
      ⟨hsorted, fun a => ?_, ?_, ?_, ?_, hlt, by simp, by simp⟩, fun b hb => ?_, ?_, rfl, rfl⟩
    · rw [ResolveState.push, htop]
      simp [ht, hbottom]
    · by_cases htop' : a = top
      · simp [htop']
      · by_cases ha : a = s.next
        · simp [ha, update_of_ne hne.symm]
        · simp only [update_of_ne htop', update_of_ne ha, ← h.live, List.mem_append,
            List.mem_singleton, ha, or_false]
    · obtain ⟨mid, hfront, rfl, -⟩ := leads_append.mp h.leads
      have hnodup : top ∉ front := by
        have hsorted' := h.sorted
        rw [List.pairwise_append] at hsorted'
        exact fun hmem => lt_irrefl _ (hsorted'.2.2 top hmem top List.mem_cons_self)
      have hnext : s.next ∉ front := fun hmem => hnot (List.mem_append_left _ hmem)
      have hlink := leads_append.mpr ⟨some top, (hfront.update hnext (some ⟨some top, none, p, len,
        joinWithPrevious⟩)).update hnodup (some { t with next := some s.next }),
        leads_singleton.mpr ⟨rfl, _, update_self .., rfl⟩⟩
      refine leads_append.mpr ⟨some s.next, hlink, leads_singleton.mpr ⟨rfl, _,
        (update_of_ne hne.symm ..).trans (update_self ..), rfl⟩⟩
    · simp
    · intro front' a back heq
      rcases List.eq_nil_or_concat back with rfl | ⟨back, last, rfl⟩
      · obtain ⟨rfl, hlast'⟩ := List.append_inj' heq rfl
        obtain ⟨rfl, -⟩ := List.cons.inj hlast'
        exact ⟨_, (update_of_ne hne.symm ..).trans (update_self ..), by simp⟩
      · rw [List.concat_eq_append, ← List.cons_append, ← List.append_assoc] at heq
        obtain ⟨heq, -⟩ := List.append_inj' heq rfl
        obtain ⟨c, hc, hprev⟩ := h.prev front' a back heq
        by_cases hat : a = top
        · subst hat
          obtain rfl := Option.some.inj (ht.symm.trans hc)
          exact ⟨_, update_self .., hprev⟩
        · have han : a ≠ s.next := fun han => hnot (by rw [heq, ← han]; simp)
          exact ⟨c, (update_of_ne hat ..).trans ((update_of_ne han ..).trans hc), hprev⟩
    · by_cases hbt : b = top
      · dsimp only
        rw [hbt, ht, update_self]
        rfl
      · have hbn : b ≠ s.next := fun heq => hnot (heq ▸ hb)
        dsimp only
        rw [update_of_ne hbt, update_of_ne hbn]
    · dsimp only
      rw [update_of_ne hne.symm, update_self]
      rfl

end ResolveState

section Reading
variable {str : KsString} {i : ℕ}

theorem lt_of_charAt (h : charAt str i ≠ 0) : i < str.length := by
  by_contra hle
  exact h (List.getD_eq_default _ _ (not_lt.mp hle))

theorem le_nameEnd (str : KsString) (i : ℕ) : i ≤ nameEnd str i := Nat.le_add_right ..

theorem nameEnd_le (h : i ≤ str.length) : nameEnd str i ≤ str.length := by
  have hle := (List.takeWhile_prefix (isNameChar) (l := str.drop i)).length_le
  rw [List.length_drop] at hle
  unfold nameEnd
  omega

/-- The end of a name, and the delimiter behind it, if there is one. -/
theorem behind_le (h : i ≤ str.length) : (if charAt str i ≠ 0 then i + 1 else i) ≤ str.length := by
  split
  · next hne => exact lt_of_charAt hne
  · exact h

theorem le_behind (str : KsString) (i : ℕ) : i ≤ if charAt str i ≠ 0 then i + 1 else i := by
  split <;> omega

/-- The cursor moves on, but not beyond the end. -/
theorem readComponent_progress {cursor cursor' : PathCursor} {reading : PathReading}
    (hne : charAt str cursor.p ≠ 0) (h : readComponent str cursor = some (reading, cursor')) :
    cursor.p < cursor'.p ∧ cursor'.p ≤ str.length := by
  have hlt := lt_of_charAt hne
  have hbehind : ∀ {p : ℕ}, cursor.p < p → p ≤ str.length →
      cursor.p < (if charAt str p ≠ 0 then p + 1 else p) ∧
        (if charAt str p ≠ 0 then p + 1 else p) ≤ str.length :=
    fun hp hle => ⟨hp.trans_le (le_behind _ _), behind_le hle⟩
  have hone : ∀ {j : ℕ}, charAt str j = slashChar ∨ charAt str j = dotChar → j < str.length := by
    rintro j (hj | hj) <;> exact lt_of_charAt (by rw [hj]; decide)
  rw [readComponent] at h
  split_ifs at h with hdot hslash hdots hbad hallowed hend
  · obtain ⟨-, rfl⟩ := Prod.mk.inj (Option.some.inj h)
    exact hbehind (Nat.lt_succ_self _) (hone (Or.inl hslash)).le
  · obtain ⟨-, rfl⟩ := Prod.mk.inj (Option.some.inj h)
    have := hone (Or.inr hdots)
    refine hbehind (by omega) ?_
    rw [not_and_or, not_not, not_not] at hbad
    obtain hbad | hbad := hbad
    · exact (hone (Or.inl hbad)).le
    · omega
  · obtain ⟨-, rfl⟩ := Prod.mk.inj (Option.some.inj h)
    exact hbehind (Nat.lt_of_succ_le (le_nameEnd str _)) (nameEnd_le (lt_of_charAt hend).le)
  · obtain ⟨-, rfl⟩ := Prod.mk.inj (Option.some.inj h)
    have hle := nameEnd_le hlt.le
    obtain hend | hend := (le_nameEnd str cursor.p).lt_or_eq
    · exact hbehind hend hle
    · refine ⟨?_, behind_le hle⟩
      change cursor.p < if charAt str (nameEnd str cursor.p) ≠ 0 then _ else _
      rw [← hend, if_pos hne]
      exact Nat.lt_succ_self _

end Reading

namespace PathReading
variable {readings : List PathReading} {reading : PathReading}

theorem depth_append : depth (readings ++ [reading]) =
    match reading with
    | .stay => depth readings
    | .up => depth readings - 1
    | .name .. => depth readings + 1 := by
  rw [depth, List.foldl_append]
  rfl

theorem names_append : names (readings ++ [reading]) =
    match reading with
    | .name .. => names readings + 1
    | _ => names readings := by
  rw [names, List.countP_append]
  cases reading <;> rfl

def move : PathReading → Move PathPiece
  | .stay => .stay
  | .up => .up
  | .name p len joinWithPrevious => .down ⟨p, len, joinWithPrevious⟩

/-- What the components of a path have put on the stack and taken off it. -/
def pathTrace (readings : List PathReading) : Trace PathPiece := trace (readings.map move)

theorem pathTrace_append : pathTrace (readings ++ [reading]) =
    (pathTrace readings).move reading.move := by
  rw [pathTrace, List.map_append, List.map_singleton, trace_append_singleton]
  rfl

theorem depth_eq (readings : List PathReading) :
    depth readings = (pathTrace readings).items.length := by
  induction readings using List.reverseRecOn with
  | nil => rfl
  | append_singleton readings reading ih =>
    rw [depth_append, pathTrace_append, ih]
    cases reading with
    | stay => rfl
    | up =>
      dsimp only [move]
      rw [Trace.move]
      split
      · next hnil => simp [hnil]
      · exact (List.length_dropLast ..).symm
    | name p len joinWithPrevious => simp [move, Trace.move]

end PathReading

/-- The stack is as the components of the path want it. -/
structure ResolveState.Follows (s : ResolveState) (keepComponents : ℕ)
    (readings : List PathReading) (l : List ℕ) (stop : Option ℕ) : Prop where
  stacked : s.Stacked l stop
  pieces : (l.map fun a => (s.nodes a).map KscPPComponent.piece) =
    (PathReading.pathTrace readings).items.map some
  keep : s.keepComponents = keepComponents - (PathReading.pathTrace readings).climbed
  retreated : stop.isSome = (PathReading.pathTrace readings).retreated
  names : s.next = PathReading.names readings

namespace ResolveState.Follows
variable {s : ResolveState} {keepComponents : ℕ} {readings : List PathReading} {l : List ℕ}
  {stop : Option ℕ}

theorem cursor (h : s.Follows keepComponents readings l stop) (cursor : PathCursor) :
    ({ s with cursor } : ResolveState).Follows keepComponents readings l stop :=
  ⟨h.stacked.congr rfl rfl rfl rfl, h.pieces, h.keep, h.retreated, h.names⟩

theorem length_eq (h : s.Follows keepComponents readings l stop) :
    l.length = PathReading.depth readings := by
  rw [PathReading.depth_eq]
  simpa using congrArg List.length h.pieces

theorem stay (h : s.Follows keepComponents readings l stop) :
    s.Follows keepComponents (readings ++ [.stay]) l stop := by
  refine ⟨h.stacked, ?_, ?_, ?_, ?_⟩
  · rw [PathReading.pathTrace_append]
    exact h.pieces
  · rw [PathReading.pathTrace_append]
    exact h.keep
  · rw [PathReading.pathTrace_append]
    exact h.retreated
  · rw [PathReading.names_append]
    exact h.names

theorem up (h : s.Follows keepComponents readings l stop) :
    ∃ s' l' stop', s.pop = some s' ∧ s'.Follows keepComponents (readings ++ [.up]) l' stop' := by
  rcases List.eq_nil_or_concat l with rfl | ⟨front, a, rfl⟩
  · have hnil : (PathReading.pathTrace readings).items = [] := by
      simpa using h.pieces.symm
    refine ⟨{ s with keepComponents := s.keepComponents - 1 }, [], stop, h.stacked.pop_nil,
      h.stacked.congr rfl rfl rfl rfl, ?_, ?_, ?_, ?_⟩
    · rw [PathReading.pathTrace_append, PathReading.move, Trace.move, if_pos hnil]
      exact h.pieces
    · rw [PathReading.pathTrace_append, PathReading.move, Trace.move, if_pos hnil]
      dsimp only
      rw [h.keep, Nat.sub_sub]
    · rw [PathReading.pathTrace_append, PathReading.move, Trace.move, if_pos hnil]
      exact h.retreated
    · rw [PathReading.names_append]
      exact h.names
  · rw [List.concat_eq_append] at h
    obtain ⟨s', hpop, hstacked, hnodes, hnext, hkeep⟩ := h.stacked.pop
    have hlength := congrArg List.length h.pieces
    rw [List.length_map, List.length_map, List.length_append, List.length_singleton] at hlength
    have hne : (PathReading.pathTrace readings).items ≠ [] :=
      List.ne_nil_of_length_pos (by omega)
    have hnot : a ∉ front := fun ha =>
      (List.nodup_append.mp h.stacked.nodup).2.2 a ha a List.mem_cons_self rfl
    refine ⟨s', front, _, hpop, hstacked, ?_, ?_, ?_, ?_⟩
    · rw [PathReading.pathTrace_append, PathReading.move, Trace.move, if_neg hne]
      have hpieces := congrArg List.dropLast h.pieces
      rw [← List.map_dropLast, ← List.map_dropLast, List.dropLast_concat] at hpieces
      refine Eq.trans (List.map_congr_left fun b hb => ?_) hpieces
      rw [hnodes, update_of_ne fun heq : b = a => hnot (heq ▸ hb)]
    · rw [PathReading.pathTrace_append, PathReading.move, Trace.move, if_neg hne]
      exact hkeep.trans h.keep
    · rw [PathReading.pathTrace_append, PathReading.move, Trace.move, if_neg hne]
      dsimp only
      rw [← hlength]
      cases front with
      | nil => rfl
      | cons b front => simp
    · rw [PathReading.names_append]
      exact hnext.trans h.names

theorem name (h : s.Follows keepComponents readings l stop) (p len : ℕ)
    (joinWithPrevious : Bool) : ∃ s', s.push p len joinWithPrevious = some s' ∧
      s'.Follows keepComponents (readings ++ [.name p len joinWithPrevious]) (l ++ [s.next])
        none := by
  obtain ⟨s', hpush, hstacked, hsame, hnew, hnext, hkeep⟩ :=
    h.stacked.push p len joinWithPrevious
  refine ⟨s', hpush, hstacked, ?_, ?_, ?_, ?_⟩
  · rw [PathReading.pathTrace_append, PathReading.move, Trace.move, List.map_append,
      List.map_append, ← h.pieces, List.map_congr_left hsame, List.map_singleton, hnew]
    rfl
  · rw [PathReading.pathTrace_append]
    exact hkeep.trans h.keep
  · rw [PathReading.pathTrace_append]
    rfl
  · rw [PathReading.names_append, hnext, h.names]

end ResolveState.Follows

section Loop
variable {str : KsString} {room : ℕ → Bool} {s s' : ResolveState} {l : List ℕ}
  {stop : Option ℕ} {readings : List PathReading} {keepComponents : ℕ} {cursor cursor' : PathCursor}
  {reading : PathReading}

theorem start_follows (keepComponents : ℕ) :
    (ResolveState.start keepComponents).Follows keepComponents [] [] none :=
  ⟨ResolveState.start_stacked keepComponents, rfl, rfl, rfl, rfl⟩

/-- The path is given up here. -/
theorem ResolveState.Follows.scanComponent_stops
    (h : s.Follows keepComponents readings l stop) (hstops : Stops str room readings s.cursor) :
    scanComponent str room s = some (.error s) := by
  obtain ⟨-, hnone | ⟨p, len, join, cursor', hname, hfull⟩⟩ := hstops
  · rw [scanComponent, hnone]
  · rw [scanComponent, hname]
    dsimp only
    rw [h.names, hfull]
    rfl

/-- The stack follows the next component. -/
theorem ResolveState.Follows.scanComponent_next
    (h : s.Follows keepComponents readings l stop)
    (hr : readComponent str s.cursor = some (reading, cursor'))
    (hroom : ∀ p len joinWithPrevious, reading = .name p len joinWithPrevious →
      room (PathReading.names readings) = true) :
    ∃ s' l' stop', scanComponent str room s = some (.ok s') ∧ s'.cursor = cursor' ∧
      s'.Follows keepComponents (readings ++ [reading]) l' stop' := by
  rw [scanComponent, hr]
  cases reading with
  | stay => exact ⟨_, l, stop, rfl, rfl, h.stay.cursor cursor'⟩
  | up =>
    obtain ⟨s', l', stop', hpop, hfollows⟩ := h.up
    exact ⟨_, l', stop', by rw [hpop]; rfl, rfl, hfollows.cursor cursor'⟩
  | name p len joinWithPrevious =>
    obtain ⟨s', hpush, hfollows⟩ := h.name p len joinWithPrevious
    refine ⟨_, _, none, ?_, rfl, hfollows.cursor cursor'⟩
    dsimp only
    rw [h.names, if_pos (hroom _ _ _ rfl), hpush]
    rfl

/-- At each place the path is given up or goes on. -/
theorem stops_or_next (room : ℕ → Bool) (readings : List PathReading)
    (hne : charAt str cursor.p ≠ 0) : Stops str room readings cursor ∨
    ∃ reading cursor', readComponent str cursor = some (reading, cursor') ∧
      ∀ p len joinWithPrevious, reading = .name p len joinWithPrevious →
        room (PathReading.names readings) = true := by
  cases hr : readComponent str cursor with
  | none => exact Or.inl ⟨hne, Or.inl hr⟩
  | some result =>
    obtain ⟨reading, cursor'⟩ := result
    cases reading with
    | stay => exact Or.inr ⟨_, cursor', rfl, by simp⟩
    | up => exact Or.inr ⟨_, cursor', rfl, by simp⟩
    | name p len joinWithPrevious =>
      cases hroom : room (PathReading.names readings) with
      | false => exact Or.inl ⟨hne, Or.inr ⟨p, len, joinWithPrevious, cursor', hr, hroom⟩⟩
      | true => exact Or.inr ⟨_, cursor', rfl, fun _ _ _ _ => rfl⟩

/-- The loop comes to every component. -/
theorem ReadTo.scanned (h : ReadTo str room readings cursor) (keepComponents : ℕ) :
    ∃ s l stop, Scanned str room keepComponents s ∧ s.cursor = cursor ∧
      s.Follows keepComponents readings l stop := by
  induction h with
  | start => exact ⟨_, [], none, .start, rfl, start_follows keepComponents⟩
  | next hread hne hr hroom ih =>
    obtain ⟨s, l, stop, hscanned, rfl, hfollows⟩ := ih
    obtain ⟨s', l', stop', hok, hcursor, hfollows'⟩ := hfollows.scanComponent_next hr hroom
    exact ⟨s', l', stop', hscanned.next hne hok, hcursor, hfollows'⟩

/-- The stack follows the path all the time. -/
theorem Scanned.follows (h : Scanned str room keepComponents s) :
    ∃ readings l stop, ReadTo str room readings s.cursor ∧
      s.Follows keepComponents readings l stop := by
  induction h with
  | start => exact ⟨[], [], none, .start, start_follows keepComponents⟩
  | next _ hne hscan ih =>
    obtain ⟨readings, l, stop, hread, hfollows⟩ := ih
    obtain hstops | ⟨reading, cursor', hr, hroom⟩ :=
      stops_or_next room readings hne
    · exact absurd ((hfollows.scanComponent_stops hstops).symm.trans hscan) (by simp)
    · obtain ⟨s', l', stop', hok, hcursor, hfollows'⟩ := hfollows.scanComponent_next hr hroom
      obtain rfl := Except.ok.inj (Option.some.inj (hok.symm.trans hscan))
      exact ⟨_, l', stop', hcursor ▸ hread.next hne hr hroom, hfollows'⟩

theorem scanComponent_cursor (h : scanComponent str room s = some (.ok s')) :
    ∃ reading, readComponent str s.cursor = some (reading, s'.cursor) := by
  rw [scanComponent] at h
  cases hr : readComponent str s.cursor with
  | none => exact absurd h (by simp [hr])
  | some result =>
  obtain ⟨reading, cursor'⟩ := result
  rw [hr] at h
  refine ⟨reading, congrArg (fun c => some (reading, c)) ?_⟩
  cases reading with
  | stay =>
    rw [← Except.ok.inj (Option.some.inj h)]
  | up =>
    obtain ⟨s₁, -, heq⟩ := Option.map_eq_some_iff.mp h
    rw [← Except.ok.inj heq]
  | name p len joinWithPrevious =>
    dsimp only at h
    split_ifs at h
    · obtain ⟨s₁, -, heq⟩ := Option.map_eq_some_iff.mp h
      rw [← Except.ok.inj heq]
    · exact absurd h (by simp)

theorem scanned_progress (h : Scanned str room keepComponents s) : s.cursor.p ≤ str.length ∧
    ∃ n ≤ s.cursor.p, ∀ fuel, scan str room (n + fuel) (.start keepComponents) =
      scan str room fuel s := by
  induction h with
  | start => exact ⟨Nat.zero_le _, 0, le_rfl, fun fuel => by rw [Nat.zero_add]⟩
  | @next s s' _ hne hscan ih =>
    obtain ⟨-, n, hn, hruns⟩ := ih
    obtain ⟨reading, hr⟩ := scanComponent_cursor hscan
    have hprogress := readComponent_progress hne hr
    refine ⟨hprogress.2, n + 1, by omega, fun fuel => ?_⟩
    rw [Nat.add_assoc, Nat.add_comm 1, hruns, scan, if_neg hne, hscan]
    rfl

/-- The loop comes to an end of the path, or to a place where it is given up. -/
theorem Scanned.outcome (h : Scanned str room keepComponents s) {fuel : ℕ}
    (hfuel : str.length < s.cursor.p + fuel) :
    ∃ outcome, scan str room fuel s = some outcome ∧
      match outcome with
      | .error s' => Scanned str room keepComponents s' ∧
          ∃ readings, ReadTo str room readings s'.cursor ∧ Stops str room readings s'.cursor ∧
            ∃ l stop, s'.Follows keepComponents readings l stop
      | .ok s' => Scanned str room keepComponents s' ∧ charAt str s'.cursor.p = 0 := by
  induction fuel generalizing s with
  | zero => exact absurd (scanned_progress h).1 (by omega)
  | succ fuel ih =>
    rw [scan]
    by_cases hne : charAt str s.cursor.p = 0
    · exact ⟨_, if_pos hne, h, hne⟩
    rw [if_neg hne]
    obtain ⟨readings, l, stop, hread, hfollows⟩ := h.follows
    obtain hstops | ⟨reading, cursor', hr, hroom⟩ :=
      stops_or_next room readings hne
    · exact ⟨.error s, by rw [hfollows.scanComponent_stops hstops]; rfl, h, readings, hread,
        hstops, l, stop, hfollows⟩
    · obtain ⟨s', l', stop', hok, rfl, -⟩ := hfollows.scanComponent_next hr hroom
      have hprogress := readComponent_progress hne hr
      obtain ⟨outcome, hscan, hrest⟩ := ih (h.next hne hok) (by omega)
      exact ⟨outcome, by rw [hok]; exact hscan, hrest⟩

/-- When a stack is given up, its nodes are left over. -/
theorem ResolveState.Follows.nodes_eq_none (h : s.Follows keepComponents readings l stop)
    (hdepth : PathReading.depth readings = 0) : ∀ a, s.nodes a = none := by
  intro a
  obtain rfl := List.length_eq_zero_iff.mp (h.length_eq.trans hdepth)
  rw [← Option.not_isSome_iff_eq_none, ← h.stacked.live]
  exact List.not_mem_nil

/-- The components on the stack. -/
theorem ResolveState.Follows.holds (h : s.Follows keepComponents readings l stop) :
    Holds s.nodes s.stackBottom l stop (PathReading.pathTrace readings).items :=
  ⟨h.stacked.leads, h.stacked.nodup, h.stacked.live, h.pieces⟩

/-- The components are added to the path, unless the last one leads to one that has been deleted. -/
theorem ResolveState.Follows.addComponents (h : s.Follows keepComponents readings l stop)
    (keep : ℕ) (final : KsString) :
    addComponents str (s.next + 1) keep s.stackBottom s.nodes final =
      if (PathReading.pathTrace readings).retreated then none
      else some (final ++ buildComponents str keep (PathReading.pathTrace readings).items,
        fun _ => none) := by
  rw [← h.retreated]
  refine h.holds.addComponents h.stacked.stop_deleted (fun hsome hnil => ?_) str
    (Nat.lt_succ_of_le h.stacked.length_le) keep final
  rw [h.stacked.stop_of_nil hnil] at hsome
  exact absurd hsome (by simp)

/-- If all components can be taken off the stack safely, no pointer leads to a deleted one. -/
theorem StackSafe.not_retreated (hsafe : StackSafe str room)
    (h : ReadTo str room readings cursor) : (PathReading.pathTrace readings).retreated = false := by
  induction h with
  | start => rfl
  | @next readings cursor cursor' reading hread hne hr _ ih =>
    rw [PathReading.pathTrace_append]
    cases reading with
    | stay => exact ih
    | up =>
      have hdepth := hsafe.up _ _ _ hread hne hr
      rw [PathReading.depth_eq] at hdepth
      dsimp only [PathReading.move]
      rw [Trace.move]
      split
      · exact ih
      · exact decide_eq_false (by omega)
    | name p len joinWithPrevious => rfl

theorem StackSafe.keepsStack (hsafe : StackSafe str room) (keepComponents : ℕ) :
    KeepsStack str room keepComponents := by
  refine ⟨fun s hs => ?_, ?_⟩
  · obtain ⟨readings, l, stop, hread, hfollows⟩ := hs.follows
    have hstop := hfollows.retreated.trans (hsafe.not_retreated hread)
    exact hfollows.stacked.properList_iff.mpr (by simpa using hstop)
  · obtain ⟨outcome, hscan, hend⟩ := Scanned.outcome (.start : Scanned str room keepComponents _)
      (show str.length < 0 + (str.length + 1) by omega)
    refine ⟨outcome, hscan, ?_⟩
    cases outcome with
    | error s =>
      obtain ⟨-, readings, hread, hstops, l, stop, hfollows⟩ := hend
      exact hfollows.nodes_eq_none (hsafe.stop _ _ hread hstops)
    | ok s =>
      intro keep final
      obtain ⟨readings, l, stop, hread, hfollows⟩ := hend.1.follows
      rw [hfollows.addComponents, hsafe.not_retreated hread]
      exact ⟨_, _, rfl, fun _ => rfl⟩

theorem KeepsStack.stackSafe (h : KeepsStack str room keepComponents) : StackSafe str room := by
  refine ⟨fun readings cursor cursor' hread hne hup => ?_, fun readings cursor hread hstops => ?_⟩
  · have hread' : ReadTo str room (readings ++ [.up]) cursor' :=
      hread.next hne hup fun _ _ _ hname => absurd hname (by simp)
    obtain ⟨s, l, stop, hscanned, -, hfollows⟩ := hread'.scanned keepComponents
    have hstop := hfollows.stacked.properList_iff.mp (h.proper s hscanned)
    have hretreated := hfollows.retreated
    rw [hstop, PathReading.pathTrace_append, PathReading.move, Trace.move] at hretreated
    rw [PathReading.depth_eq]
    by_cases hnil : (PathReading.pathTrace readings).items = []
    · rw [hnil]
      exact Nat.zero_le _
    · rw [if_neg hnil] at hretreated
      have := of_decide_eq_false hretreated.symm
      omega
  · obtain ⟨s, l, stop, hscanned, rfl, hfollows⟩ := hread.scanned keepComponents
    obtain ⟨hle, n, hn, hruns⟩ := scanned_progress hscanned
    obtain ⟨outcome, hscan, hfreed⟩ := h.freed
    obtain ⟨k, hk⟩ : ∃ k, str.length + 1 = n + (k + 1) := ⟨str.length - n, by omega⟩
    rw [hk, hruns, scan, if_neg hstops.1, hfollows.scanComponent_stops hstops] at hscan
    obtain rfl := Option.some.inj hscan
    rw [← hfollows.length_eq, hfollows.stacked.eq_nil_of_none hfreed]
    rfl

end Loop

/-- The stack is a proper list all the time, and all its nodes are freed, exactly if no `..` takes
back a name that follows another one, and the path is not given up while there are names. -/
theorem keepsStack_iff (str : KsString) (room : ℕ → Bool) (keepComponents : ℕ) :
    KeepsStack str room keepComponents ↔ StackSafe str room :=
  ⟨KeepsStack.stackSafe, fun h => h.keepsStack keepComponents⟩

/-- In `a/b/..` the component of `a` is left with a pointer to the one of `b`. -/
theorem not_keepsStack_dangling :
    ¬ KeepsStack [97, 47, 98, 47, 46, 46] (fun _ => true) 2 := by
  intro h
  have hfirst : ReadTo [97, 47, 98, 47, 46, 46] (fun _ => true) [.name 0 1 false]
      ⟨1, 2, true, true⟩ :=
    .next .start (by decide) (by decide) fun _ _ _ _ => rfl
  have hboth : ReadTo [97, 47, 98, 47, 46, 46] (fun _ => true) [.name 0 1 false, .name 1 2 true]
      ⟨3, 4, true, true⟩ :=
    hfirst.next (by decide) (by decide) fun _ _ _ _ => rfl
  exact absurd (h.stackSafe.up _ _ ⟨6, 6, true, false⟩ hboth (by decide) (by decide)) (by decide)

end AcpltKs
