import Mathlib.Data.List.Nodup
import Mathlib.Logic.Function.Basic

/-! Owners that each hold a ticket in a queue, and tickets that point back to their owners. A ticket
that has been taken from its owner stays in the queue and points to nobody. -/
namespace BackPointers
open Function

variable {ι κ : Type*} [DecidableEq κ] {owner : ι → Option κ}
  {ticket : κ → Option (Option ι)} {queue : List κ} {i : ι} {k : κ}

/-- Owners and tickets point to each other; every ticket of an owner is in the queue once, and there
are no others in the queue but tickets that point to nobody. -/
structure Linked (owner : ι → Option κ) (ticket : κ → Option (Option ι)) (queue : List κ) :
    Prop where
  ticket_of_owner : ∀ i k, owner i = some k → ticket k = some (some i) ∧ k ∈ queue
  owner_of_ticket : ∀ i k, ticket k = some (some i) → owner i = some k
  ticket_of_mem : ∀ k ∈ queue, (ticket k).isSome
  nodup : queue.Nodup

/-- Take a ticket from its owner. -/
def release (ticket : κ → Option (Option ι)) : Option κ → κ → Option (Option ι)
  | none => ticket
  | some k => update ticket k (some none)

theorem isSome_release (h : ∀ l, owner i = some l → ticket l = some (some i)) (k : κ) :
    (release ticket (owner i) k).isSome = (ticket k).isSome := by
  cases ho : owner i with
  | none => rfl
  | some l =>
    by_cases hk : k = l
    · subst hk
      rw [release, update_self, h k ho]
      rfl
    · rw [release, update_of_ne hk]

/-- Without its owner, a ticket points to nobody, and all others are as before. -/
theorem Linked.release_eq (h : Linked owner ticket queue) (j : ι) (k : κ) :
    release ticket (owner i) k = some (some j) ↔ ticket k = some (some j) ∧ j ≠ i := by
  cases ho : owner i with
  | none =>
    refine ⟨fun hk => ⟨hk, ?_⟩, fun hk => hk.1⟩
    rintro rfl
    rw [h.owner_of_ticket j k hk] at ho
    exact absurd ho (by simp)
  | some l =>
    have hl := (h.ticket_of_owner i l ho).1
    by_cases hk : k = l
    · subst hk
      simp only [release, update_self, hl, Option.some.injEq, reduceCtorEq, false_iff]
      rintro ⟨rfl, hne⟩
      exact hne rfl
    · rw [release, update_of_ne hk]
      refine ⟨fun hj => ⟨hj, ?_⟩, fun hj => hj.1⟩
      rintro rfl
      rw [h.owner_of_ticket j k hj, Option.some.injEq] at ho
      exact hk ho

/-- An owner that is gone leaves its ticket behind. -/
theorem Linked.remove [DecidableEq ι] (h : Linked owner ticket queue) (i : ι) :
    Linked (update owner i none) (release ticket (owner i)) queue := by
  refine ⟨fun j k hj => ?_, fun j k hk => ?_, fun k hk => ?_, h.nodup⟩
  · by_cases hji : j = i
    · subst hji
      rw [update_self] at hj
      exact absurd hj (by simp)
    · rw [update_of_ne hji] at hj
      obtain ⟨hk, hmem⟩ := h.ticket_of_owner j k hj
      exact ⟨(h.release_eq j k).mpr ⟨hk, hji⟩, hmem⟩
  · obtain ⟨hk, hji⟩ := (h.release_eq j k).mp hk
    rw [update_of_ne hji]
    exact h.owner_of_ticket j k hk
  · rw [isSome_release fun l hl => (h.ticket_of_owner i l hl).1]
    exact h.ticket_of_mem k hk

/-- A new ticket takes the place of the one that the owner may have had. -/
theorem Linked.give [DecidableEq ι] (h : Linked owner ticket queue) (hk : ticket k = none) (i : ι) :
    Linked (update owner i (some k)) (update (release ticket (owner i)) k (some (some i)))
      (k :: queue) := by
  have hnotin : k ∉ queue := fun hmem => by
    have := h.ticket_of_mem k hmem
    rw [hk] at this
    exact absurd this (by simp)
  refine ⟨fun j l hj => ?_, fun j l hl => ?_, fun l hl => ?_, List.nodup_cons.mpr ⟨hnotin, h.nodup⟩⟩
  · by_cases hji : j = i
    · subst hji
      rw [update_self, Option.some.injEq] at hj
      subst hj
      exact ⟨update_self .., List.mem_cons_self⟩
    · rw [update_of_ne hji] at hj
      obtain ⟨hl, hmem⟩ := h.ticket_of_owner j l hj
      have hlk : l ≠ k := fun hlk => hnotin (hlk ▸ hmem)
      rw [update_of_ne hlk]
      exact ⟨(h.release_eq j l).mpr ⟨hl, hji⟩, List.mem_cons_of_mem k hmem⟩
  · by_cases hlk : l = k
    · subst hlk
      rw [update_self, Option.some.injEq, Option.some.injEq] at hl
      subst hl
      exact update_self ..
    · rw [update_of_ne hlk] at hl
      obtain ⟨hl, hji⟩ := (h.release_eq j l).mp hl
      rw [update_of_ne hji]
      exact h.owner_of_ticket j l hl
  · by_cases hlk : l = k
    · subst hlk
      rw [update_self]
      rfl
    · rw [update_of_ne hlk, isSome_release fun l hl => (h.ticket_of_owner i l hl).1]
      exact h.ticket_of_mem l ((List.mem_cons.mp hl).resolve_left hlk)

/-- A new ticket that nobody has got yet. -/
theorem Linked.add (h : Linked owner ticket queue) (hk : ticket k = none) :
    Linked owner (update ticket k (some none)) (k :: queue) := by
  have hnotin : k ∉ queue := fun hmem => by
    have := h.ticket_of_mem k hmem
    rw [hk] at this
    exact absurd this (by simp)
  refine ⟨fun j l hj => ?_, fun j l hl => ?_, fun l hl => ?_, List.nodup_cons.mpr ⟨hnotin, h.nodup⟩⟩
  · obtain ⟨hl, hmem⟩ := h.ticket_of_owner j l hj
    have hlk : l ≠ k := fun hlk => hnotin (hlk ▸ hmem)
    rw [update_of_ne hlk]
    exact ⟨hl, List.mem_cons_of_mem k hmem⟩
  · by_cases hlk : l = k
    · subst hlk
      rw [update_self] at hl
      exact absurd hl (by simp)
    · rw [update_of_ne hlk] at hl
      exact h.owner_of_ticket j l hl
  · by_cases hlk : l = k
    · subst hlk
      rw [update_self]
      rfl
    · rw [update_of_ne hlk]
      exact h.ticket_of_mem l ((List.mem_cons.mp hl).resolve_left hlk)

/-- A ticket that points to nobody may be thrown away. -/
theorem Linked.discard (h : Linked owner ticket queue) (hk : ticket k = some none) :
    Linked owner (update ticket k none) (queue.erase k) := by
  have hother : ∀ {l}, ticket l ≠ some none → l ≠ k := fun hl hlk => hl (hlk ▸ hk)
  refine ⟨fun j l hj => ?_, fun j l hl => ?_, fun l hl => ?_, h.nodup.erase k⟩
  · obtain ⟨hl, hmem⟩ := h.ticket_of_owner j l hj
    have hlk : l ≠ k := hother (by simp [hl])
    rw [update_of_ne hlk]
    exact ⟨hl, (List.mem_erase_of_ne hlk).mpr hmem⟩
  · by_cases hlk : l = k
    · subst hlk
      rw [update_self] at hl
      exact absurd hl (by simp)
    · rw [update_of_ne hlk] at hl
      exact h.owner_of_ticket j l hl
  · obtain ⟨hlk, hmem⟩ := h.nodup.mem_erase_iff.mp hl
    rw [update_of_ne hlk]
    exact h.ticket_of_mem l hmem

omit [DecidableEq κ] in
/-- The order in the queue does not matter. -/
theorem Linked.perm (h : Linked owner ticket queue) {queue' : List κ} (hperm : queue'.Perm queue) :
    Linked owner ticket queue' :=
  ⟨fun i k hi => ⟨(h.ticket_of_owner i k hi).1, hperm.mem_iff.mpr (h.ticket_of_owner i k hi).2⟩,
    h.owner_of_ticket, fun k hk => h.ticket_of_mem k (hperm.mem_iff.mp hk),
    hperm.nodup_iff.mpr h.nodup⟩

theorem Linked.count_eq_one (h : Linked owner ticket queue) (hi : owner i = some k) :
    queue.count k = 1 :=
  List.count_eq_one_of_mem h.nodup (h.ticket_of_owner i k hi).2

end BackPointers
