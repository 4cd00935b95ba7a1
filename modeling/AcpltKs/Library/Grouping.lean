import Mathlib.Data.Finset.Card
import Mathlib.Data.Multiset.Filter

/-! Values under keys: the groups of equal keys, and two groupings side by side. -/
namespace Grouping

variable {K V : Type*} [DecidableEq K] {ps qs : Multiset (K × V)} {p : K × V} {k : K}

/-- The values under a key. -/
def group (ps : Multiset (K × V)) (k : K) : Multiset V := (ps.filter (·.1 = k)).map Prod.snd

/-- What is left without a key. -/
def without (ps : Multiset (K × V)) (k : K) : Multiset (K × V) := ps.filter (·.1 ≠ k)

/-- The keys with a value under them. -/
def keys (ps : Multiset (K × V)) : Finset K := (ps.map Prod.fst).toFinset

@[simp] theorem group_zero : group (0 : Multiset (K × V)) k = 0 := rfl

theorem group_cons_self (h : p.1 = k) : group (p ::ₘ ps) k = p.2 ::ₘ group ps k := by
  rw [group, Multiset.filter_cons_of_pos (p := fun q : K × V => q.1 = k) _ h, Multiset.map_cons, group]

theorem group_cons_of_ne (h : p.1 ≠ k) : group (p ::ₘ ps) k = group ps k := by
  rw [group, Multiset.filter_cons_of_neg (p := fun q : K × V => q.1 = k) _ h, group]

theorem mem_keys : k ∈ keys ps ↔ ∃ p ∈ ps, p.1 = k := by
  rw [keys, Multiset.mem_toFinset, Multiset.mem_map]

theorem keys_mono (h : ps ≤ qs) : keys ps ⊆ keys qs :=
  fun _ hk => by
    obtain ⟨p, hp, rfl⟩ := mem_keys.mp hk
    exact mem_keys.mpr ⟨p, Multiset.mem_of_le h hp, rfl⟩

theorem group_eq_zero : group ps k = 0 ↔ k ∉ keys ps := by
  rw [group, Multiset.map_eq_zero, Multiset.filter_eq_nil, mem_keys]
  push Not
  rfl

theorem mem_keys_without {l : K} : l ∈ keys (without ps k) ↔ l ∈ keys ps ∧ l ≠ k := by
  constructor
  · intro hl
    obtain ⟨p, hp, rfl⟩ := mem_keys.mp hl
    obtain ⟨hp, hne⟩ := Multiset.mem_filter.mp hp
    exact ⟨mem_keys.mpr ⟨p, hp, rfl⟩, hne⟩
  · rintro ⟨hl, hne⟩
    obtain ⟨p, hp, rfl⟩ := mem_keys.mp hl
    exact mem_keys.mpr ⟨p, Multiset.mem_filter.mpr ⟨hp, hne⟩, rfl⟩

theorem without_of_notMem (h : k ∉ keys ps) : without ps k = ps :=
  Multiset.filter_eq_self.mpr fun p hp hpk => h (mem_keys.mpr ⟨p, hp, hpk⟩)

theorem keys_eq_empty : keys ps = ∅ ↔ ps = 0 := by
  rw [keys, Multiset.toFinset_eq_empty, Multiset.map_eq_zero]

theorem group_without {l : K} (h : l ≠ k) : group (without ps k) l = group ps l := by
  rw [group, without, Multiset.filter_filter, group]
  refine congrArg _ (Multiset.filter_congr fun p _ => ?_)
  exact ⟨And.left, fun hl => ⟨hl, hl ▸ h⟩⟩

/-- A list of groups with their keys: all the groups, and none twice. -/
structure Groups (gs : List (K × List V)) (ps : Multiset (K × V)) : Prop where
  distinct : (gs.map Prod.fst).Nodup
  mem_iff : ∀ k, k ∈ gs.map Prod.fst ↔ k ∈ keys ps
  group_eq : ∀ g ∈ gs, (g.2 : Multiset V) = group ps g.1

/-- A value is only in the groups of its keys. -/
theorem Groups.mem_iff_mem {gs : List (K × List V)} (h : Groups gs ps) {v : V} :
    (k, v) ∈ ps ↔ ∃ g ∈ gs, g.1 = k ∧ v ∈ g.2 := by
  have hgroup : (k, v) ∈ ps ↔ v ∈ group ps k := by
    simp [group]
  constructor
  · intro hp
    obtain ⟨g, hg, rfl⟩ := List.mem_map.mp ((h.mem_iff k).mpr (mem_keys.mpr ⟨(k, v), hp, rfl⟩))
    exact ⟨g, hg, rfl, by rwa [hgroup, ← h.group_eq g hg, Multiset.mem_coe] at hp⟩
  · rintro ⟨g, hg, rfl, hv⟩
    rwa [hgroup, ← h.group_eq g hg, Multiset.mem_coe]

/-- The groups of two groupings side by side: all of them, and none twice. -/
structure Joined (es : List (K × List V × List V)) (ps qs : Multiset (K × V)) : Prop where
  distinct : (es.map Prod.fst).Nodup
  mem_iff : ∀ k, k ∈ es.map Prod.fst ↔ k ∈ keys ps ∨ k ∈ keys qs
  left_eq : ∀ e ∈ es, (e.2.1 : Multiset V) = group ps e.1
  right_eq : ∀ e ∈ es, (e.2.2 : Multiset V) = group qs e.1

/-- The groups of one grouping, each in an order of its own. -/
theorem Groups.joined {gs : List (K × List V)} (h : Groups gs ps) {sort : List V → List V}
    (hsort : ∀ l, (sort l).Perm l) : Joined (gs.map fun g => (g.1, sort g.2, [])) ps 0 := by
  have hkeys : (gs.map fun g => (g.1, sort g.2, ([] : List V))).map Prod.fst = gs.map Prod.fst :=
    List.map_map
  refine ⟨hkeys ▸ h.distinct, fun k => ?_, fun e he => ?_, fun e he => ?_⟩
  · rw [hkeys, h.mem_iff]
    simp [keys]
  · obtain ⟨g, hg, rfl⟩ := List.mem_map.mp he
    rw [← h.group_eq g hg]
    exact Multiset.coe_eq_coe.mpr (hsort g.2)
  · obtain ⟨g, -, rfl⟩ := List.mem_map.mp he
    rfl

theorem Joined.swap {es : List (K × List V × List V)} (h : Joined es ps qs) :
    Joined (es.map fun e => (e.1, e.2.2, e.2.1)) qs ps := by
  have hkeys : (es.map fun e => (e.1, e.2.2, e.2.1)).map Prod.fst = es.map Prod.fst := List.map_map
  refine ⟨hkeys ▸ h.distinct, fun k => ?_, fun e he => ?_, fun e he => ?_⟩
  · rw [hkeys, h.mem_iff, or_comm]
  · obtain ⟨d, hd, rfl⟩ := List.mem_map.mp he
    exact h.right_eq d hd
  · obtain ⟨d, hd, rfl⟩ := List.mem_map.mp he
    exact h.left_eq d hd

/-- A group is a part of its grouping. -/
theorem Joined.left_part {es : List (K × List V × List V)} (h : Joined es ps qs)
    {e : K × List V × List V} (he : e ∈ es) :
    e.2.1.length ≤ ps.card ∧ ∀ v ∈ e.2.1, (e.1, v) ∈ ps := by
  have hgroup := h.left_eq e he
  constructor
  · rw [← Multiset.coe_card, hgroup, group, Multiset.card_map]
    exact Multiset.card_le_card (Multiset.filter_le _ _)
  · intro v hv
    rw [← Multiset.mem_coe, hgroup, group] at hv
    obtain ⟨p, hp, rfl⟩ := Multiset.mem_map.mp hv
    obtain ⟨hp, hkey⟩ := Multiset.mem_filter.mp hp
    rwa [← hkey]

theorem Joined.right_part {es : List (K × List V × List V)} (h : Joined es ps qs)
    {e : K × List V × List V} (he : e ∈ es) :
    e.2.2.length ≤ qs.card ∧ ∀ v ∈ e.2.2, (e.1, v) ∈ qs :=
  h.swap.left_part (List.mem_map_of_mem he)

/-- The order within the groups does not matter. -/
theorem Joined.sorted {es : List (K × List V × List V)} (h : Joined es ps qs)
    {sort : List V → List V} (hsort : ∀ l, (sort l).Perm l) :
    Joined (es.map fun e => (e.1, sort e.2.1, sort e.2.2)) ps qs := by
  have hkeys : (es.map fun e => (e.1, sort e.2.1, sort e.2.2)).map Prod.fst = es.map Prod.fst :=
    List.map_map
  refine ⟨hkeys ▸ h.distinct, fun k => hkeys ▸ h.mem_iff k, fun e he => ?_, fun e he => ?_⟩
  · obtain ⟨d, hd, rfl⟩ := List.mem_map.mp he
    exact (Multiset.coe_eq_coe.mpr (hsort _)).trans (h.left_eq d hd)
  · obtain ⟨d, hd, rfl⟩ := List.mem_map.mp he
    exact (Multiset.coe_eq_coe.mpr (hsort _)).trans (h.right_eq d hd)

theorem Joined.nil : Joined (K := K) (V := V) [] 0 0 :=
  ⟨List.nodup_nil, fun _ => by simp [keys], fun _ h => absurd h List.not_mem_nil,
    fun _ h => absurd h List.not_mem_nil⟩

/-- The groups of one key first, and then those of the others. -/
theorem Joined.cons {es : List (K × List V × List V)} {l m : List V}
    (h : Joined es (without ps k) (without qs k)) (hkey : k ∈ keys ps ∨ k ∈ keys qs)
    (hl : (l : Multiset V) = group ps k) (hm : (m : Multiset V) = group qs k) :
    Joined ((k, l, m) :: es) ps qs := by
  have hne : ∀ e ∈ es, e.1 ≠ k := by
    intro e he
    rcases (h.mem_iff e.1).mp (List.mem_map_of_mem he) with hkey | hkey
    · exact (mem_keys_without.mp hkey).2
    · exact (mem_keys_without.mp hkey).2
  refine ⟨?_, fun j => ?_, ?_, ?_⟩
  · rw [List.map_cons, List.nodup_cons]
    refine ⟨fun hmem => ?_, h.distinct⟩
    obtain ⟨e, he, heq⟩ := List.mem_map.mp hmem
    exact hne e he heq
  · rw [List.map_cons, List.mem_cons, h.mem_iff, mem_keys_without, mem_keys_without, ← or_and_right]
    by_cases hj : j = k
    · subst hj
      exact ⟨fun _ => hkey, fun _ => Or.inl rfl⟩
    · exact ⟨fun hmem => (hmem.resolve_left hj).1, fun hmem => Or.inr ⟨hmem, hj⟩⟩
  · rintro e he
    rcases List.mem_cons.mp he with rfl | he
    · exact hl
    · rw [h.left_eq e he, group_without (hne e he)]
  · rintro e he
    rcases List.mem_cons.mp he with rfl | he
    · exact hm
    · rw [h.right_eq e he, group_without (hne e he)]

end Grouping
