import AcpltKs.Plt.HashTableProbing

/-! What the operations of the hash table do to its associations. -/
namespace AcpltKs
open OpenAddressing

namespace PltHashTable
variable {K V : Type*} [PltKey K] {t t' : PltHashTable K V}

/-- The table has been left alone but for its slots and counts. -/
structure SameLimits (t t' : PltHashTable K V) : Prop where
  minCapacity : t'.minCapacity = t.minCapacity
  lowwater : t'.lowwater = t.lowwater
  highwater : t'.highwater = t.highwater
  medwater : t'.medwater = t.medwater

omit [PltKey K] in
theorem SameLimits.refl (t : PltHashTable K V) : t.SameLimits t := ⟨rfl, rfl, rfl, rfl⟩

omit [PltKey K] in
theorem SameLimits.trans {t'' : PltHashTable K V} (h : t.SameLimits t') (h' : t'.SameLimits t'') :
    t.SameLimits t'' :=
  ⟨h'.1.trans h.1, h'.2.trans h.2, h'.3.trans h.3, h'.4.trans h.4⟩

/-- Is there an association with this key? -/
def Contains (t : PltHashTable K V) (key : K) : Prop := ∃ p ∈ t.entries, (p.1 == key) = true

theorem probe_of_capacity (h : t'.capacity = t.capacity) (key : K) (n : ℕ) :
    t'.probe key n = t.probe key n := by
  induction n with
  | zero => rw [probe, probe, collidx, collidx, h]
  | succ n ih => rw [probe, probe, collidx, collidx, h, ih]

section Primes
variable {minCap p : ℕ}

theorem primeFor_spec (h : primeFor minCap = some p) : p ∈ primes ∧ minCap ≤ p :=
  ⟨List.mem_of_find?_eq_some h, by simpa using List.find?_some h⟩

theorem seven_le_of_mem_primes : ∀ p ∈ primes, 7 ≤ p := by decide

theorem le_of_mem_primes : ∀ p ∈ primes, p ≤ 1837408799 := by decide

theorem primeFor_pos (h : primeFor minCap = some p) : 0 < p :=
  Nat.zero_lt_of_lt (seven_le_of_mem_primes p (primeFor_spec h).1)

/-- What the prime table can satisfy. -/
theorem primeFor_isSome : (primeFor minCap).isSome ↔ minCap ≤ 1837408799 := by
  rw [primeFor, List.find?_isSome]
  constructor
  · rintro ⟨p, hp, hle⟩
    have := le_of_mem_primes p hp
    simp only [not_lt, decide_eq_true_eq] at hle
    omega
  · exact fun h => ⟨1837408799, by decide, by simpa using h⟩

end Primes

section Lawful
variable [LawfulPltKey K]

/-- Putting an association with a new key into a slot that its search has come to. -/
theorem Valid.put {p : K × V} {x : ℕ} (h : t.Valid) (hx : x < t.capacity)
    (hfree : usedSlot (t.table x) = false) (hnew : ¬ t.Contains p.1)
    (hpath : ∃ m, t.probe p.1 m = x ∧ ∀ l < m, t.table (t.probe p.1 l) ≠ .empty)
    (hcapacity : t'.capacity = t.capacity) (htable : t'.table = Function.update t.table x (.used p))
    (hused : t'.used + (t.table x).occupied = t.used + 1)
    (hdeleted : t'.deleted + (t.table x).deletions = t.deleted) :
    t'.Valid ∧ t'.entries = p ::ₘ t.entries := by
  have hoccupied := total_update Slot.occupied hx (.used p) (σ := t.table)
  have hdeletions := total_update Slot.deletions hx (.used p) (σ := t.table)
  have hentries := total_update Slot.entries hx (.used p) (σ := t.table)
  simp only [Slot.occupied_used, Slot.deletions_used, Slot.entries_used]
    at hoccupied hdeletions hentries
  have hkeeps : ∀ i, t.table i ≠ .empty → t'.table i ≠ .empty := by
    intro i hi
    rw [htable]
    by_cases hix : i = x
    · simp [hix]
    · rwa [Function.update_of_ne hix]
  have hother : ∀ {i q}, t'.table i = .used q → i ≠ x → t.table i = .used q := by
    intro i q hq hix
    rwa [htable, Function.update_of_ne hix] at hq
  have hself : ∀ {q}, t'.table x = .used q → q = p := by
    intro q hq
    rw [htable, Function.update_self, Slot.used.injEq] at hq
    exact hq.symm
  have hnotin : ∀ {i q}, i < t.capacity → t.table i = .used q → (q.1 == p.1) = false := by
    intro i q hi hq
    by_contra hne
    exact hnew ⟨q, mem_entries.mpr ⟨i, hi, hq⟩, by simpa using hne⟩
  refine ⟨⟨hcapacity ▸ h.positive, ?_, ?_, ?_, ?_⟩, ?_⟩
  · rw [htable, hcapacity]
    have := h.used_eq
    omega
  · rw [htable, hcapacity]
    have := h.deleted_eq
    omega
  · intro i hi j hj q r hq hr hqr
    rw [hcapacity] at hi hj
    by_cases hix : i = x
    · by_cases hjx : j = x
      · rw [hix, hjx]
      · obtain rfl := hself (hix ▸ hq)
        have := hnotin hj (hother hr hjx)
        rw [LawfulPltKey.symm _ _ hqr] at this
        exact absurd this (by simp)
    · by_cases hjx : j = x
      · obtain rfl := hself (hjx ▸ hr)
        have := hnotin hi (hother hq hix)
        rw [hqr] at this
        exact absurd this (by simp)
      · exact h.distinct i hi j hj q r (hother hq hix) (hother hr hjx) hqr
  · intro i hi q hq
    rw [hcapacity] at hi
    by_cases hix : i = x
    · subst hix
      obtain rfl := hself hq
      obtain ⟨m, hm, hall⟩ := hpath
      refine ⟨m, by rw [probe_of_capacity hcapacity, hm], fun l hl => ?_⟩
      rw [probe_of_capacity hcapacity]
      rcases Nat.eq_or_lt_of_le hl with rfl | hlt
      · rw [hm, hq]
        simp
      · exact hkeeps _ (hall l hlt)
    · obtain ⟨m, hm, hall⟩ := h.reached i hi q (hother hq hix)
      refine ⟨m, by rw [probe_of_capacity hcapacity, hm], fun l hl => ?_⟩
      rw [probe_of_capacity hcapacity]
      exact hkeeps _ (hall l hl)
  · have hnone : (t.table x).entries = 0 := by
      cases hs : t.table x <;> simp [hs, usedSlot, Slot.entries] at hfree ⊢
    rw [hnone, add_zero, add_comm, Multiset.singleton_add] at hentries
    rw [entries, hcapacity, htable]
    exact hentries

/-- Inserting an association whose key is there changes nothing; with a new key, it is added. -/
theorem insert_spec (h : t.Valid) (hroom : t.used < t.capacity) (p : K × V) :
    t.Contains p.1 ∧ t.insert p = some (false, t) ∨
      ¬ t.Contains p.1 ∧ ∃ t', t.insert p = some (true, t') ∧ t'.Valid ∧
        t'.entries = p ::ₘ t.entries ∧ t'.capacity = t.capacity ∧ t.SameLimits t' ∧
        t'.used ≤ t.used + 1 := by
  obtain ⟨k, hk, hcases⟩ := follow_spec h hroom p.1
  obtain ⟨-, -, hbefore⟩ := follow_eq_some hk
  have hlt := t.probe_lt h.positive p.1
  have hloop := t.insertLoop_eq p.1 t.rounds 0 t.capacity
  simp only [hk] at hloop
  obtain ⟨d, hloop, hd⟩ := hloop
  have hloop : t.insertLoop p.1 t.rounds (t.collidx (PltKey.hash p.1) 0) 1 t.capacity = _ := hloop
  have hpassed : ∀ l < k, t.table (t.probe p.1 l) ≠ .empty := fun l hl he => by
    simpa [he, Slot.stops] using hbefore l (Nat.zero_le _) hl
  rcases hcases with ⟨q, hs, hq⟩ | ⟨hs, hnone⟩
  · refine Or.inl ⟨⟨q, mem_entries.mpr ⟨_, hlt k, hs⟩, hq⟩, ?_⟩
    simp only [insert, h.positive.ne', ↓reduceIte, hloop, hs, usedSlot]
  · have hnew : ¬ t.Contains p.1 := by
      rintro ⟨q, hmem, hq⟩
      simp [hnone q hmem] at hq
    refine Or.inr ⟨hnew, ?_⟩
    rcases hd with rfl | ⟨l, -, hl, rfl, hdel⟩
    · obtain ⟨hvalid, hentries⟩ := h.put (hlt k) (by simp [hs, usedSlot]) hnew ⟨k, rfl, hpassed⟩
        (rfl : ({ t with
          table := Function.update t.table (t.probe p.1 k) (.used p)
          used := t.used + 1 } : PltHashTable K V).capacity = t.capacity) rfl
        (by simp [hs]) (by simp [hs])
      refine ⟨_, ?_, hvalid, hentries, rfl, ⟨rfl, rfl, rfl, rfl⟩, le_rfl⟩
      simp only [insert, h.positive.ne', ↓reduceIte, hloop, hs, usedSlot, lt_irrefl]
    · have hmarks : 0 < t.deleted := by
        have hle : (t.table (t.probe p.1 l)).deletions ≤ t.deleted := by
          rw [h.deleted_eq]
          exact Finset.single_le_sum (f := fun i => (t.table i).deletions)
            (fun _ _ => Nat.zero_le _) (Finset.mem_range.mpr (hlt l))
        rw [hdel] at hle
        exact hle
      obtain ⟨hvalid, hentries⟩ := h.put (hlt l) (by simp [hdel, usedSlot]) hnew
        ⟨l, rfl, fun i hi => hpassed i (hi.trans hl)⟩
        (rfl : ({ t with
          table := Function.update t.table (t.probe p.1 l) (.used p)
          deleted := t.deleted - 1 } : PltHashTable K V).capacity = t.capacity) rfl
        (by simp [hdel]) (by simp only [hdel, Slot.deletions_deleted]; omega)
      refine ⟨_, ?_, hvalid, hentries, rfl, ⟨rfl, rfl, rfl, rfl⟩, Nat.le_succ _⟩
      simp only [insert, h.positive.ne', ↓reduceIte, hloop, hs, usedSlot, hlt l]

/-- Rehashing: the associations of the old slots have different keys, so all of them get in. -/
theorem reinsert_spec (oldTable : ℕ → Slot (K × V)) (is : List ℕ) (h : t.Valid)
    (hmarks : t.deleted = 0) (hnodup : is.Nodup)
    (hnew : ∀ i ∈ is, ∀ p, oldTable i = .used p → ¬ t.Contains p.1)
    (hdistinct : ∀ i ∈ is, ∀ j ∈ is, ∀ p q, oldTable i = .used p → oldTable j = .used q →
      (p.1 == q.1) = true → i = j)
    (hroom : t.used + (is.map fun i => (oldTable i).entries).sum.card ≤ t.capacity) :
    ∃ t', reinsert oldTable is t = some t' ∧ t'.Valid ∧ t'.deleted = 0 ∧
      t'.entries = (is.map fun i => (oldTable i).entries).sum + t.entries ∧
      t'.capacity = t.capacity ∧ t.SameLimits t' := by
  induction is generalizing t with
  | nil => exact ⟨t, rfl, h, hmarks, (zero_add _).symm, rfl, .refl t⟩
  | cons i is ih =>
    obtain ⟨hi, hnodup⟩ := List.nodup_cons.mp hnodup
    have hnew' := fun j hj => hnew j (List.mem_cons_of_mem i hj)
    have hdistinct' := fun j hj k hk =>
      hdistinct j (List.mem_cons_of_mem i hj) k (List.mem_cons_of_mem i hk)
    cases hs : oldTable i with
    | empty | deleted =>
      simp only [List.map_cons, hs, Slot.entries_empty, Slot.entries_deleted, List.sum_cons,
        zero_add, reinsert] at hroom ⊢
      exact ih h hmarks hnodup hnew' hdistinct' hroom
    | used p =>
      simp only [List.map_cons, hs, Slot.entries_used, List.sum_cons, Multiset.card_add,
        Multiset.card_singleton, reinsert] at hroom ⊢
      obtain ⟨hin, -⟩ | ⟨-, t₁, hinsert, hvalid, hentries, hcapacity, hlimits, hused⟩ :=
        insert_spec h (by omega) p
      · exact absurd hin (hnew i List.mem_cons_self p hs)
      · have hcard := h.card_add
        have hcard₁ := hvalid.card_add
        rw [hentries, Multiset.card_cons] at hcard₁
        have hnew₁ : ∀ j ∈ is, ∀ q, oldTable j = .used q → ¬ t₁.Contains q.1 := by
          rintro j hj q hq ⟨r, hr, hrq⟩
          rcases Multiset.mem_cons.mp (hentries ▸ hr) with rfl | hr
          · have := hdistinct i List.mem_cons_self j (List.mem_cons_of_mem i hj) _ _ hs hq hrq
            exact hi (this ▸ hj)
          · exact hnew' j hj q hq ⟨r, hr, hrq⟩
        obtain ⟨t', hrest, hvalid', hmarks', hentries', hcapacity', hlimits'⟩ :=
          ih hvalid (by omega) hnodup hnew₁ hdistinct' (by omega)
        refine ⟨t', by simp only [hinsert, hrest], hvalid', hmarks', ?_,
          hcapacity'.trans hcapacity, hlimits.trans hlimits'⟩
        rw [hentries', hentries, Multiset.add_cons, Multiset.singleton_add, Multiset.cons_add]

omit [LawfulPltKey K] in
/-- An empty table. -/
theorem Valid.of_empty (hpos : 0 < t.capacity) (htable : t.table = fun _ => .empty)
    (hused : t.used = 0) (hdeleted : t.deleted = 0) : t.Valid ∧ t.entries = 0 := by
  refine ⟨⟨hpos, ?_, ?_, ?_, ?_⟩, ?_⟩
  · simp [hused, htable, total]
  · simp [hdeleted, htable, total]
  · intro i _ j _ p q hp
    simp [htable] at hp
  · intro i _ p hp
    simp [htable] at hp
  · simp [entries, OpenAddressing.entries, htable, total]

/-- What the table is rehashed to. -/
theorem changeCapacity_spec (h : t.Valid) (cap : ℕ) :
    primeFor (max t.minCapacity cap) = none ∧ t.changeCapacity cap = some (false, t) ∨
      primeFor (max t.minCapacity cap) = some t.capacity ∧
        t.changeCapacity cap = some (true, t) ∨
      ∃ newCap, primeFor (max t.minCapacity cap) = some newCap ∧ newCap ≠ t.capacity ∧
        (t.entries.card ≤ newCap → ∃ t', t.changeCapacity cap = some (true, t') ∧ t'.Valid ∧
          t'.deleted = 0 ∧ t'.entries = t.entries ∧ t'.capacity = newCap ∧ t.SameLimits t') := by
  have hmin : (if cap < t.minCapacity then t.minCapacity else cap) = max t.minCapacity cap := by
    split <;> omega
  cases hp : primeFor (max t.minCapacity cap) with
  | none => exact Or.inl ⟨rfl, by simp only [changeCapacity, hmin, hp]⟩
  | some newCap =>
    by_cases hsame : newCap = t.capacity
    · subst hsame
      exact Or.inr (Or.inl ⟨rfl, by simp only [changeCapacity, hmin, hp, ↓reduceIte]⟩)
    · refine Or.inr (Or.inr ⟨newCap, rfl, hsame, fun hroom => ?_⟩)
      obtain ⟨hempty, hnothing⟩ := Valid.of_empty
        (t := ({ t with
          table := fun _ => .empty
          used := 0
          deleted := 0
          capacity := newCap } : PltHashTable K V)) (primeFor_pos hp) rfl rfl rfl
      obtain ⟨t', hrehash, hvalid, hmarks, hentries, hcapacity, hlimits⟩ := reinsert_spec
        t.table (List.range t.capacity) hempty rfl List.nodup_range
        (fun i _ p _ ⟨q, hq, _⟩ => by simp [hnothing] at hq)
        (fun i hi j hj => h.distinct i (List.mem_range.mp hi) j (List.mem_range.mp hj))
        ((zero_add _).trans_le hroom)
      refine ⟨t', ?_, hvalid, hmarks, ?_, hcapacity, hlimits.1, hlimits.2, hlimits.3, hlimits.4⟩
      · simp only [changeCapacity, hmin, hp, hsame, ↓reduceIte, hrehash, Option.map_some]
      · rw [hentries, hnothing, add_zero]
        rfl

omit [LawfulPltKey K] in
/-- Replacing the association in slot `i` by a mark, or by another one with its key. -/
theorem Valid.amend {p : K × V} {i : ℕ} {s : Slot (K × V)} (h : t.Valid) (hi : i < t.capacity)
    (hslot : t.table i = .used p) (hs : s ≠ .empty) (hkey : ∀ q, s = .used q → q.1 = p.1)
    (hcapacity : t'.capacity = t.capacity) (htable : t'.table = Function.update t.table i s)
    (hused : t'.used = t.used) (hdeleted : t'.deleted = t.deleted + s.deletions) :
    t'.Valid ∧ p ::ₘ t'.entries = t.entries + s.entries := by
  have hoccupied := total_update Slot.occupied hi s (σ := t.table)
  have hdeletions := total_update Slot.deletions hi s (σ := t.table)
  have hentries := total_update Slot.entries hi s (σ := t.table)
  have hone : s.occupied = 1 := by cases s <;> simp at hs ⊢
  simp only [hslot, hone, Slot.occupied_used, Slot.deletions_used, Slot.entries_used, add_zero]
    at hoccupied hdeletions hentries
  have hold : ∀ {j q}, t'.table j = .used q → ∃ r, t.table j = .used r ∧ q.1 = r.1 := by
    intro j q hq
    rw [htable] at hq
    by_cases hji : j = i
    · rw [hji, Function.update_self] at hq
      exact ⟨p, hji ▸ hslot, hkey q hq⟩
    · rw [Function.update_of_ne hji] at hq
      exact ⟨q, hq, rfl⟩
  have hkeeps : ∀ j, t.table j ≠ .empty → t'.table j ≠ .empty := by
    intro j hj
    rw [htable]
    by_cases hji : j = i
    · rwa [hji, Function.update_self]
    · rwa [Function.update_of_ne hji]
  refine ⟨⟨hcapacity ▸ h.positive, ?_, ?_, ?_, ?_⟩, ?_⟩
  · rw [htable, hcapacity]
    have := h.used_eq
    omega
  · rw [htable, hcapacity]
    have := h.deleted_eq
    omega
  · intro j hj k hk q r hq hr hqr
    rw [hcapacity] at hj hk
    obtain ⟨q', hq', hqk⟩ := hold hq
    obtain ⟨r', hr', hrk⟩ := hold hr
    exact h.distinct j hj k hk q' r' hq' hr' (hqk ▸ hrk ▸ hqr)
  · intro j hj q hq
    rw [hcapacity] at hj
    obtain ⟨q', hq', hqk⟩ := hold hq
    obtain ⟨m, hm, hall⟩ := h.reached j hj q' hq'
    rw [← hqk] at hm hall
    refine ⟨m, by rw [probe_of_capacity hcapacity, hm], fun l hl => ?_⟩
    rw [probe_of_capacity hcapacity]
    exact hkeeps _ (hall l hl)
  · rw [entries, hcapacity, htable, ← Multiset.singleton_add, add_comm]
    exact hentries

end Lawful

/-- Does `add` change the capacity first? -/
def MustGrow (t : PltHashTable K V) : Prop :=
  t.capacity < t.used + 1 + 1 ∨ ((t.size + 1 : ℕ) : ℚ) > t.capacity * t.highwater

instance : Decidable t.MustGrow := inferInstanceAs (Decidable (_ ∨ _))

/-- The capacity that it asks for. -/
def growCap (t : PltHashTable K V) : ℕ := max ⌊(t.size : ℚ) / t.medwater⌋₊ (t.used + 1 + 1)

/-- It has to grow, and there is no prime for that. -/
def exhausted (t : PltHashTable K V) : Bool :=
  decide t.MustGrow && (primeFor (max t.minCapacity t.growCap)).isNone

/-- What the operations need, and leave: a slot that has never been used, and a medium load limit
that makes sense. -/
structure Sound (t : PltHashTable K V) : Prop where
  valid : t.Valid
  room : t.used < t.capacity
  medwater_pos : 0 < t.medwater
  medwater_lt : t.medwater < 1

theorem Sound.of_limits (h : t.Sound) (hvalid : t'.Valid) (hroom : t'.used < t'.capacity)
    (hlimits : t.SameLimits t') : t'.Sound :=
  ⟨hvalid, hroom, hlimits.medwater ▸ h.medwater_pos, hlimits.medwater ▸ h.medwater_lt⟩

/-- The limits shrink the table to no less than its associations. -/
theorem Sound.size_le (h : t.Sound) (n : ℕ) : n ≤ ⌊(n : ℚ) / t.medwater⌋₊ := by
  refine Nat.le_floor ((le_div_iff₀ h.medwater_pos).mpr ?_)
  exact mul_le_of_le_one_right (Nat.cast_nonneg n) h.medwater_lt.le

section Lawful
variable [LawfulPltKey K]

/-- `add` does what it should unless the primes are exhausted. -/
theorem add_spec (h : t.Sound) (p : K × V) :
    t.exhausted = true ∧ t.add p.1 p.2 = some (false, t) ∨
      t.exhausted = false ∧ ∃ t', t'.Sound ∧ t.SameLimits t' ∧
        (t.Contains p.1 ∧ t.add p.1 p.2 = some (false, t') ∧ t'.entries = t.entries ∨
          ¬ t.Contains p.1 ∧ t.add p.1 p.2 = some (true, t') ∧ t'.entries = p ::ₘ t.entries) := by
  -- room for one more, before the insertion
  have hinsert : ∀ t₁ : PltHashTable K V, t₁.Valid → t₁.used + 2 ≤ t₁.capacity → t.SameLimits t₁ →
      t₁.entries = t.entries → ∃ t', t'.Sound ∧ t.SameLimits t' ∧
        (t.Contains p.1 ∧ t₁.insert p = some (false, t') ∧ t'.entries = t.entries ∨
          ¬ t.Contains p.1 ∧ t₁.insert p = some (true, t') ∧ t'.entries = p ::ₘ t.entries) := by
    intro t₁ hvalid hroom hlimits hentries
    have hcontains : t₁.Contains p.1 ↔ t.Contains p.1 := by rw [Contains, Contains, hentries]
    obtain ⟨hin, heq⟩ | ⟨hnew, t', heq, hvalid', hentries', hcapacity, hlimits', hused⟩ :=
      insert_spec hvalid (by omega) p
    · exact ⟨t₁, h.of_limits hvalid (by omega) hlimits, hlimits,
        Or.inl ⟨hcontains.mp hin, heq, hentries⟩⟩
    · exact ⟨t', h.of_limits hvalid' (by omega) (hlimits.trans hlimits'), hlimits.trans hlimits',
        Or.inr ⟨fun hin => hnew (hcontains.mpr hin), heq, hentries' ▸ hentries ▸ rfl⟩⟩
  by_cases hgrow : t.MustGrow
  · have hcap : (if ⌊(t.size : ℚ) / t.medwater⌋₊ < t.used + 1 + 1 then t.used + 1 + 1
        else ⌊(t.size : ℚ) / t.medwater⌋₊) = t.growCap := by
      unfold growCap
      split <;> omega
    have hadd : t.add p.1 p.2 = (t.changeCapacity t.growCap).bind fun r =>
        if r.1 then r.2.insert p else some (false, r.2) := by
      simp only [add, hcap]
      refine (if_pos hgrow).trans ?_
      rcases t.changeCapacity t.growCap with _ | ⟨_ | _, t₁⟩ <;> rfl
    have hle : t.used + 2 ≤ t.growCap := le_max_right _ _
    have hcard := h.valid.card_add
    rcases changeCapacity_spec h.valid t.growCap with
      ⟨hp, hchange⟩ | ⟨hp, hchange⟩ | ⟨newCap, hp, -, hchange⟩
    · exact Or.inl ⟨by simp [exhausted, hgrow, hp], by rw [hadd, hchange]; rfl⟩
    · refine Or.inr ⟨by simp [exhausted, hp], ?_⟩
      have hbound := (primeFor_spec hp).2
      rw [hadd, hchange, Option.bind_some, if_pos rfl]
      exact hinsert t h.valid (by omega) (.refl t) rfl
    · refine Or.inr ⟨by simp [exhausted, hp], ?_⟩
      have hbound := (primeFor_spec hp).2
      obtain ⟨t₁, hchange, hvalid, hmarks, hentries, hcapacity, hlimits⟩ := hchange (by omega)
      have hcard₁ := hvalid.card_add
      rw [hadd, hchange, Option.bind_some, if_pos rfl]
      refine hinsert t₁ hvalid ?_ hlimits hentries
      rw [hentries] at hcard₁
      omega
  · refine Or.inr ⟨by simp [exhausted, hgrow], ?_⟩
    have hadd : t.add p.1 p.2 = t.insert p := if_neg hgrow
    rw [hadd]
    rw [MustGrow, not_or] at hgrow
    exact hinsert t h.valid (by omega) (.refl t) rfl

end Lawful

section Marks
variable {b : Bool}

/-- There are no more marks than before, and the minimum capacity is the same. -/
structure NoMoreMarks (t t' : PltHashTable K V) : Prop where
  deleted_le : t'.deleted ≤ t.deleted
  minCapacity : t'.minCapacity = t.minCapacity

omit [PltKey K] in
theorem NoMoreMarks.refl (t : PltHashTable K V) : t.NoMoreMarks t := ⟨le_rfl, rfl⟩

omit [PltKey K] in
theorem NoMoreMarks.trans {t'' : PltHashTable K V} (h : t.NoMoreMarks t')
    (h' : t'.NoMoreMarks t'') : t.NoMoreMarks t'' :=
  ⟨h'.1.trans h.1, h'.2.trans h.2⟩

theorem insert_noMoreMarks {p : K × V} (h : t.insert p = some (b, t')) : t.NoMoreMarks t' := by
  unfold insert at h
  split at h
  · cases h
  · split at h
    · cases h
    · cases h
      exact .refl _
    · split at h
      · cases h
        exact ⟨Nat.sub_le _ _, rfl⟩
      · cases h
        exact ⟨le_rfl, rfl⟩

theorem reinsert_noMoreMarks {oldTable : ℕ → Slot (K × V)} {is : List ℕ}
    (h : reinsert oldTable is t = some t') : t.NoMoreMarks t' := by
  induction is generalizing t with
  | nil =>
    cases h
    exact .refl _
  | cons i is ih =>
    unfold reinsert at h
    split at h
    · split at h
      · cases h
      · rename_i hinsert
        exact (insert_noMoreMarks hinsert).trans (ih h)
    · exact ih h

theorem changeCapacity_noMoreMarks {cap : ℕ} (h : t.changeCapacity cap = some (b, t')) :
    t.NoMoreMarks t' := by
  unfold changeCapacity at h
  simp only at h
  split at h
  · cases h
    exact .refl t
  · split at h
    · cases h
      exact .refl t
    · obtain ⟨t₁, hreinsert, heq⟩ := Option.map_eq_some_iff.mp h
      cases heq
      have hrehash := reinsert_noMoreMarks hreinsert
      exact ⟨hrehash.deleted_le.trans (Nat.zero_le _), hrehash.minCapacity⟩

theorem add_noMoreMarks {key : K} {value : V} (h : t.add key value = some (b, t')) :
    t.NoMoreMarks t' := by
  unfold add at h
  simp only at h
  split at h
  · split at h
    · cases h
    · rename_i hchange
      cases h
      exact changeCapacity_noMoreMarks hchange
    · rename_i hchange
      exact (changeCapacity_noMoreMarks hchange).trans (insert_noMoreMarks h)
  · exact insert_noMoreMarks h

/-- Without marks, the primes last for so many associations. -/
theorem exhausted_eq_false (h : t.Valid) (hmarks : t.deleted = 0) (hmin : t.minCapacity ≤ 11)
    (hmedwater : t.medwater = 3 / 5) (hcard : t.entries.card ≤ 1000000000) :
    t.exhausted = false := by
  have hsize := h.size_eq
  have hused := h.card_add
  have hfloor : ⌊(t.size : ℚ) / t.medwater⌋₊ ≤ 1837408799 := by
    refine Nat.floor_le_of_le ?_
    rw [hmedwater, div_le_iff₀ (by norm_num)]
    have hcast : (t.size : ℚ) ≤ 1000000000 := by exact_mod_cast hsize ▸ hcard
    push_cast
    linarith
  have hsome : (primeFor (max t.minCapacity t.growCap)).isSome = true := by
    rw [primeFor_isSome, growCap]
    omega
  rw [exhausted, Option.isNone_eq_false_iff.mpr hsome, Bool.and_false]

end Marks
end PltHashTable
end AcpltKs
