import AcpltKs.Plt.HashTable

/-! The probe loops of the hash table: they visit all slots, so they end as long as one is empty, and
what they find is what the table holds. -/
namespace AcpltKs
open OpenAddressing

namespace PltHashTable
variable {K V : Type*} [PltKey K] {t : PltHashTable K V} {key : K}

/-- The slots that a search for `key` visits. -/
def probe (t : PltHashTable K V) (key : K) : ℕ → ℕ
  | 0 => t.collidx (PltKey.hash key) 0
  | n + 1 => t.collidx (t.probe key n) (2 * n + 1)

theorem probe_lt (h : 0 < t.capacity) (key : K) (n : ℕ) : t.probe key n < t.capacity := by
  cases n <;> exact Nat.mod_lt _ h

/-- From the seventh slot on, the probes are linear. -/
theorem probe_linear (h : 0 < t.capacity) (key : K) (n : ℕ) :
    t.probe key (n + 6) = (t.probe key 6 + n) % t.capacity := by
  induction n with
  | zero => exact (Nat.mod_eq_of_lt (probe_lt h key 6)).symm
  | succ n ih =>
    have hstep : t.probe key (n + 1 + 6) = (t.probe key (n + 6) + 1) % t.capacity := by
      rw [show n + 1 + 6 = (n + 6) + 1 by omega, probe, collidx, if_neg (by omega)]
    rw [hstep, ih, Nat.mod_add_mod, Nat.add_assoc]

/-- All slots are visited within the rounds. -/
theorem probe_covers (key : K) {x : ℕ} (hx : x < t.capacity) :
    ∃ l < t.rounds, t.probe key l = x := by
  have hpos : 0 < t.capacity := Nat.zero_lt_of_lt hx
  have hstart := probe_lt hpos key 6
  refine ⟨(x + (t.capacity - t.probe key 6)) % t.capacity + 6, ?_, ?_⟩
  · have := Nat.mod_lt (x + (t.capacity - t.probe key 6)) hpos
    unfold rounds
    omega
  · rw [probe_linear hpos, Nat.add_mod_mod, ← Nat.add_assoc, Nat.add_comm _ x,
      Nat.add_assoc, Nat.add_sub_cancel' hstart.le, Nat.add_mod_right, Nat.mod_eq_of_lt hx]

/-- Is it the association of `key`? -/
def matchesKey (key : K) (p : K × V) : Bool := p.1 == key

/-- The loop of `locate` follows the probes. -/
theorem locateLoop_eq (t : PltHashTable K V) (key : K) (fuel n : ℕ) :
    t.locateLoop key fuel (t.probe key n) (2 * n + 1) =
      (follow t.table (t.probe key) (matchesKey key) fuel n).map fun k =>
        if usedSlot (t.table (t.probe key k)) then t.probe key k else t.capacity := by
  induction fuel generalizing n with
  | zero => rfl
  | succ fuel ih =>
    have hnext : t.locateLoop key fuel (t.collidx (t.probe key n) (2 * n + 1)) (2 * n + 1 + 2) = _ :=
      ih (n + 1)
    cases hs : t.table (t.probe key n) with
    | empty => simp [locateLoop, follow, hs, Slot.stops, usedSlot]
    | deleted => simpa [locateLoop, follow, hs, Slot.stops] using hnext
    | used p =>
      by_cases hp : (p.1 == key) = true
      · simp [locateLoop, follow, hs, Slot.stops, matchesKey, hp, usedSlot]
      · simpa [locateLoop, follow, hs, Slot.stops, matchesKey, hp] using hnext

/-- So does the loop of `insert`, which notes a mark it has passed. -/
theorem insertLoop_eq (t : PltHashTable K V) (key : K) (fuel n d : ℕ) :
    match follow t.table (t.probe key) (matchesKey key) fuel n with
    | none => t.insertLoop key fuel (t.probe key n) (2 * n + 1) d = none
    | some k => ∃ d', t.insertLoop key fuel (t.probe key n) (2 * n + 1) d =
          some (usedSlot (t.table (t.probe key k)), t.probe key k, d') ∧
        (d' = d ∨ ∃ l, n ≤ l ∧ l < k ∧ t.probe key l = d' ∧ t.table d' = .deleted) := by
  induction fuel generalizing n d with
  | zero => rfl
  | succ fuel ih =>
    have hnext := ih (n + 1)
    have hmore : ∀ {k d'}, (∃ l, n + 1 ≤ l ∧ l < k ∧ t.probe key l = d' ∧ t.table d' = .deleted) →
        ∃ l, n ≤ l ∧ l < k ∧ t.probe key l = d' ∧ t.table d' = .deleted :=
      fun ⟨l, hl, hrest⟩ => ⟨l, by omega, hrest⟩
    cases hs : t.table (t.probe key n) with
    | empty =>
      have hf : follow t.table (t.probe key) (matchesKey key) (fuel + 1) n = some n := by
        simp [follow, hs, Slot.stops]
      simp [hf, insertLoop, hs, usedSlot]
    | deleted =>
      have hf : follow t.table (t.probe key) (matchesKey key) (fuel + 1) n =
          follow t.table (t.probe key) (matchesKey key) fuel (n + 1) := by
        simp [follow, hs, Slot.stops]
      have hl : t.insertLoop key (fuel + 1) (t.probe key n) (2 * n + 1) d =
          t.insertLoop key fuel (t.probe key (n + 1)) (2 * (n + 1) + 1) (t.probe key n) := by
        simp only [insertLoop, hs]
        rfl
      rw [hf, hl]
      have hnext := hnext (t.probe key n)
      cases hk : follow t.table (t.probe key) (matchesKey key) fuel (n + 1) with
      | none => simpa only [hk] using hnext
      | some k =>
        simp only [hk] at hnext
        obtain ⟨d', hloop, rfl | hd⟩ := hnext
        · exact ⟨_, hloop, Or.inr ⟨n, le_rfl, by have := (follow_eq_some hk).1; omega, rfl, hs⟩⟩
        · exact ⟨d', hloop, Or.inr (hmore hd)⟩
    | used p =>
      by_cases hp : (p.1 == key) = true
      · have hf : follow t.table (t.probe key) (matchesKey key) (fuel + 1) n = some n := by
          simp [follow, hs, Slot.stops, matchesKey, hp]
        simp [hf, insertLoop, hs, usedSlot, hp]
      · have hf : follow t.table (t.probe key) (matchesKey key) (fuel + 1) n =
            follow t.table (t.probe key) (matchesKey key) fuel (n + 1) := by
          simp [follow, hs, Slot.stops, matchesKey, hp]
        have hl : t.insertLoop key (fuel + 1) (t.probe key n) (2 * n + 1) d =
            t.insertLoop key fuel (t.probe key (n + 1)) (2 * (n + 1) + 1) d := by
          simp only [insertLoop, hs, hp, Bool.false_eq_true, ↓reduceIte]
          rfl
        rw [hf, hl]
        have hnext := hnext d
        cases hk : follow t.table (t.probe key) (matchesKey key) fuel (n + 1) with
        | none => simpa only [hk] using hnext
        | some k =>
          simp only [hk] at hnext
          obtain ⟨d', hloop, hd⟩ := hnext
          exact ⟨d', hloop, hd.imp_right hmore⟩

/-- The associations in the table. -/
def entries (t : PltHashTable K V) : Multiset (K × V) := OpenAddressing.entries t.table t.capacity

/-- The counts are those of the slots, no two associations have equal keys, and every association is
found by a search for its key. -/
structure Valid (t : PltHashTable K V) : Prop where
  positive : 0 < t.capacity
  used_eq : t.used = total Slot.occupied t.table t.capacity
  deleted_eq : t.deleted = total Slot.deletions t.table t.capacity
  distinct : ∀ i < t.capacity, ∀ j < t.capacity, ∀ p q, t.table i = .used p →
    t.table j = .used q → (p.1 == q.1) = true → i = j
  reached : ∀ i < t.capacity, ∀ p, t.table i = .used p → Reaches t.table (t.probe p.1) i

theorem Valid.card_add (h : t.Valid) : t.entries.card + t.deleted = t.used := by
  rw [h.used_eq, h.deleted_eq]
  exact OpenAddressing.card_entries_add t.table t.capacity

theorem Valid.size_eq (h : t.Valid) : t.size = t.entries.card := by
  have := h.card_add
  unfold size
  omega

section Search
variable [LawfulPltKey K]

/-- The probes depend on the key only through its hash. -/
theorem probe_congr {k l : K} (h : (k == l) = true) (n : ℕ) : t.probe k n = t.probe l n := by
  induction n with
  | zero => rw [probe, probe, LawfulPltKey.hash_eq k l h]
  | succ n ih => rw [probe, probe, ih]

/-- With an empty slot, a search for a key ends at its association, or at an empty slot if there is
none. -/
theorem follow_spec (h : t.Valid) (hroom : t.used < t.capacity) (key : K) :
    ∃ k, follow t.table (t.probe key) (matchesKey key) t.rounds 0 = some k ∧
      ((∃ p, t.table (t.probe key k) = .used p ∧ (p.1 == key) = true) ∨
        t.table (t.probe key k) = .empty ∧ ∀ p ∈ t.entries, (p.1 == key) = false) := by
  obtain ⟨x, hx, hempty⟩ := exists_empty (h.used_eq ▸ hroom)
  obtain ⟨k, hk⟩ := follow_terminates (p := matchesKey key) hempty (t.probe_covers key hx)
  refine ⟨k, hk, ?_⟩
  obtain ⟨-, hstop, -⟩ := follow_eq_some hk
  cases hs : t.table (t.probe key k) with
  | deleted => simp [hs, Slot.stops] at hstop
  | used p => exact Or.inl ⟨p, rfl, by simpa [hs, Slot.stops, matchesKey] using hstop⟩
  | empty =>
    refine Or.inr ⟨rfl, fun p hp => ?_⟩
    obtain ⟨i, hi, hused⟩ := mem_entries.mp hp
    by_contra hne
    have hkey : (p.1 == key) = true := by simpa using hne
    have hreach : Reaches t.table (t.probe key) i := by
      obtain ⟨m, hm, hall⟩ := h.reached i hi p hused
      exact ⟨m, by rwa [← t.probe_congr hkey m], fun l hl => by
        rw [← t.probe_congr hkey l]
        exact hall l hl⟩
    obtain ⟨k', b, hk', hb, -⟩ := follow_of_reaches (p := matchesKey key) hreach hused hkey
      (t.probe_covers key hi)
    obtain rfl : k = k' := by simpa [hk] using hk'
    simp [hs] at hb

/-- The association of a key is found, if there is one. -/
theorem lookupAssoc_spec (h : t.Valid) (hroom : t.used < t.capacity) (key : K) :
    (∃ i p, i < t.capacity ∧ t.table i = .used p ∧ (p.1 == key) = true ∧
        t.locate key = some i ∧ t.lookupAssoc key = some (some (i, p))) ∨
      t.locate key = some t.capacity ∧ t.lookupAssoc key = some none ∧
        ∀ p ∈ t.entries, (p.1 == key) = false := by
  obtain ⟨k, hk, hcases⟩ := follow_spec h hroom key
  have hlt := t.probe_lt h.positive key k
  have hloop : t.locate key = some
      (if usedSlot (t.table (t.probe key k)) then t.probe key k else t.capacity) := by
    rw [locate, if_neg h.positive.ne']
    exact (t.locateLoop_eq key t.rounds 0).trans (by rw [hk]; rfl)
  rcases hcases with ⟨p, hs, hp⟩ | ⟨hs, hnone⟩
  · rw [hs] at hloop
    exact Or.inl ⟨_, p, hlt, hs, hp, hloop, by simp [lookupAssoc, hloop, usedSlot, hlt, hs]⟩
  · rw [hs] at hloop
    exact Or.inr ⟨hloop, by simp [lookupAssoc, hloop, usedSlot], hnone⟩

end Search
end PltHashTable
end AcpltKs
