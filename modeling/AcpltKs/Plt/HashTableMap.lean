import AcpltKs.Plt.HashTableRoom

/-! The hash table as a finite map from keys to values, and what its iterators yield. -/
namespace AcpltKs
open OpenAddressing

namespace PltHashTable
variable {K V : Type*} {t t' : PltHashTable K V}

section Iterators

/-- The association in slot `i`. -/
def assocAt (t : PltHashTable K V) (i : ℕ) : Option (K × V) :=
  match t.table i with
  | .used p => some p
  | _ => none

theorem assocAt_eq_some {i : ℕ} {p : K × V} : t.assocAt i = some p ↔ t.table i = .used p := by
  cases hs : t.table i <;> simp [assocAt, hs]

theorem usedSlot_eq_false {i : ℕ} : usedSlot (t.table i) = false ↔ t.assocAt i = none := by
  cases hs : t.table i <;> simp [assocAt, hs, usedSlot]

/-- The associations from slot `i` on. -/
def assocsFrom (t : PltHashTable K V) (i : ℕ) : List (K × V) :=
  (List.range' i (t.capacity - i)).filterMap t.assocAt

theorem assocsFrom_step {i : ℕ} (h : i < t.capacity) :
    t.assocsFrom i = (t.assocAt i).toList ++ t.assocsFrom (i + 1) := by
  rw [assocsFrom, show t.capacity - i = (t.capacity - (i + 1)) + 1 by omega, List.range'_succ]
  cases ha : t.assocAt i <;> simp [ha, assocsFrom]

theorem assocsFrom_end {i : ℕ} (h : t.capacity ≤ i) : t.assocsFrom i = [] := by
  rw [assocsFrom, Nat.sub_eq_zero_of_le h, List.range'_zero, List.filterMap_nil]

/-- An iterator passes no association. -/
theorem advanceLoop_spec (fuel : ℕ) {i : ℕ} (hfuel : t.capacity ≤ i + fuel) :
    t.assocsFrom (t.advanceLoop fuel i) = t.assocsFrom i ∧ i ≤ t.advanceLoop fuel i ∧
      (t.advanceLoop fuel i < t.capacity → usedSlot (t.table (t.advanceLoop fuel i)) = true) := by
  induction fuel generalizing i with
  | zero => exact ⟨rfl, le_rfl, fun h => absurd h (by simp only [advanceLoop]; omega)⟩
  | succ fuel ih =>
    by_cases h : i < t.capacity ∧ usedSlot (t.table i) = false
    · rw [advanceLoop, if_pos h]
      obtain ⟨heq, hle, hused⟩ := ih (show t.capacity ≤ i + 1 + fuel by omega)
      rw [heq, assocsFrom_step h.1, usedSlot_eq_false.mp h.2]
      exact ⟨rfl, by omega, hused⟩
    · rw [advanceLoop, if_neg h]
      exact ⟨rfl, le_rfl, fun hlt => by simpa [hlt] using h⟩

theorem iterateFrom_eq (fuel : ℕ) {i : ℕ} (hfuel : t.capacity ≤ i + fuel)
    (hused : i < t.capacity → usedSlot (t.table i) = true) :
    t.iterateFrom fuel i = t.assocsFrom i := by
  induction fuel generalizing i with
  | zero => exact (assocsFrom_end hfuel).symm
  | succ fuel ih =>
    by_cases hlt : i < t.capacity
    · obtain ⟨hrest, hle, hnext⟩ :=
        advanceLoop_spec (t := t) t.capacity (show t.capacity ≤ i + 1 + t.capacity by omega)
      have htail := ih (i := t.advance i) (by unfold advance; omega) hnext
      cases hs : t.table i with
      | empty | deleted => simp [hs, usedSlot, hlt] at hused
      | used p =>
        rw [assocsFrom_step hlt, assocAt_eq_some.mpr hs, ← hrest]
        simp only [iterateFrom, hlt, ↓reduceIte, hs, htail]
        rfl
    · rw [assocsFrom_end (by omega)]
      simp only [iterateFrom, hlt, ↓reduceIte]

/-- An iterator yields the associations in the order of their slots. -/
theorem iterate_eq (t : PltHashTable K V) : t.iterate = t.assocsFrom 0 := by
  rw [iterate, toStart]
  split
  · next h =>
    obtain ⟨hrest, -, hused⟩ :=
      advanceLoop_spec (t := t) t.capacity (show t.capacity ≤ 0 + 1 + t.capacity by omega)
    have hstart := assocsFrom_step h.1
    rw [usedSlot_eq_false.mp h.2] at hstart
    exact (iterateFrom_eq t.capacity (by omega) hused).trans (hrest.trans hstart.symm)
  · next h => exact iterateFrom_eq t.capacity (by omega) fun hlt => by simpa [hlt] using h

theorem coe_iterate (t : PltHashTable K V) [PltKey K] : (t.iterate : Multiset (K × V)) = t.entries := by
  have hcoe : ∀ n, (((List.range n).filterMap t.assocAt : List (K × V)) : Multiset (K × V)) =
      OpenAddressing.entries t.table n := by
    intro n
    induction n with
    | zero => rfl
    | succ n ih =>
      rw [OpenAddressing.entries, total_succ, List.range_succ, List.filterMap_append,
        ← Multiset.coe_add, ih]
      cases hs : t.table n <;> simp [assocAt, hs, OpenAddressing.entries]
  rw [iterate_eq, assocsFrom, Nat.sub_zero, ← List.range_eq_range']
  exact hcoe t.capacity

end Iterators

section Maps
variable [PltKey K]

/-- A finite map with `key` set to `value`. -/
def setKey (m : K → Option V) (key : K) (value : V) : K → Option V :=
  fun k => if key == k then some value else m k

def eraseKey (m : K → Option V) (key : K) : K → Option V := fun k => if key == k then none else m k

/-- What an operation returns on a finite map, and what it makes of it. Nothing can be added if the
primes are exhausted. -/
def Op.onMap (m : K → Option V) (exhausted : Bool) : Op K V → Result V × (K → Option V)
  | .add key value =>
      if (m key).isSome ∨ exhausted then (.done false, m) else (.done true, setKey m key value)
  | .remove key => (.value (m key), eraseKey m key)
  | .query key => (.value (m key), m)
  | .update key value =>
      match m key with
      | some oldValue => (.updated true (some oldValue), setKey m key value)
      | none =>
          if exhausted then (.updated false none, m)
          else (.updated true none, setKey m key value)
  | .reset _ => (.done true, fun _ => none)

/-- The values of the keys are those of the associations. -/
def Maps (ps : Multiset (K × V)) (m : K → Option V) : Prop :=
  ∀ key value, m key = some value ↔ ∃ p ∈ ps, (p.1 == key) = true ∧ p.2 = value

/-- An iterator yields every association of the map, and none twice. -/
structure Iterates (t : PltHashTable K V) (m : K → Option V) : Prop where
  complete : ∀ key value, m key = some value ↔ ∃ p ∈ t.iterate, (p.1 == key) = true ∧ p.2 = value
  distinct : t.iterate.Pairwise fun p q => (p.1 == q.1) = false

/-- The operations give the same results on the table and on the map, and iterators yield the map
all the time. -/
def Refines (t : PltHashTable K V) (m : K → Option V) : List (Op K V) → Prop
  | [] => t.Iterates m
  | op :: ops => t.Iterates m ∧ ∃ t', t.perform op = some ((op.onMap m t.exhausted).1, t') ∧
      t'.Refines (op.onMap m t.exhausted).2 ops

theorem Valid.pairwise_iterate (h : t.Valid) :
    t.iterate.Pairwise fun p q => (p.1 == q.1) = false := by
  rw [iterate_eq, assocsFrom, Nat.sub_zero, ← List.range_eq_range', List.pairwise_filterMap]
  refine List.nodup_range.imp_of_mem fun {i j} hi hj hne p hp q hq => ?_
  have hdistinct := h.distinct i (List.mem_range.mp hi) j (List.mem_range.mp hj) p q
    (assocAt_eq_some.mp hp) (assocAt_eq_some.mp hq)
  by_contra heq
  exact hne (hdistinct (by simpa using heq))

theorem Maps.iterates {m : K → Option V} (h : t.Valid) (hm : Maps t.entries m) : t.Iterates m := by
  refine ⟨fun key value => ?_, h.pairwise_iterate⟩
  rw [hm, ← coe_iterate]
  simp only [Multiset.mem_coe]

section Lawful
variable [LawfulPltKey K] {ps qs : Multiset (K × V)} {m : K → Option V} {p : K × V} {key : K}

theorem beq_comm (k l : K) : (k == l) = (l == k) :=
  Bool.eq_iff_iff.mpr ⟨LawfulPltKey.symm k l, LawfulPltKey.symm l k⟩

/-- The other associations have other keys. -/
theorem Valid.of_cons (h : t.Valid) (hp : t.entries = p ::ₘ ps) :
    ∀ q ∈ ps, (p.1 == q.1) = false := by
  intro q hq
  have hperm : t.iterate.Perm (p :: ps.toList) := by
    rw [← Multiset.coe_eq_coe, coe_iterate, hp, ← Multiset.cons_coe, Multiset.coe_toList]
  have hpairwise := (hperm.pairwise_iff fun {a b} hab => (beq_comm _ _).trans hab).mp
    h.pairwise_iterate
  exact (List.pairwise_cons.mp hpairwise).1 q (Multiset.mem_toList.mpr hq)

omit [LawfulPltKey K] in
/-- A key has a value if it has an association. -/
theorem Maps.isSome_iff (hm : Maps t.entries m) (key : K) :
    (m key).isSome = true ↔ t.Contains key := by
  rw [Option.isSome_iff_exists]
  constructor
  · rintro ⟨value, hvalue⟩
    obtain ⟨q, hq, hkey, -⟩ := (hm key value).mp hvalue
    exact ⟨q, hq, hkey⟩
  · rintro ⟨q, hq, hkey⟩
    exact ⟨q.2, (hm key q.2).mpr ⟨q, hq, hkey, rfl⟩⟩

/-- Equal keys are equal to the same keys. -/
theorem beq_congr {k l : K} (h : (k == l) = true) (key : K) : (k == key) = (l == key) := by
  rw [Bool.eq_iff_iff]
  exact ⟨LawfulPltKey.trans l k key (LawfulPltKey.symm k l h), LawfulPltKey.trans k l key h⟩

/-- With the associations of the other keys, a map is known but for the key. -/
theorem maps_cons_iff (hnew : ∀ q ∈ ps, (p.1 == q.1) = false) (hkey : (p.1 == key) = true) :
    Maps (p ::ₘ ps) m ↔ (∀ l, (key == l) = true → m l = some p.2) ∧ Maps ps (eraseKey m key) := by
  have hother : ∀ l, (key == l) = true → ∀ q ∈ ps, (q.1 == l) = false := by
    intro l hl q hq
    by_contra hql
    have hlq := LawfulPltKey.symm _ _ (by simpa using hql)
    have hne := hnew q hq
    rw [beq_congr hkey, LawfulPltKey.trans _ _ _ hl hlq] at hne
    exact absurd hne (by simp)
  constructor
  · intro hm
    refine ⟨fun l hl => (hm l p.2).mpr ⟨p, Multiset.mem_cons_self p ps, beq_congr hkey l ▸ hl, rfl⟩,
      fun l value => ?_⟩
    by_cases hl : (key == l) = true
    · simp only [eraseKey, hl, ↓reduceIte, reduceCtorEq, false_iff]
      rintro ⟨q, hq, hql, -⟩
      simp [hother l hl q hq] at hql
    · simp only [eraseKey, hl, Bool.false_eq_true, ↓reduceIte, hm l value, Multiset.mem_cons]
      constructor
      · rintro ⟨q, rfl | hq, hql, hvalue⟩
        · exact absurd (beq_congr hkey l ▸ hql) hl
        · exact ⟨q, hq, hql, hvalue⟩
      · exact fun ⟨q, hq, hrest⟩ => ⟨q, Or.inr hq, hrest⟩
  · rintro ⟨hset, hm⟩ l value
    by_cases hl : (key == l) = true
    · rw [hset l hl, Option.some.injEq]
      constructor
      · rintro rfl
        exact ⟨p, Multiset.mem_cons_self p ps, beq_congr hkey l ▸ hl, rfl⟩
      · rintro ⟨q, hq, hql, rfl⟩
        rcases Multiset.mem_cons.mp hq with rfl | hq
        · rfl
        · simp [hother l hl q hq] at hql
    · have hrest := hm l value
      simp only [eraseKey, hl, Bool.false_eq_true, ↓reduceIte] at hrest
      rw [hrest]
      constructor
      · exact fun ⟨q, hq, hrest⟩ => ⟨q, Multiset.mem_cons_of_mem hq, hrest⟩
      · rintro ⟨q, hq, hql, hvalue⟩
        rcases Multiset.mem_cons.mp hq with rfl | hq
        · exact absurd (beq_congr hkey l ▸ hql) hl
        · exact ⟨q, hq, hql, hvalue⟩

omit [LawfulPltKey K] in
theorem eraseKey_setKey (m : K → Option V) (key : K) (value : V) :
    eraseKey (setKey m key value) key = eraseKey m key := by
  funext k
  by_cases hk : (key == k) = true <;> simp [eraseKey, setKey, hk]

theorem Maps.eraseKey_eq (hm : Maps ps m) (hnone : ∀ q ∈ ps, (q.1 == key) = false) :
    eraseKey m key = m := by
  funext k
  by_cases hk : (key == k) = true
  · cases hmk : m k with
    | none => simp [eraseKey, hk]
    | some value =>
      obtain ⟨q, hq, hqk, -⟩ := (hm k value).mp hmk
      have := LawfulPltKey.trans _ _ _ hqk (LawfulPltKey.symm _ _ hk)
      rw [hnone q hq] at this
      exact absurd this (by simp)
  · simp [eraseKey, hk]

/-- Setting a key that has an association `p`, to the value of an association `q`. -/
theorem Maps.setKey_of_cons {q : K × V} (hm : Maps (p ::ₘ ps) m)
    (hnew : ∀ r ∈ ps, (p.1 == r.1) = false) (hkey : (p.1 == key) = true) (hq : q.1 = p.1) :
    Maps (q ::ₘ ps) (setKey m key q.2) := by
  refine (maps_cons_iff (hq ▸ hnew) (hq ▸ hkey)).mpr ⟨fun l hl => by simp [setKey, hl], ?_⟩
  rw [eraseKey_setKey]
  exact ((maps_cons_iff hnew hkey).mp hm).2

/-- Setting a key that has none. -/
theorem Maps.setKey_of_new (hm : Maps ps m) (hnew : ∀ q ∈ ps, (q.1 == p.1) = false) :
    Maps (p ::ₘ ps) (setKey m p.1 p.2) := by
  refine (maps_cons_iff (fun q hq => (beq_comm _ _).trans (hnew q hq)) (LawfulPltKey.refl p.1)).mpr
    ⟨fun l hl => by simp [setKey, hl], ?_⟩
  rw [eraseKey_setKey, hm.eraseKey_eq hnew]
  exact hm

omit [LawfulPltKey K] in
/-- With the default load limits, the table is never shrunk to its associations. -/
theorem not_shrinksFull (h : t.medwater = 3 / 5) (key : K) : ¬ t.ShrinksFull key := by
  rintro ⟨-, -, hprime⟩
  obtain ⟨hmem, hle⟩ := primeFor_spec hprime
  have hseven := seven_le_of_mem_primes _ hmem
  have hfloor : t.size - 1 + 1 ≤ ⌊((t.size - 1 : ℕ) : ℚ) / t.medwater⌋₊ := by
    refine Nat.le_floor ?_
    rw [h, le_div_iff₀ (by norm_num)]
    have : (7 : ℚ) ≤ ((t.size - 1 : ℕ) : ℚ) := by exact_mod_cast hseven
    push_cast
    linarith
  omega

/-- What stays true of a table with the default load limits and a map. -/
structure Represents (t : PltHashTable K V) (m : K → Option V) : Prop where
  sound : t.Sound
  medwater : t.medwater = 3 / 5
  maps : Maps t.entries m

omit [LawfulPltKey K] in
theorem Represents.not_contains {k : K} (h : t.Represents m) (hnone : m k = none) :
    ∀ q ∈ t.entries, (q.1 == k) = false := by
  intro q hq
  by_contra hne
  have := (h.maps k q.2).mpr ⟨q, hq, by simpa using hne, rfl⟩
  simp [hnone] at this

/-- `add` on the map. -/
theorem Represents.add (h : t.Represents m) (key : K) (value : V) :
    ∃ t', t.add key value = some (decide (¬ ((m key).isSome ∨ t.exhausted)), t') ∧
      t'.Represents (if (m key).isSome ∨ t.exhausted then m else setKey m key value) := by
  have hin := h.maps.isSome_iff key
  obtain ⟨hex, hadd⟩ | ⟨hex, t', hsound, hlimits, ⟨hcontains, hadd, hentries⟩ |
    ⟨hcontains, hadd, hentries⟩⟩ := add_spec h.sound (key, value)
  · exact ⟨t, by simp [hadd, hex], by simpa [hex] using h⟩
  · have hmed := hlimits.medwater.trans h.medwater
    exact ⟨t', by simp [hadd, hin.mpr hcontains], by
      rw [if_pos (Or.inl (hin.mpr hcontains))]
      exact ⟨hsound, hmed, hentries ▸ h.maps⟩⟩
  · have hnone : m key = none := by
      rw [← Option.not_isSome_iff_eq_none, hin]
      exact hcontains
    refine ⟨t', by simp [hadd, hnone, hex], ?_⟩
    rw [if_neg (by simp [hnone, hex])]
    exact ⟨hsound, hlimits.medwater.trans h.medwater,
      hentries ▸ h.maps.setKey_of_new (p := (key, value)) (h.not_contains hnone)⟩

/-- One operation on a table that represents a map. -/
theorem Represents.perform (h : t.Represents m) (op : Op K V)
    (hreset : ∀ mincap, op = .reset mincap → mincap ≤ 1837408799) :
    ∃ t', t.perform op = some ((op.onMap m t.exhausted).1, t') ∧
      t'.Represents (op.onMap m t.exhausted).2 := by
  cases op with
  | add key value =>
    obtain ⟨t', hadd, hrep⟩ := h.add key value
    refine ⟨t', ?_, ?_⟩
    · rw [PltHashTable.perform, hadd, Op.onMap]
      by_cases hfail : (m key).isSome = true ∨ t.exhausted = true <;> simp [hfail]
    · rw [Op.onMap]
      by_cases hfail : (m key).isSome = true ∨ t.exhausted = true <;> simpa [hfail] using hrep
  | remove key =>
    have hin := h.maps.isSome_iff key
    obtain ⟨hnone, hremove⟩ | ⟨p, t', hcontains, hremove, hkey, hentries, hvalid, hlimits, hroom⟩ :=
      remove_spec h.sound key
    · have hm : m key = none := by
        rw [← Option.not_isSome_iff_eq_none, hin]
        exact hnone
      refine ⟨t, by rw [PltHashTable.perform, hremove, Op.onMap, hm]; rfl, ?_⟩
      rw [Op.onMap, h.maps.eraseKey_eq (h.not_contains hm)]
      exact h
    · have hm : m key = some p.2 :=
        (h.maps key p.2).mpr ⟨p, hentries ▸ Multiset.mem_cons_self p _, hkey, rfl⟩
      have hsound := h.sound.of_limits hvalid (hroom.mpr (not_shrinksFull h.medwater key)) hlimits
      have hnew := h.sound.valid.of_cons hentries.symm
      exact ⟨t', by rw [PltHashTable.perform, hremove, Op.onMap, hm]; rfl, hsound,
        hlimits.medwater.trans h.medwater, ((maps_cons_iff hnew hkey).mp (hentries ▸ h.maps)).2⟩
  | query key =>
    obtain ⟨p, hp, hkey, hquery⟩ | ⟨hnone, hquery⟩ := query_spec h.sound key
    · have hm := (h.maps key p.2).mpr ⟨p, hp, hkey, rfl⟩
      exact ⟨t, by rw [PltHashTable.perform, hquery, Op.onMap, hm]; rfl, h⟩
    · have hm : m key = none := by
        rw [← Option.not_isSome_iff_eq_none, h.maps.isSome_iff key]
        exact hnone
      exact ⟨t, by rw [PltHashTable.perform, hquery, Op.onMap, hm]; rfl, h⟩
  | update key value =>
    obtain ⟨p, t', hupdate, hp, hkey, hsound, hlimits, hentries⟩ | ⟨hnone, hupdate⟩ :=
      update_spec h.sound key value
    · have hm := (h.maps key p.2).mpr ⟨p, hp, hkey, rfl⟩
      refine ⟨t', by rw [PltHashTable.perform, hupdate, Op.onMap, hm]; rfl, hsound,
        hlimits.medwater.trans h.medwater, ?_⟩
      obtain ⟨ps, hps⟩ := Multiset.exists_cons_of_mem hp
      rw [hps, Multiset.cons_swap, Multiset.cons_inj_right] at hentries
      rw [Op.onMap, hm, hentries]
      exact (hps ▸ h.maps).setKey_of_cons (h.sound.valid.of_cons hps) hkey rfl
    · have hm : m key = none := by
        rw [← Option.not_isSome_iff_eq_none, h.maps.isSome_iff key]
        exact hnone
      obtain ⟨t', hadd, hrep⟩ := h.add key value
      refine ⟨t', ?_, ?_⟩
      · rw [PltHashTable.perform, hupdate, hadd, Op.onMap, hm]
        cases t.exhausted <;> rfl
      · rw [Op.onMap, hm]
        simp only [hm, Option.isSome_none, Bool.false_eq_true, false_or] at hrep
        cases hex : t.exhausted <;> simpa [hex] using hrep
  | reset mincap =>
    obtain ⟨t', hreset, hsound, hentries, hlimits⟩ := changeCapacity_sound (t := t.clear mincap)
      mincap rfl rfl h.sound.medwater_pos h.sound.medwater_lt (hreset mincap rfl)
    exact ⟨t', by rw [PltHashTable.perform, reset, hreset]; rfl, hsound,
      hlimits.medwater.trans h.medwater, fun key value => by simp [hentries, Op.onMap]⟩

theorem Represents.query (h : t.Represents m) (key : K) : t.query key = some (m key) := by
  obtain ⟨t', hperform, -⟩ := h.perform (.query key) (by simp)
  obtain ⟨found, hfound, heq⟩ := Option.map_eq_some_iff.mp hperform
  simp only [Op.onMap, Prod.mk.injEq, Result.value.injEq] at heq
  rw [hfound, heq.1]

theorem Represents.remove (h : t.Represents m) (key : K) :
    ∃ t', t.remove key = some (m key, t') ∧ t'.Represents (eraseKey m key) := by
  obtain ⟨t', hperform, hrep⟩ := h.perform (.remove key) (by simp)
  obtain ⟨r, hremove, heq⟩ := Option.map_eq_some_iff.mp hperform
  simp only [Op.onMap, Prod.mk.injEq, Result.value.injEq] at heq
  obtain ⟨hfound, rfl⟩ := heq
  exact ⟨r.2, by rw [hremove, ← hfound], hrep⟩

/-- A run from a table that represents a map. -/
theorem Represents.refines {ops : List (Op K V)} (h : t.Represents m)
    (hreset : ∀ mincap, .reset mincap ∈ ops → mincap ≤ 1837408799) : t.Refines m ops := by
  induction ops generalizing t m with
  | nil => exact h.maps.iterates h.sound.valid
  | cons op ops ih =>
    obtain ⟨t', hperform, hrep⟩ := h.perform op fun mincap hop =>
      hreset mincap (hop ▸ List.mem_cons_self)
    exact ⟨h.maps.iterates h.sound.valid, t', hperform,
      ih hrep fun mincap hmem => hreset mincap (List.mem_cons_of_mem op hmem)⟩

end Lawful
end Maps
end PltHashTable

/-- With the default load limits and minimum capacities for which there are primes, a hash table
behaves like a finite map, to which nothing can be added when the primes are exhausted. -/
theorem hashTable_refines_map {K V : Type*} [PltKey K] [LawfulPltKey K] {mincap : ℕ}
    (hmin : mincap ≤ 1837408799) {ops : List (PltHashTable.Op K V)}
    (hreset : ∀ mincap, .reset mincap ∈ ops → mincap ≤ 1837408799) :
    ∃ t, PltHashTable.create mincap (8 / 10) (4 / 10) = some t ∧ t.Refines (fun _ => none) ops := by
  obtain ⟨t, hcreate, hsound, -⟩ := PltHashTable.create_spec (K := K) (V := V) mincap
    (show (0 : ℚ) < 4 / 10 by norm_num) (show (4 / 10 : ℚ) < 8 / 10 by norm_num) (by norm_num)
  obtain ⟨hsound, hentries, -, hmedwater⟩ := hsound hmin
  refine ⟨t, hcreate, PltHashTable.Represents.refines ⟨hsound, ?_, fun key value => ?_⟩ hreset⟩
  · rw [hmedwater]
    norm_num
  · simp [hentries]

attribute [local instance] instPltKeyNat instLawfulPltKeyNat in
/-- Two numbers are added, and the table is cleared. -/
theorem hashTable_refines_map_twoNumbers :
    ∃ t, PltHashTable.create (K := ℕ) (V := ℕ) 11 (8 / 10) (4 / 10) = some t ∧
      t.Refines (fun _ => none) [.add 3 5, .add 14 6, .remove 3, .query 14, .reset 7] :=
  hashTable_refines_map (by norm_num) (by simp)

end AcpltKs
