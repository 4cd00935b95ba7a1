import AcpltKs.Plt.HashTableContents

/-! A slot of the hash table that has never been used is what its searches need to end. Growing keeps
one; shrinking does not if the new capacity is the number of associations. -/
namespace AcpltKs
open OpenAddressing GuardedRun

namespace PltHashTable
variable {K V : Type*} [PltKey K] {t t' : PltHashTable K V}

/-- The table is shrunk to the very number of associations that are left without `key`. -/
def ShrinksFull (t : PltHashTable K V) (key : K) : Prop :=
  t.Contains key ∧ ((t.size - 1 : ℕ) : ℚ) < t.capacity * t.lowwater ∧
    primeFor (max t.minCapacity ⌊((t.size - 1 : ℕ) : ℚ) / t.medwater⌋₊) = some (t.size - 1)

/-- The table with a mark in slot `i`. -/
def mark (t : PltHashTable K V) (i : ℕ) : PltHashTable K V :=
  { t with table := Function.update t.table i .deleted, deleted := t.deleted + 1 }

omit [PltKey K] in
theorem mark_size (t : PltHashTable K V) (i : ℕ) : (t.mark i).size = t.size - 1 :=
  Nat.sub_add_eq _ _ _

section Lawful
variable [LawfulPltKey K]

/-- `query` finds the value of a key. -/
theorem query_spec (h : t.Sound) (key : K) :
    (∃ p ∈ t.entries, (p.1 == key) = true ∧ t.query key = some (some p.2)) ∨
      ¬ t.Contains key ∧ t.query key = some none := by
  obtain ⟨i, p, hi, hs, hp, -, hlookup⟩ | ⟨-, hlookup, hnone⟩ :=
    lookupAssoc_spec h.valid h.room key
  · exact Or.inl ⟨p, mem_entries.mpr ⟨i, hi, hs⟩, hp, by rw [query, hlookup]; rfl⟩
  · refine Or.inr ⟨fun ⟨p, hmem, hp⟩ => ?_, by rw [query, hlookup]; rfl⟩
    rw [hnone p hmem] at hp
    exact absurd hp (by simp)

/-- `remove` takes the association of a key out, and keeps a slot empty unless it shrinks the table
too far. -/
theorem remove_spec (h : t.Sound) (key : K) :
    ¬ t.Contains key ∧ t.remove key = some (none, t) ∨
      ∃ p t', t.Contains key ∧ t.remove key = some (some p.2, t') ∧ (p.1 == key) = true ∧
        p ::ₘ t'.entries = t.entries ∧ t'.Valid ∧ t.SameLimits t' ∧
        (t'.used < t'.capacity ↔ ¬ t.ShrinksFull key) := by
  obtain ⟨i, p, hi, hs, hp, -, hlookup⟩ | ⟨-, hlookup, hnone⟩ :=
    lookupAssoc_spec h.valid h.room key
  · have hmem : p ∈ t.entries := mem_entries.mpr ⟨i, hi, hs⟩
    have hin : t.Contains key := ⟨p, hmem, hp⟩
    -- the table with the mark
    obtain ⟨hvalid, hentries⟩ : (t.mark i).Valid ∧ p ::ₘ (t.mark i).entries = t.entries + 0 :=
      h.valid.amend (s := .deleted) hi hs (by simp) (by simp)
        (rfl : (t.mark i).capacity = t.capacity) rfl rfl rfl
    rw [add_zero] at hentries
    have hsize := t.mark_size i
    have hremove : t.remove key =
        if ((t.mark i).size : ℚ) < t.capacity * t.lowwater then
          ((t.mark i).changeCapacity ⌊((t.mark i).size : ℚ) / t.medwater⌋₊).map fun r =>
            (some p.2, r.2)
        else some (some p.2, t.mark i) := by
      simp only [remove, hlookup]
      rfl
    rw [hsize] at hremove
    refine Or.inr ⟨p, ?_⟩
    by_cases hlow : ((t.size - 1 : ℕ) : ℚ) < t.capacity * t.lowwater
    · rw [if_pos hlow] at hremove
      have hfull : t.ShrinksFull key ↔
          primeFor (max t.minCapacity ⌊((t.size - 1 : ℕ) : ℚ) / t.medwater⌋₊) = some (t.size - 1) :=
        ⟨fun hfull => hfull.2.2, fun hprime => ⟨hin, hlow, hprime⟩⟩
      have hcard := hvalid.size_eq
      have hused := hvalid.card_add
      have hroom : (t.mark i).used < t.capacity := h.room
      rw [hsize] at hcard
      rcases changeCapacity_spec hvalid ⌊((t.size - 1 : ℕ) : ℚ) / t.medwater⌋₊ with
        ⟨hprime, hchange⟩ | ⟨hprime, hchange⟩ | ⟨newCap, hprime, hother, hchange⟩ <;>
        replace hprime : primeFor (max t.minCapacity _) = _ := hprime
      · refine ⟨t.mark i, hin, ?_, hp, hentries, hvalid, ⟨rfl, rfl, rfl, rfl⟩, ?_⟩
        · rw [hremove, hchange, Option.map_some]
        · exact iff_of_true h.room fun hshrinks => by simp [hfull.mp hshrinks] at hprime
      · refine ⟨t.mark i, hin, ?_, hp, hentries, hvalid, ⟨rfl, rfl, rfl, rfl⟩, ?_⟩
        · rw [hremove, hchange, Option.map_some]
        · refine iff_of_true h.room fun hshrinks => ?_
          rw [hfull.mp hshrinks, Option.some.injEq] at hprime
          have : (t.mark i).capacity = t.capacity := rfl
          omega
      · have hle := h.size_le (t.size - 1)
        have hbound := (primeFor_spec hprime).2
        obtain ⟨t', hchange, hvalid', hmarks, hentries', hcapacity, hlimits⟩ := hchange (by omega)
        have hused' := hvalid'.card_add
        rw [hentries'] at hused'
        refine ⟨t', hin, ?_, hp, hentries'.symm ▸ hentries, hvalid',
          ⟨hlimits.1, hlimits.2, hlimits.3, hlimits.4⟩, ?_⟩
        · rw [hremove, hchange, Option.map_some]
        · rw [hfull, hprime, Option.some.injEq]
          omega
    · rw [if_neg hlow] at hremove
      exact ⟨t.mark i, hin, hremove, hp, hentries, hvalid, ⟨rfl, rfl, rfl, rfl⟩,
        iff_of_true h.room fun hfull => hlow hfull.2.1⟩
  · refine Or.inl ⟨fun ⟨p, hmem, hp⟩ => ?_, by rw [remove, hlookup]⟩
    rw [hnone p hmem] at hp
    exact absurd hp (by simp)

/-- `update` replaces the value of a key, or adds it. -/
theorem update_spec (h : t.Sound) (key : K) (value : V) :
    (∃ p t', t.update key value = some (true, some p.2, t') ∧ p ∈ t.entries ∧
        (p.1 == key) = true ∧ t'.Sound ∧ t.SameLimits t' ∧
        p ::ₘ t'.entries = (p.1, value) ::ₘ t.entries) ∨
      ¬ t.Contains key ∧
        t.update key value = (t.add key value).map fun r => (r.1, none, r.2) := by
  obtain ⟨i, p, hi, hs, hp, -, hlookup⟩ | ⟨-, hlookup, hnone⟩ :=
    lookupAssoc_spec h.valid h.room key
  · obtain ⟨hvalid, hentries⟩ := h.valid.amend (s := .used (p.1, value)) hi hs (by simp)
      (fun q hq => by simp only [Slot.used.injEq] at hq; rw [← hq])
      (rfl : ({ t with
        table := Function.update t.table i (.used (p.1, value)) } : PltHashTable K V).capacity =
          t.capacity) rfl rfl rfl
    rw [Slot.entries_used, add_comm, Multiset.singleton_add] at hentries
    exact Or.inl ⟨p, _, by rw [PltHashTable.update, hlookup], mem_entries.mpr ⟨i, hi, hs⟩, hp,
      h.of_limits hvalid h.room ⟨rfl, rfl, rfl, rfl⟩, ⟨rfl, rfl, rfl, rfl⟩, hentries⟩
  · refine Or.inr ⟨fun ⟨p, hmem, hp⟩ => ?_, by rw [PltHashTable.update, hlookup]⟩
    rw [hnone p hmem] at hp
    exact absurd hp (by simp)

end Lawful

/-- Without a prime for it, there is no new table. -/
theorem changeCapacity_none (mincap : ℕ) (hmin : t.minCapacity = mincap)
    (hle : ¬ mincap ≤ 1837408799) : t.changeCapacity mincap = some (false, t) := by
  have hnone : primeFor mincap = none := by
    rw [← Option.not_isSome_iff_eq_none, primeFor_isSome]
    exact hle
  simp only [changeCapacity, hmin, ite_self, hnone]

/-- There is a slot that has never been used, and all searches end. -/
structure HasRoom (t : PltHashTable K V) : Prop where
  room : t.used < t.capacity
  locate_isSome : ∀ key, (t.locate key).isSome
  insert_isSome : ∀ p, (t.insert p).isSome

/-- The operation does not fill the table, and a new table can be had. -/
def KeepsRoom (t : PltHashTable K V) : Op K V → Prop
  | .remove key => ¬ t.ShrinksFull key
  | .reset mincap => mincap ≤ 1837408799
  | _ => True

section Lawful
variable [LawfulPltKey K]

theorem Sound.hasRoom (h : t.Sound) : t.HasRoom := by
  refine ⟨h.room, fun key => ?_, fun p => ?_⟩
  · obtain ⟨i, p, -, -, -, hlocate, -⟩ | ⟨hlocate, -⟩ := lookupAssoc_spec h.valid h.room key <;>
      simp [hlocate]
  · obtain ⟨-, hinsert⟩ | ⟨-, t', hinsert, -⟩ := insert_spec h.valid h.room p <;> simp [hinsert]

theorem add_sound (h : t.Sound) (key : K) (value : V) :
    ∃ ok t', t.add key value = some (ok, t') ∧ t'.Sound := by
  obtain ⟨-, hadd⟩ | ⟨-, t', hsound, -, ⟨-, hadd, -⟩ | ⟨-, hadd, -⟩⟩ := add_spec h (key, value)
  · exact ⟨_, t, hadd, h⟩
  · exact ⟨_, t', hadd, hsound⟩
  · exact ⟨_, t', hadd, hsound⟩

omit [LawfulPltKey K] in
/-- A new table. -/
theorem changeCapacity_sound (mincap : ℕ) (h : t.capacity = 0) (hmin : t.minCapacity = mincap)
    (hpos : 0 < t.medwater) (hlt : t.medwater < 1) (hle : mincap ≤ 1837408799) :
    ∃ t', t.changeCapacity mincap = some (true, t') ∧ t'.Sound ∧ t'.entries = 0 ∧
      t.SameLimits t' := by
  obtain ⟨newCap, hprime⟩ := Option.isSome_iff_exists.mp (primeFor_isSome.mpr hle)
  have hcap := primeFor_pos hprime
  have hchange : t.changeCapacity mincap = some (true, { t with
      table := fun _ => .empty
      used := 0
      deleted := 0
      capacity := newCap }) := by
    simp [changeCapacity, hmin, hprime, h, reinsert, hcap.ne']
  obtain ⟨hvalid, hentries⟩ := Valid.of_empty
    (t := ({ t with
      table := fun _ => .empty
      used := 0
      deleted := 0
      capacity := newCap } : PltHashTable K V)) hcap rfl rfl rfl
  exact ⟨_, hchange, ⟨hvalid, hcap, hpos, hlt⟩, hentries, ⟨rfl, rfl, rfl, rfl⟩⟩

/-- One operation on a table with room. -/
theorem perform_room (h : t.Sound) (op : Op K V) :
    ∃ r t', t.perform op = some (r, t') ∧ (t.KeepsRoom op → t'.Sound) ∧
      (¬ t.KeepsRoom op → ¬ t'.used < t'.capacity) := by
  cases op with
  | add key value =>
    obtain ⟨ok, t', hadd, hsound⟩ := add_sound h key value
    exact ⟨_, t', by rw [perform, hadd]; rfl, fun _ => hsound, fun hnot => absurd trivial hnot⟩
  | remove key =>
    obtain ⟨hnone, hremove⟩ | ⟨p, t', -, hremove, -, -, hvalid, hlimits, hroom⟩ :=
      remove_spec h key
    · exact ⟨_, t, by rw [perform, hremove]; rfl, fun _ => h,
        fun hnot => absurd (fun hfull => hnone hfull.1) hnot⟩
    · exact ⟨_, t', by rw [perform, hremove]; rfl,
        fun hkeeps => h.of_limits hvalid (hroom.mpr hkeeps) hlimits,
        fun hnot hlt => hnot (hroom.mp hlt)⟩
  | query key =>
    obtain ⟨p, -, -, hquery⟩ | ⟨-, hquery⟩ := query_spec h key <;>
      exact ⟨_, t, by rw [perform, hquery]; rfl, fun _ => h, fun hnot => absurd trivial hnot⟩
  | update key value =>
    obtain ⟨p, t', hupdate, -, -, hsound, -⟩ | ⟨-, hupdate⟩ := update_spec h key value
    · exact ⟨_, t', by rw [perform, hupdate]; rfl, fun _ => hsound, fun hnot => absurd trivial hnot⟩
    · obtain ⟨ok, t', hadd, hsound⟩ := add_sound h key value
      exact ⟨_, t', by rw [perform, hupdate, hadd]; rfl, fun _ => hsound,
        fun hnot => absurd trivial hnot⟩
  | reset mincap =>
    by_cases hle : mincap ≤ 1837408799
    · obtain ⟨t', hreset, hsound, -⟩ := changeCapacity_sound (t := t.clear mincap) mincap rfl rfl
        h.medwater_pos h.medwater_lt hle
      exact ⟨_, t', by rw [perform, reset, hreset]; rfl, fun _ => hsound,
        fun hnot => absurd hle hnot⟩
    · have hreset := changeCapacity_none (t := t.clear mincap) mincap rfl hle
      exact ⟨_, _, by rw [perform, reset, hreset]; rfl, fun hkeeps => absurd hkeeps hle,
        fun _ => lt_irrefl _⟩

end Lawful

/-- From the constructor on, there is a table with room before and after all operations. -/
def NeverFills (t : Option (PltHashTable K V)) (ops : List (Op K V)) : Prop :=
  ∀ done, done <+: ops → ∃ t' ∈ run step t done, t'.HasRoom

/-- No operation of the run fills the table. -/
def KeepsRoomAlong (t : Option (PltHashTable K V)) (ops : List (Op K V)) : Prop :=
  Along step (fun t op => ∀ t' ∈ t, t'.KeepsRoom op) t ops

end PltHashTable

/-- The constructor finds a prime for the minimum capacity, or there is no table. -/
theorem PltHashTable.create_spec {K V : Type*} [PltKey K] (mincap : ℕ) {highwater lowwater : ℚ}
    (hpos : 0 < lowwater) (hlt : lowwater < highwater) (hlast : highwater < 1) :
    ∃ t : PltHashTable K V, create mincap highwater lowwater = some t ∧
      (mincap ≤ 1837408799 → t.Sound ∧ t.entries = 0 ∧ t.lowwater = lowwater ∧
        t.medwater = (highwater + lowwater) / 2) ∧
      (¬ mincap ≤ 1837408799 → t.capacity = 0) := by
  by_cases hle : mincap ≤ 1837408799
  · obtain ⟨t, hcreate, hsound, hentries, hlimits⟩ := changeCapacity_sound
      (t := (blank mincap highwater lowwater : PltHashTable K V)) mincap rfl rfl
      (by simp only [blank]; linarith) (by simp only [blank]; linarith) hle
    exact ⟨t, by rw [create, hcreate]; rfl,
      fun _ => ⟨hsound, hentries, hlimits.lowwater, hlimits.medwater⟩, fun hnot => absurd hle hnot⟩
  · refine ⟨blank mincap highwater lowwater, ?_, fun h => absurd h hle, fun _ => rfl⟩
    rw [create, changeCapacity_none mincap rfl hle]
    rfl

/-- A new table has no marks. -/
theorem PltHashTable.create_marks {K V : Type*} [PltKey K] {mincap : ℕ} {highwater lowwater : ℚ}
    {t : PltHashTable K V} (h : create mincap highwater lowwater = some t) :
    t.deleted = 0 ∧ t.minCapacity = mincap := by
  obtain ⟨⟨b, t'⟩, hchange, rfl⟩ := Option.map_eq_some_iff.mp h
  have hmarks := changeCapacity_noMoreMarks hchange
  exact ⟨Nat.le_zero.mp hmarks.deleted_le, hmarks.minCapacity⟩

/-- The hash table never fills up exactly if there are primes for its minimum capacities, and it is
never shrunk to the number of its associations. -/
theorem hashTable_neverFills_iff {K V : Type*} [PltKey K] [LawfulPltKey K] (mincap : ℕ)
    {highwater lowwater : ℚ} (hpos : 0 < lowwater) (hlt : lowwater < highwater)
    (hlast : highwater < 1) (ops : List (PltHashTable.Op K V)) :
    PltHashTable.NeverFills (PltHashTable.create mincap highwater lowwater) ops ↔
      mincap ≤ 1837408799 ∧
        PltHashTable.KeepsRoomAlong (PltHashTable.create mincap highwater lowwater) ops := by
  obtain ⟨t, hcreate, hsound, hnone⟩ :=
    PltHashTable.create_spec (K := K) (V := V) mincap hpos hlt hlast
  rw [hcreate]
  by_cases hle : mincap ≤ 1837408799
  · rw [and_iff_right hle]
    refine along_iff (I := fun s : Option (PltHashTable K V) => ∃ t ∈ s, t.Sound)
      (P := fun s : Option (PltHashTable K V) => ∃ t ∈ s, t.HasRoom)
      (fun s ⟨t, ht, h⟩ => ⟨t, ht, h.hasRoom⟩) ?_ ?_ ⟨t, rfl, (hsound hle).1⟩
    · rintro s op ⟨t, rfl, h⟩ hkeeps
      obtain ⟨r, t', hperform, hkept, -⟩ := PltHashTable.perform_room h op
      refine ⟨t', ?_, hkept (hkeeps t rfl)⟩
      simp only [PltHashTable.step, Option.bind_some, hperform, Option.map_some, Option.mem_def]
    · rintro s op ⟨t, rfl, h⟩ hnot ⟨t', ht', hroom⟩
      obtain ⟨r, t₁, hperform, -, hfull⟩ := PltHashTable.perform_room h op
      simp only [PltHashTable.step, Option.bind_some, hperform, Option.map_some, Option.mem_def,
        Option.some.injEq] at ht'
      subst ht'
      exact hfull (fun hkeeps => hnot fun t ht => Option.some.inj ht ▸ hkeeps) hroom.room
  · refine iff_of_false (fun h => ?_) fun h => hle h.1
    obtain ⟨t', ht', hroom⟩ := h [] (List.nil_prefix)
    obtain rfl : t = t' := Option.some.inj ht'
    have := hroom.room
    rw [hnone hle] at this
    omega

local instance : PltKey ℕ := ⟨id⟩

local instance : LawfulPltKey ℕ where
  refl k := beq_self_eq_true k
  symm k l h := by rwa [BEq.comm]
  trans k l m h h' := by rw [eq_of_beq h, eq_of_beq h', beq_self_eq_true]
  hash_eq k l h := by rw [eq_of_beq h]

/-- An empty table with high load limits. -/
def crowdedTable : Option (PltHashTable ℕ ℕ) := PltHashTable.create 11 (99 / 100) (98 / 100)

/-- The table grows to 13 slots; without 0, it is shrunk to 11, for 11 associations. -/
def fillTable : List (PltHashTable.Op ℕ ℕ) :=
  [0, 1, 2, 3, 4, 5, 6, 7, 8, 9, 10, 11].map (fun k => .add k k) ++ [.remove 0]

theorem not_neverFills_fillTable : ¬ PltHashTable.NeverFills crowdedTable fillTable := by
  intro h
  obtain ⟨t, ht, hroom⟩ := h fillTable List.prefix_rfl
  have hfull : (run PltHashTable.step crowdedTable fillTable).map
      (fun t => decide (t.used < t.capacity)) = some false := by decide +kernel
  rw [ht, Option.map_some, Option.some.injEq, decide_eq_false_iff_not] at hfull
  exact hfull hroom.room

/-- A table with the usual load limits. -/
theorem neverFills_addRemove :
    PltHashTable.NeverFills (PltHashTable.create (K := ℕ) (V := ℕ) 11 (4 / 5) (2 / 5))
      [.add 3 5, .update 3 6, .remove 3, .query 3, .reset 100] := by
  refine (hashTable_neverFills_iff 11 (by norm_num) (by norm_num) (by norm_num) _).mpr
    ⟨by norm_num, fun _ _ => trivial, fun _ _ => trivial, fun t ht hshrinks => ?_,
      fun _ _ => trivial, fun _ _ => by norm_num [PltHashTable.KeepsRoom], trivial⟩
  have hsize : (run PltHashTable.step (PltHashTable.create (K := ℕ) (V := ℕ) 11 (4 / 5) (2 / 5))
      [.add 3 5, .update 3 6]).map PltHashTable.size = some 1 := by decide +kernel
  rw [run_cons, run_cons, run_nil, ht, Option.map_some, Option.some.injEq] at hsize
  have hprime := PltHashTable.primeFor_pos hshrinks.2.2
  omega

end AcpltKs
