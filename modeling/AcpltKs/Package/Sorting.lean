import AcpltKs.Library.Grouping
import AcpltKs.Package.Basic
import AcpltKs.Plt.HashTableMap

/-! The sorter puts every variable of a package into the bucket for its server and its module. -/
namespace AcpltKs
open Grouping

namespace KscPackage

mutual

/-- The variables of a package and of the packages in it, each with the modules of the packages
around it, from the inside out. -/
def entries : KscPackage → List (List (Option KscAvModule) × KscVariableHandle)
  | ⟨avModule, vars, pkgs⟩ =>
      (vars.map fun var => ([avModule], var)) ++
        (entriesAll pkgs).map fun e => (e.1 ++ [avModule], e.2)

def entriesAll : List KscPackage → List (List (Option KscAvModule) × KscVariableHandle)
  | [] => []
  | pkg :: pkgs => pkg.entries ++ entriesAll pkgs

end

end KscPackage

namespace KscClient

/-- The module that a variable is accessed by: its own one, or that of the nearest package around it
that has one, or the default, or that of the server, or that of the client. -/
def effectiveModule (client : KscClient) (avmDefault : Option KscAvModule)
    (e : List (Option KscAvModule) × KscVariableHandle) : Option KscAvModule :=
  (client.vars e.2).avModule.or ((e.1.findSome? id).or (avmDefault.or
    ((client.serverAvModule (client.vars e.2).server).or client.avModule)))

def passes (client : KscClient) (dirtyOnly : Bool) (var : KscVariableHandle) : Bool :=
  !dirtyOnly || (client.vars var).dirty

/-- The bucket that a variable belongs to, and the variable. -/
def placedAt (client : KscClient) (avmDefault : Option KscAvModule)
    (e : List (Option KscAvModule) × KscVariableHandle) : KscSorter.Key × KscVariableHandle :=
  (⟨client.effectiveModule avmDefault e, (client.vars e.2).server⟩, e.2)

/-- The variables that pass the filter, each with its module and its server. -/
def placedEntries (client : KscClient) (dirtyOnly : Bool) (avmDefault : Option KscAvModule)
    (es : List (List (Option KscAvModule) × KscVariableHandle)) :
    Multiset (KscSorter.Key × KscVariableHandle) :=
  ((es.filter fun e => client.passes dirtyOnly e.2).map (client.placedAt avmDefault) : List _)

def placed (client : KscClient) (pkg : KscPackage) (dirtyOnly : Bool)
    (avmDefault : Option KscAvModule) : Multiset (KscSorter.Key × KscVariableHandle) :=
  client.placedEntries dirtyOnly avmDefault pkg.entries

variable {client : KscClient} {dirtyOnly : Bool} {avmDefault : Option KscAvModule}
  {es es' : List (List (Option KscAvModule) × KscVariableHandle)}

theorem placedEntries_append : client.placedEntries dirtyOnly avmDefault (es ++ es') =
    client.placedEntries dirtyOnly avmDefault es + client.placedEntries dirtyOnly avmDefault es' := by
  rw [placedEntries, List.filter_append, List.map_append, ← Multiset.coe_add]
  rfl

/-- The module of the outermost package comes before the default. -/
theorem placedEntries_enclosed (avModule : Option KscAvModule) :
    client.placedEntries dirtyOnly avmDefault (es.map fun e => (e.1 ++ [avModule], e.2)) =
      client.placedEntries dirtyOnly (avModule.or avmDefault) es := by
  rw [placedEntries, placedEntries, List.filter_map, List.map_map]
  refine congrArg _ (List.map_congr_left fun e _ => ?_)
  simp only [Function.comp_apply, placedAt, effectiveModule, List.findSome?_append,
    List.findSome?_singleton, id_eq, Option.or_assoc]

end KscClient

namespace KscSorter

theorem key_beq {k l : Key} : PltKey.toBEq.beq k l = true ↔ k = l := by
  change (decide (k.server = l.server) && decide (k.avModule = l.avModule)) = true ↔ _
  rw [Bool.and_eq_true, decide_eq_true_iff, decide_eq_true_iff, Key.ext_iff, and_comm]

instance : LawfulPltKey Key where
  refl _ := key_beq.mpr rfl
  symm _ _ h := key_beq.mpr (key_beq.mp h).symm
  trans _ _ _ h h' := key_beq.mpr ((key_beq.mp h).trans (key_beq.mp h'))
  hash_eq _ _ h := congrArg _ (key_beq.mp h)

theorem findAvModule_eq (client : KscClient) (var : KscVariableHandle)
    (avmDefault : Option KscAvModule) :
    findAvModule client var avmDefault = client.effectiveModule avmDefault ([], var) := by
  unfold findAvModule KscClient.effectiveModule
  cases (client.vars var).avModule <;> cases avmDefault <;>
    cases client.serverAvModule (client.vars var).server <;> rfl

end KscSorter

/-- A bucket is for this server and this module, and holds these variables. -/
structure KscSorterBucket.Serves (b : KscSorterBucket) (key : KscSorter.Key)
    (vars : Multiset KscVariableHandle) : Prop where
  avModule : b.avModule = key.avModule
  server : b.server = key.server
  varCount : b.vars.length = b.varCount
  vars_eq : (b.vars : Multiset KscVariableHandle) = vars

namespace KscSorterBucket

theorem serves_create (key : KscSorter.Key) : (create key.avModule key.server).Serves key 0 :=
  ⟨rfl, rfl, rfl, rfl⟩

theorem Serves.add {b : KscSorterBucket} {key : KscSorter.Key} {vars : Multiset KscVariableHandle}
    (h : b.Serves key vars) (var : KscVariableHandle) : (b.add var).Serves key (var ::ₘ vars) :=
  ⟨h.avModule, h.server, congrArg (· + 1) h.varCount, by rw [← h.vars_eq]; rfl⟩

end KscSorterBucket

namespace KscSorter

variable {s : KscSorter} {ps : Multiset (Key × KscVariableHandle)} {ks : Finset Key}

/-- There are buckets for these keys, and the variables are in them. -/
structure Holds (s : KscSorter) (ps : Multiset (Key × KscVariableHandle)) (ks : Finset Key) :
    Prop where
  sound : s.table.Sound
  medwater : s.table.medwater = 3 / 5
  contains_iff : ∀ key, s.table.Contains key ↔ key ∈ ks
  bucket : ∀ p ∈ s.table.entries, ∃ b, s.memory[p.2]? = some b ∧ b.Serves p.1 (group ps p.1)
  handles : ∀ p ∈ s.table.entries, ∀ q ∈ s.table.entries, p.2 = q.2 → p = q

/-- The keys that an iterator comes to. -/
theorem Holds.nodup_iterate (h : s.Holds ps ks) : (s.table.iterate.map Prod.fst).Nodup := by
  refine List.Pairwise.map _ ?_ h.sound.valid.pairwise_iterate
  intro p q hpq heq
  rw [key_beq.mpr heq] at hpq
  exact Bool.noConfusion hpq

theorem Holds.mem_iterate_iff (h : s.Holds ps ks) (key : Key) :
    key ∈ s.table.iterate.map Prod.fst ↔ key ∈ ks := by
  rw [← h.contains_iff, List.mem_map]
  simp only [PltHashTable.Contains, ← PltHashTable.coe_iterate, Multiset.mem_coe, key_beq]

theorem Holds.card_entries (h : s.Holds ps ks) : s.table.entries.card = ks.card := by
  have heq : (s.table.iterate.map Prod.fst).toFinset = ks := by
    ext key
    rw [List.mem_toFinset, h.mem_iterate_iff]
  rw [← PltHashTable.coe_iterate, Multiset.coe_card, ← heq,
    List.toFinset_card_of_nodup h.nodup_iterate, List.length_map]

/-- A variable is put into its bucket. -/
theorem Holds.addTo (h : s.Holds ps ks) {p : Key × ℕ} (hp : p ∈ s.table.entries)
    (var : KscVariableHandle) : (s.addTo p.2 var).Holds ((p.1, var) ::ₘ ps) ks := by
  refine ⟨h.sound, h.medwater, h.contains_iff, fun q hq => ?_, h.handles⟩
  obtain ⟨b, hb, hserves⟩ := h.bucket q hq
  by_cases heq : q = p
  · subst heq
    refine ⟨b.add var, ?_, ?_⟩
    · rw [KscSorter.addTo, List.getElem?_modify, hb]
      simp
    · rw [group_cons_self rfl]
      exact hserves.add var
  · have hhandle : p.2 ≠ q.2 := fun hsame => heq (h.handles q hq p hp hsame.symm)
    have hkey : p.1 ≠ q.1 := by
      intro hsame
      obtain ⟨rest, hrest⟩ := Multiset.exists_cons_of_mem hp
      have hmem : q ∈ rest := (Multiset.mem_cons.mp (hrest ▸ hq)).resolve_left heq
      have := h.sound.valid.of_cons hrest q hmem
      rw [key_beq.mpr hsame] at this
      exact Bool.noConfusion this
    refine ⟨b, ?_, ?_⟩
    · rw [KscSorter.addTo, List.getElem?_modify, hb]
      simp [hhandle]
    · rw [group_cons_of_ne (p := (p.1, var)) hkey]
      exact hserves

/-- A sorter that has only been added to. -/
structure Growing (s : KscSorter) (ps : Multiset (Key × KscVariableHandle)) (ks : Finset Key) :
    Prop extends s.Holds ps ks where
  marks : s.table.deleted = 0
  minCapacity : s.table.minCapacity = 11

theorem Growing.addTo (h : s.Growing ps ks) {p : Key × ℕ} (hp : p ∈ s.table.entries)
    (var : KscVariableHandle) : (s.addTo p.2 var).Growing ((p.1, var) ::ₘ ps) ks :=
  ⟨h.toHolds.addTo hp var, h.marks, h.minCapacity⟩

/-- An empty bucket for a new key. -/
theorem Growing.addBucket (h : s.Growing ps ks) {key : Key} (hkey : key ∉ ks) (hks : keys ps ⊆ ks)
    {table : PltHashTable Key ℕ} (hadd : s.table.add key s.memory.length = some (true, table))
    (hsound : table.Sound) (hlimits : s.table.SameLimits table)
    (hentries : table.entries = (key, s.memory.length) ::ₘ s.table.entries) :
    ({ s with table, memory := s.memory ++ [.create key.avModule key.server] } : KscSorter).Growing
      ps (insert key ks) := by
  have hlt : ∀ p ∈ s.table.entries, p.2 < s.memory.length := by
    intro p hp
    obtain ⟨b, hb, -⟩ := h.bucket p hp
    exact (List.getElem?_eq_some_iff.mp hb).1
  refine ⟨⟨hsound, hlimits.medwater.trans h.medwater, fun k => ?_, ?_, ?_⟩, ?_,
    hlimits.minCapacity.trans h.minCapacity⟩
  · rw [Finset.mem_insert, ← h.contains_iff]
    simp only [PltHashTable.Contains, hentries, Multiset.mem_cons, exists_eq_or_imp, key_beq]
    rw [eq_comm]
  · intro p hp
    rcases Multiset.mem_cons.mp (hentries ▸ hp) with rfl | hp
    · refine ⟨.create key.avModule key.server, by simp, ?_⟩
      rw [group_eq_zero.mpr fun hin => hkey (hks hin)]
      exact KscSorterBucket.serves_create key
    · obtain ⟨b, hb, hserves⟩ := h.bucket p hp
      exact ⟨b, by rwa [List.getElem?_append_left (hlt p hp)], hserves⟩
  · intro p hp q hq heq
    rcases Multiset.mem_cons.mp (hentries ▸ hp) with rfl | hp <;>
      rcases Multiset.mem_cons.mp (hentries ▸ hq) with rfl | hq
    · rfl
    · exact absurd heq (hlt q hq).ne'
    · exact absurd heq (hlt p hp).ne
    · exact h.handles p hp q hq heq
  · exact Nat.le_zero.mp (h.marks ▸ (PltHashTable.add_noMoreMarks hadd).deleted_le)

/-- How sorting ends: everything is in its bucket, or there are too many of them for the table. -/
def Places (dirtyOnly : Bool) (ps qs : Multiset (Key × KscVariableHandle))
    (r : Option (Bool × KscSorter)) : Prop :=
  ∃ b s, r = some (b, s) ∧ s.dirtyOnly = dirtyOnly ∧
    (b = true → s.Growing (qs + ps) (keys (qs + ps))) ∧
    (b = false → 1000000000 < (keys (qs + ps)).card)

theorem places_nothing (h : s.Growing ps (keys ps)) : Places s.dirtyOnly ps 0 (some (true, s)) :=
  ⟨true, s, rfl, rfl, fun _ => (zero_add ps).symm ▸ h, fun hb => Bool.noConfusion hb⟩

/-- Go on sorting. -/
theorem Places.next {dirtyOnly : Bool} {qs rs : Multiset (Key × KscVariableHandle)}
    {r r' : Option (Bool × KscSorter)} (h : Places dirtyOnly ps qs r)
    (hfailed : ∀ s, r = some (false, s) → r' = some (false, s))
    (hnext : ∀ s, r = some (true, s) → s.dirtyOnly = dirtyOnly →
      s.Growing (qs + ps) (keys (qs + ps)) → Places dirtyOnly (qs + ps) rs r') :
    Places dirtyOnly ps (qs + rs) r' := by
  have hsum : rs + (qs + ps) = qs + rs + ps := by rw [add_comm qs rs, add_assoc]
  obtain ⟨b, s, hr, hdirty, hgrowing, hmany⟩ := h
  cases b with
  | false =>
    refine ⟨false, s, hfailed s hr, hdirty, fun hb => Bool.noConfusion hb, fun _ => ?_⟩
    refine (hmany rfl).trans_le (Finset.card_le_card (keys_mono ?_))
    rw [← hsum]
    exact Multiset.le_add_left _ _
  | true =>
    have hplaces := hnext s hr hdirty (hgrowing rfl)
    rwa [Places, hsum] at hplaces

/-- The loop body: into the bucket that is there, or into a new one. -/
theorem Growing.sortVariable (h : s.Growing ps (keys ps)) (client : KscClient)
    (avmDefault : Option KscAvModule) (var : KscVariableHandle) :
    Places s.dirtyOnly ps (client.placedEntries s.dirtyOnly avmDefault [([], var)])
      (sortVariable client avmDefault s var) := by
  have hpasses : (¬ s.dirtyOnly = true ∨ (client.vars var).dirty = true) ↔
      client.passes s.dirtyOnly var = true := by
    simp [KscClient.passes]
  unfold KscSorter.sortVariable
  by_cases hpass : client.passes s.dirtyOnly var = true
  · have hplaced : client.placedEntries s.dirtyOnly avmDefault [([], var)] =
        {client.placedAt avmDefault ([], var)} := by
      simp [KscClient.placedEntries, hpass]
    rw [if_pos (hpasses.mpr hpass), hplaced]
    simp only [findAvModule_eq]
    set key : Key :=
      ⟨client.effectiveModule avmDefault ([], var), (client.vars var).server⟩
    have hkeys : keys ((key, var) ::ₘ ps) = insert key (keys ps) := by
      simp [keys]
    have hdone {s' : KscSorter} (hdirty : s'.dirtyOnly = s.dirtyOnly)
        (hs' : s'.Growing ((key, var) ::ₘ ps) (insert key (keys ps))) :
        Places s.dirtyOnly ps {client.placedAt avmDefault ([], var)} (some (true, s')) := by
      refine ⟨true, s', rfl, hdirty, fun _ => ?_, fun hb => Bool.noConfusion hb⟩
      rw [Multiset.singleton_add]
      exact hkeys ▸ hs'
    obtain ⟨p, hp, hpkey, hquery⟩ | ⟨hnone, hquery⟩ := PltHashTable.query_spec h.sound key
    · have hin : key ∈ keys ps := (h.contains_iff _).mp ⟨p, hp, hpkey⟩
      rw [hquery]
      refine hdone rfl ?_
      rw [Finset.insert_eq_of_mem hin, ← key_beq.mp hpkey]
      exact h.addTo hp var
    · have hnew : key ∉ keys ps := fun hin => hnone ((h.contains_iff _).mpr hin)
      rw [hquery]
      obtain ⟨hexhausted, hadd⟩ | ⟨-, table, hsound, hlimits, ⟨hcontains, -⟩ |
          ⟨-, hadd, hentries⟩⟩ := PltHashTable.add_spec h.sound (key, s.memory.length)
      · rw [hadd]
        refine ⟨false, _, rfl, rfl, fun hb => Bool.noConfusion hb, fun _ => ?_⟩
        by_contra hfew
        have hle : (keys ps).card ≤ 1000000000 :=
          (Finset.card_le_card (keys_mono (Multiset.le_add_left ps _))).trans (not_lt.mp hfew)
        rw [PltHashTable.exhausted_eq_false h.sound.valid h.marks h.minCapacity.le h.medwater
          (h.card_entries.trans_le hle)] at hexhausted
        exact Bool.noConfusion hexhausted
      · exact absurd hcontains hnone
      · rw [hadd]
        refine hdone rfl ?_
        have hbucket := h.addBucket hnew (Finset.Subset.refl _) hadd hsound hlimits hentries
        exact hbucket.addTo (p := (key, s.memory.length))
          (hentries ▸ Multiset.mem_cons_self _ _) var
  · have hplaced : client.placedEntries s.dirtyOnly avmDefault [([], var)] = 0 := by
      simp [KscClient.placedEntries, hpass]
    rw [if_neg fun hor => hpass (hpasses.mp hor), hplaced]
    exact places_nothing h

variable {client : KscClient} {dirtyOnly : Bool}

theorem Growing.sortEach (avmDefault : Option KscAvModule) (vars : List KscVariableHandle)
    (h : s.Growing ps (keys ps)) (hdirty : s.dirtyOnly = dirtyOnly) :
    Places dirtyOnly ps
      (client.placedEntries dirtyOnly avmDefault (vars.map fun var => ([], var)))
      (sortEach client avmDefault vars s) := by
  subst hdirty
  induction vars generalizing s ps with
  | nil => exact places_nothing h
  | cons var vars ih =>
    rw [List.map_cons, ← List.singleton_append, KscClient.placedEntries_append]
    refine (h.sortVariable client avmDefault var).next (fun s' hr => ?_) fun s' hr hdirty h' => ?_
    · rw [KscSorter.sortEach, hr]
    · rw [KscSorter.sortEach, hr, ← hdirty]
      rw [← hdirty] at h'
      exact ih h'

mutual

/-- A package: its variables under its module, and then the packages in it. -/
theorem Growing.sortVariables : ∀ (pkg : KscPackage) (avmDefault : Option KscAvModule)
    {s : KscSorter} {ps : Multiset (Key × KscVariableHandle)}, s.Growing ps (keys ps) →
      s.dirtyOnly = dirtyOnly →
        Places dirtyOnly ps (client.placedEntries dirtyOnly avmDefault pkg.entries)
          (sortVariables client pkg avmDefault s)
  | ⟨avModule, vars, pkgs⟩, avmDefault, s, ps, h, hdirty => by
    have hinherited : (if avModule.isSome then avModule else avmDefault) =
        avModule.or avmDefault := by
      cases avModule <;> rfl
    have hvars : client.placedEntries dirtyOnly avmDefault
        (vars.map fun var => ([avModule], var)) =
        client.placedEntries dirtyOnly (avModule.or avmDefault)
          (vars.map fun var => ([], var)) := by
      rw [← KscClient.placedEntries_enclosed, List.map_map]
      rfl
    rw [KscPackage.entries, KscClient.placedEntries_append, hvars,
      KscClient.placedEntries_enclosed]
    refine (h.sortEach (avModule.or avmDefault) vars hdirty).next (fun s' hr => ?_)
      fun s' hr hdirty' h' => ?_
    · simp only [KscSorter.sortVariables, hinherited, hr]
    · simp only [KscSorter.sortVariables, hinherited, hr]
      exact Growing.sortSubpackages pkgs (avModule.or avmDefault) h' hdirty'

theorem Growing.sortSubpackages : ∀ (pkgs : List KscPackage) (avmDefault : Option KscAvModule)
    {s : KscSorter} {ps : Multiset (Key × KscVariableHandle)}, s.Growing ps (keys ps) →
      s.dirtyOnly = dirtyOnly →
        Places dirtyOnly ps
          (client.placedEntries dirtyOnly avmDefault (KscPackage.entriesAll pkgs))
          (sortSubpackages client pkgs avmDefault s)
  | [], _, s, ps, h, hdirty => hdirty ▸ places_nothing h
  | pkg :: pkgs, avmDefault, s, ps, h, hdirty => by
    rw [KscPackage.entriesAll, KscClient.placedEntries_append]
    refine (Growing.sortVariables pkg avmDefault h hdirty).next (fun s' hr => ?_)
      fun s' hr hdirty' h' => ?_
    · rw [KscSorter.sortSubpackages, hr]
    · simp only [KscSorter.sortSubpackages, hr]
      exact Growing.sortSubpackages pkgs avmDefault h' hdirty'

end

/-- An empty sorter. -/
theorem growing_empty {table : PltHashTable Key ℕ}
    (hcreate : PltHashTable.create 11 (8 / 10) (4 / 10) = some table) (dirtyOnly : Bool) :
    (⟨false, dirtyOnly, table, []⟩ : KscSorter).Growing 0 ∅ := by
  obtain ⟨t, ht, hsound, -⟩ := PltHashTable.create_spec (K := Key) (V := ℕ) 11
    (show (0 : ℚ) < 4 / 10 by norm_num) (show (4 / 10 : ℚ) < 8 / 10 by norm_num) (by norm_num)
  obtain rfl : table = t := Option.some.inj (hcreate.symm.trans ht)
  obtain ⟨hsound, hentries, -, hmedwater⟩ := hsound (by norm_num)
  obtain ⟨hmarks, hmin⟩ := PltHashTable.create_marks hcreate
  refine ⟨⟨hsound, ?_, fun key => ?_, ?_, ?_⟩, hmarks, hmin⟩
  · rw [hmedwater]
    norm_num
  · simp [PltHashTable.Contains, hentries]
  · simp [hentries]
  · simp [hentries]

/-- The sorter is valid unless there are too many buckets, and then every variable is in its
bucket. -/
theorem create_holds (client : KscClient) (pkg : KscPackage) (dirtyOnly : Bool)
    (avmDefault : Option KscAvModule) :
    ∃ s, create client pkg dirtyOnly avmDefault = some s ∧
      (s.valid = true → s.Holds (client.placed pkg dirtyOnly avmDefault)
        (keys (client.placed pkg dirtyOnly avmDefault))) ∧
      ((keys (client.placed pkg dirtyOnly avmDefault)).card ≤ 1000000000 → s.valid = true) := by
  obtain ⟨table, hcreate, -⟩ := PltHashTable.create_spec (K := Key) (V := ℕ) 11
    (show (0 : ℚ) < 4 / 10 by norm_num) (show (4 / 10 : ℚ) < 8 / 10 by norm_num) (by norm_num)
  obtain ⟨b, s, hsort, -, hgrowing, hmany⟩ : Places dirtyOnly 0
      (client.placed pkg dirtyOnly avmDefault)
      (sortVariables client pkg avmDefault ⟨false, dirtyOnly, table, []⟩) :=
    Growing.sortVariables pkg avmDefault (growing_empty hcreate dirtyOnly) rfl
  refine ⟨{ s with valid := b }, ?_, fun hvalid => ?_, fun hfew => ?_⟩
  · simp only [create, hcreate, hsort, Option.bind_eq_bind, Option.bind_some]
  · have h := (hgrowing hvalid).toHolds
    rw [add_zero] at h
    exact ⟨h.sound, h.medwater, h.contains_iff, h.bucket, h.handles⟩
  · cases b with
    | true => rfl
    | false =>
      have := hmany rfl
      rw [add_zero] at this
      exact absurd hfew (not_le.mpr this)

end KscSorter
end AcpltKs
