import AcpltKs.Package.Sorting

/-! Two sorters are merged into one request for each server and module. -/
namespace AcpltKs
open Grouping

/-- The buckets of a sorter are the groups of these variables. -/
structure KscSorter.Sorts (s : KscSorter) (ps : Multiset (KscSorter.Key × KscVariableHandle)) :
    Prop where
  groups : Groups (s.buckets.map fun p => (p.1, p.2.vars)) ps
  labels : ∀ p ∈ s.buckets, p.2.avModule = p.1.avModule ∧ p.2.server = p.1.server

/-- There is a bucket with these variables, or there are none and the handle is unbound. -/
def BucketFor (bucket : Option KscSorterBucket) (key : KscSorter.Key)
    (vars : Multiset KscVariableHandle) : Prop :=
  bucket = none ∧ vars = 0 ∨ ∃ b, bucket = some b ∧ b.Serves key vars

namespace KscSorter

variable {s : KscSorter} {ps : Multiset (Key × KscVariableHandle)}

/-- What an iterator over the buckets comes to. -/
theorem Holds.sorts (h : s.Holds ps (keys ps)) : s.Sorts ps := by
  have hbucket : ∀ p ∈ s.table.iterate, ∃ b, s.memory[p.2]? = some b ∧
      b.Serves p.1 (group ps p.1) := by
    intro p hp
    exact h.bucket p (by rwa [← PltHashTable.coe_iterate, Multiset.mem_coe])
  have hmem : ∀ p ∈ s.buckets, p.2.Serves p.1 (group ps p.1) := by
    intro p hp
    obtain ⟨q, hq, hpq⟩ := List.mem_filterMap.mp hp
    obtain ⟨b, hb, hserves⟩ := hbucket q hq
    rw [hb, Option.map_some, Option.some.injEq] at hpq
    exact hpq ▸ hserves
  have hkeys : s.buckets.map Prod.fst = s.table.iterate.map Prod.fst := by
    rw [buckets, List.map_filterMap]
    refine (List.filterMap_congr fun p hp => ?_).trans (congrFun List.filterMap_eq_map _)
    obtain ⟨b, hb, -⟩ := hbucket p hp
    simp [hb]
  have hfst : (s.buckets.map fun p => (p.1, p.2.vars)).map Prod.fst =
      s.table.iterate.map Prod.fst := by
    rw [List.map_map, ← hkeys]
    rfl
  refine ⟨⟨hfst ▸ h.nodup_iterate, fun key => hfst ▸ h.mem_iterate_iff key, ?_⟩,
    fun p hp => ⟨(hmem p hp).avModule, (hmem p hp).server⟩⟩
  intro g hg
  obtain ⟨p, hp, rfl⟩ := List.mem_map.mp hg
  exact (hmem p hp).vars_eq

/-- Taking a bucket out leaves the others. -/
theorem Holds.remove (h : s.Holds ps (keys ps)) (key : Key) :
    key ∉ keys ps ∧ s.table.remove key = some (none, s.table) ∨
      key ∈ keys ps ∧ ∃ bucket table b, s.table.remove key = some (some bucket, table) ∧
        s.memory[bucket]? = some b ∧ b.Serves key (group ps key) ∧
        ({ s with table } : KscSorter).Holds (without ps key) (keys (without ps key)) ∧
        table.size + 1 = s.table.size := by
  obtain ⟨hnone, hremove⟩ | ⟨p, table, hin, hremove, hpkey, hentries, hvalid, hlimits, hroom⟩ :=
    PltHashTable.remove_spec h.sound key
  · exact Or.inl ⟨fun hin => hnone ((h.contains_iff key).mpr hin), hremove⟩
  · obtain rfl := key_beq.mp hpkey
    have hp : p ∈ s.table.entries := hentries ▸ Multiset.mem_cons_self _ _
    have hothers : ∀ q ∈ table.entries, q ∈ s.table.entries ∧ q.1 ≠ p.1 := by
      intro q hq
      refine ⟨hentries ▸ Multiset.mem_cons_of_mem hq, fun heq => ?_⟩
      have hne := h.sound.valid.of_cons hentries.symm q hq
      rw [key_beq.mpr heq.symm] at hne
      exact Bool.noConfusion hne
    obtain ⟨b, hb, hserves⟩ := h.bucket p hp
    refine Or.inr ⟨(h.contains_iff _).mp hin, p.2, table, b, hremove, hb, hserves,
      ⟨h.sound.of_limits hvalid (hroom.mpr (PltHashTable.not_shrinksFull h.medwater _)) hlimits,
        hlimits.medwater.trans h.medwater, fun k => ?_, fun q hq => ?_, fun q hq r hr => ?_⟩, ?_⟩
    · rw [mem_keys_without, ← h.contains_iff]
      simp only [PltHashTable.Contains, ← hentries, Multiset.mem_cons, exists_eq_or_imp, key_beq]
      constructor
      · rintro ⟨q, hq, rfl⟩
        exact ⟨Or.inr ⟨q, hq, rfl⟩, (hothers q hq).2⟩
      · rintro ⟨hk | hq, hne⟩
        · exact absurd hk.symm hne
        · exact hq
    · obtain ⟨hq, hne⟩ := hothers q hq
      obtain ⟨c, hc, hcserves⟩ := h.bucket q hq
      exact ⟨c, hc, by rwa [group_without hne]⟩
    · exact h.handles q (hothers q hq).1 r (hothers r hr).1
    · rw [hvalid.size_eq, h.sound.valid.size_eq, ← hentries, Multiset.card_cons]

theorem Holds.isEmpty_iff (h : s.Holds ps (keys ps)) : s.isEmpty = true ↔ ps = 0 := by
  rw [isEmpty, decide_eq_true_iff, h.sound.valid.size_eq, h.card_entries, Finset.card_eq_zero,
    keys_eq_empty]

/-- The first bucket that an iterator comes to. -/
theorem Holds.removeFirst (h : s.Holds ps (keys ps)) (hne : s.isEmpty = false) :
    ∃ key b s', s.removeFirst = some (some b, s') ∧ key ∈ keys ps ∧ b.Serves key (group ps key) ∧
      s'.Holds (without ps key) (keys (without ps key)) ∧
      s'.table.size + 1 = s.table.size := by
  cases hiterate : s.table.iterate with
  | nil =>
    have hsize : s.table.size = 0 := by
      rw [h.sound.valid.size_eq, ← PltHashTable.coe_iterate, hiterate]
      rfl
    simp [isEmpty, hsize] at hne
  | cons p rest =>
    have hin : p.1 ∈ keys ps := by
      rw [← h.mem_iterate_iff, hiterate]
      exact List.mem_cons_self
    obtain ⟨hnot, -⟩ | ⟨-, bucket, table, b, hremove, hb, hserves, hrest, hsize⟩ := h.remove p.1
    · exact absurd hin hnot
    · refine ⟨p.1, b, { s with table }, ?_, hin, hserves, hrest, hsize⟩
      simp only [KscSorter.removeFirst, hiterate, hremove, Option.map_some, Option.getD_some, hb]

/-- The bucket that matches one of the other sorter, if there is one. -/
theorem Holds.removeMatchingBucket (h : s.Holds ps (keys ps)) {b : KscSorterBucket} {key : Key}
    {vars : Multiset KscVariableHandle} (hb : b.Serves key vars) :
    ∃ bucket s', s.removeMatchingBucket b = some (bucket, s') ∧
      BucketFor bucket key (group ps key) ∧
      s'.Holds (without ps key) (keys (without ps key)) := by
  have hkey : (⟨b.avModule, b.server⟩ : Key) = key := Key.ext hb.avModule hb.server
  rw [KscSorter.removeMatchingBucket, hkey]
  obtain ⟨hnot, hremove⟩ | ⟨-, bucket, table, c, hremove, hc, hserves, hrest, -⟩ := h.remove key
  · refine ⟨none, s, by rw [hremove]; rfl, Or.inl ⟨rfl, group_eq_zero.mpr hnot⟩, ?_⟩
    rwa [without_of_notMem hnot]
  · refine ⟨some c, { s with table }, ?_, Or.inr ⟨c, rfl, hserves⟩, hrest⟩
    simp only [hremove, Option.map_some, Option.bind_some, hc]

end KscSorter

/-- What a request is for, and its variables. -/
def KscExchange.content (e : KscExchange) :
    KscSorter.Key × List KscVariableHandle × List KscVariableHandle :=
  (⟨e.avModule, e.server⟩, e.getVars, e.setVars)

namespace KscExchangePackage

variable {getSorter setSorter : KscSorter} {key : KscSorter.Key}
  {gs ss : Multiset (KscSorter.Key × KscVariableHandle)}

theorem varsOf_spec {bucket : Option KscSorterBucket} {vars : Multiset KscVariableHandle}
    (h : BucketFor bucket key vars) :
    ∃ l, varsOf bucket = some l ∧ (l : Multiset KscVariableHandle) = vars := by
  obtain ⟨rfl, rfl⟩ | ⟨b, rfl, hb⟩ := h
  · exact ⟨[], rfl, rfl⟩
  · exact ⟨b.vars, if_pos hb.varCount, hb.vars_eq⟩

/-- The buckets of a key become one request. -/
theorem doSimpleExchange_spec {getBucket setBucket : Option KscSorterBucket}
    {getVars setVars : Multiset KscVariableHandle} (hget : BucketFor getBucket key getVars)
    (hset : BucketFor setBucket key setVars) (hbound : getBucket.isSome ∨ setBucket.isSome) :
    ∃ e, doSimpleExchange getBucket setBucket = some [e] ∧ e.content.1 = key ∧
      (e.getVars : Multiset KscVariableHandle) = getVars ∧
      (e.setVars : Multiset KscVariableHandle) = setVars := by
  obtain ⟨l, hl, hgetVars⟩ := varsOf_spec hget
  obtain ⟨m, hm, hsetVars⟩ := varsOf_spec hset
  obtain ⟨b, hb, havm, hserver⟩ : ∃ b, setBucket.or getBucket = some b ∧
      b.avModule = key.avModule ∧ b.server = key.server := by
    obtain ⟨rfl, -⟩ | ⟨b, rfl, hb⟩ := hset
    · obtain ⟨rfl, -⟩ | ⟨b, rfl, hb⟩ := hget
      · simp at hbound
      · exact ⟨b, rfl, hb.avModule, hb.server⟩
    · exact ⟨b, rfl, hb.avModule, hb.server⟩
  refine ⟨⟨b.avModule, b.server, l, m⟩, ?_, KscSorter.Key.ext havm hserver, hgetVars, hsetVars⟩
  simp only [doSimpleExchange, hl, hm, hb, Option.bind_eq_bind, Option.bind_some]

/-- The request of a key, and those of the other keys. -/
theorem joined_request {e : KscExchange} {es : List KscExchange} (hkey : e.content.1 = key)
    (hget : (e.getVars : Multiset KscVariableHandle) = group gs key)
    (hset : (e.setVars : Multiset KscVariableHandle) = group ss key)
    (hin : key ∈ keys gs ∨ key ∈ keys ss)
    (hes : Joined (es.map KscExchange.content) (without gs key) (without ss key)) :
    Joined ((e :: es).map KscExchange.content) gs ss := by
  rw [List.map_cons, show e.content = (key, e.getVars, e.setVars) from Prod.ext hkey rfl]
  exact hes.cons hin hget hset

/-- The second sorter is emptied. -/
theorem mergeRest_spec {rounds : ℕ} (h : setSorter.Holds ss (keys ss))
    (hrounds : setSorter.table.size = rounds) :
    ∃ es, mergeRest rounds setSorter = some es ∧ Joined (es.map KscExchange.content) 0 ss := by
  induction rounds generalizing setSorter ss with
  | zero =>
    have hempty : setSorter.isEmpty = true := decide_eq_true hrounds
    obtain rfl := h.isEmpty_iff.mp hempty
    exact ⟨[], by rw [mergeRest, if_pos hempty], Joined.nil⟩
  | succ rounds ih =>
    have hfull : setSorter.isEmpty = false := decide_eq_false (by omega)
    obtain ⟨key, b, s', hremove, hin, hserves, hrest, hsize⟩ := h.removeFirst hfull
    have hnone : BucketFor none key 0 := Or.inl ⟨rfl, rfl⟩
    obtain ⟨e, he, hkey, hgetVars, hsetVars⟩ :=
      doSimpleExchange_spec hnone (Or.inr ⟨b, rfl, hserves⟩) (Or.inr rfl)
    obtain ⟨es, hes, hjoined⟩ := ih hrest (by omega)
    refine ⟨e :: es, ?_, joined_request hkey hgetVars hsetVars (Or.inr hin) ?_⟩
    · simp only [mergeRest, hfull, Bool.false_eq_true, if_false, hremove, he, hes,
        Option.bind_eq_bind, Option.bind_some, List.singleton_append]
    · exact hjoined

/-- The first sorter is emptied, and what matches its buckets is taken out of the other one. -/
theorem mergeLoop_spec {rounds : ℕ} (hget : getSorter.Holds gs (keys gs))
    (hset : setSorter.Holds ss (keys ss)) (hrounds : getSorter.table.size = rounds) :
    ∃ es, mergeLoop rounds getSorter setSorter = some es ∧
      Joined (es.map KscExchange.content) gs ss := by
  induction rounds generalizing getSorter setSorter gs ss with
  | zero =>
    have hempty : getSorter.isEmpty = true := decide_eq_true hrounds
    obtain rfl := hget.isEmpty_iff.mp hempty
    obtain ⟨es, hes, hjoined⟩ := mergeRest_spec hset rfl
    exact ⟨es, by rw [mergeLoop, if_pos hempty, hes], hjoined⟩
  | succ rounds ih =>
    have hfull : getSorter.isEmpty = false := decide_eq_false (by omega)
    obtain ⟨key, b, g', hremove, hin, hserves, hrest, hsize⟩ := hget.removeFirst hfull
    obtain ⟨bucket, s', hmatching, hbucket, hset'⟩ := hset.removeMatchingBucket hserves
    obtain ⟨e, he, hkey, hgetVars, hsetVars⟩ :=
      doSimpleExchange_spec (Or.inr ⟨b, rfl, hserves⟩) hbucket (Or.inl rfl)
    obtain ⟨es, hes, hjoined⟩ := ih hrest hset' (by omega)
    refine ⟨e :: es, ?_, joined_request hkey hgetVars hsetVars (Or.inl hin) hjoined⟩
    simp only [mergeLoop, hfull, Bool.false_eq_true, if_false, hremove, hmatching, he, hes,
      Option.bind_eq_bind, Option.bind_some, List.singleton_append]

end KscExchangePackage

/-- Every entry of a variable is put into one bucket, that of its server and its module, and two
sorters are merged into one request for every key of them, with all its variables. -/
theorem packages_sorted_merged (client : KscClient) (getPkg setPkg : KscPackage)
    (getDirty setDirty : Bool) (getDefault setDefault : Option KscAvModule) :
    ∃ getSorter setSorter,
      KscSorter.create client getPkg getDirty getDefault = some getSorter ∧
      KscSorter.create client setPkg setDirty setDefault = some setSorter ∧
      ((keys (client.placed getPkg getDirty getDefault)).card ≤ 1000000000 →
        getSorter.valid = true) ∧
      (getSorter.valid = true → getSorter.Sorts (client.placed getPkg getDirty getDefault)) ∧
      (getSorter.valid = true → setSorter.valid = true →
        ∃ es, KscExchangePackage.mergeSorters getSorter setSorter = some es ∧
          Joined (es.map KscExchange.content) (client.placed getPkg getDirty getDefault)
            (client.placed setPkg setDirty setDefault)) := by
  obtain ⟨g, hg, hgholds, hgfew⟩ := KscSorter.create_holds client getPkg getDirty getDefault
  obtain ⟨s, hs, hsholds, -⟩ := KscSorter.create_holds client setPkg setDirty setDefault
  exact ⟨g, s, hg, hs, hgfew, fun hvalid => (hgholds hvalid).sorts, fun hgvalid hsvalid =>
    KscExchangePackage.mergeLoop_spec (hgholds hgvalid) (hsholds hsvalid) rfl⟩

/-- Every variable that passes the filter is in exactly one bucket. -/
def PlacedOnce (client : KscClient) (pkg : KscPackage) (dirtyOnly : Bool)
    (avmDefault : Option KscAvModule) : Prop :=
  ∀ s, KscSorter.create client pkg dirtyOnly avmDefault = some s → s.valid = true →
    ∀ e ∈ pkg.entries, client.passes dirtyOnly e.2 = true →
      ∃! p, p ∈ s.buckets ∧ e.2 ∈ p.2.vars

/-- A variable of the server at address 1, without a module of its own. -/
def plainVariable : KscVariable where
  pathAndName := KscPath.ofString [47, 97]
  server := ⟨1⟩
  avModule := none
  currProps := ⟨none, ⟨0, 0⟩, 0⟩
  dirty := true
  lastResult := .ok

/-- Two packages with different modules that have a variable in common. -/
def sharedVariable : KscPackage :=
  .mk none [] [.mk (some ⟨2⟩) [0] [], .mk (some ⟨3⟩) [0] []]

/-- The common variable is put into a bucket for each of the modules. -/
theorem not_placedOnce_sharedVariable :
    ¬ ∀ client pkg dirtyOnly avmDefault, PlacedOnce client pkg dirtyOnly avmDefault := by
  intro h
  let client : KscClient := ⟨none, fun _ => none, fun _ => plainVariable⟩
  have hplaced : client.placed sharedVariable false none =
      ↑[((⟨some ⟨2⟩, ⟨1⟩⟩ : KscSorter.Key), 0), (⟨some ⟨3⟩, ⟨1⟩⟩, 0)] := rfl
  obtain ⟨s, hcreate, hholds, hfew⟩ := KscSorter.create_holds client sharedVariable false none
  have hvalid := hfew (by rw [hplaced]; decide)
  have hsorts := (hholds hvalid).sorts
  have hbucket (avm : KscAvModule) (hmem : ((⟨some avm, ⟨1⟩⟩ : KscSorter.Key), 0) ∈
      client.placed sharedVariable false none) :
      ∃ p, (p ∈ s.buckets ∧ 0 ∈ p.2.vars) ∧ p.1.avModule = some avm := by
    obtain ⟨g, hg, hkey, hv⟩ := hsorts.groups.mem_iff_mem.mp hmem
    obtain ⟨p, hp, rfl⟩ := List.mem_map.mp hg
    exact ⟨p, ⟨hp, hv⟩, congrArg (·.avModule) hkey⟩
  obtain ⟨p, hp, hpavm⟩ := hbucket ⟨2⟩ (by rw [hplaced]; decide)
  obtain ⟨q, hq, hqavm⟩ := hbucket ⟨3⟩ (by rw [hplaced]; decide)
  obtain ⟨r, -, hunique⟩ := h client sharedVariable false none s hcreate hvalid
    ([some ⟨2⟩, none], 0) (by decide) rfl
  rw [(hunique p hp).trans (hunique q hq).symm, hqavm] at hpavm
  exact absurd hpavm (by decide)

end AcpltKs
