import AcpltKs.Package.Basic
import AcpltKs.SimpleServer.Repetition
import AcpltKs.SimpleServer.Runs

/-! What a client gets to know of the registers of a simple server, and what it writes to them, when
it asks for several variables at once by paths that are relative to one another. -/
namespace AcpltKs
open Replay

/-- The server finds the components of all paths that a client sends. -/
theorem resolvePaths_optimizePaths {paths : List KscPath} (h : ∀ p ∈ paths, p.Plain) :
    ∃ results, KsPath.resolvePaths (optimizePaths paths) = some results ∧
      List.Forall₂ (fun p r => r.2 = KsResultCode.ok ∧ r.1.components.map cString = p.pieces)
        paths results := by
  obtain ⟨results, hresults, hall⟩ : ∃ results,
      KsPath.resolveEach (.invalid [47, 47]) (optimizePaths paths) = some results ∧
        AllResolved paths results := by
    cases paths with
    | nil => exact ⟨[], rfl, .nil⟩
    | cons p paths =>
      obtain ⟨hp, hpaths⟩ := List.forall_mem_cons.mp h
      obtain ⟨path, hnext, hpath⟩ := hp.resolveNext (.invalid [47, 47])
      obtain ⟨results, hresults, hall⟩ := resolveEach_relTo hpaths hp hpath
      refine ⟨(path, KsResultCode.ok) :: results, ?_, .cons ⟨rfl, hpath⟩ hall⟩
      rw [optimizePaths, KsPath.resolveEach, hnext]
      simp [hresults]
  refine ⟨_, KsPath.resolvePaths_eq_some.mpr ⟨results, hresults, rfl⟩, ?_⟩
  rw [List.forall₂_map_right_iff]
  refine hall.imp ?_
  rintro p ⟨path, -⟩ ⟨rfl, hpath⟩
  exact hpath.decode

theorem length_optimizePaths (paths : List KscPath) :
    (optimizePaths paths).length = paths.length := by
  cases paths with
  | nil => rfl
  | cons p paths => simp [optimizePaths]

/-- A path becomes longer by no more than five steps upwards. -/
theorem KscPath.length_relTo_le (p other : KscPath) (maxDepth : ℕ) :
    (p.relTo other maxDepth).length ≤ p.str.length + 15 := by
  have hlength : ∀ up n, up ≤ min maxDepth kscMaxRelDepth →
      (concat (praefix up) ((cString p.str).drop n)).length ≤ p.str.length + 15 := by
    intro up n hup
    have hpath := length_cString_le p.str
    have hrest := length_cString_le ((cString p.str).drop n)
    have hpraefix : (praefix up).length = 3 * up := by simp [praefix, Nat.mul_comm]
    rw [kscMaxRelDepth] at hup
    rw [List.length_drop] at hrest
    rw [concat, List.length_append, cString_praefix, hpraefix]
    omega
  unfold KscPath.relTo
  dsimp only
  split_ifs with hroot hcommon
  · exact hlength _ _ hcommon.2
  · exact hlength _ _ hcommon.2
  · exact Nat.le_add_right _ _
  · exact Nat.le_add_right _ _

/-- What is sent for short paths fits into a message. -/
theorem sendable_optimizePaths {paths : List KscPath} (h : ∀ p ∈ paths, KsString.Short p.str) :
    ∀ id ∈ optimizePaths paths, KsString.Sendable id := by
  have hrel : ∀ p ∈ paths, ∀ other, KsString.Sendable (p.relTo other kscMaxRelDepth) := by
    intro p hp other
    have hle := p.length_relTo_le other kscMaxRelDepth
    have hshort := h p hp
    unfold KsString.Short at hshort
    unfold KsString.Sendable
    omega
  cases paths with
  | nil => exact nofun
  | cons p paths =>
    intro id hid
    rw [optimizePaths, List.mem_cons, ← List.map_uncurry_zip_eq_zipWith] at hid
    obtain rfl | hid := hid
    · exact (h p List.mem_cons_self).sendable
    · obtain ⟨q, hq, rfl⟩ := List.mem_map.mp hid
      exact hrel q.1 (List.mem_cons_of_mem p (List.of_mem_zip hq).1) q.2

namespace KssMemory
variable {m : KssMemory} {cells : ℕ → KssRegister} {env : KssEnvironment} {ticket : KsAvTicket}

/-- What has been got for a name; of a variable it is what its register holds. -/
def ItemShows (m : KssMemory) (cells : ℕ → KssRegister) (ids : List KsString)
    (item : KsGetVarItemResult) : Prop :=
  item.result = .ok → ∃ a, m.find ids = some a ∧ ∀ common var,
    m.objects[a]? = some (.simpleVariable common var) →
      item = KsSimpleServer.registerItem (cells a)

/-- One variable is read. -/
theorem Sound.getVarItem_shows (h : m.Sound) {path : KsPath} (hp : path.Proper)
    (item : KsGetVarItemResult) : m.ItemShows cells (path.components.map cString)
      (KsSimpleServer.getVarItem (⟨m.assign cells, env, 0⟩ : KssHandle) ticket path item) := by
  have htree := m.sameTree_assign cells
  have hlookup := (htree.sound h).getChildByPath_eq env hp
  rw [htree.find_eq] at hlookup
  intro hok
  unfold KsSimpleServer.getVarItem at hok ⊢
  rw [hlookup] at hok ⊢
  cases hread : ticket.canReadVar path.toPltString with
  | false =>
    rw [hread] at hok
    exact absurd hok (show KsResultCode.noAccess ≠ .ok by decide)
  | true =>
    cases hfind : m.find (path.components.map cString) with
    | none =>
      rw [hread, hfind] at hok
      exact absurd hok (show KsResultCode.badPath ≠ .ok by decide)
    | some a =>
      refine ⟨a, rfl, fun common var hobj => ?_⟩
      have hobject : (m.assign cells).objects[a]? =
          some (.simpleVariable common (var.withRegister (cells a))) := by
        rw [getElem?_assign, hobj]
        rfl
      have hhas : KsSimpleServer.hasCurrProps (⟨m.assign cells, env, a⟩ : KssHandle) := by
        refine Or.inl ?_
        simp only [KssCommObject.typeCode, typeCodeAt, hobject]
        rfl
      simp only [if_true, Option.map_some, if_pos hhas, KssCommObject.getCurrProps,
        KssHandle.object, hobject, Option.elim_some, getCurrProps, KssObject.getValue,
        KsSimpleServer.registerItem, KssSimpleVariable.withRegister]
      cases (cells a).value <;> rfl

theorem accepts_ne_ok {obj : KssObject} {props : Option KsCurrProps} {res : KsResultCode}
    (h : obj.accepts props = .error res) : res ≠ .ok := by
  have hvar : ∀ var : KssSimpleVariable, var.accepts props = .error res → res ≠ .ok := by
    intro var h
    unfold KssSimpleVariable.accepts at h
    split at h
    · split_ifs at h
      cases h
      decide
    · cases h
      decide
  cases obj with
  | simpleVariable common var => exact hvar var h
  | ioStatisticsVariable common var statType => exact hvar var h
  | timeNowVariable =>
    rcases props with _ | _ | _ <;> cases h <;> decide
  | simpleLinkAlias =>
    cases h
    decide
  | simpleDomain =>
    cases h
    decide

/-- An item is a success exactly if it is written. -/
theorem resultOf_verdict (item : (KsPath × KsResultCode) × Option KsCurrProps) :
    resultOf (m.verdict ticket item) = .ok ↔ (m.verdict ticket item).toOption.isSome = true := by
  have hfailed : ∀ res, m.verdict ticket item = .error res → res ≠ .ok := by
    obtain ⟨⟨path, pathres⟩, props⟩ := item
    intro res h
    unfold verdict at h
    dsimp only at h
    split_ifs at h with hpath
    · cases h
      exact hpath
    · cases h
      decide
    · split at h
      · cases h
        decide
      · next a _ =>
        cases hobj : m.objects[a]? with
        | none =>
          rw [hobj] at h
          cases h
          decide
        | some obj =>
          rw [hobj, Option.elim_some] at h
          cases haccepts : obj.accepts props with
          | ok r =>
            rw [haccepts] at h
            cases h
          | error res =>
            rw [haccepts] at h
            cases h
            exact accepts_ne_ok haccepts
  cases hverdict : m.verdict ticket item with
  | ok w => exact iff_of_true rfl rfl
  | error res => exact iff_of_false (hfailed res hverdict) (by simp [Except.toOption])

end KssMemory

namespace KsSimpleServer
open KssMemory

variable {m m' : KssMemory} {cells : ℕ → KssRegister} {c : Circumstances} {ticket : KsAvTicket}
  {result : KsServiceResult}

theorem getVarItems_forall₂ {Obj : Type*} [KssCommObject Obj] {root : Obj}
    {paths : List (KsPath × KsResultCode)} {items items' : List KsGetVarItemResult}
    (hget : getVarItems root ticket paths items = some items')
    (hlength : items.length ≤ paths.length) :
    List.Forall₂ (fun r item' => r.2 = KsResultCode.ok →
      ∃ item, item' = getVarItem root ticket r.1 item) paths items' := by
  induction paths generalizing items items' with
  | nil =>
    cases hget
    rw [List.length_eq_zero_iff.mp (Nat.le_zero.mp hlength)]
    exact .nil
  | cons r paths ih =>
    obtain ⟨path, pathres⟩ := r
    cases items with
    | nil => exact absurd hget (by simp [getVarItems])
    | cons item items =>
      obtain ⟨rest, hrest, hsome⟩ := Option.bind_eq_some_iff.mp hget
      obtain rfl := Option.some.inj hsome
      exact .cons (fun hok => ⟨item, if_pos hok⟩) (ih hrest (Nat.le_of_succ_le_succ hlength))

/-- Variables are read, all at the same time. -/
theorem perform_getVar (h : m.Sound) {paths : List KscPath} (hpaths : ∀ p ∈ paths, p.Plain)
    (hperform : perform (m.assign cells) c ticket (.getVar ⟨optimizePaths paths⟩) =
      some (result, m')) :
    ∃ r, result = .getVar r ∧ (r.result = .ok →
      List.Forall₂ (fun p item => m.ItemShows cells p.pieces item) paths r.items) := by
  obtain ⟨r, hget, hsome⟩ := Option.map_eq_some_iff.mp hperform
  cases hsome
  refine ⟨r, rfl, fun hok => ?_⟩
  unfold getVar at hget
  split_ifs at hget with hroom
  · obtain ⟨resolved, hresolved, hget⟩ := Option.bind_eq_some_iff.mp hget
    obtain ⟨items, hitems, hsome⟩ := Option.bind_eq_some_iff.mp hget
    cases hsome
    obtain ⟨resolved', hresolved', hall⟩ := resolvePaths_optimizePaths hpaths
    obtain rfl := Option.some.inj (hresolved.symm.trans hresolved')
    have hlength : (blankGetVarResult c ⟨optimizePaths paths⟩).items.length ≤ resolved.length := by
      rw [← hall.length_eq, ← length_optimizePaths paths]
      exact length_newArray_le ..
    have hproper := KsPath.resolvePaths_proper hresolved
    have hread := getVarItems_forall₂ hitems hlength
    refine List.forall₂_iff_get.mpr ⟨hall.length_eq.trans hread.length_eq, fun i hi hi' => ?_⟩
    have hlt : i < resolved.length := hall.length_eq ▸ hi
    obtain ⟨hres, hpieces⟩ := hall.get hi hlt
    obtain ⟨item, hitem⟩ := hread.get hlt hi' hres
    rw [hitem, ← hpieces]
    exact h.getVarItem_shows (hproper _ (List.get_mem ..) hres) item
  · cases hget
    exact absurd hok (show KsResultCode.generic ≠ .ok by decide)

/-- Variables are written to, or nothing is. -/
theorem perform_setVar (h : m.Sound) {params : KsSetVarParams}
    (hperform : perform (m.assign cells) c ticket (.setVar params) = some (result, m')) :
    ∃ r, result = .setVar r ∧ (r.result ≠ .ok ∧ m' = m.assign cells ∨
      r.result = .ok ∧
        r.results = (setItems params).map (fun item => resultOf (m.verdict ticket item)) ∧
        m' = m.assign (replay cells (m.accepted ticket (setItems params)))) := by
  obtain ⟨r, hset, hsome⟩ := Option.map_eq_some_iff.mp hperform
  cases hsome
  refine ⟨r.1, rfl, ?_⟩
  rw [setVar_assign h] at hset
  split_ifs at hset with hroom hfits
  · cases hset
    exact Or.inl ⟨show KsResultCode.generic ≠ .ok by decide, rfl⟩
  · cases hset
    have hle : (blankSetVarResult c params).results.length ≤ params.items.length :=
      length_newArray_le ..
    refine Or.inr ⟨rfl, ?_, rfl⟩
    rw [List.drop_eq_nil_of_le hle, List.append_nil]

/-- The other services leave the memory alone. -/
theorem perform_leaves {params : KsServiceParams} (hread : ∀ p, params ≠ .setVar p)
    (hperform : perform m c ticket params = some (result, m')) : m' = m := by
  cases params with
  | setVar params => exact absurd rfl (hread params)
  | exgData params =>
    cases hperform
    rfl
  | getVar params =>
    obtain ⟨_, -, hsome⟩ := Option.map_eq_some_iff.mp hperform
    cases hsome
    rfl
  | getPP params =>
    obtain ⟨_, -, hsome⟩ := Option.map_eq_some_iff.mp hperform
    cases hsome
    rfl
  | getEP params =>
    obtain ⟨_, -, hsome⟩ := Option.map_eq_some_iff.mp hperform
    cases hsome
    rfl

/-- Nothing is exchanged. -/
theorem perform_exgData {params : KsExgDataParams}
    (hperform : perform m c ticket (.exgData params) = some (result, m')) :
    ∃ r, result = .exgData r ∧ r.result ≠ .ok := by
  cases hperform
  refine ⟨_, rfl, ?_⟩
  dsimp only
  split_ifs <;> decide

end KsSimpleServer
end AcpltKs
