import AcpltKs.Client.Updates
import AcpltKs.Package.Replies
import AcpltKs.SimpleServer.Snapshots

/-! What the outcome of a request to a simple server tells the variables of a client: what their
registers hold, and which of them have been written to. -/
namespace AcpltKs
open Replay
open KscPackageBase KsSimpleServer KssLink KssMemory

/-- What a register holds that has been given these properties. -/
def KsVarCurrProps.register (cp : KsVarCurrProps) : KssRegister := ⟨cp.value, cp.time, cp.state⟩

namespace KscVariable

/-- A variable with a plain path. Whatever it holds can be sent; the handle of its value may be
unbound. -/
structure Proper (v : KscVariable) : Prop where
  plain : v.pathAndName.Plain
  short : KsString.Short v.pathAndName.str
  register : v.currProps.register.Sendable

/-- The register that a variable is written to, and what, unless the server refuses it. -/
def write (m : KssMemory) (c : Circumstances) (v : KscVariable) : Option (ℕ × KssRegister) :=
  if (granted c).canWriteVar v.pathAndName.str then
    (m.find v.pathAndName.pieces).bind fun a =>
      ((m.objects[a]?).bind fun obj => (obj.accepts (some v.currProps.toCurrProps)).toOption).map
        (a, ·)
  else none

/-- The path leads to an object; if this is a simple variable, its register holds what the variable
of the client holds. -/
def Shows (m : KssMemory) (cells : ℕ → KssRegister) (v : KscVariable) : Prop :=
  ∃ a, m.find v.pathAndName.pieces = some a ∧ ∀ common var,
    m.objects[a]? = some (.simpleVariable common var) → v.currProps.register = cells a

/-- If the variable has been told that it is up to date, this is right. -/
def UpToDate (m : KssMemory) (cells : ℕ → KssRegister) (v : KscVariable) : Prop :=
  v.lastResult = .ok → v.Shows m cells

end KscVariable

namespace KscVariable
variable {v v' v'' : KscVariable} {m : KssMemory} {cells : ℕ → KssRegister}

/-- The variable is one of the same path and server, and what it holds can be sent if it could be
before. -/
structure Kept (v v' : KscVariable) : Prop where
  path : v'.pathAndName = v.pathAndName
  server : v'.server = v.server
  register : v.currProps.register.Sendable → v'.currProps.register.Sendable

theorem Kept.refl (v : KscVariable) : v.Kept v := ⟨rfl, rfl, id⟩

theorem Kept.trans (h : v.Kept v') (h' : v'.Kept v'') : v.Kept v'' :=
  ⟨h'.path.trans h.path, h'.server.trans h.server, h'.register ∘ h.register⟩

theorem Proper.kept (hv : v.Proper) (h : v.Kept v') : v'.Proper :=
  ⟨h.path ▸ hv.plain, h.path ▸ hv.short, h.register hv.register⟩

/-- One variable has changed. -/
theorem kept_update {vars : KscMemory} {var : KscVariableHandle} (h : (vars var).Kept v)
    (var' : KscVariableHandle) : (vars var').Kept (Function.update vars var v var') := by
  by_cases hvar : var' = var
  · subst hvar
    rwa [Function.update_self]
  · rw [Function.update_of_ne hvar]
    exact .refl _

theorem UpToDate.of_ne (h : v.lastResult ≠ .ok) : v.UpToDate m cells := fun hok => absurd hok h

end KscVariable

namespace KscPackageBase
open KscVariable (Kept UpToDate)

variable {m : KssMemory} {cells : ℕ → KssRegister} {vars vars' : KscMemory}
  {sortedVars : List KscVariableHandle}

theorem copyGetVarResult_kept {item : KsGetVarItemResult} (hitem : item.Sendable)
    (v : KscVariable) : v.Kept (copyGetVarResult item v).2 := by
  unfold copyGetVarResult
  split_ifs with hok
  · obtain ⟨p, hbound, hp⟩ := hitem hok
    unfold KsGetVarItemResult.varCurrProps
    rw [hbound]
    cases p with
    | domain => exact ⟨rfl, rfl, id⟩
    | var value time state =>
      obtain ⟨⟨value, rfl, hvalue⟩, htime⟩ := hp
      refine ⟨rfl, rfl, fun _ => ⟨?_, htime⟩⟩
      rintro _ ⟨⟩
      exact hvalue
  · exact ⟨rfl, rfl, id⟩

/-- A variable is told what its register holds. -/
theorem copyGetVarResult_upToDate {item : KsGetVarItemResult} {v : KscVariable}
    (hitem : m.ItemShows cells v.pathAndName.pieces item) :
    (copyGetVarResult item v).2.UpToDate m cells := by
  unfold copyGetVarResult
  split_ifs with hok
  · obtain ⟨a, hfind, hregister⟩ := hitem hok
    cases hprops : item.varCurrProps with
    | none => exact .of_ne (show KsResultCode.typeMismatch ≠ .ok by decide)
    | some cp =>
      refine fun _ => ⟨a, hfind, fun common var hobj => ?_⟩
      rw [hregister common var hobj, KsGetVarItemResult.varCurrProps, registerItem] at hprops
      cases hvalue : (cells a).value with
      | none =>
        rw [hvalue] at hprops
        cases hprops
      | some value =>
        rw [hvalue] at hprops
        cases hprops
        rw [← hvalue]
        rfl
  · exact .of_ne hok

/-- All variables that have been asked for are told what their registers hold. -/
theorem copyGetVarResults_upToDate {items : List KsGetVarItemResult}
    (hitems : List.Forall₂ (fun var item => item.Sendable ∧
      m.ItemShows cells (vars var).pathAndName.pieces item) sortedVars items) :
    ∃ ok vars', copyGetVarResults sortedVars items vars = some (ok, vars') ∧
      (∀ var, (vars var).Kept (vars' var)) ∧
      (∀ var, (vars var).UpToDate m cells → (vars' var).UpToDate m cells) ∧
      ∀ var ∈ sortedVars, (vars' var).UpToDate m cells := by
  induction sortedVars generalizing items vars with
  | nil =>
    cases hitems
    exact ⟨true, vars, rfl, fun _ => .refl _, fun _ h => h, nofun⟩
  | cons var sortedVars ih =>
    cases hitems with
    | @cons _ item _ items hitem hitems =>
    obtain ⟨hsendable, hshows⟩ := hitem
    have hkept := KscVariable.kept_update (copyGetVarResult_kept hsendable (vars var))
    have htold := copyGetVarResult_upToDate hshows
    generalize hv : (copyGetVarResult item (vars var)).2 = v at hkept htold
    have hrest : List.Forall₂ (fun var' item => item.Sendable ∧ m.ItemShows cells
        (Function.update vars var v var').pathAndName.pieces item) sortedVars items := by
      refine hitems.imp fun var' item' h => ?_
      rw [(hkept var').path]
      exact h
    obtain ⟨ok, vars', hcopy, hkept', hframe, hall⟩ := ih hrest
    have hself : (Function.update vars var v var).UpToDate m cells := by
      rwa [Function.update_self]
    refine ⟨(copyGetVarResult item (vars var)).1 && ok, vars', ?_,
      fun var' => (hkept var').trans (hkept' var'), fun var' h => hframe var' ?_, ?_⟩
    · simp only [copyGetVarResults, hv, hcopy, Option.map_some]
    · by_cases hvar : var' = var
      · exact hvar ▸ hself
      · rwa [Function.update_of_ne hvar]
    · exact List.forall_mem_cons.mpr ⟨hframe var hself, hall⟩

theorem copySetVarResults_kept {results : List KsResultCode} {ok : Bool}
    (h : copySetVarResults sortedVars results vars = some (ok, vars')) :
    ∀ var, (vars var).Kept (vars' var) := by
  induction sortedVars generalizing results vars ok with
  | nil =>
    cases h
    exact fun _ => .refl _
  | cons var sortedVars ih =>
    cases results with
    | nil => cases h
    | cons result results =>
      have hkept : (vars var).Kept (copySetVarResult result (vars var)).2 := by
        unfold copySetVarResult
        split_ifs <;> exact ⟨rfl, rfl, id⟩
      obtain ⟨r, hrest, hsome⟩ := Option.map_eq_some_iff.mp h
      cases hsome
      exact fun var' => (KscVariable.kept_update hkept var').trans (ih hrest var')

theorem distributeErrorResult_kept (result : KsResultCode) (sortedVars : List KscVariableHandle)
    (vars : KscMemory) (var : KscVariableHandle) :
    (vars var).Kept (distributeErrorResult result sortedVars vars var) := by
  induction sortedVars generalizing vars with
  | nil => exact .refl _
  | cons var' sortedVars ih =>
    have hkept : (vars var').Kept { vars var' with lastResult := result } := ⟨rfl, rfl, id⟩
    exact (KscVariable.kept_update hkept var).trans (ih _)

/-- The variables are told that they are not up to date, and no variable is told that it is. -/
theorem distributeErrorResult_ne_ok {result : KsResultCode} (hresult : result ≠ .ok)
    {var : KscVariableHandle} (h : var ∈ sortedVars ∨ (vars var).lastResult ≠ .ok) :
    (distributeErrorResult result sortedVars vars var).lastResult ≠ .ok := by
  have htold := distributeErrorResult_told result sortedVars vars
  have hfst : (sortedVars.map (·, result)).map Prod.fst = sortedVars := by
    rw [List.map_map, Function.comp_def, List.map_id']
  by_cases hvar : var ∈ sortedVars
  · have hanswer := htold.told var (hfst.symm ▸ hvar)
    obtain ⟨_, -, heq⟩ := List.mem_map.mp hanswer
    rwa [← (Prod.mk.inj heq).2]
  · rw [htold.others var (hfst.symm ▸ hvar)]
    exact h.resolve_left hvar

end KscPackageBase

/-- A handle that is not bound cannot be encoded. -/
theorem KsVarCurrProps.sendable_of_ok {cp : KsVarCurrProps} (hcp : cp.register.Sendable)
    (hok : cp.toCurrProps.xdrEncode.ok = true) : cp.toCurrProps.Sendable := by
  obtain ⟨value, time, state⟩ := cp
  obtain ⟨hvalue, htime⟩ := hcp
  cases value with
  | some value => exact ⟨⟨value, rfl, hvalue value rfl⟩, htime⟩
  | none =>
    refine absurd hok ?_
    simp [toCurrProps, KsCurrProps.xdrEncode, XdrUnion.encode, Payload.ok_andThen,
      KsCurrProps.union, KsCurrProps.xdrEncodeVariant, handleEncode]

namespace KscTransaction
open KscVariable (Proper)

variable {vars : KscMemory} {sortedVars : List KscVariableHandle} {m : KssMemory}
  {c : Circumstances}

theorem length_fillGetVarParams (vars : KscMemory) (sortedVars : List KscVariableHandle) :
    (fillGetVarParams vars sortedVars).length = sortedVars.length := by
  rw [fillGetVarParams, length_optimizePaths, List.length_map]

theorem fillGetVarParams_sendable (hproper : ∀ var ∈ sortedVars, (vars var).Proper)
    (hlength : sortedVars.length < 2 ^ 32) :
    (fillGetVarParams vars sortedVars).length < 2 ^ 32 ∧
      ∀ id ∈ fillGetVarParams vars sortedVars, KsString.Sendable id := by
  refine ⟨by rwa [length_fillGetVarParams], sendable_optimizePaths ?_⟩
  rw [List.forall_mem_map]
  exact fun var hvar => (hproper var hvar).short

/-- What can be encoded fits into a message. -/
theorem fillSetVarParams_sendable (hproper : ∀ var ∈ sortedVars, (vars var).Proper)
    (hlength : sortedVars.length < 2 ^ 32)
    (hok : (arrayEncode KsSetVarItem.xdrEncode (fillSetVarParams vars sortedVars)).ok = true) :
    (fillSetVarParams vars sortedVars).length < 2 ^ 32 ∧
      ∀ item ∈ fillSetVarParams vars sortedVars, item.Sendable := by
  have hids := (fillGetVarParams_sendable hproper hlength).2
  refine ⟨?_, fun item hitem => ?_⟩
  · rwa [fillSetVarParams, List.length_zipWith, length_fillGetVarParams, List.length_map, min_self]
  · have hencode := (Payload.ok_andThen.mp (ok_arrayEncode hok item hitem)).2
    rw [fillSetVarParams, ← List.map_uncurry_zip_eq_zipWith] at hitem
    obtain ⟨⟨id, props⟩, hzip, rfl⟩ := List.mem_map.mp hitem
    obtain ⟨hid, hprops⟩ := List.of_mem_zip hzip
    obtain ⟨var, hvar, rfl⟩ := List.mem_map.mp hprops
    exact ⟨hids id hid, _, rfl,
      KsVarCurrProps.sendable_of_ok (hproper var hvar).register hencode⟩

/-- What becomes of a variable that a server is asked to write is settled by its path. -/
theorem verdict_write {v : KscVariable} {path : KsPath}
    (hpath : path.components.map cString = v.pathAndName.pieces) :
    (m.verdict (granted c) ((path, .ok), some v.currProps.toCurrProps)).toOption =
      v.write m c := by
  have hname : (granted c).canWriteVar path.toPltString =
      (granted c).canWriteVar v.pathAndName.str := rfl
  unfold verdict KscVariable.write
  dsimp only
  rw [hname, hpath]
  cases (granted c).canWriteVar v.pathAndName.str with
  | false => rfl
  | true =>
    simp only [ne_eq, not_true_eq_false, if_false, Bool.true_eq_false, if_true]
    cases m.find v.pathAndName.pieces with
    | none => rfl
    | some a =>
      cases hobj : m.objects[a]? with
      | none => simp [hobj, Except.map, Except.toOption]
      | some obj =>
        simp only [hobj, Option.elim_some, Option.bind_some]
        cases obj.accepts (some v.currProps.toCurrProps) <;> rfl

theorem verdict_fillSetVarParams (m : KssMemory) (c : Circumstances)
    (hproper : ∀ var ∈ sortedVars, (vars var).Proper) :
    List.Forall₂ (fun item var => (m.verdict (granted c) item).toOption = (vars var).write m c)
      (setItems ⟨fillSetVarParams vars sortedVars⟩) sortedVars := by
  obtain ⟨results, hresolved, hall⟩ := @resolvePaths_optimizePaths
    (sortedVars.map fun var => (vars var).pathAndName) (by
      rw [List.forall_mem_map]
      exact fun var hvar => (hproper var hvar).plain)
  have hlength : (fillGetVarParams vars sortedVars).length =
      (sortedVars.map fun var => some (vars var).currProps.toCurrProps).length := by
    rw [length_fillGetVarParams, List.length_map]
  have hnames : (fillSetVarParams vars sortedVars).map KsSetVarItem.pathAndName =
      fillGetVarParams vars sortedVars := by
    rw [fillSetVarParams, ← List.map_uncurry_zip_eq_zipWith, List.map_map]
    exact List.map_fst_zip hlength.le
  have hprops : (fillSetVarParams vars sortedVars).map KsSetVarItem.currProps =
      sortedVars.map fun var => some (vars var).currProps.toCurrProps := by
    rw [fillSetVarParams, ← List.map_uncurry_zip_eq_zipWith, List.map_map]
    exact List.map_snd_zip hlength.ge
  rw [setItems, hnames, hprops, fillGetVarParams, hresolved, Option.getD_some]
  rw [List.forall₂_map_left_iff] at hall
  clear hnames hprops hlength hresolved hproper
  induction hall with
  | nil => exact .nil
  | @cons var r sortedVars results h hall ih =>
    obtain ⟨path, pathres⟩ := r
    obtain ⟨rfl, hpath⟩ := h
    exact .cons (verdict_write hpath) ih

/-- What is written to the registers. -/
theorem accepted_fillSetVarParams (hproper : ∀ var ∈ sortedVars, (vars var).Proper) :
    m.accepted (granted c) (setItems ⟨fillSetVarParams vars sortedVars⟩) =
      (sortedVars.map vars).filterMap (KscVariable.write m c) := by
  rw [List.filterMap_map, accepted]
  have hall := verdict_fillSetVarParams m c hproper
  generalize setItems ⟨fillSetVarParams vars sortedVars⟩ = items at hall
  clear hproper
  induction hall with
  | nil => rfl
  | cons h _ ih =>
    rw [List.filterMap_cons, List.filterMap_cons, h, ih]
    rfl

/-- The results tell what has been written. -/
theorem results_fillSetVarParams (hproper : ∀ var ∈ sortedVars, (vars var).Proper) :
    List.Forall₂ (fun var result => result = .ok → ((vars var).write m c).isSome = true)
      sortedVars ((setItems ⟨fillSetVarParams vars sortedVars⟩).map fun item =>
        resultOf (m.verdict (granted c) item)) := by
  rw [List.forall₂_map_right_iff]
  refine List.Forall₂.flip ((verdict_fillSetVarParams m c hproper).imp fun item var h hok => ?_)
  rw [← h]
  exact (resultOf_verdict item).mp hok

end KscTransaction

/-- What is sent shows the same as what is received. -/
theorem KssMemory.ItemShows.alike {m : KssMemory} {cells : ℕ → KssRegister} {ids : List KsString}
    {item item' : KsGetVarItemResult} (h : m.ItemShows cells ids item) (hitem : item.Sendable)
    (halike : item.Alike item') : item'.Sendable ∧ m.ItemShows cells ids item' := by
  obtain ⟨hresult, hsame⟩ := halike
  by_cases hok : item.result = .ok
  · have heq : item' = item := by
      obtain ⟨result, value⟩ := item
      obtain ⟨result', value'⟩ := item'
      exact congrArg₂ _ hresult (hsame hok)
    rw [heq]
    exact ⟨hitem, h⟩
  · rw [← hresult] at hok
    exact ⟨fun h => absurd h hok, fun h => absurd h hok⟩

namespace KssLink

/-- What a request has come to: its result, or a failure, and then it may have been performed
nevertheless. -/
def Concluded (c : Circumstances) (params : KsServiceParams) (memory memory' : Option KssMemory) :
    KscOutcome → Prop
  | .ok result => Achieved c params memory memory' result
  | .error lastResult => lastResult ≠ .ok ∧ Progress c params memory memory'

section Concluded
variable {c : Circumstances} {params : KsServiceParams} {memory memory' : Option KssMemory}
  {outcome : KscOutcome} {result : KsServiceResult} {m : KssMemory} {cells : ℕ → KssRegister}

/-- The memory is as it was, or as it is after the request has been performed. -/
theorem Concluded.memory_eq (h : Concluded c params memory memory' outcome) {m' : KssMemory}
    (hm' : m' ∈ memory') : ∃ m ∈ memory, m' = m ∨ ∃ env r, perform m (c.at env) (granted c) params =
      some (r, m') := by
  cases outcome with
  | ok result =>
    obtain ⟨m, m₁, env, r, hstart, hperform, hnow, -⟩ := h
    rw [hnow] at hm'
    cases hm'
    exact ⟨m, hstart, Or.inr ⟨env, r, hperform⟩⟩
  | error lastResult =>
    obtain ⟨-, hnow | ⟨-, hnow⟩⟩ := h
    · exact ⟨m', hnow ▸ hm', Or.inl rfl⟩
    · rw [hnow] at hm'
      obtain ⟨m, hm, hafter⟩ := Option.bind_eq_some_iff.mp hm'
      obtain ⟨r, hperform, rfl⟩ := Option.map_eq_some_iff.mp hafter
      exact ⟨m, hm, Or.inr ⟨c.toKssEnvironment, r.1, hperform⟩⟩

/-- A request that does not write leaves the memory alone. -/
theorem Concluded.leaves (h : Concluded c params memory memory' outcome)
    (hread : ∀ p, params ≠ .setVar p) : ∀ m ∈ memory', m ∈ memory := by
  intro m' hm'
  obtain ⟨m, hm, rfl | ⟨env, r, hperform⟩⟩ := h.memory_eq hm'
  · exact hm
  · rwa [perform_leaves hread hperform]

/-- The client gets what all the registers hold. -/
theorem Concluded.getVar (hm : m.Sound) {paths : List KscPath} (hpaths : ∀ p ∈ paths, p.Plain)
    (h : Concluded c (.getVar ⟨optimizePaths paths⟩) (some (m.assign cells)) memory' (.ok result)) :
    ∃ r, result = .getVar r ∧ (r.result = .ok → List.Forall₂ (fun p item => item.Sendable ∧
      m.ItemShows cells p.pieces item) paths r.items) := by
  obtain ⟨_, m₁, env, r, hstart, hperform, -, hsend, halike⟩ := h
  cases hstart
  obtain ⟨r, rfl, hshows⟩ := perform_getVar hm hpaths hperform
  cases result with
  | getVar r' =>
    obtain ⟨hresult, hitems⟩ := halike
    refine ⟨r', rfl, fun hok => ?_⟩
    rw [hresult] at hok
    replace hsend := (hsend hok).2
    specialize hshows hok
    specialize hitems hok
    clear hperform hpaths
    generalize r.items = items at hshows hitems hsend
    generalize r'.items = items' at hitems
    induction hshows generalizing items' with
    | nil =>
      cases hitems
      exact .nil
    | cons hshow _ ih =>
      obtain ⟨hitem, hsend⟩ := List.forall_mem_cons.mp hsend
      cases hitems with
      | cons halike hitems => exact .cons (hshow.alike hitem halike) (ih hsend _ hitems)
  | _ => exact absurd halike id

/-- The client gets to know what has been written. -/
theorem Concluded.setVar (hm : m.Sound) {params : KsSetVarParams}
    (h : Concluded c (.setVar params) (some (m.assign cells)) memory' (.ok result)) :
    ∃ r, result = .setVar r ∧ (r.result = .ok → r.results =
      (setItems params).map fun item => resultOf (m.verdict (granted c) item)) := by
  obtain ⟨_, m₁, env, r, hstart, hperform, -, -, halike⟩ := h
  cases hstart
  obtain ⟨r, rfl, hcases⟩ := perform_setVar hm hperform
  cases result with
  | setVar r' =>
    obtain ⟨hresult, hresults⟩ := halike
    refine ⟨r', rfl, fun hok => ?_⟩
    rw [hresult] at hok
    obtain ⟨hfailed, -⟩ | ⟨-, hall, -⟩ := hcases
    · exact absurd hok hfailed
    · rw [hresults hok, hall]
  | _ => exact absurd halike id

/-- What is known to have been written is in the registers, and otherwise it may be, all of it. -/
theorem Concluded.carries (hm : m.Sound) {params : KsSetVarParams}
    (h : Concluded c (.setVar params) (some (m.assign cells)) memory' outcome) :
    ∀ m' ∈ memory', outcome.written = false ∧ m' = m.assign cells ∨
      m' = m.assign (replay cells (m.accepted (granted c) (setItems params))) := by
  intro m' hm'
  cases outcome with
  | ok result =>
    obtain ⟨_, m₁, env, r, hstart, hperform, hnow, -, halike⟩ := h
    cases hstart
    rw [hnow] at hm'
    cases hm'
    obtain ⟨r, rfl, ⟨hfailed, rfl⟩ | ⟨-, -, rfl⟩⟩ := perform_setVar hm hperform
    · cases result with
      | setVar r' =>
        refine Or.inl ⟨decide_eq_false ?_, rfl⟩
        rwa [halike.1]
      | _ => exact absurd halike id
    · exact Or.inr rfl
  | error lastResult =>
    obtain ⟨_, hstart, rfl | ⟨env, r, hperform⟩⟩ := h.memory_eq hm'
    · cases hstart
      exact Or.inl ⟨rfl, rfl⟩
    · cases hstart
      obtain ⟨-, -, ⟨-, rfl⟩ | ⟨-, -, rfl⟩⟩ := perform_setVar hm hperform
      · exact Or.inl ⟨rfl, rfl⟩
      · exact Or.inr rfl

/-- Nothing has been exchanged. -/
theorem Concluded.exgData {params : KsExgDataParams}
    (h : Concluded c (.exgData params) memory memory' (.ok result)) :
    ∃ r, result = .exgData r ∧ r.result ≠ .ok := by
  obtain ⟨m, m₁, env, r, -, hperform, -, -, halike⟩ := h
  obtain ⟨r, rfl, hfailed⟩ := perform_exgData hperform
  cases result with
  | exgData r' =>
    refine ⟨r', rfl, ?_⟩
    rwa [halike.1]
  | _ => exact absurd halike id

end Concluded

end KssLink

end AcpltKs
