import AcpltKs.SimpleServer.Sendability

/-! The core services of a simple server with fresh results, as its dispatcher calls them: they keep
its memory sound, and what they answer fits into messages. -/
namespace AcpltKs
open Replay

theorem KsEngProps.Sendable.toV1 {p : KsEngProps} (h : p.Sendable) {q : KsEngPropsV1}
    (hq : p.toV1 = some q) : q.Sendable := by
  obtain ⟨identifier, creationTime, comment, accessMode, semanticFlags, variant⟩ := p
  cases variant with
  | struct flags => cases hq
  | domain classIdentifier =>
    cases hq
    exact ⟨h.identifier, h.creationTime, h.comment, trivial⟩
  | var | link | history =>
    cases hq
    exact ⟨h.identifier, h.creationTime, h.comment, h.variant⟩

theorem KssMemory.length_maskedHandles_le (m : KssMemory) {d : ℕ} {nameMask : KsString}
    {typeMask : KsObjType} {handles : List (Option ℕ)}
    (h : m.maskedHandles d nameMask typeMask = some handles) :
    handles.length ≤ (m.handles d).length := by
  unfold maskedHandles at h
  split_ifs at h
  cases h
  exact List.length_filter_le ..

namespace KsSimpleServer
variable {m m' : KssMemory} {ticket : KsAvTicket}

/-- What the world is like when a request comes: the clock and the counters, whether there is memory
for the arrays of the services, and what clients without a ticket of their own may do. -/
structure Circumstances extends KssEnvironment where
  room : Bool
  memory : ResultMemory
  defaultAccess : KsAccess

def blankGetVarResult (c : Circumstances) (params : KsGetVarParams) : KsGetVarResult :=
  ⟨KsResult.blank, newArray c.memory.items params.identifiers.length KsGetVarItemResult.blank⟩

def blankSetVarResult (c : Circumstances) (params : KsSetVarParams) : KsSetVarResult :=
  ⟨KsResult.blank, newArray c.memory.results params.items.length KsResult.blank⟩

/-- What the older service makes of engineered properties. -/
def projectResult (c : Circumstances) (r : KsGetEPResult) : KsGetPPResult :=
  if r.result = .ok then
    ⟨(projectItems c.memory.item r.items).1, (projectItems c.memory.item r.items).2⟩
  else ⟨r.result, []⟩

/-- Whether there is memory for the arrays of the result. -/
def hasExgDataArrays (c : Circumstances) (params : KsExgDataParams) : Bool :=
  (c.memory.results || params.setVars.isEmpty) && (c.memory.items || params.getVars.isEmpty)

/-- A service, and the memory afterwards; nothing if the service leaves its memory. A simple server
does not exchange data. -/
def perform (m : KssMemory) (c : Circumstances) (ticket : KsAvTicket) :
    KsServiceParams → Option (KsServiceResult × KssMemory)
  | .getVar params =>
      (getVar (⟨m, c.toKssEnvironment, 0⟩ : KssHandle) ticket c.room params
        (blankGetVarResult c params)).map fun r => (.getVar r, m)
  | .setVar params =>
      (setVar m c.toKssEnvironment ticket c.room params (blankSetVarResult c params)).map fun r =>
        (.setVar r.1, r.2)
  | .getPP params =>
      (getEP (⟨m, c.toKssEnvironment, 0⟩ : KssHandle) ticket
        ⟨params.path, params.typeMask, params.nameMask, KsEPFlags.children⟩
        ⟨KsResult.blank, []⟩).map fun r => (.getPP (projectResult c r), m)
  | .getEP params =>
      (getEP (⟨m, c.toKssEnvironment, 0⟩ : KssHandle) ticket params ⟨KsResult.blank, []⟩).map
        fun r => (.getEP r, m)
  | .exgData params =>
      some (.exgData ⟨if hasExgDataArrays c params then .notImplemented else .generic, [], []⟩, m)

section Listing
variable {env : KssEnvironment} {a : ℕ}

/-- Whatever a name leads to lives in the same memory. -/
theorem domainChildByPath_memory {n : ℕ} {p : KsPath} {h : KssHandle}
    (hchild : domainChildByPath n (⟨m, env, a⟩ : KssHandle) p = some h) : ∃ b, h = ⟨m, env, b⟩ := by
  have hget : ∀ {b : ℕ} {id : KsString} {h : KssHandle},
      KssCommObject.getChildById (⟨m, env, b⟩ : KssHandle) id = some h → ∃ b, h = ⟨m, env, b⟩ := by
    intro b id h hget
    obtain ⟨d, -, hget⟩ := Option.bind_eq_some_iff.mp hget
    obtain ⟨b, -, rfl⟩ := Option.map_eq_some_iff.mp hget
    exact ⟨b, rfl⟩
  induction n generalizing a p with
  | zero => exact absurd hchild (by simp [domainChildByPath])
  | succ n ih =>
    obtain ⟨hc, hhc, hchild⟩ := Option.bind_eq_some_iff.mp hchild
    obtain ⟨b, rfl⟩ := hget hhc
    split_ifs at hchild
    · cases hchild
      exact ⟨b, rfl⟩
    · exact ih hchild
    · exact ih hchild
    · obtain ⟨hc, hhc, hchild⟩ := Option.bind_eq_some_iff.mp hchild
      obtain ⟨b', rfl⟩ := hget hhc
      split_ifs at hchild
      cases hchild
      exact ⟨b', rfl⟩

theorem getEPTarget_memory {params : KsGetEPParams} {path : KsPath} {h : KssHandle}
    {pre : KsString}
    (htarget : getEPTarget (⟨m, env, a⟩ : KssHandle) params path = (some h, pre)) :
    ∃ b, h = ⟨m, env, b⟩ := by
  unfold getEPTarget at htarget
  split_ifs at htarget
  · cases htarget
    exact ⟨a, rfl⟩
  · exact domainChildByPath_memory (Prod.mk.inj htarget).1

theorem getEPOfChild_sendable (hm : m.Sendable) (pre : KsString) {handle : Option KssHandle}
    (hhandle : ∀ h, handle = some h → ∃ b, h = ⟨m, env, b⟩) {ep : KsEngProps}
    (hep : ep ∈ getEPOfChild pre ticket handle) : ep.Sendable := by
  cases handle with
  | none => exact absurd hep (by simp [getEPOfChild])
  | some h =>
    obtain ⟨b, rfl⟩ := hhandle h rfl
    unfold getEPOfChild at hep
    dsimp only at hep
    split_ifs at hep
    · obtain ⟨ep', hep', rfl⟩ := Option.map_eq_some_iff.mp (Option.mem_toList.mp hep)
      obtain ⟨obj, hobj, rfl⟩ := Option.map_eq_some_iff.mp hep'
      have hsend := (hm.object hobj).getEP env
      refine ⟨?_, hsend.creationTime, hsend.comment, hsend.variant⟩
      exact (length_ksStringToPercent_le _).trans_lt (hm.object hobj).common.identifier
    · exact absurd hep (by simp)

theorem length_getEPOfChild_le {Obj : Type*} [KssCommObject Obj] (pre : KsString)
    (ticket : KsAvTicket) (handle : Option Obj) : (getEPOfChild pre ticket handle).length ≤ 1 := by
  cases handle with
  | none => simp [getEPOfChild]
  | some h =>
    unfold getEPOfChild
    dsimp only
    split_ifs
    · cases KssCommObject.getEP h <;> simp
    · simp

theorem length_flatMap_getEPOfChild_le {Obj : Type*} [KssCommObject Obj] (pre : KsString)
    (ticket : KsAvTicket) (it : List (Option Obj)) : (it.flatMap (getEPOfChild pre ticket)).length ≤ it.length := by
  induction it with
  | nil => simp
  | cons handle it ih =>
    have hone := length_getEPOfChild_le pre ticket handle
    rw [List.flatMap_cons, List.length_append, List.length_cons]
    omega

theorem getEPOfObject_sendable (hm : m.Sendable) (b : ℕ) (pre : KsString)
    (params : KsGetEPParams) :
    (getEPOfObject (⟨m, env, b⟩ : KssHandle) pre ticket params ⟨KsResult.blank, []⟩).Sendable := by
  intro hok
  unfold getEPOfObject at hok ⊢
  split_ifs at hok ⊢
  · cases hep : KssCommObject.getEP (⟨m, env, b⟩ : KssHandle) with
    | none =>
      rw [hep] at hok
      exact absurd hok (show KsResultCode.generic ≠ KsResultCode.ok by decide)
    | some ep =>
      obtain ⟨obj, hobj, rfl⟩ := Option.map_eq_some_iff.mp hep
      exact ⟨by simp, by simpa using (hm.object hobj).getEP env⟩
  · cases hmask : ksStringFromPercent params.nameMask with
    | error res => exact ⟨by simp, by simp⟩
    | ok mask =>
      cases hit : KssCommObject.newMaskedIterator (⟨m, env, b⟩ : KssHandle) mask params.typeMask with
      | none => simp [hit]
      | some it =>
        simp only [hit, List.nil_append]
        obtain ⟨d, -, hit⟩ := Option.bind_eq_some_iff.mp hit
        obtain ⟨handles, hhandles, rfl⟩ := Option.map_eq_some_iff.mp hit
        refine ⟨?_, fun ep hep => ?_⟩
        · refine (length_flatMap_getEPOfChild_le pre ticket _).trans_lt ?_
          rw [List.length_map]
          exact (m.length_maskedHandles_le hhandles).trans_lt (hm.handles d)
        · obtain ⟨handle, hhandle, hep⟩ := List.mem_flatMap.mp hep
          obtain ⟨handle, -, rfl⟩ := List.mem_map.mp hhandle
          have hlives : ∀ h : KssHandle, handle.map (⟨m, env, ·⟩) = some h → ∃ b, h = ⟨m, env, b⟩ := by
            intro h hh
            obtain ⟨b', -, rfl⟩ := Option.map_eq_some_iff.mp hh
            exact ⟨b', rfl⟩
          exact getEPOfChild_sendable hm pre hlives hep
  · exact absurd hok (show KsResultCode.badPath ≠ KsResultCode.ok by decide)

theorem sendable_nil (res : KsResultCode) : (KsGetEPResult.mk res []).Sendable :=
  fun _ => ⟨by simp, by simp⟩

theorem getEP_sendable (hm : m.Sendable) {params : KsGetEPParams} {r : KsGetEPResult}
    (hget : getEP (⟨m, env, 0⟩ : KssHandle) ticket params ⟨KsResult.blank, []⟩ = some r) :
    r.Sendable := by
  obtain ⟨path, -, hget⟩ := Option.bind_eq_some_iff.mp hget
  rcases hdecode : path.decodePercents with ⟨convres, path'⟩
  simp only [hdecode] at hget
  split_ifs at hget
  · rcases htarget : getEPTarget (⟨m, env, 0⟩ : KssHandle) params path' with ⟨_ | h, pre⟩
    · rw [htarget] at hget
      cases hget
      exact sendable_nil _
    · rw [htarget] at hget
      cases hget
      obtain ⟨b, rfl⟩ := getEPTarget_memory htarget
      exact getEPOfObject_sendable hm b pre params
  · cases hget
    exact sendable_nil _
  · cases hget
    exact sendable_nil _
  · cases hget
    exact sendable_nil _

end Listing

section Reading
variable {env : KssEnvironment}

theorem getVarItem_sendable (hm : m.Sendable) (henv : env.now.Sendable) (path : KsPath)
    (item : KsGetVarItemResult) :
    (getVarItem (⟨m, env, 0⟩ : KssHandle) ticket path item).Sendable := by
  unfold getVarItem
  split_ifs
  · cases hchild : getChildByPath (⟨m, env, 0⟩ : KssHandle) path with
    | none =>
      intro hok
      exact absurd hok (show KsResultCode.badPath ≠ KsResultCode.ok by decide)
    | some h =>
      obtain ⟨b, rfl⟩ := domainChildByPath_memory hchild
      dsimp only
      split_ifs
      · intro hok
        cases hobj : m.objects[b]? with
        | none =>
          simp only [KssCommObject.getCurrProps, KssHandle.object, hobj, Option.elim_none] at hok
          exact absurd hok (by decide)
        | some obj =>
          simp only [KssCommObject.getCurrProps, KssHandle.object, hobj, Option.elim_some] at hok ⊢
          exact hm.getCurrProps henv (hm.object hobj) hok
      · intro hok
        exact absurd hok (show KsResultCode.badType ≠ KsResultCode.ok by decide)
  · intro hok
    exact absurd hok (show KsResultCode.noAccess ≠ KsResultCode.ok by decide)

theorem getVarItems_sendable (hm : m.Sendable) (henv : env.now.Sendable)
    {paths : List (KsPath × KsResultCode)} {items items' : List KsGetVarItemResult}
    (hitems : ∀ item ∈ items, item.Sendable)
    (hget : getVarItems (⟨m, env, 0⟩ : KssHandle) ticket paths items = some items') :
    items'.length = items.length ∧ ∀ item ∈ items', item.Sendable := by
  induction paths generalizing items items' with
  | nil =>
    cases hget
    exact ⟨rfl, hitems⟩
  | cons r paths ih =>
    obtain ⟨path, pathres⟩ := r
    cases items with
    | nil => cases hget
    | cons item items =>
      obtain ⟨rest, hrest, hsome⟩ := Option.bind_eq_some_iff.mp hget
      cases hsome
      obtain ⟨hlength, hsend⟩ := ih (List.forall_mem_cons.mp hitems).2 hrest
      refine ⟨by simp [hlength], List.forall_mem_cons.mpr ⟨?_, hsend⟩⟩
      split_ifs with hok
      · exact getVarItem_sendable hm henv path item
      · exact fun hok' => absurd hok' hok

end Reading

theorem sendable_blank : KsGetVarItemResult.blank.Sendable := by
  intro hok
  exact absurd hok (show KsResult.blank ≠ KsResultCode.ok by decide)

theorem length_newArray_le {α : Type*} (room : Bool) (size : ℕ) (blank : α) :
    (newArray room size blank).length ≤ size := by
  cases room <;> simp [newArray]

theorem getVar_sendable (hm : m.Sendable) {c : Circumstances} (henv : c.now.Sendable)
    {params : KsGetVarParams} (hparams : params.Sendable) {r : KsGetVarResult}
    (hget : getVar (⟨m, c.toKssEnvironment, 0⟩ : KssHandle) ticket c.room params
      (blankGetVarResult c params) = some r) : r.Sendable := by
  unfold getVar at hget
  split_ifs at hget
  · obtain ⟨paths, -, hget⟩ := Option.bind_eq_some_iff.mp hget
    obtain ⟨items, hitems, hsome⟩ := Option.bind_eq_some_iff.mp hget
    cases hsome
    have hblank : ∀ item ∈ (blankGetVarResult c params).items, item.Sendable := by
      intro item hitem
      unfold blankGetVarResult newArray at hitem
      dsimp only at hitem
      split_ifs at hitem
      · obtain rfl := List.eq_of_mem_replicate hitem
        exact sendable_blank
      · exact absurd hitem List.not_mem_nil
    obtain ⟨hlength, hsend⟩ := getVarItems_sendable hm henv hblank hitems
    exact fun _ => ⟨hlength ▸ (length_newArray_le ..).trans_lt hparams.1, hsend⟩
  · cases hget
    intro hok
    exact absurd hok (show KsResultCode.generic ≠ KsResultCode.ok by decide)

theorem projectItems_sendable {room : ℕ → Bool} {heps : List KsEngProps}
    (h : ∀ hep ∈ heps, hep.Sendable) :
    (projectItems room heps).2.length ≤ heps.length ∧
      ∀ p ∈ (projectItems room heps).2, p.Sendable := by
  induction heps generalizing room with
  | nil => exact ⟨le_refl _, nofun⟩
  | cons hep heps ih =>
    obtain ⟨hhep, hheps⟩ := List.forall_mem_cons.mp h
    cases hv1 : hep.toV1 with
    | none =>
      simp only [projectItems, hv1, List.length_cons]
      obtain ⟨hlength, hsend⟩ := ih hheps
      exact ⟨by omega, hsend⟩
    | some epv1 =>
      simp only [projectItems, hv1, List.length_cons]
      split_ifs
      · obtain ⟨hlength, hsend⟩ := @ih (fun i => room (i + 1)) hheps
        refine ⟨by simpa using hlength, List.forall_mem_cons.mpr ⟨?_, hsend⟩⟩
        exact hhep.toV1 hv1
      · exact ⟨by simp, by simp⟩

theorem projectResult_sendable (c : Circumstances) {r : KsGetEPResult} (h : r.Sendable) :
    (projectResult c r).Sendable := by
  unfold projectResult
  split_ifs with hok
  · obtain ⟨hlength, hitems⟩ := h hok
    obtain ⟨hle, hsend⟩ := @projectItems_sendable c.memory.item r.items hitems
    exact fun _ => ⟨hle.trans_lt hlength, hsend⟩
  · exact fun _ => ⟨by simp, by simp⟩

/-- What a request accepts of sendable properties. -/
theorem accepted_sendable {params : KsSetVarParams} (hparams : params.Sendable) :
    ∀ w ∈ m.accepted ticket (setItems params), w.2.Sendable := by
  intro w hw
  obtain ⟨item, hitem, hverdict⟩ := List.mem_filterMap.mp hw
  obtain ⟨⟨path, pathres⟩, props⟩ := item
  obtain ⟨setItem, hsetItem, rfl⟩ := List.mem_map.mp (List.of_mem_zip hitem).2
  obtain ⟨-, p, hp, hsend⟩ := hparams.2 setItem hsetItem
  unfold KssMemory.verdict at hverdict
  dsimp only at hverdict
  rw [hp] at hverdict
  split_ifs at hverdict
  · cases hverdict
  · cases hverdict
  · cases hfind : m.find (path.components.map cString) with
    | none =>
      rw [hfind] at hverdict
      cases hverdict
    | some a =>
      simp only [hfind] at hverdict
      cases hobj : m.objects[a]? with
      | none =>
        rw [hobj] at hverdict
        cases hverdict
      | some obj =>
        rw [hobj, Option.elim_some] at hverdict
        cases haccepts : obj.accepts (some p) with
        | error res =>
          rw [haccepts] at hverdict
          cases hverdict
        | ok r =>
          rw [haccepts] at hverdict
          cases hverdict
          exact KssObject.accepts_sendable hsend haccepts

theorem setVar_spec (h : m.Sound) (hm : m.Sendable) {c : Circumstances}
    {params : KsSetVarParams} (hparams : params.Sendable) {r : KsSetVarResult}
    (hset : setVar m c.toKssEnvironment ticket c.room params (blankSetVarResult c params) =
      some (r, m')) : r.Sendable ∧ m'.Sound ∧ m'.Sendable := by
  have hserve : serve (m.assign m.registers) ⟨c.toKssEnvironment, ticket,
      .setVar c.room params (blankSetVarResult c params)⟩ = some (.setVar r, m') := by
    rw [m.assign_registers, serve]
    dsimp only
    rw [hset, Option.map_some]
  obtain ⟨rfl, hsettled⟩ := serve_assign h m.registers hserve
  refine ⟨?_, (m.sameTree_assign _).sound h, hm.assign ?_⟩
  · cases hroom : c.room with
    | false =>
      rw [hroom, setVar, if_neg Bool.false_ne_true] at hset
      obtain ⟨rfl, -⟩ := Prod.mk.inj (Option.some.inj hset)
      intro hok
      exact absurd hok (show KsResultCode.generic ≠ KsResultCode.ok by decide)
    | true =>
      rw [hroom] at hsettled
      obtain ⟨-, hresults⟩ := hsettled params _ rfl
      intro _
      have hzip : (setItems params).length ≤ params.items.length := by
        unfold setItems
        rw [List.length_zip, List.length_map]
        exact Nat.min_le_right _ _
      have hdrop : ((blankSetVarResult c params).results.drop params.items.length).length = 0 := by
        have hle := length_newArray_le c.memory.results params.items.length KsResult.blank
        rw [List.length_drop]
        exact Nat.sub_eq_zero_of_le hle
      rw [hresults, List.length_append, List.length_map, hdrop]
      exact hzip.trans_lt hparams.1
  · intro w hw
    unfold writes at hw
    dsimp only at hw
    generalize c.room = room at hw
    split at hw
    · next heq =>
      cases heq
      exact accepted_sendable hparams w hw
    · exact absurd hw List.not_mem_nil

/-- A service leaves a memory that is as good as before. -/
theorem perform_keeps (h : m.Sound) (hm : m.Sendable) {c : Circumstances}
    {params : KsServiceParams} (hparams : params.Sendable) {result : KsServiceResult}
    (hperform : perform m c ticket params = some (result, m')) : m'.Sound ∧ m'.Sendable := by
  cases params with
  | setVar params =>
    obtain ⟨⟨r, m''⟩, hset, hsome⟩ := Option.map_eq_some_iff.mp hperform
    cases hsome
    exact (setVar_spec h hm hparams hset).2
  | exgData params =>
    cases hperform
    exact ⟨h, hm⟩
  | _ =>
    obtain ⟨r, -, hsome⟩ := Option.map_eq_some_iff.mp hperform
    cases hsome
    exact ⟨h, hm⟩

/-- The result of a service is one of its kind, and fits into a message. -/
theorem perform_result (h : m.Sound) (hm : m.Sendable) {c : Circumstances}
    (henv : c.now.Sendable) {params : KsServiceParams} (hparams : params.Sendable)
    {result : KsServiceResult} (hperform : perform m c ticket params = some (result, m')) :
    result.serviceId = params.serviceId ∧ result.Sendable := by
  cases params with
  | getVar params =>
    obtain ⟨r, hget, hsome⟩ := Option.map_eq_some_iff.mp hperform
    cases hsome
    exact ⟨rfl, getVar_sendable hm henv hparams hget⟩
  | setVar params =>
    obtain ⟨⟨r, m''⟩, hset, hsome⟩ := Option.map_eq_some_iff.mp hperform
    cases hsome
    exact ⟨rfl, (setVar_spec h hm hparams hset).1⟩
  | getPP params =>
    obtain ⟨r, hget, hsome⟩ := Option.map_eq_some_iff.mp hperform
    cases hsome
    exact ⟨rfl, projectResult_sendable c (getEP_sendable hm hget)⟩
  | getEP params =>
    obtain ⟨r, hget, hsome⟩ := Option.map_eq_some_iff.mp hperform
    cases hsome
    exact ⟨rfl, getEP_sendable hm hget⟩
  | exgData params =>
    cases hperform
    refine ⟨rfl, fun hok => ?_⟩
    dsimp only at hok
    split_ifs at hok
    · exact absurd hok (by decide)
    · exact absurd hok (by decide)

end KsSimpleServer
end AcpltKs
