import AcpltKs.SimpleServer.Answering

/-! Services that are performed once more, at another time: clients repeat a call whose reply has
got lost. -/
namespace AcpltKs
open Replay

namespace KsSimpleServer
variable {m m₁ : KssMemory} {env env' : KssEnvironment} {ticket : KsAvTicket}

/-- The loop gets through if there is a result for every item. -/
theorem isSome_setVarItems {items : List ((KsPath × KsResultCode) × Option KsCurrProps)}
    {results : List KsResultCode} :
    (setVarItems env ticket items results m).isSome = true ↔ items.length ≤ results.length := by
  induction items generalizing results m with
  | nil => simp [setVarItems]
  | cons item items ih =>
    cases results with
    | nil => simp [setVarItems]
    | cons result results =>
      rcases hround : setVarRound m env ticket item with ⟨res, m'⟩
      rw [List.length_cons, List.length_cons, Nat.succ_le_succ_iff, ← @ih m' results, setVarItems,
        hround]
      dsimp only
      cases setVarItems env ticket items results m' <;> rfl

theorem isSome_getVarItems {Obj : Type*} [KssCommObject Obj] {root : Obj}
    {paths : List (KsPath × KsResultCode)} {items : List KsGetVarItemResult} :
    (getVarItems root ticket paths items).isSome = true ↔ paths.length ≤ items.length := by
  induction paths generalizing items with
  | nil => simp [getVarItems]
  | cons path paths ih =>
    cases items with
    | nil => simp [getVarItems]
    | cons item items =>
      rw [List.length_cons, List.length_cons, Nat.succ_le_succ_iff, ← ih, getVarItems]
      cases getVarItems root ticket paths items <;> rfl

theorem isSome_setVar {params : KsSetVarParams} {result : KsSetVarResult} :
    (setVar m env ticket true params result).isSome = true ↔
      (KsPath.resolvePaths (params.items.map KsSetVarItem.pathAndName)).isSome = true ∧
        params.items.length ≤ result.results.length := by
  rw [setVar, if_pos rfl]
  cases hpaths : KsPath.resolvePaths (params.items.map KsSetVarItem.pathAndName) with
  | none => simp
  | some paths =>
    have hlength : (paths.zip (params.items.map KsSetVarItem.currProps)).length =
        params.items.length := by
      rw [List.length_zip, KsPath.length_resolvePaths hpaths]
      simp
    rw [← hlength, ← @isSome_setVarItems m env ticket]
    cases hset : setVarItems env ticket (paths.zip (params.items.map KsSetVarItem.currProps))
      result.results m <;> simp [hset]

/-- What the service comes to does not depend on the clock, and not on what the registers hold. -/
theorem setVar_assign (h : m.Sound) (cells : ℕ → KssRegister) (room : Bool)
    (params : KsSetVarParams) (result : KsSetVarResult) :
    setVar (m.assign cells) env ticket room params result =
      if room = false then some ({ result with result := .generic }, m.assign cells)
      else if (KsPath.resolvePaths (params.items.map KsSetVarItem.pathAndName)).isSome ∧
          params.items.length ≤ result.results.length then
        some (⟨.ok, (setItems params).map (fun item => KssMemory.resultOf (m.verdict ticket item)) ++
            result.results.drop params.items.length⟩,
          m.assign (replay cells (m.accepted ticket (setItems params))))
      else none := by
  cases room with
  | false => rfl
  | true =>
    rw [if_neg (by simp)]
    have hiff := @isSome_setVar (m.assign cells) env ticket params result
    cases hset : setVar (m.assign cells) env ticket true params result with
    | none =>
      rw [hset] at hiff
      rw [if_neg (mt hiff.mpr (by simp))]
    | some r =>
      rw [hset] at hiff
      have hserve : serve (m.assign cells) ⟨env, ticket, .setVar true params result⟩ =
          some (.setVar r.1, r.2) := by
        rw [serve]
        dsimp only
        rw [hset, Option.map_some]
      obtain ⟨hmemory, hsettled⟩ := serve_assign h cells hserve
      obtain ⟨hok, hresults⟩ := hsettled params result rfl
      rw [if_pos (hiff.mp rfl), ← hok, ← hresults]
      exact congrArg some (Prod.ext rfl hmemory)

theorem setVar_env (h : m.Sound) (env env' : KssEnvironment) (room : Bool)
    (params : KsSetVarParams) (result : KsSetVarResult) :
    setVar m env ticket room params result = setVar m env' ticket room params result := by
  rw [← m.assign_registers, @setVar_assign m env ticket h, @setVar_assign m env' ticket h]

/-- A write that is repeated has the same results, and changes nothing any more. -/
theorem setVar_again (h : m.Sound) {room : Bool} {params : KsSetVarParams}
    {result r : KsSetVarResult} (hset : setVar m env ticket room params result = some (r, m₁)) :
    setVar m₁ env ticket room params result = some (r, m₁) := by
  have hassign := @setVar_assign m env ticket h
  have hfirst := hset
  rw [← m.assign_registers, hassign] at hset
  split_ifs at hset with hroom hfits
  · obtain ⟨-, rfl⟩ := Prod.mk.inj (Option.some.inj hset)
    rwa [m.assign_registers] at *
  · obtain ⟨rfl, rfl⟩ := Prod.mk.inj (Option.some.inj hset)
    rw [hassign, if_neg hroom, if_pos hfits, replay_replay]

/-- The same circumstances at another time. -/
def Circumstances.at (c : Circumstances) (env : KssEnvironment) : Circumstances :=
  { c with toKssEnvironment := env }

/-- The memory after a service, which is nothing if the service leaves it. -/
def memoryAfterService (m : KssMemory) (c : Circumstances) (ticket : KsAvTicket)
    (params : KsServiceParams) : Option KssMemory :=
  (perform m c ticket params).map Prod.snd

/-- Services that leave the memory alone. -/
theorem map_snd_congr {α β : Type*} {o o' : Option α} (h : o.isSome = o'.isSome) (f : α → β)
    (m : KssMemory) : (o.map fun r => (f r, m)).map Prod.snd = (o'.map fun r => (f r, m)).map
      Prod.snd := by
  cases o with
  | none => cases o' with
    | none => rfl
    | some r => cases h
  | some r => cases o' with
    | none => cases h
    | some r' => rfl

theorem isSome_getVar {Obj : Type*} [KssCommObject Obj] {root : Obj} {room : Bool}
    {params : KsGetVarParams} {result : KsGetVarResult} :
    (getVar root ticket room params result).isSome = true ↔ (room = true →
      ∃ paths, KsPath.resolvePaths params.identifiers = some paths ∧
        paths.length ≤ result.items.length) := by
  cases room with
  | false => simp [getVar]
  | true =>
    rw [getVar, if_pos rfl]
    cases KsPath.resolvePaths params.identifiers with
    | none => simp
    | some paths =>
      have hiff := @isSome_getVarItems ticket Obj _ root paths result.items
      cases hget : getVarItems root ticket paths result.items with
      | none => simpa [hget] using hiff
      | some items => simpa [hget] using hiff

theorem isSome_getEP {Obj : Type*} [KssCommObject Obj] {root : Obj} {params : KsGetEPParams}
    {result : KsGetEPResult} :
    (getEP root ticket params result).isSome = (KsPath.ofString params.path).isSome := by
  unfold getEP
  cases KsPath.ofString params.path with
  | none => rfl
  | some path =>
    rcases hdecode : path.decodePercents with ⟨convres, path'⟩
    simp only [Option.bind_eq_bind, Option.bind_some, hdecode]
    split_ifs
    · rcases getEPTarget root params path' with ⟨_ | pd, pre⟩ <;> rfl
    · rfl
    · rfl
    · rfl

/-- When a service is performed makes no difference to the memory afterwards. -/
theorem memoryAfterService_at (h : m.Sound) (c : Circumstances) (env : KssEnvironment)
    (params : KsServiceParams) :
    memoryAfterService m (c.at env) ticket params = memoryAfterService m c ticket params := by
  cases params with
  | getVar params =>
    refine map_snd_congr (Bool.eq_iff_iff.mpr ?_) _ _
    rw [isSome_getVar, isSome_getVar]
    rfl
  | setVar params =>
    have henv := @setVar_env m ticket h env c.toKssEnvironment c.room params
      (blankSetVarResult c params)
    exact congrArg (fun o => (o.map fun r => (KsServiceResult.setVar r.1, r.2)).map Prod.snd) henv
  | getPP params =>
    refine map_snd_congr ?_ _ _
    rw [isSome_getEP, isSome_getEP]
  | getEP params =>
    refine map_snd_congr ?_ _ _
    rw [isSome_getEP, isSome_getEP]
  | exgData params => rfl

/-- A service that has been performed may be performed again, as if it had not been. -/
theorem perform_again (h : m.Sound) {c : Circumstances} {params : KsServiceParams}
    (hfirst : memoryAfterService m c ticket params = some m₁) (env : KssEnvironment) :
    perform m₁ (c.at env) ticket params = perform m (c.at env) ticket params := by
  rw [← memoryAfterService_at h c env] at hfirst
  cases params with
  | getVar params =>
    obtain ⟨_, hperform, rfl⟩ := Option.map_eq_some_iff.mp hfirst
    obtain ⟨_, -, rfl⟩ := Option.map_eq_some_iff.mp hperform
    rfl
  | setVar params =>
    obtain ⟨_, hperform, rfl⟩ := Option.map_eq_some_iff.mp hfirst
    obtain ⟨r, hset, rfl⟩ := Option.map_eq_some_iff.mp hperform
    simp only [perform, hset, setVar_again h hset]
  | getPP params =>
    obtain ⟨_, hperform, rfl⟩ := Option.map_eq_some_iff.mp hfirst
    obtain ⟨_, -, rfl⟩ := Option.map_eq_some_iff.mp hperform
    rfl
  | getEP params =>
    obtain ⟨_, hperform, rfl⟩ := Option.map_eq_some_iff.mp hfirst
    obtain ⟨_, -, rfl⟩ := Option.map_eq_some_iff.mp hperform
    rfl
  | exgData params =>
    cases hfirst
    rfl

end KsSimpleServer
end AcpltKs
