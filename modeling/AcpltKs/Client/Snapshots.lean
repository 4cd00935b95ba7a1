import AcpltKs.Client.Outcomes

/-! Updates of variables and packages over links that lose requests and replies: a variable that has
been read shows its register as it was at one time, the same for all variables of a request, after
all writes that are known to be done and some of those whose outcome is not known. -/
namespace AcpltKs
open Replay
open KscPackageBase KsSimpleServer KssLink KssMemory

/-- What a server has been asked to write. -/
def KscEvent.attempt (m : KssMemory) (c : Circumstances) (server : KscServerBase) (e : KscEvent) :
    Option (Attempt ℕ KssRegister) :=
  if e.server = server then some ⟨e.written, e.sent.filterMap (KscVariable.write m c)⟩ else none

/-- What a server that was in this memory at the beginning has been asked to write. -/
def attempts (m : KssMemory) (c : Circumstances) (server : KscServerBase) (log : List KscEvent) :
    List (Attempt ℕ KssRegister) :=
  log.filterMap (KscEvent.attempt m c server)

/-- The registers of a server may be like this after the events. -/
def Possible (m : KssMemory) (c : Circumstances) (server : KscServerBase) (log : List KscEvent)
    (cells : ℕ → KssRegister) : Prop :=
  MayHold m.registers (attempts m c server log) cells

/-- What an update tells after others: no variable is told that it is up to date, or all that are
show the registers as they may be, and what has been written is known to be so, unless it has been
refused. -/
def Snapshot (c : Circumstances) (start : Option KssMemory) (before : List KscEvent)
    (e : KscEvent) : Prop :=
  (∀ v ∈ e.sent ++ e.shown, v.server = e.server) ∧
    ((∀ v ∈ e.told ++ e.shown, v.lastResult ≠ .ok) ∨
      ∃ m ∈ start, ∃ cells, Possible m c e.server before cells ∧
        (∀ v ∈ e.shown, v.UpToDate m cells) ∧
        List.Forall₂ (fun v v' : KscVariable => v'.lastResult = .ok → e.written = true ∧
          (v.write m c).isSome = true) e.sent e.told)

/-- The memory of a server, which was another one at the beginning, is explained by the events. -/
def Accounted (c : Circumstances) (server : KscServerBase) (log : List KscEvent)
    (start memory : Option KssMemory) : Prop :=
  ∀ m' ∈ memory, ∃ m ∈ start, ∃ cells, Possible m c server log cells ∧ m' = m.assign cells

section Accounted
variable {c : Circumstances} {server : KscServerBase} {log : List KscEvent} {e : KscEvent}
  {start memory memory' : Option KssMemory}

theorem attempts_concat (m : KssMemory) (c : Circumstances) (server : KscServerBase)
    (log : List KscEvent) (e : KscEvent) : attempts m c server (log ++ [e]) =
      attempts m c server log ++ (e.attempt m c server).toList := by
  rw [attempts, List.filterMap_append, ← attempts, List.filterMap_cons]
  cases e.attempt m c server <;> rfl

theorem Accounted.other (h : Accounted c server log start memory) (he : e.server ≠ server) :
    Accounted c server (log ++ [e]) start memory := by
  intro m' hm'
  obtain ⟨m, hm, cells, hpossible, hm'⟩ := h m' hm'
  refine ⟨m, hm, cells, ?_, hm'⟩
  rwa [Possible, attempts_concat, KscEvent.attempt, if_neg he, Option.toList_none, List.append_nil]

/-- The server has been asked to write, and has done so or not. -/
theorem Accounted.step (h : Accounted c server log start memory) (he : e.server = server)
    (hstep : ∀ m' ∈ memory', ∃ m₁ ∈ memory, ∀ m ∈ start, ∀ cells, m₁ = m.assign cells →
      e.written = false ∧ m' = m.assign cells ∨
        m' = m.assign (replay cells (e.sent.filterMap (KscVariable.write m c)))) :
    Accounted c server (log ++ [e]) start memory' := by
  intro m' hm'
  obtain ⟨m₁, hm₁, hstep⟩ := hstep m' hm'
  obtain ⟨m, hm, cells, hpossible, heq⟩ := h m₁ hm₁
  have hattempts : attempts m c server (log ++ [e]) =
      attempts m c server log ++ [⟨e.written, e.sent.filterMap (KscVariable.write m c)⟩] := by
    rw [attempts_concat, KscEvent.attempt, if_pos he, Option.toList_some]
  refine ⟨m, hm, ?_⟩
  unfold Possible at hpossible ⊢
  rw [hattempts]
  obtain ⟨hlost, rfl⟩ | rfl := hstep m hm _ heq
  · exact ⟨cells, hpossible.lost hlost, rfl⟩
  · exact ⟨_, hpossible.done _, rfl⟩

end Accounted

namespace KscTransaction

/-- The outcome of a request can be handed to the variables, they are told the truth, and the memory
of the server is explained. -/
def Tells (t : KscTransaction) (c : Circumstances) (start : Option KssMemory) (vars : KscMemory)
    (log : List KscEvent) (memory' : Option KssMemory) (outcome : KscOutcome) : Prop :=
  ∃ ok vars', t.finish outcome vars = some (ok, vars') ∧ (∀ var, (vars var).Kept (vars' var)) ∧
    Snapshot c start log (t.event outcome vars vars') ∧
    Accounted c t.server (log ++ [t.event outcome vars vars']) start memory'

/-- What can be encoded fits into a message, and the variables are told the truth whatever the
request comes to. -/
structure Truthful (t : KscTransaction) (c : Circumstances) (start : Option KssMemory)
    (vars : KscMemory) : Prop where
  params : t.request.params.xdrEncode.ok = true → t.request.params.Sendable
  result : t.request.result.serviceId = t.request.params.serviceId
  tells : ∀ log memory memory' outcome, Accounted c t.server log start memory →
    Concluded c t.request.params memory memory' outcome → t.Tells c start vars log memory' outcome

/-- How the outcome of a request to read is handed to the variables. -/
structure Reads (t : KscTransaction) (vars : KscMemory) : Prop where
  params : t.request.params = .getVar ⟨fillGetVarParams vars t.getVars⟩
  result : t.request.result.serviceId = KsSvc.getVar
  setVars : t.setVars = []
  failed : ∀ code, t.finish (.error code) vars =
    some (false, distributeErrorResult code t.getVars vars)
  refused : ∀ r : KsGetVarResult, r.result ≠ .ok → t.finish (.ok (.getVar r)) vars =
    some (false, distributeErrorResult r.result t.getVars vars)
  granted : ∀ r : KsGetVarResult, r.result = .ok → r.items.length = t.getVars.length →
    (∀ item ∈ r.items, item.Sendable) →
      t.finish (.ok (.getVar r)) vars = copyGetVarResults t.getVars r.items vars

/-- How the outcome of a request to write is handed to the variables. -/
structure Writes (t : KscTransaction) (vars : KscMemory) : Prop where
  params : t.request.params = .setVar ⟨fillSetVarParams vars t.setVars⟩
  result : t.request.result.serviceId = KsSvc.setVar
  getVars : t.getVars = []
  failed : ∀ code, t.finish (.error code) vars =
    some (false, distributeErrorResult code t.setVars vars)
  refused : ∀ r : KsSetVarResult, r.result ≠ .ok → t.finish (.ok (.setVar r)) vars =
    some (false, distributeErrorResult r.result t.setVars vars)
  granted : ∀ r : KsSetVarResult, r.result = .ok → r.results.length = t.setVars.length →
    t.finish (.ok (.setVar r)) vars = copySetVarResults t.setVars r.results vars

variable {t : KscTransaction} {c : Circumstances} {start memory' : Option KssMemory}
  {vars vars' : KscMemory} {log : List KscEvent} {outcome : KscOutcome}

/-- The variables of a request are those of its server, and there are not too many of them. -/
structure Serves (t : KscTransaction) (vars : KscMemory) : Prop where
  server : ∀ var ∈ t.setVars ++ t.getVars, (vars var).server = t.server
  setVars : t.setVars.length < 2 ^ 32
  getVars : t.getVars.length < 2 ^ 32

theorem Serves.event (h : t.Serves vars) (hkept : ∀ var, (vars var).Kept (vars' var)) :
    ∀ v ∈ (t.event outcome vars vars').sent ++ (t.event outcome vars vars').shown,
      v.server = t.server := by
  intro v hv
  obtain hv | hv := List.mem_append.mp hv
  · obtain ⟨var, hvar, rfl⟩ := List.mem_map.mp hv
    exact h.server var (List.mem_append_left _ hvar)
  · obtain ⟨var, hvar, rfl⟩ := List.mem_map.mp hv
    rw [(hkept var).server]
    exact h.server var (List.mem_append_right _ hvar)

/-- All variables are told of a failure. -/
theorem Serves.tells_failure (h : t.Serves vars) {code : KsResultCode} (hcode : code ≠ .ok)
    (hfinish : t.finish outcome vars =
      some (false, distributeErrorResult code (t.setVars ++ t.getVars) vars))
    (hafter : ∀ vars', Accounted c t.server (log ++ [t.event outcome vars vars']) start memory') :
    t.Tells c start vars log memory' outcome := by
  have hkept := distributeErrorResult_kept code (t.setVars ++ t.getVars) vars
  refine ⟨_, _, hfinish, hkept, ⟨h.event hkept, Or.inl fun v hv => ?_⟩, hafter _⟩
  rw [KscTransaction.event, ← List.map_append] at hv
  obtain ⟨var, hvar, rfl⟩ := List.mem_map.mp hv
  exact distributeErrorResult_ne_ok hcode (Or.inl hvar)

theorem Reads.truthful (h : t.Reads vars) (hserves : t.Serves vars)
    (hproper : ∀ var, (vars var).Proper) (hstart : ∀ m ∈ start, m.Sound) :
    t.Truthful c start vars := by
  refine ⟨fun _ => ?_, h.result.trans (h.params ▸ rfl),
    fun log memory memory' outcome haccounted hconcluded => ?_⟩
  · rw [h.params]
    exact fillGetVarParams_sendable (fun var _ => hproper var) hserves.getVars
  rw [h.params] at hconcluded
  have hafter : ∀ vars', Accounted c t.server (log ++ [t.event outcome vars vars']) start
      memory' := by
    intro vars'
    refine haccounted.step rfl fun m' hm' => ⟨m', hconcluded.leaves nofun m' hm', ?_⟩
    rintro m - cells rfl
    rw [KscTransaction.event, h.setVars]
    exact Or.inr rfl
  have hvars : t.setVars ++ t.getVars = t.getVars := by rw [h.setVars, List.nil_append]
  cases outcome with
  | error code =>
    exact hserves.tells_failure hconcluded.1 (by rw [hvars, h.failed code]) hafter
  | ok result =>
    obtain ⟨m₁, -, -, -, hm₁, -⟩ := id hconcluded
    obtain ⟨m, hm, cells, hpossible, rfl⟩ := haccounted m₁ hm₁
    rw [hm₁, fillGetVarParams] at hconcluded
    obtain ⟨r, rfl, hitems⟩ := hconcluded.getVar (hstart m hm) (by
      rw [List.forall_mem_map]
      exact fun var _ => (hproper var).plain)
    by_cases hok : r.result = .ok
    · specialize hitems hok
      rw [List.forall₂_map_left_iff] at hitems
      obtain ⟨ok, vars', hcopy, hkept, -, htold⟩ := copyGetVarResults_upToDate hitems
      have hsendable := ((List.forall₂_and_left _ _).mp hitems.flip).1
      refine ⟨ok, vars', (h.granted r hok hitems.length_eq.symm hsendable).trans hcopy, hkept,
        ⟨hserves.event hkept, Or.inr ⟨m, hm, cells, hpossible, ?_, ?_⟩⟩, hafter _⟩
      · rw [KscTransaction.event, List.forall_mem_map]
        exact htold
      · rw [KscTransaction.event, h.setVars]
        exact .nil
    · exact hserves.tells_failure hok (by rw [hvars, h.refused r hok]) hafter

theorem Writes.truthful (h : t.Writes vars) (hserves : t.Serves vars)
    (hproper : ∀ var, (vars var).Proper) (hstart : ∀ m ∈ start, m.Sound) :
    t.Truthful c start vars := by
  have hsent : ∀ var ∈ t.setVars, (vars var).Proper := fun var _ => hproper var
  refine ⟨fun hok => ?_, h.result.trans (h.params ▸ rfl),
    fun log memory memory' outcome haccounted hconcluded => ?_⟩
  · rw [h.params] at hok ⊢
    exact fillSetVarParams_sendable hsent hserves.setVars hok
  rw [h.params] at hconcluded
  have hafter : ∀ vars', Accounted c t.server (log ++ [t.event outcome vars vars']) start
      memory' := by
    intro vars'
    refine haccounted.step rfl fun m' hm' => ?_
    obtain ⟨m₁, hm₁, -⟩ := hconcluded.memory_eq hm'
    refine ⟨m₁, hm₁, ?_⟩
    rintro m hm cells rfl
    rw [hm₁] at hconcluded
    have hcarries := hconcluded.carries (hstart m hm) m' hm'
    rwa [accepted_fillSetVarParams hsent] at hcarries
  have hvars : t.setVars ++ t.getVars = t.setVars := by rw [h.getVars, List.append_nil]
  cases outcome with
  | error code =>
    exact hserves.tells_failure hconcluded.1 (by rw [hvars, h.failed code]) hafter
  | ok result =>
    obtain ⟨m₁, -, -, -, hm₁, -⟩ := id hconcluded
    obtain ⟨m, hm, cells, hpossible, rfl⟩ := haccounted m₁ hm₁
    rw [hm₁] at hconcluded
    obtain ⟨r, rfl, hresults⟩ := hconcluded.setVar (hstart m hm)
    by_cases hok : r.result = .ok
    · have hwritten := @results_fillSetVarParams vars t.setVars m c hsent
      rw [← hresults hok] at hwritten
      obtain ⟨hlength, hwritten⟩ := List.forall₂_iff_zip.mp hwritten
      obtain ⟨ok, vars', hcopy, htold, -⟩ := copySetVarResults_spec hlength.le vars
      have hkept := copySetVarResults_kept hcopy
      refine ⟨ok, vars', (h.granted r hok hlength.symm).trans hcopy, hkept,
        ⟨hserves.event hkept, Or.inr ⟨m, hm, cells, hpossible, ?_, ?_⟩⟩, hafter _⟩
      · rw [KscTransaction.event, h.getVars]
        exact nofun
      · rw [KscTransaction.event, List.forall₂_map_left_iff, List.forall₂_map_right_iff,
          List.forall₂_same]
        intro var hvar hresult
        have htold := htold.told var (by rwa [List.map_fst_zip hlength.le])
        exact ⟨decide_eq_true hok, hwritten htold hresult⟩
    · exact hserves.tells_failure hok (by rw [hvars, h.refused r hok]) hafter

/-- Nothing is exchanged, and the variables are told so. -/
theorem doSimpleExchange_truthful {e : KscExchange}
    (hserves : (doSimpleExchange vars e).Serves vars) (hproper : ∀ var, (vars var).Proper) :
    (doSimpleExchange vars e).Truthful c start vars := by
  refine ⟨fun hok => ?_, rfl, fun log memory memory' outcome haccounted hconcluded => ?_⟩
  · exact ⟨fillSetVarParams_sendable (fun var _ => hproper var) hserves.setVars
        (Payload.ok_andThen.mp hok).1,
      fillGetVarParams_sendable (fun var _ => hproper var) hserves.getVars⟩
  have hboth : ∀ code, distributeErrorResult code e.getVars
      (distributeErrorResult code e.setVars vars) =
        distributeErrorResult code (e.setVars ++ e.getVars) vars := by
    intro code
    rw [distributeErrorResult, distributeErrorResult, distributeErrorResult, List.foldl_append]
  have hafter : outcome.written = false → ∀ vars', Accounted c e.server
      (log ++ [(doSimpleExchange vars e).event outcome vars vars']) start memory' := by
    intro hwritten vars'
    refine haccounted.step rfl fun m' hm' => ⟨m', hconcluded.leaves nofun m' hm', ?_⟩
    rintro m - cells rfl
    exact Or.inl ⟨hwritten, rfl⟩
  cases outcome with
  | error code =>
    refine hserves.tells_failure hconcluded.1 ?_ (hafter rfl)
    exact congrArg (fun vars' => some (false, vars')) (hboth code)
  | ok result =>
    obtain ⟨r, rfl, hfailed⟩ := Concluded.exgData hconcluded
    refine hserves.tells_failure hfailed ?_ (hafter (decide_eq_false hfailed))
    exact (if_neg hfailed).trans (congrArg (fun vars' => some (false, vars')) (hboth r.result))

theorem getSimpleUpdate_reads (vars : KscMemory) (e : KscExchange) :
    (getSimpleUpdate vars e).Reads vars where
  params := rfl
  result := rfl
  setVars := rfl
  failed _ := rfl
  refused _ hfailed := if_neg hfailed
  granted _ hok _ _ := if_pos hok

theorem setSimpleUpdate_writes (vars : KscMemory) (e : KscExchange) :
    (setSimpleUpdate vars e).Writes vars where
  params := rfl
  result := rfl
  getVars := rfl
  failed _ := rfl
  refused _ hfailed := if_neg hfailed
  granted _ hok _ := if_pos hok

/-- A single variable is told the same as in a package. -/
theorem getVariable_reads (vars : KscMemory) (var : KscVariableHandle) :
    (getVariable vars var).Reads vars where
  params := rfl
  result := rfl
  setVars := rfl
  failed _ := rfl
  refused r hfailed := by
    simp only [getVariable, KscVariable.finishGet, if_neg hfailed, Option.map_some]
    rfl
  granted r hok hlength hsendable := by
    obtain ⟨item, hitems⟩ := List.length_eq_one_iff.mp hlength
    have hitem := hsendable item (by rw [hitems]; exact List.mem_singleton_self item)
    simp only [getVariable, KscVariable.finishGet, if_pos hok, hitems, copyGetVarResults,
      copyGetVarResult]
    split_ifs with hresult
    · obtain ⟨p, hbound, -⟩ := hitem hresult
      cases p <;> simp [KsGetVarItemResult.varCurrProps, hbound, KscVariable.setCurrProps]
    · simp

theorem setVariable_writes (vars : KscMemory) (var : KscVariableHandle) :
    (setVariable vars var).Writes vars where
  params := rfl
  result := rfl
  getVars := rfl
  failed _ := rfl
  refused r hfailed := by
    simp only [setVariable, KscVariable.finishSet, if_neg hfailed, Option.map_some]
    rfl
  granted r hok hlength := by
    obtain ⟨result, hresults⟩ := List.length_eq_one_iff.mp hlength
    simp only [setVariable, KscVariable.finishSet, if_pos hok, hresults, copySetVarResults,
      copySetVarResult]
    split_ifs with hresult
    · simp [hresult]
    · simp

end KscTransaction

end AcpltKs
