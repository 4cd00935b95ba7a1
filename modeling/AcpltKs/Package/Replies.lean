import AcpltKs.Library.GuardedRun
import AcpltKs.Package.Merging
import AcpltKs.Package.Update

/-! What a reply with the wrong number of items does to the variables of a client. -/
namespace AcpltKs
open GuardedRun

/-- Every variable that is told a result ends with one that it is told, and the others are left
alone. -/
structure Told (answers : List (KscVariableHandle × KsResultCode)) (vars vars' : KscMemory) :
    Prop where
  told : ∀ var ∈ answers.map Prod.fst, (var, (vars' var).lastResult) ∈ answers
  others : ∀ var ∉ answers.map Prod.fst, vars' var = vars var

namespace Told

variable {answers answers' : List (KscVariableHandle × KsResultCode)} {vars vars' : KscMemory}

theorem nil (vars : KscMemory) : Told [] vars vars :=
  ⟨fun _ h => absurd h List.not_mem_nil, fun _ _ => rfl⟩

/-- One variable after the other. -/
theorem append {vars'' : KscMemory} (h : Told answers vars vars')
    (h' : Told answers' vars' vars'') : Told (answers ++ answers') vars vars'' := by
  constructor
  · intro var hvar
    rw [List.map_append, List.mem_append] at hvar
    by_cases hlater : var ∈ answers'.map Prod.fst
    · exact List.mem_append_right _ (h'.told var hlater)
    · rw [h'.others var hlater]
      exact List.mem_append_left _ (h.told var (hvar.resolve_right hlater))
  · intro var hvar
    rw [List.map_append, List.mem_append, not_or] at hvar
    rw [h'.others var hvar.2, h.others var hvar.1]

theorem one (vars : KscMemory) (var : KscVariableHandle) {v : KscVariable} {code : KsResultCode}
    (h : v.lastResult = code) : Told [(var, code)] vars (Function.update vars var v) := by
  constructor
  · intro var' hvar
    obtain rfl : var' = var := List.mem_singleton.mp hvar
    rw [Function.update_self, h]
    exact List.mem_singleton_self _
  · intro var' hvar
    exact Function.update_of_ne (fun heq => hvar (List.mem_singleton.mpr heq)) _ _

theorem cons {var : KscVariableHandle} {v : KscVariable} {code : KsResultCode}
    (h : v.lastResult = code) (h' : Told answers (Function.update vars var v) vars') :
    Told ((var, code) :: answers) vars vars' :=
  (one vars var h).append h'

end Told

namespace KscPackageBase

/-- What a variable is told by an item. -/
def codeOf (item : KsGetVarItemResult) : KsResultCode :=
  if item.result = .ok then if item.varCurrProps.isSome then .ok else .typeMismatch
  else item.result

theorem copyGetVarResult_spec (item : KsGetVarItemResult) (v : KscVariable) :
    (copyGetVarResult item v).2.lastResult = codeOf item ∧
      ((copyGetVarResult item v).1 = true ↔ codeOf item = .ok) := by
  unfold copyGetVarResult codeOf
  by_cases hok : item.result = .ok
  · cases hprops : item.varCurrProps with
    | none =>
      simp only [hok, if_true, Option.isSome_none, Bool.false_eq_true, if_false, true_and, false_iff]
      decide
    | some cp => simp only [hok, if_true, Option.isSome_some, true_and]
  · simp only [hok, if_false, Bool.false_eq_true, true_and]

theorem copySetVarResult_spec (result : KsResultCode) (v : KscVariable) :
    (copySetVarResult result v).2.lastResult = result ∧
      ((copySetVarResult result v).1 = true ↔ result = .ok) := by
  unfold copySetVarResult
  by_cases hok : result = .ok
  · simp only [hok, if_true, true_and]
  · simp only [hok, if_false, Bool.false_eq_true, true_and]

/-- The items are copied back if there are no more of them than variables. -/
theorem copyGetVarResults_spec {sortedVars : List KscVariableHandle}
    {res : List KsGetVarItemResult} (hfits : res.length ≤ sortedVars.length) (vars : KscMemory) :
    ∃ ok vars', copyGetVarResults sortedVars res vars = some (ok, vars') ∧
      Told (sortedVars.zip (res.map codeOf)) vars vars' ∧
      (ok = true ↔ ∀ a ∈ sortedVars.zip (res.map codeOf), a.2 = .ok) := by
  induction res generalizing sortedVars vars with
  | nil =>
    rw [List.map_nil, List.zip_nil_right]
    exact ⟨true, vars, by cases sortedVars <;> rfl, .nil vars, by simp⟩
  | cons item res ih =>
    cases sortedVars with
    | nil => simp at hfits
    | cons var sortedVars =>
      obtain ⟨hcode, hok⟩ := copyGetVarResult_spec item (vars var)
      obtain ⟨ok, vars', hcopy, htold, hall⟩ := ih (Nat.le_of_succ_le_succ hfits)
        (Function.update vars var (copyGetVarResult item (vars var)).2)
      refine ⟨(copyGetVarResult item (vars var)).1 && ok, vars', ?_, htold.cons hcode, ?_⟩
      · simp only [copyGetVarResults, hcopy, Option.map_some]
      · rw [Bool.and_eq_true, hok, hall, List.map_cons, List.zip_cons_cons, List.forall_mem_cons]

theorem copyGetVarResults_none {sortedVars : List KscVariableHandle}
    {res : List KsGetVarItemResult} (hmany : sortedVars.length < res.length) (vars : KscMemory) :
    copyGetVarResults sortedVars res vars = none := by
  induction res generalizing sortedVars vars with
  | nil => simp at hmany
  | cons item res ih =>
    cases sortedVars with
    | nil => rfl
    | cons var sortedVars =>
      simp only [copyGetVarResults, ih (Nat.lt_of_succ_lt_succ hmany), Option.map_none]

/-- The results are copied back if there are no fewer of them than variables. -/
theorem copySetVarResults_spec {sortedVars : List KscVariableHandle} {res : List KsResultCode}
    (hfits : sortedVars.length ≤ res.length) (vars : KscMemory) :
    ∃ ok vars', copySetVarResults sortedVars res vars = some (ok, vars') ∧
      Told (sortedVars.zip res) vars vars' ∧
      (ok = true ↔ ∀ a ∈ sortedVars.zip res, a.2 = .ok) := by
  induction sortedVars generalizing res vars with
  | nil => exact ⟨true, vars, rfl, .nil vars, by simp⟩
  | cons var sortedVars ih =>
    cases res with
    | nil => simp at hfits
    | cons result res =>
      obtain ⟨hcode, hok⟩ := copySetVarResult_spec result (vars var)
      obtain ⟨ok, vars', hcopy, htold, hall⟩ := ih (Nat.le_of_succ_le_succ hfits)
        (Function.update vars var (copySetVarResult result (vars var)).2)
      refine ⟨(copySetVarResult result (vars var)).1 && ok, vars', ?_, htold.cons hcode, ?_⟩
      · simp only [copySetVarResults, hcopy, Option.map_some]
      · rw [Bool.and_eq_true, hok, hall, List.zip_cons_cons, List.forall_mem_cons]

theorem copySetVarResults_none {sortedVars : List KscVariableHandle} {res : List KsResultCode}
    (hfew : res.length < sortedVars.length) (vars : KscMemory) :
    copySetVarResults sortedVars res vars = none := by
  induction sortedVars generalizing res vars with
  | nil => simp at hfew
  | cons var sortedVars ih =>
    cases res with
    | nil => rfl
    | cons result res =>
      simp only [copySetVarResults, ih (Nat.lt_of_succ_lt_succ hfew), Option.map_none]

theorem distributeErrorResult_told (result : KsResultCode) (sortedVars : List KscVariableHandle)
    (vars : KscMemory) :
    Told (sortedVars.map (·, result)) vars (distributeErrorResult result sortedVars vars) := by
  induction sortedVars generalizing vars with
  | nil => exact .nil vars
  | cons var sortedVars ih => exact .cons rfl (ih _)

end KscPackageBase

/-- A handle is bound if an item that the decoder has accepted is a success. -/
theorem KsGetVarItemResult.bound_of_accepts {old item : KsGetVarItemResult}
    (h : xdrDecode.Accepts old item) (hok : item.result = .ok) : item.item.isSome = true := by
  obtain ⟨_, hresult, hrest⟩ := h.of_andThen
  obtain ⟨result, -, rfl⟩ := hresult.of_field
  unfold XdrDecoder.Accepts XdrDecoder.behindOk at hrest
  by_cases hresult : result = .ok
  · simp only [hresult, if_true] at hrest
    obtain ⟨o, ho, rfl⟩ := XdrDecoder.Accepts.of_field hrest
    exact accepts_handle ho
  · simp only [hresult, if_false] at hrest
    obtain ⟨-, rfl⟩ := Prod.mk.inj hrest
    exact absurd hok hresult

/-- The items of a reply are bound if they are successes. -/
theorem KsGetVarResult.bound_of_accepted (reply : KsGetVarReply) (hok : reply.1.result = .ok) :
    ∀ item ∈ reply.1.items, item.result = .ok → item.item.isSome = true := by
  obtain ⟨r, old, h⟩ := reply
  obtain ⟨_, hresult, hrest⟩ := XdrDecoder.Accepts.of_andThen h
  obtain ⟨result, -, rfl⟩ := hresult.of_field
  unfold XdrDecoder.Accepts XdrDecoder.behindOk at hrest
  by_cases hresult : result = .ok
  · simp only [hresult, if_true] at hrest
    obtain ⟨items, hitems, rfl⟩ := XdrDecoder.Accepts.of_field hrest
    intro item hitem
    obtain ⟨_, haccepts⟩ := accepts_array hitems item hitem
    exact KsGetVarItemResult.bound_of_accepts haccepts
  · simp only [hresult, if_false] at hrest
    obtain ⟨-, rfl⟩ := Prod.mk.inj hrest
    exact absurd hok hresult

open KscPackageBase

namespace KscRequest

/-- The variables of a request. -/
def vars : KscRequest → List KscVariableHandle
  | .getVariable var _ | .setVariable var _ => [var]
  | .getVars sortedVars _ | .setVars sortedVars _ | .failed sortedVars _ => sortedVars
  | .exchange gets sets _ => gets ++ sets

/-- Has the server granted the request? Then there are items in the reply. -/
def granted : KscRequest → Bool
  | .getVariable _ reply | .getVars _ reply => reply.1.result = .ok
  | .setVariable _ reply | .setVars _ reply => reply.1.result = .ok
  | .exchange _ _ reply => reply.1.result = .ok
  | .failed _ _ => false

/-- What the variables are told by a reply that has been granted, each by the item with its own
index. -/
def itemAnswers : KscRequest → List (KscVariableHandle × KsResultCode)
  | .getVariable var reply => [var].zip (reply.1.items.map codeOf)
  | .setVariable var reply => [var].zip reply.1.results
  | .getVars sortedVars reply => sortedVars.zip (reply.1.items.map codeOf)
  | .setVars sortedVars reply => sortedVars.zip reply.1.results
  | .exchange gets sets reply =>
      gets.zip (reply.1.items.map codeOf) ++ sets.zip reply.1.results
  | .failed _ _ => []

/-- What all the variables are told by another one. -/
def refusal : KscRequest → KsResultCode
  | .getVariable _ reply | .getVars _ reply => reply.1.result
  | .setVariable _ reply | .setVars _ reply => reply.1.result
  | .exchange _ _ reply => reply.1.result
  | .failed _ lastResult => lastResult

def answers (request : KscRequest) : List (KscVariableHandle × KsResultCode) :=
  if request.granted then request.itemAnswers else request.vars.map (·, request.refusal)

/-- Are there as many items as variables? -/
def complete : KscRequest → Bool
  | .getVariable _ reply => reply.1.items.length = 1
  | .setVariable _ reply => reply.1.results.length = 1
  | .getVars sortedVars reply => reply.1.items.length = sortedVars.length
  | .setVars sortedVars reply => reply.1.results.length = sortedVars.length
  | .exchange gets sets reply =>
      reply.1.items.length = gets.length ∧ reply.1.results.length = sets.length
  | .failed _ _ => false

/-- Do the loops stay within both arrays? -/
def fits : KscRequest → Bool
  | .getVariable _ reply => 1 ≤ reply.1.items.length
  | .setVariable _ reply => 1 ≤ reply.1.results.length
  | .getVars sortedVars reply => reply.1.items.length ≤ sortedVars.length
  | .setVars sortedVars reply => sortedVars.length ≤ reply.1.results.length
  | .exchange gets sets reply =>
      reply.1.items.length ≤ gets.length ∧ sets.length ≤ reply.1.results.length
  | .failed _ _ => false

/-- A request is performed within bounds: the variables are told their results, the others are left
alone, and a reply with another number of items is reported. -/
def Honoured (request : KscRequest) (vars : KscMemory) : Prop :=
  ∃ ok vars', request.perform vars = some (ok, vars') ∧
    (∀ var ∉ request.vars, vars' var = vars var) ∧
    (∀ var ∈ request.vars, (var, (vars' var).lastResult) ∈ request.answers ∨
      (vars' var).lastResult ≠ .ok) ∧
    (request.granted = true → request.complete = false → ok = false)

/-- The reply fits, and if it does not have as many items as variables have been asked for, one of
them fails and the variables without an item have an error already. -/
structure Answered (request : KscRequest) (vars : KscMemory) : Prop where
  fits : request.granted = true → request.fits = true
  reported : request.granted = true → request.complete = true ∨ ∃ a ∈ request.answers, a.2 ≠ .ok
  others : ∀ var ∈ request.vars, var ∈ request.answers.map Prod.fst ∨ (vars var).lastResult ≠ .ok

/-- A single variable is told by the first item. -/
theorem getUpdate_spec {reply : KsGetVarReply} {item : KsGetVarItemResult}
    {items : List KsGetVarItemResult} (hgranted : reply.1.result = .ok)
    (hitems : reply.1.items = item :: items) (v : KscVariable) :
    ∃ ok v', v.getUpdate reply = some (ok, v') ∧ v'.lastResult = codeOf item ∧
      (ok = true ↔ codeOf item = .ok) := by
  have hbound := KsGetVarResult.bound_of_accepted reply hgranted item
    (by rw [hitems]; exact List.mem_cons_self)
  unfold KscVariable.getUpdate codeOf KsGetVarItemResult.varCurrProps
  simp only [hgranted, if_true, hitems]
  by_cases hok : item.result = .ok
  · obtain ⟨props, hprops⟩ := Option.isSome_iff_exists.mp (hbound hok)
    simp only [hok, if_true, hprops]
    cases props with
    | var value time state => exact ⟨_, _, rfl, rfl, by simp⟩
    | domain => exact ⟨_, _, rfl, rfl, by simp only [Bool.false_eq_true, false_iff]; decide⟩
  · simp only [hok, if_false]
    exact ⟨_, _, rfl, rfl, by simp⟩

theorem setUpdate_spec {reply : KsSetVarReply} {result : KsResultCode}
    {results : List KsResultCode} (hgranted : reply.1.result = .ok)
    (hresults : reply.1.results = result :: results) (v : KscVariable) :
    ∃ ok v', v.setUpdate reply = some (ok, v') ∧ v'.lastResult = result ∧
      (ok = true ↔ result = .ok) := by
  unfold KscVariable.setUpdate
  simp only [hgranted, if_true, hresults]
  by_cases hok : result = .ok
  · simp only [hok, if_true]
    exact ⟨_, _, rfl, rfl, by simp⟩
  · simp only [hok, if_false]
    exact ⟨_, _, rfl, rfl, by simp⟩

/-- A request that has been granted. -/
theorem perform_granted {request : KscRequest} (hgranted : request.granted = true)
    (hfits : request.fits = true) (vars : KscMemory) :
    ∃ ok vars', request.perform vars = some (ok, vars') ∧ Told request.itemAnswers vars vars' ∧
      (ok = true ↔ ∀ a ∈ request.itemAnswers, a.2 = .ok) := by
  cases request with
  | getVariable var reply =>
    have hresult : reply.1.result = .ok := of_decide_eq_true hgranted
    obtain ⟨item, items, hitems⟩ := List.exists_cons_of_length_pos (of_decide_eq_true hfits)
    obtain ⟨ok, v', hget, hcode, hok⟩ := getUpdate_spec hresult hitems (vars var)
    refine ⟨ok, Function.update vars var v', by rw [perform, hget]; rfl, ?_, ?_⟩
    · simpa [itemAnswers, hitems] using Told.one vars var hcode
    · simp [itemAnswers, hitems, hok]
  | setVariable var reply =>
    have hresult : reply.1.result = .ok := of_decide_eq_true hgranted
    obtain ⟨result, results, hresults⟩ := List.exists_cons_of_length_pos (of_decide_eq_true hfits)
    obtain ⟨ok, v', hset, hcode, hok⟩ := setUpdate_spec hresult hresults (vars var)
    refine ⟨ok, Function.update vars var v', by rw [perform, hset]; rfl, ?_, ?_⟩
    · simpa [itemAnswers, hresults] using Told.one vars var hcode
    · simp [itemAnswers, hresults, hok]
  | getVars sortedVars reply =>
    have hresult : reply.1.result = .ok := of_decide_eq_true hgranted
    obtain ⟨ok, vars', hcopy, htold, hok⟩ :=
      copyGetVarResults_spec (of_decide_eq_true hfits) vars
    exact ⟨ok, vars', (if_pos hresult).trans hcopy, htold, hok⟩
  | setVars sortedVars reply =>
    have hresult : reply.1.result = .ok := of_decide_eq_true hgranted
    obtain ⟨ok, vars', hcopy, htold, hok⟩ :=
      copySetVarResults_spec (of_decide_eq_true hfits) vars
    exact ⟨ok, vars', (if_pos hresult).trans hcopy, htold, hok⟩
  | exchange gets sets reply =>
    have hresult : reply.1.result = .ok := of_decide_eq_true hgranted
    obtain ⟨hgets, hsets⟩ : _ ∧ _ := of_decide_eq_true hfits
    obtain ⟨ok, vars₁, hget, htold, hok⟩ := copyGetVarResults_spec hgets vars
    obtain ⟨ok', vars₂, hset, htold', hok'⟩ := copySetVarResults_spec hsets vars₁
    refine ⟨ok && ok', vars₂, ?_, htold.append htold', ?_⟩
    · rw [perform, KscExchangePackage.finishExchange, if_pos hresult, hget]
      simp only [Option.bind_some, hset, Option.map_some]
    · rw [Bool.and_eq_true, hok, hok', itemAnswers, List.forall_mem_append]
  | failed sortedVars lastResult => exact Bool.noConfusion hgranted

/-- The loops leave one of the arrays otherwise. -/
theorem perform_none {request : KscRequest} (hgranted : request.granted = true)
    (hfits : request.fits = false) (vars : KscMemory) : request.perform vars = none := by
  cases request with
  | getVariable var reply =>
    have hresult : reply.1.result = .ok := of_decide_eq_true hgranted
    have hitems : reply.1.items = [] := by simpa [fits] using hfits
    simp only [perform, KscVariable.getUpdate, hresult, if_true, hitems, Option.map_none]
  | setVariable var reply =>
    have hresult : reply.1.result = .ok := of_decide_eq_true hgranted
    have hresults : reply.1.results = [] := by simpa [fits] using hfits
    simp only [perform, KscVariable.setUpdate, hresult, if_true, hresults, Option.map_none]
  | getVars sortedVars reply =>
    have hresult : reply.1.result = .ok := of_decide_eq_true hgranted
    exact (if_pos hresult).trans
      (copyGetVarResults_none (not_le.mp (of_decide_eq_false hfits)) vars)
  | setVars sortedVars reply =>
    have hresult : reply.1.result = .ok := of_decide_eq_true hgranted
    exact (if_pos hresult).trans
      (copySetVarResults_none (not_le.mp (of_decide_eq_false hfits)) vars)
  | exchange gets sets reply =>
    have hresult : reply.1.result = .ok := of_decide_eq_true hgranted
    rw [perform, KscExchangePackage.finishExchange, if_pos hresult]
    rcases lt_or_ge gets.length reply.1.items.length with hmany | hle
    · rw [copyGetVarResults_none hmany, Option.bind_none]
    · obtain ⟨ok, vars₁, hget, -, -⟩ := copyGetVarResults_spec hle vars
      have hfew : reply.1.results.length < sets.length := by
        have hnot := of_decide_eq_false hfits
        exact not_le.mp fun hsets => hnot ⟨hle, hsets⟩
      rw [hget, Option.bind_some]
      simp only [copySetVarResults_none hfew, Option.map_none]
  | failed sortedVars lastResult => exact Bool.noConfusion hgranted

/-- A request that has been refused, or that has failed. -/
theorem perform_refused {request : KscRequest} (hrefused : request.granted = false)
    (vars : KscMemory) :
    ∃ vars', request.perform vars = some (false, vars') ∧ Told request.answers vars vars' := by
  have hanswers : request.answers = request.vars.map (·, request.refusal) := by
    rw [answers, hrefused]
    exact if_neg Bool.false_ne_true
  rw [hanswers]
  cases request with
  | getVariable var reply =>
    have hresult : ¬ reply.1.result = .ok := of_decide_eq_false hrefused
    have htold : Told [(var, reply.1.result)] vars
        (Function.update vars var { vars var with lastResult := reply.1.result }) := .one vars var rfl
    refine ⟨_, ?_, htold⟩
    simp only [perform, KscVariable.getUpdate, hresult, if_false, Option.map_some]
  | setVariable var reply =>
    have hresult : ¬ reply.1.result = .ok := of_decide_eq_false hrefused
    have htold : Told [(var, reply.1.result)] vars
        (Function.update vars var { vars var with lastResult := reply.1.result }) := .one vars var rfl
    refine ⟨_, ?_, htold⟩
    simp only [perform, KscVariable.setUpdate, hresult, if_false, Option.map_some]
  | getVars sortedVars reply =>
    exact ⟨_, if_neg (of_decide_eq_false hrefused), distributeErrorResult_told _ _ vars⟩
  | setVars sortedVars reply =>
    exact ⟨_, if_neg (of_decide_eq_false hrefused), distributeErrorResult_told _ _ vars⟩
  | exchange gets sets reply =>
    refine ⟨_, if_neg (of_decide_eq_false hrefused), ?_⟩
    have htold := (distributeErrorResult_told reply.1.result sets vars).append
      (distributeErrorResult_told reply.1.result gets _)
    constructor
    · intro var hvar
      have hmem := htold.told var (by simpa [KscRequest.vars, refusal, or_comm] using hvar)
      simpa [KscRequest.vars, refusal, or_comm] using hmem
    · intro var hvar
      exact htold.others var (by simpa [KscRequest.vars, and_comm] using hvar)
  | failed sortedVars lastResult =>
    exact ⟨_, rfl, distributeErrorResult_told _ _ vars⟩

theorem answers_subset (request : KscRequest) :
    ∀ var ∈ request.answers.map Prod.fst, var ∈ request.vars := by
  have hzip (l : List KscVariableHandle) (codes : List KsResultCode) :
      ∀ var ∈ (l.zip codes).map Prod.fst, var ∈ l := by
    intro var hvar
    obtain ⟨a, ha, rfl⟩ := List.mem_map.mp hvar
    exact (List.of_mem_zip ha).1
  intro var hvar
  rw [answers] at hvar
  split at hvar
  · cases request with
    | getVariable | setVariable | getVars | setVars => exact hzip _ _ var hvar
    | exchange gets sets reply =>
      rw [itemAnswers, List.map_append, List.mem_append] at hvar
      exact List.mem_append.mpr (hvar.imp (hzip _ _ var) (hzip _ _ var))
    | failed => exact absurd hvar List.not_mem_nil
  · simpa using hvar

/-- The reply is copied back as it should be exactly if it answers the request. -/
theorem honoured_iff (request : KscRequest) (vars : KscMemory) :
    request.Honoured vars ↔ request.Answered vars := by
  have hspec : (request.granted = true → request.fits = true) →
      ∃ ok vars', request.perform vars = some (ok, vars') ∧ Told request.answers vars vars' ∧
        (request.granted = true → (ok = true ↔ ∀ a ∈ request.answers, a.2 = .ok)) := by
    intro hfits
    by_cases hgranted : request.granted = true
    · have hanswers : request.answers = request.itemAnswers := if_pos hgranted
      rw [hanswers]
      obtain ⟨ok, vars', hperform, htold, hok⟩ := perform_granted hgranted (hfits hgranted) vars
      exact ⟨ok, vars', hperform, htold, fun _ => hok⟩
    · obtain ⟨vars', hperform, htold⟩ := perform_refused (Bool.eq_false_iff.mpr hgranted) vars
      exact ⟨false, vars', hperform, htold, fun h => absurd h hgranted⟩
  constructor
  · rintro ⟨ok, vars', hperform, -, hown, hcounts⟩
    have hfits : request.granted = true → request.fits = true := by
      intro hgranted
      by_contra hfits
      rw [perform_none hgranted (Bool.eq_false_iff.mpr hfits) vars] at hperform
      cases hperform
    obtain ⟨ok₁, vars₁, hperform₁, htold, hok⟩ := hspec hfits
    obtain ⟨rfl, rfl⟩ := Prod.mk.inj (Option.some.inj (hperform₁.symm.trans hperform))
    refine ⟨hfits, fun hgranted => ?_, fun var hvar => ?_⟩
    · by_contra hnot
      rw [not_or] at hnot
      have hfalse := hcounts hgranted (Bool.eq_false_iff.mpr hnot.1)
      have htrue := (hok hgranted).mpr fun a ha => by
        by_contra hne
        exact hnot.2 ⟨a, ha, hne⟩
      exact Bool.noConfusion (htrue.symm.trans hfalse)
    · by_cases hin : var ∈ request.answers.map Prod.fst
      · exact Or.inl hin
      · rcases hown var hvar with hmem | herror
        · exact Or.inl (List.mem_map_of_mem hmem)
        · exact Or.inr (htold.others var hin ▸ herror)
  · rintro ⟨hfits, hreported, hothers⟩
    obtain ⟨ok, vars', hperform, htold, hok⟩ := hspec hfits
    refine ⟨ok, vars', hperform, fun var hvar => ?_, fun var hvar => ?_, fun hgranted hcomplete => ?_⟩
    · exact htold.others var fun hin => hvar (request.answers_subset var hin)
    · by_cases hin : var ∈ request.answers.map Prod.fst
      · exact Or.inl (htold.told var hin)
      · exact Or.inr (htold.others var hin ▸ (hothers var hvar).resolve_left hin)
    · obtain htrue | ⟨a, ha, hne⟩ := hreported hgranted
      · exact Bool.noConfusion (htrue.symm.trans hcomplete)
      · exact Bool.eq_false_iff.mpr fun htrue => hne ((hok hgranted).mp htrue a ha)

/-- One request of an update. -/
def step (vars : Option KscMemory) (request : KscRequest) : Option KscMemory :=
  vars.bind fun vars => (request.perform vars).map Prod.snd

/-- Every request of an update is copied back as it should be, in the memory that it comes to. -/
def AllHonoured (requests : List KscRequest) (vars : KscMemory) : Prop :=
  Along step (fun vars request => ∀ m ∈ vars, request.Honoured m) (some vars) requests

def AllAnswered (requests : List KscRequest) (vars : KscMemory) : Prop :=
  Along step (fun vars request => ∀ m ∈ vars, request.Answered m) (some vars) requests

/-- The update as a whole: it stays within bounds, every variable of it ends with a result that it
has been told or with an error, the others are left alone, and a reply with another number of items
is reported. -/
def UpdateHonoured (requests : List KscRequest) (vars : KscMemory) : Prop :=
  ∃ ok vars', performAll requests vars = some (ok, vars') ∧
    (∀ var, (∀ request ∈ requests, var ∉ request.vars) → vars' var = vars var) ∧
    (∀ request ∈ requests, ∀ var ∈ request.vars,
      (∃ q ∈ requests, (var, (vars' var).lastResult) ∈ q.answers) ∨
        (vars' var).lastResult ≠ .ok) ∧
    ((∃ request ∈ requests, request.granted = true ∧ request.complete = false) → ok = false)

theorem updateHonoured_of_all {requests : List KscRequest} {vars : KscMemory}
    (h : AllHonoured requests vars) : UpdateHonoured requests vars := by
  induction requests generalizing vars with
  | nil => exact ⟨true, vars, rfl, fun _ _ => rfl, by simp, by simp⟩
  | cons request requests ih =>
    obtain ⟨hfirst, hrest⟩ := h
    obtain ⟨ok, vars₁, hperform, hframe, hown, hcounts⟩ := hfirst vars rfl
    have hstep : step (some vars) request = some vars₁ := by
      rw [step, Option.bind_some, hperform, Option.map_some]
    rw [hstep] at hrest
    obtain ⟨ok', vars', hall, hframe', hown', hcounts'⟩ := ih hrest
    refine ⟨ok && ok', vars', ?_, fun var hvar => ?_, fun q hq var hvar => ?_, ?_⟩
    · simp only [performAll, hperform, Option.bind_some, hall, Option.map_some]
    · rw [hframe' var fun q hq => hvar q (List.mem_cons_of_mem _ hq),
        hframe var (hvar request List.mem_cons_self)]
    · by_cases hlater : ∃ q ∈ requests, var ∈ q.vars
      · obtain ⟨q', hq', hvar'⟩ := hlater
        refine (hown' q' hq' var hvar').imp_left ?_
        rintro ⟨q'', hq'', hmem⟩
        exact ⟨q'', List.mem_cons_of_mem _ hq'', hmem⟩
      · have hsame : vars' var = vars₁ var :=
          hframe' var fun q' hq' hvar' => hlater ⟨q', hq', hvar'⟩
        have hhead : q = request :=
          (List.mem_cons.mp hq).resolve_right fun hin => hlater ⟨q, hin, hvar⟩
        rw [hsame]
        exact (hown var (hhead ▸ hvar)).imp_left fun hmem =>
          ⟨request, List.mem_cons_self, hmem⟩
    · rintro ⟨q, hq, hgranted, hcomplete⟩
      rcases List.mem_cons.mp hq with rfl | hq
      · rw [hcounts hgranted hcomplete, Bool.false_and]
      · rw [hcounts' ⟨q, hq, hgranted, hcomplete⟩, Bool.and_false]

/-- In every update of variables and packages, the replies are copied back as they should be exactly
if they answer their requests, and then the update as a whole is as it should be. -/
theorem allHonoured_iff (requests : List KscRequest) (vars : KscMemory) :
    (AllHonoured requests vars ↔ AllAnswered requests vars) ∧
      (AllAnswered requests vars → UpdateHonoured requests vars) := by
  have hiff : AllHonoured requests vars ↔ AllAnswered requests vars :=
    ⟨fun h => h.mono fun _ request hhonoured m hm =>
        (honoured_iff request m).mp (hhonoured m hm),
      fun h => h.mono fun _ request hanswered m hm =>
        (honoured_iff request m).mpr (hanswered m hm)⟩
  exact ⟨hiff, fun h => updateHonoured_of_all (hiff.mpr h)⟩

/-- A reply with a failure for each of two variables. -/
def twoFailures : KsGetVarReply :=
  ⟨⟨.ok, [⟨.badPath, none⟩, ⟨.badPath, none⟩]⟩, ⟨KsResult.blank, []⟩,
    some KsResultCode.ok, some 2, some KsResultCode.badPath, some KsResultCode.badPath, rfl⟩

/-- The second item is copied behind the array of a single variable. -/
theorem not_allHonoured_twoFailures :
    ¬ ∀ requests vars, AllHonoured requests vars := by
  intro h
  let v : KscVariable := ⟨KscPath.ofString [47, 97], ⟨1⟩, none, ⟨none, ⟨0, 0⟩, 0⟩, true, .ok⟩
  obtain ⟨ok, vars', hperform, -⟩ := (h [.getVars [0] twoFailures] fun _ => v).1 (fun _ => v) rfl
  cases hperform

end KscRequest

section Updates
open Grouping
variable {replies : KscReplies} {qsort : List KscVariableHandle → List KscVariableHandle}

/-- Every bucket is asked for its variables. -/
theorem KscSorter.Holds.exchanges {s : KscSorter}
    {ps : Multiset (KscSorter.Key × KscVariableHandle)} (h : s.Holds ps (keys ps))
    (exchange : KscSorterBucket → List KscVariableHandle → KscExchange) :
    s.exchanges exchange = some (s.buckets.map fun p => exchange p.2 p.2.vars) := by
  have hall : ∀ l : List (KscSorter.Key × KscSorterBucket),
      (∀ p ∈ l, p.2.vars.length = p.2.varCount) →
      l.mapM (fun p => p.2.getSortedVars.map (exchange p.2)) =
        some (l.map fun p => exchange p.2 p.2.vars) := by
    intro l hl
    induction l with
    | nil => rfl
    | cons p l ih =>
      have hp : p.2.getSortedVars = some p.2.vars := if_pos (hl p List.mem_cons_self)
      have hrest := ih fun q hq => hl q (List.mem_cons_of_mem _ hq)
      simp only [List.mapM_cons, hp, hrest, Option.map_some, Option.bind_eq_bind, Option.bind_some,
        Option.pure_def, List.map_cons]
  refine hall s.buckets fun p hp => ?_
  obtain ⟨q, hq, hpq⟩ := List.mem_filterMap.mp hp
  obtain ⟨b, hb, hserves⟩ := h.bucket q (by rwa [← PltHashTable.coe_iterate, Multiset.mem_coe])
  rw [hb, Option.map_some, Option.some.injEq] at hpq
  exact hpq ▸ hserves.varCount

/-- The variables of the buckets, whatever order they are brought into. -/
theorem KscSorter.Holds.joined {s : KscSorter}
    {ps : Multiset (KscSorter.Key × KscVariableHandle)} (h : s.Holds ps (keys ps))
    (hsort : ∀ l, (qsort l).Perm l) :
    Joined (s.buckets.map fun p => (⟨p.2.avModule, p.2.server⟩, qsort p.2.vars, [])) ps 0 := by
  have hgroups := h.sorts.groups.joined hsort
  rw [List.map_map] at hgroups
  rw [List.map_congr_left fun p hp => ?_]
  · exact hgroups
  · obtain ⟨hmodule, hserver⟩ := h.sorts.labels p hp
    rw [hmodule, hserver]
    rfl

/-- The update of a package asks for all its variables, once for every server and module. -/
theorem KscPackage.getUpdate_joined (hsort : ∀ l, (qsort l).Perm l) (client : KscClient)
    (pkg : KscPackage) (hfew : (keys (client.placed pkg false none)).card ≤ 1000000000) :
    ∃ exchanges : List KscExchange,
      pkg.getUpdate replies qsort client =
        KscRequest.performAll (exchanges.map replies.getRequest) client.vars ∧
      Joined (exchanges.map KscExchange.content) (client.placed pkg false none) 0 := by
  obtain ⟨s, hcreate, hholds, hvalid⟩ := KscSorter.create_holds client pkg false none
  have h := hholds (hvalid hfew)
  refine ⟨s.buckets.map fun p => ⟨p.2.avModule, p.2.server, qsort p.2.vars, []⟩, ?_, ?_⟩
  · simp only [KscPackage.getUpdate, hcreate, Option.bind_eq_bind, Option.bind_some, hvalid hfew,
      if_true, h.exchanges]
  · rw [List.map_map]
    exact h.joined hsort

/-- Writing a package back sends those of its variables that are dirty, or all of them, once for
every server and module. -/
theorem KscPackage.setUpdate_joined (hsort : ∀ l, (qsort l).Perm l) (client : KscClient)
    (pkg : KscPackage) (force : Bool)
    (hfew : (keys (client.placed pkg (!force) none)).card ≤ 1000000000) :
    ∃ exchanges : List KscExchange,
      pkg.setUpdate replies qsort client force =
        KscRequest.performAll (exchanges.map replies.setRequest) client.vars ∧
      Joined (exchanges.map KscExchange.content) 0 (client.placed pkg (!force) none) := by
  obtain ⟨s, hcreate, hholds, hvalid⟩ := KscSorter.create_holds client pkg (!force) none
  have h := hholds (hvalid hfew)
  refine ⟨s.buckets.map fun p => ⟨p.2.avModule, p.2.server, [], qsort p.2.vars⟩, ?_, ?_⟩
  · simp only [KscPackage.setUpdate, hcreate, Option.bind_eq_bind, Option.bind_some, hvalid hfew,
      if_true, h.exchanges]
  · have hjoined := (h.joined hsort).swap
    rw [List.map_map] at hjoined ⊢
    exact hjoined

/-- The exchange of two packages reads the variables of the one and writes those of the other, once
for every server and module. -/
theorem KscExchangePackage.doExchange_joined (hsort : ∀ l, (qsort l).Perm l) (client : KscClient)
    (avModule : Option KscAvModule) (getPkg setPkg : KscPackage) (force : Bool)
    (hgetFew : (keys (client.placed getPkg false (getPkg.avModule.or avModule))).card ≤ 1000000000)
    (hsetFew : (keys (client.placed setPkg (!force) (setPkg.avModule.or avModule))).card ≤
      1000000000) :
    ∃ exchanges : List KscExchange,
      doExchange replies qsort client avModule (some getPkg) (some setPkg) force =
        KscRequest.performAll (exchanges.map replies.exchangeRequest) client.vars ∧
      Joined (exchanges.map KscExchange.content)
        (client.placed getPkg false (getPkg.avModule.or avModule))
        (client.placed setPkg (!force) (setPkg.avModule.or avModule)) := by
  obtain ⟨g, hget, hgetHolds, hgetValid⟩ :=
    KscSorter.create_holds client getPkg false (getPkg.avModule.or avModule)
  obtain ⟨s, hset, hsetHolds, hsetValid⟩ :=
    KscSorter.create_holds client setPkg (!force) (setPkg.avModule.or avModule)
  obtain ⟨es, hes, hjoined⟩ :=
    mergeLoop_spec (hgetHolds (hgetValid hgetFew)) (hsetHolds (hsetValid hsetFew)) rfl
  have hmerge : mergeSorters g s = some es := hes
  refine ⟨es.map fun e => { e with getVars := qsort e.getVars, setVars := qsort e.setVars }, ?_, ?_⟩
  · simp only [doExchange, hget, hset, Option.bind_eq_bind, Option.bind_some, hgetValid hgetFew,
      hsetValid hsetFew, Bool.and_self, if_true, hmerge, List.map_map, Function.comp_def]
  · have hsorted := hjoined.sorted hsort
    rw [List.map_map] at hsorted ⊢
    exact hsorted

end Updates
end AcpltKs
