import AcpltKs.Library.Replay
import AcpltKs.Service.Params
import AcpltKs.SimpleServer.Names

/-! The services of a simple server, call after call from any clients: its variables are registers,
which the calls find by their names, read and write to. -/
namespace AcpltKs
open Function (update)
open Replay

namespace KsSimpleServer

section Reading
variable {Obj : Type*} [KssCommObject Obj]

/-- The loop of `getVar`; nothing if it leaves the array of the result. -/
def getVarItems (rootDomain : Obj) (ticket : KsAvTicket) :
    List (KsPath × KsResultCode) → List KsGetVarItemResult → Option (List KsGetVarItemResult)
  | [], items => some items
  | _ :: _, [] => none
  | (path, pathres) :: paths, item :: items => do
      let rest ← getVarItems rootDomain ticket paths items
      some ((if pathres = .ok then getVarItem rootDomain ticket path item
        else { item with result := pathres }) :: rest)

/-- The service, if there is room for its arrays or not. -/
def getVar (rootDomain : Obj) (ticket : KsAvTicket) (room : Bool) (params : KsGetVarParams)
    (result : KsGetVarResult) : Option KsGetVarResult :=
  if room then do
    let paths ← KsPath.resolvePaths params.identifiers
    let items ← getVarItems rootDomain ticket paths result.items
    some ⟨.ok, items⟩
  else some { result with result := .generic }

end Reading

/-- An item of a request that the loop of `setVar` has come to. -/
def setVarRound (m : KssMemory) (env : KssEnvironment) (ticket : KsAvTicket) :
    (KsPath × KsResultCode) × Option KsCurrProps → KsResultCode × KssMemory
  | ((path, pathres), currProps) =>
      if pathres = .ok then
        let (res, changed) := setVarItem (⟨m, env, 0⟩ : KssHandle) ticket path currProps
        (res, (changed.map KssHandle.memory).getD m)
      else (pathres, m)

/-- The loop of `setVar`. -/
def setVarItems (env : KssEnvironment) (ticket : KsAvTicket) :
    List ((KsPath × KsResultCode) × Option KsCurrProps) → List KsResultCode → KssMemory →
      Option (List KsResultCode × KssMemory)
  | [], results, m => some (results, m)
  | _ :: _, [], _ => none
  | item :: items, _ :: results, m => do
      let (res, m) := setVarRound m env ticket item
      let (results, m) ← setVarItems env ticket items results m
      some (res :: results, m)

def setVar (m : KssMemory) (env : KssEnvironment) (ticket : KsAvTicket) (room : Bool)
    (params : KsSetVarParams) (result : KsSetVarResult) : Option (KsSetVarResult × KssMemory) :=
  if room then do
    let paths ← KsPath.resolvePaths (params.items.map KsSetVarItem.pathAndName)
    let (results, m) ← setVarItems env ticket
      (paths.zip (params.items.map KsSetVarItem.currProps)) result.results m
    some (⟨.ok, results⟩, m)
  else some ({ result with result := .generic }, m)

/-- A service with its parameters and the result to write to. -/
inductive ServiceCall where
  | getVar (room : Bool) (params : KsGetVarParams) (result : KsGetVarResult)
  | setVar (room : Bool) (params : KsSetVarParams) (result : KsSetVarResult)
  | getEP (params : KsGetEPParams) (result : KsGetEPResult)

inductive ServiceReply where
  | getVar (result : KsGetVarResult)
  | setVar (result : KsSetVarResult)
  | getEP (result : KsGetEPResult)

/-- The call of a client with its ticket, and what the world is like at that time. -/
structure ClientCall where
  env : KssEnvironment
  ticket : KsAvTicket
  service : ServiceCall

def serve (m : KssMemory) (call : ClientCall) : Option (ServiceReply × KssMemory) :=
  match call.service with
  | .getVar room params result =>
      (getVar (⟨m, call.env, 0⟩ : KssHandle) call.ticket room params result).map fun r =>
        (.getVar r, m)
  | .setVar room params result =>
      (setVar m call.env call.ticket room params result).map fun r => (.setVar r.1, r.2)
  | .getEP params result =>
      (getEP (⟨m, call.env, 0⟩ : KssHandle) call.ticket params result).map fun r => (.getEP r, m)

/-- Calls one after the other; nothing if one of them leaves its memory. -/
def serveAll : KssMemory → List ClientCall → Option (List ServiceReply × KssMemory)
  | m, [] => some ([], m)
  | m, call :: calls => do
      let (reply, m) ← serve m call
      let (replies, m) ← serveAll m calls
      some (reply :: replies, m)

end KsSimpleServer

/-- What a write replaces in a variable. -/
structure KssRegister where
  value : Option KsValue
  time : PltTime
  state : UInt32
  deriving DecidableEq

namespace KssSimpleVariable

def withRegister (var : KssSimpleVariable) (r : KssRegister) : KssSimpleVariable :=
  { var with value := r.value, time := r.time, state := r.state }

def register (var : KssSimpleVariable) : KssRegister := ⟨var.value, var.time, var.state⟩

/-- What is written to a variable that is offered these properties, or the error. -/
def accepts (var : KssSimpleVariable) : Option KsCurrProps → Except KsResultCode KssRegister
  | some (.var value time state) =>
      if var.isWriteable then .ok ⟨value, time, state⟩ else .error .noAccess
  | _ => .error .badType

/-- A variable takes what it accepts, all of it, and is left as it is otherwise. -/
theorem setCurrProps_eq (var : KssSimpleVariable) (props : Option KsCurrProps) :
    var.setCurrProps props = match var.accepts props with
      | .ok r => (.ok, var.withRegister r)
      | .error res => (res, var) := by
  rcases props with _ | ⟨value, time, state⟩ | _
  · rfl
  · have hno : KsResultCode.noAccess ≠ KsResultCode.ok := by decide
    cases hwrite : var.isWriteable with
    | false => simp [setCurrProps, setValue, accepts, hwrite, hno]
    | true =>
      have hvalue : ({ var with value } : KssSimpleVariable).isWriteable = true := hwrite
      have htime : ({ var with value, time } : KssSimpleVariable).isWriteable = true := hwrite
      simp [setCurrProps, setValue, setTime, setState, accepts, withRegister, hwrite, hvalue, htime]
  · rfl

end KssSimpleVariable

namespace KssObject

def withRegister : KssObject → KssRegister → KssObject
  | simpleVariable common var, r => simpleVariable common (var.withRegister r)
  | ioStatisticsVariable common var statType, r =>
      ioStatisticsVariable common (var.withRegister r) statType
  | obj, _ => obj

def register : KssObject → KssRegister
  | simpleVariable _ var | ioStatisticsVariable _ var _ => var.register
  | _ => ⟨none, ⟨0, 0⟩, 0⟩

def accepts : KssObject → Option KsCurrProps → Except KsResultCode KssRegister
  | simpleVariable _ var, props | ioStatisticsVariable _ var _, props => var.accepts props
  | timeNowVariable _, some (.var ..) => .error .noAccess
  | simpleLinkAlias .., _ => .error .noAccess
  | _, _ => .error .badType

theorem withRegister_register (obj : KssObject) : obj.withRegister obj.register = obj := by
  cases obj <;> rfl

theorem withRegister_withRegister (obj : KssObject) (r r' : KssRegister) :
    (obj.withRegister r).withRegister r' = obj.withRegister r' := by
  cases obj <;> rfl

theorem accepts_withRegister (obj : KssObject) (r : KssRegister) (props : Option KsCurrProps) :
    (obj.withRegister r).accepts props = obj.accepts props := by
  cases obj <;> rcases props with _ | (_ | _) <;> rfl

theorem typeCode_withRegister (obj : KssObject) (r : KssRegister) :
    (obj.withRegister r).typeCode = obj.typeCode := by
  cases obj <;> rfl

/-- A domain accepts nothing, and the other objects take what they accept. -/
theorem setCurrProps_cases (obj : KssObject) (props : Option KsCurrProps) :
    (¬ (obj.typeCode = KsObjType.var ∨ obj.typeCode = KsObjType.link) ∧
        obj.accepts props = .error .badType) ∨
      (obj.typeCode = KsObjType.var ∨ obj.typeCode = KsObjType.link) ∧
        obj.setCurrProps props = match obj.accepts props with
          | .ok r => (.ok, obj.withRegister r)
          | .error res => (res, obj) := by
  cases obj with
  | simpleDomain => exact Or.inl ⟨by simp [typeCode, KsObjType.domain, KsObjType.var,
      KsObjType.link], rfl⟩
  | simpleVariable common var =>
    refine Or.inr ⟨Or.inl rfl, ?_⟩
    simp only [setCurrProps, accepts, var.setCurrProps_eq]
    cases var.accepts props <;> rfl
  | ioStatisticsVariable common var statType =>
    refine Or.inr ⟨Or.inl rfl, ?_⟩
    simp only [setCurrProps, accepts, var.setCurrProps_eq]
    cases var.accepts props <;> rfl
  | timeNowVariable =>
    refine Or.inr ⟨Or.inl rfl, ?_⟩
    rcases props with _ | (_ | _) <;> rfl
  | simpleLinkAlias => exact Or.inr ⟨Or.inr rfl, rfl⟩

end KssObject

end AcpltKs
