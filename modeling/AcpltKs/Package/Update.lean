import AcpltKs.Package.Basic
import AcpltKs.Service.Params

/-! Updates of variables and packages: what the replies of the servers are copied back to. -/
namespace AcpltKs

/-- The variable objects of the client. -/
abbrev KscMemory := KscVariableHandle → KscVariable

/-- Replies that have been accepted by the decoder of the result. -/
abbrev KsGetVarReply := KsGetVarResult.xdrDecode.Accepted
abbrev KsSetVarReply := KsSetVarResult.xdrDecode.Accepted
abbrev KsExgDataReply := KsExgDataResult.xdrDecode.Accepted

/-- The current properties of a variable, if it is these that have been received. -/
def KsGetVarItemResult.varCurrProps (item : KsGetVarItemResult) : Option KsVarCurrProps :=
  match item.item with
  | some (.var value time state) => some ⟨value, time, state⟩
  | _ => none

def KscVariable.setCurrProps (v : KscVariable) (cp : KsVarCurrProps) : KscVariable :=
  { v with currProps := cp, dirty := true }

namespace KscPackageBase

/-- The loop body of `copyGetVarResults`. An item that is a success has a bound handle wherever it
has been decoded; the cast of an unbound one gives null only with the RTTI of the compiler. -/
def copyGetVarResult (item : KsGetVarItemResult) (v : KscVariable) : Bool × KscVariable :=
  if item.result = .ok then
    match item.varCurrProps with
    | some cp => (true, { v.setCurrProps cp with dirty := false, lastResult := .ok })
    | none => (false, { v with lastResult := .typeMismatch })
  else (false, { v with lastResult := item.result })

/-- The loop is bounded by the items; nothing if it leaves the array of the variables. -/
def copyGetVarResults : List KscVariableHandle → List KsGetVarItemResult → KscMemory →
    Option (Bool × KscMemory)
  | _, [], vars => some (true, vars)
  | [], _ :: _, _ => none
  | var :: sortedVars, item :: res, vars =>
      let (ok, v) := copyGetVarResult item (vars var)
      (copyGetVarResults sortedVars res (Function.update vars var v)).map fun r => (ok && r.1, r.2)

/-- The loop body of `copySetVarResults`. -/
def copySetVarResult (result : KsResultCode) (v : KscVariable) : Bool × KscVariable :=
  if result = .ok then (true, { v with lastResult := result, dirty := false })
  else (false, { v with lastResult := result })

/-- The loop is bounded by the variables; nothing if it leaves the array of the results. -/
def copySetVarResults : List KscVariableHandle → List KsResultCode → KscMemory →
    Option (Bool × KscMemory)
  | [], _, vars => some (true, vars)
  | _ :: _, [], _ => none
  | var :: sortedVars, result :: res, vars =>
      let (ok, v) := copySetVarResult result (vars var)
      (copySetVarResults sortedVars res (Function.update vars var v)).map fun r => (ok && r.1, r.2)

def distributeErrorResult (result : KsResultCode) (sortedVars : List KscVariableHandle)
    (vars : KscMemory) : KscMemory :=
  sortedVars.foldl
    (fun vars var => Function.update vars var { vars var with lastResult := result }) vars

end KscPackageBase

namespace KscVariable

/-- `getUpdate` with the reply; nothing if there is no item, or if its handle is not bound. -/
def getUpdate (v : KscVariable) (reply : KsGetVarReply) : Option (Bool × KscVariable) :=
  if reply.1.result = .ok then
    match reply.1.items with
    | [] => none
    | pitem :: _ =>
        if pitem.result = .ok then
          match pitem.item with
          | none => none
          | some (.var value time state) =>
              some (true, { v with
                currProps := ⟨value, time, state⟩
                dirty := false
                lastResult := .ok })
          | some .domain => some (false, { v with lastResult := .typeMismatch })
        else some (false, { v with lastResult := pitem.result })
  else some (false, { v with lastResult := reply.1.result })

/-- `setUpdate` with the reply; nothing if there is no result in it. -/
def setUpdate (v : KscVariable) (reply : KsSetVarReply) : Option (Bool × KscVariable) :=
  if reply.1.result = .ok then
    match reply.1.results with
    | [] => none
    | result :: _ =>
        if result = .ok then some (true, { v with dirty := false, lastResult := .ok })
        else some (false, { v with lastResult := result })
  else some (false, { v with lastResult := reply.1.result })

end KscVariable

open KscPackageBase

/-- `getSimpleUpdate` with the reply. -/
def KscPackage.getSimpleUpdate (sortedVars : List KscVariableHandle) (reply : KsGetVarReply)
    (vars : KscMemory) : Option (Bool × KscMemory) :=
  if reply.1.result = .ok then copyGetVarResults sortedVars reply.1.items vars
  else some (false, distributeErrorResult reply.1.result sortedVars vars)

/-- `setSimpleUpdate` with the reply. -/
def KscPackage.setSimpleUpdate (sortedVars : List KscVariableHandle) (reply : KsSetVarReply)
    (vars : KscMemory) : Option (Bool × KscMemory) :=
  if reply.1.result = .ok then copySetVarResults sortedVars reply.1.results vars
  else some (false, distributeErrorResult reply.1.result sortedVars vars)

/-- `doSimpleExchange` with the reply. -/
def KscExchangePackage.finishExchange (getVars setVars : List KscVariableHandle)
    (reply : KsExgDataReply) (vars : KscMemory) : Option (Bool × KscMemory) :=
  if reply.1.result = .ok then
    (copyGetVarResults getVars reply.1.items vars).bind fun (ok, vars) =>
      (copySetVarResults setVars reply.1.results vars).map fun r => (ok && r.1, r.2)
  else
    some (false, distributeErrorResult reply.1.result getVars
      (distributeErrorResult reply.1.result setVars vars))

/-- A request of a client, with what has become of it. -/
inductive KscRequest where
  | getVariable (var : KscVariableHandle) (reply : KsGetVarReply)
  | setVariable (var : KscVariableHandle) (reply : KsSetVarReply)
  | getVars (sortedVars : List KscVariableHandle) (reply : KsGetVarReply)
  | setVars (sortedVars : List KscVariableHandle) (reply : KsSetVarReply)
  | exchange (getVars setVars : List KscVariableHandle) (reply : KsExgDataReply)
  /-- It has failed on the communication level, with the last result of the server object. -/
  | failed (sortedVars : List KscVariableHandle) (lastResult : KsResultCode)

namespace KscRequest

/-- Copy the reply back. -/
def perform : KscRequest → KscMemory → Option (Bool × KscMemory)
  | .getVariable var reply, vars =>
      ((vars var).getUpdate reply).map fun r => (r.1, Function.update vars var r.2)
  | .setVariable var reply, vars =>
      ((vars var).setUpdate reply).map fun r => (r.1, Function.update vars var r.2)
  | .getVars sortedVars reply, vars => KscPackage.getSimpleUpdate sortedVars reply vars
  | .setVars sortedVars reply, vars => KscPackage.setSimpleUpdate sortedVars reply vars
  | .exchange gets sets reply, vars => KscExchangePackage.finishExchange gets sets reply vars
  | .failed sortedVars lastResult, vars =>
      some (false, distributeErrorResult lastResult sortedVars vars)

/-- The requests of an update, one after the other. -/
def performAll : List KscRequest → KscMemory → Option (Bool × KscMemory)
  | [], vars => some (true, vars)
  | request :: requests, vars =>
      (request.perform vars).bind fun (ok, vars) =>
        (performAll requests vars).map fun r => (ok && r.1, r.2)

end KscRequest

/-- What the server makes of the requests of an update, for the bucket they are made for: its
reply, or the last result of a server object that has failed to get one. -/
structure KscReplies where
  getVar : KscExchange → Except KsResultCode KsGetVarReply
  setVar : KscExchange → Except KsResultCode KsSetVarReply
  exgData : KscExchange → Except KsResultCode KsExgDataReply

namespace KscReplies

def getRequest (replies : KscReplies) (e : KscExchange) : KscRequest :=
  match replies.getVar e with
  | .ok reply => .getVars e.getVars reply
  | .error lastResult => .failed e.getVars lastResult

def setRequest (replies : KscReplies) (e : KscExchange) : KscRequest :=
  match replies.setVar e with
  | .ok reply => .setVars e.setVars reply
  | .error lastResult => .failed e.setVars lastResult

def exchangeRequest (replies : KscReplies) (e : KscExchange) : KscRequest :=
  match replies.exgData e with
  | .ok reply => .exchange e.getVars e.setVars reply
  | .error lastResult => .failed (e.setVars ++ e.getVars) lastResult

end KscReplies

/-- One request for each bucket of a sorter, with its variables sorted by their paths. -/
def KscSorter.exchanges (s : KscSorter)
    (exchange : KscSorterBucket → List KscVariableHandle → KscExchange) :
    Option (List KscExchange) :=
  s.buckets.mapM fun p => p.2.getSortedVars.map (exchange p.2)

section Updates
variable (replies : KscReplies) (qsort : List KscVariableHandle → List KscVariableHandle)

/-- `getUpdate` of a package; `PltSort` brings the variables of a request into order. -/
def KscPackage.getUpdate (client : KscClient) (pkg : KscPackage) : Option (Bool × KscMemory) := do
  let sorter ← KscSorter.create client pkg false none
  if sorter.valid then
    let exchanges ← sorter.exchanges fun bucket vars =>
      ⟨bucket.avModule, bucket.server, qsort vars, []⟩
    KscRequest.performAll (exchanges.map replies.getRequest) client.vars
  else some (false, client.vars)

def KscPackage.setUpdate (client : KscClient) (pkg : KscPackage) (force : Bool) :
    Option (Bool × KscMemory) := do
  let sorter ← KscSorter.create client pkg (!force) none
  if sorter.valid then
    let exchanges ← sorter.exchanges fun bucket vars =>
      ⟨bucket.avModule, bucket.server, [], qsort vars⟩
    KscRequest.performAll (exchanges.map replies.setRequest) client.vars
  else some (false, client.vars)

/-- A package without a module gets that of the exchange package for a while. -/
def KscExchangePackage.withModule (avModule : Option KscAvModule) (pkg : KscPackage) :
    KscPackage :=
  if pkg.avModule.isNone && avModule.isSome then pkg.setAvModule avModule else pkg

def KscExchangePackage.doExchange (client : KscClient) (avModule : Option KscAvModule)
    (getPkg setPkg : Option KscPackage) (force : Bool) : Option (Bool × KscMemory) :=
  match getPkg, setPkg with
  | none, none => some (true, client.vars)
  | some getPkg, none => (withModule avModule getPkg).getUpdate replies qsort client
  | none, some setPkg => (withModule avModule setPkg).setUpdate replies qsort client force
  | some getPkg, some setPkg => do
      let getSorter ← KscSorter.create client getPkg false (getPkg.avModule.or avModule)
      let setSorter ← KscSorter.create client setPkg (!force) (setPkg.avModule.or avModule)
      if getSorter.valid && setSorter.valid then
        let exchanges ← mergeSorters getSorter setSorter
        KscRequest.performAll (exchanges.map fun e => replies.exchangeRequest
          { e with getVars := qsort e.getVars, setVars := qsort e.setVars }) client.vars
      else some (false, client.vars)

end Updates
end AcpltKs
