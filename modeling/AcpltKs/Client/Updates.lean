import AcpltKs.Client.LossyLink
import AcpltKs.Package.Update

/-! Variables and packages that a client brings up to date: the server objects make the requests,
and what becomes of them is handed to the variables. -/
namespace AcpltKs
open KscPackageBase

/-- What the handle of the current properties is bound to. -/
def KsVarCurrProps.toCurrProps (cp : KsVarCurrProps) : KsCurrProps := .var cp.value cp.time cp.state

/-- What an update has come to: the server, whether it is known to have written, the variables that
it has been asked to write as they were then and as they are afterwards, and the variables that it
has been asked for as they are afterwards. -/
structure KscEvent where
  server : KscServerBase
  written : Bool
  sent : List KscVariable
  told : List KscVariable
  shown : List KscVariable

/-- A request comes to a result, or to the last result of a server object that has failed. -/
abbrev KscOutcome := Except KsResultCode KsServiceResult

/-- Whether a result says that the variables have been written to. -/
def KscOutcome.written : KscOutcome → Bool
  | .ok (.setVar result) => result.result = .ok
  | .ok (.exgData result) => result.result = .ok
  | _ => false

/-- A request, its variables, and what its outcome does to them. -/
structure KscTransaction where
  server : KscServerBase
  request : ClientRequest
  getVars : List KscVariableHandle
  setVars : List KscVariableHandle
  finish : KscOutcome → KscMemory → Option (Bool × KscMemory)

namespace KscVariable

/-- `getUpdate` with the result that it has got. -/
def finishGet (v : KscVariable) (result : KsGetVarResult) : Option (Bool × KscVariable) :=
  if result.result = .ok then
    match result.items with
    | [] => none
    | pitem :: _ =>
        if pitem.result = .ok then
          match pitem.item with
          | none => none
          | some (.var value time state) =>
              some (true, { v with
                currProps := ⟨value, time, state⟩
                dirty := false
                lastResult := .ok })
          | some .domain => some (false, { v with lastResult := .typeMismatch })
        else some (false, { v with lastResult := pitem.result })
  else some (false, { v with lastResult := result.result })

/-- `setUpdate` with the result that it has got. -/
def finishSet (v : KscVariable) (result : KsSetVarResult) : Option (Bool × KscVariable) :=
  if result.result = .ok then
    match result.results with
    | [] => none
    | result :: _ =>
        if result = .ok then some (true, { v with dirty := false, lastResult := .ok })
        else some (false, { v with lastResult := result })
  else some (false, { v with lastResult := result.result })

end KscVariable

namespace KscTransaction

def event (t : KscTransaction) (outcome : KscOutcome) (vars vars' : KscMemory) : KscEvent :=
  ⟨t.server, outcome.written, t.setVars.map vars, t.setVars.map vars', t.getVars.map vars'⟩

/-- `fillGetVarParams` -/
def fillGetVarParams (vars : KscMemory) (sortedVars : List KscVariableHandle) : List KsString :=
  optimizePaths (sortedVars.map fun var => (vars var).pathAndName)

/-- `fillSetVarParams` -/
def fillSetVarParams (vars : KscMemory) (sortedVars : List KscVariableHandle) :
    List KsSetVarItem :=
  List.zipWith KsSetVarItem.mk (fillGetVarParams vars sortedVars)
    (sortedVars.map fun var => some (vars var).currProps.toCurrProps)

/-- `getUpdate` of a variable. A result of another class does not occur. -/
def getVariable (vars : KscMemory) (var : KscVariableHandle) : KscTransaction where
  server := (vars var).server
  request := ⟨(vars var).avModule, .getVar ⟨[(vars var).pathAndName.str]⟩,
    .getVar ⟨KsResult.blank, [.blank]⟩⟩
  getVars := [var]
  setVars := []
  finish
    | .ok (.getVar result), vars =>
        ((vars var).finishGet result).map fun r => (r.1, Function.update vars var r.2)
    | .ok _, _ => none
    | .error lastResult, vars => some (false, distributeErrorResult lastResult [var] vars)

/-- `setUpdate` of a variable. -/
def setVariable (vars : KscMemory) (var : KscVariableHandle) : KscTransaction where
  server := (vars var).server
  request := ⟨(vars var).avModule,
    .setVar ⟨[⟨(vars var).pathAndName.str, some (vars var).currProps.toCurrProps⟩]⟩,
    .setVar ⟨KsResult.blank, [KsResult.blank]⟩⟩
  getVars := []
  setVars := [var]
  finish
    | .ok (.setVar result), vars =>
        ((vars var).finishSet result).map fun r => (r.1, Function.update vars var r.2)
    | .ok _, _ => none
    | .error lastResult, vars => some (false, distributeErrorResult lastResult [var] vars)

def getSimpleUpdate (vars : KscMemory) (e : KscExchange) : KscTransaction where
  server := e.server
  request := ⟨e.avModule, .getVar ⟨fillGetVarParams vars e.getVars⟩, .getVar ⟨KsResult.blank, []⟩⟩
  getVars := e.getVars
  setVars := []
  finish
    | .ok (.getVar result), vars =>
        if result.result = .ok then copyGetVarResults e.getVars result.items vars
        else some (false, distributeErrorResult result.result e.getVars vars)
    | .ok _, _ => none
    | .error lastResult, vars => some (false, distributeErrorResult lastResult e.getVars vars)

def setSimpleUpdate (vars : KscMemory) (e : KscExchange) : KscTransaction where
  server := e.server
  request := ⟨e.avModule, .setVar ⟨fillSetVarParams vars e.setVars⟩,
    .setVar ⟨KsResult.blank, List.replicate e.setVars.length KsResult.blank⟩⟩
  getVars := []
  setVars := e.setVars
  finish
    | .ok (.setVar result), vars =>
        if result.result = .ok then copySetVarResults e.setVars result.results vars
        else some (false, distributeErrorResult result.result e.setVars vars)
    | .ok _, _ => none
    | .error lastResult, vars => some (false, distributeErrorResult lastResult e.setVars vars)

def doSimpleExchange (vars : KscMemory) (e : KscExchange) : KscTransaction where
  server := e.server
  request := ⟨e.avModule,
    .exgData ⟨fillSetVarParams vars e.setVars, fillGetVarParams vars e.getVars⟩,
    .exgData ⟨KsResult.blank, List.replicate e.setVars.length KsResult.blank,
      List.replicate e.getVars.length .blank⟩⟩
  getVars := e.getVars
  setVars := e.setVars
  finish
    | .ok (.exgData result), vars =>
        if result.result = .ok then
          (copyGetVarResults e.getVars result.items vars).bind fun r =>
            (copySetVarResults e.setVars result.results r.2).map fun s => (r.1 && s.1, s.2)
        else some (false, distributeErrorResult result.result e.getVars
          (distributeErrorResult result.result e.setVars vars))
    | .ok _, _ => none
    | .error lastResult, vars => some (false, distributeErrorResult lastResult e.getVars
        (distributeErrorResult lastResult e.setVars vars))

/-- The variables are told the same as by the replies of an update. -/
theorem finish_eq_perform (vars vars' : KscMemory) (var : KscVariableHandle) (e : KscExchange) :
    (∀ reply : KsGetVarReply, (getVariable vars var).finish (.ok (.getVar reply.1)) vars' =
      (KscRequest.getVariable var reply).perform vars') ∧
    (∀ reply : KsSetVarReply, (setVariable vars var).finish (.ok (.setVar reply.1)) vars' =
      (KscRequest.setVariable var reply).perform vars') ∧
    (∀ reply : KsGetVarReply, (getSimpleUpdate vars e).finish (.ok (.getVar reply.1)) vars' =
      (KscRequest.getVars e.getVars reply).perform vars') ∧
    (∀ reply : KsSetVarReply, (setSimpleUpdate vars e).finish (.ok (.setVar reply.1)) vars' =
      (KscRequest.setVars e.setVars reply).perform vars') ∧
    ∀ reply : KsExgDataReply, (doSimpleExchange vars e).finish (.ok (.exgData reply.1)) vars' =
      (KscRequest.exchange e.getVars e.setVars reply).perform vars' :=
  ⟨fun _ => rfl, fun _ => rfl, fun _ => rfl, fun _ => rfl, fun _ => rfl⟩

end KscTransaction

/-- A client with its variables and its server objects, and the servers that these lead to. -/
structure KscSystem (W : Type*) where
  vars : KscMemory
  servers : KscServerBase → KscServer
  world : W
  memories : KscServerBase → Option KssMemory
  fates : KscServerBase → List Fate
  log : List KscEvent

/-- What the application asks of its variables and packages. -/
inductive KscAction where
  | setCurrProps (var : KscVariableHandle) (cp : KsVarCurrProps)
  | getVariable (var : KscVariableHandle)
  | setVariable (var : KscVariableHandle)
  | getUpdate (pkg : KscPackage)
  | setUpdate (pkg : KscPackage) (force : Bool)
  | doExchange (avModule : Option KscAvModule) (getPkg setPkg : Option KscPackage) (force : Bool)

namespace KscSystem
variable {σ τ W : Type*} [XdrSource σ] [XdrSource τ] (links : KscServerBase → KssLink σ τ)
  (net : KscNetwork W KsServiceParams KsServiceResult)
  (qsort : List KscVariableHandle → List KscVariableHandle)

/-- The world as a server object sees it. -/
def linked (sys : KscSystem W) (server : KscServerBase) : Linked W :=
  ⟨sys.world, sys.memories server, sys.fates server⟩

/-- A server object and its world have changed. -/
def become (sys : KscSystem W) (server : KscServerBase) (s : KscServer) (w : Linked W) :
    KscSystem W :=
  { sys with
    servers := Function.update sys.servers server s
    world := w.world
    memories := Function.update sys.memories server w.memory
    fates := Function.update sys.fates server w.fates }

/-- The client as its packages see it. -/
def client (sys : KscSystem W) : KscClient where
  avModule := net.clientAvModule sys.world
  serverAvModule server := (sys.servers server).avModule
  vars := sys.vars

/-- Make a request, and hand its outcome to the variables. -/
def transact (t : KscTransaction) (sys : KscSystem W) : Option (Bool × KscSystem W) :=
  (KscServer.request ((links t.server).network net) (sys.servers t.server, sys.linked t.server)
    t.request).bind fun r =>
      let outcome : KscOutcome := if r.1.1 then .ok r.1.2 else .error r.2.1.lastResult
      (t.finish outcome sys.vars).map fun s =>
        (s.1, { sys.become t.server r.2.1 r.2.2 with
          vars := s.2
          log := sys.log ++ [t.event outcome sys.vars s.2] })

/-- One request after the other, whether they succeed or not. -/
def transactAll (transaction : KscMemory → KscExchange → KscTransaction) :
    List KscExchange → KscSystem W → Option (Bool × KscSystem W)
  | [], sys => some (true, sys)
  | e :: es, sys =>
      (transact links net (transaction sys.vars e) sys).bind fun r =>
        (transactAll transaction es r.2).map fun s => (r.1 && s.1, s.2)

def getUpdate (pkg : KscPackage) (sys : KscSystem W) : Option (Bool × KscSystem W) :=
  (KscSorter.create (sys.client net) pkg false none).bind fun sorter =>
    if sorter.valid then
      (sorter.exchanges fun bucket vars => ⟨bucket.avModule, bucket.server, qsort vars, []⟩).bind
        fun exchanges => transactAll links net KscTransaction.getSimpleUpdate exchanges sys
    else some (false, sys)

def setUpdate (pkg : KscPackage) (force : Bool) (sys : KscSystem W) :
    Option (Bool × KscSystem W) :=
  (KscSorter.create (sys.client net) pkg (!force) none).bind fun sorter =>
    if sorter.valid then
      (sorter.exchanges fun bucket vars => ⟨bucket.avModule, bucket.server, [], qsort vars⟩).bind
        fun exchanges => transactAll links net KscTransaction.setSimpleUpdate exchanges sys
    else some (false, sys)

/-- A request for the variables to read and those to write. -/
def exchangeBoth (getSorter setSorter : KscSorter) (sys : KscSystem W) :
    Option (Bool × KscSystem W) :=
  if getSorter.valid && setSorter.valid then
    (KscExchangePackage.mergeSorters getSorter setSorter).bind fun exchanges =>
      transactAll links net KscTransaction.doSimpleExchange (exchanges.map fun e =>
        { e with getVars := qsort e.getVars, setVars := qsort e.setVars }) sys
  else some (false, sys)

def doExchange (avModule : Option KscAvModule) (getPkg setPkg : Option KscPackage) (force : Bool)
    (sys : KscSystem W) : Option (Bool × KscSystem W) :=
  match getPkg, setPkg with
  | none, none => some (true, sys)
  | some getPkg, none =>
      sys.getUpdate links net qsort (KscExchangePackage.withModule avModule getPkg)
  | none, some setPkg =>
      sys.setUpdate links net qsort (KscExchangePackage.withModule avModule setPkg) force
  | some getPkg, some setPkg =>
      (KscSorter.create (sys.client net) getPkg false (getPkg.avModule.or avModule)).bind
        fun getSorter =>
          (KscSorter.create (sys.client net) setPkg (!force) (setPkg.avModule.or avModule)).bind
            fun setSorter => sys.exchangeBoth links net qsort getSorter setSorter

/-- `getUpdate` or `setUpdate` of a variable; nothing is asked for if its path is a bad one. -/
def updateVariable (transaction : KscMemory → KscVariableHandle → KscTransaction)
    (var : KscVariableHandle) (sys : KscSystem W) : Option (Bool × KscSystem W) :=
  if (sys.vars var).pathAndName.valid then transact links net (transaction sys.vars var) sys
  else some (false, { sys with
    vars := Function.update sys.vars var { sys.vars var with lastResult := .malformedPath } })

/-- What the application asks for; nothing if the client leaves its memory or a search does not
end. -/
def perform (sys : KscSystem W) : KscAction → Option (Bool × KscSystem W)
  | .setCurrProps var cp =>
      some (true, { sys with vars := Function.update sys.vars var ((sys.vars var).setCurrProps cp) })
  | .getVariable var => sys.updateVariable links net KscTransaction.getVariable var
  | .setVariable var => sys.updateVariable links net KscTransaction.setVariable var
  | .getUpdate pkg => sys.getUpdate links net qsort pkg
  | .setUpdate pkg force => sys.setUpdate links net qsort pkg force
  | .doExchange avModule getPkg setPkg force =>
      sys.doExchange links net qsort avModule getPkg setPkg force

end KscSystem
end AcpltKs
