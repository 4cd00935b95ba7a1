import AcpltKs.Path.Basic
import AcpltKs.Props

/-! The simple server: the objects it serves as seen through their virtual functions, and how it
reads, writes and lists them on behalf of a client with an access ticket. -/
namespace AcpltKs

namespace KsPath

def isSingle (p : KsPath) : Bool := p.size = 1

end KsPath

/-- The communication objects of a server. Identifiers are compared as null-terminated strings. An
iterator may be missing, and it may return handles that are not bound. -/
class KssCommObject (Obj : Type*) where
  typeCode : Obj → KsObjType
  getIdentifier : Obj → KsString
  /-- The engineered properties; nothing if the handle is not bound. -/
  getEP : Obj → Option KsEngProps
  getChildById : Obj → KsString → Option Obj
  newMaskedIterator : Obj → KsString → KsObjType → Option (List (Option Obj))
  /-- The domain whose children a link has. -/
  aliasDomain : Obj → Obj
  getCurrProps : Obj → KsResultCode × Option KsCurrProps
  setCurrProps : Obj → Option KsCurrProps → KsResultCode × Obj

/-- What a ticket allows. -/
structure KsAvTicket where
  canReadVar : KsString → Bool
  canWriteVar : KsString → Bool
  isVisible : KsString → Bool

def KsAvTicket.getAccess (ticket : KsAvTicket) (name : KsString) : KsAccess :=
  (if ticket.canReadVar name then KsAccess.read else KsAccess.none) |||
    (if ticket.canWriteVar name then KsAccess.write else KsAccess.none)

structure KsGetEPParams where
  path : KsString
  typeMask : KsObjType
  nameMask : KsString
  scopeFlags : UInt32
  deriving DecidableEq

/-- A result of a service and the items that go with it. -/
structure KsGetEPResult where
  result : KsResultCode
  items : List KsEngProps
  deriving DecidableEq

structure KsGetVarItemResult where
  result : KsResultCode
  item : Option KsCurrProps
  deriving DecidableEq

namespace KsSimpleServer
variable {Obj : Type*} [KssCommObject Obj]
open KssCommObject (typeCode getIdentifier getChildById newMaskedIterator aliasDomain getCurrProps
  setCurrProps)

/-- `KssHistoryDomain::getChildByPath`: there are no grandchildren. -/
def historyChildByPath (history : Obj) (path : KsPath) : Option Obj := do
  let hc ← getChildById history (cString path.getHead)
  if path.isSingle then some hc else none

/-- `KssDomain::getChildByPath` for a path of at most `n` components. -/
def domainChildByPath : ℕ → Obj → KsPath → Option Obj
  | 0, _, _ => none
  | n + 1, domain, path => do
      let hc ← getChildById domain (cString path.getHead)
      if path.isSingle then some hc
      else if typeCode hc = KsObjType.domain then domainChildByPath n hc path.getTail
      else if typeCode hc = KsObjType.link then domainChildByPath n (aliasDomain hc) path.getTail
      else if typeCode hc = KsObjType.history then historyChildByPath hc path.getTail
      else none

def getChildByPath (domain : Obj) (path : KsPath) : Option Obj :=
  domainChildByPath path.size domain path

/-- The objects that have current properties. -/
def hasCurrProps (obj : Obj) : Prop :=
  typeCode obj = KsObjType.var ∨ typeCode obj = KsObjType.link

instance (obj : Obj) : Decidable (hasCurrProps obj) :=
  inferInstanceAs (Decidable (_ ∨ _))

/-- Read one variable. -/
def getVarItem (rootDomain : Obj) (ticket : KsAvTicket) (path : KsPath)
    (result : KsGetVarItemResult) : KsGetVarItemResult :=
  if ticket.canReadVar path.toPltString then
    match getChildByPath rootDomain path with
    | some hobj =>
        if hasCurrProps hobj then ⟨(getCurrProps hobj).1, (getCurrProps hobj).2⟩
        else { result with result := .badType }
    | none => { result with result := .badPath }
  else { result with result := .noAccess }

/-- Write one variable; the object that has been changed is returned along with the result. -/
def setVarItem (rootDomain : Obj) (ticket : KsAvTicket) (path : KsPath)
    (currProps : Option KsCurrProps) : KsResultCode × Option Obj :=
  if ticket.canWriteVar path.toPltString then
    match getChildByPath rootDomain path with
    | some hobj =>
        if hasCurrProps hobj then
          ((setCurrProps hobj currProps).1, some (setCurrProps hobj currProps).2)
        else (.badType, none)
    | none => (.badPath, none)
  else (.noAccess, none)

/-- What the ticket lets pass of the engineered properties of the child `childname`. -/
def restrictEP (ticket : KsAvTicket) (childname : KsString) (hep : KsEngProps) : KsEngProps :=
  { hep with
    accessMode := hep.accessMode &&& (ticket.getAccess childname ||| ~~~KsAccess.readWrite)
    identifier := ksStringToPercent hep.identifier }

/-- One turn of the loop over the children. -/
def getEPOfChild (pre : KsString) (ticket : KsAvTicket) : Option Obj → List KsEngProps
  | none => []
  | some child =>
      let childname := concat pre (getIdentifier child)
      if ticket.isVisible childname then
        ((KssCommObject.getEP child).map (restrictEP ticket childname)).toList
      else []

def getEPOfObject (pobj : Obj) (pre : KsString) (ticket : KsAvTicket)
    (params : KsGetEPParams) (result : KsGetEPResult) : KsGetEPResult :=
  if cString params.nameMask = [] then
    match KssCommObject.getEP pobj with
    | some h => { result := .ok, items := result.items ++ [h] }
    | none => { result with result := .generic }
  else if typeCode pobj = KsObjType.domain ∨ typeCode pobj = KsObjType.link ∨
      typeCode pobj = KsObjType.history then
    match ksStringFromPercent params.nameMask with
    | .error res => { result with result := res }
    | .ok mask =>
        match newMaskedIterator pobj mask params.typeMask with
        | some it =>
            { result := .ok, items := result.items ++ it.flatMap (getEPOfChild pre ticket) }
        | none => { result with result := .ok }
  else { result with result := .badPath }

/-- The object a query is about, and what its children's paths begin with. -/
def getEPTarget (rootDomain : Obj) (params : KsGetEPParams) (path : KsPath) :
    Option Obj × KsString :=
  if cString params.path = [slashChar] then (some rootDomain, params.path)
  else (getChildByPath rootDomain path, concat path.toPltString [slashChar])

/-- The service; nothing if parsing the path leaves its memory. -/
def getEP (rootDomain : Obj) (ticket : KsAvTicket) (params : KsGetEPParams)
    (result : KsGetEPResult) : Option KsGetEPResult := do
  let path ← KsPath.ofString params.path
  if path.valid ∧ path.isAbsolute then
    match path.decodePercents with
    | (convres, path) =>
        if convres = KsResultCode.ok then
          if ticket.isVisible path.toPltString then
            match getEPTarget rootDomain params path with
            | (some pd, pre) => some (getEPOfObject pd pre ticket params result)
            | (none, _) => some { result with result := .badPath }
          else some { result with result := .noAccess }
        else some { result with result := convres }
  else some { result with result := .badName }

end KsSimpleServer

end AcpltKs
