import AcpltKs.Service.Values
import AcpltKs.SimpleServer.Sisters

/-! The memory of a simple server: the simple objects that it has been given, each at an address of
its own, and what their virtual functions do there. None of the domains has been given a next
sister, so all their children are in their own tables. -/
namespace AcpltKs

namespace KsState

def unknown : UInt32 := 1
def good : UInt32 := 4

end KsState

/-- `KS_LT_LOCAL_1_MANY` -/
def KsLinkType.localOneMany : UInt32 := 2

structure KssSimpleCommObject where
  identifier : KsString
  creationTime : PltTime
  comment : KsString
  semanticFlags : UInt32
  deriving DecidableEq

/-- What a simple variable has in addition; the handle of its value may be unbound. -/
structure KssSimpleVariable where
  accessMode : KsAccess
  techUnit : KsString
  value : Option KsValue
  time : PltTime
  state : UInt32
  deriving DecidableEq

namespace KssSimpleVariable

/-- A new variable can be read and written, and has no value yet. -/
def create (now : PltTime) : KssSimpleVariable :=
  ⟨KsAccess.readWrite, [], none, now, KsState.unknown⟩

def isWriteable (var : KssSimpleVariable) : Bool := var.accessMode &&& KsAccess.write ≠ 0

def lock (var : KssSimpleVariable) : KssSimpleVariable :=
  { var with accessMode := var.accessMode &&& ~~~KsAccess.write }

def unlock (var : KssSimpleVariable) : KssSimpleVariable :=
  { var with accessMode := var.accessMode ||| KsAccess.write }

def setValue (var : KssSimpleVariable) (value : Option KsValue) :
    KsResultCode × KssSimpleVariable :=
  if var.isWriteable then (.ok, { var with value }) else (.noAccess, var)

def setTime (var : KssSimpleVariable) (time : PltTime) : KsResultCode × KssSimpleVariable :=
  if var.isWriteable then (.ok, { var with time }) else (.noAccess, var)

def setState (var : KssSimpleVariable) (state : UInt32) : KsResultCode × KssSimpleVariable :=
  if var.isWriteable then (.ok, { var with state }) else (.noAccess, var)

/-- `KssVariable::setCurrProps`: the value first, and then the time and the state. -/
def setCurrProps (var : KssSimpleVariable) : Option KsCurrProps → KsResultCode × KssSimpleVariable
  | some (.var value time state) =>
      let (res, var) := var.setValue value
      if res = .ok then (res, ((var.setTime time).2.setState state).2) else (res, var)
  | _ => (.badType, var)

end KssSimpleVariable

/-- What a variable with statistics is about. -/
inductive KssIoStatisticType where
  | connectionCount
  | ioErrorCount
  | ioRxErrorCount
  | ioTxErrorCount
  | poolSize
  | poolUsed
  deriving DecidableEq

/-- The objects of the simple server; `_next_sister` is unbound in all domains. A child of a domain
is known by its address, and so is the domain that a link is an alias for. -/
inductive KssObject where
  | simpleDomain (common : KssSimpleCommObject) (classIdentifier : KsString)
      (children : KssChildren ℕ)
  | simpleVariable (common : KssSimpleCommObject) (var : KssSimpleVariable)
  | ioStatisticsVariable (common : KssSimpleCommObject) (var : KssSimpleVariable)
      (statType : KssIoStatisticType)
  | timeNowVariable (common : KssSimpleCommObject)
  | simpleLinkAlias (common : KssSimpleCommObject) (haliasDomain : ℕ) (aliasPath : KsString)

namespace KssObject

def common : KssObject → KssSimpleCommObject
  | simpleDomain common _ _ | simpleVariable common _ | ioStatisticsVariable common _ _
  | timeNowVariable common | simpleLinkAlias common _ _ => common

def getIdentifier (obj : KssObject) : KsString := obj.common.identifier

def typeCode : KssObject → KsObjType
  | simpleDomain .. => KsObjType.domain
  | simpleVariable .. | ioStatisticsVariable .. | timeNowVariable .. => KsObjType.var
  | simpleLinkAlias .. => KsObjType.link

def getComment : KssObject → KsString
  | timeNowVariable _ => [99, 117, 114, 114, 101, 110, 116, 32, 116, 105, 109, 101]
  | obj => obj.common.comment

def getAccessMode : KssObject → KsAccess
  | simpleVariable _ var | ioStatisticsVariable _ var _ => var.accessMode
  | _ => KsAccess.read

def getTechUnit : KssObject → KsString
  | simpleVariable _ var | ioStatisticsVariable _ var _ => var.techUnit
  | timeNowVariable _ => [85, 84, 67]
  | _ => []

/-- Current properties are written to the variable, if there is one. -/
def setCurrProps : KssObject → Option KsCurrProps → KsResultCode × KssObject
  | simpleVariable common var, props =>
      ((var.setCurrProps props).1, simpleVariable common (var.setCurrProps props).2)
  | ioStatisticsVariable common var statType, props =>
      ((var.setCurrProps props).1, ioStatisticsVariable common (var.setCurrProps props).2 statType)
  | timeNowVariable common, some (.var ..) => (.noAccess, timeNowVariable common)
  | timeNowVariable common, _ => (.badType, timeNowVariable common)
  | obj, _ => (.noAccess, obj)

end KssObject

/-- The clock and the counters that some variables read. -/
structure KssEnvironment where
  now : PltTime
  statistic : KssIoStatisticType → Int32

namespace KssObject

def getValue (env : KssEnvironment) : KssObject → Option KsValue
  | simpleVariable _ var => var.value
  | ioStatisticsVariable _ _ statType => some (.int (env.statistic statType))
  | timeNowVariable _ => some (.time env.now)
  | _ => none

def getTime (env : KssEnvironment) : KssObject → PltTime
  | simpleVariable _ var => var.time
  | _ => env.now

def getState : KssObject → UInt32
  | simpleVariable _ var | ioStatisticsVariable _ var _ => var.state
  | _ => KsState.good

/-- `KssVariable::getType`; the code of no value is that of the void value. -/
def getType (env : KssEnvironment) (obj : KssObject) : UInt32 :=
  (obj.getValue env).elim KsValue.void.xdrTypeCode KsValue.xdrTypeCode

def getEP (env : KssEnvironment) (obj : KssObject) : KsEngProps where
  identifier := obj.getIdentifier
  creationTime := obj.common.creationTime
  comment := obj.getComment
  accessMode := obj.getAccessMode
  semanticFlags := obj.common.semanticFlags
  variant := match obj with
    | simpleDomain _ classIdentifier _ => .domain classIdentifier
    | simpleLinkAlias .. => .link KsLinkType.localOneMany [] []
    | obj => .var obj.getTechUnit (obj.getType env)

end KssObject

/-- The objects that have ever been made. -/
structure KssMemory where
  objects : List KssObject

namespace KssMemory

def write (m : KssMemory) (a : ℕ) (obj : KssObject) : KssMemory := ⟨m.objects.set a obj⟩

/-- A new object and its address. -/
def allocate (m : KssMemory) (obj : KssObject) : ℕ × KssMemory :=
  (m.objects.length, ⟨m.objects ++ [obj]⟩)

/-- The own children of a domain. -/
def children (m : KssMemory) (a : ℕ) : Option (KssChildren ℕ) :=
  match m.objects[a]? with
  | some (.simpleDomain _ _ children) => some children
  | _ => none

/-- The domain whose children an object gives access to: itself, or the one it is an alias for. -/
def container (m : KssMemory) (a : ℕ) : Option ℕ :=
  match m.objects[a]? with
  | some (.simpleDomain ..) => some a
  | some (.simpleLinkAlias _ haliasDomain _) => some haliasDomain
  | _ => none

/-- A child of a domain by its identifier; there is no sister to ask. -/
def childOf (m : KssMemory) (d : ℕ) (id : KsString) : Option ℕ :=
  (m.children d).bind fun children => (children.query ⟨id⟩).join.join

/-- The handles of the children of a domain, in the order of the iterator. -/
def handles (m : KssMemory) (d : ℕ) : List (Option ℕ) :=
  (m.children d).elim [] fun children => children.iterate.map Prod.snd

/-- The identifier of the object at an address. -/
def identifierAt (m : KssMemory) (a : ℕ) : KsString :=
  (m.objects[a]?).elim [] KssObject.getIdentifier

def typeCodeAt (m : KssMemory) (a : ℕ) : KsObjType := (m.objects[a]?).elim 0 KssObject.typeCode

/-- What a link says about a child of its domain. -/
def linkEntry (aliasPath id : KsString) : KsString :=
  if aliasPath.length ≠ 0 then concat (concat aliasPath [slashChar]) id else id

/-- The value of a link is the identifiers of the children of its domain. -/
def linkValue (m : KssMemory) (haliasDomain : ℕ) (aliasPath : KsString) : KsValue :=
  .stringVec ((m.handles haliasDomain).reduceOption.map fun a =>
    linkEntry aliasPath (m.identifierAt a))

def getCurrProps (m : KssMemory) (env : KssEnvironment) :
    KssObject → KsResultCode × Option KsCurrProps
  | .simpleLinkAlias _ haliasDomain aliasPath =>
      (.ok, some (.var (some (m.linkValue haliasDomain aliasPath)) env.now KsState.good))
  | obj =>
      match obj.getValue env with
      | some value => (.ok, some (.var (some value) (obj.getTime env) obj.getState))
      | none => (.generic, none)

/-- The test of the masked iterator; nothing if the matching of the name does not come to an end. -/
def isMatch (m : KssMemory) (nameMask : KsString) (typeMask : KsObjType) : Option ℕ → Option Bool
  | none => some false
  | some a =>
      if m.typeCodeAt a &&& typeMask ≠ 0 then
        (KsMask.doesMatch nameMask (m.identifierAt a) (nameMask.length + 1)).map (· == 1)
      else some false

/-- What the masked iterator yields; nothing if it does not come to an end. -/
def maskedHandles (m : KssMemory) (d : ℕ) (nameMask : KsString) (typeMask : KsObjType) :
    Option (List (Option ℕ)) :=
  if (m.handles d).all fun h => (m.isMatch nameMask typeMask h).isSome then
    some ((m.handles d).filter fun h => m.isMatch nameMask typeMask h == some true)
  else none

end KssMemory

/-- An object, with the memory that it lives in and the world around. -/
structure KssHandle where
  memory : KssMemory
  env : KssEnvironment
  address : ℕ

namespace KssHandle

def object (h : KssHandle) : Option KssObject := h.memory.objects[h.address]?

instance : KssCommObject KssHandle where
  typeCode h := h.memory.typeCodeAt h.address
  getIdentifier h := h.memory.identifierAt h.address
  getEP h := h.object.map (KssObject.getEP h.env)
  getChildById h id :=
    (h.memory.container h.address).bind fun d =>
      (h.memory.childOf d id).map (⟨h.memory, h.env, ·⟩)
  newMaskedIterator h nameMask typeMask :=
    (h.memory.container h.address).bind fun d =>
      (h.memory.maskedHandles d nameMask typeMask).map fun handles =>
        handles.map fun handle => handle.map (⟨h.memory, h.env, ·⟩)
  aliasDomain h := { h with address := (h.memory.container h.address).getD h.address }
  getCurrProps h := h.object.elim (.generic, none) (h.memory.getCurrProps h.env)
  setCurrProps h props :=
    h.object.elim (.generic, h) fun obj =>
      ((obj.setCurrProps props).1,
        { h with memory := h.memory.write h.address (obj.setCurrProps props).2 })

end KssHandle

end AcpltKs
