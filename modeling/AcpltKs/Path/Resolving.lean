import AcpltKs.Library.NodeLists
import AcpltKs.Path.Client

/-! Resource locators of the client, and how relative paths are resolved against them. -/
namespace AcpltKs
open Function

inductive KscPathType where
  | invalid
  | resourceLocator
  | host
  | hostServer
  | pathOnly
  deriving DecidableEq

structure KscPathParser where
  pathType : KscPathType
  hostserver : KsString
  fullPath : KscPath
  deriving DecidableEq

def isNameChar (c : UInt8) : Bool := c ≠ 0 && c ≠ slashChar && c ≠ dotChar

/-- The index of the first slash from `i` on, or of the end. -/
def nextSlash (str : KsString) (i : ℕ) : ℕ :=
  i + ((str.drop i).takeWhile fun c => c ≠ 0 && c ≠ slashChar).length

/-- The index behind the characters of a name. -/
def nameEnd (str : KsString) (i : ℕ) : ℕ := i + ((str.drop i).takeWhile isNameChar).length

namespace KscPathParser

/-- The type of a locator, with the string of host and server and the index of the path. -/
def parseResourceLocator (str : KsString) : KscPathType × KsString × ℕ :=
  if charAt str 0 ≠ slashChar then (.invalid, [], 0)
  else if charAt str 1 ≠ slashChar then (.pathOnly, [], 0)
  else if charAt str 2 = 0 then (.invalid, [], 0)
  else
    let p := nextSlash str 3
    if charAt str p = 0 then (.host, str, 0)
    else if charAt str (p + 1) = 0 then (.invalid, [], 0)
    else
      let p := nextSlash str (p + 2)
      if charAt str p = 0 then (.hostServer, str, 0)
      else (.resourceLocator, str.take p, p)

/-- Without a path, the number of its components is left as it was found in memory. -/
def ofString (str : KsString) (undefined : ℕ) : KscPathParser :=
  let str := cString str
  let (pathType, hostserver, pathStartIndex) := parseResourceLocator str
  if pathType = .resourceLocator ∨ pathType = .pathOnly then
    let fullPath := KscPath.ofString (str.drop pathStartIndex)
    if fullPath.valid then ⟨pathType, hostserver, fullPath⟩
    else ⟨.invalid, hostserver, .ofString str⟩
  else if pathType = .invalid then ⟨.invalid, hostserver, .ofString str⟩
  else ⟨pathType, hostserver, ⟨[], false, undefined, 0⟩⟩

/-- The locator as a string. -/
def toKsString (parser : KscPathParser) : KsString :=
  match parser.pathType with
  | .host | .hostServer => parser.hostserver
  | .resourceLocator => concat parser.hostserver parser.fullPath.str
  | _ => parser.fullPath.str

end KscPathParser

/-- A component on the stack: where its separator is, its length with the separator, and whether it
follows the component before. -/
structure KscPPComponent where
  prev : Option ℕ
  next : Option ℕ
  p : ℕ
  len : ℕ
  joinWithPrevious : Bool
  deriving DecidableEq

/-- The place in the path to be resolved. -/
structure PathCursor where
  sz : ℕ
  p : ℕ
  dotAllowed : Bool
  canBeJoined : Bool
  deriving DecidableEq

/-- What stands at a place in the path: this level, the next higher one, or a name. -/
inductive PathReading where
  | stay
  | up
  | name (p len : ℕ) (joinWithPrevious : Bool)
  deriving DecidableEq

/-- Behind a `.` or `..`. -/
def PathCursor.behindPoints (str : KsString) (p : ℕ) : PathCursor :=
  ⟨p, if charAt str p ≠ 0 then p + 1 else p, true, false⟩

/-- The name from `p` on, with its separator at `sz`. -/
def readName (str : KsString) (cursor : PathCursor) : PathReading × PathCursor :=
  let p := nameEnd str cursor.p
  (.name cursor.sz (p - cursor.sz) cursor.canBeJoined,
    ⟨p, if charAt str p ≠ 0 then p + 1 else p, cursor.dotAllowed, true⟩)

/-- One component of the path; nothing if the path is invalid. -/
def readComponent (str : KsString) (cursor : PathCursor) : Option (PathReading × PathCursor) :=
  let p := cursor.p
  if charAt str p = dotChar then
    if charAt str (p + 1) = slashChar then some (.stay, .behindPoints str (p + 1))
    else if charAt str (p + 1) = dotChar then
      if charAt str (p + 2) ≠ slashChar ∧ charAt str (p + 2) ≠ 0 then none
      else some (.up, .behindPoints str (p + 2))
    else if !cursor.dotAllowed then none
    else if charAt str (p + 1) = 0 then none
    else some (readName str ⟨p, p + 1, false, cursor.canBeJoined⟩)
  else some (readName str cursor)

structure ResolveState where
  cursor : PathCursor
  keepComponents : ℕ
  stackTop : Option ℕ
  stackBottom : Option ℕ
  nodes : ℕ → Option KscPPComponent
  next : ℕ

namespace ResolveState

def start (keepComponents : ℕ) : ResolveState where
  cursor := ⟨0, 0, true, false⟩
  keepComponents := keepComponents
  stackTop := none
  stackBottom := none
  nodes := fun _ => none
  next := 0

/-- Go up one level: a component is taken off the stack, or one less is kept of the locator. -/
def pop (s : ResolveState) : Option ResolveState :=
  match s.stackTop with
  | some comp => do
      let c ← s.nodes comp
      some { s with
        stackTop := c.prev
        stackBottom := if c.prev = none then none else s.stackBottom
        nodes := update s.nodes comp none }
  | none => some { s with keepComponents := s.keepComponents - 1 }

/-- Put a component on top of the stack. -/
def push (s : ResolveState) (p len : ℕ) (joinWithPrevious : Bool) : Option ResolveState :=
  let comp := s.next
  let s := { s with
    next := s.next + 1
    stackBottom := if s.stackBottom = none then some comp else s.stackBottom }
  match s.stackTop with
  | none => some { s with
      nodes := update s.nodes comp (some ⟨none, none, p, len, joinWithPrevious⟩)
      stackTop := some comp }
  | some top => do
      let t ← s.nodes top
      some { s with
        nodes := update (update s.nodes comp (some ⟨some top, none, p, len, joinWithPrevious⟩)) top
          (some { t with next := some comp })
        stackTop := some comp }

end ResolveState

/-- What the loop does for one component: it goes on, or an empty string is returned. Nothing if a
component is used that has been deleted. -/
def scanComponent (str : KsString) (room : ℕ → Bool) (s : ResolveState) :
    Option (Except ResolveState ResolveState) :=
  match readComponent str s.cursor with
  | none => some (.error s)
  | some (.stay, cursor) => some (.ok { s with cursor })
  | some (.up, cursor) => s.pop.map fun s => .ok { s with cursor }
  | some (.name p len joinWithPrevious, cursor) =>
      if room s.next then (s.push p len joinWithPrevious).map fun s => .ok { s with cursor }
      else some (.error s)

def scan (str : KsString) (room : ℕ → Bool) : ℕ → ResolveState →
    Option (Except ResolveState ResolveState)
  | 0, _ => none
  | fuel + 1, s =>
      if charAt str s.cursor.p = 0 then some (.ok s)
      else do
        match ← scanComponent str room s with
        | .ok s => scan str room fuel s
        | .error s => some (.error s)

/-- The index behind the next `n` components of a path; nothing if it lies behind the string. -/
def componentsEnd (path : KsString) : ℕ → ℕ → Option ℕ
  | 0, sz => some sz
  | n + 1, sz => if sz < path.length then componentsEnd path n (nameEnd path (sz + 1)) else none

/-- The part of the path that is kept. -/
def keptPath (fullPath : KscPath) (keepComponents : ℕ) : Option KsString :=
  if keepComponents = 0 then some []
  else
    let path := cString fullPath.str
    if path = [] then none
    else do
      let sz ← componentsEnd path keepComponents (if charAt path 1 = dotChar then 1 else 0)
      some (substr fullPath.str 0 (some sz))

/-- Components that follow those before are taken off the stack in one run. -/
def swallow : ℕ → Option ℕ → (ℕ → Option KscPPComponent) → ℕ →
    Option (Option ℕ × (ℕ → Option KscPPComponent) × ℕ)
  | 0, _, _, _ => none
  | _ + 1, none, nodes, len => some (none, nodes, len)
  | fuel + 1, some comp, nodes, len => do
      let c ← nodes comp
      if c.joinWithPrevious then swallow fuel c.next (update nodes comp none) (len + c.len)
      else some (some comp, nodes, len)

/-- What is added to the path first for a component with this separator. -/
def leadingSlash (keepComponents : ℕ) (separator : UInt8) : KsString :=
  (if keepComponents = 0 ∧ separator = dotChar then [slashChar] else []) ++
    if separator ≠ slashChar ∧ separator ≠ dotChar then [slashChar] else []

/-- Add the components of the stack to the path. -/
def addComponents (str : KsString) : ℕ → ℕ → Option ℕ → (ℕ → Option KscPPComponent) → KsString →
    Option (KsString × (ℕ → Option KscPPComponent))
  | 0, _, _, _, _ => none
  | _ + 1, _, none, nodes, final => some (final, nodes)
  | fuel + 1, keepComponents, some comp, nodes, final => do
      let c ← nodes comp
      let final := final ++ leadingSlash keepComponents (charAt str c.p)
      let (stackBottom, nodes, len) ← swallow (fuel + 1) c.next (update nodes comp none) c.len
      addComponents str fuel (max keepComponents 1) stackBottom nodes
        (final ++ (str.drop c.p).take len)

namespace KscPathParser

/-- A relative path is resolved; with the components that are left over. -/
def resolveRelative (parser : KscPathParser) (room : ℕ → Bool) (str : KsString) :
    Option (KsString × (ℕ → Option KscPPComponent)) := do
  match ← scan str room (str.length + 1) (.start parser.fullPath.countComponents) with
  | .error s => some ([], s.nodes)
  | .ok s =>
      let kept ← keptPath parser.fullPath s.keepComponents
      addComponents str (s.next + 1) s.keepComponents s.stackBottom s.nodes
        (parser.hostserver ++ kept)

def resolve (parser : KscPathParser) (room : ℕ → Bool) (str : KsString) :
    Option (KsString × (ℕ → Option KscPPComponent)) :=
  let str := cString str
  if charAt str 0 = slashChar then
    if charAt str 1 = slashChar then some (str.drop 1, fun _ => none)
    else if parser.pathType = .resourceLocator ∨ parser.pathType = .hostServer then
      some (parser.hostserver ++ str.drop 1, fun _ => none)
    else some ([], fun _ => none)
  else if parser.pathType = .invalid ∨ parser.pathType = .host then some ([], fun _ => none)
  else if str = [] then some (parser.toKsString, fun _ => none)
  else parser.resolveRelative room str

end KscPathParser
end AcpltKs
