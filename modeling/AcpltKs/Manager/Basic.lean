import Mathlib.Algebra.Order.Ring.Int
import Mathlib.Data.Int.ConditionallyCompleteOrder
import Mathlib.Data.List.AList
import AcpltKs.Library.GuardedRun
import AcpltKs.Plt.String

/-! The manager: the table of the servers that have registered, the objects for them below
`/servers`, and the timer events that mark a server dead and then remove it. -/
namespace AcpltKs

/-- A point in time, in microseconds. -/
abbrev KsTime := ℤ

/-- The time `secs` seconds from now on. -/
def KsTime.after (now : KsTime) (secs : ℕ) : KsTime := now + 1000000 * secs

structure KsServerDesc where
  name : KsString
  protocolVersion : UInt16

/-- What descriptions are compared by. -/
def KsServerDesc.key (d : KsServerDesc) : KsString × UInt16 := (cString d.name, d.protocolVersion)

structure KsRegistrationParams where
  server : KsServerDesc
  port : UInt16
  timeToLive : ℕ

inductive KsResult where
  | ok
  | badParam
  | generic
  | serverUnknown
  deriving DecidableEq

/-- What a successful request for a server reports. -/
structure KsGetServerResult where
  server : KsServerDesc
  port : UInt16
  expiresAt : KsTime
  living : Bool

/-- The registration object of a server. Pointers are references to objects of the manager. -/
structure KsmServer where
  desc : KsServerDesc
  port : UInt16
  expiresAt : KsTime
  timeToLive : ℕ
  living : Bool
  pevent : Option ℕ

structure KsmExpireServerEvent where
  triggerAt : KsTime
  pserver : Option ℕ

/-- What there is in a domain `/servers/<name>`: the registration object of a server, or the
manager's entry for itself. -/
inductive VersionObject where
  | registration (pserver : ℕ)
  | manager
  deriving DecidableEq

abbrev VersionDomain := AList fun _ : KsString => VersionObject

/-- The manager with its registration objects and expiry events; `next` is a reference that has
never been used. -/
structure KsManager where
  serverTable : AList fun _ : KsString × UInt16 => ℕ
  serversDomain : AList fun _ : KsString => VersionDomain
  timerQueue : List ℕ
  servers : ℕ → Option KsmServer
  events : ℕ → Option KsmExpireServerEvent
  next : ℕ

/-- Which allocations succeed during a call: for the event, its place in the queue, the server
object, its place in the table, the domain, its handle and its place below `/servers`, the handle of
the server object and its place in the domain. -/
structure Memory where
  event : Bool := true
  queue : Bool := true
  server : Bool := true
  table : Bool := true
  domain : Bool := true
  domainHandle : Bool := true
  domainChild : Bool := true
  serverHandle : Bool := true
  serverChild : Bool := true
  deriving DecidableEq

/-- Allowed characters: `[A-Za-z0-9_]`. -/
def isValidManagerName (name : KsString) : Bool := name.all fun c => isalnum c || c == 95

/-- The manager's own name, `MANAGER`. -/
def getServerName : KsString := [77, 65, 78, 65, 71, 69, 82]

def protocolVersion : ℕ := 2

namespace KsManager

/-- A manager has an entry for itself. -/
def create : KsManager where
  serverTable := ∅
  serversDomain := AList.singleton getServerName (AList.singleton (fromInt protocolVersion) .manager)
  timerQueue := []
  servers := fun _ => none
  events := fun _ => none
  next := 0

/-- Change a server object; nothing if it has been destroyed. -/
def setServer (m : KsManager) (pserver : ℕ) (f : KsmServer → KsmServer) : Option KsManager :=
  (m.servers pserver).map fun s => { m with
    servers := Function.update m.servers pserver (some (f s)) }

def setEvent (m : KsManager) (pevent : ℕ) (f : KsmExpireServerEvent → KsmExpireServerEvent) :
    Option KsManager :=
  (m.events pevent).map fun e => { m with
    events := Function.update m.events pevent (some (f e)) }

def newServer (m : KsManager) (s : KsmServer) : ℕ × KsManager :=
  (m.next, { m with
    servers := Function.update m.servers m.next (some s), next := m.next + 1 })

def newEvent (m : KsManager) (e : KsmExpireServerEvent) : ℕ × KsManager :=
  (m.next, { m with
    events := Function.update m.events m.next (some e), next := m.next + 1 })

def deleteServer (m : KsManager) (pserver : ℕ) : KsManager :=
  { m with servers := Function.update m.servers pserver none }

def deleteEvent (m : KsManager) (pevent : ℕ) : KsManager :=
  { m with events := Function.update m.events pevent none }

def addTimerEvent (m : KsManager) (pevent : ℕ) : KsManager :=
  { m with timerQueue := pevent :: m.timerQueue }

/-- Inactivate the event of a server. -/
def inactivate (m : KsManager) (pserver : ℕ) : Option KsManager := do
  let s ← m.servers pserver
  let pevent ← s.pevent
  m.setEvent pevent fun e => { e with pserver := none }

/-- Connect registration object and event. -/
def connect (m : KsManager) (pserver pevent : ℕ) : Option KsManager := do
  let m ← m.setServer pserver fun s => { s with pevent := some pevent }
  m.setEvent pevent fun e => { e with pserver := some pserver }

/-- The part of `registerServer` for a server that is known already. -/
def renewServer (m : KsManager) (pserver pevent : ℕ) (port : UInt16) (expireAt : KsTime) :
    Option (KsResult × KsManager) := do
  let m ← m.setServer pserver fun s => { s with port, expiresAt := expireAt, living := true }
  let m ← m.inactivate pserver
  let m ← m.connect pserver pevent
  some (.ok, m)

/-- The part of `registerServer` that creates the objects below `/servers`. If the object does not
get into a domain that was there before, its handle destroys it, and the registration goes on. -/
def addToDomain (m : KsManager) (mem : Memory) (desc : KsServerDesc) (pserver pevent : ℕ) :
    Option (KsResult × KsManager) := do
  let name := cString desc.name
  let id := fromInt desc.protocolVersion.toNat
  let hs := m.serversDomain.lookup name
  if hs.isNone && !(mem.domain && mem.domainHandle && mem.domainChild) then some (.generic, m)
  else
    let ps := hs.getD ∅
    if mem.serverHandle && mem.serverChild && (ps.lookup id).isNone then
      let m := { m with
        serversDomain := m.serversDomain.insert name (ps.insert id (.registration pserver)) }
      let m ← m.connect pserver pevent
      some (.ok, m)
    else
      let m := if mem.serverHandle then m.deleteServer pserver else m
      if hs.isNone then some (.generic, m)
      else
        let m ← m.connect pserver pevent
        some (.ok, m)

/-- Nothing for an access to an object that has been destroyed. -/
def registerServer (m : KsManager) (mem : Memory) (now : KsTime) (params : KsRegistrationParams) :
    Option (KsResult × KsManager) :=
  if !isValidManagerName params.server.name || params.server.protocolVersion < 1 then
    some (.badParam, m)
  else if cString params.server.name = getServerName then some (.badParam, m)
  else
    let expireAt := now.after params.timeToLive
    if !mem.event then some (.generic, m)
    else
      let (pevent, m) := m.newEvent { triggerAt := expireAt, pserver := none }
      if !mem.queue then some (.generic, m.deleteEvent pevent)
      else
        let m := m.addTimerEvent pevent
        match m.serverTable.lookup params.server.key with
        | some pserver => m.renewServer pserver pevent params.port expireAt
        | none =>
            if !mem.server then some (.generic, m)
            else
              let (pserver, m) := m.newServer {
                desc := params.server
                port := params.port
                expiresAt := expireAt
                timeToLive := params.timeToLive
                living := true
                pevent := none }
              if !mem.table then some (.generic, m.deleteServer pserver)
              else
                { m with serverTable := m.serverTable.insert params.server.key pserver }.addToDomain
                  mem params.server pserver pevent

/-- The server objects among these are destroyed with their last handle. -/
def destroy (m : KsManager) (objects : List VersionObject) : KsManager :=
  { m with servers := fun r => if .registration r ∈ objects then none else m.servers r }

/-- Take a server out of the table and out of its domain, and the domain with it if there is no
other version. -/
def removeServer (m : KsManager) (pserver : ℕ) : Option KsManager := do
  let s ← m.servers pserver
  let m := { m with serverTable := m.serverTable.erase s.desc.key }
  let m ← m.inactivate pserver
  let name := cString s.desc.name
  let ps ← m.serversDomain.lookup name
  if ps.keys.length = 1 then
    some ({ m with serversDomain := m.serversDomain.erase name }.destroy
      (ps.entries.map fun entry : (_ : KsString) × VersionObject => entry.2))
  else
    let id := fromInt s.desc.protocolVersion.toNat
    some ({ m with serversDomain := m.serversDomain.insert name (ps.erase id) }.destroy
      (ps.lookup id).toList)

def unregisterServer (m : KsManager) (server : KsServerDesc) : Option (KsResult × KsManager) :=
  if cString server.name = getServerName then some (.badParam, m)
  else
    match m.serverTable.lookup server.key with
    | some pserver => (m.removeServer pserver).map fun m => (.ok, m)
    | none => some (.serverUnknown, m)

/-- The trigger of an event that has been taken out of the queue: a living server is marked dead,
and the event comes again; a dead one is removed. -/
def trigger (m : KsManager) (mem : Memory) (now : KsTime) (pevent : ℕ) : Option KsManager := do
  let e ← m.events pevent
  match e.pserver with
  | none => some (m.deleteEvent pevent)
  | some pserver =>
      let s ← m.servers pserver
      if s.living then
        let m ← m.setServer pserver fun s => { s with living := false }
        let m ← m.setEvent pevent fun e => { e with triggerAt := now.after s.timeToLive }
        some (if mem.queue then m.addTimerEvent pevent else m)
      else
        let m ← m.removeServer pserver
        some (m.deleteEvent pevent)

/-- One round of the search for the highest version that is at least the requested one. -/
def betterMatch (m : KsManager) (reqdesc : KsServerDesc) (best : UInt16 × Option KsmServer)
    (entry : (_ : KsString × UInt16) × ℕ) : Option (UInt16 × Option KsmServer) := do
  let s ← m.servers entry.2
  if s.desc.protocolVersion ≥ reqdesc.protocolVersion ∧ cString s.desc.name = cString reqdesc.name ∧
      best.1 < s.desc.protocolVersion then
    some (s.desc.protocolVersion, some s)
  else some best

/-- `port` is the one of the manager itself. -/
def getServer (m : KsManager) (port : UInt16) (reqdesc : KsServerDesc) :
    Option (Except KsResult KsGetServerResult) :=
  if reqdesc.protocolVersion < 1 then some (.error .badParam)
  else if cString reqdesc.name = getServerName then
    some (.ok {
      server := ⟨getServerName, UInt16.ofNat protocolVersion⟩
      port
      expiresAt := 1000000 * Long.lp64.max
      living := true })
  else do
    let best ← m.serverTable.entries.foldlM (m.betterMatch reqdesc) (0, none)
    match best.2 with
    | some s => some (.ok {
        server := s.desc
        port := s.port
        expiresAt := s.expiresAt
        living := s.living })
    | none => some (.error .serverUnknown)

/-- What happens to the manager. -/
inductive Op where
  | register (mem : Memory) (now : KsTime) (params : KsRegistrationParams)
  | unregister (server : KsServerDesc)
  | trigger (mem : Memory) (now : KsTime) (pevent : ℕ)

/-- One request, or the trigger of an event if it is in the queue. -/
def perform (m : KsManager) : Op → Option KsManager
  | .register mem now params => (m.registerServer mem now params).map Prod.snd
  | .unregister server => (m.unregisterServer server).map Prod.snd
  | .trigger mem now pevent =>
      if pevent ∈ m.timerQueue then
        { m with timerQueue := m.timerQueue.erase pevent }.trigger mem now pevent
      else some m

def step (m : Option KsManager) (op : Op) : Option KsManager := m.bind (·.perform op)

end KsManager
end AcpltKs
