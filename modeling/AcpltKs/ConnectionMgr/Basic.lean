import Mathlib.Data.Finset.Basic
import AcpltKs.Connection
import AcpltKs.Library.LinkedRings

/-! The connection manager: a table from file descriptors to connections, the file descriptor sets
for `select`, and two lists through the items of the table. -/
namespace AcpltKs
open Function LinkedRings

/-- The member functions that the manager calls. What their system calls bring is an argument. -/
class ConnectionObject (C : Type) (Io : outParam Type) where
  getFd : C → ℕ
  isAutoDestroyable : C → Bool
  getTimeout : C → ℕ
  getState : C → ConnectionState
  getIoMode : C → ConnectionIoMode
  receive : C → Io → ConnectionIoMode × C
  send : C → Io → ConnectionIoMode × C
  timedOut : C → ConnectionIoMode × C
  reset : C → ConnectionIoMode × C
  shutdown : C → C

/-- The two lists: connections with a timeout, and connections that wait to be served. -/
inductive CnxList where
  | active
  | serviceable
  deriving DecidableEq

/-- An item of the table. The connection is a reference to an object; times are in microseconds. -/
structure KssConnectionItem where
  connection : Option ℕ := none
  bestBefore : ℤ := 0
  lastIoMode : ConnectionIoMode := {}

/-- The items are numbered by their file descriptors. -/
structure KssConnectionManager where
  fdsetSize : ℕ
  items : ℕ → KssConnectionItem
  links : Links CnxList ℕ
  connectionCount : ℤ
  serviceableCount : ℤ
  readableFdset : Finset ℕ
  writeableFdset : Finset ℕ
  ioErrors : ℕ
  ioRxErrors : ℕ
  ioTxErrors : ℕ

namespace KssConnectionManager

def create (fdsetSize : ℕ) : KssConnectionManager where
  fdsetSize := fdsetSize
  items := fun _ => {}
  links := .empty
  connectionCount := 0
  serviceableCount := 0
  readableFdset := ∅
  writeableFdset := ∅
  ioErrors := 0
  ioRxErrors := 0
  ioTxErrors := 0

def setItem (m : KssConnectionManager) (item : ℕ) (f : KssConnectionItem → KssConnectionItem) :
    KssConnectionManager :=
  { m with items := update m.items item (f (m.items item)) }

@[simp] theorem setItem_self (m : KssConnectionManager) (item : ℕ)
    (f : KssConnectionItem → KssConnectionItem) :
    (m.setItem item f).items item = f (m.items item) := update_self ..

theorem setItem_of_ne (m : KssConnectionManager) {item i : ℕ} (h : i ≠ item)
    (f : KssConnectionItem → KssConnectionItem) : (m.setItem item f).items i = m.items i :=
  update_of_ne h ..

/-- No item for a file descriptor that does not make sense. -/
def getConnectionItem (m : KssConnectionManager) (fd : ℕ) : Option ℕ :=
  if fd < m.fdsetSize then some fd else none

/-- `FD_SET` or `FD_CLR`. -/
def fdSet (s : Finset ℕ) (fd : ℕ) (value : Bool) : Finset ℕ :=
  if value then insert fd s else s.erase fd

def trackReadable (m : KssConnectionManager) (fd : ℕ) (last ioMode : ConnectionIoMode) :
    KssConnectionManager :=
  if ioMode.readable ≠ last.readable then
    { m with readableFdset := fdSet m.readableFdset fd ioMode.readable }
  else m

def trackWriteable (m : KssConnectionManager) (fd : ℕ) (last ioMode : ConnectionIoMode) :
    KssConnectionManager :=
  if ioMode.writeable ≠ last.writeable then
    { m with writeableFdset := fdSet m.writeableFdset fd ioMode.writeable }
  else m

/-- A connection that has just become writeable is to send at once. -/
def wantsFastwrite (last ioMode : ConnectionIoMode) : Bool :=
  ioMode.writeable && !last.writeable && !ioMode.noFastwrite

def trackAttention (m : KssConnectionManager) (item : ℕ) (ioMode : ConnectionIoMode) :
    KssConnectionManager :=
  if ioMode.attention then
    { m with
      links := (m.links.remove (.inr item)).addAfter (.inr item) (.inl .serviceable)
      serviceableCount := m.serviceableCount + 1 }
  else m

/-- Search from the end of the list of active connections for the place behind those that expire
earlier. Nothing if the list does not come to an end. -/
def insertPoint (m : KssConnectionManager) (bestBefore : ℤ) :
    ℕ → CnxList ⊕ ℕ → Option (CnxList ⊕ ℕ)
  | 0, _ => none
  | _ + 1, .inl .active => some (.inl .active)
  | _ + 1, .inl .serviceable => none
  | fuel + 1, .inr it =>
      if (m.items it).bestBefore > bestBefore then
        m.insertPoint bestBefore fuel (m.links.prev (.inr it))
      else some (.inr it)

def trackTimeout (m : KssConnectionManager) (item : ℕ) (last ioMode : ConnectionIoMode)
    (bestBefore : ℤ) : Option KssConnectionManager :=
  if ioMode.needTimeout ≠ last.needTimeout then
    if ioMode.needTimeout then do
      let it := m.links.prev (.inl .active)
      let m := m.setItem item fun i => { i with bestBefore }
      let m := { m with links := m.links.remove (.inr item) }
      let it ← m.insertPoint bestBefore (m.fdsetSize + 1) it
      some { m with links := m.links.addAfter (.inr item) it }
    else if !ioMode.attention then some { m with links := m.links.remove (.inr item) }
    else some m
  else some m

def trackErrors (m : KssConnectionManager) (ioMode : ConnectionIoMode) : KssConnectionManager :=
  { m with
    ioErrors := m.ioErrors + ioMode.hadError.toNat
    ioRxErrors := m.ioRxErrors + ioMode.hadRxError.toNat
    ioTxErrors := m.ioTxErrors + ioMode.hadTxError.toNat }

/-- `trackCnxIoMode` up to the fast write, for a connection with file descriptor `fd`. -/
def track (m : KssConnectionManager) (item fd : ℕ) (ioMode : ConnectionIoMode) (bestBefore : ℤ) :
    Option KssConnectionManager := do
  let last := (m.items item).lastIoMode
  let m := (m.trackReadable fd last ioMode).trackWriteable fd last ioMode
  let m ← (m.trackAttention item ioMode).trackTimeout item last ioMode bestBefore
  some ((m.trackErrors ioMode).setItem item fun i => { i with lastIoMode := ioMode })

/-- Take a connection out of the table, the lists and the sets. -/
def removeConnection (m : KssConnectionManager) (fd : ℕ) : Bool × KssConnectionManager :=
  match m.getConnectionItem fd with
  | none => (false, m)
  | some item =>
      if (m.items item).connection.isSome then
        (true, { m.setItem item fun i => { i with connection := none } with
          links := m.links.remove (.inr item)
          readableFdset := m.readableFdset.erase fd
          writeableFdset := m.writeableFdset.erase fd
          connectionCount := m.connectionCount - 1 })
      else (false, m)

/-- The next connection that waits to be served, if there is any. -/
def getNextServiceableConnection (m : KssConnectionManager) :
    Option (Option ℕ × KssConnectionManager) :=
  match m.links.next (.inl .serviceable) with
  | .inl .serviceable => some (none, m)
  | .inl .active => none
  | .inr item =>
      some ((m.items item).connection, { m with
        links := m.links.remove (.inr item)
        serviceableCount := m.serviceableCount - 1 })

end KssConnectionManager

/-- What happens to a connection object at its end. -/
inductive Deed where
  | shutDown
  | deleted
  deriving DecidableEq

/-- The manager with the connection objects, and what an observer notes about their ends; references
from `next` on have never been used. -/
structure CnxSystem (C : Type) where
  manager : KssConnectionManager
  objects : ℕ → Option C
  next : ℕ
  log : List (Deed × ℕ)

/-- What happens in one round of `trackCnxIoMode`: the time, and what the fast write brings. -/
structure Round (Io : Type) where
  now : ℤ
  io : Io

/-- What happens when a connection has its turn: what the call of its member function brings, and
the rounds of tracking after it, and after the reset of a dead connection. -/
structure Turn (Io : Type) where
  io : Io
  rounds : List (Round Io)
  resetRounds : List (Round Io)

namespace CnxSystem
open KssConnectionManager ConnectionObject
variable {C Io : Type} [ConnectionObject C Io]

omit [ConnectionObject C Io] in
def create (fdsetSize : ℕ) : CnxSystem C := ⟨.create fdsetSize, fun _ => none, 0, []⟩

/-- Call a member function of an object; nothing if the object has been deleted. -/
def call {α : Type} (s : CnxSystem C) (con : ℕ) (f : C → α × C) : Option (α × CnxSystem C) := do
  let c ← s.objects con
  some ((f c).1, { s with objects := update s.objects con (some (f c).2) })

/-- Nothing for a null pointer, or if there are more fast writes than rounds. -/
def trackCnxIoMode (s : CnxSystem C) (item : ℕ) (ioMode : ConnectionIoMode) :
    List (Round Io) → Option (CnxSystem C)
  | [] => none
  | round :: rounds => do
      let con ← (s.manager.items item).connection
      let c ← s.objects con
      let fastwrite := wantsFastwrite (s.manager.items item).lastIoMode ioMode
      let manager ← s.manager.track item (getFd c) ioMode (round.now + 1000000 * getTimeout c)
      let s := { s with manager }
      if fastwrite then do
        let (ioMode, s) ← s.call con (send · round.io)
        s.trackCnxIoMode item ioMode rounds
      else some s

/-- The connection with this file descriptor goes. -/
def removeConnection (s : CnxSystem C) (con : ℕ) : Option (Bool × CnxSystem C) := do
  let c ← s.objects con
  let (ok, manager) := s.manager.removeConnection (getFd c)
  some (ok, { s with manager })

def shutDown (s : CnxSystem C) (con : ℕ) : Option (CnxSystem C) := do
  let (_, s) ← s.call con fun c => ((), shutdown c)
  some { s with log := s.log ++ [(.shutDown, con)] }

def delete (s : CnxSystem C) (con : ℕ) : CnxSystem C :=
  { s with objects := update s.objects con none, log := s.log ++ [(.deleted, con)] }

/-- Force a close on a connection. -/
def destroy (s : CnxSystem C) (con : ℕ) : Option (CnxSystem C) := do
  let (_, s) ← s.removeConnection con
  let s ← s.shutDown con
  some (s.delete con)

/-- Let a connection do something, and destroy or reset it if it is dead then. -/
def serve (f : C → Io → ConnectionIoMode × C) (s : CnxSystem C) (item : ℕ) (turn : Turn Io) :
    Option (CnxSystem C) := do
  let con ← (s.manager.items item).connection
  let (ioMode, s) ← s.call con (f · turn.io)
  let s ← s.trackCnxIoMode item ioMode turn.rounds
  if ioMode.dead then do
    let c ← s.objects con
    if isAutoDestroyable c then s.destroy con
    else do
      let (ioMode, s) ← s.call con reset
      s.trackCnxIoMode item ioMode turn.resetRounds
  else some s

/-- One of the two loops over all file descriptors. -/
def processFds (f : C → Io → ConnectionIoMode × C) (s : CnxSystem C) (fds : Finset ℕ)
    (turns : ℕ → Turn Io) : Option (CnxSystem C) :=
  (List.range s.manager.fdsetSize).foldlM
    (fun s fd => if fd ∈ fds then s.serve f fd (turns fd) else some s) s

def processConnections (s : CnxSystem C) (readables writeables : Finset ℕ)
    (readTurns writeTurns : ℕ → Turn Io) : Option (CnxSystem C) := do
  let s ← s.processFds send writeables writeTurns
  s.processFds receive readables readTurns

/-- The loop over the active connections, from `item` on. -/
def processTimeoutFrom (now : ℤ) (s : CnxSystem C) :
    CnxList ⊕ ℕ → List (Turn Io) → Option (CnxSystem C)
  | .inl .active, _ => some s
  | .inl .serviceable, _ => none
  | .inr _, [] => none
  | .inr item, turn :: turns =>
      let next := s.manager.links.next (.inr item)
      if (s.manager.items item).bestBefore ≤ now then do
        let s ← s.serve (fun c _ => timedOut c) item turn
        s.processTimeoutFrom now next turns
      else some s

def processTimeout (s : CnxSystem C) (now : ℤ) (turns : List (Turn Io)) : Option (CnxSystem C) :=
  s.processTimeoutFrom now (s.manager.links.next (.inl .active)) turns

def getNextServiceableConnection (s : CnxSystem C) : Option (Option ℕ × CnxSystem C) := do
  let (con, manager) ← s.manager.getNextServiceableConnection
  some (con, { s with manager })

/-- The state of a connection is looked at again after the fast write. A dead connection is
destroyed if that is allowed. -/
def unlessDead (s : CnxSystem C) (con : ℕ) : Option (Bool × CnxSystem C) := do
  let c ← s.objects con
  if getState c ≠ .dead then some (true, s)
  else if isAutoDestroyable c then do
    let s ← s.shutDown con
    let (_, s) ← s.removeConnection con
    some (true, s.delete con)
  else some (false, s)

/-- The item of a connection, if there is a connection at all. -/
def itemOf (s : CnxSystem C) (con : ℕ) : Option (Option ℕ) := do
  let c ← s.objects con
  some ((s.manager.getConnectionItem (getFd c)).filter fun item =>
    (s.manager.items item).connection.isSome)

def trackConnection (s : CnxSystem C) (con : ℕ) (rounds : List (Round Io)) :
    Option (Bool × CnxSystem C) := do
  match ← s.itemOf con with
  | none => some (false, s)
  | some item =>
      let c ← s.objects con
      let s ← (if getState c ≠ .dead then s.trackCnxIoMode item (getIoMode c) rounds else some s)
      let (ok, s) ← s.unlessDead con
      if ok then some (true, s)
      else do
        let (_, s) ← s.call con reset
        some (false, s)

def resetConnection (s : CnxSystem C) (con : ℕ) (rounds : List (Round Io)) :
    Option (Bool × CnxSystem C) := do
  match ← s.itemOf con with
  | none => some (false, s)
  | some item =>
      let c ← s.objects con
      let s ← (if getState c ≠ .dead then do
          let (ioMode, s) ← s.call con reset
          s.trackCnxIoMode item ioMode rounds
        else some s)
      s.unlessDead con

def addConnection (s : CnxSystem C) (con : ℕ) (rounds : List (Round Io)) :
    Option (Bool × CnxSystem C) := do
  let c ← s.objects con
  match s.manager.getConnectionItem (getFd c) with
  | none => some (false, s)
  | some item =>
      if (s.manager.items item).connection.isSome then some (false, s)
      else do
        let manager := s.manager.setItem item fun i => { i with
          connection := some con
          lastIoMode := {} }
        let s ← { s with manager }.trackCnxIoMode item (getIoMode c) rounds
        some (true, { s with manager := { s.manager with
          connectionCount := s.manager.connectionCount + 1 } })

/-- The user of a connection leaves it as `c`. The file descriptor of an object never changes, nor
does its being destroyable. -/
def change (s : CnxSystem C) (con : ℕ) (c : C) : Option (CnxSystem C) := do
  let old ← s.objects con
  if getFd c = getFd old ∧ isAutoDestroyable c = isAutoDestroyable old then
    some { s with objects := update s.objects con (some c) }
  else none

/-- The calls of the manager, the creation of an object, and whatever else its user does to one.
Tracking and resetting follow on what the user has made of the connection. -/
inductive Op (C Io : Type) where
  | construct (c : C)
  | change (con : ℕ) (c : C)
  | addConnection (con : ℕ) (rounds : List (Round Io))
  | removeConnection (con : ℕ)
  | trackConnection (con : ℕ) (c : C) (rounds : List (Round Io))
  | resetConnection (con : ℕ) (c : C) (rounds : List (Round Io))
  | processConnections (readables writeables : Finset ℕ) (readTurns writeTurns : ℕ → Turn Io)
  | processTimeout (now : ℤ) (turns : List (Turn Io))
  | getNextServiceableConnection

def perform (s : CnxSystem C) : Op C Io → Option (CnxSystem C)
  | .construct c => some { s with
      objects := update s.objects s.next (some c)
      next := s.next + 1 }
  | .change con c => s.change con c
  | .addConnection con rounds => (s.addConnection con rounds).map Prod.snd
  | .removeConnection con => (s.removeConnection con).map Prod.snd
  | .trackConnection con c rounds => do
      let s ← s.change con c
      (s.trackConnection con rounds).map Prod.snd
  | .resetConnection con c rounds => do
      let s ← s.change con c
      (s.resetConnection con rounds).map Prod.snd
  | .processConnections readables writeables readTurns writeTurns =>
      s.processConnections readables writeables readTurns writeTurns
  | .processTimeout now turns => s.processTimeout now turns
  | .getNextServiceableConnection => s.getNextServiceableConnection.map Prod.snd

def step (s : Option (CnxSystem C)) (op : Op C Io) : Option (CnxSystem C) := s.bind (·.perform op)

end CnxSystem
end AcpltKs
