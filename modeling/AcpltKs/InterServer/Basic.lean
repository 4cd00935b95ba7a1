import AcpltKs.ConnectionMgr.Transports
import AcpltKs.Manager.Basic
import AcpltKs.Result

/-! A server as the client of another server. Its connection asks the portmapper for the manager,
the manager for the server, and then connects to that server, all of it in the background. -/
namespace AcpltKs
open ConnectionObject

def ksRpcProgramNumber : UInt32 := 0x49678
def ksProtocolVersion : UInt16 := 2
def ksGetServer : UInt32 := 0xFF03
def pmapPort : UInt16 := 111
def pmapProg : UInt32 := 100000
def pmapVers : UInt32 := 2
def pmapProcGetPort : UInt32 := 3
def ipProtoUdp : UInt32 := 17

namespace XdrReader
variable {α : Type}

/-- Read a word and go on with it. -/
def word (fail : α) (next : UInt32 → XdrReader α) : XdrReader α :=
  .long fun
    | none => .done fail
    | some w => next w

/-- Skip opaque data and what fills it up. -/
def opaqueData (fail : α) (len : ℕ) (next : XdrReader α) : XdrReader α :=
  if len = 0 then next
  else .octets len fun
    | none => .done fail
    | some _ =>
        if (padding len).length = 0 then next
        else .octets (padding len).length fun
          | none => .done fail
          | some _ => next

end XdrReader

/-- The part of the manager's answer that is used: could it be read, its result, and the port of
the server. -/
def KsGetServerResult.xdrDecode : XdrReader (Bool × KsResultCode × UInt16) :=
  .word (false, 0, 0) fun result =>
    if result ≠ KsResultCode.ok then .done (true, result, 0)
    else
      .word (false, result, 0) fun len => .opaqueData (false, result, 0) len.toNat <|
        .word (false, result, 0) fun _ => .word (false, result, 0) fun port =>
          let fail := (false, result, port.toUInt16)
          .word fail fun _ => .word fail fun _ => .word fail fun _ =>
            .done (true, result, port.toUInt16)

/-- The arguments of a request for a server, behind the ticket that says there is none. -/
def KsServerDesc.request (desc : KsServerDesc) : Payload :=
  ⟨[.long 0, .long (UInt32.ofNat desc.name.length), .octets desc.name,
    .long desc.protocolVersion.toUInt32], true⟩

/-- What is asked of the portmapper. -/
def pmapRequest (version : UInt16) : Payload :=
  ⟨[.long ksRpcProgramNumber, .long version.toUInt32, .long ipProtoUdp, .long 0], true⟩

/-- What opening a socket and creating a connection object for it brings: the descriptor, whether
there is memory, what is in it, what the socket options and the connect bring, what the peer is
going to send, and the rounds of tracking when the manager gets the connection. -/
structure Creation where
  sock : Option ℕ
  allocated : Bool
  tcpMemory : KssTCPXDRConnection
  pool : Pool
  info : Option ℕ
  udpMemory : KssUDPXDRConnection
  buffers : Bool
  nonblocking : Bool
  connecting : Bool
  incoming : List UInt8
  xid : UInt32
  rounds : List (Round ConnectionIo)

namespace KssConnection

/-- A TCP client connection is auto-destroyable only as long as its construction has not come to
the connect. -/
def newTcp (fd timeout : ℕ) (c : Creation) : KssConnection :=
  match KssTCPXDRConnection.create c.tcpMemory c.pool c.info c.nonblocking c.connecting .client with
  | (none, pool) =>
      .tcp fd timeout true (.opened { c.tcpMemory with state := .dead } pool c.incoming)
  | (some con, pool) => .tcp fd timeout (!c.nonblocking) (.opened con pool c.incoming)

def newUdp (fd timeout retrytimeout : ℕ) (addr : SocketAddress) (c : Creation) : KssConnection :=
  .udp fd ⟨.create c.udpMemory (.ofNat timeout) (.ofNat retrytimeout) (some addr) .client 16384
    c.buffers c.nonblocking c.xid, []⟩

def getRpcHeader : KssConnection → KsRpcHeader
  | .tcp _ _ _ e => e.con.rpcHeader
  | .udp _ e => e.con.rpcHeader

def setTimeout (timeout : ℕ) : KssConnection → KssConnection
  | .tcp fd _ destroyable e => .tcp fd timeout destroyable e
  | .udp fd e => .udp fd { e with con := { e.con with timeout := .ofNat timeout } }

def beginRequest (xid progNumber progVersion procNumber : UInt32) :
    KssConnection → Bool × KssConnection :=
  virtual (·.beginRequest xid progNumber progVersion procNumber)
    (·.beginRequest xid progNumber progVersion procNumber)

/-- Store something in the stream of the connection. -/
def encodeArguments (args : Payload) : KssConnection → Bool × KssConnection :=
  virtual (·.encodeArguments args) (·.encodeArguments args)

def sendRequest (c : KssConnection) : KssConnection :=
  (virtual (fun e => ((), e.sendRequest)) (fun e => ((), e.sendRequest)) c).2

/-- Read something from the stream of the connection. -/
def decode {α : Type} (r : XdrReader α) : KssConnection → α × KssConnection :=
  virtual (fun e => ((r.run e.con.xdrs).1, { e with con := { e.con with
    xdrs := (r.run e.con.xdrs).2 } })) (·.decode r)

def xdrOp : KssConnection → XdrOp
  | .tcp _ _ _ e => e.con.xdrs.op
  | .udp _ e => e.con.xdrs.op

/-- Serialize; `otherwise` is what comes of it if the stream is not for writing. -/
def serialize (args : Payload) (otherwise : Bool) (c : KssConnection) : Bool × KssConnection :=
  if c.xdrOp = .encode then c.encodeArguments args else (otherwise, c)

/-- Deserialize; `otherwise` is what comes of it if the stream is not for reading. -/
def deserialize (r : XdrReader Bool) (otherwise : Bool) (c : KssConnection) :
    Bool × KssConnection :=
  if c.xdrOp = .decode then c.decode r else (otherwise, c)

end KssConnection

inductive KssInterKsServerConnectionState where
  | closed
  | opened
  | busy
  deriving DecidableEq

/-- What an asynchronous notification is about. -/
inductive KssInterKsServerConnectionOperations where
  | opOpen
  | opCall
  deriving DecidableEq

/-- The kind of connection that is in use. -/
inductive ISCSubState where
  | none
  | connectingPmap
  | connectingManager
  | connectingServer
  deriving DecidableEq

/-- The connection object is a reference to an object of the connection manager. -/
structure KssInterKsServerConnection where
  clnCon : Option ℕ
  clnConOnceClosed : Bool
  state : KssInterKsServerConnectionState
  subState : ISCSubState
  result : KsResultCode
  host : KsString
  hostPort : UInt16
  hostAddr : SocketAddress
  oldIp : UInt32
  server : KsString
  serverPort : UInt16
  connectTimeout : ℕ
  callTimeout : ℕ
  protocolVersion : UInt16

/-- A new connection; host name and port have been told apart. -/
def KssInterKsServerConnection.create (host : KsString) (hostPort : UInt16) (server : KsString)
    (hostAddr : SocketAddress) : KssInterKsServerConnection where
  clnCon := none
  clnConOnceClosed := false
  state := .closed
  subState := .none
  result := .ok
  host := host
  hostPort := hostPort
  hostAddr := hostAddr
  oldIp := 0
  server := server
  serverPort := 0
  connectTimeout := 15
  callTimeout := 30
  protocolVersion := 0

/-- What an observer notes: a call that opens successfully, a call that closes, a new connection
object, the state in which such an object gets attention, a request that goes out on it, the
version in a request to the manager, a successful call that sends, and a notification together
with the state it finds. -/
inductive Notice where
  | opened
  | closed
  | created
  | reported (state : ConnectionState)
  | requested
  | asked (version : UInt16)
  | sent
  | notified (op : KssInterKsServerConnectionOperations) (state : KssInterKsServerConnectionState)
  deriving DecidableEq

/-- The inter-server connection, the manager of its connection objects, and the notes of the
observer. -/
structure InterServer where
  isc : KssInterKsServerConnection
  system : CnxSystem KssConnection
  trace : List Notice

/-- What the resolver says about a host: its address if it is a dotted one, else the addresses under
its name. -/
structure HostLookup where
  inetAddr : UInt32
  hostent : Option (UInt32 × List UInt32)

/-- The calls of the user, inside of a notification or elsewhere. -/
inductive UserCall where
  | setTimeouts (connectTimeout callTimeout : ℕ)
  | startOpen (lookup : HostLookup) (creation : Creation)
  | close
  | beginSend (xid serviceid : UInt32)
  | encode (args : Payload) (otherwise : Bool)
  | endSend (rounds : List (Round ConnectionIo))
  | send (xid serviceid : UInt32) (params : Payload) (rounds : List (Round ConnectionIo))
  | beginReceive
  | decode (r : XdrReader Bool) (otherwise : Bool)
  | endReceive (rounds : List (Round ConnectionIo))
  | receive (result : XdrReader Bool) (otherwise : Bool) (rounds : List (Round ConnectionIo))

namespace InterServer

def create (isc : KssInterKsServerConnection) (fdsetSize : ℕ) : InterServer :=
  ⟨isc, .create fdsetSize, []⟩

def note (w : InterServer) (n : Notice) : InterServer := { w with trace := w.trace ++ [n] }

def setResult (w : InterServer) (result : KsResultCode) : InterServer :=
  { w with isc := { w.isc with result } }

/-- A call of the connection object; nothing for a null pointer. -/
def clnCall {α : Type} (w : InterServer) (f : KssConnection → α × KssConnection) :
    Option (α × InterServer) := do
  let con ← w.isc.clnCon
  let (a, system) ← w.system.call con f
  some (a, { w with system })

def activateConnection (w : InterServer) (rounds : List (Round ConnectionIo)) :
    Option InterServer :=
  match w.isc.clnCon with
  | none => some w
  | some con => do
      let (_, system) ← w.system.addConnection con rounds
      some { w with system }

def closeConnection (w : InterServer) : Option InterServer := do
  let system ← (match w.isc.clnCon with
    | none => some w.system
    | some con => w.system.destroy con)
  some { w with
    isc := { w.isc with clnCon := none, clnConOnceClosed := true, state := .closed }
    system }

/-- The common part of opening a connection to the portmapper, the manager or the server. -/
def openConnection (w : InterServer) (subState : ISCSubState) (port : UInt16)
    (new : SocketAddress → ℕ → KssConnection) (c : Creation) : Option (Bool × InterServer) :=
  match c.sock with
  | none => some (false, w.setResult .generic)
  | some sock =>
      let addr := { w.isc.hostAddr with port }
      let w := { w with isc := { w.isc with hostAddr := addr, subState, clnCon := none } }
      if !c.allocated then some (false, w.setResult .generic)
      else
        let con := w.system.next
        let w := { w with system := { w.system with
          objects := Function.update w.system.objects con (some (new addr sock))
          next := con + 1 } }
        if getState (new addr sock) = .dead then do
          let system ← w.system.shutDown con
          some (false, { w with system := system.delete con }.setResult .generic)
        else do
          let w := { w with isc := { w.isc with
            clnCon := some con
            result := .ok
            state := .busy } }
          let w ← (w.note .created).activateConnection c.rounds
          some (true, w)

def openPortmapperConnection (w : InterServer) (c : Creation) : Option (Bool × InterServer) :=
  w.openConnection .connectingPmap pmapPort
    (fun addr sock => .newUdp sock (min w.isc.connectTimeout 10) 2 addr c) c

/-- The flag tells whether the protocol is UDP. -/
def openManagerConnection (w : InterServer) (port : UInt16) (udp : Bool) (c : Creation) :
    Option (Bool × InterServer) :=
  w.openConnection .connectingManager port
    (fun addr sock =>
      if udp then .newUdp sock w.isc.connectTimeout 5 addr c
      else .newTcp sock w.isc.connectTimeout c) c

def openServerConnection (w : InterServer) (port : UInt16) (c : Creation) :
    Option (Bool × InterServer) :=
  w.openConnection .connectingServer port
    (fun _ sock => .newTcp sock w.isc.connectTimeout c) c

/-- A dotted address is taken as it is. A name may have two addresses, and the second one is taken
if the first one was used the last time. -/
def resolve (w : InterServer) (lookup : HostLookup) : Option UInt32 :=
  if lookup.inetAddr = 0xFFFFFFFF ∨ lookup.inetAddr = 0 then
    lookup.hostent.map fun
      | (ip, []) => ip
      | (ip, ip' :: _) => if ip = w.isc.oldIp then ip' else ip
  else some lookup.inetAddr

/-- Start the contacting procedure at the point for which a port number has been specified. -/
def contact (w : InterServer) (c : Creation) : Option (Bool × InterServer) :=
  if w.isc.serverPort ≠ 0 then w.openServerConnection w.isc.serverPort c
  else if w.isc.hostPort ≠ 0 then w.openManagerConnection w.isc.hostPort false c
  else w.openPortmapperConnection c

/-- `open` -/
def startOpen (w : InterServer) (lookup : HostLookup) (c : Creation) :
    Option (Bool × InterServer) :=
  if w.isc.state ≠ .closed then some (false, w.setResult .ok)
  else
    let w := { w with isc := { w.isc with hostAddr := ⟨0, 0⟩ } }
    if w.isc.host.length = 0 then some (false, w.setResult .hostUnknown)
    else
      match w.resolve lookup with
      | none => some (false, w.setResult .hostUnknown)
      | some ip => do
          let w := { w with isc := { w.isc with
            oldIp := ip
            hostAddr := ⟨ip, 0⟩
            protocolVersion := ksProtocolVersion } }
          let (ok, w) ← w.contact c
          some (ok, if ok then w.note .opened else w)

def close (w : InterServer) : Option InterServer := do
  let w ← w.closeConnection
  some (w.note .closed)

def beginSend (w : InterServer) (xid serviceid : UInt32) : Option (Bool × InterServer) :=
  if w.isc.state ≠ .opened then some (false, w.setResult .ok)
  else do
    let (ok, w) ← w.clnCall (·.beginRequest xid ksRpcProgramNumber
      w.isc.protocolVersion.toUInt32 serviceid)
    if ok then some (true, w.setResult .ok) else some (false, w.setResult .generic)

/-- Send the request that is in the stream. -/
def sendRequest (w : InterServer) : Option InterServer := do
  let (_, w) ← w.clnCall fun c => ((), c.sendRequest)
  some (w.note .requested)

def endSend (w : InterServer) (rounds : List (Round ConnectionIo)) :
    Option (Bool × InterServer) :=
  if w.isc.state ≠ .opened then some (false, w.setResult .ok)
  else do
    let w ← w.sendRequest
    let (_, w) ← w.clnCall fun c => ((), c.setTimeout w.isc.callTimeout)
    let con ← w.isc.clnCon
    let (ok, system) ← w.system.trackConnection con rounds
    let w := { w with system }
    if ok then
      some (true, { w with isc := { w.isc with state := .busy, result := .ok } }.note .sent)
    else some (false, w.setResult .generic)

/-- The ticket that says there is none comes before the parameters. -/
def send (w : InterServer) (xid serviceid : UInt32) (params : Payload)
    (rounds : List (Round ConnectionIo)) : Option (Bool × InterServer) := do
  let (ok, w) ← w.beginSend xid serviceid
  if ok then do
    let (ticket, w) ← w.clnCall (·.encodeArguments ⟨[.long 0], true⟩)
    let (ok, w) ← w.clnCall (·.encodeArguments params)
    if ticket && ok then w.endSend rounds else some (false, w.setResult .generic)
  else some (false, w)

/-- The RPC layer of the other side has served the request. -/
def replySucceeded (h : KsRpcHeader) : Bool :=
  h.replyStatus = .msgAccepted && h.acceptStatus = .success

def beginReceive (w : InterServer) : Option (Bool × InterServer) :=
  if w.isc.state ≠ .opened then some (false, w.setResult .ok)
  else do
    let (h, w) ← w.clnCall fun c => (c.getRpcHeader, c)
    if replySucceeded h then some (true, w.setResult .ok)
    else some (false, w.setResult .networkError)

def endReceive (w : InterServer) (rounds : List (Round ConnectionIo)) :
    Option (Bool × InterServer) :=
  if w.isc.state ≠ .opened then some (false, w.setResult .ok)
  else do
    let con ← w.isc.clnCon
    let (_, system) ← w.system.resetConnection con rounds
    some (true, { w with system }.setResult .ok)

/-- The ticket of the reply is read and forgotten. -/
def receive (w : InterServer) (result : XdrReader Bool) (otherwise : Bool)
    (rounds : List (Round ConnectionIo)) : Option (Bool × InterServer) := do
  let (ok, w) ← w.beginReceive
  if ok then do
    let (ticket, w) ← w.clnCall (·.deserialize (.word false fun _ => .done true) otherwise)
    let (read, w) ← w.clnCall (·.deserialize result otherwise)
    let (ok, w) ← w.endReceive rounds
    if ticket && read then some (ok, w) else some (false, w.setResult .generic)
  else some (false, w)

/-- The user stores something in the stream of the connection, or reads from it. -/
def useXdr (w : InterServer) (f : KssConnection → Bool × KssConnection) : Option InterServer :=
  match w.isc.clnCon with
  | none => some w
  | some _ => (w.clnCall f).map Prod.snd

def perform (w : InterServer) : UserCall → Option InterServer
  | .setTimeouts connectTimeout callTimeout =>
      some { w with isc := { w.isc with connectTimeout, callTimeout } }
  | .startOpen lookup creation => (w.startOpen lookup creation).map Prod.snd
  | .close => w.close
  | .beginSend xid serviceid => (w.beginSend xid serviceid).map Prod.snd
  | .encode args otherwise => w.useXdr (·.serialize args otherwise)
  | .endSend rounds => (w.endSend rounds).map Prod.snd
  | .send xid serviceid params rounds => (w.send xid serviceid params rounds).map Prod.snd
  | .beginReceive => w.beginReceive.map Prod.snd
  | .decode r otherwise => w.useXdr (·.deserialize r otherwise)
  | .endReceive rounds => (w.endReceive rounds).map Prod.snd
  | .receive result otherwise rounds => (w.receive result otherwise rounds).map Prod.snd

end InterServer
end AcpltKs
