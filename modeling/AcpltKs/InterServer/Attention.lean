import AcpltKs.InterServer.Basic

/-! The automaton of an inter-server connection: what it does when its connection object wants
attention, and the event loop that serves the connections. -/
namespace AcpltKs
open ConnectionObject

/-- What a notification of the user and the calls of the automaton bring. -/
structure Attention where
  xid : UInt32
  creation : Creation
  script : List UserCall

namespace InterServer

/-- Notify the user, who makes the calls of a script. -/
def asyncAttention (w : InterServer) (op : KssInterKsServerConnectionOperations)
    (script : List UserCall) : Option InterServer :=
  script.foldlM perform (w.note (.notified op w.isc.state))

/-- The operation that has come to its end if the connection object is in this state. -/
def operationOf (state : ConnectionState) : KssInterKsServerConnectionOperations :=
  if state = .readyFailed then .opCall else .opOpen

/-- The end of `attention` if there was an error. -/
def reportError (w : InterServer) (state : ConnectionState) (a : Attention) :
    Option (Bool × InterServer) := do
  let w ← w.closeConnection
  let w ← w.asyncAttention (operationOf state) a.script
  some (false, w)

/-- The connection object has failed. There is no phase of connecting in UDP, so a portmapper or a
manager that does not answer counts as one that could not be connected to. -/
def attentionFailed (w : InterServer) (state : ConnectionState) (a : Attention) :
    Option (Bool × InterServer) :=
  let w := { w with isc := { w.isc with state := .closed } }
  match w.isc.subState with
  | .connectingPmap | .connectingManager => (w.setResult .noManager).reportError .connFailed a
  | _ => (w.setResult .networkError).reportError state a

/-- Ask the portmapper for the manager. -/
def pmapConnected (w : InterServer) (a : Attention) : Option (Bool × InterServer) := do
  let (ok, w) ← w.clnCall (·.beginRequest a.xid pmapProg pmapVers pmapProcGetPort)
  let (ok, w) ← (
    if ok then w.clnCall (·.encodeArguments (pmapRequest w.isc.protocolVersion))
    else some (false, w))
  if ok then do
    let w ← w.sendRequest
    some (true, w)
  else (w.setResult .generic).reportError .connected a

/-- The portmapper has answered. -/
def pmapReady (w : InterServer) (a : Attention) : Option (Bool × InterServer) := do
  let (h, w) ← w.clnCall fun c => (c.getRpcHeader, c)
  if replySucceeded h then do
    let (port, w) ← w.clnCall (·.decode (.word none fun port => .done (some port)))
    match port with
    | none => (w.setResult .networkError).reportError .ready a
    | some port =>
        if port ≠ 0 then do
          let w ← w.closeConnection
          let (ok, w) ← w.openManagerConnection port.toUInt16 true a.creation
          if ok then some (false, w) else w.reportError .ready a
        else (w.setResult .serverUnknown).reportError .ready a
  else (w.setResult .networkError).reportError .ready a

/-- Ask the manager for the server. -/
def managerConnected (w : InterServer) (a : Attention) : Option (Bool × InterServer) := do
  let version := w.isc.protocolVersion
  let (ok, w) ← w.clnCall (·.beginRequest a.xid ksRpcProgramNumber version.toUInt32 ksGetServer)
  let (ok, w) ← (
    if ok then w.clnCall (·.encodeArguments (KsServerDesc.request ⟨w.isc.server, version⟩))
    else some (false, w))
  if ok then do
    let w ← w.sendRequest
    some (true, w.note (.asked version))
  else (w.setResult .generic).reportError .connected a

/-- Ask again for an older protocol version. -/
def lowerVersion (minVersion : ℕ) (w : InterServer) (a : Attention) :
    Option (Bool × InterServer) := do
  let w := { w with isc := { w.isc with protocolVersion := w.isc.protocolVersion - 1 } }
  if w.isc.protocolVersion.toNat ≥ minVersion then do
    let (ok, w) ← (
      if w.isc.hostPort ≠ 0 then w.openManagerConnection w.isc.hostPort false a.creation
      else w.openPortmapperConnection a.creation)
    if ok then some (false, w) else w.reportError .ready a
  else (w.setResult .serverUnknown).reportError .ready a

/-- The manager has answered. -/
def managerReady (minVersion : ℕ) (w : InterServer) (a : Attention) :
    Option (Bool × InterServer) := do
  let (h, w) ← w.clnCall fun c => (c.getRpcHeader, c)
  if replySucceeded h then do
    let ((ok, result, port), w) ← w.clnCall (·.decode (.word (false, 0, 0) fun avscheme =>
      if avscheme = 0 then KsGetServerResult.xdrDecode else .done (false, 0, 0)))
    let w ← w.closeConnection
    if ok && result = KsResultCode.ok then do
      let (ok, w) ← w.openServerConnection port a.creation
      if ok then some (false, w) else w.reportError .ready a
    else if ok then lowerVersion minVersion w a
    else (w.setResult .networkError).reportError .ready a
  else (w.setResult .networkError).reportError .ready a

/-- The server has been connected to, or has answered. The user may close the connection and reopen
it when notified, and then the old connection object is gone. -/
def serverAttention (w : InterServer) (op : KssInterKsServerConnectionOperations) (a : Attention) :
    Option (Bool × InterServer) := do
  let w := { w with isc := { w.isc with
    state := .opened
    result := .ok
    clnConOnceClosed := false } }
  let w ← w.asyncAttention op a.script
  some (!w.isc.clnConOnceClosed, w)

/-- The connection object `con` wants attention; the flag tells whether it is to be reactivated. -/
def attention (minVersion : ℕ) (w : InterServer) (con : ℕ) (a : Attention) :
    Option (Bool × InterServer) := do
  let c ← w.system.objects con
  let w := w.note (.reported (getState c))
  match getState c, w.isc.subState with
  | .connFailed, _ | .readyFailed, _ | .dead, _ => w.attentionFailed (getState c) a
  | .connected, .connectingPmap => w.pmapConnected a
  | .ready, .connectingPmap => w.pmapReady a
  | .connected, .connectingManager => w.managerConnected a
  | .ready, .connectingManager => managerReady minVersion w a
  | .connected, .connectingServer => w.serverAttention .opOpen a
  | .ready, .connectingServer => w.serverAttention .opCall a
  | state, _ => w.reportError state a

/-- One iteration of the loop that serves connections which want attention. Other connections have
other partners, which make their calls later. -/
def serveNext (minVersion : ℕ) (w : InterServer) (a : Attention)
    (rounds : List (Round ConnectionIo)) : Option InterServer := do
  let (con, system) ← w.system.getNextServiceableConnection
  let w := { w with system }
  match con with
  | none => some w
  | some con =>
      if w.isc.clnCon = some con then do
        let (reactivate, w) ← w.attention minVersion con a
        if reactivate then do
          let (_, system) ← w.system.trackConnection con rounds
          some { w with system }
        else some w
      else some w

end InterServer
end AcpltKs
