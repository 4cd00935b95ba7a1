import AcpltKs.Connection
import AcpltKs.Library.RecordMarking
import AcpltKs.RpcHeader.Messages

/-! A TCP connection to a peer: it collects the fragments of a record in its memory stream, decodes
the RPC header of a complete record, and sends a message as a record of one fragment. -/
namespace AcpltKs
open ByteMemory

inductive FragmentState where
  | header
  | body
  deriving DecidableEq

structure KssTCPXDRConnection where
  cnxType : ConnectionType
  state : ConnectionState
  xdrs : MemStream
  rpcHeader : KsRpcHeader
  lastFragment : Bool
  fragmentState : FragmentState
  remainingLen : ℕ
  fragmentHeader : ℕ → UInt8
  ptr : ℕ

/-- What an observer notes: four bytes decoded as a fragment header and where they were in the
peer's stream, the body of a record handed to the RPC decoder, a record that is to be sent. -/
inductive Observation where
  | header (offset : ℕ) (bytes : List UInt8)
  | message (body : List UInt8)
  | queued (record : List UInt8)
  deriving DecidableEq

/-- The connection with what it works on, and the notes of the observer. -/
structure Endpoint where
  pool : Pool
  socket : Socket
  con : KssTCPXDRConnection
  trace : List Observation

/-- What the system calls of one call of a member function bring: does a pending connect turn out
to have failed, and the outcomes of reading or writing. -/
structure SystemCalls where
  soError : Bool := false
  outcomes : List IoOutcome := []

def KssTCPXDRConnection.getIoMode (con : KssTCPXDRConnection) : ConnectionIoMode :=
  match con.state with
  | .dead => { dead := true }
  | .idle => { readable := true }
  | .waiting => { readable := true, needTimeout := true }
  | .ready => { attention := true }
  | .readyFailed => { attention := true }
  | .receiving => { readable := true, needTimeout := true }
  | .sending => { writeable := true, needTimeout := true }
  | .connecting =>
      { readable := true, writeable := true, needTimeout := true, noFastwrite := true }
  | .connected => {}
  | .connFailed => { attention := true }
  | .passive => {}

/-- Create a connection in memory `raw`. The arguments are what the allocations, the socket options
and the connect bring; `none` is a connection that is dead because it has no stream. -/
def KssTCPXDRConnection.create (raw : KssTCPXDRConnection) (pool : Pool) (info : Option ℕ)
    (nonblocking connecting : Bool) (type : ConnectionType) :
    Option KssTCPXDRConnection × Pool :=
  match xdrmemstreamCreate pool info with
  | (none, pool) => (none, pool)
  | (some xdrs, pool) =>
      let con := { raw with cnxType := type, xdrs, rpcHeader := {} }
      if !nonblocking then (some { con with state := .dead }, pool)
      else
        match type with
        | .client => (some { con with state := if connecting then .connecting else .dead }, pool)
        | .server =>
            (some { con with
              state := .idle, fragmentState := .header, remainingLen := 4, ptr := 0 }, pool)

/-- The fragment automaton waits for a new header. -/
def KssTCPXDRConnection.startHeader (con : KssTCPXDRConnection) : KssTCPXDRConnection :=
  { con with fragmentState := .header, remainingLen := 4, ptr := 0 }

/-- Put more bytes of the fragment header where they belong. -/
def KssTCPXDRConnection.storeHeader (con : KssTCPXDRConnection) (bs : List UInt8) :
    KssTCPXDRConnection :=
  { con with
    fragmentHeader := write con.fragmentHeader con.ptr bs
    remainingLen := subU32 con.remainingLen bs.length
    ptr := con.ptr + bs.length }

def KssTCPXDRConnection.headerBytes (con : KssTCPXDRConnection) : List UInt8 :=
  read con.fragmentHeader 0 4

/-- Take over what a fragment header says. -/
def KssTCPXDRConnection.announce (con : KssTCPXDRConnection) (l : UInt32) :
    KssTCPXDRConnection :=
  { con with
    lastFragment := RecordMarking.isLast l
    remainingLen := RecordMarking.bodyLength l }

/-- Decode a complete fragment header. An empty fragment has no body to wait for, and the last one
of a record leaves the automaton where it is. -/
def KssTCPXDRConnection.parseHeader (con : KssTCPXDRConnection) : KssTCPXDRConnection :=
  let con := con.announce (BigEndian.decode con.headerBytes)
  if con.remainingLen ≠ 0 then { con with fragmentState := .body }
  else if con.lastFragment = false then con.startHeader
  else con

namespace Endpoint

def setState (e : Endpoint) (state : ConnectionState) : Endpoint :=
  { e with con := { e.con with state } }

def setMem (e : Endpoint) (m : Mem) : Endpoint :=
  { e with pool := m.1, con := { e.con with xdrs := m.2 } }

def note (e : Endpoint) (o : Observation) : Endpoint := { e with trace := e.trace ++ [o] }

def startHeader (e : Endpoint) : Endpoint := { e with con := e.con.startHeader }

def clearStream (e : Endpoint) : Endpoint := e.setMem (xdrmemstreamClear (e.pool, e.con.xdrs))

def getIoMode (e : Endpoint) : ConnectionIoMode := e.con.getIoMode

/-- The state after trouble: a client is not allowed to kill itself. -/
def failed (e : Endpoint) : Endpoint :=
  e.setState (if e.con.cnxType = .client then .readyFailed else .dead)

/-- Patch the fragment header into the space that was left for it and get ready to send. -/
def enterSendingState (e : Endpoint) : ConnectionIoMode × Endpoint :=
  let (pool, xdrs) := xdrmemstreamRewind (e.pool, e.con.xdrs) .decode
  let len := xdrmemstreamGetLength xdrs
  let (space, pool, xdrs) := memStreamInline (pool, xdrs) 4
  let header : UInt32 := (UInt32.ofNat len - 4) ||| 0x80000000
  let xdrs :=
    match space with
    | some off => xdrs.poke off (BigEndian.encode header)
    | none => { xdrs with fault := true }
  let m := xdrmemstreamRewind (pool, xdrs) .decode
  let e := e.setMem m
  let e := { e with con := { e.con with
    state := .sending, fragmentState := .body, remainingLen := len } }
  let e := e.note (.queued e.con.xdrs.contents)
  (e.getIoMode, e)

def reset (e : Endpoint) : ConnectionIoMode × Endpoint :=
  if e.con.state = .dead then ({ dead := true }, e)
  else
    let state : ConnectionState :=
      match e.con.state with
      | .sending | .waiting | .receiving =>
          if e.con.cnxType = .client then .readyFailed
          else if e.con.state = .sending then .idle
          else .dead
      | state => if e.con.cnxType = .client then .connected else state
    let e := (e.setState state).clearStream.startHeader
    (e.getIoMode, e)

def timedOut (e : Endpoint) : ConnectionIoMode × Endpoint :=
  if e.con.state = .dead then ({ dead := true }, e)
  else
    let state : ConnectionState :=
      if e.con.cnxType = .client then
        if e.con.state = .connecting then .connFailed else .readyFailed
      else .idle
    let e := (e.setState state).clearStream.startHeader
    (e.getIoMode, e)

/-- Encode a message behind the space for the fragment header; the flag tells whether everything
got into the stream. -/
def encodeMessage (e : Endpoint) (h : KsRpcHeader) (payloads : List Payload) : Bool × Endpoint :=
  let e := e.clearStream
  let e := { e with con := { e.con with rpcHeader := h } }
  let m := (e.pool, e.con.xdrs)
  match memStreamPutLong m 0x80000000 with
  | (false, m) => (false, e.setMem m)
  | (true, m) =>
      match h.xdrEncode m with
      | (false, m) => (false, e.setMem m)
      | (true, m) =>
          let (ok, m) := payloads.foldl
            (fun r p => if r.1 then p.xdrEncode r.2 else r) ((true, m) : Bool × Mem)
          (ok, e.setMem m)

/-- The common part of the replies. -/
def sendMessage (e : Endpoint) (payloads : List Payload) : Endpoint :=
  if e.con.state = .dead then e
  else
    match e.encodeMessage e.con.rpcHeader.acceptCall payloads with
    | (true, e) => e.enterSendingState.2
    | (false, e) => e.reset.2

def sendPingReply (e : Endpoint) : Endpoint := e.sendMessage []

/-- The ticket's part, the error code, and the ticket's trailer. An error reply never says that
there was none. -/
def sendErrorReply (e : Endpoint) (avt trailer : Payload) (error : UInt32) : Endpoint :=
  e.sendMessage [avt, ⟨[.long (if error = 0 then 1 else error)], true⟩, trailer]

def sendReply (e : Endpoint) (avt result trailer : Payload) : Endpoint :=
  e.sendMessage [avt, result, trailer]

def beginRequest (e : Endpoint) (xid progNumber progVersion procNumber : UInt32) :
    Bool × Endpoint :=
  if e.con.state = .dead then (false, e)
  else
    e.encodeMessage (e.con.rpcHeader.setRequest xid progNumber progVersion procNumber) []

/-- The user of a client connection encodes the arguments of the request. -/
def encodeArguments (e : Endpoint) (args : Payload) : Bool × Endpoint :=
  let (ok, m) := args.xdrEncode (e.pool, e.con.xdrs)
  (ok, e.setMem m)

def sendRequest (e : Endpoint) : Endpoint := e.enterSendingState.2

def personaNonGrata (e : Endpoint) : Endpoint := e.reset.2.setState .dead

/-- The stream is cleared as soon as a request has been deserialized. -/
def freeStreamMemory (e : Endpoint) : Endpoint := e.clearStream

/-- The common part of receiving and sending while a connect is pending or over; nothing if the
connection is past that. -/
def connectPending (e : Endpoint) (soError : Bool) : Option (ConnectionIoMode × Endpoint) :=
  match e.con.state with
  | .connecting =>
      if soError then
        let e := e.setState .connFailed
        some (e.getIoMode, e)
      else
        let e := e.setState .connected
        some ({ e.getIoMode with attention := true }, e)
  | .connected | .connFailed => some ({ e.getIoMode with attention := false }, e)
  | _ => none

/-- Read, trying again after interruptions; what is left are the outcomes for further calls. -/
def readUninterrupted :
    List IoOutcome → Socket → ℕ → Except Errno (List UInt8) × Socket × List IoOutcome
  | [], sock, _ => (.error .ewouldblock, sock, [])
  | io :: ios, sock, count =>
      match sock.read count io with
      | (.error .eintr, sock) => readUninterrupted ios sock count
      | (r, sock) => (r, sock, ios)

/-- The peer has closed the connection. If that was within a header, transmission broke. -/
def peerClosed (e : Endpoint) : ConnectionIoMode × Endpoint :=
  let early := e.con.remainingLen < 4
  let e := e.failed
  (if early then { e.getIoMode with hadRxError := true } else e.getIoMode, e)

/-- Reading the fragment header failed. A connection that was reset before any data arrived counts
as closed, which comes to the same state. -/
def headerError (e : Endpoint) (errno : Errno) : ConnectionIoMode × Endpoint :=
  if errno = .ewouldblock then (e.getIoMode, e)
  else
    let e :=
      if errno = .econnreset ∧ e.con.remainingLen = 4 then
        e.setMem (xdrmemstreamRewind (e.pool, e.con.xdrs) .decode)
      else e
    let e := e.failed
    (e.getIoMode, e)

/-- More bytes of the fragment header have come, perhaps the rest of it. -/
def takeHeader (e : Endpoint) (bs : List UInt8) : Endpoint :=
  let con := e.con.storeHeader bs
  if con.remainingLen = 0 then
    { e with con := con.parseHeader }.note
      (.header (e.socket.consumed.length - 4) con.headerBytes)
  else { e with con }

/-- Read into the fragment header. Either `receive` is through, or it goes on with the outcomes
that are left. -/
def receiveHeader (e : Endpoint) (ios : List IoOutcome) :
    Except ConnectionIoMode (List IoOutcome) × Endpoint :=
  match readUninterrupted ios e.socket e.con.remainingLen with
  | (.ok [], socket, _) =>
      let (mode, e) := { e with socket }.peerClosed
      (.error mode, e)
  | (.ok bs, socket, ios) => (.ok ios, { e with socket }.takeHeader bs)
  | (.error errno, socket, _) =>
      let (mode, e) := { e with socket }.headerError errno
      (.error mode, e)

/-- Read into the body of the fragment. -/
def receiveBody (e : Endpoint) (ios : List IoOutcome) :
    Option ConnectionIoMode × Endpoint :=
  let r := xdrmemstreamReadFromFd ios (e.pool, e.con.xdrs) e.socket e.con.remainingLen
  let e := { e.setMem r.mem with socket := r.socket }
  let e := { e with con := { e.con with remainingLen := r.max } }
  match r.failure with
  | none =>
      if e.con.remainingLen = 0 ∧ e.con.lastFragment = false then (none, e.startHeader)
      else (none, e)
  | some errno =>
      if errno = .enomem ∧ e.con.cnxType = .server then
        let (mode, e) := e.reset
        (some mode, e)
      else
        let e := e.failed
        (some { e.getIoMode with hadRxError := true }, e)

/-- Decode the RPC header of a complete record. -/
def receiveMessage (e : Endpoint) : ConnectionIoMode × Endpoint :=
  let e := e.setMem (xdrmemstreamRewind (e.pool, e.con.xdrs) .decode)
  let e := e.note (.message e.con.xdrs.contents)
  let xid := e.con.rpcHeader.xid
  let ((ok, rpcHeader), xdrs) := e.con.rpcHeader.xdrDecode.run e.con.xdrs
  let e := { e with con := { e.con with rpcHeader, xdrs } }
  match e.con.cnxType with
  | .server =>
      if ok then
        let e := e.setState .ready
        (e.getIoMode, e)
      else
        let h := e.con.rpcHeader.setDecodeError
        let e := { e with con := { e.con with rpcHeader := h } }
        let e := (e.setState .sending).clearStream
        let (ok, m) := h.xdrEncode (e.pool, e.con.xdrs)
        let e := e.setMem m
        let (mode, e) := if ok then e.enterSendingState else e.reset
        ({ mode with hadError := true }, e)
  | .client =>
      let e := e.setState (if ok ∧ xid = e.con.rpcHeader.xid then .ready else .readyFailed)
      (e.getIoMode, e)

/-- Look whether the record is complete now. -/
def finishReceive (e : Endpoint) : ConnectionIoMode × Endpoint :=
  if e.con.lastFragment = true ∧ e.con.remainingLen = 0 then e.receiveMessage
  else
    let e := e.setState .receiving
    (e.getIoMode, e)

/-- The receiving part behind the fragment header. -/
def receiveRest (e : Endpoint) (ios : List IoOutcome) : ConnectionIoMode × Endpoint :=
  if e.con.fragmentState = .body then
    match e.receiveBody ios with
    | (some mode, e) => (mode, e)
    | (none, e) => e.finishReceive
  else e.finishReceive

def receive (e : Endpoint) (sys : SystemCalls) : ConnectionIoMode × Endpoint :=
  match e.connectPending sys.soError with
  | some r => r
  | none =>
      if e.con.fragmentState = .header then
        match e.receiveHeader sys.outcomes with
        | (.error mode, e) => (mode, e)
        | (.ok ios, e) => e.receiveRest ios
      else e.receiveRest sys.outcomes

/-- After the last byte of a message. -/
def finishSend (e : Endpoint) : ConnectionIoMode × Endpoint :=
  if e.con.remainingLen = 0 then
    if e.con.cnxType = .client then
      let e := (e.setState .waiting).startHeader.clearStream
      (e.getIoMode, e)
    else e.reset
  else (e.getIoMode, e)

def send (e : Endpoint) (sys : SystemCalls) : ConnectionIoMode × Endpoint :=
  match e.connectPending sys.soError with
  | some r => r
  | none =>
      if e.con.fragmentState = .body then
        let r := xdrmemstreamWriteToFd sys.outcomes (e.pool, e.con.xdrs) e.socket
          e.con.remainingLen
        let e := { e.setMem r.mem with socket := r.socket }
        let e := { e with con := { e.con with remainingLen := r.max } }
        match r.failure with
        | some _ =>
            let e := e.failed
            ({ e.getIoMode with hadTxError := true }, e)
        | none => e.finishSend
      else e.finishSend

end Endpoint

end AcpltKs
