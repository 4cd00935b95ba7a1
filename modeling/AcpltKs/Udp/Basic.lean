import AcpltKs.Connection
import AcpltKs.Plt.Long
import AcpltKs.RpcHeader.Basic
import AcpltKs.Socket

/-! A UDP "connection": it receives one datagram at a time into a fixed buffer, decodes the RPC
header at its start, and encodes a message into the same buffer before it copies it for sending. -/
namespace AcpltKs
open ByteMemory

structure SocketAddress where
  host : UInt32
  port : UInt16
  deriving DecidableEq

structure Datagram where
  bytes : List UInt8
  address : SocketAddress
  deriving DecidableEq

/-- What one `recvfrom` brings. -/
inductive RecvOutcome where
  | datagram (d : Datagram)
  | fails (e : Errno)
  deriving DecidableEq

/-- What one `sendto` brings. -/
inductive SendOutcome where
  | sent
  | fails (e : Errno)
  deriving DecidableEq

/-- The receive buffer is the one of the XDR stream. -/
structure KssUDPXDRConnection where
  cnxType : ConnectionType
  state : ConnectionState
  timeout : ULong
  totalTimeout : ULong
  timePassed : ULong
  bufferSize : ℕ
  xdrs : XdrMem
  sendbuffer : ℕ → UInt8
  tosend : ℕ
  clientAddress : SocketAddress
  rpcHeader : KsRpcHeader

/-- What an observer notes: the datagrams that come, and what is handed to `sendto`. -/
inductive Traffic where
  | received (d : Datagram)
  | sendto (d : Datagram)
  deriving DecidableEq

/-- The connection and the notes of the observer. -/
structure UdpEndpoint where
  con : KssUDPXDRConnection
  trace : List Traffic

def KssUDPXDRConnection.getIoMode (con : KssUDPXDRConnection) : ConnectionIoMode :=
  match con.state with
  | .dead => { dead := true }
  | .idle => { readable := true }
  | .waiting => { readable := true, needTimeout := true }
  | .passive => {}
  | .ready => { attention := true }
  | .readyFailed => { attention := true }
  | .connected => { attention := true }
  | .sending => { writeable := true }
  | _ => { readable := true }

/-- Create a connection in memory `raw`. The last arguments are what the allocations and the socket
options bring, and the first transaction id of a client. -/
def KssUDPXDRConnection.create (raw : KssUDPXDRConnection) (timeout retrytimeout : ULong)
    (clientAddr : Option SocketAddress) (type : ConnectionType) (buffsize : ℕ)
    (allocated nonblocking : Bool) (xid : UInt32) : KssUDPXDRConnection :=
  let con := { raw with
    cnxType := type
    state := if type = ConnectionType.server then .idle else .passive
    timeout := if type = ConnectionType.client then retrytimeout else timeout
    totalTimeout := timeout
    bufferSize := min (max buffsize 1024) 65500
    clientAddress := clientAddr.getD raw.clientAddress
    rpcHeader := {} }
  if !allocated then { con with state := .dead }
  else
    let con := { con with xdrs := xdrmemCreate raw.xdrs.buffer con.bufferSize .decode }
    if !nonblocking then { con with state := .dead }
    else
      match type with
      | .client => { con with rpcHeader := { con.rpcHeader with xid }, state := .connected }
      | .server => con

namespace UdpEndpoint

def setState (e : UdpEndpoint) (state : ConnectionState) : UdpEndpoint :=
  { e with con := { e.con with state } }

def setHeader (e : UdpEndpoint) (rpcHeader : KsRpcHeader) : UdpEndpoint :=
  { e with con := { e.con with rpcHeader } }

def setXdrs (e : UdpEndpoint) (xdrs : XdrMem) : UdpEndpoint :=
  { e with con := { e.con with xdrs } }

def note (e : UdpEndpoint) (t : Traffic) : UdpEndpoint := { e with trace := e.trace ++ [t] }

def getIoMode (e : UdpEndpoint) : ConnectionIoMode := e.con.getIoMode

/-- The stream starts over at the beginning of the buffer. -/
def startStream (e : UdpEndpoint) (op : XdrOp) : UdpEndpoint :=
  e.setXdrs ({ e.con.xdrs with op }.setpos 0).2

def reset (e : UdpEndpoint) : ConnectionIoMode × UdpEndpoint :=
  if e.con.state = .dead then ({ dead := true }, e)
  else
    let e := e.setState (if e.con.cnxType = .server then .idle else .passive)
    (e.getIoMode, e)

/-- A datagram comes into the buffer, which may be too small for it. A client keeps the address of
its server. -/
def store (e : UdpEndpoint) (d : Datagram) : UdpEndpoint :=
  let buffer := write e.con.xdrs.buffer 0 (d.bytes.take e.con.bufferSize)
  let e := e.setXdrs { e.con.xdrs with buffer }
  let e := e.note (.received d)
  match e.con.cnxType with
  | .server => { e with con := { e.con with clientAddress := d.address } }
  | .client => e

/-- Decode the RPC header. -/
def decodeHeader (e : UdpEndpoint) : Bool × UdpEndpoint :=
  let ((ok, h), xdrs) := e.con.rpcHeader.xdrDecode.run e.con.xdrs
  (ok, (e.setHeader h).setXdrs xdrs)

/-- Look at a datagram that has at least the first word of a header. -/
def receiveMessage (e : UdpEndpoint) : ConnectionIoMode × UdpEndpoint :=
  match e.con.cnxType with
  | .client =>
      if BigEndian.decode (read e.con.xdrs.buffer 0 4) ≠ e.con.rpcHeader.xid then (e.getIoMode, e)
      else
        match e.decodeHeader with
        | (false, e) => ({ e.getIoMode with hadError := true }, e)
        | (true, e) => ((e.setState .ready).getIoMode, e.setState .ready)
  | .server =>
      match e.decodeHeader with
      | (false, e) =>
          let e := (e.setHeader e.con.rpcHeader.setDecodeError).setState .sending
          ({ e.getIoMode with hadError := true }, e)
      | (true, e) => ((e.setState .ready).getIoMode, e.setState .ready)

/-- Try to receive; a call that is interrupted is made again. -/
def receiveLoop (e : UdpEndpoint) : List RecvOutcome → ConnectionIoMode × UdpEndpoint
  | [] => (e.getIoMode, e)
  | .fails .eintr :: ios => e.receiveLoop ios
  | .fails .ewouldblock :: _ => (e.getIoMode, e)
  | .fails _ :: _ => ({ e.getIoMode with hadRxError := true }, e)
  | .datagram d :: _ =>
      let received := min d.bytes.length e.con.bufferSize
      let e := e.store d
      if received ≥ 4 then e.receiveMessage
      else ({ e.getIoMode with hadRxError := true }, e)

def receive (e : UdpEndpoint) (ios : List RecvOutcome) : ConnectionIoMode × UdpEndpoint :=
  if e.con.state = .dead then ({ dead := true }, e)
  else if e.con.state ≠ .idle ∧ e.con.state ≠ .waiting then e.reset
  else (e.startStream .decode).receiveLoop ios

/-- What is handed to `sendto`. -/
def outgoing (e : UdpEndpoint) : Datagram :=
  ⟨read e.con.sendbuffer 0 e.con.tosend, e.con.clientAddress⟩

/-- Try to send; a call that is interrupted is made again. -/
def sendLoop (e : UdpEndpoint) : List SendOutcome → ConnectionIoMode × UdpEndpoint
  | [] => (e.getIoMode, e.note (.sendto e.outgoing))
  | .fails .eintr :: ios => (e.note (.sendto e.outgoing)).sendLoop ios
  | .fails .ewouldblock :: _ => (e.getIoMode, e.note (.sendto e.outgoing))
  | .fails _ :: _ =>
      let (mode, e) := (e.note (.sendto e.outgoing)).reset
      ({ mode with hadTxError := true }, e)
  | .sent :: _ =>
      let e := (e.note (.sendto e.outgoing)).setState
        (if e.con.cnxType = .server then .idle else .waiting)
      (e.getIoMode, e)

def send (e : UdpEndpoint) (ios : List SendOutcome) : ConnectionIoMode × UdpEndpoint :=
  if e.con.state = .dead then ({ dead := true }, e)
  else if e.con.state ≠ .sending then e.reset
  else e.sendLoop ios

def timedOut (e : UdpEndpoint) : ConnectionIoMode × UdpEndpoint :=
  match e.con.cnxType with
  | .client =>
      let e := { e with con := { e.con with timePassed := e.con.timePassed + e.con.timeout } }
      let e := e.setState (if e.con.timePassed ≥ e.con.totalTimeout then .readyFailed else .sending)
      (e.getIoMode, e)
  | .server => e.reset

/-- Get what has been encoded ready to be sent. -/
def sendRequest (e : UdpEndpoint) : UdpEndpoint :=
  if e.con.state = .dead then e
  else { e with con := { e.con with
    tosend := e.con.xdrs.pos
    sendbuffer := write e.con.sendbuffer 0 (read e.con.xdrs.buffer 0 e.con.bufferSize)
    timePassed := 0
    state := .sending } }

/-- Encode a message from the start of the buffer on; the flag tells whether there was room. -/
def encodeMessage (e : UdpEndpoint) (h : KsRpcHeader) (payloads : List Payload) :
    Bool × UdpEndpoint :=
  let e := (e.startStream .encode).setHeader h
  match h.xdrEncode e.con.xdrs with
  | (false, xdrs) => (false, e.setXdrs xdrs)
  | (true, xdrs) =>
      let (ok, xdrs) := payloads.foldl
        (fun r p => if r.1 then p.xdrEncode r.2 else r) ((true, xdrs) : Bool × XdrMem)
      (ok, e.setXdrs xdrs)

/-- The common part of the replies. -/
def sendMessage (e : UdpEndpoint) (payloads : List Payload) : UdpEndpoint :=
  if e.con.state = .dead then e
  else
    match e.encodeMessage e.con.rpcHeader.acceptCall payloads with
    | (true, e) => e.sendRequest
    | (false, e) => e.reset.2

def sendPingReply (e : UdpEndpoint) : UdpEndpoint := e.sendMessage []

/-- The ticket's part, the error code, and the ticket's trailer. An error reply never says that
there was none. -/
def sendErrorReply (e : UdpEndpoint) (avt trailer : Payload) (error : UInt32) : UdpEndpoint :=
  e.sendMessage [avt, ⟨[.long (if error = 0 then 1 else error)], true⟩, trailer]

def sendReply (e : UdpEndpoint) (avt result trailer : Payload) : UdpEndpoint :=
  e.sendMessage [avt, result, trailer]

def personaNonGrata (e : UdpEndpoint) : UdpEndpoint := e.reset.2

def beginRequest (e : UdpEndpoint) (xid progNumber progVersion procNumber : UInt32) :
    Bool × UdpEndpoint :=
  if e.con.state = .dead then (false, e)
  else
    (e.setState .passive).encodeMessage
      (e.con.rpcHeader.setRequest xid progNumber progVersion procNumber) []

/-- The user of a client connection encodes the arguments of the request. -/
def encodeArguments (e : UdpEndpoint) (args : Payload) : Bool × UdpEndpoint :=
  let (ok, xdrs) := args.xdrEncode e.con.xdrs
  (ok, e.setXdrs xdrs)

/-- The user of a connection reads from the stream. -/
def decode {α : Type*} (e : UdpEndpoint) (r : XdrReader α) : α × UdpEndpoint :=
  let (a, xdrs) := r.run e.con.xdrs
  (a, e.setXdrs xdrs)

end UdpEndpoint
end AcpltKs
