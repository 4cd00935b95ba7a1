import AcpltKs.SimpleServer.Remote
import AcpltKs.Tcp.Calls

/-! A simple server with its TCP connections, whose streams share one pool: a listening connection
accepts clients, and the connection manager reads, writes and calls for attention as the connections
need it, in any order. -/
namespace AcpltKs
open AnsweringMachines GuardedRun RecordMarking

/-- A call of the transport by the dispatcher; `xdrs` is the stream of the request, as far as it has
been read. -/
def Endpoint.transport (ticket : KsAvTicketObject) (xdrs : MemStream) (e : Endpoint) :
    DispatchEvent → Endpoint
  | .getTicket _ | .deleteTicket _ => e
  | .finishRequestDeserialization _ _ => (e.setMem (e.pool, xdrs)).freeStreamMemory
  | .sendPingReply => e.sendPingReply
  | .sendErrorReply _ error => e.sendErrorReply ticket.xdrEncode ticket.xdrEncodeTrailer error
  | .sendReply _ result => e.sendReply ticket.xdrEncode result ticket.xdrEncodeTrailer
  | .personaNonGrata => e.personaNonGrata

/-- A reply has got into the stream, and its fragment header can count its bytes. -/
def Endpoint.Replied (e : Endpoint) : Prop :=
  e.con.state = .sending ∧ ∀ record ∈ e.queuedRecords.getLast?, record.length < 2 ^ 31 + 4

instance (e : Endpoint) : Decidable e.Replied := inferInstanceAs (Decidable (_ ∧ _))

/-- A connection gets attention: its request is dispatched. Nothing if the service leaves its
memory. -/
def KsSimpleServer.attend (m : KssMemory) (c : Circumstances) (e : Endpoint) :
    Option (Endpoint × KssMemory) :=
  (memoryAfter m c e.con.rpcHeader.procedure e.con.xdrs).map fun m' =>
    ((KsServerBase.dispatchTransport (functions m c e.con.xdrs) c.memory e.con.rpcHeader.procedure
      e.con.xdrs).foldl (Endpoint.transport (ticketOf c e.con.xdrs)
        (streamAfter c e.con.rpcHeader.procedure e.con.xdrs)) e, m')

/-- The server, and its connections at their places. -/
structure KssTcpServer (ι : Type*) where
  memory : KssMemory
  pool : Pool
  connections : ι → Option Endpoint

/-- What the connection manager does: accept a client that is going to send `incoming`, read, write,
or call for attention. -/
inductive KssTcpEvent (ι : Type*) where
  | accept (i : ι) (raw : KssTCPXDRConnection) (info : Option ℕ) (nonblocking added : Bool)
      (incoming : List UInt8)
  | receive (i : ι) (sys : SystemCalls)
  | send (i : ι) (sys : SystemCalls)
  | attention (i : ι) (c : KsSimpleServer.Circumstances)

namespace KssTcpServer
variable {ι : Type*} [DecidableEq ι]

/-- A connection finds the pool as the others have left it. -/
def endpoint (s : KssTcpServer ι) (i : ι) : Option Endpoint :=
  (s.connections i).map fun e => { e with pool := s.pool }

def setEndpoint (s : KssTcpServer ι) (i : ι) (e : Endpoint) : KssTcpServer ι :=
  { s with pool := e.pool, connections := Function.update s.connections i (some e) }

@[simp] theorem setEndpoint_self (s : KssTcpServer ι) (i : ι) (e : Endpoint) :
    (s.setEndpoint i e).connections i = some e := Function.update_self ..

theorem setEndpoint_of_ne (s : KssTcpServer ι) {i j : ι} (h : j ≠ i) (e : Endpoint) :
    (s.setEndpoint i e).connections j = s.connections j := Function.update_of_ne h ..

/-- `KssListenTCPXDRConnection::receive`. A connection that is dead, or for which the connection
manager has no memory, is deleted without being shut down, so the fragments of its stream stay
taken. -/
def accept (s : KssTcpServer ι) (i : ι) (raw : KssTCPXDRConnection) (info : Option ℕ)
    (nonblocking added : Bool) (incoming : List UInt8) : KssTcpServer ι :=
  match KssTCPXDRConnection.create raw s.pool info nonblocking false .server with
  | (none, pool) => { s with pool }
  | (some con, pool) =>
      if con.state = .dead ∨ added = false then { s with pool }
      else s.setEndpoint i (.opened con pool incoming)

/-- One event. After a service has left its memory, nothing can be said of the server. -/
def step (s : KssTcpServer ι) : KssTcpEvent ι → KssTcpServer ι
  | .accept i raw info nonblocking added incoming => s.accept i raw info nonblocking added incoming
  | .receive i sys => (s.endpoint i).elim s fun e => s.setEndpoint i (e.receive sys).2
  | .send i sys => (s.endpoint i).elim s fun e => s.setEndpoint i (e.send sys).2
  | .attention i c => (s.endpoint i).elim s fun e =>
      (KsSimpleServer.attend s.memory c e).elim s fun r =>
        { s.setEndpoint i r.1 with memory := r.2 }

/-- A server without connections. -/
def started (ι : Type*) (m : KssMemory) (pool : Pool) : KssTcpServer ι := ⟨m, pool, fun _ => none⟩

end KssTcpServer

/-- A call that a client of the library sends, and the fragments it is cut into. -/
structure SentCall where
  xid : UInt32
  progNumber : UInt32
  progVersion : UInt32
  fragments : List (List UInt8)
  negotiator : KscNegotiatorObject
  params : KsServiceParams
  result : KsServiceResult

namespace SentCall

def rpc (call : SentCall) : SentRpcCall :=
  ⟨call.xid, call.progNumber, call.progVersion, call.params.serviceId,
    call.negotiator.xdrEncode.bytes ++ call.params.xdrEncode.bytes, call.fragments⟩

/-- The call under the circumstances in which the server gets to it. -/
def under (call : SentCall) (c : KsSimpleServer.Circumstances) : KsSimpleServer.RemoteCall :=
  ⟨c, call.negotiator, call.params, call.result⟩

/-- What a client sends. -/
def stream (calls : List SentCall) : List UInt8 :=
  calls.flatMap fun call => record call.fragments

structure Sendable (call : SentCall) : Prop where
  negotiator : call.negotiator.Sendable
  params : call.params.Sendable
  result : call.result.serviceId = call.params.serviceId
  nonempty : call.fragments ≠ []
  short : ∀ body ∈ call.fragments, body.length < 2 ^ 31
  flatten : call.fragments.flatten = call.rpc.message.bytes ++ call.rpc.arguments

theorem Sendable.under {call : SentCall} (h : call.Sendable) {c : KsSimpleServer.Circumstances}
    (hnow : c.now.Sendable) : (call.under c).Sendable :=
  ⟨hnow, h.negotiator, h.params, h.result⟩

theorem Sendable.proper {call : SentCall} (h : call.Sendable) : call.rpc.Proper := by
  refine ⟨h.nonempty, h.short, h.flatten, ?_⟩
  obtain ⟨_, -, haligned, htakes⟩ := KsServiceParams.takes h.params
  have hticket := (call.negotiator.takes_ticket h.negotiator 0).aligned
    (KsAvTicketObject.aligned_new 0)
  have hparams := htakes.aligned haligned
  rw [rpc, List.length_append]
  exact dvd_add (by simpa using hticket) (by simpa using hparams)

end SentCall

/-- A call that has been performed for the client at a connection, and its result. -/
structure ServedCall (ι : Type*) where
  connection : ι
  call : SentCall
  circumstances : KsSimpleServer.Circumstances
  result : KsServiceResult

namespace ServedCall
variable {ι : Type*} [DecidableEq ι]

def remote (d : ServedCall ι) : KsSimpleServer.RemoteCall := d.call.under d.circumstances

/-- The record that the client gets. -/
def reply (d : ServedCall ι) : List UInt8 :=
  let ticket := d.call.negotiator.ticket d.circumstances.defaultAccess
  replyRecord d.call.xid [ticket.xdrEncode, d.result.xdrEncode, ticket.xdrEncodeTrailer]

/-- Behind the fragment header and the RPC header, the client reads the result. -/
def Arrives (d : ServedCall ι) : Prop :=
  KsSimpleServer.Received d.result (d.remote.takeReply (XdrMem.ofBytes (d.reply.drop 28)))

/-- The calls of one client. -/
def on (i : ι) (served : List (ServedCall ι)) : List (ServedCall ι) :=
  served.filter fun d => d.connection = i

theorem on_concat_self (served : List (ServedCall ι)) (d : ServedCall ι) :
    on d.connection (served ++ [d]) = on d.connection served ++ [d] := by
  simp [on]

theorem on_concat_of_ne {i : ι} (served : List (ServedCall ι)) {d : ServedCall ι}
    (h : d.connection ≠ i) : on i (served ++ [d]) = on i served := by
  simp [on, h]

end ServedCall

namespace KsSimpleServer
variable {m m' : KssMemory} {c : Circumstances} {e e' : Endpoint} {call : SentCall} {size : ℕ}
  {calls : List SentCall} {replies : List (List UInt8)}

/-- The dispatcher sends the ticket, the result of the service and the trailer. -/
theorem transport_answer {σ : Type*} {xdr : σ} [XdrSource σ] {params : KsServiceParams}
    {result : KsServiceResult} {ticket : KsAvTicketObject} (hticket : ticketOf c xdr = ticket)
    (hperform : perform m c ticket.permissions params = some (result, m')) (pTicket : AvTicketPtr)
    (xdrs : MemStream) :
    e.transport ticket xdrs ((functions m c xdr).answer c.memory pTicket params) =
      e.sendMessage [ticket.xdrEncode, result.xdrEncode, ticket.xdrEncodeTrailer] := by
  subst hticket
  rcases answer_cases hperform pTicket with hreply | ⟨herror, hresult⟩
  · rw [hreply]
    rfl
  · rw [herror, hresult]
    rfl

/-- A connection that offers the call of a client gets the result of the service sent. -/
theorem attend_eq (hcall : call.Sendable) (hoffers : e.Offers call.rpc) :
    (streamAfter c call.params.serviceId e.con.xdrs).Holds [] ∧
      attend m c e = (perform m c (call.negotiator.ticket c.defaultAccess).permissions
        call.params).map fun r =>
          (Endpoint.sendMessage (e.setMem (e.pool,
            streamAfter c call.params.serviceId e.con.xdrs)).freeStreamMemory
              [(call.negotiator.ticket c.defaultAccess).xdrEncode, r.1.xdrEncode,
                (call.negotiator.ticket c.defaultAccess).xdrEncodeTrailer], r.2) := by
  obtain ⟨hread, hafter⟩ := request_read (c := c) feeding_memStream hcall.negotiator hcall.params
    hoffers.stream
  refine ⟨hafter, ?_⟩
  rw [attend, hoffers.procedure]
  show (memoryAfter m c call.params.serviceId e.con.xdrs).map _ = _
  rw [hread.memory]
  cases hperform : perform m c (call.negotiator.ticket c.defaultAccess).permissions call.params with
  | none => rfl
  | some r =>
    have hanswer := @transport_answer m r.2 c (e.setMem (e.pool,
      streamAfter c call.params.serviceId e.con.xdrs)).freeStreamMemory _ e.con.xdrs _ call.params r.1
      _ hread.ticket_eq hperform (.object 0) (streamAfter c call.params.serviceId e.con.xdrs)
    simp only [Option.map_some, SentCall.rpc, hread.events, hread.ticket_eq, List.foldl_cons,
      List.foldl_nil]
    exact congrArg (fun e => some (e, r.2)) hanswer

/-- Where a reply is sent, the call that the connection offers has been performed, and the reply is
its result. -/
theorem attend_answering (hcalls : ∀ call ∈ calls, call.Sendable) (hsize : LegalSize size)
    (h : e.Answering size (calls.map SentCall.rpc) replies) (hready : e.con.state = .ready)
    (hattend : attend m c e = some (e', m')) (hreplied : e'.Replied) :
    ∃ call result, calls[replies.length]? = some call ∧
      perform m c (call.negotiator.ticket c.defaultAccess).permissions call.params =
        some (result, m') ∧
      e'.Answering size (calls.map SentCall.rpc) (replies ++ [replyRecord call.xid
        [(call.negotiator.ticket c.defaultAccess).xdrEncode, result.xdrEncode,
          (call.negotiator.ticket c.defaultAccess).xdrEncodeTrailer]]) := by
  have hdead : e.con.state ≠ .dead := by simp [hready]
  obtain ⟨htype, hpool, -⟩ := h.consistent hdead
  have hstands := h.stands hdead
  simp only [Endpoint.Stands, hready] at hstands
  obtain ⟨-, -, rpc, hrpc, hoffers⟩ := hstands
  rw [List.getElem?_map, Option.map_eq_some_iff] at hrpc
  obtain ⟨call, hcall, rfl⟩ := hrpc
  have hproper : ∀ rpc ∈ calls.map SentCall.rpc, rpc.Proper := by
    intro rpc hmem
    obtain ⟨call, hcall, rfl⟩ := List.mem_map.mp hmem
    exact (hcalls call hcall).proper
  obtain ⟨hafter, heq⟩ := @attend_eq m c e call (hcalls call (List.mem_of_getElem? hcall)) hoffers
  obtain ⟨_, _, _, _, _, _, hdec, -⟩ := hafter
  rw [hattend] at heq
  obtain ⟨⟨result, m''⟩, hperform, hpair⟩ := Option.map_eq_some_iff.mp heq.symm
  obtain ⟨hsent, rfl⟩ := Prod.mk.inj hpair
  dsimp only at hsent
  refine ⟨call, result, hcall, hperform, ?_⟩
  have hxid : e.con.rpcHeader.xid = call.xid := hoffers.xid
  rw [← hxid]
  generalize hstream : streamAfter c call.params.serviceId e.con.xdrs = xdrs at hdec hsent
  have hclear : (e.setMem (e.pool, xdrs)).freeStreamMemory.pool.memStreamBufferSize = size :=
    (xdrmemstreamClear_bufferSize (e.pool, xdrs)).trans hpool
  rcases @Endpoint.sendMessage_cases (e.setMem (e.pool, xdrs)).freeStreamMemory _ hdead hdec.fault
    (by rw [hclear]; exact hsize) with hsends | ⟨e₁, hencoded, hreset⟩
  · rw [hsent, hclear] at hsends
    have hlast := hreplied.2 _ hsends.queuedRecords
    rw [sentRecord_length (by simp), List.length_append, BigEndian.encode_length] at hlast
    refine Endpoint.Sends.answering (e := e) hsends h hproper hready rfl rfl ?_
    change 4 + (Endpoint.replyBody e.con.rpcHeader.xid _).length < 2 ^ 31 + 4 at hlast
    omega
  · rw [hsent] at hreset
    have hstate := (Endpoint.reset_restarted (by rw [hencoded.state]; exact hdead)
      (hencoded.cnxType.trans htype)).2
    rw [← hreset, hencoded.state] at hstate
    have hsending := hreplied.1
    rw [hstate] at hsending
    have hready' : (e.setMem (e.pool, xdrs)).freeStreamMemory.con.state = .ready := hready
    rw [hready'] at hsending
    exact absurd hsending (show ConnectionState.ready ≠ .sending by decide)

end KsSimpleServer

/-- A result that fits into a message arrives at the client. -/
theorem ServedCall.arrives {ι : Type*} {d : ServedCall ι} (hcall : d.remote.Sendable)
    (hresult : d.result.Sendable) (hclass : d.result.serviceId = d.call.params.serviceId) :
    d.Arrives := by
  have hbytes : d.reply.drop 28 = (KsSimpleServer.replyOf
      (d.call.negotiator.ticket d.circumstances.defaultAccess) d.result).bytes := by
    obtain ⟨-, hreply, -⟩ :=
      KsSimpleServer.replyOf_eq hcall hresult hclass d.circumstances.defaultAccess
    have hreply' : (KsSimpleServer.replyOf
        (d.call.negotiator.ticket d.circumstances.defaultAccess) d.result).bytes = _ := hreply
    rw [hreply', reply, replyRecord, record, fragment, Endpoint.replyBody, ← List.append_assoc,
      List.drop_left' (by simp [RpcMessage.bytes, RpcMessage.words])]
    simp [remote, SentCall.under, KsAvTicketObject.xdrEncodeTrailer, Payload.nothing, Payload.bytes]
  obtain ⟨-, -, hlength⟩ :=
    KsSimpleServer.replyOf_eq hcall hresult hclass d.circumstances.defaultAccess
  obtain ⟨result', htake, halike⟩ := KsSimpleServer.takeReply_eq feeding_xdrMem hcall hresult hclass
    d.circumstances.defaultAccess (XdrMem.holds_ofBytes _)
  rw [Arrives, hbytes]
  exact ⟨congrArg Prod.fst htake, (congrArg Prod.snd htake).symm ▸ halike⟩

namespace KssTcpServer
open KsSimpleServer ServedCall
variable {ι : Type*} [DecidableEq ι] {s : KssTcpServer ι} {clients : ι → List SentCall}
  {m : KssMemory} {size : ℕ} {served served' : List (ServedCall ι)} {i : ι} {e e' : Endpoint}

/-- The connection manager does what the connections ask for, new clients send their calls, and there
is memory for what is received and for the replies. -/
def Obeys (clients : ι → List SentCall) (s : KssTcpServer ι) : KssTcpEvent ι → Prop
  | .accept i _ _ _ _ incoming =>
      s.connections i = none ∧ incoming = SentCall.stream (clients i)
  | .receive i sys => (s.endpoint i).elim False fun e =>
      e.getIoMode.readable = true ∧ e.receiveMeetsEnomem sys = false
  | .send i _ => (s.endpoint i).elim False fun e => e.getIoMode.writeable = true
  | .attention i c => (s.endpoint i).elim False fun e =>
      e.getIoMode.attention = true ∧ c.now.Sendable ∧
        (attend s.memory c e).elim False fun r => r.1.Replied

/-- What is asked of a connection that may be missing can be decided. -/
def decidableElim {α : Type*} (o : Option α) (p : α → Prop) [DecidablePred p] :
    Decidable (o.elim False p) :=
  match o with
  | none => .isFalse id
  | some a => inferInstanceAs (Decidable (p a))

instance (clients : ι → List SentCall) (s : KssTcpServer ι) :
    ∀ ev, Decidable (s.Obeys clients ev)
  | .accept .. => inferInstanceAs (Decidable (_ ∧ _))
  | .receive .. => decidableElim _ _
  | .send .. => decidableElim _ _
  | .attention _ c =>
      have : DecidablePred fun e : Endpoint => e.getIoMode.attention = true ∧ c.now.Sendable ∧
          (attend s.memory c e).elim False fun r => r.1.Replied := fun e =>
        have := decidableElim (attend s.memory c e) fun r => r.1.Replied
        inferInstanceAs (Decidable (_ ∧ _))
      decidableElim _ _

/-- The calls that have been performed account for the memory of the server, and for what has been
written to its clients. -/
structure Accounts (clients : ι → List SentCall) (m : KssMemory) (size : ℕ) (s : KssTcpServer ι)
    (served : List (ServedCall ι)) : Prop where
  performed : performAll m (served.map remote) = some (served.map ServedCall.result, s.memory)
  sound : s.memory.Sound
  sendable : s.memory.Sendable
  bufferSize : s.pool.memStreamBufferSize = size
  received (d : ServedCall ι) : d ∈ served → d.Arrives
  calls (i : ι) : (on i served).map ServedCall.call <+: clients i
  absent (i : ι) : s.connections i = none → on i served = []
  present (i : ι) (e : Endpoint) : s.connections i = some e →
    e.Answering size ((clients i).map SentCall.rpc) ((on i served).map reply)

theorem Accounts.endpoint (h : Accounts clients m size s served) (he : s.endpoint i = some e) :
    e.Answering size ((clients i).map SentCall.rpc) ((on i served).map reply) := by
  obtain ⟨e, hcon, rfl⟩ := Option.map_eq_some_iff.mp he
  exact (h.present i e hcon).of_pool h.bufferSize

/-- Something happens at one connection, and the calls that have been performed there account for
it. -/
theorem Accounts.set (h : Accounts clients m size s served)
    (hanswering : e'.Answering size ((clients i).map SentCall.rpc) ((on i served).map reply)) :
    Accounts clients m size (s.setEndpoint i e') served := by
  refine ⟨h.performed, h.sound, h.sendable, hanswering.bufferSize, h.received, h.calls,
    fun j hj => ?_, fun j e hj => ?_⟩
  · by_cases hij : j = i
    · subst hij
      rw [setEndpoint_self] at hj
      cases hj
    · rw [s.setEndpoint_of_ne hij] at hj
      exact h.absent j hj
  · by_cases hij : j = i
    · subst hij
      rw [setEndpoint_self, Option.some.injEq] at hj
      exact hj ▸ hanswering
    · rw [s.setEndpoint_of_ne hij] at hj
      exact h.present j e hj

/-- A call is performed for a client. -/
theorem Accounts.serve (h : Accounts clients m size s served) {d : ServedCall ι} {m' : KssMemory}
    (hcalls : ∀ i, ∀ call ∈ clients i, call.Sendable)
    (hnow : d.circumstances.now.Sendable)
    (hnext : (clients d.connection)[(on d.connection served).length]? = some d.call)
    (hperform : performCall s.memory d.remote = some (d.result, m'))
    (hanswering : e'.Answering size ((clients d.connection).map SentCall.rpc)
      ((on d.connection served).map reply ++ [d.reply])) :
    Accounts clients m size { s.setEndpoint d.connection e' with memory := m' } (served ++ [d]) := by
  have hcall := hcalls _ _ (List.mem_of_getElem? hnext)
  obtain ⟨hsound, hsendable⟩ := perform_keeps h.sound h.sendable hcall.params hperform
  obtain ⟨hclass, hresult⟩ := perform_result h.sound h.sendable hnow hcall.params hperform
  refine ⟨?_, hsound, hsendable, hanswering.bufferSize, fun d' hd' => ?_, fun j => ?_,
    fun j hj => ?_, fun j e hj => ?_⟩
  · rw [List.map_append, List.map_append]
    exact runAll_concat h.performed hperform
  · rcases List.mem_append.mp hd' with hd' | hd'
    · exact h.received d' hd'
    · rw [List.mem_singleton.mp hd']
      exact arrives (hcall.under hnow) hresult hclass
  · by_cases hij : d.connection = j
    · subst hij
      rw [on_concat_self, List.map_append, List.map_singleton,
        List.prefix_iff_eq_take.mp (h.calls d.connection), List.length_map]
      have htake := (clients d.connection).take_add_one (i := (on d.connection served).length)
      rw [hnext, Option.toList_some] at htake
      rw [← htake]
      exact List.take_prefix _ _
    · rw [on_concat_of_ne _ hij]
      exact h.calls j
  · by_cases hij : d.connection = j
    · subst hij
      rw [setEndpoint_self] at hj
      cases hj
    · rw [s.setEndpoint_of_ne (Ne.symm hij)] at hj
      rw [on_concat_of_ne _ hij]
      exact h.absent j hj
  · by_cases hij : d.connection = j
    · subst hij
      rw [setEndpoint_self, Option.some.injEq] at hj
      subst hj
      rw [on_concat_self, List.map_append]
      exact hanswering
    · rw [s.setEndpoint_of_ne (Ne.symm hij)] at hj
      rw [on_concat_of_ne _ hij]
      exact h.present j e hj

theorem Accounts.of_pool (h : Accounts clients m size s served) {pool : Pool}
    (hpool : pool.memStreamBufferSize = size) : Accounts clients m size { s with pool } served :=
  ⟨h.performed, h.sound, h.sendable, hpool, h.received, h.calls, h.absent, h.present⟩

theorem create_bufferSize (raw : KssTCPXDRConnection) (pool : Pool) (info : Option ℕ)
    (nonblocking connecting : Bool) (type : ConnectionType) :
    (KssTCPXDRConnection.create raw pool info nonblocking connecting
      type).2.memStreamBufferSize = pool.memStreamBufferSize := by
  have hstream : (xdrmemstreamCreate pool info).2.memStreamBufferSize =
      pool.memStreamBufferSize := by
    have htake := pool.takeFragment_bufferSize
    cases info with
    | none => rfl
    | some garbage =>
      rcases hfragment : pool.takeFragment with ⟨_ | f, pool'⟩ <;> rw [hfragment] at htake <;>
        simpa [xdrmemstreamCreate, hfragment] using htake
  rcases hcreate : xdrmemstreamCreate pool info with ⟨_ | xdrs, pool'⟩
  · rw [hcreate] at hstream
    simpa [KssTCPXDRConnection.create, hcreate] using hstream
  · rw [hcreate] at hstream
    cases nonblocking <;> cases type <;> simpa [KssTCPXDRConnection.create, hcreate] using hstream

theorem Accounts.accept (h : Accounts clients m size s served) {raw : KssTCPXDRConnection}
    {info : Option ℕ} {nonblocking added : Bool} (habsent : s.connections i = none) :
    Accounts clients m size
      (s.accept i raw info nonblocking added (SentCall.stream (clients i))) served := by
  have hpool := create_bufferSize raw s.pool info nonblocking false .server
  unfold KssTcpServer.accept
  rcases hcreate : KssTCPXDRConnection.create raw s.pool info nonblocking false .server with
    ⟨_ | con, pool⟩
  · rw [hcreate] at hpool
    exact h.of_pool (hpool.trans h.bufferSize)
  · rw [hcreate] at hpool
    dsimp only
    split_ifs with hdead
    · exact h.of_pool (hpool.trans h.bufferSize)
    · refine h.set ?_
      rw [h.absent i habsent]
      have hopened := @Endpoint.answering_opened ((clients i).map SentCall.rpc) _ _ _ _ _ _ _ hcreate
        (not_or.mp hdead).1
      rw [h.bufferSize, List.flatMap_map] at hopened
      exact hopened

/-- One event. -/
theorem Accounts.step (h : Accounts clients m size s served) (hsize : LegalSize size)
    (hclients : ∀ i, ∀ call ∈ clients i, call.Sendable) {ev : KssTcpEvent ι}
    (hobeys : s.Obeys clients ev) :
    ∃ served', Accounts clients m size (s.step ev) served' := by
  have hproper : ∀ i, ∀ rpc ∈ (clients i).map SentCall.rpc, rpc.Proper := by
    intro i rpc hmem
    obtain ⟨call, hcall, rfl⟩ := List.mem_map.mp hmem
    exact (hclients i call hcall).proper
  cases ev with
  | accept i raw info nonblocking added incoming =>
    obtain ⟨habsent, rfl⟩ := hobeys
    exact ⟨served, h.accept habsent⟩
  | receive i sys =>
    rw [Obeys] at hobeys
    rw [KssTcpServer.step]
    cases he : s.endpoint i with
    | none => rw [he] at hobeys; exact hobeys.elim
    | some e =>
      rw [he] at hobeys
      obtain ⟨hreadable, henomem⟩ := hobeys
      have hanswering := h.endpoint he
      exact ⟨served, h.set (hanswering.receive (hproper i) hsize
        (hanswering.consistent.mode.1 hreadable) henomem)⟩
  | send i sys =>
    rw [Obeys] at hobeys
    rw [KssTcpServer.step]
    cases he : s.endpoint i with
    | none => rw [he] at hobeys; exact hobeys.elim
    | some e =>
      rw [he] at hobeys
      have hanswering := h.endpoint he
      exact ⟨served, h.set (hanswering.send hsize (hanswering.consistent.mode.2.1 hobeys))⟩
  | attention i c =>
    rw [Obeys] at hobeys
    rw [KssTcpServer.step]
    cases he : s.endpoint i with
    | none => rw [he] at hobeys; exact hobeys.elim
    | some e =>
      rw [he] at hobeys
      obtain ⟨hattention, hnow, hattend⟩ := hobeys
      have hanswering := h.endpoint he
      have hready := hanswering.consistent.mode.2.2 hattention
      dsimp only [Option.elim_some]
      cases ha : attend s.memory c e with
      | none => rw [ha] at hattend; exact hattend.elim
      | some r =>
        obtain ⟨e', m'⟩ := r
        rw [ha] at hattend
        obtain ⟨call, result, hcall, hperform, hnext⟩ :=
          attend_answering (hclients i) hsize hanswering hready ha hattend
        rw [List.length_map] at hcall
        exact ⟨_, h.serve (d := ⟨i, call, c, result⟩) hclients hnow hcall hperform hnext⟩

end KssTcpServer

/-- Whatever a simple server's connections do, in any order and in whatever pieces the calls come in
and the replies go out, as long as the connection manager heeds what they ask for and memory does
not run out: there is one order of calls that accounts for the memory of the server, and for every
client, first come, first served, for its calls, of which none is performed twice, and for what has
been written to it, which are the results; no call is left once the client has been read out. -/
theorem KssTcpServer.served_inOrder {ι : Type*} [DecidableEq ι] {m : KssMemory} {pool : Pool}
    (hsize : LegalSize pool.memStreamBufferSize) (h : m.Sound) (hm : m.Sendable)
    {clients : ι → List SentCall} (hclients : ∀ i, ∀ call ∈ clients i, call.Sendable)
    {es : List (KssTcpEvent ι)} (hes : Along step (Obeys clients) (started ι m pool) es) :
    ∃ served : List (ServedCall ι),
      KsSimpleServer.performAll m (served.map ServedCall.remote) =
        some (served.map ServedCall.result, (run step (started ι m pool) es).memory) ∧
      (∀ d ∈ served, d.Arrives) ∧
      ∀ i, (ServedCall.on i served).map ServedCall.call <+: clients i ∧
        ∀ e, (run step (started ι m pool) es).connections i = some e →
          e.socket.written <+: (ServedCall.on i served).flatMap ServedCall.reply ∧
          (e.con.state = .idle →
            e.socket.written = (ServedCall.on i served).flatMap ServedCall.reply ∧
            (e.socket.incoming = [] → (ServedCall.on i served).map ServedCall.call = clients i)) := by
  have hstart : Accounts clients m pool.memStreamBufferSize (started ι m pool) [] :=
    ⟨rfl, h, hm, rfl, fun _ hd => absurd hd List.not_mem_nil, fun _ => List.nil_prefix,
      fun _ _ => rfl, fun _ _ he => by cases he⟩
  obtain ⟨served, hserved⟩ := run_invariant
    (I := fun s => ∃ served, Accounts clients m pool.memStreamBufferSize s served)
    (fun s ev ⟨served, hs⟩ hobeys => hs.step hsize hclients hobeys) ⟨[], hstart⟩ hes
  refine ⟨served, hserved.performed, hserved.received, fun i => ⟨hserved.calls i, fun e he => ?_⟩⟩
  have hanswering := hserved.present i e he
  have hwritten := hanswering.written
  rw [← List.flatMap_def] at hwritten
  refine ⟨hwritten, fun hidle => ⟨?_, fun hincoming => ?_⟩⟩
  · have hstands := hanswering.stands (by simp [hidle])
    simp only [Endpoint.Stands, hidle] at hstands
    rw [hstands.2, List.flatMap_def]
  · have hall := hanswering.all (fun rpc hmem => by
      obtain ⟨call, hcall, rfl⟩ := List.mem_map.mp hmem
      exact (hclients i call hcall).proper) hidle hincoming
    rw [List.length_map, List.length_map] at hall
    exact (hserved.calls i).eq_of_length (by rw [List.length_map, hall])

/-- A call in two fragments, the first of them so long. -/
def SentCall.cutAt (cut : ℕ) (xid : UInt32) (negotiator : KscNegotiatorObject)
    (params : KsServiceParams) (result : KsServiceResult) : SentCall :=
  let body := (RpcMessage.call xid 0x49678 1 params.serviceId).bytes ++
    (negotiator.xdrEncode.bytes ++ params.xdrEncode.bytes)
  ⟨xid, 0x49678, 1, [body.take cut, body.drop cut], negotiator, params, result⟩

theorem SentCall.cutAt_sendable {cut : ℕ} {xid : UInt32} {negotiator : KscNegotiatorObject}
    {params : KsServiceParams} {result : KsServiceResult} (hnegotiator : negotiator.Sendable)
    (hparams : params.Sendable) (hresult : result.serviceId = params.serviceId)
    (hshort : negotiator.xdrEncode.bytes.length + params.xdrEncode.bytes.length < 2 ^ 30) :
    (SentCall.cutAt cut xid negotiator params result).Sendable := by
  have hlength : (RpcMessage.call xid 0x49678 1 params.serviceId).bytes.length = 40 := by
    simp [RpcMessage.bytes, RpcMessage.words]
  have hall : ((RpcMessage.call xid 0x49678 1 params.serviceId).bytes ++
      (negotiator.xdrEncode.bytes ++ params.xdrEncode.bytes)).length < 2 ^ 31 := by
    rw [List.length_append, List.length_append, hlength]
    omega
  refine ⟨hnegotiator, hparams, hresult, List.cons_ne_nil _ _, fun body hbody => ?_, ?_⟩
  · rcases List.mem_pair.mp hbody with rfl | rfl
    · exact (List.take_sublist _ _).length_le.trans_lt hall
    · exact (List.drop_sublist _ _).length_le.trans_lt hall
  · simp [cutAt, rpc, SentRpcCall.message]

/-- One client writes to `/p`, and the other one reads it. -/
def pumpClients : Bool → List SentCall
  | true => [.cutAt 5 1 (.simple [109, 101])
      (.setVar ⟨[⟨[47, 112], some (.var (some (.int 7)) ⟨1, 0⟩ KsState.good)⟩]⟩) (.setVar ⟨0, []⟩)]
  | false => [.cutAt 0 9 .none (.getVar ⟨[[47, 112]]⟩) (.getVar ⟨0, []⟩)]

/-- The calls and the replies come in pieces, some of them at the same time. -/
def pumpTraffic : List (KssTcpEvent Bool) :=
  let c : KsSimpleServer.Circumstances := ⟨⟨⟨5, 0⟩, fun _ => 0⟩, true, {}, KsAccess.readWrite⟩
  [.accept true zeroedConnection (some 0) true true (SentCall.stream (pumpClients true)),
    .accept false zeroedConnection (some 0) true true (SentCall.stream (pumpClients false)),
    .receive true { outcomes := [.transfers 4, .transfers 3] },
    .receive false { outcomes := [.transfers 4] },
    .receive true { outcomes := [.transfers 2] },
    .receive true { outcomes := [.transfers 4, .transfers 400] },
    .attention true c,
    .receive false { outcomes := [.transfers 4, .transfers 400] },
    .send true { outcomes := [.transfers 5] },
    .attention false c,
    .send false { outcomes := [.transfers 500] },
    .send true { outcomes := [.transfers 500] }]

open KssTcpServer KsSimpleServer in
/-- Both calls are served. -/
theorem KssTcpServer.served_inOrder_pump : ∃ (m : KssMemory) (pool : Pool),
    (∀ i, ((run step (started Bool m pool) pumpTraffic).connections i).any fun e =>
      e.con.state = .idle ∧ e.socket.incoming = []) ∧
    ∃ served : List (ServedCall Bool),
      performAll m (served.map ServedCall.remote) =
        some (served.map ServedCall.result, (run step (started Bool m pool) pumpTraffic).memory) ∧
      (∀ d ∈ served, d.Arrives) ∧
      ∀ i, (ServedCall.on i served).map ServedCall.call <+: pumpClients i ∧
        ∀ e, (run step (started Bool m pool) pumpTraffic).connections i = some e →
          e.socket.written <+: (ServedCall.on i served).flatMap ServedCall.reply ∧
          (e.con.state = .idle →
            e.socket.written = (ServedCall.on i served).flatMap ServedCall.reply ∧
            (e.socket.incoming = [] →
              (ServedCall.on i served).map ServedCall.call = pumpClients i)) := by
  obtain ⟨m₀, m, hcreate, rfl, hsound, -⟩ := exists_pump
  let pool := Pool.initial fun _ => some fun _ => 0
  have hrun : (create ⟨⟨0, 0⟩, fun _ => 0⟩).map (fun m₀ =>
      let s := started Bool (run KsSimpleServer.step m₀ pumpEvents) pool
      (decide s.memory.Sendable, decide (Along step (Obeys pumpClients) s pumpTraffic),
        decide (∀ i, ((run step s pumpTraffic).connections i).any fun e =>
          e.con.state = .idle ∧ e.socket.incoming = []))) = some (true, true, true) := by
    decide +kernel
  rw [hcreate, Option.map_some, Option.some.injEq] at hrun
  obtain ⟨hsendable, hrun⟩ := Prod.mk.inj hrun
  obtain ⟨hobeys, hends⟩ := Prod.mk.inj hrun
  have hclients : ∀ i, ∀ call ∈ pumpClients i, call.Sendable := by
    intro i call hcall
    cases i with
    | true =>
      obtain rfl := List.mem_singleton.mp hcall
      refine SentCall.cutAt_sendable (show KsString.Sendable [109, 101] by decide) ⟨by decide, ?_⟩
        rfl (by decide)
      simp only [List.mem_singleton, forall_eq]
      exact ⟨by decide, _, rfl, ⟨_, rfl, trivial⟩, by decide⟩
    | false =>
      obtain rfl := List.mem_singleton.mp hcall
      refine SentCall.cutAt_sendable trivial ⟨by decide, ?_⟩ rfl (by decide)
      simp only [List.mem_singleton, forall_eq]
      decide
  exact ⟨_, pool, of_decide_eq_true hends, served_inOrder legalSize_default hsound
    (of_decide_eq_true hsendable) hclients (of_decide_eq_true hobeys)⟩

end AcpltKs
