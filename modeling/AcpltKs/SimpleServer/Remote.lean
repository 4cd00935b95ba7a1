import AcpltKs.Client.Transport
import AcpltKs.Library.AnsweringMachines
import AcpltKs.SimpleServer.Answering
import AcpltKs.SimpleServer.Runs

/-! Clients of a simple server that is somewhere else: requests and replies are bytes, which the
server and its clients read from streams of their own. -/
namespace AcpltKs
open AnsweringMachines GuardedRun

namespace KsSimpleServer

section Server
variable {σ : Type*} [XdrSource σ]

/-- `KsServerBase::getTicket` -/
def getTicket (c : Circumstances) (xdr : σ) : Option KsAvTicketObject × σ :=
  (KsAvTicketObject.xdrNew c.defaultAccess).run xdr

/-- The ticket that a request is served with. -/
def ticketOf (c : Circumstances) (xdr : σ) : KsAvTicketObject :=
  (getTicket c xdr).1.getD .emergencyTicket

/-- The virtual functions of the server while it handles the request in this stream, whose ticket is
the only one there is. -/
def functions (m : KssMemory) (c : Circumstances) (request : σ) : KsServerFunctions σ where
  getTicket xdr := ((getTicket c xdr).1.map fun _ => .object 0, (getTicket c xdr).2)
  ticket _ := ⟨(ticketOf c request).result, true⟩
  getVar _ params result :=
    (getVar (⟨m, c.toKssEnvironment, 0⟩ : KssHandle) (ticketOf c request).permissions c.room params
      result).getD result
  setVar _ params result :=
    ((setVar m c.toKssEnvironment (ticketOf c request).permissions c.room params result).map
      Prod.fst).getD result
  getEP _ params :=
    (getEP (⟨m, c.toKssEnvironment, 0⟩ : KssHandle) (ticketOf c request).permissions params
      ⟨KsResult.blank, []⟩).getD ⟨KsResult.blank, []⟩
  exgData _ _ result := { result with result := .notImplemented }

/-- What follows the header of a reply: the ticket, the result and the trailer. An error is never
reported as success. -/
def sent (ticket : KsAvTicketObject) : DispatchEvent → Option Payload
  | .sendPingReply => some .nothing
  | .sendErrorReply _ error =>
      some (ticket.xdrEncode.andThen ((KsResult.xdrEncode (if error = .ok then .generic else error)).andThen
        ticket.xdrEncodeTrailer))
  | .sendReply _ result =>
      some (ticket.xdrEncode.andThen (result.andThen ticket.xdrEncodeTrailer))
  | _ => none

/-- The memory after a request; nothing if the service leaves it. -/
def memoryAfter (m : KssMemory) (c : Circumstances) (serviceId : UInt32) (xdr : σ) :
    Option KssMemory :=
  if serviceId = 0 ∨ (ticketOf c xdr).result ≠ .ok then some m
  else
    (KsServiceParams.xdrDecode serviceId).elim (some m) fun reader =>
      let (decodedOk, params) := (reader.run (getTicket c xdr).2).1
      if decodedOk then (perform m c (ticketOf c xdr).permissions params).map Prod.snd else some m

/-- The stream of a request, as far as the server has read it. -/
def streamAfter (c : Circumstances) (serviceId : UInt32) (xdr : σ) : σ :=
  if serviceId = 0 then xdr
  else if (ticketOf c xdr).result ≠ .ok then (getTicket c xdr).2
  else
    (KsServiceParams.xdrDecode serviceId).elim (getTicket c xdr).2 fun reader =>
      (reader.run (getTicket c xdr).2).2

/-- A request is dispatched; the reply, if one is sent, and the memory afterwards. -/
def serveRequest (m : KssMemory) (c : Circumstances) (serviceId : UInt32) (xdr : σ) :
    Option (Option Payload × KssMemory) :=
  (memoryAfter m c serviceId xdr).map fun m' =>
    ((KsServerBase.dispatchTransport (functions m c xdr) c.memory serviceId xdr).findSome?
      (sent (ticketOf c xdr)), m')

end Server

/-- The call of a service by a client, with its negotiator and the result that it has. -/
structure RemoteCall where
  circumstances : Circumstances
  negotiator : KscNegotiatorObject
  params : KsServiceParams
  result : KsServiceResult

/-- What the client writes: `KscRequestInHelper`. -/
def RemoteCall.request (call : RemoteCall) : Payload :=
  call.negotiator.xdrEncode.andThen call.params.xdrEncode

/-- What the client reads: `KscRequestOutHelper`. -/
def RemoteCall.takeReply {σ : Type*} [XdrSource σ] (call : RemoteCall) (xdr : σ) :
    ClntStat × KsServiceResult :=
  let (accepted, xdr) := call.negotiator.xdrDecode.run xdr
  if accepted then
    let (decodedOk, result) := ((KsServiceResult.xdrDecode call.result).run xdr).1
    (if decodedOk then .success else .cantDecodeRes, result)
  else (.cantDecodeRes, call.result)

section Exchange
variable {σ τ : Type*} [XdrSource σ] [XdrSource τ] (toServer : List UInt8 → σ)
  (toClient : List UInt8 → τ)

/-- The call goes to the server, and the reply comes back. A server that does not get its reply
written hangs up. -/
def exchange (m : KssMemory) (call : RemoteCall) :
    Option ((ClntStat × KsServiceResult) × KssMemory) :=
  if call.request.ok then
    (serveRequest m call.circumstances call.params.serviceId
      (toServer call.request.bytes)).map fun r =>
        (r.1.elim (.cantRecv, call.result) fun reply =>
          if reply.ok then call.takeReply (toClient reply.bytes) else (.cantRecv, call.result), r.2)
  else some ((.cantEncodeArgs, call.result), m)

/-- Calls one after the other. -/
def exchangeAll (m : KssMemory) (calls : List RemoteCall) :
    Option (List (ClntStat × KsServiceResult) × KssMemory) :=
  runAll (exchange toServer toClient) m calls

end Exchange

/-- The same call without a network, with the permissions that a ticket for it has. -/
def performCall (m : KssMemory) (call : RemoteCall) : Option (KsServiceResult × KssMemory) :=
  perform m call.circumstances
    (call.negotiator.ticket call.circumstances.defaultAccess).permissions call.params

def performAll (m : KssMemory) (calls : List RemoteCall) :
    Option (List KsServiceResult × KssMemory) :=
  runAll performCall m calls

/-- The call fits into a message, and the client has a result of its kind. -/
structure RemoteCall.Sendable (call : RemoteCall) : Prop where
  now : call.circumstances.now.Sendable
  negotiator : call.negotiator.Sendable
  params : call.params.Sendable
  result : call.result.serviceId = call.params.serviceId

/-- What is sent for a result. -/
def replyOf (ticket : KsAvTicketObject) (result : KsServiceResult) : Payload :=
  ticket.xdrEncode.andThen (result.xdrEncode.andThen ticket.xdrEncodeTrailer)

section Serving
variable {σ : Type*} [XdrSource σ] {P : σ → List UInt8 → Prop} {m m' : KssMemory}
  {c : Circumstances} {xdr : σ} {params : KsServiceParams} {result : KsServiceResult}

theorem length_newArray {α : Type*} (room : Bool) (l : List α) {β : Type*} (blank : β) :
    (newArray room l.length blank).length = l.length ↔ (room || l.isEmpty) = true := by
  cases room with
  | true => simp [newArray]
  | false => cases l <;> simp [newArray]

/-- The dispatcher answers with the result of the service, which it writes as an error if there is
no memory for it. -/
theorem answer_cases (hperform : perform m c (ticketOf c xdr).permissions params = some (result, m'))
    (pTicket : AvTicketPtr) :
    (functions m c xdr).answer c.memory pTicket params = .sendReply pTicket result.xdrEncode ∨
      (functions m c xdr).answer c.memory pTicket params = .sendErrorReply pTicket .generic ∧
        result.xdrEncode = KsResult.xdrEncode .generic := by
  cases params with
  | getVar params =>
    obtain ⟨r, hget, hsome⟩ := Option.map_eq_some_iff.mp hperform
    cases hsome
    unfold blankGetVarResult at hget
    simp only [KsServerFunctions.answer, functions, hget, Option.getD_some]
    exact Or.inl rfl
  | setVar params =>
    obtain ⟨⟨r, m''⟩, hset, hsome⟩ := Option.map_eq_some_iff.mp hperform
    cases hsome
    unfold blankSetVarResult at hset
    simp only [KsServerFunctions.answer, functions, hset, Option.map_some, Option.getD_some]
    exact Or.inl rfl
  | getPP params =>
    obtain ⟨r, hget, hsome⟩ := Option.map_eq_some_iff.mp hperform
    cases hsome
    simp only [KsServerFunctions.answer, functions, hget, Option.getD_some]
    exact Or.inl rfl
  | getEP params =>
    obtain ⟨r, hget, hsome⟩ := Option.map_eq_some_iff.mp hperform
    cases hsome
    simp only [KsServerFunctions.answer, functions, hget, Option.getD_some]
    exact Or.inl rfl
  | exgData params =>
    cases hperform
    simp only [KsServerFunctions.answer, length_newArray, ← Bool.and_eq_true]
    cases harrays : hasExgDataArrays c params with
    | true =>
      rw [hasExgDataArrays] at harrays
      rw [harrays]
      exact Or.inl rfl
    | false =>
      rw [hasExgDataArrays] at harrays
      rw [harrays]
      exact Or.inr ⟨rfl, rfl⟩

/-- The dispatcher sends what the services return. -/
theorem sent_answer (hperform : perform m c (ticketOf c xdr).permissions params = some (result, m'))
    (pTicket : AvTicketPtr) :
    sent (ticketOf c xdr) ((functions m c xdr).answer c.memory pTicket params) =
      some (replyOf (ticketOf c xdr) result) := by
  rcases answer_cases hperform pTicket with hreply | ⟨herror, hresult⟩
  · rw [hreply]
    rfl
  · rw [herror, replyOf, hresult]
    rfl

/-- What becomes of a request that has been read from its stream as one with this ticket and these
parameters. -/
structure RequestRead (c : Circumstances) (xdr : σ) (ticket : KsAvTicketObject)
    (params : KsServiceParams) : Prop where
  ticket_eq : ticketOf c xdr = ticket
  memory (m : KssMemory) : memoryAfter m c params.serviceId xdr =
    (perform m c ticket.permissions params).map Prod.snd
  events (m : KssMemory) :
    KsServerBase.dispatchTransport (functions m c xdr) c.memory params.serviceId xdr =
      [.getTicket (some (.object 0)), .finishRequestDeserialization (.object 0) true,
        (functions m c xdr).answer c.memory (.object 0) params, .deleteTicket (.object 0)]

/-- A request from a client of the library is read as it was sent, and nothing behind it. -/
theorem request_read (hP : Feeding P) {neg : KscNegotiatorObject} (hneg : neg.Sendable)
    (hparams : params.Sendable) (hxdr : P xdr (neg.xdrEncode.bytes ++ params.xdrEncode.bytes)) :
    RequestRead c xdr (neg.ticket c.defaultAccess) params ∧
      P (streamAfter c params.serviceId xdr) [] := by
  obtain ⟨reader, hreader, haligned, htakes⟩ := KsServiceParams.takes hparams
  obtain ⟨xdr', hticket, hxdr'⟩ := hP.run (neg.takes_ticket hneg c.defaultAccess)
    (KsAvTicketObject.aligned_new _) (by simpa using htakes.aligned haligned) hxdr
  rw [← List.append_nil params.xdrEncode.bytes] at hxdr'
  obtain ⟨xdr'', hrun, hxdr''⟩ := hP.run htakes haligned (dvd_zero 4) hxdr'
  have hobtained : getTicket c xdr = (some (neg.ticket c.defaultAccess), xdr') := hticket
  have hof : ticketOf c xdr = neg.ticket c.defaultAccess := by rw [ticketOf, hobtained]; rfl
  have hresult := neg.ticket_result c.defaultAccess
  have hservice := params.serviceId_ne_zero
  refine ⟨⟨hof, fun m => ?_, fun m => ?_⟩, ?_⟩
  · simp [memoryAfter, hservice, hof, hresult, hreader, hobtained, hrun]
  · have hdispatch : KsServerBase.dispatch (functions m c xdr) c.memory params.serviceId xdr'
        (.object 0) = [.finishRequestDeserialization (.object 0) true,
          (functions m c xdr).answer c.memory (.object 0) params] := by
      rw [KsServerBase.dispatch_eq, hreader, Option.elim_some, KsServerBase.readParams, hrun]
      rfl
    simp only [KsServerBase.dispatchTransport, if_neg hservice]
    have hget : (functions m c xdr).getTicket xdr = (some (.object 0), xdr') := by
      simp only [functions, hobtained, Option.map_some]
    have hat : (functions m c xdr).ticketAt (.object 0) = ⟨.ok, true⟩ := by
      simp only [KsServerFunctions.ticketAt, functions, hof, hresult]
    simp only [hget, Option.getD_some, hat, hdispatch]
    rfl
  · simpa [streamAfter, hservice, hof, hresult, hreader, hobtained, hrun] using hxdr''

/-- A request from a client of the library is answered with the result of the service. -/
theorem serveRequest_eq (hP : Feeding P) {neg : KscNegotiatorObject} (hneg : neg.Sendable)
    (hparams : params.Sendable) (hxdr : P xdr (neg.xdrEncode.bytes ++ params.xdrEncode.bytes)) :
    serveRequest m c params.serviceId xdr =
      (perform m c (neg.ticket c.defaultAccess).permissions params).map fun r =>
        (some (replyOf (neg.ticket c.defaultAccess) r.1), r.2) := by
  obtain ⟨hread, -⟩ := request_read hP hneg hparams hxdr
  rw [serveRequest, hread.memory]
  cases hperform : perform m c (neg.ticket c.defaultAccess).permissions params with
  | none => rfl
  | some r =>
    have hsent := @sent_answer σ _ m r.2 c xdr params r.1 (by rw [hread.ticket_eq]; exact hperform)
      (.object 0)
    rw [hread.ticket_eq] at hsent
    rw [hread.events, hread.ticket_eq, Option.map_some, Option.map_some, Option.map_some,
      List.findSome?_cons_of_isNone rfl, List.findSome?_cons_of_isNone rfl,
      List.findSome?_cons_of_isSome (by rw [hsent]; rfl), hsent]

end Serving

section Runs
variable {σ τ : Type*} [XdrSource σ] [XdrSource τ] {P : σ → List UInt8 → Prop}
  {Q : τ → List UInt8 → Prop} {toServer : List UInt8 → σ} {toClient : List UInt8 → τ}
  {m m' : KssMemory} {call : RemoteCall} {calls : List RemoteCall} {xdr : τ}
  {result : KsServiceResult}

/-- The reply to a call consists of whole words. -/
theorem replyOf_eq (hcall : call.Sendable) (hresult : result.Sendable)
    (hclass : result.serviceId = call.params.serviceId) (defaultAccess : KsAccess) :
    (replyOf (call.negotiator.ticket defaultAccess) result).ok = true ∧
      (replyOf (call.negotiator.ticket defaultAccess) result).bytes =
        (call.negotiator.ticket defaultAccess).xdrEncode.bytes ++ result.xdrEncode.bytes ∧
      4 ∣ (replyOf (call.negotiator.ticket defaultAccess) result).bytes.length := by
  obtain ⟨hok, _, htakes, -⟩ := KsServiceResult.restores hresult (hcall.result.trans hclass.symm)
  have hlength := htakes.aligned (KsServiceResult.aligned_decode call.result)
  have hticket := (call.negotiator.takes_reply (Or.inr ⟨defaultAccess, rfl⟩)).aligned
    call.negotiator.aligned_decode
  have hbytes : (replyOf (call.negotiator.ticket defaultAccess) result).bytes =
      (call.negotiator.ticket defaultAccess).xdrEncode.bytes ++ result.xdrEncode.bytes := by
    rw [replyOf, Payload.bytes_andThen rfl, Payload.bytes_andThen hok]
    simp [KsAvTicketObject.xdrEncodeTrailer, Payload.nothing, Payload.bytes]
  refine ⟨?_, hbytes, ?_⟩
  · rw [replyOf, Payload.andThen_of_ok rfl, Payload.andThen_of_ok hok]
    rfl
  · rw [hbytes, List.length_append]
    exact dvd_add (by simpa using hticket) (by simpa using hlength)

/-- The client gets the result that is sent for its call. -/
theorem takeReply_eq (hQ : Feeding Q) (hcall : call.Sendable) (hresult : result.Sendable)
    (hclass : result.serviceId = call.params.serviceId) (defaultAccess : KsAccess)
    (hxdr : Q xdr (replyOf (call.negotiator.ticket defaultAccess) result).bytes) :
    ∃ result', call.takeReply xdr = (.success, result') ∧ result.Alike result' := by
  obtain ⟨hok, result', htakes, halike⟩ :=
    KsServiceResult.restores hresult (hcall.result.trans hclass.symm)
  have haligned := KsServiceResult.aligned_decode call.result
  rw [(replyOf_eq hcall hresult hclass defaultAccess).2.1] at hxdr
  obtain ⟨xdr', hneg, hxdr'⟩ := hQ.run (KscNegotiatorObject.takes_reply (Or.inr ⟨defaultAccess, rfl⟩))
    call.negotiator.aligned_decode (by simpa using htakes.aligned haligned) hxdr
  rw [← List.append_nil result.xdrEncode.bytes] at hxdr'
  obtain ⟨xdr'', hrun, -⟩ := hQ.run htakes haligned (dvd_zero 4) hxdr'
  exact ⟨result', by simp [RemoteCall.takeReply, hneg, hrun], halike⟩

/-- The request consists of whole words. -/
theorem RemoteCall.Sendable.request_eq (h : call.Sendable) : call.request.ok = true ∧
    call.request.bytes = call.negotiator.xdrEncode.bytes ++ call.params.xdrEncode.bytes ∧
      4 ∣ call.request.bytes.length := by
  have hneg := call.negotiator.xdrEncode_ok
  obtain ⟨_, -, haligned, htakes⟩ := KsServiceParams.takes h.params
  have hticket := (call.negotiator.takes_ticket h.negotiator 0).aligned
    (KsAvTicketObject.aligned_new 0)
  have hparams := htakes.aligned haligned
  rw [RemoteCall.request, Payload.bytes_andThen hneg, Payload.andThen_of_ok hneg,
    List.length_append]
  exact ⟨KsServiceParams.xdrEncode_ok h.params, rfl,
    dvd_add (by simpa using hticket) (by simpa using hparams)⟩

/-- A result has got to the client. -/
def Received (result : KsServiceResult) (outcome : ClntStat × KsServiceResult) : Prop :=
  outcome.1 = .success ∧ result.Alike outcome.2

/-- The same memory with the network and without it, which is sound and fits into messages. -/
def Agree (m m' : KssMemory) : Prop := m' = m ∧ m.Sound ∧ m.Sendable

/-- A call over the network is the call without it: it has the same result and the same effect on
the memory. -/
theorem exchange_eq (hP : Feeding P) (hQ : Feeding Q)
    (hserver : ∀ bs, 4 ∣ bs.length → P (toServer bs) bs)
    (hclient : ∀ bs, 4 ∣ bs.length → Q (toClient bs) bs)
    (h : m.Sound) (hm : m.Sendable) (hcall : call.Sendable) :
    Option.Rel (fun r s => Received r.1 s.1 ∧ Agree r.2 s.2)
      (performCall m call) (exchange toServer toClient m call) := by
  obtain ⟨hrequest, hbytes, hfour⟩ := hcall.request_eq
  have hxdr : P (toServer call.request.bytes)
      (call.negotiator.xdrEncode.bytes ++ call.params.xdrEncode.bytes) := by
    rw [← hbytes]
    exact hserver _ hfour
  rw [exchange, if_pos hrequest, serveRequest_eq hP hcall.negotiator hcall.params hxdr, performCall]
  cases hperform : perform m call.circumstances
      (call.negotiator.ticket call.circumstances.defaultAccess).permissions call.params with
  | none => exact .none
  | some r =>
    obtain ⟨hclass, hresult⟩ := perform_result h hm hcall.now hcall.params hperform
    obtain ⟨hok, -, hlength⟩ := replyOf_eq hcall hresult hclass call.circumstances.defaultAccess
    obtain ⟨result', htake, halike⟩ := takeReply_eq hQ hcall hresult hclass
      call.circumstances.defaultAccess (hclient _ hlength)
    simp only [Option.map_some, Option.elim_some, hok, if_true, htake]
    exact .some ⟨⟨rfl, halike⟩, rfl, perform_keeps h hm hcall.params hperform⟩

/-- Over whole runs of calls from any clients, the network makes no difference: every call succeeds
with the result that it has without the network, the server has the same memory at the end, and it
leaves its memory if and only if it does so without the network. -/
theorem exchangeAll_eq (hP : Feeding P) (hQ : Feeding Q)
    (hserver : ∀ bs, 4 ∣ bs.length → P (toServer bs) bs)
    (hclient : ∀ bs, 4 ∣ bs.length → Q (toClient bs) bs)
    (h : m.Sound) (hm : m.Sendable) (hcalls : ∀ call ∈ calls, call.Sendable) :
    Option.Rel (fun r s => List.Forall₂ Received r.1 s.1 ∧ Agree r.2 s.2)
      (performAll m calls) (exchangeAll toServer toClient m calls) := by
  refine rel_runAll (I := Agree) ?_ hcalls ⟨rfl, h, hm⟩
  rintro m _ call ⟨rfl, hsound, hsendable⟩ hcall
  exact exchange_eq hP hQ hserver hclient hsound hsendable hcall

end Runs

/-- A client with a name writes to `/p`, and a client without one reads it. -/
def pumpCalls : List RemoteCall :=
  let c : Circumstances := ⟨⟨⟨5, 0⟩, fun _ => 0⟩, true, {}, KsAccess.readWrite⟩
  [⟨c, .simple [109, 101], .setVar ⟨[⟨[47, 112], some (.var (some (.int 7)) ⟨1, 0⟩ KsState.good)⟩]⟩,
      .setVar ⟨0, []⟩⟩,
    ⟨c, .none, .getVar ⟨[[47, 112]]⟩, .getVar ⟨0, []⟩⟩]

/-- What has been written to `p` over the network is read over the network. -/
theorem exchangeAll_eq_pump : ∃ m : KssMemory, m.Sound ∧ m.Sendable ∧
    (performAll m pumpCalls).map Prod.fst = some [.setVar ⟨.ok, [.ok]⟩,
      .getVar ⟨.ok, [⟨.ok, some (.var (some (.int 7)) ⟨1, 0⟩ KsState.good)⟩]⟩] ∧
    Option.Rel (fun r s => List.Forall₂ Received r.1 s.1 ∧ Agree r.2 s.2) (performAll m pumpCalls)
      (exchangeAll XdrMem.ofBytes XdrMem.ofBytes m pumpCalls) := by
  obtain ⟨m₀, m, hcreate, rfl, hsound, -⟩ := exists_pump
  have hrun : (create ⟨⟨0, 0⟩, fun _ => 0⟩).map (fun m₀ =>
      (decide (run step m₀ pumpEvents).Sendable,
        (performAll (run step m₀ pumpEvents) pumpCalls).map Prod.fst)) =
          some (true, some [.setVar ⟨.ok, [.ok]⟩,
            .getVar ⟨.ok, [⟨.ok, some (.var (some (.int 7)) ⟨1, 0⟩ KsState.good)⟩]⟩]) := by
    decide +kernel
  rw [hcreate, Option.map_some, Option.some.injEq] at hrun
  obtain ⟨hsendable, hperform⟩ := Prod.mk.inj hrun
  have hsendable := of_decide_eq_true hsendable
  have hcalls : ∀ call ∈ pumpCalls, call.Sendable := by
    intro call hcall
    obtain rfl | rfl : _ ∨ _ := by simpa [pumpCalls] using hcall
    · refine ⟨by decide, show KsString.Sendable [109, 101] by decide, ⟨by decide, ?_⟩, rfl⟩
      simp only [List.mem_singleton, forall_eq]
      exact ⟨by decide, _, rfl, ⟨_, rfl, trivial⟩, by decide⟩
    · refine ⟨by decide, trivial, ⟨by decide, ?_⟩, rfl⟩
      simp only [List.mem_singleton, forall_eq]
      decide
  exact ⟨_, hsound, hsendable, hperform,
    exchangeAll_eq feeding_xdrMem feeding_xdrMem (fun bs _ => XdrMem.holds_ofBytes bs)
      (fun bs _ => XdrMem.holds_ofBytes bs) hsound hsendable hcalls⟩

end KsSimpleServer
end AcpltKs
