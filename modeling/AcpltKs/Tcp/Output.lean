import AcpltKs.Tcp.Framing

/-! What is in the stream of a TCP connection once it begins to send: one record with the RPC header
and the payload, except for the reply to a call that cannot be decoded. -/
namespace AcpltKs
open RecordMarking GuardedRun

/-- The ways into the sending state. -/
inductive Entry where
  | reply (ev : Event)
  | request (xid progNumber progVersion procNumber : UInt32) (args : Payload)
  | undecodable (sys : SystemCalls)

namespace Endpoint
variable {e e' : Endpoint} {size : ℕ}

/-- A run of a new server connection leads here, and the connection lives all the time. -/
def Reached (size : ℕ) (e : Endpoint) : Prop :=
  ∃ raw con pool pool' info nonblocking connecting incoming es,
    pool.memStreamBufferSize = size ∧
    KssTCPXDRConnection.create raw pool info nonblocking connecting .server =
      (some con, pool') ∧
    Along step (fun e _ => e.con.state ≠ .dead) (.opened con pool' incoming) es ∧
    e = run step (.opened con pool' incoming) es

/-- The connection begins to send: `message` is the RPC header of a reply or request with its
payload, and with the transaction id of the request that is answered or sent. -/
def EntersSending (e e' : Endpoint) (message : List UInt8) : Entry → Prop
  | .reply ev => ∃ payloads, ev.payloads = some payloads ∧ e.step ev = e' ∧
      e'.con.state = .sending ∧ message = replyBody e.con.rpcHeader.xid payloads
  | .request xid progNumber progVersion procNumber args => ∃ e₁ e₂,
      e.beginRequest xid progNumber progVersion procNumber = (true, e₁) ∧
      e₁.encodeArguments args = (true, e₂) ∧ e₂.sendRequest = e' ∧
      message = (RpcMessage.call xid progNumber progVersion procNumber).bytes ++ args.bytes
  | .undecodable sys => e.Reached e.pool.memStreamBufferSize ∧ e.con.state ≠ .dead ∧
      e.con.state ≠ .sending ∧ (e.receive sys).2 = e' ∧ e'.con.state = .sending ∧
      message = (decodeErrorReply e'.con.rpcHeader.xid).bytes

/-- Calls of `send` for as long as there is something to send. -/
def sendAll (e : Endpoint) (calls : List SystemCalls) : Endpoint :=
  calls.foldl (fun e sys => if e.con.state = .sending then (e.send sys).2 else e) e

/-- The message is out: a server waits for the next one, and a client for the reply. -/
def Sent (e : Endpoint) : Prop := e.con.state = .idle ∨ e.con.state = .waiting

/-- What `send` writes: these bytes from the first one on, however the socket takes them, all of
them if the message gets out, and there are sockets that it gets out to. -/
structure Writes (e : Endpoint) (record : List UInt8) : Prop where
  written : ∀ calls, ∃ n, (e.sendAll calls).socket.written = e.socket.written ++ record.take n ∧
    ((e.sendAll calls).Sent → record.length ≤ n)
  gets_out : ∃ calls, (e.sendAll calls).Sent

/-- The bytes that are going to be sent are one record with `message` in it. -/
def SendsRecord (e : Endpoint) (message : List UInt8) : Prop :=
  e.con.state = .sending ∧ IsRecord e.con.xdrs.contents message ∧ e.Writes e.con.xdrs.contents

/-- The connection is sending a record and stands behind its first `pos` bytes. -/
structure Sending (size : ℕ) (record : List UInt8) (pos : ℕ) (e : Endpoint) : Prop where
  state : e.con.state = .sending
  fragmentState : e.con.fragmentState = .body
  remainingLen : pos + e.con.remainingLen = record.length
  stream : ∃ frags, Laid size frags record ∧ e.con.xdrs.Decoding size frags pos

theorem Sends.sending {record : List UInt8} (h : e.Sends size e' record)
    (hlength : record.length < 2 ^ 32) : Sending size record 0 e' :=
  ⟨h.state, h.fragmentState, by rw [h.remainingLen, Nat.zero_add, Nat.mod_eq_of_lt hlength],
    h.stream⟩

section Sending
variable {record : List UInt8} {pos : ℕ}

/-- The last byte of a message is out, whoever has sent it. -/
theorem finishSend_sent (hstate : e.con.state = .sending) (hrem : e.con.remainingLen = 0) :
    e.finishSend.2.Sent ∧ e.finishSend.2.socket = e.socket := by
  unfold finishSend
  rw [if_pos hrem]
  cases htype : e.con.cnxType with
  | client => exact ⟨Or.inr rfl, rfl⟩
  | server =>
    refine ⟨Or.inl ?_, ?_⟩ <;>
      simp [reset, hstate, htype, setState, clearStream, setMem, startHeader,
        KssTCPXDRConnection.startHeader]

/-- One call writes the next bytes. The connection goes on sending behind them, or it has written
the last one, or it has failed. -/
theorem Sending.send (h : Sending size record pos e) (hsize : LegalSize size) (sys : SystemCalls) :
    ∃ n, (e.send sys).2.socket.written = e.socket.written ++ (record.drop pos).take n ∧
      (Sending size record (pos + n) (e.send sys).2 ∨ (e.send sys).2.con.state ≠ .sending) ∧
      ((e.send sys).2.Sent → pos + n = record.length) := by
  obtain ⟨frags, hlaid, hdec⟩ := h.stream
  have hpending : e.connectPending sys.soError = none := by simp [connectPending, h.state]
  obtain ⟨n, hmax, hwritten, -, -, -, hdec'⟩ := writeToFdLoop_decoding hlaid hdec hsize sys.outcomes
    e.pool e.socket h.remainingLen.le
  rw [send_body sys hpending h.fragmentState]
  simp only [xdrmemstreamWriteToFd, hdec.op, ne_eq, not_true_eq_false, ↓reduceIte]
  generalize writeToFdLoop sys.outcomes (e.pool, e.con.xdrs) e.socket e.con.remainingLen = res
    at hmax hwritten hdec' ⊢
  have hlength := h.remainingLen
  refine ⟨n, ?_⟩
  split_ifs with hfailure
  · by_cases h0 : (e.written res).con.remainingLen = 0
    · obtain ⟨hsent, hsocket⟩ := finishSend_sent (e := e.written res) h.state h0
      rw [hsocket]
      refine ⟨hwritten, Or.inr ?_, fun _ => ?_⟩
      · rcases hsent with hs | hs <;> simp [hs]
      · have hres : res.max = 0 := h0
        omega
    · have hstays : (e.written res).finishSend.2 = e.written res := by
        rw [finishSend, if_neg h0]
      rw [hstays]
      refine ⟨hwritten, Or.inl ⟨h.state, h.fragmentState, ?_, frags, hlaid, hdec'⟩, fun hsent => ?_⟩
      · change pos + n + res.max = record.length
        omega
      · rcases hsent with hs | hs <;> exact absurd (h.state.symm.trans hs) (by simp)
  · have hstate : (e.written res).failed.con.state = .readyFailed ∨
        (e.written res).failed.con.state = .dead := by
      rw [failed, setState]
      dsimp only
      split_ifs
      · exact Or.inl rfl
      · exact Or.inr rfl
    refine ⟨hwritten, Or.inr ?_, fun hsent => ?_⟩
    · rcases hstate with hs | hs <;> simp [hs]
    · rcases hstate with hs | hs <;> simp [Sent, hs] at hsent

theorem sendAll_of_not_sending (h : e.con.state ≠ .sending) (calls : List SystemCalls) :
    e.sendAll calls = e := by
  induction calls with
  | nil => rfl
  | cons sys calls ih => rwa [sendAll, List.foldl_cons, if_neg h]

/-- All calls together write the rest of the record up to some byte. -/
theorem Sending.sendAll (h : Sending size record pos e) (hsize : LegalSize size)
    (calls : List SystemCalls) :
    ∃ n, (e.sendAll calls).socket.written = e.socket.written ++ (record.drop pos).take n ∧
      ((e.sendAll calls).Sent → pos + n = record.length) := by
  induction calls generalizing pos e with
  | nil =>
    refine ⟨0, by simp [Endpoint.sendAll], fun hsent => ?_⟩
    rcases hsent with hs | hs <;> exact absurd (h.state.symm.trans hs) (by simp)
  | cons sys calls ih =>
    obtain ⟨n, hwritten, hnext, hsent⟩ := h.send hsize sys
    have hcons : e.sendAll (sys :: calls) = (e.send sys).2.sendAll calls := by
      rw [Endpoint.sendAll, List.foldl_cons, if_pos h.state]
      rfl
    rw [hcons]
    rcases hnext with hsending | hstate
    · obtain ⟨k, hrest, hsent'⟩ := ih hsending
      refine ⟨n + k, ?_, fun hs => ?_⟩
      · rw [hrest, hwritten, List.append_assoc, ← List.drop_drop, ← List.take_add]
      · rw [← Nat.add_assoc, hsent' hs]
    · rw [sendAll_of_not_sending hstate]
      exact ⟨n, hwritten, hsent⟩

/-- A socket that takes everything gets the record with one call. -/
theorem Sending.gets_out (h : Sending size record pos e) (hsize : LegalSize size) :
    ∃ calls, (e.sendAll calls).Sent := by
  obtain ⟨frags, hlaid, hdec⟩ := h.stream
  let sys : SystemCalls :=
    ⟨false, List.replicate e.con.remainingLen (.transfers e.con.remainingLen)⟩
  have hpending : e.connectPending sys.soError = none := by simp [connectPending, h.state]
  have hgreedy : ∀ io ∈ sys.outcomes, ∃ n, io = .transfers n ∧ e.con.remainingLen ≤ n := by
    intro io hio
    exact ⟨_, List.eq_of_mem_replicate hio, le_rfl⟩
  have hsteady : ∀ io ∈ sys.outcomes, io.isSteady = true := by
    intro io hio
    obtain ⟨hne, rfl⟩ := List.mem_replicate.mp hio
    simpa [IoOutcome.isSteady] using hne
  have hmax := writeToFdLoop_greedy hlaid hdec hsize (by simp [sys]) hgreedy e.pool e.socket
    h.remainingLen.le
  have hfailure := writeToFdLoop_steady hlaid hdec hsize hsteady e.pool e.socket h.remainingLen.le
  refine ⟨[sys], ?_⟩
  rw [Endpoint.sendAll, List.foldl_cons, List.foldl_nil, if_pos h.state,
    send_body sys hpending h.fragmentState]
  simp only [xdrmemstreamWriteToFd, hdec.op, ne_eq, not_true_eq_false, ↓reduceIte]
  rw [if_pos hfailure]
  exact (finishSend_sent (e := e.written _) h.state hmax).1

/-- A record that is ready to be sent is what is written. -/
theorem Sending.writes (h : Sending size record 0 e) (hsize : LegalSize size) : e.Writes record := by
  refine ⟨fun calls => ?_, h.gets_out hsize⟩
  obtain ⟨n, hwritten, hsent⟩ := h.sendAll hsize calls
  exact ⟨n, hwritten, fun hs => by rw [← hsent hs, Nat.zero_add]⟩

end Sending

theorem Sends.isRecord_iff {record message : List UInt8} (h : e.Sends size e' record)
    (hsize : LegalSize size) : e'.SendsRecord message ↔ IsRecord record message := by
  obtain ⟨frags, hlaid, hdec⟩ := h.stream
  rw [SendsRecord, hdec.contents_eq hlaid]
  constructor
  · rintro ⟨-, hrecord, -⟩
    exact hrecord
  · intro hrecord
    exact ⟨h.state, hrecord, (h.sending hrecord.length_lt).writes hsize⟩

/-- A reachable connection that lives is consistent. -/
theorem Reached.consistent (h : e.Reached size) (hsize : LegalSize size) :
    ∃ r, e.Consistent size r := by
  obtain ⟨raw, con, pool, pool', info, nonblocking, connecting, incoming, es, rfl, hcreate, hes,
    rfl⟩ := h
  refine run_invariant (I := fun e => ∃ r, Endpoint.Consistent pool.memStreamBufferSize r e) ?_
    ⟨_, create_consistent incoming hcreate⟩ hes
  rintro e ev ⟨r, hs⟩ hdead
  by_cases hfault : e.con.xdrs.fault = true
  · exact ⟨r, by rwa [step_of_fault hfault]⟩
  · obtain ⟨r', -, hs'⟩ := step_effect ev hs hsize hdead (by simpa using hfault)
    exact ⟨r', hs'⟩

theorem Delivers.refused_of_sending {body : List UInt8} (h : Delivers size e e' body)
    (hstate : e'.con.state = .sending) :
    (e.note (.message body)).Sends size e'
      (sentRecord (decodeErrorReply e'.con.rpcHeader.xid).bytes) := by
  cases h with
  | ready socket trace state => simp [state] at hstate
  | refused sends => exact sends

/-- If receiving makes the connection send, that is the reply to a call that cannot be decoded. -/
theorem receive_sends {sys : SystemCalls} (h : e.Reached size) (hsize : LegalSize size)
    (hdead : e.con.state ≠ .dead) (hstate : e.con.state ≠ .sending)
    (hstate' : (e.receive sys).2.con.state = .sending) :
    ∃ e₁ : Endpoint, e₁.Sends size (e.receive sys).2
      (sentRecord (decodeErrorReply (e.receive sys).2.con.rpcHeader.xid).bytes) := by
  obtain ⟨r, hs⟩ := h.consistent hsize
  obtain ⟨r', heffect, -⟩ := receive_effect sys hs hsize hdead
  generalize (e.receive sys).2 = e' at heffect hstate' ⊢
  cases heffect with
  | stays socket trace state => exact absurd (state.symm.trans hstate') hstate
  | feeds sys bs event before reads noted state => simp [state] at hstate'
  | delivers sys bs body event before reads noted feed delivered =>
    exact ⟨_, delivered.refused_of_sending hstate'⟩
  | redelivers sys event state delivered => exact ⟨_, delivered.refused_of_sending hstate'⟩
  | breaks bs reads noted state => simp [state] at hstate'
  | exhausted sys bs event before enomem reads noted state =>
    rcases before with hb | hb | hb <;> simp [state, hb, resetState] at hstate'
  | restarts cause => simp [Restarts, Event.payloads] at cause
  | queues payloads event => simp [Event.payloads] at event
  | writes sys record pos n event => simp at event

theorem reset_not_sending (e : Endpoint) : e.reset.2.con.state ≠ .sending := by
  cases hstate : e.con.state <;> cases htype : e.con.cnxType <;>
    simp [reset, hstate, htype, startHeader, clearStream, setMem, setState,
      KssTCPXDRConnection.startHeader]

/-- A request is queued as a whole. -/
theorem sendRequest_sends {e₁ e₂ : Endpoint} {xid progNumber progVersion procNumber : UInt32}
    {args : Payload} (hfault : e.con.xdrs.fault = false)
    (hsize : LegalSize e.pool.memStreamBufferSize)
    (hbegin : e.beginRequest xid progNumber progVersion procNumber = (true, e₁))
    (hargs : e₁.encodeArguments args = (true, e₂)) :
    e₂.Sends e.pool.memStreamBufferSize e₂.sendRequest (sentRecord (BigEndian.encode 0x80000000 ++
      ((RpcMessage.call xid progNumber progVersion procNumber).bytes ++ args.bytes))) := by
  have hdead : e.con.state ≠ .dead := fun h => by simp [beginRequest, h] at hbegin
  simp only [beginRequest, hdead, ↓reduceIte] at hbegin
  obtain ⟨hencoded, hstream⟩ := encodeMessage_encoded hfault hsize (words_setRequest _ _ _ _ _) hbegin
  have henc := hstream rfl
  simp only [List.flatMap_nil, List.append_nil] at henc
  rcases hp : args.xdrEncode (e₁.pool, e₁.con.xdrs) with ⟨ok, m⟩
  simp only [encodeArguments, hp, Prod.mk.injEq] at hargs
  obtain ⟨rfl, rfl⟩ := hargs
  obtain ⟨hsz, -, hall⟩ := Payload.xdrEncode_encoding henc hencoded.bufferSize hsize
    (by simp [RpcMessage.bytes, RpcMessage.words]) args hp
  have henc' := hall rfl
  rw [List.append_assoc] at henc'
  exact enterSendingState_sends henc' hsz hsize
    (by rw [List.length_append, BigEndian.encode_length]; omega)

end Endpoint

/-- What a connection is going to send is one record with the whole message as long as the fragment
header can count its bytes; the reply to a call that cannot be decoded never is. -/
theorem sendsRecord_iff {e e' : Endpoint} {message : List UInt8} {entry : Entry}
    (hfault : e.con.xdrs.fault = false) (hsize : LegalSize e.pool.memStreamBufferSize)
    (h : e.EntersSending e' message entry) :
    e'.SendsRecord message ↔
      (∀ sys, entry ≠ .undecodable sys) ∧ message.length < 2 ^ 31 := by
  cases entry with
  | reply ev =>
    obtain ⟨payloads, hev, rfl, hstate, rfl⟩ := h
    rw [Endpoint.step_reply hfault hev] at hstate ⊢
    have hdead : e.con.state ≠ .dead := fun h => by simp [Endpoint.sendMessage, h] at hstate
    rcases Endpoint.sendMessage_cases payloads hdead hfault hsize with hsends | ⟨e₁, henc, hreset⟩
    · simp [hsends.isRecord_iff hsize, sentRecord_isRecord_iff]
    · exact absurd (hreset ▸ hstate) e₁.reset_not_sending
  | request xid progNumber progVersion procNumber args =>
    obtain ⟨e₁, e₂, hbegin, hargs, rfl, rfl⟩ := h
    have hsends := Endpoint.sendRequest_sends hfault hsize hbegin hargs
    simp [hsends.isRecord_iff hsize, sentRecord_isRecord_iff]
  | undecodable sys =>
    obtain ⟨hreached, hdead, hstate, rfl, hstate', rfl⟩ := h
    obtain ⟨e₁, hsends⟩ := Endpoint.receive_sends hreached hsize hdead hstate hstate'
    rw [hsends.isRecord_iff hsize]
    constructor
    · rintro ⟨w, hw, -, -⟩
      have hlen := congrArg List.length hw
      rw [sentRecord_length (by simp [Endpoint.decodeErrorReply_length])] at hlen
      simp [Endpoint.decodeErrorReply_length] at hlen
    · rintro ⟨hentry, -⟩
      exact absurd rfl (hentry sys)

/-- A message that is neither a call nor a reply is answered by a record without transaction id. -/
theorem not_sendsRecord_undecodable :
    let e := Endpoint.started (record [BigEndian.encode 7 ++ BigEndian.encode 5])
    let sys : SystemCalls := { outcomes := [.transfers 4, .transfers 64] }
    e.EntersSending (e.receive sys).2 (Endpoint.decodeErrorReply 7).bytes (.undecodable sys) ∧
      ¬ (e.receive sys).2.SendsRecord (Endpoint.decodeErrorReply 7).bytes := by
  refine ⟨⟨?_, by decide, by decide, rfl, by decide, by decide⟩, ?_⟩
  · exact ⟨zeroedConnection, _, Pool.initial fun _ => some fun _ => 0, _, some 0, true, false, _,
      [], rfl, rfl, trivial, rfl⟩
  · rintro ⟨-, ⟨w, hw, -, -⟩, -⟩
    have hlen := congrArg List.length hw
    rw [List.length_append, BigEndian.encode_length, Endpoint.decodeErrorReply_length] at hlen
    exact absurd hlen (by decide)

/-- The reply to a ping. -/
theorem sendsRecord_ping :
    let e := run Endpoint.step (.started (record [(RpcMessage.call 1 1 1 0).bytes]))
      [.receive { outcomes := [.transfers 4, .transfers 64] }]
    (e.step .sendPingReply).SendsRecord (Endpoint.replyBody 1 []) :=
  (@sendsRecord_iff _ _ _ (.reply .sendPingReply) (by decide) legalSize_default
    ⟨[], rfl, rfl, by decide, by decide⟩).mpr ⟨by simp, by decide⟩

end AcpltKs
