import AcpltKs.Library.EventLog
import AcpltKs.Udp.Datagrams
import AcpltKs.Udp.Retransmission

/-! Whom a UDP server answers: each datagram it sends is compared with the datagram it has received
last, and with the replies that it has encoded since then. -/
namespace AcpltKs
open ByteMemory EventLog

/-- What is noted of a server: its traffic, and the replies that are encoded. -/
inductive ReplyEvent where
  | received (d : Datagram)
  | encoded (bs : List UInt8)
  | sendto (d : Datagram)
  deriving DecidableEq

def Traffic.event : Traffic → ReplyEvent
  | .received d => .received d
  | .sendto d => .sendto d

def ReplyEvent.isReceived : ReplyEvent → Bool
  | .received _ => true
  | _ => false

/-- The datagram that was received last. -/
def latest (log : List ReplyEvent) : Option Datagram :=
  log.foldl (fun d event => match event with | .received d' => some d' | _ => d) none

/-- A reply to the datagram that was received last: encoded since then, with its transaction id, and
for where it came from. -/
def Answers (log : List ReplyEvent) (reply : Datagram) : Prop :=
  ∃ d, latest log = some d ∧ .encoded reply.bytes ∈ sinceLast ReplyEvent.isReceived log ∧
    reply.bytes.take 8 = d.bytes.take 4 ++ BigEndian.encode 1 ∧ reply.address = d.address

/-- Whatever is sent is such a reply. -/
def OnlyAnswers (log : List ReplyEvent) : ReplyEvent → Prop
  | .sendto reply => Answers log reply
  | _ => True

/-- The payloads of a reply, behind the header. -/
def UdpCall.reply : UdpCall → Option (List Payload)
  | .sendPingReply => some []
  | .sendErrorReply avt trailer error =>
      some [avt, ⟨[.long (if error = 0 then 1 else error)], true⟩, trailer]
  | .sendReply avt result trailer => some [avt, result, trailer]
  | _ => none

/-- Servers make no requests. -/
def UdpCall.Serves : UdpCall → Prop
  | .request .. => False
  | _ => True

namespace UdpEndpoint

/-- What is noted when a call encodes a reply. -/
def encodedBy (e : UdpEndpoint) (c : UdpCall) : List ReplyEvent :=
  match c.reply with
  | none => []
  | some payloads =>
      if e.con.state = .dead then []
      else
        match e.encodeMessage e.con.rpcHeader.acceptCall payloads with
        | (true, e) => [.encoded (read e.con.xdrs.buffer 0 e.con.xdrs.pos)]
        | (false, _) => []

end UdpEndpoint

structure ReplyingServer where
  endpoint : UdpEndpoint
  log : List ReplyEvent

namespace ReplyingServer
open UdpEndpoint

def step (s : ReplyingServer) (c : UdpCall) : ReplyingServer where
  endpoint := s.endpoint.call c
  log := s.log ++ s.endpoint.encodedBy c ++
    ((s.endpoint.call c).trace.drop s.endpoint.trace.length).map Traffic.event

def initial (raw : KssUDPXDRConnection) (timeout retrytimeout : ULong)
    (clientAddr : Option SocketAddress) (buffsize : ℕ) : ReplyingServer :=
  ⟨server raw timeout retrytimeout clientAddr buffsize, []⟩

/-- There is a header at the beginning of the buffer when a datagram has come, and replies are for a
datagram that has had room for a transaction id. -/
def Proper (s : ReplyingServer) (c : UdpCall) : Prop :=
  (∀ ios d, c = .receive ios → s.endpoint.con.state = .idle → Brings ios d → 4 ≤ d.bytes.length →
    ∃ msg : RpcMessage, msg.bytes.length ≤ s.endpoint.con.bufferSize ∧
      read (s.endpoint.filled d).buffer 0 msg.bytes.length = msg.bytes) ∧
  (c.reply ≠ none → s.endpoint.con.state ≠ .dead → ∃ d ∈ latest s.log, 4 ≤ d.bytes.length)

end ReplyingServer

section Log
variable {log : List ReplyEvent} {event : ReplyEvent} {reply : Datagram}

theorem latest_concat_received (log : List ReplyEvent) (d : Datagram) :
    latest (log ++ [.received d]) = some d := by
  rw [latest, List.foldl_append]
  rfl

theorem latest_concat (h : event.isReceived = false) : latest (log ++ [event]) = latest log := by
  unfold latest
  rw [List.foldl_append]
  cases event with
  | received d => cases h
  | encoded bs => rfl
  | sendto d => rfl

theorem Answers.concat (h : Answers log reply) (hevent : event.isReceived = false) :
    Answers (log ++ [event]) reply := by
  obtain ⟨d, hd, hencoded, hbytes, haddress⟩ := h
  refine ⟨d, ?_, ?_, hbytes, haddress⟩
  · rw [latest_concat hevent]
    exact hd
  · exact mem_sinceLast_concat.mpr ⟨hevent, Or.inl hencoded⟩

/-- A reply may be sent more than once. -/
theorem always_replicate (n : ℕ) (h : Always OnlyAnswers log) (hreply : Answers log reply) :
    Always OnlyAnswers (log ++ List.replicate n (.sendto reply)) ∧
      Answers (log ++ List.replicate n (.sendto reply)) reply ∧
      latest (log ++ List.replicate n (.sendto reply)) = latest log := by
  induction n with
  | zero =>
    rw [List.replicate_zero, List.append_nil]
    exact ⟨h, hreply, rfl⟩
  | succ n ih =>
    obtain ⟨halways, hanswers, hlatest⟩ := ih
    rw [List.replicate_succ', ← List.append_assoc]
    refine ⟨always_concat.mpr ⟨halways, hanswers⟩, hanswers.concat rfl, ?_⟩
    rw [latest_concat rfl, hlatest]

end Log

namespace UdpEndpoint
variable {e e' : UdpEndpoint} {d : Datagram} {ios : List RecvOutcome}

theorem reset_con (hserver : e.con.cnxType = .server) : e.reset.2.con =
    { e.con with state := if e.con.state = .dead then .dead else .idle } := by
  unfold reset
  split_ifs with hdead
  · rw [← hdead]
  · rfl

theorem reset_alive (hserver : e.con.cnxType = .server) (halive : e.con.state ≠ .dead) :
    e.reset.2 = e.setState .idle := by
  unfold reset
  rw [if_neg halive, if_pos hserver]

/-- Without a datagram, nothing happens. -/
theorem receiveLoop_cases (e : UdpEndpoint) (ios : List RecvOutcome) :
    (∃ d, Brings ios d) ∨ (e.receiveLoop ios).2 = e := by
  fun_induction receiveLoop e ios with
  | case1 => exact Or.inr rfl
  | case2 ios ih =>
    obtain ⟨d, k, rest, hios⟩ | hsame := ih
    · refine Or.inl ⟨d, k + 1, rest, ?_⟩
      rw [hios]
      rfl
    · exact Or.inr hsame
  | case3 => exact Or.inr rfl
  | case4 => exact Or.inr rfl
  | case5 d ios received e' h => exact Or.inl ⟨d, 0, ios, rfl⟩
  | case6 d ios received e' h => exact Or.inl ⟨d, 0, ios, rfl⟩

/-- A server that gets no datagram is at most set back. -/
theorem receive_cases (hserver : e.con.cnxType = .server) (hwaiting : e.con.state ≠ .waiting)
    (ios : List RecvOutcome) : (e.con.state = .idle ∧ ∃ d, Brings ios d) ∨
      ∃ state xdrs, (state = e.con.state ∨ state = .idle) ∧
        (e.receive ios).2 = ⟨{ e.con with state, xdrs }, e.trace⟩ := by
  unfold receive
  by_cases hdead : e.con.state = .dead
  · rw [if_pos hdead]
    exact Or.inr ⟨_, _, Or.inl rfl, rfl⟩
  rw [if_neg hdead]
  by_cases hidle : e.con.state = .idle
  · obtain hbrings | hsame := receiveLoop_cases (e.startStream .decode) ios
    · exact Or.inl ⟨hidle, hbrings⟩
    · rw [if_neg fun hbusy => hbusy.1 hidle, hsame]
      exact Or.inr ⟨_, _, Or.inl rfl, rfl⟩
  · have hreset := reset_con hserver
    rw [if_neg hdead] at hreset
    rw [if_pos ⟨hidle, hwaiting⟩]
    refine Or.inr ⟨.idle, e.con.xdrs, Or.inr rfl, ?_⟩
    have htrace := e.reset_trace
    rcases hresult : e.reset.2 with ⟨con, trace⟩
    rw [hresult] at hreset htrace
    obtain rfl : con = _ := hreset
    obtain rfl : trace = _ := htrace
    rfl

theorem receiveMessage_address (e : UdpEndpoint) :
    e.receiveMessage.2.con.clientAddress = e.con.clientAddress := by
  rcases hdecoded : e.decodeHeader with ⟨ok, e'⟩
  have haddress : e'.con.clientAddress = e.con.clientAddress := by
    rw [show e' = e.decodeHeader.2 by rw [hdecoded]]
    rfl
  unfold receiveMessage
  rw [hdecoded]
  split
  · split_ifs
    · rfl
    · cases ok with
      | false => exact haddress
      | true => exact haddress
  · cases ok with
    | false => exact haddress
    | true => exact haddress

/-- A server notes the datagram and where it came from. -/
theorem receive_noted (hserver : e.con.cnxType = .server) (hidle : e.con.state = .idle)
    (h : Brings ios d) : (e.receive ios).2.trace = e.trace ++ [.received d] ∧
      (e.receive ios).2.con.clientAddress = d.address := by
  have htrace : ((e.startStream .decode).store d).trace = e.trace ++ [.received d] :=
    store_trace _ d
  have haddress : ((e.startStream .decode).store d).con.clientAddress = d.address := by
    have htype : (e.startStream .decode).con.cnxType = .server := hserver
    unfold store
    dsimp only [setXdrs, note]
    rw [htype]
  rw [receive_brings (.inl hidle) h]
  split_ifs
  · exact ⟨(receiveMessage_trace _).trans htrace, (receiveMessage_address _).trans haddress⟩
  · exact ⟨htrace, haddress⟩

/-- A server sends one and the same datagram until it is gone. -/
theorem sendLoop_server (hserver : e.con.cnxType = .server) (hsending : e.con.state = .sending)
    (ios : List SendOutcome) : ∃ n state, (state = .sending ∨ state = .idle) ∧
      (e.sendLoop ios).2 =
        ⟨{ e.con with state }, e.trace ++ List.replicate n (.sendto e.outgoing)⟩ := by
  fun_induction sendLoop e ios with
  | case1 e =>
    refine ⟨1, .sending, Or.inl rfl, ?_⟩
    rw [← hsending]
    rfl
  | case2 e ios ih =>
    obtain ⟨n, state, hstate, heq⟩ := ih hserver hsending
    refine ⟨n + 1, state, hstate, ?_⟩
    rw [heq, List.replicate_succ, List.append_cons]
    rfl
  | case3 e =>
    refine ⟨1, .sending, Or.inl rfl, ?_⟩
    rw [← hsending]
    rfl
  | case4 e _ _ _ _ mode e' hreset =>
    have hresult : e' = (e.note (.sendto e.outgoing)).reset.2 := by rw [hreset]
    refine ⟨1, .idle, Or.inr rfl, ?_⟩
    rw [hresult]
    unfold reset
    have hstate : (e.note (.sendto e.outgoing)).con.state = .sending := hsending
    have htype : (e.note (.sendto e.outgoing)).con.cnxType = .server := hserver
    rw [hstate, if_neg (by decide), htype]
    rfl
  | case5 e _ e' =>
    refine ⟨1, .idle, Or.inr rfl, ?_⟩
    change (e.note (.sendto e.outgoing)).setState (if _ = _ then _ else _) = _
    rw [if_pos hserver]
    rfl

theorem encodePayloads_true {payloads : List Payload} {x x' : XdrMem}
    (h : payloads.foldl (fun r p => if r.1 then p.xdrEncode r.2 else r)
      ((true, x) : Bool × XdrMem) = (true, x')) : x' = x.stored (payloads.flatMap Payload.bytes) := by
  induction payloads generalizing x with
  | nil =>
    obtain ⟨-, rfl⟩ := Prod.mk.inj h
    rw [List.flatMap_nil, XdrMem.stored_nil]
  | cons p payloads ih =>
    rw [List.foldl_cons, if_pos rfl] at h
    rcases hp : p.xdrEncode x with ⟨_ | _, y⟩
    · rw [hp] at h
      have hfailed : ∀ l : List Payload, l.foldl
          (fun r p => if r.1 then p.xdrEncode r.2 else r) ((false, y) : Bool × XdrMem) =
          (false, y) := by
        intro l
        induction l with
        | nil => rfl
        | cons q l ihl => exact ihl
      rw [hfailed] at h
      cases h
    · rw [hp] at h
      obtain ⟨-, rfl⟩ := Payload.xdrEncode_true hp
      rw [ih h, XdrMem.stored_append, List.flatMap_cons]

/-- What has been encoded begins with the header of a successful reply. -/
theorem encodeMessage_true {payloads : List Payload}
    (h : e.encodeMessage e.con.rpcHeader.acceptCall payloads = (true, e')) :
    ∃ (x : XdrMem) (rest : List UInt8), x.pos = 0 ∧
      e' = (e.setHeader e.con.rpcHeader.acceptCall).setXdrs
        (x.stored (wireBytes [e.con.rpcHeader.xid, 1, 0, 0, 0, 0] ++ rest)) := by
  unfold encodeMessage at h
  dsimp only at h
  split at h
  · cases h
  · rename_i xdrs hencoded
    obtain ⟨-, hstored⟩ := Payload.xdrEncode_true hencoded
    rcases hpayloads : payloads.foldl (fun r p => if r.1 then p.xdrEncode r.2 else r)
      ((true, xdrs) : Bool × XdrMem) with ⟨ok, xdrs'⟩
    rw [hpayloads] at h
    obtain ⟨rfl, rfl⟩ := Prod.mk.inj h
    have hrest := encodePayloads_true hpayloads
    rw [hstored, XdrMem.stored_append] at hrest
    refine ⟨(e.startStream .encode).con.xdrs, payloads.flatMap Payload.bytes,
      startStream_pos e .encode, ?_⟩
    rw [hrest]
    have hheader : Payload.bytes ⟨e.con.rpcHeader.acceptCall.words.1.map .long,
        e.con.rpcHeader.acceptCall.words.2⟩ = wireBytes [e.con.rpcHeader.xid, 1, 0, 0, 0, 0] :=
      flatMap_long_bytes _
    rw [hheader]
    rfl

theorem encodeMessage_false {h : KsRpcHeader} {payloads : List Payload}
    (henc : e.encodeMessage h payloads = (false, e')) :
    ∃ xdrs, e' = (e.setHeader h).setXdrs xdrs := by
  unfold encodeMessage at henc
  dsimp only at henc
  split at henc
  · obtain ⟨-, rfl⟩ := Prod.mk.inj henc
    exact ⟨_, rfl⟩
  · obtain ⟨-, rfl⟩ := Prod.mk.inj henc
    exact ⟨_, rfl⟩

end UdpEndpoint

namespace ReplyingServer
open UdpEndpoint
variable {s : ReplyingServer} {e' : UdpEndpoint} {payloads : List Payload}

/-- Whatever is ready to be sent is a reply to the last datagram, and so would be what is encoded
next. -/
structure Invariant (s : ReplyingServer) : Prop where
  cnxType : s.endpoint.con.cnxType = .server
  size : ∃ buffsize, s.endpoint.con.bufferSize = bufferLength buffsize
  fits : s.endpoint.Fits
  waiting : s.endpoint.con.state ≠ .waiting
  always : Always OnlyAnswers s.log
  sending : s.endpoint.con.state = .sending → Answers s.log s.endpoint.outgoing
  recent : ∀ d, latest s.log = some d → s.endpoint.con.clientAddress = d.address ∧
    (4 ≤ d.bytes.length → BigEndian.encode s.endpoint.con.rpcHeader.xid = d.bytes.take 4)

theorem step_noted {c : UdpCall} {ts : List Traffic} (hreply : c.reply = none)
    (hcall : s.endpoint.call c = e') (htrace : e'.trace = s.endpoint.trace ++ ts) :
    s.step c = ⟨e', s.log ++ ts.map Traffic.event⟩ := by
  unfold step encodedBy
  rw [hreply, hcall, htrace, List.drop_left, List.append_nil]

theorem step_quiet {c : UdpCall} (hreply : c.reply = none) (hcall : s.endpoint.call c = e')
    (htrace : e'.trace = s.endpoint.trace) : s.step c = ⟨e', s.log⟩ := by
  have hnothing : e'.trace = s.endpoint.trace ++ [] := htrace.trans (List.append_nil _).symm
  rw [step_noted hreply hcall hnothing, List.map_nil, List.append_nil]

/-- Nothing is noted, and the message that may be ready is left as it is or given up. -/
theorem Invariant.quiet (h : s.Invariant) (hshaped : s.endpoint.Shaped e')
    (hcon : e'.con = { s.endpoint.con with
      state := e'.con.state, xdrs := e'.con.xdrs, timeout := e'.con.timeout })
    (hstate : e'.con.state = s.endpoint.con.state ∨ e'.con.state = .idle) :
    Invariant ⟨e', s.log⟩ := by
  have houtgoing : e'.outgoing = s.endpoint.outgoing := by
    unfold outgoing
    rw [hcon]
  refine ⟨hshaped.cnxType.trans h.cnxType, ?_, hshaped.fits h.fits, ?_, h.always, ?_, ?_⟩
  · obtain ⟨buffsize, hsize⟩ := h.size
    exact ⟨buffsize, hshaped.bufferSize.trans hsize⟩
  · obtain heq | heq := hstate
    · exact heq ▸ h.waiting
    · dsimp only
      rw [heq]
      decide
  · intro hsending
    obtain heq | heq := hstate
    · dsimp only
      rw [houtgoing]
      exact h.sending (heq.symm.trans hsending)
    · exact absurd (heq.symm.trans hsending) (by decide)
  · intro d hd
    dsimp only
    rw [hcon]
    exact h.recent d hd

theorem Invariant.reset (h : s.Invariant) : Invariant ⟨s.endpoint.reset.2, s.log⟩ := by
  have hcon := reset_con h.cnxType
  apply h.quiet s.endpoint.kept_reset.shaped
  · rw [hcon]
  · rw [hcon]
    dsimp only
    split_ifs with hdead
    · exact Or.inl hdead.symm
    · exact Or.inr rfl

/-- The datagram that comes is the one to be answered. -/
theorem Invariant.datagram (h : s.Invariant) {ios : List RecvOutcome} {d : Datagram}
    (hidle : s.endpoint.con.state = .idle) (hd : Brings ios d)
    (hheader : 4 ≤ d.bytes.length → ∃ msg : RpcMessage,
      msg.bytes.length ≤ s.endpoint.con.bufferSize ∧
        read (s.endpoint.filled d).buffer 0 msg.bytes.length = msg.bytes) :
    Invariant ⟨(s.endpoint.receive ios).2, s.log ++ [.received d]⟩ := by
  have hshaped := (s.endpoint.kept_receive ios).shaped
  obtain ⟨buffsize, hsize⟩ := h.size
  have hlistens : s.endpoint.Listens buffsize := ⟨h.cnxType, hsize, h.fits, hidle⟩
  have hroom := four_le_bufferLength buffsize
  rw [← hsize] at hroom
  obtain ⟨-, haddress⟩ := receive_noted h.cnxType hidle hd
  have houtcome : ((s.endpoint.receive ios).2.con.state = .idle ∨
      (s.endpoint.receive ios).2.con.state = .ready) ∧ (4 ≤ d.bytes.length →
        BigEndian.encode (s.endpoint.receive ios).2.con.rpcHeader.xid = d.bytes.take 4) := by
    by_cases hlen : 4 ≤ d.bytes.length
    · obtain ⟨msg, hfits, hread, hready, happly, -⟩ | ⟨hnone, -⟩ := hlistens.receive_cases hd hlen
      · refine ⟨Or.inr hready, fun _ => ?_⟩
        obtain ⟨ws, hws⟩ := msg.words_eq_cons
        have hbytes : msg.bytes = BigEndian.encode msg.xid ++
            wireBytes ((if msg.isCall then 0 else 1) :: ws) := by
          rw [RpcMessage.bytes, hws]
          rfl
        have hfour : 4 ≤ msg.bytes.length := by
          rw [hbytes, List.length_append, BigEndian.encode_length]
          exact Nat.le_add_right _ _
        have hfirst := congrArg (List.take 4) hread
        rw [read_take _ _ hfour, read_filled (by omega), hbytes,
          List.take_left' (BigEndian.encode_length _)] at hfirst
        rw [happly, RpcMessage.apply_xid, hfirst]
      · obtain ⟨msg, hfits, hread⟩ := hheader hlen
        exact absurd hread (hnone msg hfits)
    · exact ⟨Or.inl (receive_dropped hidle hd (Nat.lt_of_not_le hlen)), fun hle => absurd hle hlen⟩
  obtain ⟨hstate, hxid⟩ := houtcome
  refine ⟨hshaped.cnxType.trans h.cnxType, ⟨buffsize, hshaped.bufferSize.trans hsize⟩,
    hshaped.fits h.fits, ?_, always_concat.mpr ⟨h.always, trivial⟩, ?_, ?_⟩
  · obtain heq | heq := hstate <;>
    · dsimp only
      rw [heq]
      decide
  · intro hsending
    obtain heq | heq := hstate
    · exact absurd (heq.symm.trans hsending) (by decide)
    · exact absurd (heq.symm.trans hsending) (by decide)
  · intro d' hd'
    rw [latest_concat_received, Option.some_inj] at hd'
    obtain rfl := hd'
    exact ⟨haddress, hxid⟩

theorem Invariant.receive (h : s.Invariant) {ios : List RecvOutcome}
    (hproper : s.Proper (.receive ios)) : (s.step (.receive ios)).Invariant := by
  obtain ⟨hidle, d, hd⟩ | ⟨state, xdrs, hstate, hsame⟩ :=
    receive_cases h.cnxType h.waiting ios
  · obtain ⟨htrace, -⟩ := receive_noted h.cnxType hidle hd
    have hstep : s.step (.receive ios) =
        ⟨(s.endpoint.receive ios).2, s.log ++ [.received d]⟩ :=
      step_noted (c := .receive ios) rfl rfl htrace
    rw [hstep]
    exact h.datagram hidle hd (hproper.1 ios d rfl hidle hd)
  · have hstep : s.step (.receive ios) = ⟨(s.endpoint.receive ios).2, s.log⟩ :=
      step_quiet (c := .receive ios) rfl rfl (by rw [hsame])
    rw [hstep]
    apply h.quiet (s.endpoint.kept_receive ios).shaped
    · rw [hsame]
    · rw [hsame]
      exact hstate

theorem Invariant.send (h : s.Invariant) (ios : List SendOutcome) :
    (s.step (.send ios)).Invariant := by
  by_cases hsending : s.endpoint.con.state = .sending
  · obtain ⟨n, state, hstate, hsent⟩ := sendLoop_server h.cnxType hsending ios
    have hresult : (s.endpoint.send ios).2 =
        ⟨{ s.endpoint.con with state },
          s.endpoint.trace ++ List.replicate n (.sendto s.endpoint.outgoing)⟩ := by
      unfold UdpEndpoint.send
      rw [if_neg (by rw [hsending]; decide), if_neg (fun hne => hne hsending), hsent]
    have hstep : s.step (.send ios) =
        ⟨⟨{ s.endpoint.con with state },
          s.endpoint.trace ++ List.replicate n (.sendto s.endpoint.outgoing)⟩,
          s.log ++ List.replicate n (.sendto s.endpoint.outgoing)⟩ := by
      have hnoted := step_noted (c := .send ios) rfl hresult rfl
      rw [hnoted, List.map_replicate]
      rfl
    obtain ⟨halways, hanswers, hlatest⟩ := always_replicate n h.always (h.sending hsending)
    rw [hstep]
    refine ⟨h.cnxType, h.size, h.fits, ?_, halways, fun _ => hanswers, ?_⟩
    · dsimp only
      obtain rfl | rfl := hstate
      · intro hwaiting
        cases hwaiting
      · intro hwaiting
        cases hwaiting
    · intro d hd
      exact h.recent d (hlatest.symm.trans hd)
  · have hresult : (s.endpoint.send ios).2 = s.endpoint.reset.2 := by
      unfold UdpEndpoint.send
      split_ifs with hdead
      · unfold UdpEndpoint.reset
        rw [if_pos hdead]
      · rfl
    have hstep : s.step (.send ios) = ⟨s.endpoint.reset.2, s.log⟩ :=
      step_quiet rfl hresult s.endpoint.reset_trace
    rw [hstep]
    exact h.reset

theorem sendMessage_trace (e : UdpEndpoint) (payloads : List Payload) :
    (e.sendMessage payloads).trace = e.trace := by
  unfold sendMessage
  split_ifs
  · rfl
  · rcases henc : e.encodeMessage e.con.rpcHeader.acceptCall payloads with ⟨_ | _, e'⟩
    · obtain ⟨xdrs, rfl⟩ := encodeMessage_false henc
      exact reset_trace _
    · obtain ⟨x, rest, -, rfl⟩ := encodeMessage_true henc
      dsimp only
      unfold sendRequest
      split_ifs
      · rfl
      · rfl

theorem call_of_reply (e : UdpEndpoint) {c : UdpCall} (hreply : c.reply = some payloads) :
    e.call c = e.sendMessage payloads := by
  cases c with
  | sendPingReply =>
    cases hreply
    rfl
  | sendErrorReply avt trailer error =>
    cases hreply
    rfl
  | sendReply avt result trailer =>
    cases hreply
    rfl
  | receive | send | timedOut | reset | setTimeout | personaNonGrata | request | decode =>
    cases hreply

/-- What has been encoded is ready to be sent to where the last datagram came from. -/
theorem Invariant.encoded (h : s.Invariant) {d : Datagram} (hd : latest s.log = some d)
    (hlen : 4 ≤ d.bytes.length) (halive : s.endpoint.con.state ≠ .dead) {e : UdpEndpoint}
    {x : XdrMem} (hpos : x.pos = 0) (rest : List UInt8)
    (he : e = (s.endpoint.setHeader s.endpoint.con.rpcHeader.acceptCall).setXdrs
      (x.stored (wireBytes [s.endpoint.con.rpcHeader.xid, 1, 0, 0, 0, 0] ++ rest)))
    (hshaped : s.endpoint.Shaped e) :
    Invariant ⟨e.sendRequest, s.log ++ [.encoded (read e.con.xdrs.buffer 0 e.con.xdrs.pos)]⟩ := by
  have halive' : e.con.state ≠ .dead := by
    rw [he]
    exact halive
  have hxdrs : e.con.xdrs =
      x.stored (wireBytes [s.endpoint.con.rpcHeader.xid, 1, 0, 0, 0, 0] ++ rest) := by
    rw [he]
    rfl
  obtain ⟨haddress, hxid⟩ := h.recent d hd
  have houtgoing := sendRequest_outgoing hxdrs hpos (hshaped.fits h.fits) halive'
  have hread : read e.con.xdrs.buffer 0 e.con.xdrs.pos =
      wireBytes [s.endpoint.con.rpcHeader.xid, 1, 0, 0, 0, 0] ++ rest := by
    rw [hxdrs, XdrMem.stored_pos, hpos, Nat.zero_add, ← hpos]
    exact x.read_stored _
  have hhead : (wireBytes [s.endpoint.con.rpcHeader.xid, 1, 0, 0, 0, 0] ++ rest).take 8 =
      d.bytes.take 4 ++ BigEndian.encode 1 := by
    rw [← hxid hlen]
    have hsplit : wireBytes [s.endpoint.con.rpcHeader.xid, 1, 0, 0, 0, 0] ++ rest =
        (BigEndian.encode s.endpoint.con.rpcHeader.xid ++ BigEndian.encode 1) ++
          (wireBytes [0, 0, 0, 0] ++ rest) := by
      simp [wireBytes]
    rw [hsplit, List.take_left']
    rw [List.length_append, BigEndian.encode_length, BigEndian.encode_length]
  have hsent := hshaped.trans e.shaped_sendRequest
  have hcon := sendRequest_con halive'
  refine ⟨hsent.cnxType.trans h.cnxType, ?_, hsent.fits h.fits, ?_,
    always_concat.mpr ⟨h.always, trivial⟩, ?_, ?_⟩
  · obtain ⟨buffsize, hsize⟩ := h.size
    exact ⟨buffsize, hsent.bufferSize.trans hsize⟩
  · dsimp only
    rw [hcon.2.1]
    intro hwaiting
    cases hwaiting
  · intro _
    dsimp only
    rw [houtgoing, hread]
    refine ⟨d, ?_, mem_sinceLast_concat.mpr ⟨rfl, Or.inr rfl⟩, hhead, ?_⟩
    · rw [latest_concat rfl]
      exact hd
    · rw [he]
      exact haddress
  · intro d' hd'
    rw [latest_concat rfl] at hd'
    have hkept : e.sendRequest.con.clientAddress = s.endpoint.con.clientAddress ∧
        e.sendRequest.con.rpcHeader.xid = s.endpoint.con.rpcHeader.xid := by
      unfold sendRequest
      rw [if_neg halive', he]
      exact ⟨rfl, rfl⟩
    dsimp only
    rw [hkept.1, hkept.2]
    exact h.recent d' hd'

/-- A reply is for the datagram that was received last. -/
theorem Invariant.reply (h : s.Invariant) {c : UdpCall} (hreply : c.reply = some payloads)
    (hproper : s.Proper c) : (s.step c).Invariant := by
  have hcall := call_of_reply s.endpoint hreply
  have htrace := sendMessage_trace s.endpoint payloads
  have hshaped := s.endpoint.shaped_sendMessage payloads
  have hstep : s.step c =
      ⟨s.endpoint.sendMessage payloads, s.log ++ s.endpoint.encodedBy c⟩ := by
    unfold step
    rw [hcall, htrace, List.drop_length, List.map_nil, List.append_nil]
  rw [hstep]
  unfold encodedBy
  rw [hreply]
  dsimp only
  unfold sendMessage at hshaped ⊢
  by_cases hdead : s.endpoint.con.state = .dead
  · rw [if_pos hdead, if_pos hdead, List.append_nil]
    exact h
  rw [if_neg hdead] at hshaped
  rw [if_neg hdead, if_neg hdead]
  rcases henc : s.endpoint.encodeMessage s.endpoint.con.rpcHeader.acceptCall payloads with
    ⟨_ | _, e⟩
  · rw [henc] at hshaped
    obtain ⟨xdrs, rfl⟩ := encodeMessage_false henc
    have hreset := reset_alive (e := (s.endpoint.setHeader
      s.endpoint.con.rpcHeader.acceptCall).setXdrs xdrs) h.cnxType hdead
    dsimp only at hshaped ⊢
    rw [hreset] at hshaped ⊢
    rw [List.append_nil]
    refine ⟨h.cnxType, h.size, hshaped.fits h.fits, ?_, h.always, ?_, h.recent⟩
    · intro hwaiting
      cases hwaiting
    · intro hsending
      cases hsending
  · rw [henc] at hshaped
    obtain ⟨x, rest, hpos, rfl⟩ := encodeMessage_true henc
    have hkept := (s.endpoint.kept_encodeMessage s.endpoint.con.rpcHeader.acceptCall payloads).shaped
    rw [henc] at hkept
    obtain ⟨d, hd, hlen⟩ := hproper.2 (by rw [hreply]; simp) hdead
    exact h.encoded hd hlen hdead hpos rest rfl hkept

/-- Every call that a server may get, in its place. -/
theorem Invariant.step (h : s.Invariant) {c : UdpCall} (hserves : c.Serves)
    (hproper : s.Proper c) : (s.step c).Invariant := by
  cases c with
  | receive ios => exact h.receive hproper
  | send ios => exact h.send ios
  | timedOut =>
    have hcall : s.endpoint.call .timedOut = s.endpoint.reset.2 := by
      change s.endpoint.timedOut.2 = _
      unfold timedOut
      rw [h.cnxType]
    rw [step_quiet rfl hcall s.endpoint.reset_trace]
    exact h.reset
  | reset =>
    rw [step_quiet (c := .reset) rfl rfl s.endpoint.reset_trace]
    exact h.reset
  | setTimeout timeout =>
    rw [step_quiet (c := .setTimeout timeout) rfl rfl rfl]
    exact h.quiet ⟨rfl, rfl, rfl⟩ rfl (Or.inl rfl)
  | sendPingReply => exact h.reply rfl hproper
  | sendErrorReply avt trailer error => exact h.reply rfl hproper
  | sendReply avt result trailer => exact h.reply rfl hproper
  | personaNonGrata =>
    rw [step_quiet (c := .personaNonGrata) rfl rfl s.endpoint.reset_trace]
    exact h.reset
  | request xid progNumber progVersion procNumber args => exact absurd hserves id
  | decode r =>
    have hshaped := s.endpoint.shaped_call (.decode r)
    have hresult : s.endpoint.call (.decode r) = (s.endpoint.decode r).2 ∨
        s.endpoint.call (.decode r) = s.endpoint := by
      unfold call
      dsimp only
      split_ifs
      · exact Or.inl rfl
      · exact Or.inr rfl
    obtain hcall | hcall := hresult
    · rw [hcall] at hshaped
      rw [step_quiet rfl hcall rfl]
      exact h.quiet hshaped rfl (Or.inl rfl)
    · rw [step_quiet rfl hcall rfl]
      exact h

theorem invariant_initial (raw : KssUDPXDRConnection) (timeout retrytimeout : ULong)
    (clientAddr : Option SocketAddress) (buffsize : ℕ) :
    (initial raw timeout retrytimeout clientAddr buffsize).Invariant := by
  have hlistens : (server raw timeout retrytimeout clientAddr buffsize).Listens buffsize :=
    server_listens [] rfl
  refine ⟨hlistens.cnxType, ⟨buffsize, hlistens.bufferSize⟩, hlistens.fits, ?_, always_nil, ?_, ?_⟩
  · intro hwaiting
    cases hwaiting
  · intro hsending
    cases hsending
  · intro d hd
    cases hd

/-- As long as there are headers in the datagrams and the replies follow one, whatever is sent is a
reply to the last datagram, for where it came from. -/
theorem replies_answer (raw : KssUDPXDRConnection) (timeout retrytimeout : ULong)
    (clientAddr : Option SocketAddress) (buffsize : ℕ) (cs : List UdpCall)
    (hserves : ∀ c ∈ cs, c.Serves)
    (hproper : GuardedRun.Along step Proper
      (initial raw timeout retrytimeout clientAddr buffsize) cs) :
    Always OnlyAnswers
      (GuardedRun.run step (initial raw timeout retrytimeout clientAddr buffsize) cs).log := by
  have halong : GuardedRun.Along step (fun _ c => UdpCall.Serves c)
      (initial raw timeout retrytimeout clientAddr buffsize) cs :=
    GuardedRun.Along.of_forall UdpCall.Serves hserves
  have hguard := halong.and hproper
  have hrun := GuardedRun.run_invariant (I := Invariant) (fun s c h hc => h.step hc.1 hc.2)
    (invariant_initial raw timeout retrytimeout clientAddr buffsize) hguard
  exact hrun.always

/-- A request that is answered. -/
theorem replies_answer_ping : Always OnlyAnswers (GuardedRun.run step (initial
    ⟨.server, .idle, 0, 0, 0, 0, ⟨.decode, fun _ => 0, 0, 0⟩, fun _ => 0, 0, ⟨0, 0⟩, {}⟩ 0 0 none 0)
    [.receive [.datagram ⟨wireBytes [7, 0, 2, 1, 1, 1, 0, 0, 0, 0], ⟨1, 1⟩⟩], .sendPingReply,
      .send [.sent]]).log := by
  apply replies_answer
  · simp [UdpCall.Serves]
  · refine ⟨⟨?_, fun hreply => absurd rfl hreply⟩, ⟨?_, ?_⟩, ⟨?_, fun hreply => absurd rfl hreply⟩,
      trivial⟩
    · rintro ios d hios - ⟨k, rest, hbrings⟩ -
      obtain rfl := UdpCall.receive.inj hios
      cases k with
      | zero =>
        obtain ⟨hd, -⟩ := List.cons.inj hbrings
        obtain rfl := RecvOutcome.datagram.inj hd
        exact ⟨.call 7 1 1 1, by decide +kernel, by decide +kernel⟩
      | succ k => cases (List.cons.inj hbrings).1
    · intro ios d hios
      cases hios
    · intro _ _
      refine ⟨⟨wireBytes [7, 0, 2, 1, 1, 1, 0, 0, 0, 0], ⟨1, 1⟩⟩, ?_, ?_⟩
      · decide +kernel
      · decide
    · intro ios d hios
      cases hios

/-- A datagram without a header, from another client, is answered with the reply before. -/
theorem not_replies_answer : ¬ Always OnlyAnswers (GuardedRun.run step (initial
    ⟨.server, .idle, 0, 0, 0, 0, ⟨.decode, fun _ => 0, 0, 0⟩, fun _ => 0, 0, ⟨0, 0⟩, {}⟩ 0 0 none 0)
    [.receive [.datagram ⟨wireBytes [7, 0, 2, 1, 1, 1, 0, 0, 0, 0], ⟨1, 1⟩⟩], .sendPingReply,
      .send [.sent], .receive [.datagram ⟨wireBytes [9, 7], ⟨2, 2⟩⟩], .send [.sent]]).log := by
  intro h
  have hlast := h [.received ⟨wireBytes [7, 0, 2, 1, 1, 1, 0, 0, 0, 0], ⟨1, 1⟩⟩,
    .encoded (wireBytes [7, 1, 0, 0, 0, 0]), .sendto ⟨wireBytes [7, 1, 0, 0, 0, 0], ⟨1, 1⟩⟩,
    .received ⟨wireBytes [9, 7], ⟨2, 2⟩⟩] (.sendto ⟨wireBytes [7, 1, 0, 0, 0, 0], ⟨2, 2⟩⟩) []
    (by decide +kernel)
  obtain ⟨d, -, hencoded, -⟩ := hlast
  exact absurd hencoded List.not_mem_nil

end ReplyingServer

end AcpltKs
