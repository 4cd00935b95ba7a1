import AcpltKs.Library.GuardedRun
import AcpltKs.Udp.Basic
import AcpltKs.XdrMem

/-! Runs of calls on a UDP connection. The stream always covers the buffer exactly, so that a
message is encoded as soon as it fits into it. -/
namespace AcpltKs
open ByteMemory

/-- What is called on a connection, by the connection manager or by those who use it. -/
inductive UdpCall where
  | receive (ios : List RecvOutcome)
  | send (ios : List SendOutcome)
  | timedOut
  | reset
  | setTimeout (timeout : ULong)
  | sendPingReply
  | sendErrorReply (avt trailer : Payload) (error : UInt32)
  | sendReply (avt result trailer : Payload)
  | personaNonGrata
  | request (xid progNumber progVersion procNumber : UInt32) (args : Payload)
  | decode (r : XdrReader Unit)

namespace UdpEndpoint

/-- A request, as the users of a client connection make it; it is only sent if everything has been
encoded. -/
def request (e : UdpEndpoint) (xid progNumber progVersion procNumber : UInt32) (args : Payload) :
    Bool × UdpEndpoint :=
  let (ok, e) := e.beginRequest xid progNumber progVersion procNumber
  let (ok, e) := if ok then e.encodeArguments args else (false, e)
  (ok, if ok then e.sendRequest else e)

/-- Nobody reads from a stream that is not set to decoding. -/
def call (e : UdpEndpoint) : UdpCall → UdpEndpoint
  | .receive ios => (e.receive ios).2
  | .send ios => (e.send ios).2
  | .timedOut => e.timedOut.2
  | .reset => e.reset.2
  | .setTimeout timeout => { e with con := { e.con with timeout } }
  | .sendPingReply => e.sendPingReply
  | .sendErrorReply avt trailer error => e.sendErrorReply avt trailer error
  | .sendReply avt result trailer => e.sendReply avt result trailer
  | .personaNonGrata => e.personaNonGrata
  | .request xid progNumber progVersion procNumber args =>
      (e.request xid progNumber progVersion procNumber args).2
  | .decode r => if e.con.xdrs.op = .decode then (e.decode r).2 else e

def calls (e : UdpEndpoint) (cs : List UdpCall) : UdpEndpoint := GuardedRun.run call e cs

end UdpEndpoint

namespace XdrMem

/-- How many bytes there are from the beginning of the buffer to its end. -/
def extent (x : XdrMem) : ℕ := x.pos + x.handy

theorem extent_setpos (x : XdrMem) (pos : ℕ) : (x.setpos pos).2.extent = x.extent := by
  unfold setpos extent
  split_ifs
  · rfl
  · dsimp only
    omega

theorem extent_getLong (x : XdrMem) : x.getLong.2.extent = x.extent := by
  unfold getLong extent
  split_ifs
  · rfl
  · dsimp only
    omega

theorem extent_getBytes (x : XdrMem) (len : ℕ) : (x.getBytes len).2.extent = x.extent := by
  unfold getBytes extent
  split_ifs
  · rfl
  · dsimp only
    omega

theorem extent_putBytes (x : XdrMem) (bs : List UInt8) : (x.putBytes bs).2.extent = x.extent := by
  unfold putBytes extent
  split_ifs
  · rfl
  · dsimp only
    omega

theorem extent_run {α : Type*} (r : XdrReader α) (x : XdrMem) :
    (r.run x).2.extent = x.extent := by
  induction r generalizing x with
  | done a => rfl
  | long next ih => exact (ih x.getLong.1 x.getLong.2).trans x.extent_getLong
  | octets len next ih =>
    exact (ih (x.getBytes len).1 (x.getBytes len).2).trans (x.extent_getBytes len)

end XdrMem

theorem XdrItem.extent_xdrEncode (item : XdrItem) (x : XdrMem) :
    (item.xdrEncode x).2.extent = x.extent := by
  cases item with
  | long w => exact x.extent_putBytes (BigEndian.encode w)
  | octets bs =>
    have hput : (XdrSink.putBytes x bs).2.extent = x.extent := x.extent_putBytes bs
    rcases hstored : XdrSink.putBytes x bs with ⟨ok, x'⟩
    rw [hstored] at hput
    unfold xdrEncode
    dsimp only
    rw [hstored]
    cases ok with
    | false =>
      split_ifs
      · rfl
      · exact hput
      · exact hput
    | true =>
      split_ifs
      · rfl
      · exact hput
      · exact (x'.extent_putBytes _).trans hput

theorem xdrEncodeItems_extent (items : List XdrItem) (x : XdrMem) :
    (xdrEncodeItems x items).2.extent = x.extent := by
  induction items generalizing x with
  | nil => rfl
  | cons item items ih =>
    have hitem := item.extent_xdrEncode x
    unfold xdrEncodeItems
    split
    · rename_i hstored
      rwa [hstored] at hitem
    · rename_i hstored
      rw [hstored] at hitem
      exact (ih _).trans hitem

theorem Payload.extent_xdrEncode (p : Payload) (x : XdrMem) :
    (p.xdrEncode x).2.extent = x.extent := by
  have hitems := xdrEncodeItems_extent p.items x
  unfold xdrEncode
  split
  · rename_i hstored
    rwa [hstored] at hitems
  · rename_i hstored
    rwa [hstored] at hitems

theorem KsRpcHeader.extent_xdrEncode (h : KsRpcHeader) (x : XdrMem) :
    (h.xdrEncode x).2.extent = x.extent :=
  Payload.extent_xdrEncode _ x

namespace UdpEndpoint

/-- What a call that composes no message leaves alone: whatever belongs to the message to be sent,
the timeouts, and the ends of the stream. A client stays with its server. -/
structure Kept (e e' : UdpEndpoint) : Prop where
  con : e'.con = { e.con with
    state := e'.con.state
    xdrs := e'.con.xdrs
    clientAddress := e'.con.clientAddress
    rpcHeader := e'.con.rpcHeader }
  extent : e'.con.xdrs.extent = e.con.xdrs.extent
  clientAddress : e.con.cnxType = .client → e'.con.clientAddress = e.con.clientAddress

namespace Kept
variable {e e' e'' : UdpEndpoint}

theorem refl (e : UdpEndpoint) : e.Kept e := ⟨rfl, rfl, fun _ => rfl⟩

theorem cnxType (h : e.Kept e') : e'.con.cnxType = e.con.cnxType := by
  rw [h.con]

theorem trans (h : e.Kept e') (h' : e'.Kept e'') : e.Kept e'' := by
  refine ⟨?_, h'.extent.trans h.extent, fun hclient => ?_⟩
  · rw [h'.con, h.con]
  · rw [h'.clientAddress (h.cnxType.trans hclient), h.clientAddress hclient]

theorem outgoing (h : e.Kept e') (hclient : e.con.cnxType = .client) :
    e'.outgoing = e.outgoing := by
  rw [UdpEndpoint.outgoing, h.clientAddress hclient, h.con]
  rfl

end Kept

variable (e : UdpEndpoint)

theorem kept_setState (state : ConnectionState) : e.Kept (e.setState state) :=
  ⟨rfl, rfl, fun _ => rfl⟩

theorem kept_note (t : Traffic) : e.Kept (e.note t) := ⟨rfl, rfl, fun _ => rfl⟩

theorem kept_startStream (op : XdrOp) : e.Kept (e.startStream op) :=
  ⟨rfl, ({ e.con.xdrs with op } : XdrMem).extent_setpos 0, fun _ => rfl⟩

theorem kept_reset : e.Kept e.reset.2 := by
  unfold reset
  split
  · exact .refl e
  · exact e.kept_setState _

theorem kept_store (d : Datagram) : e.Kept (e.store d) := by
  unfold store
  dsimp only
  split
  · rename_i hserver
    exact ⟨rfl, rfl, fun hclient => by simp_all [setXdrs, note]⟩
  · exact ⟨rfl, rfl, fun _ => rfl⟩

theorem kept_decodeHeader : e.Kept e.decodeHeader.2 :=
  ⟨rfl, XdrMem.extent_run e.con.rpcHeader.xdrDecode e.con.xdrs, fun _ => rfl⟩

theorem kept_receiveMessage : e.Kept e.receiveMessage.2 := by
  have hdecode := e.kept_decodeHeader
  rcases hdecoded : e.decodeHeader with ⟨ok, e'⟩
  rw [hdecoded] at hdecode
  unfold receiveMessage
  rw [hdecoded]
  split
  · split_ifs
    · exact .refl e
    · cases ok with
      | false => exact hdecode
      | true => exact hdecode.trans (e'.kept_setState .ready)
  · cases ok with
    | false => exact hdecode.trans ⟨rfl, rfl, fun _ => rfl⟩
    | true => exact hdecode.trans (e'.kept_setState .ready)

theorem kept_receiveLoop (ios : List RecvOutcome) : e.Kept (e.receiveLoop ios).2 := by
  fun_induction receiveLoop e ios with
  | case1 => exact .refl e
  | case2 ios ih => exact ih
  | case3 => exact .refl e
  | case4 => exact .refl e
  | case5 d ios received e' h => exact (e.kept_store d).trans e'.kept_receiveMessage
  | case6 d ios received e' h => exact e.kept_store d

theorem kept_receive (ios : List RecvOutcome) : e.Kept (e.receive ios).2 := by
  unfold receive
  split_ifs
  · exact .refl e
  · exact e.kept_reset
  · exact (e.kept_startStream .decode).trans (kept_receiveLoop _ ios)

theorem kept_sendLoop (ios : List SendOutcome) : e.Kept (e.sendLoop ios).2 := by
  fun_induction sendLoop e ios with
  | case1 e => exact e.kept_note _
  | case2 e ios ih => exact (e.kept_note _).trans ih
  | case3 e => exact e.kept_note _
  | case4 e _ _ _ _ mode e' hreset =>
    have hresult : e' = (e.note (.sendto e.outgoing)).reset.2 := by rw [hreset]
    rw [hresult]
    exact (e.kept_note _).trans (kept_reset _)
  | case5 e _ e' => exact (e.kept_note _).trans (kept_setState _ _)

theorem kept_send (ios : List SendOutcome) : e.Kept (e.send ios).2 := by
  unfold send
  split_ifs
  · exact .refl e
  · exact e.kept_reset
  · exact e.kept_sendLoop ios

theorem kept_decode {α : Type*} (r : XdrReader α) : e.Kept (e.decode r).2 :=
  ⟨rfl, XdrMem.extent_run r e.con.xdrs, fun _ => rfl⟩

theorem kept_encodeMessage (h : KsRpcHeader) (payloads : List Payload) :
    e.Kept (e.encodeMessage h payloads).2 := by
  have hpayloads (r : Bool × XdrMem) : (payloads.foldl
      (fun r p => if r.1 then p.xdrEncode r.2 else r) r).2.extent = r.2.extent := by
    induction payloads generalizing r with
    | nil => rfl
    | cons p payloads ih =>
      rw [List.foldl_cons, ih]
      split_ifs
      · exact p.extent_xdrEncode r.2
      · rfl
  have hheader := h.extent_xdrEncode ((e.startStream .encode).setHeader h).con.xdrs
  have hstart : ((e.startStream .encode).setHeader h).con.xdrs.extent = e.con.xdrs.extent :=
    (e.kept_startStream .encode).extent
  unfold encodeMessage
  dsimp only
  split
  · rename_i xdrs hencoded
    rw [hencoded] at hheader
    exact ⟨rfl, hheader.trans hstart, fun _ => rfl⟩
  · rename_i xdrs hencoded
    rw [hencoded] at hheader
    exact ⟨rfl, (hpayloads (true, xdrs)).trans (hheader.trans hstart), fun _ => rfl⟩

theorem kept_encodeArguments (args : Payload) : e.Kept (e.encodeArguments args).2 :=
  ⟨rfl, args.extent_xdrEncode e.con.xdrs, fun _ => rfl⟩

theorem kept_beginRequest (xid progNumber progVersion procNumber : UInt32) :
    e.Kept (e.beginRequest xid progNumber progVersion procNumber).2 := by
  unfold beginRequest
  split
  · exact .refl e
  · exact (e.kept_setState .passive).trans (kept_encodeMessage _ _ _)

/-- One more interval has passed. -/
def elapse : UdpEndpoint :=
  { e with con := { e.con with timePassed := e.con.timePassed + e.con.timeout } }

theorem kept_timedOut (h : e.con.cnxType = .client) : e.elapse.Kept e.timedOut.2 := by
  unfold timedOut
  rw [h]
  exact e.elapse.kept_setState _

/-! What every call leaves alone. -/

/-- A connection stays a client or a server, with the same ends of the buffer and the stream. -/
structure Shaped (e e' : UdpEndpoint) : Prop where
  cnxType : e'.con.cnxType = e.con.cnxType
  bufferSize : e'.con.bufferSize = e.con.bufferSize
  extent : e'.con.xdrs.extent = e.con.xdrs.extent

namespace Shaped
variable {e e' e'' : UdpEndpoint}

theorem refl (e : UdpEndpoint) : e.Shaped e := ⟨rfl, rfl, rfl⟩

theorem trans (h : e.Shaped e') (h' : e'.Shaped e'') : e.Shaped e'' :=
  ⟨h'.cnxType.trans h.cnxType, h'.bufferSize.trans h.bufferSize, h'.extent.trans h.extent⟩

end Shaped

theorem Kept.shaped {e e' : UdpEndpoint} (h : e.Kept e') : e.Shaped e' := by
  refine ⟨h.cnxType, ?_, h.extent⟩
  rw [h.con]

theorem shaped_sendRequest : e.Shaped e.sendRequest := by
  unfold sendRequest
  split
  · exact .refl e
  · exact ⟨rfl, rfl, rfl⟩

theorem shaped_sendMessage (payloads : List Payload) : e.Shaped (e.sendMessage payloads) := by
  have hencoded := (e.kept_encodeMessage e.con.rpcHeader.acceptCall payloads).shaped
  unfold sendMessage
  split
  · exact .refl e
  · split
    · rename_i e' hmessage
      rw [hmessage] at hencoded
      exact hencoded.trans e'.shaped_sendRequest
    · rename_i e' hmessage
      rw [hmessage] at hencoded
      exact hencoded.trans e'.kept_reset.shaped

theorem shaped_request (xid progNumber progVersion procNumber : UInt32) (args : Payload) :
    e.Shaped (e.request xid progNumber progVersion procNumber args).2 := by
  have hbegun := (e.kept_beginRequest xid progNumber progVersion procNumber).shaped
  unfold request
  rcases hbegin : e.beginRequest xid progNumber progVersion procNumber with ⟨ok, e₁⟩
  rw [hbegin] at hbegun
  cases ok with
  | false => exact hbegun
  | true =>
    have hargs := (e₁.kept_encodeArguments args).shaped
    dsimp only
    rw [if_pos rfl]
    rcases hencoded : e₁.encodeArguments args with ⟨ok, e₂⟩
    rw [hencoded] at hargs
    cases ok with
    | false => exact hbegun.trans hargs
    | true => exact hbegun.trans (hargs.trans e₂.shaped_sendRequest)

theorem shaped_timedOut : e.Shaped e.timedOut.2 := by
  cases htype : e.con.cnxType with
  | client =>
    have helapse : e.Shaped e.elapse := ⟨rfl, rfl, rfl⟩
    exact helapse.trans (e.kept_timedOut htype).shaped
  | server =>
    unfold timedOut
    rw [htype]
    exact e.kept_reset.shaped

theorem shaped_call (c : UdpCall) : e.Shaped (e.call c) := by
  cases c with
  | receive ios => exact (e.kept_receive ios).shaped
  | send ios => exact (e.kept_send ios).shaped
  | timedOut => exact e.shaped_timedOut
  | reset => exact e.kept_reset.shaped
  | setTimeout timeout => exact ⟨rfl, rfl, rfl⟩
  | sendPingReply => exact e.shaped_sendMessage []
  | sendErrorReply avt trailer error => exact e.shaped_sendMessage _
  | sendReply avt result trailer => exact e.shaped_sendMessage _
  | personaNonGrata => exact e.kept_reset.shaped
  | request xid progNumber progVersion procNumber args =>
    exact e.shaped_request xid progNumber progVersion procNumber args
  | decode r =>
    rw [call]
    split_ifs
    · exact (e.kept_decode r).shaped
    · exact .refl e

theorem shaped_calls (cs : List UdpCall) : e.Shaped (e.calls cs) :=
  GuardedRun.run_invariant (I := e.Shaped) (fun e' c h _ => h.trans (e'.shaped_call c)) (.refl e)
    (GuardedRun.Along.of_forall (fun _ => True) fun _ _ => trivial)

/-- The stream covers the buffer of the connection. -/
def Fits : Prop := e.con.xdrs.extent = e.con.bufferSize

variable {e}

theorem Shaped.fits {e' : UdpEndpoint} (h : e.Shaped e') (hfits : e.Fits) : e'.Fits := by
  rw [Fits, h.extent, h.bufferSize]
  exact hfits

theorem create_fits (raw : KssUDPXDRConnection) (timeout retrytimeout : ULong)
    (clientAddr : Option SocketAddress) (type : ConnectionType) (buffsize : ℕ)
    (nonblocking : Bool) (xid : UInt32) (trace : List Traffic) :
    Fits ⟨.create raw timeout retrytimeout clientAddr type buffsize true nonblocking xid, trace⟩ ∧
      (KssUDPXDRConnection.create raw timeout retrytimeout clientAddr type buffsize true nonblocking
        xid).cnxType = type := by
  cases nonblocking with
  | false => exact ⟨Nat.zero_add _, rfl⟩
  | true =>
    cases type with
    | client => exact ⟨Nat.zero_add _, rfl⟩
    | server => exact ⟨Nat.zero_add _, rfl⟩

variable (e)

/-! What an observer notes: only `send` hands anything to `sendto`. -/

theorem store_trace (d : Datagram) : (e.store d).trace = e.trace ++ [.received d] := by
  unfold store
  dsimp only
  split
  · rfl
  · rfl

theorem reset_trace : e.reset.2.trace = e.trace := by
  unfold reset
  split
  · rfl
  · rfl

theorem receiveMessage_trace : e.receiveMessage.2.trace = e.trace := by
  rcases hdecoded : e.decodeHeader with ⟨ok, e'⟩
  have htrace : e'.trace = e.trace := by
    rw [show e' = e.decodeHeader.2 by rw [hdecoded]]
    rfl
  unfold receiveMessage
  rw [hdecoded]
  split
  · split_ifs
    · rfl
    · cases ok with
      | false => exact htrace
      | true => exact htrace
  · cases ok with
    | false => exact htrace
    | true => exact htrace

theorem receive_trace (ios : List RecvOutcome) :
    (e.receive ios).2.trace = e.trace ∨ ∃ d, (e.receive ios).2.trace = e.trace ++ [.received d] := by
  have hloop (e : UdpEndpoint) : (e.receiveLoop ios).2.trace = e.trace ∨
      ∃ d, (e.receiveLoop ios).2.trace = e.trace ++ [.received d] := by
    fun_induction receiveLoop e ios with
    | case1 => exact .inl rfl
    | case2 ios ih => exact ih
    | case3 => exact .inl rfl
    | case4 => exact .inl rfl
    | case5 d ios received e' h =>
      exact .inr ⟨d, e'.receiveMessage_trace.trans (e.store_trace d)⟩
    | case6 d ios received e' h => exact .inr ⟨d, e.store_trace d⟩
  unfold receive
  split_ifs
  · exact .inl rfl
  · exact .inl e.reset_trace
  · exact hloop (e.startStream .decode)

theorem sendLoop_trace (ios : List SendOutcome) :
    ∃ n, (e.sendLoop ios).2.trace = e.trace ++ List.replicate n (.sendto e.outgoing) := by
  fun_induction sendLoop e ios with
  | case1 e => exact ⟨1, rfl⟩
  | case2 e ios ih =>
    obtain ⟨n, hn⟩ := ih
    refine ⟨n + 1, ?_⟩
    rw [hn, List.replicate_succ, List.append_cons]
    rfl
  | case3 e => exact ⟨1, rfl⟩
  | case4 e _ _ _ _ mode e' hreset =>
    have hresult : e' = (e.note (.sendto e.outgoing)).reset.2 := by rw [hreset]
    refine ⟨1, ?_⟩
    rw [hresult]
    exact reset_trace _
  | case5 e _ e' => exact ⟨1, rfl⟩

theorem send_trace (ios : List SendOutcome) :
    ∃ n, (e.send ios).2.trace = e.trace ++ List.replicate n (.sendto e.outgoing) := by
  unfold send
  split_ifs
  · exact ⟨0, by simp⟩
  · exact ⟨0, by simpa using e.reset_trace⟩
  · exact e.sendLoop_trace ios

end UdpEndpoint
end AcpltKs
