import AcpltKs.Udp.Directions

/-! Runs of a UDP client connection. While a reply is awaited, the RPC header holds the transaction
id of the request that has been sent. -/
namespace AcpltKs
open ByteMemory GuardedRun

/-- A client connection, and the transaction id of the last request that has been sent. -/
structure UdpClientRun where
  endpoint : UdpEndpoint
  outstanding : UInt32

namespace UdpClientRun

def step (r : UdpClientRun) : UdpCall → UdpClientRun
  | .request xid progNumber progVersion procNumber args =>
      match r.endpoint.request xid progNumber progVersion procNumber args with
      | (true, endpoint) => ⟨endpoint, xid⟩
      | (false, endpoint) => { r with endpoint }
  | c => { r with endpoint := r.endpoint.call c }

/-- A connection times out only if it needs a timeout, and a client is not told to reply. -/
def Managed (r : UdpClientRun) : UdpCall → Prop
  | .timedOut => r.endpoint.getIoMode.needTimeout = true
  | c => c.reply = none

/-- A new client connection, in memory `raw`. -/
def initial (raw : KssUDPXDRConnection) (timeout retrytimeout : ULong)
    (clientAddr : Option SocketAddress) (buffsize : ℕ) (xid : UInt32) : UdpClientRun :=
  ⟨⟨.create raw timeout retrytimeout clientAddr .client buffsize true true xid, []⟩, xid⟩

end UdpClientRun

namespace UdpEndpoint

/-- What holds of a client connection whose request has the transaction id `xid`. -/
structure Serving (xid : UInt32) (e : UdpEndpoint) : Prop where
  cnxType : e.con.cnxType = .client
  outstanding : e.con.state = .waiting ∨ e.con.state = .sending → e.con.rpcHeader.xid = xid

variable {e e' : UdpEndpoint} {ios : List RecvOutcome} {xid : UInt32}

theorem Serving.of_kept (h : e.Serving xid) (hkept : e.Kept e')
    (hxid : e'.con.state = .waiting ∨ e'.con.state = .sending →
      (e.con.state = .waiting ∨ e.con.state = .sending) ∧
        e'.con.rpcHeader.xid = e.con.rpcHeader.xid) : e'.Serving xid := by
  refine ⟨hkept.cnxType.trans h.cnxType, fun hbusy => ?_⟩
  obtain ⟨hbusy', hsame⟩ := hxid hbusy
  rw [hsame]
  exact h.outstanding hbusy'

/-- A reset client is passive. -/
theorem reset_serving (h : e.Serving xid) : e.reset.2.Serving xid := by
  apply h.of_kept e.kept_reset
  unfold reset
  split
  · intro hbusy
    exact ⟨hbusy, rfl⟩
  · simp [setState, h.cnxType]

/-- A client takes no header with another transaction id. -/
theorem receiveMessage_xid (htype : e.con.cnxType = .client) (hpos : e.con.xdrs.pos = 0)
    (hroom : 4 ≤ e.con.xdrs.handy) :
    e.receiveMessage.2.con.rpcHeader.xid = e.con.rpcHeader.xid := by
  obtain ⟨x', hlong⟩ := getLong_of_room hpos hroom
  have hfirst := xdrDecode_xid (h := e.con.rpcHeader) hlong
  rw [(receiveMessage_client htype).2]
  split
  · rename_i hsame
    rw [hfirst, hsame]
  · rfl

/-- A client that waits goes on doing so or gets ready, with the same transaction id. -/
theorem receive_client (htype : e.con.cnxType = .client) (hwaits : e.Awaits) (hfits : e.Fits)
    (hsize : 4 ≤ e.con.bufferSize) (ios : List RecvOutcome) :
    ((e.receive ios).2.con.state = e.con.state ∨ (e.receive ios).2.con.state = .ready) ∧
      (e.receive ios).2.con.rpcHeader.xid = e.con.rpcHeader.xid := by
  obtain ⟨d, hd⟩ | hnothing := receiveLoop_cases (e.startStream .decode) ios
  · have hxdrs := store_xdrs hfits d
    obtain ⟨hheader, htype', hstate⟩ := store_frame (e.startStream .decode) d
    change _ = e.con.rpcHeader at hheader
    change _ = e.con.cnxType at htype'
    change _ = e.con.state at hstate
    rw [receive_brings hwaits hd]
    generalize (e.startStream .decode).store d = e₁ at hxdrs hheader htype' hstate ⊢
    rw [← hheader, ← hstate]
    split
    · constructor
      · rw [(receiveMessage_client (htype'.trans htype)).1]
        split
        · exact Or.inr rfl
        · exact Or.inl rfl
      · apply receiveMessage_xid (htype'.trans htype)
        · rw [hxdrs]
          rfl
        · rw [hxdrs]
          exact hsize
    · exact ⟨Or.inl rfl, rfl⟩
  · rw [receive_loop hwaits, hnothing]
    exact ⟨Or.inl rfl, rfl⟩

theorem receive_serving (h : e.Serving xid) (hfits : e.Fits) (hsize : 4 ≤ e.con.bufferSize)
    (ios : List RecvOutcome) : (e.receive ios).2.Serving xid := by
  by_cases hwaits : e.Awaits
  · obtain ⟨hstate, hxid⟩ := receive_client h.cnxType hwaits hfits hsize ios
    apply h.of_kept (e.kept_receive ios)
    intro hbusy
    refine ⟨?_, hxid⟩
    obtain hstate | hstate := hstate <;> rw [hstate] at hbusy
    · exact hbusy
    · simp at hbusy
  · unfold receive
    split
    · exact h
    · rw [if_pos (not_or.mp hwaits)]
      exact reset_serving h

theorem sendLoop_serving (h : e.Serving xid) (hstate : e.con.state = .sending)
    (ios : List SendOutcome) : (e.sendLoop ios).2.Serving xid := by
  fun_induction sendLoop e ios with
  | case1 e => exact h.of_kept (e.kept_note _) fun hbusy => ⟨hbusy, rfl⟩
  | case2 e ios ih =>
    apply ih
    · exact h.of_kept (e.kept_note _) fun hbusy => ⟨hbusy, rfl⟩
    · exact hstate
  | case3 e => exact h.of_kept (e.kept_note _) fun hbusy => ⟨hbusy, rfl⟩
  | case4 e _ _ _ _ mode e' hreset =>
    have hresult : e' = (e.note (.sendto e.outgoing)).reset.2 := by rw [hreset]
    rw [hresult]
    exact reset_serving (h.of_kept (e.kept_note _) fun hbusy => ⟨hbusy, rfl⟩)
  | case5 e _ e' =>
    apply h.of_kept ((e.kept_note _).trans (kept_setState _ _))
    intro _
    exact ⟨Or.inr hstate, rfl⟩

theorem send_serving (h : e.Serving xid) (ios : List SendOutcome) :
    (e.send ios).2.Serving xid := by
  unfold send
  split
  · exact h
  · split
    · exact reset_serving h
    · rename_i hstate
      exact sendLoop_serving h (not_not.mp hstate) ios

theorem waiting_of_needTimeout (h : e.getIoMode.needTimeout = true) : e.con.state = .waiting := by
  unfold getIoMode KssUDPXDRConnection.getIoMode at h
  cases hstate : e.con.state <;> simp [hstate] at h ⊢

theorem timedOut_serving (h : e.Serving xid) (hwaiting : e.con.state = .waiting) :
    e.timedOut.2.Serving xid := by
  unfold timedOut
  rw [h.cnxType]
  exact ⟨h.cnxType, fun _ => h.outstanding (.inl hwaiting)⟩

/-- A passive connection has nothing to send. -/
theorem serving_of_passive (htype : e.con.cnxType = .client) (hstate : e.con.state = .passive) :
    e.Serving xid :=
  ⟨htype, fun hbusy => by simp [hstate] at hbusy⟩

/-- A request is ready to be sent, or the connection is passive. -/
theorem request_serving {progNumber progVersion procNumber new : UInt32} {args : Payload}
    {ok : Bool} (h : e.Serving xid)
    (hrequest : e.request new progNumber progVersion procNumber args = (ok, e')) :
    e'.Serving (if ok then new else xid) := by
  have htype :=
    (e.shaped_request new progNumber progVersion procNumber args).cnxType.trans h.cnxType
  rw [hrequest] at htype
  unfold request at hrequest
  by_cases hdead : e.con.state = .dead
  · have hbegin : e.beginRequest new progNumber progVersion procNumber = (false, e) := if_pos hdead
    rw [hbegin] at hrequest
    obtain ⟨rfl, rfl⟩ := Prod.mk.inj hrequest
    exact h
  · obtain ⟨hstate, hheader⟩ := encodeMessage_frame (e.setState .passive)
      (e.con.rpcHeader.setRequest new progNumber progVersion procNumber) []
    have hbegin : e.beginRequest new progNumber progVersion procNumber = _ := if_neg hdead
    rw [hbegin] at hrequest
    rcases hencoded : (e.setState .passive).encodeMessage
      (e.con.rpcHeader.setRequest new progNumber progVersion procNumber) [] with ⟨ok₁, e₁⟩
    rw [hencoded] at hrequest hstate hheader
    cases ok₁ with
    | false =>
      obtain ⟨rfl, rfl⟩ := Prod.mk.inj hrequest
      exact serving_of_passive htype hstate
    | true =>
      dsimp only at hrequest
      rw [if_pos rfl] at hrequest
      unfold encodeArguments at hrequest
      rcases hargs : args.xdrEncode e₁.con.xdrs with ⟨ok₂, xdrs⟩
      rw [hargs] at hrequest
      cases ok₂ with
      | false =>
        obtain ⟨rfl, rfl⟩ := Prod.mk.inj hrequest
        exact serving_of_passive htype hstate
      | true =>
        obtain ⟨rfl, rfl⟩ := Prod.mk.inj hrequest
        refine ⟨htype, fun _ => ?_⟩
        have hsent : (e₁.setXdrs xdrs).sendRequest.con.rpcHeader = e₁.con.rpcHeader := by
          unfold sendRequest
          split <;> rfl
        change (e₁.setXdrs xdrs).sendRequest.con.rpcHeader.xid = new
        rw [hsent, hheader]
        rfl

end UdpEndpoint

namespace UdpClientRun
open UdpEndpoint
variable {r : UdpClientRun}

theorem step_serving (h : r.endpoint.Serving r.outstanding) (hfits : r.endpoint.Fits)
    (hsize : 4 ≤ r.endpoint.con.bufferSize) {c : UdpCall} (hmanaged : r.Managed c) :
    (r.step c).endpoint.Serving (r.step c).outstanding := by
  cases c with
  | receive ios => exact receive_serving h hfits hsize ios
  | send ios => exact send_serving h ios
  | timedOut => exact timedOut_serving h (waiting_of_needTimeout hmanaged)
  | reset => exact reset_serving h
  | setTimeout timeout => exact ⟨h.cnxType, h.outstanding⟩
  | sendPingReply | sendErrorReply | sendReply => cases hmanaged
  | personaNonGrata => exact reset_serving h
  | request xid progNumber progVersion procNumber args =>
    rcases hrequest : r.endpoint.request xid progNumber progVersion procNumber args with ⟨ok, e⟩
    have hserving := request_serving h hrequest
    unfold step
    dsimp only
    rw [hrequest]
    cases ok with
    | false => exact hserving
    | true => exact hserving
  | decode reader =>
    change (r.endpoint.call (.decode reader)).Serving r.outstanding
    rw [call]
    split_ifs
    · exact h.of_kept (r.endpoint.kept_decode reader) fun hbusy => ⟨hbusy, rfl⟩
    · exact h

theorem step_endpoint (r : UdpClientRun) (c : UdpCall) :
    (r.step c).endpoint = r.endpoint.call c := by
  cases c with
  | request xid progNumber progVersion procNumber args =>
    unfold step call
    dsimp only
    split
    · rename_i hrequest
      rw [hrequest]
    · rename_i hrequest
      rw [hrequest]
  | _ => rfl

/-- A run of a new client connection leads here. -/
def Reached (r : UdpClientRun) : Prop :=
  ∃ raw timeout retrytimeout clientAddr buffsize xid cs,
    Along step Managed (initial raw timeout retrytimeout clientAddr buffsize xid) cs ∧
      r = run step (initial raw timeout retrytimeout clientAddr buffsize xid) cs

theorem Reached.serving (h : r.Reached) : r.endpoint.Serving r.outstanding ∧
    r.endpoint.Fits ∧ 4 ≤ r.endpoint.con.bufferSize := by
  obtain ⟨raw, timeout, retrytimeout, clientAddr, buffsize, xid, cs, hcs, rfl⟩ := h
  apply run_invariant (I := fun r => r.endpoint.Serving r.outstanding ∧ r.endpoint.Fits ∧
    4 ≤ r.endpoint.con.bufferSize) _ _ hcs
  · rintro r c ⟨hserving, hfits, hsize⟩ hmanaged
    have hshaped := r.endpoint.shaped_call c
    refine ⟨step_serving hserving hfits hsize hmanaged, ?_, ?_⟩
    · rw [step_endpoint]
      exact hshaped.fits hfits
    · rw [step_endpoint, hshaped.bufferSize]
      exact hsize
  · obtain ⟨hfits, htype⟩ :=
      create_fits raw timeout retrytimeout clientAddr .client buffsize true xid []
    refine ⟨⟨htype, fun hbusy => ?_⟩, hfits, four_le_bufferLength buffsize⟩
    obtain hbusy | hbusy := hbusy <;> cases hbusy

/-- A client connection, after any run, when it waits for a datagram. -/
theorem Reached.rightDirection_iff (h : r.Reached) (hstate : r.endpoint.con.state = .waiting)
    (ios : List RecvOutcome) :
    r.endpoint.RightDirection r.outstanding ios ↔
      r.endpoint.NotMisled .client r.outstanding ios := by
  obtain ⟨hserving, hfits, hsize⟩ := h.serving
  rw [← hserving.cnxType]
  apply UdpEndpoint.rightDirection_iff (.inr hstate) hfits hsize
  intro _
  exact hserving.outstanding (.inl hstate)

end UdpClientRun
end AcpltKs
