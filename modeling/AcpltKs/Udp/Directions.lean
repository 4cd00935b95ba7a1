import AcpltKs.RpcHeader.Directions
import AcpltKs.Udp.Replies

/-! What a UDP connection makes of a datagram, as a server and as a client. -/
namespace AcpltKs
open ByteMemory GuardedRun

theorem Brings.unique {ios : List RecvOutcome} {d d' : Datagram} (h : Brings ios d)
    (h' : Brings ios d') : d = d' := by
  obtain ⟨k, rest, rfl⟩ := h
  obtain ⟨k', rest', hios⟩ := h'
  induction k generalizing k' with
  | zero =>
    cases k' with
    | zero => exact RecvOutcome.datagram.inj (List.cons.inj hios).1
    | succ k' => cases hios
  | succ k ih =>
    cases k' with
    | zero => cases hios
    | succ k' => exact ih k' (List.cons.inj hios).2

namespace UdpEndpoint

/-- The message has been refused: a server has an error reply for it or drops a datagram without
the first word of a header, a client waits for another message. -/
def Refuses (e : UdpEndpoint) (d : Datagram) (e' : UdpEndpoint) : Prop :=
  match e.con.cnxType with
  | .server => e'.con.state = .sending ∧ e'.con.rpcHeader.IsDecodeError ∨
      d.bytes.length < 4 ∧ e'.con.state = e.con.state
  | .client => e'.con.state = e.con.state

/-- A call of `receive` makes the connection ready only for a message in the right direction, which
the datagram it brings carries; any other datagram is refused. A client waits for the reply to
`xid`. -/
structure RightDirection (e : UdpEndpoint) (xid : UInt32) (ios : List RecvOutcome) : Prop where
  ready : (e.receive ios).2.con.state = .ready → ∃ d, Brings ios d ∧
    Carries e.con.cnxType xid d.bytes (e.receive ios).2.con.rpcHeader
  refused : ∀ d, Brings ios d → (e.receive ios).2.con.state ≠ .ready →
    e.Refuses d (e.receive ios).2

/-- The datagram that a call of `receive` brings, if any, does not mislead the connection. -/
def NotMisled (e : UdpEndpoint) (type : ConnectionType) (xid : UInt32) (ios : List RecvOutcome) :
    Prop :=
  ∀ d, Brings ios d → 4 ≤ d.bytes.length → ¬ Misleads type xid (e.filled d) d.bytes

/-- The states in which a datagram is read. -/
def Awaits (e : UdpEndpoint) : Prop := e.con.state = .idle ∨ e.con.state = .waiting

variable {e e' : UdpEndpoint} {d : Datagram} {ios : List RecvOutcome} {xid : UInt32}

theorem receiveMessage_server (htype : e.con.cnxType = .server) :
    let r := (e.con.rpcHeader.xdrDecode.run e.con.xdrs).1
    e.receiveMessage.2.con.state = (if r.1 = true then .ready else .sending) ∧
      e.receiveMessage.2.con.rpcHeader = if r.1 = true then r.2 else r.2.setDecodeError := by
  unfold receiveMessage decodeHeader
  rw [htype]
  rcases e.con.rpcHeader.xdrDecode.run e.con.xdrs with ⟨⟨_ | _, h⟩, xdrs⟩
  · exact ⟨rfl, rfl⟩
  · exact ⟨rfl, rfl⟩

theorem receiveMessage_client (htype : e.con.cnxType = .client) :
    let r := (e.con.rpcHeader.xdrDecode.run e.con.xdrs).1
    let first := BigEndian.decode (read e.con.xdrs.buffer 0 4)
    e.receiveMessage.2.con.state =
        (if first = e.con.rpcHeader.xid ∧ r.1 = true then .ready else e.con.state) ∧
      e.receiveMessage.2.con.rpcHeader =
        if first = e.con.rpcHeader.xid then r.2 else e.con.rpcHeader := by
  unfold receiveMessage decodeHeader
  rw [htype]
  rcases e.con.rpcHeader.xdrDecode.run e.con.xdrs with ⟨⟨ok, h⟩, xdrs⟩
  by_cases hfirst : BigEndian.decode (read e.con.xdrs.buffer 0 4) = e.con.rpcHeader.xid
  · cases ok <;> simp [hfirst, setState, setHeader, setXdrs]
  · simp [hfirst]

/-- A server is ready for what the decoder accepts, and refuses everything else. -/
theorem server_direction (htype : e.con.cnxType = .server) (xid : UInt32)
    (bytes : List UInt8) :
    ((e.receiveMessage.2.con.state = .ready →
        Carries .server xid bytes e.receiveMessage.2.con.rpcHeader) ↔
        ¬ Misleads .server xid e.con.xdrs bytes) ∧
      (e.receiveMessage.2.con.state ≠ .ready → e.receiveMessage.2.con.state = .sending ∧
        e.receiveMessage.2.con.rpcHeader.IsDecodeError) := by
  obtain ⟨hstate, hheader⟩ := receiveMessage_server htype
  rw [← accepted_carries_iff e.con.xdrs bytes e.con.rpcHeader .server xid, hstate, hheader]
  split
  · rename_i hok
    exact ⟨⟨fun h _ _ => h rfl, fun h _ => h hok nofun⟩, fun hnot => absurd rfl hnot⟩
  · rename_i hok
    exact ⟨⟨fun _ hok' => absurd hok' hok, nofun⟩, fun _ => ⟨rfl, setDecodeError_isDecodeError _⟩⟩

theorem getLong_of_room {x : XdrMem} (hpos : x.pos = 0) (hroom : 4 ≤ x.handy) :
    ∃ x', XdrSource.getLong x = (some (BigEndian.decode (read x.buffer 0 4)), x') := by
  change ∃ x', x.getLong = _
  unfold XdrMem.getLong
  rw [if_neg (by omega), hpos]
  exact ⟨_, rfl⟩

/-- A client is ready for what the decoder accepts with the right transaction id, and goes on
waiting otherwise. -/
theorem client_direction (htype : e.con.cnxType = .client) (hxid : e.con.rpcHeader.xid = xid)
    (hstate : e.con.state ≠ .ready) (hpos : e.con.xdrs.pos = 0) (hroom : 4 ≤ e.con.xdrs.handy)
    (bytes : List UInt8) :
    ((e.receiveMessage.2.con.state = .ready →
        Carries .client xid bytes e.receiveMessage.2.con.rpcHeader) ↔
        ¬ Misleads .client xid e.con.xdrs bytes) ∧
      (e.receiveMessage.2.con.state ≠ .ready →
        e.receiveMessage.2.con.state = e.con.state) := by
  obtain ⟨x', hlong⟩ := getLong_of_room hpos hroom
  have hfirst := xdrDecode_xid (h := e.con.rpcHeader) hlong
  obtain ⟨hstate', hheader⟩ := receiveMessage_client htype
  rw [← accepted_carries_iff e.con.xdrs bytes e.con.rpcHeader .client xid, hstate', hheader,
    ← hfirst, hxid]
  split
  · rename_i haccepted
    rw [if_pos haccepted.1]
    exact ⟨⟨fun h _ _ => h rfl, fun h _ => h haccepted.2 fun _ => haccepted.1⟩,
      fun hnot => absurd rfl hnot⟩
  · rename_i hnot
    refine ⟨⟨fun _ hok hsame => absurd ⟨hsame rfl, hok⟩ hnot, fun _ hready => ?_⟩, fun _ => rfl⟩
    exact absurd hready hstate

/-- The datagram is in the buffer, and the connection has looked at it. -/
theorem store_direction (hwaits : e.Awaits) (hfits : e.Fits) (hsize : 4 ≤ e.con.bufferSize)
    (hxid : e.con.cnxType = .client → e.con.rpcHeader.xid = xid) (h : Brings ios d)
    (hlen : 4 ≤ d.bytes.length) :
    (((e.receive ios).2.con.state = .ready →
        Carries e.con.cnxType xid d.bytes (e.receive ios).2.con.rpcHeader) ↔
        ¬ Misleads e.con.cnxType xid (e.filled d) d.bytes) ∧
      ((e.receive ios).2.con.state ≠ .ready → e.Refuses d (e.receive ios).2) := by
  have hstate : e.con.state ≠ .ready := by
    obtain hstate | hstate := hwaits <;> simp [hstate]
  rw [receive_brings hwaits h, if_pos (by omega), ← store_xdrs hfits d]
  have hxdrs := store_xdrs hfits d
  obtain ⟨hheader, htype, hstate'⟩ := store_frame (e.startStream .decode) d
  change _ = e.con.rpcHeader at hheader
  change _ = e.con.cnxType at htype
  change _ = e.con.state at hstate'
  generalize (e.startStream .decode).store d = e₁ at hxdrs hheader htype hstate' ⊢
  unfold Refuses
  rw [← htype]
  rw [← htype] at hxid
  cases hcase : e₁.con.cnxType with
  | server =>
    obtain ⟨hready, hrefused⟩ := server_direction hcase xid d.bytes
    exact ⟨hready, fun hnot => Or.inl (hrefused hnot)⟩
  | client =>
    rw [← hstate']
    apply client_direction hcase
    · rw [hheader]
      exact hxid hcase
    · rw [hstate']
      exact hstate
    · rw [hxdrs]
      rfl
    · rw [hxdrs]
      exact hsize

/-- A connection that waits for a datagram takes the right messages only, unless it is misled. -/
theorem rightDirection_iff (hwaits : e.Awaits) (hfits : e.Fits) (hsize : 4 ≤ e.con.bufferSize)
    (hxid : e.con.cnxType = .client → e.con.rpcHeader.xid = xid) :
    e.RightDirection xid ios ↔ e.NotMisled e.con.cnxType xid ios := by
  constructor
  · rintro ⟨hready, -⟩ d hd hlen
    refine (store_direction hwaits hfits hsize hxid hd hlen).1.mp fun h => ?_
    obtain ⟨d', hd', hcarries⟩ := hready h
    rw [hd.unique hd']
    exact hcarries
  · intro hclear
    have hstate : e.con.state ≠ .ready := by
      obtain hstate | hstate := hwaits <;> simp [hstate]
    have hshort : ∀ d, Brings ios d → ¬ 4 ≤ d.bytes.length →
        (e.receive ios).2.con.state = e.con.state := fun d hd hlen => by
      rw [receive_brings hwaits hd, if_neg (by omega), (store_frame _ d).2.2]
      rfl
    constructor
    · intro hready
      obtain ⟨d, hd⟩ | hnothing := receiveLoop_cases (e.startStream .decode) ios
      · by_cases hlen : 4 ≤ d.bytes.length
        · exact ⟨d, hd, (store_direction hwaits hfits hsize hxid hd hlen).1.mpr
            (hclear d hd hlen) hready⟩
        · exact absurd ((hshort d hd hlen).symm.trans hready) hstate
      · rw [receive_loop hwaits, hnothing] at hready
        exact absurd hready hstate
    · intro d hd hnot
      by_cases hlen : 4 ≤ d.bytes.length
      · exact (store_direction hwaits hfits hsize hxid hd hlen).2 hnot
      · unfold Refuses
        split
        · exact Or.inr ⟨by omega, hshort d hd hlen⟩
        · exact hshort d hd hlen

/-- A server connection, after any run, when it waits for a datagram. -/
theorem Listens.rightDirection_iff {buffsize : ℕ} (h : e.Listens buffsize) (xid : UInt32)
    (ios : List RecvOutcome) :
    e.RightDirection xid ios ↔ e.NotMisled .server xid ios := by
  rw [← h.cnxType]
  apply UdpEndpoint.rightDirection_iff (.inl h.idle) h.fits
  · rw [h.bufferSize]
    exact four_le_bufferLength buffsize
  · rw [h.cnxType]
    nofun

theorem reset_not_ready (h : e.con.state ≠ .ready) : e.reset.2.con.state ≠ .ready := by
  unfold reset
  split
  · exact h
  · cases e.con.cnxType <;> nofun

theorem sendLoop_not_ready (h : e.con.state ≠ .ready) (ios : List SendOutcome) :
    (e.sendLoop ios).2.con.state ≠ .ready := by
  fun_induction sendLoop e ios with
  | case1 e => exact h
  | case2 e ios ih => exact ih h
  | case3 e => exact h
  | case4 e _ _ _ _ mode e' hreset =>
    have hresult : e' = (e.note (.sendto e.outgoing)).reset.2 := by rw [hreset]
    rw [hresult]
    apply reset_not_ready
    exact h
  | case5 e _ e' =>
    change (if e.con.cnxType = .server then ConnectionState.idle else .waiting) ≠ .ready
    split <;> simp

theorem encodeMessage_frame (e : UdpEndpoint) (h : KsRpcHeader) (payloads : List Payload) :
    (e.encodeMessage h payloads).2.con.state = e.con.state ∧
      (e.encodeMessage h payloads).2.con.rpcHeader = h := by
  unfold encodeMessage
  dsimp only
  split <;> exact ⟨rfl, rfl⟩

theorem sendRequest_not_ready (h : e.con.state ≠ .ready) : e.sendRequest.con.state ≠ .ready := by
  unfold sendRequest
  split
  · exact h
  · nofun

theorem sendMessage_not_ready (h : e.con.state ≠ .ready) (payloads : List Payload) :
    (e.sendMessage payloads).con.state ≠ .ready := by
  have hstate := (encodeMessage_frame e e.con.rpcHeader.acceptCall payloads).1
  unfold sendMessage
  split
  · exact h
  · rcases hencoded : e.encodeMessage e.con.rpcHeader.acceptCall payloads with ⟨ok, e'⟩
    rw [hencoded] at hstate
    cases ok with
    | false => exact reset_not_ready (hstate ▸ h)
    | true => exact sendRequest_not_ready (hstate ▸ h)

theorem beginRequest_not_ready (h : e.con.state ≠ .ready)
    (xid progNumber progVersion procNumber : UInt32) :
    (e.beginRequest xid progNumber progVersion procNumber).2.con.state ≠ .ready := by
  unfold beginRequest
  split
  · exact h
  · rw [(encodeMessage_frame _ _ _).1]
    nofun

theorem request_not_ready (h : e.con.state ≠ .ready)
    (xid progNumber progVersion procNumber : UInt32) (args : Payload) :
    (e.request xid progNumber progVersion procNumber args).2.con.state ≠ .ready := by
  have hbegun := beginRequest_not_ready h xid progNumber progVersion procNumber
  unfold request
  rcases hbegin : e.beginRequest xid progNumber progVersion procNumber with ⟨ok, e₁⟩
  rw [hbegin] at hbegun
  cases ok with
  | false => exact hbegun
  | true =>
    unfold encodeArguments
    dsimp only
    rw [if_pos rfl]
    rcases args.xdrEncode e₁.con.xdrs with ⟨ok, xdrs⟩
    cases ok with
    | false => exact hbegun
    | true =>
      apply sendRequest_not_ready
      exact hbegun

theorem timedOut_not_ready (h : e.con.state ≠ .ready) : e.timedOut.2.con.state ≠ .ready := by
  unfold timedOut
  split
  · dsimp only [setState]
    split <;> nofun
  · exact reset_not_ready h

/-- A connection gets ready only when it looks at a datagram. -/
theorem call_ready {c : UdpCall} (h : e.con.state ≠ .ready)
    (hready : (e.call c).con.state = .ready) : e.Awaits ∧ ∃ ios, c = .receive ios := by
  cases c with
  | receive ios =>
    by_cases hwaits : e.Awaits
    · exact ⟨hwaits, ios, rfl⟩
    · rw [call, receive] at hready
      split at hready
      · exact absurd hready h
      · rw [if_pos (not_or.mp hwaits)] at hready
        exact absurd hready (reset_not_ready h)
  | send ios =>
    rw [call, send] at hready
    split at hready
    · exact absurd hready h
    · split at hready
      · exact absurd hready (reset_not_ready h)
      · exact absurd hready (sendLoop_not_ready h ios)
  | timedOut => exact absurd hready (timedOut_not_ready h)
  | reset => exact absurd hready (reset_not_ready h)
  | setTimeout timeout => exact absurd hready h
  | sendPingReply => exact absurd hready (sendMessage_not_ready h _)
  | sendErrorReply avt trailer error => exact absurd hready (sendMessage_not_ready h _)
  | sendReply avt result trailer => exact absurd hready (sendMessage_not_ready h _)
  | personaNonGrata => exact absurd hready (reset_not_ready h)
  | request xid progNumber progVersion procNumber args =>
    exact absurd hready (request_not_ready h xid progNumber progVersion procNumber args)
  | decode reader =>
    rw [call] at hready
    split at hready
    · exact absurd hready h
    · exact absurd hready h

end UdpEndpoint
end AcpltKs
