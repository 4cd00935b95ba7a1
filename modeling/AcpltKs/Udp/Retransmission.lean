import Mathlib.Algebra.Order.Floor.Div
import AcpltKs.RpcHeader.RoundTrip
import AcpltKs.Udp.Calls

/-! Requests of a client over UDP: they are sent again until an answer comes, always as the same
datagram, and given up when the total timeout has passed. -/
namespace AcpltKs
open ByteMemory

/-- Calls that compose no message and leave the timeouts alone. -/
def UdpCall.Awaits : UdpCall → Prop
  | .receive _ | .send _ | .timedOut | .reset | .personaNonGrata | .decode _ => True
  | _ => False

def UdpCall.isTimedOut : UdpCall → Bool
  | .timedOut => true
  | _ => false

/-- How many intervals have passed. -/
def timeouts (cs : List UdpCall) : ℕ := cs.countP UdpCall.isTimedOut

theorem awaits_replicate (n : ℕ) : ∀ c ∈ List.replicate n UdpCall.timedOut, c.Awaits := by
  intro c hc
  rw [List.eq_of_mem_replicate hc]
  trivial

theorem timeouts_replicate (n : ℕ) : timeouts (List.replicate n .timedOut) = n := by
  rw [timeouts, List.countP_replicate]
  rfl

/-- When as many intervals `r` have passed as make up a time `t`, and at least one, their sum in a
machine word has reached `t` exactly if it has not overflowed. -/
theorem le_wrapped_iff {t r : ℕ} (ht : t < UInt64.size) (hr : 0 < r) (hsize : r < UInt64.size) :
    t ≤ max 1 (t ⌈/⌉ r) * r % UInt64.size ↔ (t ⌈/⌉ r) * r < UInt64.size := by
  rcases Nat.eq_zero_or_pos t with rfl | hpos
  · rw [zero_ceilDiv, Nat.zero_mul]
    simp
  · have hreach : t ≤ (t ⌈/⌉ r) * r := by
      rw [Nat.mul_comm]
      exact (ceilDiv_le_iff_le_mul hr).mp le_rfl
    have hpos' : 0 < t ⌈/⌉ r := by
      by_contra hzero
      rw [Nat.eq_zero_of_not_pos hzero, Nat.zero_mul] at hreach
      omega
    have hbefore : (t ⌈/⌉ r - 1) * r < t := by
      by_contra hle
      have := (ceilDiv_le_iff_le_mul hr).mpr (show t ≤ r * (t ⌈/⌉ r - 1) by
        rw [Nat.mul_comm]
        omega)
      omega
    have hstep : (t ⌈/⌉ r - 1) * r + r = (t ⌈/⌉ r) * r := by
      rw [← Nat.succ_mul, Nat.succ_eq_add_one, Nat.sub_add_cancel hpos']
    rw [Nat.max_eq_right hpos']
    generalize (t ⌈/⌉ r) * r = total at *
    constructor
    · intro hle
      by_contra hover
      rw [Nat.mod_eq_sub_mod (by omega), Nat.mod_eq_of_lt (by omega)] at hle
      omega
    · intro hlt
      rwa [Nat.mod_eq_of_lt hlt]

theorem le_passed_iff {t r : ULong} {k : ℕ} :
    0 + UInt64.ofNat k * r ≥ t ↔ t.toNat ≤ k * r.toNat % UInt64.size := by
  rw [UInt64.zero_add, ge_iff_le, UInt64.le_iff_toNat_le, UInt64.toNat_mul, UInt64.toNat_ofNat',
    Nat.mod_mul_mod]

namespace UdpEndpoint

/-- The datagram that a request is composed to. -/
def requestDatagram (e : UdpEndpoint) (xid progNumber progVersion procNumber : UInt32)
    (args : Payload) : Datagram :=
  ⟨(RpcMessage.call xid progNumber progVersion procNumber).bytes ++ args.bytes,
    e.con.clientAddress⟩

/-- All that is sent from here on is the one datagram. -/
def SendsOnly (e : UdpEndpoint) (d : Datagram) (cs : List UdpCall) : Prop :=
  ∀ d', Traffic.sendto d' ∈ (e.calls cs).trace.drop e.trace.length → d' = d

/-- The interval in which the total timeout is reached leaves a connection that has not got an
answer in failure. -/
def GivesUp (e : UdpEndpoint) (cs : List UdpCall) : Prop :=
  (∃ bs, cs = bs ++ [.timedOut]) →
    timeouts cs = max 1 (e.con.totalTimeout.toNat ⌈/⌉ e.con.timeout.toNat) →
    (∀ bs, bs <+: cs → (e.calls bs).con.state ≠ .ready) → (e.calls cs).con.state = .readyFailed

variable {e e' : UdpEndpoint} {xid progNumber progVersion procNumber : UInt32} {args : Payload}

theorem startStream_pos (e : UdpEndpoint) (op : XdrOp) : (e.startStream op).con.xdrs.pos = 0 := by
  have hset : ¬ e.con.xdrs.pos + e.con.xdrs.handy < 0 := by omega
  simp [startStream, XdrMem.setpos, setXdrs, hset]

theorem sendRequest_outgoing {bs : List UInt8} {x : XdrMem} (hx : e.con.xdrs = x.stored bs)
    (hpos : x.pos = 0) (hfits : e.Fits) (hstate : e.con.state ≠ .dead) :
    e.sendRequest.outgoing = ⟨bs, e.con.clientAddress⟩ := by
  have hlen : bs.length ≤ e.con.bufferSize := by
    rw [← hfits, hx, XdrMem.extent, XdrMem.stored_pos]
    omega
  have hpos' : e.con.xdrs.pos = bs.length := by
    rw [hx, XdrMem.stored_pos, hpos, Nat.zero_add]
  have hread : read e.con.xdrs.buffer 0 bs.length = bs := by
    rw [hx, ← hpos]
    exact x.read_stored bs
  have hcopied : read (write e.con.sendbuffer 0 (read e.con.xdrs.buffer 0 e.con.bufferSize)) 0
      e.con.bufferSize = read e.con.xdrs.buffer 0 e.con.bufferSize := by
    simpa only [read_length] using
      read_write_self e.con.sendbuffer 0 (read e.con.xdrs.buffer 0 e.con.bufferSize)
  unfold sendRequest
  rw [if_neg hstate]
  unfold outgoing
  dsimp only
  rw [hpos', ← read_take _ _ hlen, hcopied, read_take _ _ hlen, hread]

theorem sendRequest_con (hstate : e.con.state ≠ .dead) :
    e.sendRequest.con.timePassed = 0 ∧ e.sendRequest.con.state = .sending ∧
      e.sendRequest.con.cnxType = e.con.cnxType := by
  unfold sendRequest
  rw [if_neg hstate]
  exact ⟨rfl, rfl, rfl⟩

/-- A header that has been written out is at the beginning of the buffer. -/
theorem beginRequest_true
    (h : e.beginRequest xid progNumber progVersion procNumber = (true, e')) :
    e.con.state ≠ .dead ∧ e'.con.state ≠ .dead ∧
      ∃ x : XdrMem, x.pos = 0 ∧ e'.con.xdrs =
        x.stored (RpcMessage.call xid progNumber progVersion procNumber).bytes := by
  unfold beginRequest encodeMessage at h
  split at h
  · cases h
  · rename_i hstate
    dsimp only at h
    split at h
    · cases h
    · rename_i xdrs hencoded
      cases h
      obtain ⟨-, hstored⟩ := Payload.xdrEncode_true hencoded
      refine ⟨hstate, nofun, ((e.setState .passive).startStream .encode).con.xdrs,
        startStream_pos _ .encode, hstored.trans ?_⟩
      exact congrArg (XdrMem.stored _) (flatMap_long_bytes _)

/-- A request that has been composed is ready to be sent, and its time starts. -/
theorem request_composes (hclient : e.con.cnxType = .client) (hfits : e.Fits)
    (h : e.request xid progNumber progVersion procNumber args = (true, e')) :
    e'.outgoing = e.requestDatagram xid progNumber progVersion procNumber args ∧
      e'.con.timePassed = 0 ∧ e'.con.state = .sending ∧ e'.con.cnxType = .client := by
  unfold request at h
  have hkept := e.kept_beginRequest xid progNumber progVersion procNumber
  rcases hbegin : e.beginRequest xid progNumber progVersion procNumber with ⟨ok, e₁⟩
  rw [hbegin] at h hkept
  cases ok with
  | false => cases h
  | true =>
    obtain ⟨-, hstate, x, hpos, hheader⟩ := beginRequest_true hbegin
    have hkept' := e₁.kept_encodeArguments args
    dsimp only at h
    rw [if_pos rfl] at h
    unfold encodeArguments at h hkept'
    rcases hargs : args.xdrEncode e₁.con.xdrs with ⟨ok, xdrs⟩
    rw [hargs] at h hkept'
    cases ok with
    | false => cases h
    | true =>
      obtain ⟨-, rfl⟩ := Payload.xdrEncode_true hargs
      cases h
      have hx : e₁.con.xdrs.stored args.bytes =
          x.stored ((RpcMessage.call xid progNumber progVersion procNumber).bytes ++ args.bytes) := by
        rw [hheader, XdrMem.stored_append]
      have hcon := sendRequest_con (e := e₁.setXdrs (e₁.con.xdrs.stored args.bytes)) hstate
      refine ⟨?_, hcon.1, hcon.2.1, hcon.2.2.trans (hkept.cnxType.trans hclient)⟩
      refine (sendRequest_outgoing hx hpos ((hkept.trans hkept').shaped.fits hfits) hstate).trans ?_
      rw [requestDatagram, ← hkept.clientAddress hclient]
      rfl

/-- The connection `e'` after `n` intervals in which the one datagram of `e` has been sent. -/
structure Awaiting (e : UdpEndpoint) (n : ℕ) (e' : UdpEndpoint) : Prop where
  cnxType : e'.con.cnxType = .client
  outgoing : e'.outgoing = e.outgoing
  timeout : e'.con.timeout = e.con.timeout
  totalTimeout : e'.con.totalTimeout = e.con.totalTimeout
  timePassed : e'.con.timePassed = e.con.timePassed + UInt64.ofNat n * e.con.timeout
  trace : ∃ ts, e'.trace = e.trace ++ ts ∧ ∀ d, .sendto d ∈ ts → d = e.outgoing

namespace Awaiting
variable {n : ℕ} {e'' : UdpEndpoint}

theorem kept (h : e.Awaiting n e') (hkept : e'.Kept e'')
    (htrace : ∃ ts, e''.trace = e'.trace ++ ts ∧ ∀ d, .sendto d ∈ ts → d = e'.outgoing) :
    e.Awaiting n e'' := by
  obtain ⟨ts, hts, hsent⟩ := h.trace
  obtain ⟨ts', hts', hsent'⟩ := htrace
  refine ⟨hkept.cnxType.trans h.cnxType, (hkept.outgoing h.cnxType).trans h.outgoing, ?_, ?_, ?_,
    ts ++ ts', ?_, ?_⟩
  · rw [hkept.con]
    exact h.timeout
  · rw [hkept.con]
    exact h.totalTimeout
  · rw [hkept.con]
    exact h.timePassed
  · rw [hts', hts, List.append_assoc]
  · intro d hd
    rcases List.mem_append.mp hd with hd | hd
    · exact hsent d hd
    · exact (hsent' d hd).trans h.outgoing

theorem silent (h : e.Awaiting n e') (hkept : e'.Kept e'') (htrace : e''.trace = e'.trace) :
    e.Awaiting n e'' :=
  h.kept hkept ⟨[], by rw [htrace, List.append_nil], nofun⟩

theorem elapse (h : e.Awaiting n e') : e.Awaiting (n + 1) e'.elapse := by
  refine ⟨h.cnxType, h.outgoing, h.timeout, h.totalTimeout, ?_, h.trace⟩
  have htime : e'.elapse.con.timePassed = e'.con.timePassed + e'.con.timeout := rfl
  have hnext : UInt64.ofNat (n + 1) = UInt64.ofNat n + 1 := by simp
  rw [htime, h.timePassed, h.timeout, hnext, UInt64.add_mul, UInt64.one_mul, UInt64.add_assoc]

theorem call (h : e.Awaiting n e') {c : UdpCall} (hc : c.Awaits) :
    e.Awaiting (timeouts [c] + n) (e'.call c) := by
  cases c with
  | receive ios =>
    rw [show timeouts [UdpCall.receive ios] + n = n from Nat.zero_add n]
    refine h.kept (e'.kept_receive ios) ?_
    rcases e'.receive_trace ios with htrace | ⟨d, htrace⟩
    · exact ⟨[], by rw [UdpEndpoint.call, htrace, List.append_nil], nofun⟩
    · exact ⟨[.received d], htrace, by simp⟩
  | send ios =>
    rw [show timeouts [UdpCall.send ios] + n = n from Nat.zero_add n]
    obtain ⟨k, htrace⟩ := e'.send_trace ios
    refine h.kept (e'.kept_send ios) ⟨_, htrace, fun d hd => ?_⟩
    have hsent := List.eq_of_mem_replicate hd
    cases hsent
    rfl
  | timedOut =>
    rw [show timeouts [UdpCall.timedOut] + n = n + 1 from Nat.add_comm 1 n]
    refine h.elapse.silent (e'.kept_timedOut h.cnxType) ?_
    rw [UdpEndpoint.call, timedOut, h.cnxType]
    rfl
  | reset =>
    rw [show timeouts [UdpCall.reset] + n = n from Nat.zero_add n]
    exact h.silent e'.kept_reset e'.reset_trace
  | personaNonGrata =>
    rw [show timeouts [UdpCall.personaNonGrata] + n = n from Nat.zero_add n]
    exact h.silent e'.kept_reset e'.reset_trace
  | decode r =>
    rw [show timeouts [UdpCall.decode r] + n = n from Nat.zero_add n, UdpEndpoint.call]
    split_ifs
    · exact h.silent (e'.kept_decode r) rfl
    · exact h
  | setTimeout | sendPingReply | sendErrorReply | sendReply | request => exact hc.elim

theorem calls (h : e.Awaiting n e') {cs : List UdpCall} (hcs : ∀ c ∈ cs, c.Awaits) :
    e.Awaiting (timeouts cs + n) (e'.calls cs) := by
  induction cs generalizing n e' with
  | nil => exact (Nat.zero_add n).symm ▸ h
  | cons c cs ih =>
    have hrest := ih (h.call (hcs c List.mem_cons_self)) fun c hc => hcs c (List.mem_cons_of_mem _ hc)
    have hcount : timeouts (c :: cs) = timeouts cs + timeouts [c] := by
      rw [timeouts, ← List.singleton_append, List.countP_append, Nat.add_comm]
      rfl
    rw [hcount, Nat.add_assoc]
    exact hrest

/-- The next interval leads to failure if the time that has passed reaches the total timeout. -/
theorem timedOut_state (h : e.Awaiting n e') :
    e'.timedOut.2.con.state = if e.con.timePassed + UInt64.ofNat (n + 1) * e.con.timeout ≥
      e.con.totalTimeout then .readyFailed else .sending := by
  have hnext := h.elapse.timePassed
  have htime : e'.elapse.con.timePassed = e'.con.timePassed + e'.con.timeout := rfl
  unfold timedOut
  rw [h.cnxType]
  dsimp only
  rw [← htime, hnext, h.totalTimeout]
  rfl

end Awaiting

theorem awaiting_refl (hclient : e.con.cnxType = .client) : e.Awaiting 0 e :=
  ⟨hclient, rfl, rfl, rfl, by simp, [], (List.append_nil _).symm, nofun⟩

theorem awaiting_sendsOnly {cs : List UdpCall} {n : ℕ} (h : e.Awaiting n (e.calls cs)) :
    e.SendsOnly e.outgoing cs := by
  obtain ⟨ts, htrace, hsent⟩ := h.trace
  intro d hd
  rw [htrace, List.drop_left] at hd
  exact hsent d hd

theorem onlyTimeouts_state (hclient : e.con.cnxType = .client) (n : ℕ) :
    (e.calls (List.replicate (n + 1) .timedOut)).con.state =
      if e.con.timePassed + UInt64.ofNat (n + 1) * e.con.timeout ≥ e.con.totalTimeout then
        .readyFailed else .sending := by
  have hstate := ((awaiting_refl hclient).calls (awaits_replicate n)).timedOut_state
  rw [timeouts_replicate, Nat.add_zero] at hstate
  rw [List.replicate_succ', calls, GuardedRun.run_append]
  exact hstate

/-- After a request, only its datagram is sent, and it is given up when the total timeout has
passed, in every order of attempts to send, timeouts and incoming datagrams, exactly if the
intervals up to there can be added up without an overflow. -/
theorem retransmission_iff (raw : KssUDPXDRConnection) (timeout retrytimeout : ULong)
    (clientAddr : Option SocketAddress) (buffsize : ℕ) (nonblocking : Bool) (xid₀ : UInt32)
    (history : List UdpCall) {e e' : UdpEndpoint}
    (he : e = UdpEndpoint.calls ⟨.create raw timeout retrytimeout clientAddr .client buffsize true
      nonblocking xid₀, []⟩ history)
    {xid progNumber progVersion procNumber : UInt32} {args : Payload}
    (hrequest : e.request xid progNumber progVersion procNumber args = (true, e'))
    (hinterval : 0 < e'.con.timeout) :
    (∀ cs, (∀ c ∈ cs, c.Awaits) →
        e'.SendsOnly (e.requestDatagram xid progNumber progVersion procNumber args) cs ∧
          e'.GivesUp cs) ↔
      (e'.con.totalTimeout.toNat ⌈/⌉ e'.con.timeout.toNat) * e'.con.timeout.toNat <
        UInt64.size := by
  obtain ⟨hfits, hclient⟩ := create_fits raw timeout retrytimeout clientAddr .client buffsize
    nonblocking xid₀ []
  have hshaped := shaped_calls ⟨.create raw timeout retrytimeout clientAddr .client buffsize true
    nonblocking xid₀, []⟩ history
  rw [← he] at hshaped
  obtain ⟨hout, htime, hsending, hclient'⟩ :=
    request_composes (hshaped.cnxType.trans hclient) (hshaped.fits hfits) hrequest
  have hwait := awaiting_refl hclient'
  rw [← le_wrapped_iff (UInt64.toNat_lt _) (UInt64.lt_iff_toNat_lt.mp hinterval)
    (UInt64.toNat_lt _), ← le_passed_iff, ← hout]
  constructor
  · intro h
    have hready (n : ℕ) : (e'.calls (List.replicate n .timedOut)).con.state ≠ .ready := by
      cases n with
      | zero =>
        rw [show e'.calls (List.replicate 0 .timedOut) = e' from rfl, hsending]
        nofun
      | succ n =>
        rw [onlyTimeouts_state hclient']
        split_ifs
        · nofun
        · nofun
    obtain ⟨n, hn⟩ : ∃ n, max 1 (e'.con.totalTimeout.toNat ⌈/⌉ e'.con.timeout.toNat) = n + 1 :=
      ⟨_, (Nat.sub_add_cancel (Nat.le_max_left 1 _)).symm⟩
    have hfailed := (h _ (awaits_replicate (n + 1))).2 ⟨_, List.replicate_succ'⟩
      ((timeouts_replicate (n + 1)).trans hn.symm) fun bs hbs => by
        rw [List.eq_replicate_of_mem fun c hc => List.eq_of_mem_replicate (hbs.subset hc)]
        exact hready _
    rw [onlyTimeouts_state hclient', htime] at hfailed
    rw [hn]
    by_contra hnot
    rw [if_neg hnot] at hfailed
    cases hfailed
  · intro hreached cs hcs
    refine ⟨awaiting_sendsOnly (hwait.calls hcs), ?_⟩
    rintro ⟨bs, rfl⟩ hcount -
    have hbs := hwait.calls fun c hc => hcs c (List.mem_append_left _ hc)
    have hsucc : timeouts (bs ++ [.timedOut]) = timeouts bs + 1 := List.countP_append ..
    have hstate := hbs.timedOut_state
    rw [htime, Nat.add_zero, ← hsucc, hcount, if_pos hreached] at hstate
    rw [calls, GuardedRun.run_append]
    exact hstate

/-- A client in zeroed memory. -/
def startedClient (timeout retrytimeout : ULong) : UdpEndpoint where
  con := KssUDPXDRConnection.create
    { cnxType := .client, state := .dead, timeout := 0, totalTimeout := 0, timePassed := 0
      bufferSize := 0, xdrs := xdrmemCreate (fun _ => 0) 0 .decode, sendbuffer := fun _ => 0
      tosend := 0, clientAddress := ⟨0, 0⟩, rpcHeader := {} }
    timeout retrytimeout none .client 1024 true true 0
  trace := []

/-- It has just made a request without arguments. -/
def requested (timeout retrytimeout : ULong) : UdpEndpoint :=
  ((startedClient timeout retrytimeout).request 7 0x49678 2 0 ⟨[], true⟩).2

/-- A datagram with another transaction id does not interrupt the intervals. -/
def twoIntervals : List UdpCall :=
  [.send [.fails .eintr, .sent], .timedOut, .send [.sent],
    .receive [.datagram ⟨[0, 0, 0, 6], ⟨1, 2⟩⟩], .timedOut]

theorem retransmission_twoIntervals :
    (requested 10 5).SendsOnly ((startedClient 10 5).requestDatagram 7 0x49678 2 0 ⟨[], true⟩)
      twoIntervals ∧ (requested 10 5).GivesUp twoIntervals := by
  have hrequest : (startedClient 10 5).request 7 0x49678 2 0 ⟨[], true⟩ = (true, requested 10 5) := rfl
  refine (retransmission_iff _ 10 5 none 1024 true 0 [] rfl hrequest (by decide)).mpr (by decide)
    twoIntervals ?_
  simp [twoIntervals, UdpCall.Awaits]

/-- Two intervals of `2 ^ 63` seconds add up to none at all. -/
theorem not_givesUp_overflow :
    ¬ (requested 18446744073709551615 9223372036854775808).GivesUp [.timedOut, .timedOut] := by
  intro h
  have hready (n : ℕ) (hn : n ≤ 2) : ((requested 18446744073709551615 9223372036854775808).calls
      (List.replicate n .timedOut)).con.state ≠ .ready := by
    interval_cases n <;> decide +kernel
  have hfailed := h ⟨[.timedOut], rfl⟩ (by decide +kernel) fun bs hbs => by
    rw [List.eq_replicate_of_mem fun c hc => List.eq_of_mem_replicate (n := 2) (hbs.subset hc)]
    exact hready bs.length hbs.length_le
  exact absurd hfailed (by decide +kernel)

end UdpEndpoint
end AcpltKs
