import AcpltKs.Tcp.Directions

/-! Runs of a TCP client connection: the requests that are made over it, and the calls of the
connection manager. While a reply is awaited, the RPC header holds the request's transaction id. -/
namespace AcpltKs
open GuardedRun

/-- A request, or what can happen to any connection. -/
inductive ClientCall where
  | event (ev : Event)
  | request (xid progNumber progVersion procNumber : UInt32) (args : Payload)

/-- A client connection, and the transaction id of the last request that has been sent. -/
structure ClientRun where
  endpoint : Endpoint
  outstanding : UInt32

namespace Endpoint

/-- A request, as the users of a client connection make it; it is only sent if everything has been
encoded. -/
def request (e : Endpoint) (xid progNumber progVersion procNumber : UInt32) (args : Payload) :
    Bool × Endpoint :=
  match e.beginRequest xid progNumber progVersion procNumber with
  | (false, e) => (false, e)
  | (true, e) =>
      match e.encodeArguments args with
      | (false, e) => (false, e)
      | (true, e) => (true, e.sendRequest)

/-- A request is on its way, or its reply is awaited. -/
def Busy (e : Endpoint) : Prop := e.Awaits ∨ e.con.state = .sending

end Endpoint

namespace ClientRun

/-- Nothing happens any more after a null pointer was dereferenced. -/
def step (r : ClientRun) : ClientCall → ClientRun
  | .event ev => { r with endpoint := r.endpoint.step ev }
  | .request xid progNumber progVersion procNumber args =>
      if r.endpoint.con.xdrs.fault then r
      else
        match r.endpoint.request xid progNumber progVersion procNumber args with
        | (true, endpoint) => ⟨endpoint, xid⟩
        | (false, endpoint) => { r with endpoint }

/-- A connection is only asked to receive or to send when it said that it wants to, a client is not
told to reply, and there is one request at a time. -/
def Managed (r : ClientRun) : ClientCall → Prop
  | .event (.receive _) => r.endpoint.getIoMode.readable = true
  | .event (.send _) => r.endpoint.getIoMode.writeable = true
  | .event ev => ev.payloads = none
  | .request .. => ¬ r.endpoint.Busy

end ClientRun

namespace Endpoint

/-- What holds of a client connection whose request has the transaction id `xid`. -/
structure Serving (size : ℕ) (xid : UInt32) (e : Endpoint) : Prop where
  cnxType : e.con.cnxType = .client
  bufferSize : e.pool.memStreamBufferSize = size
  stream : e.con.xdrs.fault = false → e.Awaits → ∃ bs, e.con.xdrs.Encoding size bs
  outstanding : e.Busy → e.con.rpcHeader.xid = xid

variable {e e' : Endpoint} {size : ℕ} {xid : UInt32} {ios ios' : List IoOutcome}
  {sys : SystemCalls} {bs : List UInt8}

theorem not_busy_iff (e : Endpoint) : ¬ e.Busy ↔
    e.con.state ≠ .idle ∧ e.con.state ≠ .waiting ∧ e.con.state ≠ .receiving ∧
      e.con.state ≠ .sending := by
  unfold Busy Awaits
  tauto

/-- Nothing is to be seen to of a connection that is not busy. -/
theorem serving_of_not_busy (h : ¬ e.Busy) (htype : e.con.cnxType = .client)
    (hpool : e.pool.memStreamBufferSize = size) : e.Serving size xid :=
  ⟨htype, hpool, fun _ hawaits => absurd (.inl hawaits) h, fun hbusy => absurd hbusy h⟩

/-- The connection has been restarted, and does not wait for anything. -/
theorem cleared_serving {state : ConnectionState} (h : e.Serving size xid)
    (hstate : state = .readyFailed ∨ state = .connFailed ∨ state = .connected ∨ state = .dead) :
    (e.setState state).clearStream.startHeader.Serving size xid := by
  apply serving_of_not_busy
  · rw [not_busy_iff]
    obtain rfl | rfl | rfl | rfl := hstate <;>
      simp [startHeader, clearStream, setMem, setState, KssTCPXDRConnection.startHeader]
  · exact h.cnxType
  · exact (xdrmemstreamClear_bufferSize (e.pool, e.con.xdrs)).trans h.bufferSize

theorem reset_serving (h : e.Serving size xid) : e.reset.2.Serving size xid := by
  unfold reset
  split
  · exact h
  · apply cleared_serving h
    rw [h.cnxType]
    cases e.con.state <;> simp

theorem timedOut_serving (h : e.Serving size xid) : e.timedOut.2.Serving size xid := by
  unfold timedOut
  split
  · exact h
  · apply cleared_serving h
    rw [h.cnxType]
    cases e.con.state <;> simp

theorem failed_serving (htype : e.con.cnxType = .client)
    (hpool : e.pool.memStreamBufferSize = size) : e.failed.Serving size xid := by
  apply serving_of_not_busy
  · rw [not_busy_iff]
    simp [failed, setState, htype]
  · exact htype
  · exact hpool

theorem connectPending_serving {soError : Bool} {r : ConnectionIoMode × Endpoint}
    (h : e.Serving size xid) (hr : e.connectPending soError = some r) : r.2.Serving size xid := by
  unfold connectPending at hr
  split at hr
  · split at hr <;> obtain rfl := Option.some.inj hr
    · exact serving_of_not_busy ((not_busy_iff _).mpr (by simp [setState])) h.cnxType h.bufferSize
    · exact serving_of_not_busy ((not_busy_iff _).mpr (by simp [setState])) h.cnxType h.bufferSize
  · obtain rfl := Option.some.inj hr
    exact h
  · obtain rfl := Option.some.inj hr
    exact h
  · cases hr

theorem awaits_of_readable (hreadable : e.getIoMode.readable = true)
    {soError : Bool} (hpending : e.connectPending soError = none) : e.Awaits := by
  unfold getIoMode KssTCPXDRConnection.getIoMode at hreadable
  unfold connectPending at hpending
  unfold Awaits
  cases hstate : e.con.state <;> simp [hstate] at hreadable hpending ⊢
  split at hpending <;> cases hpending

theorem receiveMessage_client_pool (htype : e.con.cnxType = .client) :
    e.receiveMessage.2.pool = e.pool := by
  unfold receiveMessage
  simp only [setMem, note, setState, htype]
  rfl

/-- The socket is of no concern. -/
theorem Serving.of_fields (h : e.Serving size xid) (hcon : e'.con = e.con)
    (hpool : e'.pool = e.pool) : e'.Serving size xid := by
  refine ⟨?_, ?_, ?_, ?_⟩
  · rw [hcon]
    exact h.cnxType
  · rw [hpool]
    exact h.bufferSize
  · unfold Awaits
    rw [hcon]
    exact h.stream
  · unfold Busy Awaits
    rw [hcon]
    exact h.outstanding

theorem headerError_serving (h : e.Serving size xid) (errno : Errno) :
    (e.headerError errno).2.Serving size xid := by
  unfold headerError
  split
  · exact h
  · apply failed_serving
    · split <;> exact h.cnxType
    · split <;> exact h.bufferSize

theorem receiveHeader_error_serving {mode : ConnectionIoMode} (h : e.Serving size xid)
    (hrec : e.receiveHeader ios = (.error mode, e')) : e'.Serving size xid := by
  unfold receiveHeader at hrec
  split at hrec
  · obtain ⟨-, rfl⟩ := Prod.mk.inj hrec
    exact failed_serving h.cnxType h.bufferSize
  · cases hrec
  · simp only [Prod.mk.injEq] at hrec
    obtain ⟨-, rfl⟩ := hrec
    apply headerError_serving
    exact h.of_fields rfl rfl

theorem receiveBody_error_serving {mode : ConnectionIoMode} (htype : e.con.cnxType = .client)
    (henc : e.con.xdrs.Encoding size bs) (hpool : e.pool.memStreamBufferSize = size)
    (hsize : LegalSize size) (hrec : e.receiveBody ios = (some mode, e')) :
    e'.Serving size xid := by
  obtain ⟨cs, -, -, hpool'⟩ :=
    xdrmemstreamReadFromFd_encoding henc hpool hsize ios e.socket e.con.remainingLen
  unfold receiveBody at hrec
  dsimp only at hrec
  split at hrec
  · split at hrec <;> cases hrec
  · rw [if_neg (by simp [setMem, htype])] at hrec
    obtain ⟨-, rfl⟩ := Prod.mk.inj hrec
    exact failed_serving htype hpool'

/-- The rest of a record is awaited. -/
theorem receiving_serving (htype : e.con.cnxType = .client) (henc : e.con.xdrs.Encoding size bs)
    (hpool : e.pool.memStreamBufferSize = size) (hxid : e.con.rpcHeader.xid = xid) :
    (e.setState .receiving).Serving size xid :=
  ⟨htype, hpool, fun _ _ => ⟨bs, henc⟩, fun _ => hxid⟩

theorem finishReceive_serving (htype : e.con.cnxType = .client)
    (henc : e.con.xdrs.Encoding size bs) (hpool : e.pool.memStreamBufferSize = size)
    (hxid : e.con.rpcHeader.xid = xid) : e.finishReceive.2.Serving size xid := by
  by_cases hcomplete : e.con.Complete
  · rw [finishReceive_complete hcomplete]
    obtain ⟨hstate, -, htype'⟩ := receiveMessage_client htype
    apply serving_of_not_busy _ htype'
    · rw [receiveMessage_client_pool htype]
      exact hpool
    · rw [not_busy_iff, hstate]
      split <;> simp
  · rw [finishReceive_of_not_complete hcomplete]
    exact receiving_serving htype henc hpool hxid

theorem receiveRest_serving (htype : e.con.cnxType = .client)
    (henc : e.con.xdrs.Encoding size bs) (hpool : e.pool.memStreamBufferSize = size)
    (hsize : LegalSize size) (hxid : e.con.rpcHeader.xid = xid) :
    (e.receiveRest ios).2.Serving size xid := by
  unfold receiveRest
  split
  · rcases hrec : e.receiveBody ios with ⟨_ | mode, e'⟩
    · obtain ⟨htype', hheader, ⟨cs, henc'⟩, hpool'⟩ := receiveBody_frame hrec henc hpool hsize
      apply finishReceive_serving (htype'.trans htype) henc' hpool'
      rw [hheader, hxid]
    · exact receiveBody_error_serving htype henc hpool hsize hrec
  · exact finishReceive_serving htype henc hpool hxid

theorem receive_serving (h : e.Serving size xid) (hsize : LegalSize size)
    (hfault : e.con.xdrs.fault = false) (hreadable : e.getIoMode.readable = true) :
    (e.receive sys).2.Serving size xid := by
  unfold receive
  split
  · rename_i hpending
    exact connectPending_serving h hpending
  · rename_i hpending
    have hawaits : e.Awaits := awaits_of_readable hreadable hpending
    obtain ⟨bs, henc⟩ := h.stream hfault hawaits
    have hxid := h.outstanding (.inl hawaits)
    split
    · rcases hrec : e.receiveHeader sys.outcomes with ⟨mode | ios, e'⟩
      · exact receiveHeader_error_serving h hrec
      · obtain ⟨hpool, hxdrs, -, htype, hheader⟩ := receiveHeader_frame hrec
        apply receiveRest_serving (htype.trans h.cnxType) (hxdrs ▸ henc)
        · rw [hpool, h.bufferSize]
        · exact hsize
        · rw [hheader, hxid]
    · exact receiveRest_serving h.cnxType henc h.bufferSize hsize hxid

theorem writeToFdLoop_pool (ios : List IoOutcome) (m : Mem) (sock : Socket) (max : ℕ) :
    (writeToFdLoop ios m sock max).mem.1 = m.1 := by
  induction ios generalizing m sock max with
  | nil =>
    unfold writeToFdLoop
    split
    · rfl
    · split <;> rfl
  | cons io ios ih =>
    unfold writeToFdLoop
    split
    · rfl
    · split
      · rfl
      · dsimp only
        split
        · rfl
        · split
          · rfl
          · split
            · rfl
            · exact ih _ _ _

theorem xdrmemstreamWriteToFd_pool (ios : List IoOutcome) (m : Mem) (sock : Socket) (max : ℕ) :
    (xdrmemstreamWriteToFd ios m sock max).mem.1 = m.1 := by
  unfold xdrmemstreamWriteToFd
  split
  · rfl
  · exact writeToFdLoop_pool ios m sock max

/-- The reply to the request that has been sent is awaited. -/
theorem waiting_serving (h : e.Serving size xid) (hstate : e.con.state = .sending) :
    (e.setState .waiting).startHeader.clearStream.Serving size xid where
  cnxType := h.cnxType
  bufferSize := (xdrmemstreamClear_bufferSize (e.pool, e.con.xdrs)).trans h.bufferSize
  stream := fun hfault _ =>
    ⟨[], h.bufferSize ▸ xdrmemstreamClear_encoding (e.pool, e.con.xdrs) hfault⟩
  outstanding := fun _ => h.outstanding (.inr hstate)

theorem finishSend_serving (h : e.Serving size xid) (hstate : e.con.state = .sending) :
    e.finishSend.2.Serving size xid := by
  unfold finishSend
  split
  · rw [if_pos h.cnxType]
    exact waiting_serving h hstate
  · exact h

theorem sending_of_writeable (hwriteable : e.getIoMode.writeable = true)
    {soError : Bool} (hpending : e.connectPending soError = none) : e.con.state = .sending := by
  unfold getIoMode KssTCPXDRConnection.getIoMode at hwriteable
  unfold connectPending at hpending
  cases hstate : e.con.state <;> simp [hstate] at hwriteable hpending ⊢
  split at hpending <;> cases hpending

theorem written_serving (h : e.Serving size xid) (hstate : e.con.state = .sending)
    {res : FdResult} (hpool : res.mem.1 = e.pool) : (e.written res).Serving size xid where
  cnxType := h.cnxType
  bufferSize := (congrArg Pool.memStreamBufferSize hpool).trans h.bufferSize
  stream := fun _ hawaits => by simp [Awaits, written, hstate] at hawaits
  outstanding := fun _ => h.outstanding (.inr hstate)

theorem send_serving (h : e.Serving size xid) (hwriteable : e.getIoMode.writeable = true) :
    (e.send sys).2.Serving size xid := by
  cases hpending : e.connectPending sys.soError with
  | some r =>
    unfold send
    rw [hpending]
    exact connectPending_serving h hpending
  | none =>
    have hstate := sending_of_writeable hwriteable hpending
    cases hfrag : e.con.fragmentState with
    | header =>
      unfold send
      rw [hpending, hfrag]
      exact finishSend_serving h hstate
    | body =>
      rw [send_body sys hpending hfrag]
      have hwritten := written_serving h hstate
        (xdrmemstreamWriteToFd_pool sys.outcomes (e.pool, e.con.xdrs) e.socket e.con.remainingLen)
      dsimp only
      split
      · exact finishSend_serving hwritten hstate
      · exact failed_serving hwritten.cnxType hwritten.bufferSize

theorem personaNonGrata_serving (h : e.Serving size xid) : e.personaNonGrata.Serving size xid := by
  have hreset := reset_serving h
  apply serving_of_not_busy
  · rw [not_busy_iff]
    simp [personaNonGrata, setState]
  · exact hreset.cnxType
  · exact hreset.bufferSize

theorem setMem_serving {m : Mem} (h : e.Serving size xid) (hbusy : ¬ e.Busy)
    (hpool : m.1.memStreamBufferSize = size) : (e.setMem m).Serving size xid :=
  serving_of_not_busy hbusy h.cnxType hpool

theorem step_serving {ev : Event} {outstanding : UInt32} (h : e.Serving size outstanding)
    (hsize : LegalSize size)
    (hmanaged : ClientRun.Managed ⟨e, outstanding⟩ (.event ev)) :
    (e.step ev).Serving size outstanding := by
  by_cases hfault : e.con.xdrs.fault = true
  · rw [step_of_fault hfault]
    exact h
  have hstep : e.step ev = _ := if_neg hfault
  rw [hstep]
  cases ev with
  | receive sys => exact receive_serving h hsize (Bool.not_eq_true _ ▸ hfault) hmanaged
  | send sys => exact send_serving h hmanaged
  | timedOut => exact timedOut_serving h
  | reset => exact reset_serving h
  | sendPingReply | sendErrorReply | sendReply => cases hmanaged
  | personaNonGrata => exact personaNonGrata_serving h
  | deserialize reader =>
    dsimp only
    split
    · rename_i hready
      apply setMem_serving h _ h.bufferSize
      simp [not_busy_iff, hready.1]
    · exact h
  | freeStreamMemory =>
    dsimp only
    split
    · rename_i hready
      apply setMem_serving h
      · simp [not_busy_iff, hready]
      · exact (xdrmemstreamClear_bufferSize (e.pool, e.con.xdrs)).trans h.bufferSize
    · exact h
  | otherStreams pool =>
    dsimp only
    split
    · rename_i hpool
      exact ⟨h.cnxType, hpool.trans h.bufferSize, h.stream, h.outstanding⟩
    · exact h

theorem encodeMessage_rpcHeader (e : Endpoint) (h : KsRpcHeader) (payloads : List Payload) :
    (e.encodeMessage h payloads).2.con.rpcHeader = h := by
  unfold encodeMessage
  dsimp only
  split
  · rfl
  · split <;> rfl

theorem encodeArguments_frame {args : Payload} {ok : Bool} (henc : e.con.xdrs.Encoding size bs)
    (hpool : e.pool.memStreamBufferSize = size) (hsize : LegalSize size) (hbs : 4 ∣ bs.length)
    (h : e.encodeArguments args = (ok, e')) :
    e'.con.cnxType = e.con.cnxType ∧ e'.con.state = e.con.state ∧
      e'.con.rpcHeader = e.con.rpcHeader ∧ e'.pool.memStreamBufferSize = size := by
  rcases hp : args.xdrEncode (e.pool, e.con.xdrs) with ⟨ok', m⟩
  obtain ⟨hpool', -, -⟩ := Payload.xdrEncode_encoding henc hpool hsize hbs args hp
  simp only [encodeArguments, hp, Prod.mk.injEq] at h
  obtain ⟨-, rfl⟩ := h
  exact ⟨rfl, rfl, rfl, hpool'⟩

/-- What a request comes to: it is on its way, or else nothing is. -/
theorem request_cases {progNumber progVersion procNumber : UInt32} {args : Payload} {ok : Bool}
    (hfault : e.con.xdrs.fault = false) (hsize : LegalSize e.pool.memStreamBufferSize)
    (hbusy : ¬ e.Busy) (h : e.request xid progNumber progVersion procNumber args = (ok, e')) :
    e'.con.cnxType = e.con.cnxType ∧ e'.pool.memStreamBufferSize = e.pool.memStreamBufferSize ∧
      (ok = true → e'.con.state = .sending ∧ e'.con.rpcHeader.xid = xid) ∧
      (ok = false → ¬ e'.Busy) := by
  have hkeeps : ∀ e' : Endpoint, e'.con.state = e.con.state → ¬ e'.Busy := fun e' hstate => by
    unfold Busy Awaits
    rw [hstate]
    exact hbusy
  unfold request at h
  rcases hbegin : e.beginRequest xid progNumber progVersion procNumber with ⟨ok₁, e₁⟩
  rw [hbegin] at h
  by_cases hdead : e.con.state = .dead
  · simp only [beginRequest, hdead, ↓reduceIte, Prod.mk.injEq] at hbegin
    obtain ⟨rfl, rfl⟩ := hbegin
    obtain ⟨rfl, rfl⟩ := Prod.mk.inj h
    exact ⟨rfl, rfl, by simp, fun _ => hbusy⟩
  · have hencode := hbegin
    simp only [beginRequest, hdead, ↓reduceIte] at hencode
    have hheader := encodeMessage_rpcHeader e
      (e.con.rpcHeader.setRequest xid progNumber progVersion procNumber) []
    rw [hencode] at hheader
    obtain ⟨hencoded, hstream⟩ :=
      encodeMessage_encoded hfault hsize (words_setRequest _ _ _ _ _) hencode
    cases ok₁ with
    | false =>
      obtain ⟨rfl, rfl⟩ := Prod.mk.inj h
      exact ⟨hencoded.cnxType, hencoded.bufferSize, by simp, fun _ => hkeeps _ hencoded.state⟩
    | true =>
      rcases hargs : e₁.encodeArguments args with ⟨ok₂, e₂⟩
      have haligned : 4 ∣ (BigEndian.encode 0x80000000 ++
          ((RpcMessage.call xid progNumber progVersion procNumber).bytes ++
            [].flatMap Payload.bytes)).length := by
        simp [RpcMessage.bytes, RpcMessage.words]
      obtain ⟨htype, hstate, hheader', hpool⟩ :=
        encodeArguments_frame (hstream rfl) hencoded.bufferSize hsize haligned hargs
      simp only [hargs] at h
      cases ok₂ with
      | false =>
        obtain ⟨rfl, rfl⟩ := Prod.mk.inj h
        exact ⟨htype.trans hencoded.cnxType, hpool, by simp,
          fun _ => hkeeps _ (hstate.trans hencoded.state)⟩
      | true =>
        have hsends := sendRequest_sends hfault hsize hbegin hargs
        obtain ⟨rfl, rfl⟩ := Prod.mk.inj h
        refine ⟨(hsends.cnxType.trans htype).trans hencoded.cnxType, hsends.bufferSize,
          fun _ => ⟨hsends.state, ?_⟩, by simp⟩
        change e₂.con.rpcHeader.xid = xid
        rw [hheader', hheader]
        rfl

theorem beginRequest_not_ready (h : e.con.state ≠ .ready)
    (xid progNumber progVersion procNumber : UInt32) :
    (e.beginRequest xid progNumber progVersion procNumber).2.con.state ≠ .ready := by
  unfold beginRequest
  split
  · exact h
  · rw [encodeMessage_state]
    exact h

theorem request_not_ready (h : e.con.state ≠ .ready)
    (xid progNumber progVersion procNumber : UInt32) (args : Payload) :
    (e.request xid progNumber progVersion procNumber args).2.con.state ≠ .ready := by
  have hbegun := beginRequest_not_ready h xid progNumber progVersion procNumber
  unfold request
  rcases hbegin : e.beginRequest xid progNumber progVersion procNumber with ⟨_ | _, e₁⟩
  · rw [hbegin] at hbegun
    exact hbegun
  · rw [hbegin] at hbegun
    have hencoded : (e₁.encodeArguments args).2.con.state = e₁.con.state := rfl
    rcases hargs : e₁.encodeArguments args with ⟨_ | _, e₂⟩
    · rw [hargs] at hencoded
      simp only [hargs]
      exact hencoded ▸ hbegun
    · simp only [hargs]
      nofun

end Endpoint

namespace ClientRun
variable {r : ClientRun} {size : ℕ}

theorem step_serving (h : r.endpoint.Serving size r.outstanding) (hsize : LegalSize size)
    {call : ClientCall} (hmanaged : r.Managed call) :
    (r.step call).endpoint.Serving size (r.step call).outstanding := by
  cases call with
  | event ev => exact Endpoint.step_serving h hsize hmanaged
  | request xid progNumber progVersion procNumber args =>
    unfold step
    dsimp only
    split
    · exact h
    · rename_i hfault
      rcases hrequest : r.endpoint.request xid progNumber progVersion procNumber args with ⟨ok, e⟩
      obtain ⟨htype, hpool, hsends, hidle⟩ := Endpoint.request_cases (by simpa using hfault)
        (h.bufferSize ▸ hsize) hmanaged hrequest
      cases ok with
      | false =>
        exact Endpoint.serving_of_not_busy (hidle rfl) (htype.trans h.cnxType)
          (hpool.trans h.bufferSize)
      | true =>
        obtain ⟨hstate, hxid⟩ := hsends rfl
        refine ⟨htype.trans h.cnxType, hpool.trans h.bufferSize, fun _ hawaits => ?_,
          fun _ => hxid⟩
        simp [Endpoint.Awaits, hstate] at hawaits

/-- A client connection gets ready only when it receives. -/
theorem step_ready {call : ClientCall} (h : r.endpoint.con.state ≠ .ready)
    (hready : (r.step call).endpoint.con.state = .ready) :
    ∃ sys, call = .event (.receive sys) := by
  cases call with
  | event ev =>
    obtain ⟨sys, rfl⟩ := Endpoint.step_ready h hready
    exact ⟨sys, rfl⟩
  | request xid progNumber progVersion procNumber args =>
    have hrequest := Endpoint.request_not_ready h xid progNumber progVersion procNumber args
    rcases hr : r.endpoint.request xid progNumber progVersion procNumber args with ⟨ok, e⟩
    rw [hr] at hrequest
    unfold step at hready
    dsimp only at hready
    split at hready
    · exact absurd hready h
    · rw [hr] at hready
      cases ok with
      | false => exact absurd hready hrequest
      | true => exact absurd hready hrequest

/-- A run of a new client connection leads here. -/
def Reached (size : ℕ) (r : ClientRun) : Prop :=
  ∃ raw con pool pool' info nonblocking connecting incoming xid calls,
    pool.memStreamBufferSize = size ∧
    KssTCPXDRConnection.create raw pool info nonblocking connecting .client = (some con, pool') ∧
    Along step Managed ⟨.opened con pool' incoming, xid⟩ calls ∧
    r = run step ⟨.opened con pool' incoming, xid⟩ calls

theorem create_serving {raw con : KssTCPXDRConnection} {pool pool' : Pool} {info : Option ℕ}
    {nonblocking connecting : Bool} (incoming : List UInt8) (xid : UInt32)
    (h : KssTCPXDRConnection.create raw pool info nonblocking connecting .client =
      (some con, pool')) :
    (Endpoint.opened con pool' incoming).Serving pool.memStreamBufferSize xid := by
  rcases hstream : xdrmemstreamCreate pool info with ⟨_ | xdrs, pool₁⟩
  · simp [KssTCPXDRConnection.create, hstream] at h
  · obtain ⟨-, hpool⟩ := xdrmemstreamCreate_encoding hstream
    cases nonblocking <;> cases connecting <;>
      simp only [KssTCPXDRConnection.create, hstream, Bool.not_false, Bool.not_true,
        Bool.false_eq_true, ↓reduceIte, Prod.mk.injEq, Option.some.injEq] at h <;>
      obtain ⟨rfl, rfl⟩ := h <;>
      exact Endpoint.serving_of_not_busy ((Endpoint.not_busy_iff _).mpr (by simp [Endpoint.opened]))
        rfl hpool

theorem Reached.serving (h : r.Reached size) (hsize : LegalSize size) :
    r.endpoint.Serving size r.outstanding := by
  obtain ⟨raw, con, pool, pool', info, nonblocking, connecting, incoming, xid, calls, rfl, hcreate,
    hcalls, rfl⟩ := h
  apply run_invariant
    (I := fun r => r.endpoint.Serving pool.memStreamBufferSize r.outstanding) _ _ hcalls
  · intro r call hr hmanaged
    exact step_serving hr hsize hmanaged
  · exact create_serving incoming xid hcreate

/-- A client connection, after any run, when it is asked to receive. -/
theorem Reached.rightDirection_iff (h : r.Reached size) (hsize : LegalSize size)
    (hfault : r.endpoint.con.xdrs.fault = false)
    (hreadable : r.endpoint.getIoMode.readable = true) (sys : SystemCalls) :
    r.endpoint.RightDirection r.outstanding sys ↔
      r.endpoint.NotMisled .client r.outstanding sys := by
  have hserving := h.serving hsize
  have hready : r.endpoint.con.state ≠ .ready := fun hready => by
    simp [Endpoint.getIoMode, KssTCPXDRConnection.getIoMode, hready] at hreadable
  cases hpending : r.endpoint.connectPending sys.soError with
  | some result =>
    apply Endpoint.rightDirection_of_incomplete _ hready
    unfold Endpoint.completed
    rw [hpending]
  | none =>
    have hawaits := Endpoint.awaits_of_readable hreadable hpending
    obtain ⟨bs, henc⟩ := hserving.stream hfault hawaits
    rw [← hserving.cnxType]
    apply Endpoint.rightDirection_iff hready henc hserving.bufferSize hsize
    intro _
    exact hserving.outstanding (.inl hawaits)

end ClientRun
end AcpltKs
