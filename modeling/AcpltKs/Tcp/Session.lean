import AcpltKs.Library.GuardedRun
import AcpltKs.Tcp.Receive

/-! What can happen to a server connection, in any order, and what each call comes to. -/
namespace AcpltKs
open RecordMarking

/-- A call of a member function by the connection manager or the server, or something the other
streams of the program do to the pool. -/
inductive Event where
  | receive (sys : SystemCalls)
  | send (sys : SystemCalls)
  | timedOut
  | reset
  | sendPingReply
  | sendErrorReply (avt trailer : Payload) (error : UInt32)
  | sendReply (avt result trailer : Payload)
  | personaNonGrata
  | deserialize (reader : XdrReader Unit)
  | freeStreamMemory
  | otherStreams (pool : Pool)

/-- The payloads of a reply. -/
def Event.payloads : Event → Option (List Payload)
  | .sendPingReply => some []
  | .sendErrorReply avt trailer error =>
      some [avt, ⟨[.long (if error = 0 then 1 else error)], true⟩, trailer]
  | .sendReply avt result trailer => some [avt, result, trailer]
  | _ => none

namespace Endpoint

/-- One event. A request is deserialized only while the connection is ready, and nothing happens
any more after a null pointer was dereferenced. -/
def step (e : Endpoint) (ev : Event) : Endpoint :=
  if e.con.xdrs.fault then e
  else
    match ev with
    | .receive sys => (e.receive sys).2
    | .send sys => (e.send sys).2
    | .timedOut => e.timedOut.2
    | .reset => e.reset.2
    | .sendPingReply => e.sendPingReply
    | .sendErrorReply avt trailer error => e.sendErrorReply avt trailer error
    | .sendReply avt result trailer => e.sendReply avt result trailer
    | .personaNonGrata => e.personaNonGrata
    | .deserialize reader =>
        if e.con.state = .ready ∧ e.con.xdrs.op = .decode then
          e.setMem (e.pool, (reader.run e.con.xdrs).2)
        else e
    | .freeStreamMemory => if e.con.state = .ready then e.freeStreamMemory else e
    | .otherStreams pool =>
        if pool.memStreamBufferSize = e.pool.memStreamBufferSize then { e with pool } else e

variable {e e' : Endpoint} {size : ℕ} {r : Reader}

theorem step_of_fault {ev : Event} (hfault : e.con.xdrs.fault = true) : e.step ev = e :=
  if_pos hfault

theorem step_reply {ev : Event} {payloads : List Payload} (hfault : e.con.xdrs.fault = false)
    (hev : ev.payloads = some payloads) : e.step ev = e.sendMessage payloads := by
  cases ev <;> simp only [Event.payloads, Option.some.injEq, reduceCtorEq] at hev <;>
    subst hev <;> simp only [step, hfault, Bool.false_eq_true, ↓reduceIte] <;> rfl

/-- What holds of a living server connection between two calls while the reader `r` runs alongside: a
record under way is where the reader is in it, and otherwise there is none. What is being sent is
the record queued last. -/
def Consistent (size : ℕ) (r : Reader) (e : Endpoint) : Prop :=
  e.con.state ≠ .dead → e.con.cnxType = .server ∧ e.pool.memStreamBufferSize = size ∧
    match e.con.state with
    | .idle => r = { done := r.done } ∧ Fresh size e
    | .receiving => e.con.InPhase r.phase ∧ e.con.xdrs.Encoding size r.acc
    | .ready => r = { done := r.done } ∧
        (Fresh size e ∨ e.con.Complete ∧
          (e.con.xdrs.op = .decode ∨ e.con.xdrs.Encoding size []))
    | .sending => r = { done := r.done } ∧ e.con.fragmentState = .body ∧
        ∃ frags record pos, e.trace.getLast? = some (.queued record) ∧ Laid size frags record ∧
          e.con.xdrs.Decoding size frags pos ∧
          pos + e.con.remainingLen = record.length % 2 ^ 32
    | _ => False

/-- Unless a record is being received, there is none under way. -/
theorem Consistent.reader_eq (hs : Consistent size r e) (hdead : e.con.state ≠ .dead)
    (hstate : e.con.state ≠ .receiving) : r = { done := r.done } := by
  obtain ⟨-, -, hs⟩ := hs hdead
  cases h : e.con.state <;> simp only [h] at hs
  case idle | ready | sending => exact hs.1
  case receiving => exact absurd h hstate

/-- The record `body` has been received and decoded: the connection is ready, or a reply about the
error is queued. -/
inductive Delivers (size : ℕ) (e e' : Endpoint) (body : List UInt8) : Prop
  | ready (socket : e'.socket = e.socket) (trace : e'.trace = e.trace ++ [.message body])
      (state : e'.con.state = .ready)
  | refused (sends : (e.note (.message body)).Sends size e'
      (sentRecord (decodeErrorReply e'.con.rpcHeader.xid).bytes))

/-- The events that can make a connection start over. -/
def Restarts (e : Endpoint) (ev : Event) : Prop :=
  ev = .timedOut ∨ ev = .reset ∨ (∃ payloads, ev.payloads = some payloads) ∨
    ∃ sys, ev = .send sys ∧ e.con.state = .ready

/-- The states in which a connection receives. -/
def Receives (e : Endpoint) : Prop :=
  e.con.state = .idle ∨ e.con.state = .receiving ∨ e.con.state = .ready

/-- What an event comes to: the endpoint behind it, and the reader that runs alongside. -/
inductive Effect (size : ℕ) (r : Reader) (e : Endpoint) (ev : Event) : Reader → Endpoint → Prop
  /-- Nothing visible. -/
  | stays {e' : Endpoint} (socket : e'.socket = e.socket) (trace : e'.trace = e.trace)
      (state : e'.con.state = e.con.state) (remainingLen : e'.con.remainingLen = e.con.remainingLen) :
      Effect size r e ev r e'
  /-- Bytes are received, but not the last one of a record. -/
  | feeds {e' : Endpoint} (sys : SystemCalls) (bs : List UInt8) (event : ev = .receive sys)
      (before : e.Receives)
      (reads : e.socket.Reads e'.socket bs) (noted : e.Noted e' r.phase bs)
      (state : e'.con.state = .receiving) (done : (r.feedAll bs).done = r.done) :
      Effect size r e ev (r.feedAll bs) e'
  /-- The last byte of a record is received. -/
  | delivers {e₁ e' : Endpoint} (sys : SystemCalls) (bs body : List UInt8)
      (event : ev = .receive sys) (before : e.Receives) (reads : e.socket.Reads e₁.socket bs)
      (noted : e.Noted e₁ r.phase bs) (feed : r.feedAll bs = { done := r.done ++ [body] })
      (delivered : Delivers size e₁ e' body) : Effect size r e ev (r.feedAll bs) e'
  /-- A ready connection whose memory has been freed is asked to receive. -/
  | redelivers {e' : Endpoint} (sys : SystemCalls) (event : ev = .receive sys)
      (state : e.con.state = .ready) (delivered : Delivers size e e' []) : Effect size r e ev r e'
  /-- The connection is given up before anything is written. -/
  | breaks {e' : Endpoint} (bs : List UInt8) (reads : e.socket.Reads e'.socket bs)
      (noted : e.Noted e' r.phase bs) (state : e'.con.state = .dead)
      (cause : ev = .personaNonGrata ∨ (∃ sys, ev = .send sys ∧ e.con.state ≠ .sending) ∨
        ∃ sys, ev = .receive sys ∧ (e.con.state = .idle ∨ e.con.state = .receiving →
          ¬ ∀ io ∈ sys.outcomes, io.isQuiet = true)) : Effect size r e ev r e'
  /-- Receiving meets `ENOMEM`. -/
  | exhausted {e' : Endpoint} (sys : SystemCalls) (bs : List UInt8) (event : ev = .receive sys)
      (before : e.Receives)
      (enomem : e.receiveMeetsEnomem sys = true) (reads : e.socket.Reads e'.socket bs)
      (noted : e.Noted e' r.phase bs) (state : e'.con.state = resetState e.con.state) :
      Effect size r e ev { done := r.done } e'
  /-- The connection starts over. -/
  | restarts {e' : Endpoint} (cause : e.Restarts ev) (socket : e'.socket = e.socket)
      (trace : e'.trace = e.trace)
      (state : ev = .timedOut ∧ e'.con.state = .idle ∨
        e'.con.state = resetState e.con.state) : Effect size r e ev { done := r.done } e'
  /-- A reply is queued. -/
  | queues {e' : Endpoint} (payloads : List Payload) (event : ev.payloads = some payloads)
      (sends : e.Sends size e' (sentRecord
        (BigEndian.encode 0x80000000 ++ replyBody e.con.rpcHeader.xid payloads))) :
      Effect size r e ev { done := r.done } e'
  /-- Part of a record is written, and perhaps the rest of it. -/
  | writes {e' : Endpoint} (sys : SystemCalls) (record : List UInt8) (pos n : ℕ)
      (event : ev = .send sys) (state : e.con.state = .sending)
      (queued : e.trace.getLast? = some (.queued record))
      (position : pos + e.con.remainingLen = record.length % 2 ^ 32)
      (incoming : e'.socket.incoming = e.socket.incoming)
      (consumed : e'.socket.consumed = e.socket.consumed)
      (written : e'.socket.written = e.socket.written ++ (record.drop pos).take n)
      (trace : e'.trace = e.trace) (enough : n ≤ e.con.remainingLen)
      (state' : e'.con.state = .dead ∧ (¬ ∀ io ∈ sys.outcomes, io.isSteady = true) ∨
        e'.con.state = .sending ∧ e'.con.remainingLen + n = e.con.remainingLen ∨
        e'.con.state = .idle ∧ n = e.con.remainingLen) : Effect size r e ev r e'

theorem Delivers.socket_eq {body : List UInt8} (h : Delivers size e e' body) :
    e'.socket = e.socket := by
  cases h with
  | ready socket => exact socket
  | refused sends => exact sends.socket

/-- No event changes what the peer sends. -/
theorem Effect.peer {ev : Event} {r' : Reader} (h : Effect size r e ev r' e') :
    e'.socket.peer = e.socket.peer := by
  cases h with
  | stays socket => rw [socket]
  | feeds sys bs event before reads => exact reads.peer
  | delivers sys bs body event before reads noted feed delivered =>
    rw [delivered.socket_eq, reads.peer]
  | redelivers sys event state delivered => rw [delivered.socket_eq]
  | breaks bs reads => exact reads.peer
  | exhausted sys bs event before enomem reads => exact reads.peer
  | restarts cause socket => rw [socket]
  | queues payloads event sends => rw [sends.socket]
  | writes sys record pos n event state queued position incoming consumed =>
    rw [Socket.peer, Socket.peer, consumed, incoming]

theorem Fresh.consistent (h : Fresh size e) (ds : List (List UInt8))
    (hstate : e.con.state = .idle ∨ e.con.state = .ready ∨ e.con.state = .dead) :
    Consistent size { done := ds } e := by
  rcases hstate with hs | hs | hs <;> intro hdead <;> refine ⟨h.cnxType, h.bufferSize, ?_⟩
  · simp [hs, h]
  · simp [hs, h]
  · exact absurd hs hdead

theorem Sends.consistent {record : List UInt8} (h : e.Sends size e' record)
    (htype : e.con.cnxType = .server) (ds : List (List UInt8)) :
    Consistent size { done := ds } e' := by
  obtain ⟨frags, hlaid, hdec⟩ := h.stream
  refine fun _ => ⟨h.cnxType.trans htype, h.bufferSize, ?_⟩
  simp only [h.state]
  exact ⟨trivial, h.fragmentState, frags, record, 0, by simp [h.trace], hlaid, hdec,
    by rw [h.remainingLen, Nat.zero_add]⟩

theorem resetState_cases (hs : Consistent size r e) :
    resetState e.con.state = .idle ∨ resetState e.con.state = .ready ∨
      resetState e.con.state = .dead := by
  by_cases hdead : e.con.state = .dead
  · simp [hdead, resetState]
  · obtain ⟨-, -, hs⟩ := hs hdead
    cases h : e.con.state <;> simp_all [resetState]

/-- A restart that is not due to reading. -/
theorem Restarted.effect {ev : Event} (hev : e.Restarts ev) (h : e.Restarted e')
    (hs : Consistent size r e)
    (hdead : e.con.state ≠ .dead) (hfault : e.con.xdrs.fault = false)
    (hstate : ev = .timedOut ∧ e'.con.state = .idle ∨ e'.con.state = resetState e.con.state) :
    ∃ r', Effect size r e ev r' e' ∧ Consistent size r' e' := by
  refine ⟨{ done := r.done }, .restarts hev h.socket h.trace hstate,
    (h.fresh (hs hdead).1 (hs hdead).2.1 hfault).consistent r.done ?_⟩
  rcases hstate with ⟨-, hidle⟩ | hreset
  · exact Or.inl hidle
  · rw [hreset]
    exact resetState_cases hs

/-- A reply. -/
theorem reply_effect {ev : Event} {payloads : List Payload} (hev : ev.payloads = some payloads)
    (hs : Consistent size r e) (hsize : LegalSize size) (hdead : e.con.state ≠ .dead)
    (hfault : e.con.xdrs.fault = false) :
    ∃ r', Effect size r e ev r' (e.sendMessage payloads) ∧
      Consistent size r' (e.sendMessage payloads) := by
  obtain ⟨htype, hpool, -⟩ := hs hdead
  rcases sendMessage_cases payloads hdead hfault (hpool ▸ hsize) with hsends | ⟨e₁, henc, hreset⟩
  · rw [hpool] at hsends
    exact ⟨_, .queues payloads hev hsends, hsends.consistent htype _⟩
  · obtain ⟨hrestart, hstate⟩ := reset_restarted (e := e₁) (by rwa [henc.state])
      (henc.cnxType.trans htype)
    rw [hreset]
    apply (hrestart.of_encoded henc).effect (.inr (.inr (.inl ⟨_, hev⟩))) hs hdead hfault
    exact Or.inr (by rw [hstate, henc.state])

/-- The stream of a ready connection is read, or its memory is freed. -/
theorem ready_effect {ev : Event} {m : Mem} (hs : Consistent size r e)
    (hstate : e.con.state = .ready) (hpool : m.1.memStreamBufferSize = size)
    (hstream : e.con.xdrs.op = .decode ∧ m.2.op = .decode ∨ m.2.Encoding size []) :
    ∃ r', Effect size r e ev r' (e.setMem m) ∧ Consistent size r' (e.setMem m) := by
  obtain ⟨htype, -, hready⟩ := hs (by simp [hstate])
  refine ⟨r, .stays rfl rfl rfl rfl, fun _ => ⟨htype, hpool, ?_⟩⟩
  simp only [hstate] at hready
  simp only [setMem, hstate]
  obtain ⟨hr, hfresh | ⟨hcomplete, -⟩⟩ := hready
  · refine ⟨hr, Or.inl ⟨hfresh.cnxType, hpool, hfresh.fragmentState, hfresh.remainingLen,
      hfresh.ptr, ?_⟩⟩
    rcases hstream with ⟨hop, -⟩ | henc
    · simp [hfresh.stream.op] at hop
    · exact henc
  · exact ⟨hr, Or.inr ⟨hcomplete, hstream.imp_left And.right⟩⟩

/-- The endpoint once `send` has written what it could. -/
def written (e : Endpoint) (res : FdResult) : Endpoint :=
  { e with
    pool := res.mem.1, socket := res.socket
    con := { e.con with xdrs := res.mem.2, remainingLen := res.max } }

theorem send_body (sys : SystemCalls) (hpending : e.connectPending sys.soError = none)
    (hbody : e.con.fragmentState = .body) :
    (e.send sys).2 =
      let res := xdrmemstreamWriteToFd sys.outcomes (e.pool, e.con.xdrs) e.socket
        e.con.remainingLen
      if res.failure = none then (e.written res).finishSend.2 else (e.written res).failed := by
  simp only [send, hpending, hbody, ↓reduceIte]
  rcases h : (xdrmemstreamWriteToFd sys.outcomes (e.pool, e.con.xdrs) e.socket
    e.con.remainingLen).failure with _ | errno <;> simp [written, setMem]

/-- Behind the last byte of a message, a server connection is reset. -/
theorem finishSend_server (htype : e.con.cnxType = .server) :
    e.finishSend.2 = if e.con.remainingLen = 0 then e.reset.2 else e := by
  unfold finishSend
  split <;> simp [htype]

theorem failed_state (htype : e.con.cnxType = .server) : e.failed.con.state = .dead := by
  simp [failed, setState, htype]

/-- A stream that is being filled is not sent. -/
theorem send_encoding (sys : SystemCalls) {acc : List UInt8}
    (hpending : e.connectPending sys.soError = none) (hbody : e.con.fragmentState = .body)
    (henc : e.con.xdrs.Encoding size acc) : (e.send sys).2 = e.failed := by
  simp [send_body sys hpending hbody, xdrmemstreamWriteToFd, henc.op, written]

/-- Sending, in any state. -/
theorem send_effect (sys : SystemCalls) (hs : Consistent size r e) (hsize : LegalSize size)
    (hdead : e.con.state ≠ .dead) (hfault : e.con.xdrs.fault = false) :
    ∃ r', Effect size r e (.send sys) r' (e.send sys).2 ∧ Consistent size r' (e.send sys).2 := by
  obtain ⟨htype, hpool, hrest⟩ := hs hdead
  cases hstate : e.con.state <;> simp only [hstate] at hrest
  case idle =>
    obtain ⟨hr, hfresh⟩ := hrest
    have hresult : (e.send sys).2 = e := by
      simp [send, connectPending, hstate, hfresh.fragmentState, finishSend, hfresh.remainingLen]
    rw [hresult]
    exact ⟨r, .stays rfl rfl rfl rfl, hs⟩
  case receiving =>
    have hpending : e.connectPending sys.soError = none := by simp [connectPending, hstate]
    obtain ⟨hphase, henc⟩ := hrest
    cases hp : r.phase with
    | header got =>
      rw [hp] at hphase
      have hne : e.con.remainingLen ≠ 0 := fun h0 => by
        have := hphase.2.1
        have := hphase.2.2.2.1
        omega
      have hresult : (e.send sys).2 = e := by
        simp [send, hpending, hphase.1, finishSend, hne]
      rw [hresult]
      exact ⟨r, .stays rfl rfl rfl rfl, hs⟩
    | body left last =>
      rw [hp] at hphase
      rw [send_encoding sys hpending hphase.1 henc]
      exact ⟨r, .breaks [] (.refl _) (Or.inl rfl) (failed_state htype) (by simp [hstate]),
        fun h => absurd (failed_state htype) h⟩
  case ready =>
    have hpending : e.connectPending sys.soError = none := by simp [connectPending, hstate]
    obtain ⟨hr, hfresh | ⟨⟨hlast, hrem⟩, hstream⟩⟩ := hrest
    · have hresult : (e.send sys).2 = e := by
        simp [send, hpending, hfresh.fragmentState, finishSend, hfresh.remainingLen]
      rw [hresult]
      exact ⟨r, .stays rfl rfl rfl rfl, hs⟩
    · cases hfrag : e.con.fragmentState with
      | header =>
        have hresult : (e.send sys).2 = e.reset.2 := by
          simp [send, hpending, hfrag, finishSend_server htype, hrem]
        obtain ⟨hrestart, hstate'⟩ := reset_restarted hdead htype
        rw [hresult]
        exact hrestart.effect (.inr (.inr (.inr ⟨_, rfl, hstate⟩))) hs hdead hfault (Or.inr hstate')
      | body =>
        rcases hstream with hop | henc
        · have hzero : xdrmemstreamWriteToFd sys.outcomes (e.pool, e.con.xdrs) e.socket
              e.con.remainingLen = ⟨none, (e.pool, e.con.xdrs), e.socket, e.con.remainingLen⟩ := by
            cases h : sys.outcomes <;> simp [xdrmemstreamWriteToFd, hop, writeToFdLoop, hrem]
          have hresult : (e.send sys).2 = e.reset.2 := by
            rw [send_body sys hpending hfrag, hzero]
            exact (finishSend_server htype).trans (by simp [hrem])
          obtain ⟨hrestart, hstate'⟩ := reset_restarted hdead htype
          rw [hresult]
          exact hrestart.effect (.inr (.inr (.inr ⟨_, rfl, hstate⟩))) hs hdead hfault (Or.inr hstate')
        · rw [send_encoding sys hpending hfrag henc]
          exact ⟨r, .breaks [] (.refl _) (Or.inl rfl) (failed_state htype) (by simp [hstate]),
            fun h => absurd (failed_state htype) h⟩
  case sending =>
    have hpending : e.connectPending sys.soError = none := by simp [connectPending, hstate]
    obtain ⟨hr, hbody, frags, record, pos, hqueued, hlaid, hdec, hpos⟩ := hrest
    have hle : pos + e.con.remainingLen ≤ record.length := hpos ▸ Nat.mod_le _ _
    obtain ⟨n, hmax, hwritten, hincoming, hconsumed, hpool', hdec'⟩ :=
      writeToFdLoop_decoding hlaid hdec hsize sys.outcomes e.pool e.socket hle
    have hsteady : (∀ io ∈ sys.outcomes, io.isSteady = true) → _ := fun hios =>
      writeToFdLoop_steady hlaid hdec hsize hios e.pool e.socket hle
    rw [send_body sys hpending hbody]
    simp only [xdrmemstreamWriteToFd, hdec.op, ne_eq, not_true_eq_false, ↓reduceIte]
    generalize writeToFdLoop sys.outcomes (e.pool, e.con.xdrs) e.socket e.con.remainingLen = res
      at hmax hwritten hincoming hconsumed hpool' hdec' hsteady ⊢
    have hn : n ≤ e.con.remainingLen := by omega
    have hsz : (e.written res).pool.memStreamBufferSize = size := by
      rw [written, hpool', hpool]
    by_cases hfail : res.failure = none
    · rw [if_pos hfail, finishSend_server (e := e.written res) htype]
      by_cases h0 : (e.written res).con.remainingLen = 0
      · obtain ⟨hrestart, hstate'⟩ := reset_restarted (e := e.written res) hdead htype
        have hidle : (e.written res).reset.2.con.state = .idle := by
          rw [hstate', written, hstate, resetState]
        have hnrem : n = e.con.remainingLen := by
          simp only [written] at h0
          omega
        rw [if_pos h0, hr]
        refine ⟨_, .writes sys record pos n rfl hstate hqueued hpos ?_ ?_ ?_ hrestart.trace hn
          (Or.inr (Or.inr ⟨hidle, hnrem⟩)),
          (hrestart.fresh htype hsz hdec'.fault).consistent r.done (Or.inl hidle)⟩ <;>
        rw [hrestart.socket] <;> assumption
      · rw [if_neg h0]
        refine ⟨r, .writes sys record pos n rfl hstate hqueued hpos hincoming hconsumed hwritten rfl hn
          (Or.inr (Or.inl ⟨hstate, hmax⟩)), fun _ => ⟨htype, hsz, ?_⟩⟩
        simp only [written, hstate]
        exact ⟨hr, hbody, frags, record, pos + n, hqueued, hlaid, hdec', by omega⟩
    · rw [if_neg hfail]
      have hdead' := failed_state (e := e.written res) htype
      exact ⟨r, .writes sys record pos n rfl hstate hqueued hpos hincoming hconsumed hwritten rfl hn
        (Or.inl ⟨hdead', fun hios => hfail (hsteady hios)⟩),
        fun h => absurd hdead' h⟩

theorem receiveMessage_delivers {body : List UInt8} (htype : e.con.cnxType = .server)
    (hcomplete : e.con.Complete) (henc : e.con.xdrs.Encoding size body)
    (hpool : e.pool.memStreamBufferSize = size) (hsize : LegalSize size)
    (ds : List (List UInt8)) :
    Delivers size e e.receiveMessage.2 body ∧
      Consistent size { done := ds } e.receiveMessage.2 := by
  obtain ⟨-, hop, ⟨-, hready⟩ | ⟨-, hsends⟩⟩ := receiveMessage_cases htype henc hpool hsize
  · rw [hready]
    exact ⟨.ready rfl rfl rfl, fun _ => ⟨htype, hpool, rfl, Or.inr ⟨hcomplete, Or.inl hop⟩⟩⟩
  · exact ⟨.refused hsends, hsends.consistent htype ds⟩

/-- A stream that is being sent is not filled. -/
theorem receive_decoding (sys : SystemCalls) (htype : e.con.cnxType = .server)
    (hpending : e.connectPending sys.soError = none) (hbody : e.con.fragmentState = .body)
    (hop : e.con.xdrs.op = .decode) :
    (e.receive sys).2.socket = e.socket ∧ (e.receive sys).2.trace = e.trace ∧
      (e.receive sys).2.con.state = .dead := by
  simp [receive, hpending, hbody, receiveRest, receiveBody, xdrmemstreamReadFromFd, hop, failed,
    setState, setMem, htype]

theorem finishReceive_complete (h : e.con.Complete) : e.finishReceive = e.receiveMessage :=
  if_pos h

/-- Where `receive` goes on with a record, or waits for one. -/
theorem Received.effect {sys : SystemCalls} {bs : List UInt8}
    (h : Received size e e' r bs sys.outcomes (e.receiveMeetsEnomem sys)) (hs : Consistent size r e)
    (hstate : e.Receives) (hsize : LegalSize size) :
    ∃ r', Effect size r e (.receive sys) r' e' ∧ Consistent size r' e' := by
  have hdead : e.con.state ≠ .dead := by rcases hstate with h | h | h <;> simp [h]
  cases h with
  | fed e₁ h he =>
    have htype := h.cnxType.trans (hs hdead).1
    subst he
    rcases h.taken with ⟨hcomplete, body, hfeed, henc⟩ | ⟨hcomplete, hphase, hdone, henc⟩
    · obtain ⟨hdelivers, hconsistent⟩ := receiveMessage_delivers htype hcomplete henc h.bufferSize
        hsize (r.done ++ [body])
      rw [finishReceive_complete hcomplete]
      exact ⟨_, .delivers sys bs body rfl hstate h.reads h.noted hfeed hdelivers, hfeed ▸ hconsistent⟩
    · have hresult : e₁.finishReceive.2 = e₁.setState .receiving := by
        exact congrArg Prod.snd (if_neg hcomplete)
      rw [hresult]
      exact ⟨_, .feeds sys bs rfl hstate h.reads h.noted rfl hdone,
        fun _ => ⟨htype, h.bufferSize, hphase, henc⟩⟩
  | dead reads noted state loud =>
    exact ⟨r, .breaks bs reads noted state (.inr (.inr ⟨sys, rfl, fun _ => loud⟩)),
      fun h => absurd state h⟩
  | reset reads noted enomem fresh state =>
    refine ⟨_, .exhausted sys bs rfl hstate enomem reads noted state, fresh.consistent r.done ?_⟩
    rw [state]
    exact resetState_cases hs

/-- Receiving, in any state. -/
theorem receive_effect (sys : SystemCalls) (hs : Consistent size r e) (hsize : LegalSize size)
    (hdead : e.con.state ≠ .dead) :
    ∃ r', Effect size r e (.receive sys) r' (e.receive sys).2 ∧
      Consistent size r' (e.receive sys).2 := by
  obtain ⟨htype, hpool, hrest⟩ := hs hdead
  have hgoesOn : (e.con.state = .idle ∨ e.con.state = .receiving ∨ e.con.state = .ready) →
      e.con.InPhase r.phase → e.con.xdrs.Encoding size r.acc →
      ∃ r', Effect size r e (.receive sys) r' (e.receive sys).2 ∧
        Consistent size r' (e.receive sys).2 := by
    intro hstate hphase henc
    rcases receive_received htype hstate hphase henc hpool hsize sys with hsame | ⟨bs, hreceived⟩
    · rw [hsame]
      exact ⟨r, .stays rfl rfl rfl rfl, hs⟩
    · exact hreceived.effect hs hstate hsize
  have hfresh : (e.con.state = .idle ∨ e.con.state = .receiving ∨ e.con.state = .ready) →
      r = { done := r.done } → Fresh size e →
      ∃ r', Effect size r e (.receive sys) r' (e.receive sys).2 ∧
        Consistent size r' (e.receive sys).2 := by
    intro hstate hr hfresh
    apply hgoesOn hstate
    · rw [hr]
      exact ⟨hfresh.fragmentState, by simp, hfresh.ptr, hfresh.remainingLen, by simp [hfresh.ptr]⟩
    · rw [hr]
      exact hfresh.stream
  have hbreaks : (e.con.state = .ready ∨ e.con.state = .sending) →
      e.connectPending sys.soError = none → e.con.fragmentState = .body →
      e.con.xdrs.op = .decode →
      ∃ r', Effect size r e (.receive sys) r' (e.receive sys).2 ∧
        Consistent size r' (e.receive sys).2 := by
    intro hstate hpending hbody hop
    obtain ⟨hsocket, htrace, hdead'⟩ := receive_decoding sys htype hpending hbody hop
    refine ⟨r, .breaks [] (hsocket ▸ .refl _) (Or.inl htrace) hdead' ?_, fun h => absurd hdead' h⟩
    refine .inr (.inr ⟨sys, rfl, fun hother => ?_⟩)
    rcases hstate with h | h <;> simp [h] at hother
  cases hstate : e.con.state <;> simp only [hstate] at hrest
  case idle => exact hfresh (Or.inl hstate) hrest.1 hrest.2
  case receiving => exact hgoesOn (Or.inr (Or.inl hstate)) hrest.1 hrest.2
  case ready =>
    have hpending : e.connectPending sys.soError = none := by simp [connectPending, hstate]
    obtain ⟨hr, h | ⟨hcomplete, hstream⟩⟩ := hrest
    · exact hfresh (Or.inr (Or.inr hstate)) hr h
    · cases hfrag : e.con.fragmentState with
      | header =>
        rcases hrec : e.receiveHeader sys.outcomes with ⟨mode | ios, e₁⟩
        · have hresult : (e.receive sys).2 = e₁ := by simp [receive, hpending, hfrag, hrec]
          obtain ⟨hreads, htrace, hsame | hstate'⟩ := receiveHeader_error hrec
          · rw [hresult, hsame]
            exact ⟨r, .stays rfl rfl rfl rfl, hs⟩
          · have hdead' := hstate'.1
            rw [failedState, if_neg (by simp [htype])] at hdead'
            rw [hresult]
            exact ⟨r, .breaks [] hreads (Or.inl htrace) hdead' (by simp [hstate]),
              fun h => absurd hdead' h⟩
        · exact absurd hcomplete.2 (remainingLen_ne_zero hrec)
      | body =>
        rcases hstream with hop | henc
        · exact hbreaks (Or.inl hstate) hpending hfrag hop
        · have hnothing : xdrmemstreamReadFromFd sys.outcomes (e.pool, e.con.xdrs) e.socket
              e.con.remainingLen = ⟨none, (e.pool, e.con.xdrs), e.socket, e.con.remainingLen⟩ := by
            cases h : sys.outcomes <;>
              simp [xdrmemstreamReadFromFd, henc.op, readFromFdLoop, hcomplete.2]
          have hresult : (e.receive sys).2 = e.receiveMessage.2 := by
            have hbody : e.receiveBody sys.outcomes = (none, e) := by
              have hlast : ¬ (e.con.remainingLen = 0 ∧ e.con.lastFragment = false) := by
                simp [hcomplete.1]
              unfold receiveBody
              rw [hnothing]
              exact if_neg hlast
            simp [receive, hpending, hfrag, receiveRest, hbody, finishReceive_complete hcomplete]
          obtain ⟨hdelivers, hconsistent⟩ :=
            receiveMessage_delivers htype hcomplete henc hpool hsize r.done
          rw [hresult]
          exact ⟨r, .redelivers sys rfl hstate hdelivers, hr ▸ hconsistent⟩
  case sending =>
    have hpending : e.connectPending sys.soError = none := by simp [connectPending, hstate]
    obtain ⟨-, hbody, frags, record, pos, -, -, hdec, -⟩ := hrest
    exact hbreaks (Or.inr hstate) hpending hbody hdec.op

/-- Whatever happens to a living server connection has one of the effects. -/
theorem step_effect (ev : Event) (hs : Consistent size r e) (hsize : LegalSize size)
    (hdead : e.con.state ≠ .dead) (hfault : e.con.xdrs.fault = false) :
    ∃ r', Effect size r e ev r' (e.step ev) ∧ Consistent size r' (e.step ev) := by
  obtain ⟨htype, hpool, -⟩ := hs hdead
  have hstep : e.step ev = _ := if_neg (by simp [hfault])
  cases ev with
  | receive sys => exact hstep ▸ receive_effect sys hs hsize hdead
  | send sys => exact hstep ▸ send_effect sys hs hsize hdead hfault
  | timedOut =>
    obtain ⟨hrestart, hstate⟩ := timedOut_restarted hdead htype
    exact hstep ▸ hrestart.effect (.inl rfl) hs hdead hfault (Or.inl ⟨rfl, hstate⟩)
  | reset =>
    obtain ⟨hrestart, hstate⟩ := reset_restarted hdead htype
    exact hstep ▸ hrestart.effect (.inr (.inl rfl)) hs hdead hfault (Or.inr hstate)
  | sendPingReply | sendErrorReply | sendReply =>
    rw [step_reply hfault rfl]
    exact reply_effect rfl hs hsize hdead hfault
  | personaNonGrata =>
    obtain ⟨hrestart, -⟩ := reset_restarted hdead htype
    rw [hstep]
    exact ⟨r, .breaks [] (by rw [personaNonGrata, setState, hrestart.socket]; exact .refl _)
      (Or.inl hrestart.trace) rfl (by simp), fun h => absurd rfl h⟩
  | deserialize reader =>
    rw [hstep]
    dsimp only
    split
    next h =>
      have hop := (reader.run_op e.con.xdrs).trans h.2
      exact ready_effect hs h.1 hpool (Or.inl ⟨h.2, hop⟩)
    next => exact ⟨r, .stays rfl rfl rfl rfl, hs⟩
  | freeStreamMemory =>
    rw [hstep]
    dsimp only
    split
    next h =>
      exact ready_effect hs h ((xdrmemstreamClear_bufferSize (e.pool, e.con.xdrs)).trans hpool)
        (Or.inr (hpool ▸ xdrmemstreamClear_encoding (e.pool, e.con.xdrs) hfault))
    next => exact ⟨r, .stays rfl rfl rfl rfl, hs⟩
  | otherStreams pool =>
    rw [hstep]
    dsimp only
    split
    next h =>
      refine ⟨r, .stays rfl rfl rfl rfl, fun hd => ?_⟩
      obtain ⟨-, -, hrest⟩ := hs hd
      have hfresh : Fresh size e → Fresh size { e with pool } := fun hf =>
        ⟨hf.cnxType, h.trans hpool, hf.fragmentState, hf.remainingLen, hf.ptr, hf.stream⟩
      refine ⟨htype, h.trans hpool, ?_⟩
      cases hstate : e.con.state <;> simp only [hstate] at hrest ⊢
      case idle => exact ⟨hrest.1, hfresh hrest.2⟩
      case ready => exact ⟨hrest.1, hrest.2.imp_left hfresh⟩
      all_goals exact hrest
    next => exact ⟨r, .stays rfl rfl rfl rfl, hs⟩

end Endpoint

end AcpltKs
