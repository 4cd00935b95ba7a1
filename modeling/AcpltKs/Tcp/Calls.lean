import AcpltKs.Tcp.Clients
import AcpltKs.Tcp.Replies
import AcpltKs.XdrStreams

/-! A server connection whose peer sends RPC calls: whatever pieces they come in and the replies go
out in, each call is offered to the server as it was sent, and the replies are written one behind
the other. -/
namespace AcpltKs
open RecordMarking

/-- A call on its way to a server, and the fragments it is cut into. -/
structure SentRpcCall where
  xid : UInt32
  progNumber : UInt32
  progVersion : UInt32
  procedure : UInt32
  arguments : List UInt8
  fragments : List (List UInt8)

namespace SentRpcCall

def message (call : SentRpcCall) : RpcMessage :=
  .call call.xid call.progNumber call.progVersion call.procedure

/-- The fragments make up the call, and their headers can count their bytes. -/
structure Proper (call : SentRpcCall) : Prop where
  nonempty : call.fragments ≠ []
  short : ∀ body ∈ call.fragments, body.length < 2 ^ 31
  flatten : call.fragments.flatten = call.message.bytes ++ call.arguments
  aligned : 4 ∣ call.arguments.length

end SentRpcCall

/-- The record of a reply. -/
def replyRecord (xid : UInt32) (payloads : List Payload) : List UInt8 :=
  record [Endpoint.replyBody xid payloads]

theorem sentRecord_reply {xid : UInt32} {payloads : List Payload}
    (h : (Endpoint.replyBody xid payloads).length < 2 ^ 31) :
    sentRecord (BigEndian.encode 0x80000000 ++ Endpoint.replyBody xid payloads) =
      replyRecord xid payloads := by
  rw [sentRecord_word, Nat.mod_eq_of_lt h]
  rfl

theorem length_replyRecord (xid : UInt32) (payloads : List Payload) :
    (replyRecord xid payloads).length = 4 + (Endpoint.replyBody xid payloads).length := by
  simp [replyRecord, record, fragment]

/-- A stream hands out the words it holds. -/
theorem Feeding.yields {σ : Type*} [XdrSource σ] {P : σ → List UInt8 → Prop} (h : Feeding P)
    {ws : List UInt32} {rest : List UInt8} (hrest : 4 ∣ rest.length) {s : σ}
    (hs : P s (wireBytes ws ++ rest)) : ∃ s', Yields s ws s' ∧ P s' rest := by
  induction ws generalizing s with
  | nil => exact ⟨s, rfl, hs⟩
  | cons w ws ih =>
    have hlength : 4 ∣ (wireBytes ws ++ rest).length := by
      rw [List.length_append, wireBytes_length]
      exact dvd_add (dvd_mul_right 4 _) hrest
    obtain ⟨s₁, hlong, hs₁⟩ := h.long (by simpa [wireBytes] using hs) hlength
    obtain ⟨s', hyields, hs'⟩ := ih hs₁
    exact ⟨s', ⟨s₁, hlong, hyields⟩, hs'⟩

/-- The decoder reads the header of a message and leaves what follows. -/
theorem Feeding.decodes {σ : Type*} [XdrSource σ] {P : σ → List UInt8 → Prop} (hP : Feeding P)
    (h : KsRpcHeader) {msg : RpcMessage} {rest : List UInt8} (hrest : 4 ∣ rest.length) {s : σ}
    (hs : P s (msg.bytes ++ rest)) :
    ∃ s', h.xdrDecode.run s = ((true, msg.apply h), s') ∧ P s' rest := by
  obtain ⟨s', hyields, hs'⟩ := hP.yields hrest hs
  exact ⟨s', xdrDecode_run_true.mpr ⟨msg, hyields, rfl⟩, hs'⟩

namespace Endpoint
variable {e e' : Endpoint} {size : ℕ} {calls : List SentRpcCall} {replies : List (List UInt8)}

theorem headerError_pool (e : Endpoint) (errno : Errno) :
    (e.headerError errno).2.pool = e.pool := by
  unfold headerError
  split_ifs <;> rfl

theorem receiveHeader_error_pool {ios : List IoOutcome} {mode : ConnectionIoMode}
    (hrec : e.receiveHeader ios = (.error mode, e')) : e'.pool = e.pool := by
  unfold receiveHeader at hrec
  split at hrec
  · obtain ⟨-, rfl⟩ := Prod.mk.inj hrec
    rfl
  · cases hrec
  · next errno socket _ _ =>
    obtain ⟨-, rfl⟩ := Prod.mk.inj hrec
    exact headerError_pool { e with socket } errno

theorem reset_bufferSize (e : Endpoint) :
    e.reset.2.pool.memStreamBufferSize = e.pool.memStreamBufferSize := by
  by_cases hdead : e.con.state = .dead
  · simp [reset, hdead]
  · simp only [reset, hdead, if_false]
    exact xdrmemstreamClear_bufferSize (e.pool, e.con.xdrs)

theorem receiveBody_kept {bs : List UInt8} (henc : e.con.xdrs.Encoding size bs)
    (hpool : e.pool.memStreamBufferSize = size) (hsize : LegalSize size) (ios : List IoOutcome) :
    (e.receiveBody ios).2.pool.memStreamBufferSize = size ∧
      (e.receiveBody ios).2.con.cnxType = e.con.cnxType := by
  obtain ⟨cs, -, -, hpool'⟩ :=
    xdrmemstreamReadFromFd_encoding henc hpool hsize ios e.socket e.con.remainingLen
  unfold receiveBody
  dsimp only
  split
  · split_ifs
    · exact ⟨hpool', rfl⟩
    · exact ⟨hpool', rfl⟩
  · split_ifs
    · exact ⟨(reset_bufferSize _).trans hpool', reset_cnxType _⟩
    · exact ⟨hpool', rfl⟩

/-- A server connection does not die of a record. -/
theorem finishReceive_alive (htype : e.con.cnxType = .server) :
    e.finishReceive.2.con.state ≠ .dead := by
  have hreset : ∀ e₁ : Endpoint, e₁.con.cnxType = .server → e₁.con.state = .sending →
      e₁.reset.2.con.state ≠ .dead := by
    intro e₁ htype₁ hstate
    rw [(reset_restarted (by simp [hstate]) htype₁).2, hstate]
    exact show ConnectionState.idle ≠ .dead by decide
  unfold finishReceive
  split_ifs
  · have hrewound : (e.setMem (xdrmemstreamRewind (e.pool, e.con.xdrs) .decode)).con.cnxType =
        .server := htype
    unfold receiveMessage
    generalize e.setMem (xdrmemstreamRewind (e.pool, e.con.xdrs) .decode) = e₁ at hrewound ⊢
    have hnoted : (e₁.note (.message e₁.con.xdrs.contents)).con.cnxType = .server := hrewound
    dsimp only
    generalize e₁.note (.message e₁.con.xdrs.contents) = e₂ at hnoted ⊢
    generalize e₂.con.rpcHeader.xdrDecode.run e₂.con.xdrs = r
    rw [hnoted]
    dsimp only
    split_ifs
    · exact show ConnectionState.ready ≠ .dead by decide
    · exact show ConnectionState.sending ≠ .dead by decide
    · apply hreset <;> rfl
  · exact show ConnectionState.receiving ≠ .dead by decide

/-- Receiving leaves the size of the fragments alone when the connection dies of it. -/
theorem receive_dead_bufferSize {sys : SystemCalls} {bs : List UInt8}
    (htype : e.con.cnxType = .server) (hstate : e.con.state = .idle ∨ e.con.state = .receiving)
    (henc : e.con.xdrs.Encoding size bs) (hpool : e.pool.memStreamBufferSize = size)
    (hsize : LegalSize size) (hdead : (e.receive sys).2.con.state = .dead) :
    (e.receive sys).2.pool.memStreamBufferSize = size := by
  have hpending : e.connectPending sys.soError = none := by
    rcases hstate with hs | hs <;> simp [connectPending, hs]
  have hrest : ∀ (e₁ : Endpoint) (ios : List IoOutcome), e₁.con.cnxType = .server →
      e₁.con.xdrs.Encoding size bs → e₁.pool.memStreamBufferSize = size →
        (e₁.receiveRest ios).2.con.state = .dead →
          (e₁.receiveRest ios).2.pool.memStreamBufferSize = size := by
    intro e₁ ios htype₁ henc₁ hpool₁ hdead₁
    obtain ⟨hpool₂, htype₂⟩ := receiveBody_kept henc₁ hpool₁ hsize ios
    rw [receiveRest] at hdead₁ ⊢
    split_ifs at hdead₁ ⊢
    · rcases hbody : e₁.receiveBody ios with ⟨_ | mode, e₂⟩
      · rw [hbody] at hdead₁ htype₂
        exact absurd hdead₁ (finishReceive_alive (htype₂.trans htype₁))
      · rwa [hbody] at hpool₂
    · exact absurd hdead₁ (finishReceive_alive htype₁)
  simp only [receive, hpending] at hdead ⊢
  split_ifs at hdead ⊢
  · rcases hheader : e.receiveHeader sys.outcomes with ⟨mode | ios, e₁⟩
    · exact (congrArg Pool.memStreamBufferSize (receiveHeader_error_pool hheader)).trans hpool
    · obtain ⟨hpool₁, hxdrs, -, htype₁, -⟩ := receiveHeader_frame hheader
      rw [hheader] at hdead
      exact hrest e₁ ios (htype₁.trans htype) (hxdrs ▸ henc) (by rw [hpool₁, hpool]) hdead
  · exact hrest e _ htype henc hpool hdead

/-- So does sending. -/
theorem send_bufferSize {sys : SystemCalls} (htype : e.con.cnxType = .server)
    (hstate : e.con.state = .sending) (hbody : e.con.fragmentState = .body) :
    (e.send sys).2.pool.memStreamBufferSize = e.pool.memStreamBufferSize := by
  have hpending : e.connectPending sys.soError = none := by simp [connectPending, hstate]
  have hpool : (xdrmemstreamWriteToFd sys.outcomes (e.pool, e.con.xdrs) e.socket
      e.con.remainingLen).mem.1 = e.pool := xdrmemstreamWriteToFd_pool _ _ _ _
  rw [send_body sys hpending hbody]
  dsimp only
  split_ifs
  · rw [finishSend_server (by exact htype)]
    split_ifs
    · rw [reset_bufferSize, written, hpool]
    · rw [written, hpool]
  · rw [failed, setState, written, hpool]

/-- A connection offers a call: its procedure, its transaction id and its arguments. -/
structure Offers (e : Endpoint) (call : SentRpcCall) : Prop where
  procedure : e.con.rpcHeader.procedure = call.procedure
  xid : e.con.rpcHeader.xid = call.xid
  stream : e.con.xdrs.Holds call.arguments

/-- How many calls have been received. -/
def received (e : Endpoint) : ℕ := (Reader.feedAll {} e.socket.consumed).done.length

/-- How a living connection stands after so many replies. -/
def Stands (calls : List SentRpcCall) (replies : List (List UInt8)) (e : Endpoint) : Prop :=
  match e.con.state with
  | .ready => e.received = replies.length + 1 ∧ e.socket.written = replies.flatten ∧
      ∃ call, calls[replies.length]? = some call ∧ e.Offers call
  | .sending => e.received = replies.length ∧ ∃ sent reply, replies = sent ++ [reply] ∧
      e.trace.getLast? = some (.queued reply) ∧ reply.length < 2 ^ 32 ∧
        e.con.remainingLen ≤ reply.length ∧
          e.socket.written = sent.flatten ++ reply.take (reply.length - e.con.remainingLen)
  | _ => e.received = replies.length ∧ e.socket.written = replies.flatten

/-- A server connection in the middle of its calls, of which as many have been answered as there are
replies. -/
structure Answering (size : ℕ) (calls : List SentRpcCall) (replies : List (List UInt8))
    (e : Endpoint) : Prop where
  peer : e.socket.peer = calls.flatMap fun call => record call.fragments
  bufferSize : e.pool.memStreamBufferSize = size
  consistent : e.Consistent size (Reader.feedAll {} e.socket.consumed)
  answered : replies.length ≤ calls.length
  written : e.socket.written <+: replies.flatten
  stands : e.con.state ≠ .dead → e.Stands calls replies

/-- What has been received are the first calls of the peer. -/
theorem done_eq (hcalls : ∀ call ∈ calls, call.Proper)
    (hpeer : e.socket.peer = calls.flatMap fun call => record call.fragments) :
    e.received ≤ calls.length ∧ (Reader.feedAll {} e.socket.consumed).done =
        (calls.take e.received).map (fun call => call.fragments.flatten) ∧
      e.socket.consumed.length =
        ((calls.take e.received).flatMap fun call => record call.fragments).length +
          (Reader.feedAll {} e.socket.consumed).taken := by
  have hrecords : ∀ bodies ∈ calls.map SentRpcCall.fragments,
      bodies ≠ [] ∧ ∀ body ∈ bodies, body.length < 2 ^ 31 := by
    intro bodies hmem
    obtain ⟨call, hcall, rfl⟩ := List.mem_map.mp hmem
    exact ⟨(hcalls call hcall).nonempty, (hcalls call hcall).short⟩
  have hstream : (calls.map SentRpcCall.fragments).flatMap record =
      e.socket.consumed ++ e.socket.incoming := by
    rw [List.flatMap_map, ← hpeer, Socket.peer]
  obtain ⟨k, hk, hdone, hlength⟩ := @Reader.feedAll_records [] _ hrecords _ _ hstream
  rw [List.length_map] at hk
  rw [List.nil_append, ← List.map_take, List.map_map] at hdone
  rw [← List.map_take, List.flatMap_map] at hlength
  have hreceived : e.received = k := by
    rw [received, hdone, List.length_map, List.length_take, Nat.min_eq_left hk]
  rw [hreceived]
  exact ⟨hk, hdone, hlength⟩

/-- A record that comes behind the calls received is the next call. -/
theorem body_eq (hcalls : ∀ call ∈ calls, call.Proper)
    (hpeer : e.socket.peer = calls.flatMap fun call => record call.fragments) {ds : List (List UInt8)}
    {body : List UInt8} (hdone : (Reader.feedAll {} e.socket.consumed).done = ds ++ [body]) :
    ∃ call, calls[ds.length]? = some call ∧ body = call.message.bytes ++ call.arguments := by
  obtain ⟨hle, hall, -⟩ := done_eq hcalls hpeer
  have hreceived : e.received = ds.length + 1 := by simp [received, hdone]
  rw [hreceived] at hle hall
  have hlt : ds.length < calls.length := hle
  refine ⟨calls[ds.length], List.getElem?_eq_getElem hlt, ?_⟩
  have hlast := congrArg List.getLast? (hdone.symm.trans hall)
  rw [List.getLast?_concat, List.take_add_one, List.getElem?_eq_getElem hlt, List.map_append] at hlast
  rw [← (hcalls _ (List.getElem_mem hlt)).flatten]
  simpa using hlast

theorem Answering.fault_eq (h : Answering size calls replies e) (hdead : e.con.state ≠ .dead)
    (hstate : e.con.state ≠ .ready) : e.con.xdrs.fault = false := by
  obtain ⟨-, -, hrest⟩ := h.consistent hdead
  cases hs : e.con.state <;> simp only [hs] at hrest
  case idle => exact hrest.2.stream.fault
  case receiving => exact hrest.2.fault
  case ready => exact absurd hs hstate
  case sending =>
    obtain ⟨-, -, frags, record, pos, -, -, hdec, -⟩ := hrest
    exact hdec.fault

/-- A connection that dies has written some replies in a row. -/
theorem Answering.of_dead (h : Answering size calls replies e) (hpeer : e'.socket.peer = e.socket.peer)
    (hpool : e'.pool.memStreamBufferSize = size)
    (hwritten : e'.socket.written <+: replies.flatten) (hdead : e'.con.state = .dead) :
    Answering size calls replies e' :=
  ⟨hpeer.trans h.peer, hpool, fun hs => absurd hdead hs, h.answered, hwritten, fun hs => absurd hdead hs⟩

/-- Nothing but the pool has changed. -/
theorem Answering.of_pool (h : Answering size calls replies e) {pool : Pool}
    (hpool : pool.memStreamBufferSize = size) : Answering size calls replies { e with pool } := by
  refine ⟨h.peer, hpool, fun hdead => ?_, h.answered, h.written, fun hdead => ?_⟩
  · obtain ⟨htype, -, hrest⟩ := h.consistent hdead
    refine ⟨htype, hpool, ?_⟩
    have hfresh : Fresh size e → Fresh size { e with pool } := fun hf =>
      ⟨hf.cnxType, hpool, hf.fragmentState, hf.remainingLen, hf.ptr, hf.stream⟩
    cases hs : e.con.state <;> simp only [hs] at hrest ⊢
    case idle => exact ⟨hrest.1, hfresh hrest.2⟩
    case ready => exact ⟨hrest.1, hrest.2.imp_left hfresh⟩
    all_goals exact hrest
  · have hstands := h.stands hdead
    unfold Stands at hstands ⊢
    cases hs : e.con.state <;> simp only [hs] at hstands ⊢
    case ready =>
      obtain ⟨hreceived, hwritten, call, hcall, hoffers⟩ := hstands
      exact ⟨hreceived, hwritten, call, hcall, hoffers.1, hoffers.2, hoffers.3⟩
    all_goals exact hstands

/-- With a complete call, a server connection becomes ready and offers it. -/
theorem receiveMessage_offers {call : SentRpcCall} (htype : e.con.cnxType = .server)
    (henc : e.con.xdrs.Encoding size (call.message.bytes ++ call.arguments))
    (hpool : e.pool.memStreamBufferSize = size) (hsize : LegalSize size)
    (haligned : 4 ∣ call.arguments.length) :
    e.receiveMessage.2.con.state = .ready ∧ e.receiveMessage.2.Offers call := by
  obtain ⟨-, -, frags, hlaid, hdec⟩ := xdrmemstreamRewind_encoding henc hpool hsize
  have hlength : 4 ∣ (call.message.bytes ++ call.arguments).length := by
    rw [List.length_append, RpcMessage.bytes, wireBytes_length]
    exact dvd_add (dvd_mul_right 4 _) haligned
  have hholds : (xdrmemstreamRewind (e.pool, e.con.xdrs) .decode).2.Holds
      (call.message.bytes ++ call.arguments) :=
    ⟨size, frags, _, 0, hsize, hlaid, hdec, hlength, Nat.zero_le _, rfl⟩
  obtain ⟨s', hrun, hs'⟩ := feeding_memStream.decodes e.con.rpcHeader haligned hholds
  obtain ⟨-, -, ⟨-, hready⟩ | ⟨hrefused, -⟩⟩ := receiveMessage_cases htype henc hpool hsize
  · rw [hrun] at hready
    rw [hready]
    exact ⟨rfl, rfl, rfl, hs'⟩
  · rw [hrun] at hrefused
    exact absurd hrefused Bool.noConfusion

/-- What a call of `receive` brings is taken as the peer sent it. -/
theorem Received.answering {sys : SystemCalls} {bs : List UInt8}
    (hpool : e'.con.state = .dead → e'.pool.memStreamBufferSize = size)
    (hreceived : Received size e e' (Reader.feedAll {} e.socket.consumed) bs sys.outcomes
      (e.receiveMeetsEnomem sys))
    (h : Answering size calls replies e) (hcalls : ∀ call ∈ calls, call.Proper)
    (hsize : LegalSize size) (hstate : e.con.state = .idle ∨ e.con.state = .receiving)
    (henomem : e.receiveMeetsEnomem sys = false) : Answering size calls replies e' := by
  have hdead : e.con.state ≠ .dead := by rcases hstate with hs | hs <;> simp [hs]
  have hstands : e.received = replies.length ∧ e.socket.written = replies.flatten := by
    have hstands := h.stands hdead
    rcases hstate with hs | hs <;> simpa only [Stands, hs] using hstands
  cases hreceived with
  | fed e₁ hfed he =>
    have htype := hfed.cnxType.trans (h.consistent hdead).1
    have hreads := hfed.reads
    have hpeer : e₁.socket.peer = calls.flatMap fun call => record call.fragments :=
      hreads.peer.trans h.peer
    have hwritten : e₁.socket.written = replies.flatten := hreads.written.trans hstands.2
    have hreader : Reader.feedAll {} e₁.socket.consumed =
        (Reader.feedAll {} e.socket.consumed).feedAll bs := by
      rw [hreads.consumed, Reader.feedAll_append]
    subst he
    rcases hfed.taken with ⟨hcomplete, body, hfeed, henc⟩ | ⟨hcomplete, hphase, hdone, henc⟩
    · rw [hfeed] at hreader
      obtain ⟨call, hcall, rfl⟩ := body_eq hcalls hpeer (by rw [hreader])
      have hproper := hcalls call (List.mem_of_getElem? hcall)
      obtain ⟨hready, hoffers⟩ :=
        receiveMessage_offers htype henc hfed.bufferSize hsize hproper.aligned
      obtain ⟨hdelivers, hconsistent⟩ := receiveMessage_delivers htype hcomplete henc hfed.bufferSize
        hsize ((Reader.feedAll {} e.socket.consumed).done ++ [call.message.bytes ++ call.arguments])
      have hsocket := hdelivers.socket_eq
      rw [finishReceive_complete hcomplete]
      have halive : e₁.receiveMessage.2.con.state ≠ .dead := by simp [hready]
      refine ⟨hsocket ▸ hpeer, (hconsistent halive).2.1, ?_, h.answered, by rw [hsocket, hwritten],
        fun _ => ?_⟩
      · rw [hsocket, hreader]
        exact hconsistent
      · simp only [Stands, hready, received]
        rw [hsocket, hreader, hwritten]
        refine ⟨?_, rfl, call, ?_, hoffers⟩
        · rw [List.length_append, List.length_singleton]
          exact congrArg (· + 1) hstands.1
        · rw [← hstands.1]
          exact hcall
    · have hresult : e₁.finishReceive.2 = e₁.setState .receiving :=
        congrArg Prod.snd (if_neg hcomplete)
      rw [hresult]
      refine ⟨hpeer, hfed.bufferSize, fun _ => ⟨htype, hfed.bufferSize, ?_⟩, h.answered, ?_,
        fun _ => ⟨?_, hwritten⟩⟩
      · show e₁.con.InPhase (Reader.feedAll {} e₁.socket.consumed).phase ∧
          e₁.con.xdrs.Encoding size (Reader.feedAll {} e₁.socket.consumed).acc
        rw [hreader]
        exact ⟨hphase, henc⟩
      · show e₁.socket.written <+: replies.flatten
        rw [hwritten]
      · show (Reader.feedAll {} e₁.socket.consumed).done.length = replies.length
        rw [hreader, hdone]
        exact hstands.1
  | dead reads noted state loud =>
    exact h.of_dead reads.peer (hpool state) (by rw [reads.written, hstands.2]) state
  | reset reads noted enomem fresh state => simp [henomem] at enomem

/-- Receiving while no call is being answered. -/
theorem Answering.receive (h : Answering size calls replies e)
    (hcalls : ∀ call ∈ calls, call.Proper) (hsize : LegalSize size) {sys : SystemCalls}
    (hstate : e.con.state = .idle ∨ e.con.state = .receiving)
    (henomem : e.receiveMeetsEnomem sys = false) :
    Answering size calls replies (e.receive sys).2 := by
  have hdead : e.con.state ≠ .dead := by rcases hstate with hs | hs <;> simp [hs]
  obtain ⟨htype, hpool, hrest⟩ := h.consistent hdead
  have hready : e.con.InPhase (Reader.feedAll {} e.socket.consumed).phase ∧
      e.con.xdrs.Encoding size (Reader.feedAll {} e.socket.consumed).acc := by
    rcases hstate with hs | hs <;> simp only [hs] at hrest
    · obtain ⟨hreader, hfresh⟩ := hrest
      rw [hreader]
      exact ⟨⟨hfresh.fragmentState, by simp, hfresh.ptr, hfresh.remainingLen, by simp [hfresh.ptr]⟩,
        hfresh.stream⟩
    · exact hrest
  rcases receive_received htype (hstate.elim Or.inl fun hs => Or.inr (Or.inl hs)) hready.1 hready.2
    hpool hsize sys with hsame | ⟨bs, hreceived⟩
  · rwa [hsame]
  · exact hreceived.answering (receive_dead_bufferSize htype hstate hready.2 hpool hsize) h hcalls hsize
      hstate henomem

/-- Sending a reply, or what is left of it. -/
theorem Answering.send (h : Answering size calls replies e) (hsize : LegalSize size)
    {sys : SystemCalls} (hstate : e.con.state = .sending) :
    Answering size calls replies (e.send sys).2 := by
  have hdead : e.con.state ≠ .dead := by simp [hstate]
  have hstands := h.stands hdead
  simp only [Stands, hstate] at hstands
  obtain ⟨hreceived, sent, reply, hreplies, hqueued, hlength, hle, hwritten⟩ := hstands
  obtain ⟨r', heffect, hconsistent⟩ :=
    send_effect sys h.consistent hsize hdead (h.fault_eq hdead (by simp [hstate]))
  have hpool : (e.send sys).2.pool.memStreamBufferSize = size := by
    obtain ⟨htype, hpool, hrest⟩ := h.consistent hdead
    simp only [hstate] at hrest
    exact (send_bufferSize htype hstate hrest.2.1).trans hpool
  generalize (e.send sys).2 = e' at heffect hconsistent hpool
  cases heffect with
  | stays socket trace state remainingLen =>
    refine ⟨socket ▸ h.peer, hpool, by rwa [socket], h.answered,
      socket ▸ h.written, fun _ => ?_⟩
    simp only [Stands, state, hstate, received, socket, trace, remainingLen]
    exact ⟨hreceived, sent, reply, hreplies, hqueued, hlength, hle, hwritten⟩
  | feeds _ _ event => cases event
  | delivers _ _ _ event => cases event
  | redelivers _ event => cases event
  | breaks bs reads noted state cause =>
    rcases cause with hcause | ⟨_, -, hne⟩ | ⟨_, hcause, -⟩
    · cases hcause
    · exact absurd hstate hne
    · cases hcause
  | exhausted _ _ event => cases event
  | restarts cause =>
    rcases cause with hcause | hcause | ⟨_, hcause⟩ | ⟨_, -, hs⟩
    · cases hcause
    · cases hcause
    · cases hcause
    · simp [hstate] at hs
  | queues _ event => cases event
  | writes sys record pos n event state queued position incoming consumed written trace enough
      state' =>
    obtain rfl : record = reply := by simpa using queued.symm.trans hqueued
    rw [Nat.mod_eq_of_lt hlength] at position
    have hpos : record.length - e.con.remainingLen = pos := by omega
    have hpeer : e'.socket.peer = e.socket.peer := by
      rw [Socket.peer, Socket.peer, consumed, incoming]
    have hwritten' : e'.socket.written = sent.flatten ++ record.take (pos + n) := by
      rw [written, hwritten, hpos, List.take_add, List.append_assoc]
    have hprefix : e'.socket.written <+: replies.flatten := by
      rw [hwritten', hreplies, List.flatten_append, List.flatten_singleton]
      exact List.prefix_append_right_inj _ |>.mpr (List.take_prefix _ _)
    rcases state' with ⟨hs, -⟩ | ⟨hs, hleft⟩ | ⟨hs, hall⟩
    · exact h.of_dead hpeer hpool hprefix hs
    · refine ⟨hpeer.trans h.peer, hpool, by rwa [consumed], h.answered, hprefix,
        fun _ => ?_⟩
      simp only [Stands, hs, received, consumed, trace]
      refine ⟨hreceived, sent, record, hreplies, hqueued, hlength, by omega, ?_⟩
      rw [hwritten', show record.length - e'.con.remainingLen = pos + n by omega]
    · refine ⟨hpeer.trans h.peer, hpool, by rwa [consumed], h.answered, hprefix,
        fun _ => ?_⟩
      simp only [Stands, hs, received, consumed]
      refine ⟨hreceived, ?_⟩
      rw [hwritten', hreplies, List.flatten_append, List.flatten_singleton,
        List.take_of_length_le (by omega)]

theorem Sends.queuedRecords {record : List UInt8} (h : e.Sends size e' record) :
    e'.queuedRecords.getLast? = some record := by
  simp [queuedRecords_of_trace h.trace]

/-- The server answers the call that it has been offered. -/
theorem Sends.answering {e₁ : Endpoint} {payloads : List Payload}
    (hsends : e₁.Sends size e' (sentRecord
      (BigEndian.encode 0x80000000 ++ replyBody e.con.rpcHeader.xid payloads)))
    (h : Answering size calls replies e) (hcalls : ∀ call ∈ calls, call.Proper)
    (hstate : e.con.state = .ready) (hsocket : e₁.socket = e.socket)
    (htype : e₁.con.cnxType = e.con.cnxType)
    (hshort : (replyBody e.con.rpcHeader.xid payloads).length < 2 ^ 31) :
    Answering size calls (replies ++ [replyRecord e.con.rpcHeader.xid payloads]) e' := by
  have hdead : e.con.state ≠ .dead := by simp [hstate]
  have hstands := h.stands hdead
  simp only [Stands, hstate] at hstands
  obtain ⟨hreceived, hwritten, call, hcall, hoffers⟩ := hstands
  rw [sentRecord_reply hshort] at hsends
  have hsocket' : e'.socket = e.socket := hsends.socket.trans hsocket
  have hreader := h.consistent.reader_eq hdead (by simp [hstate])
  have hlength := length_replyRecord e.con.rpcHeader.xid payloads
  have hmod : (replyRecord e.con.rpcHeader.xid payloads).length % 2 ^ 32 =
      (replyRecord e.con.rpcHeader.xid payloads).length := Nat.mod_eq_of_lt (by omega)
  have hremaining := hsends.remainingLen
  rw [hmod] at hremaining
  have hlt : replies.length < calls.length := by
    have hle := (done_eq hcalls h.peer).1
    omega
  refine ⟨hsocket' ▸ h.peer, hsends.bufferSize, ?_, by simpa using hlt, ?_, fun _ => ?_⟩
  · rw [hsocket', hreader]
    exact hsends.consistent (htype.trans (h.consistent hdead).1) _
  · rw [hsocket', hwritten, List.flatten_append]
    exact List.prefix_append _ _
  · simp only [Stands, hsends.state, received, hsocket']
    refine ⟨?_, replies, _, rfl, by simp [hsends.trace], by omega, hremaining.le, ?_⟩
    · rw [List.length_append, List.length_singleton]
      exact hreceived
    · rw [hremaining, Nat.sub_self, List.take_zero, List.append_nil, hwritten]

/-- What a server connection needs tells in which state it is. -/
theorem Consistent.mode {r : Reader} (hs : Consistent size r e) :
    (e.getIoMode.readable = true → e.con.state = .idle ∨ e.con.state = .receiving) ∧
      (e.getIoMode.writeable = true → e.con.state = .sending) ∧
      (e.getIoMode.attention = true → e.con.state = .ready) := by
  by_cases hdead : e.con.state = .dead
  · simp [getIoMode, KssTCPXDRConnection.getIoMode, hdead]
  · obtain ⟨-, -, hrest⟩ := hs hdead
    cases hstate : e.con.state <;> simp only [hstate] at hrest <;>
      simp [getIoMode, KssTCPXDRConnection.getIoMode, hstate]

/-- A new connection has answered nothing. -/
theorem answering_opened {raw con : KssTCPXDRConnection} {pool pool' : Pool} {info : Option ℕ}
    {connecting nonblocking : Bool}
    (hcreate : KssTCPXDRConnection.create raw pool info nonblocking connecting .server =
      (some con, pool')) (halive : con.state ≠ .dead) :
    Answering pool.memStreamBufferSize calls []
      (opened con pool' (calls.flatMap fun call => record call.fragments)) := by
  have hconsistent := create_consistent (calls.flatMap fun call => record call.fragments) hcreate
  refine ⟨rfl, (hconsistent halive).2.1, hconsistent, Nat.zero_le _, List.nil_prefix, fun _ => ?_⟩
  have hstate : con.state = .idle := by
    have hstate := create_state hcreate
    split_ifs at hstate
    · exact hstate
    · exact absurd hstate halive
  simp [Stands, opened, hstate, received]

theorem length_record_pos {bodies : List (List UInt8)} (h : bodies ≠ []) :
    0 < (record bodies).length := by
  obtain ⟨body, rest, rfl⟩ := List.exists_cons_of_ne_nil h
  cases rest with
  | nil => simp [record, fragment]
  | cons body' rest => simp [record_cons, fragment]

/-- A connection with no call under way and nothing to read has answered all calls. -/
theorem Answering.all (h : Answering size calls replies e)
    (hcalls : ∀ call ∈ calls, call.Proper) (hstate : e.con.state = .idle)
    (hincoming : e.socket.incoming = []) : replies.length = calls.length := by
  have hdead : e.con.state ≠ .dead := by simp [hstate]
  have hstands := h.stands hdead
  simp only [Stands, hstate] at hstands
  obtain ⟨hle, -, hlength⟩ := done_eq hcalls h.peer
  have htaken : (Reader.feedAll {} e.socket.consumed).taken = 0 := by
    rw [h.consistent.reader_eq hdead (by simp [hstate])]
  have hpeer := h.peer
  rw [Socket.peer, hincoming, List.append_nil] at hpeer
  rw [htaken, hpeer, hstands.1, Nat.add_zero] at hlength
  rw [hstands.1] at hle
  by_contra hne
  have hlt : replies.length < calls.length := by omega
  have hsplit := congrArg (fun calls' => (calls'.flatMap fun call : SentRpcCall =>
    record call.fragments).length) (List.take_append_drop replies.length calls)
  rw [List.drop_eq_getElem_cons hlt] at hsplit
  simp only [List.flatMap_append, List.flatMap_cons, List.length_append] at hsplit
  have hpos := length_record_pos (hcalls _ (List.getElem_mem hlt)).nonempty
  omega

end Endpoint
end AcpltKs
