import AcpltKs.MemStream.Output
import AcpltKs.Tcp.Basic

/-! How messages get into the stream of a TCP connection, and what is sent of them: restarting an
endpoint, encoding a message behind the space for the fragment header, and filling in that header. -/
namespace AcpltKs
open RecordMarking

/-- What is sent when `bs` has been encoded: its first word makes place for the fragment header. -/
def sentRecord (bs : List UInt8) : List UInt8 :=
  BigEndian.encode (headerWord true ((bs.length - 4) % 2 ^ 31)) ++ bs.drop 4

theorem sentRecord_length {bs : List UInt8} (h : 4 ≤ bs.length) :
    (sentRecord bs).length = bs.length := by
  simp only [sentRecord, List.length_append, BigEndian.encode_length, List.length_drop]
  omega

/-- A word in front is replaced by the header of the fragment behind it. -/
theorem sentRecord_word (w : UInt32) (body : List UInt8) :
    sentRecord (BigEndian.encode w ++ body) =
      BigEndian.encode (headerWord true (body.length % 2 ^ 31)) ++ body := by
  simp [sentRecord, BigEndian.encode]

/-- One well-formed record: the header has the last-fragment bit set and counts the bytes behind
it, which are `body`. -/
def IsRecord (bs body : List UInt8) : Prop :=
  ∃ w, bs = BigEndian.encode w ++ body ∧ isLast w = true ∧ bodyLength w = body.length

/-- That is a record as long as the fragment header can count its bytes. -/
theorem sentRecord_isRecord_iff (w : UInt32) (body : List UInt8) :
    IsRecord (sentRecord (BigEndian.encode w ++ body)) body ↔ body.length < 2 ^ 31 := by
  have hmod : body.length % 2 ^ 31 < 2 ^ 31 := Nat.mod_lt _ (by norm_num)
  rw [sentRecord_word]
  constructor
  · rintro ⟨v, hv, -, hlen⟩
    have hv' := BigEndian.encode_injective (List.append_inj_left hv (by simp))
    rw [← hlen, ← hv', bodyLength_headerWord hmod]
    exact hmod
  · intro h
    exact ⟨_, rfl, isLast_headerWord hmod,
      (bodyLength_headerWord hmod).trans (Nat.mod_eq_of_lt h)⟩

theorem sentRecord_isRecord (bs : List UInt8) (h : (bs.drop 4).length < 2 ^ 31) :
    IsRecord (sentRecord bs) (bs.drop 4) := by
  rw [List.length_drop] at h
  have hmod : (bs.length - 4) % 2 ^ 31 = bs.length - 4 := Nat.mod_eq_of_lt h
  refine ⟨headerWord true ((bs.length - 4) % 2 ^ 31), rfl, ?_, ?_⟩
  · rw [hmod, isLast_headerWord h]
  · rw [hmod, bodyLength_headerWord h, List.length_drop]

/-- The length of a record never reaches the width of the connection's counter. -/
theorem IsRecord.length_lt {bs body : List UInt8} (h : IsRecord bs body) :
    bs.length < 2 ^ 32 := by
  obtain ⟨w, rfl, -, hlen⟩ := h
  have := bodyLength_lt w
  simp only [List.length_append, BigEndian.encode_length]
  omega

namespace Endpoint
variable {e e' : Endpoint} {size : ℕ}

/-- `e'` is `e` with its stream empty and its automaton waiting for a header. -/
structure Restarted (e e' : Endpoint) : Prop where
  socket : e'.socket = e.socket
  trace : e'.trace = e.trace
  cnxType : e'.con.cnxType = e.con.cnxType
  bufferSize : e'.pool.memStreamBufferSize = e.pool.memStreamBufferSize
  fragmentState : e'.con.fragmentState = .header
  remainingLen : e'.con.remainingLen = 4
  ptr : e'.con.ptr = 0
  stream : e.con.xdrs.fault = false →
    e'.con.xdrs.Encoding e.pool.memStreamBufferSize []

theorem clearStream_startHeader_restarted (e : Endpoint) (state : ConnectionState) :
    e.Restarted (e.setState state).clearStream.startHeader :=
  ⟨rfl, rfl, rfl, xdrmemstreamClear_bufferSize (e.pool, e.con.xdrs), rfl, rfl, rfl,
    fun h => xdrmemstreamClear_encoding (e.pool, e.con.xdrs) h⟩

/-- The state of a server connection after a reset. -/
def resetState : ConnectionState → ConnectionState
  | .sending => .idle
  | .waiting | .receiving => .dead
  | state => state

theorem reset_restarted (hdead : e.con.state ≠ .dead) (htype : e.con.cnxType = .server) :
    e.Restarted e.reset.2 ∧ e.reset.2.con.state = resetState e.con.state := by
  simp only [reset, hdead, ↓reduceIte, htype, reduceCtorEq]
  refine ⟨clearStream_startHeader_restarted e _, ?_⟩
  cases h : e.con.state <;> simp [resetState, clearStream, startHeader, setMem, setState,
    KssTCPXDRConnection.startHeader]

theorem timedOut_restarted (hdead : e.con.state ≠ .dead) (htype : e.con.cnxType = .server) :
    e.Restarted e.timedOut.2 ∧ e.timedOut.2.con.state = .idle := by
  simp only [timedOut, hdead, ↓reduceIte, htype, reduceCtorEq]
  exact ⟨clearStream_startHeader_restarted e _, rfl⟩

/-- A server connection with an empty stream whose automaton waits for a header. -/
structure Fresh (size : ℕ) (e : Endpoint) : Prop where
  cnxType : e.con.cnxType = .server
  bufferSize : e.pool.memStreamBufferSize = size
  fragmentState : e.con.fragmentState = .header
  remainingLen : e.con.remainingLen = 4
  ptr : e.con.ptr = 0
  stream : e.con.xdrs.Encoding size []

theorem Restarted.fresh (h : e.Restarted e') (htype : e.con.cnxType = .server)
    (hpool : e.pool.memStreamBufferSize = size) (hfault : e.con.xdrs.fault = false) :
    Fresh size e' :=
  ⟨h.cnxType.trans htype, h.bufferSize.trans hpool, h.fragmentState, h.remainingLen, h.ptr,
    hpool ▸ h.stream hfault⟩

/-- `e'` is `e` with `record` ready to be sent from its first byte on. -/
structure Sends (size : ℕ) (e e' : Endpoint) (record : List UInt8) : Prop where
  socket : e'.socket = e.socket
  trace : e'.trace = e.trace ++ [.queued record]
  cnxType : e'.con.cnxType = e.con.cnxType
  bufferSize : e'.pool.memStreamBufferSize = size
  state : e'.con.state = .sending
  fragmentState : e'.con.fragmentState = .body
  remainingLen : e'.con.remainingLen = record.length % 2 ^ 32
  stream : ∃ frags, Laid size frags record ∧ e'.con.xdrs.Decoding size frags 0

/-- The fragment header is filled in, whatever was encoded. -/
theorem enterSendingState_sends {bs : List UInt8} (henc : e.con.xdrs.Encoding size bs)
    (hpool : e.pool.memStreamBufferSize = size) (hsize : LegalSize size) (hlen : 4 ≤ bs.length) :
    e.Sends size e.enterSendingState.2 (sentRecord bs) := by
  obtain ⟨hpool₁, hlength, frags, hlaid, hdec⟩ := xdrmemstreamRewind_encoding henc hpool hsize
  rcases hrewind : xdrmemstreamRewind (e.pool, e.con.xdrs) .decode with ⟨pool₁, xdrs₁⟩
  simp only [hrewind] at hpool₁ hlength hdec
  subst hpool₁
  have hword : UInt32.ofNat (bs.length % 2 ^ 32) - 4 ||| 0x80000000 =
      headerWord true ((bs.length - 4) % 2 ^ 31) := by
    rw [← mark_word]
    congr 1
    apply UInt32.toNat_inj.mp
    rw [UInt32.toNat_sub, UInt32.toNat_ofNat', UInt32.toNat_ofNat']
    rw [show UInt32.toNat 4 = 4 from rfl]
    omega
  obtain ⟨hinline, frags', hlaid', hpoke⟩ := memStreamInline_patch e.pool hlaid hdec hsize hlen
    (BigEndian.encode_length (headerWord true ((bs.length - 4) % 2 ^ 31)))
  obtain ⟨hpool₂, -, hdec'⟩ := xdrmemstreamRewind_decoding e.pool hpoke
  unfold enterSendingState
  simp only [hrewind, xdrmemstreamGetLength, hlength, hinline, hword]
  generalize xdrmemstreamRewind _ _ = m at hpool₂ hdec' ⊢
  have hcontents := hdec'.contents_eq hlaid'
  have hlen' := sentRecord_length hlen
  refine ⟨rfl, ?_, rfl, ?_, rfl, rfl, ?_, frags', hlaid', hdec'⟩
  · simp only [note, setMem, hcontents, sentRecord]
  · simpa only [note, setMem, hpool₂] using hpool
  · simp only [note, setMem, hlen']

/-- The payloads of a message are appended one after the other. -/
theorem foldl_xdrEncode_encoding {pool : Pool} {s : MemStream} {bs : List UInt8}
    (henc : s.Encoding size bs) (hpool : pool.memStreamBufferSize = size) (hsize : LegalSize size)
    (hbs : 4 ∣ bs.length) {payloads : List Payload} {ok : Bool} {m : Mem}
    (hp : payloads.foldl (fun r p => if r.1 then p.xdrEncode r.2 else r)
      ((true, pool, s) : Bool × Mem) = (ok, m)) :
    m.1.memStreamBufferSize = size ∧ (∃ cs, m.2.Encoding size cs) ∧
      (ok = true → m.2.Encoding size (bs ++ payloads.flatMap Payload.bytes)) := by
  induction payloads generalizing pool s bs with
  | nil =>
    obtain ⟨rfl, rfl⟩ := Prod.mk.inj hp
    exact ⟨hpool, ⟨_, henc⟩, fun _ => by simpa using henc⟩
  | cons p payloads ih =>
    rcases hfirst : p.xdrEncode (pool, s) with ⟨ok₁, pool₁, s₁⟩
    obtain ⟨hsz, ⟨cs, henc₁⟩, happ⟩ := Payload.xdrEncode_encoding henc hpool hsize hbs p hfirst
    simp only [List.foldl_cons, ↓reduceIte, hfirst] at hp
    cases ok₁ with
    | false =>
      have hstop : ∀ (ps : List Payload) (m' : Mem), ps.foldl
          (fun r p => if r.1 then p.xdrEncode r.2 else r) ((false, m') : Bool × Mem) =
            (false, m') := by
        intro ps m'
        induction ps with
        | nil => rfl
        | cons p ps ih => simpa using ih
      obtain ⟨rfl, rfl⟩ := Prod.mk.inj ((hstop _ _).symm.trans hp)
      exact ⟨hsz, ⟨_, henc₁⟩, by simp⟩
    | true =>
      have hdvd : 4 ∣ (bs ++ p.bytes).length := by
        rw [List.length_append]
        exact dvd_add hbs (XdrItem.four_dvd_flatMap_bytes p.items)
      obtain ⟨hsz', hsome, hall⟩ := ih (happ rfl) hsz hdvd hp
      refine ⟨hsz', hsome, fun hok => ?_⟩
      rw [List.flatMap_cons, ← List.append_assoc]
      exact hall hok

/-- Encoding a message changes the stream and the header, nothing else. -/
structure Encoded (e e' : Endpoint) : Prop where
  socket : e'.socket = e.socket
  trace : e'.trace = e.trace
  cnxType : e'.con.cnxType = e.con.cnxType
  state : e'.con.state = e.con.state
  bufferSize : e'.pool.memStreamBufferSize = e.pool.memStreamBufferSize
  stream : ∃ cs, e'.con.xdrs.Encoding e.pool.memStreamBufferSize cs

/-- Where a message gets into the stream, it is behind the place for the fragment header. -/
theorem encodeMessage_encoded {h : KsRpcHeader} {msg : RpcMessage} {payloads : List Payload}
    {ok : Bool} (hfault : e.con.xdrs.fault = false) (hsize : LegalSize e.pool.memStreamBufferSize)
    (hwords : h.words = (msg.words, true)) (henc : e.encodeMessage h payloads = (ok, e')) :
    e.Encoded e' ∧ (ok = true → e'.con.xdrs.Encoding e.pool.memStreamBufferSize
      (BigEndian.encode 0x80000000 ++ (msg.bytes ++ payloads.flatMap Payload.bytes))) := by
  have hclear := xdrmemstreamClear_encoding (e.pool, e.con.xdrs) hfault
  have hpool := xdrmemstreamClear_bufferSize (e.pool, e.con.xdrs)
  simp only [encodeMessage, clearStream, setMem] at henc
  generalize xdrmemstreamClear (e.pool, e.con.xdrs) = m₀ at hclear hpool henc
  obtain ⟨pool₀, s₀⟩ := m₀
  dsimp only at hclear hpool henc
  rcases hput : memStreamPutLong (pool₀, s₀) 0x80000000 with ⟨ok₁, pool₁, s₁⟩
  obtain ⟨henc₁, hsz₁⟩ := memStreamPutLong_encoding hclear hpool hsize (by simp) _ hput
  simp only [hput] at henc
  cases ok₁ with
  | false =>
    obtain ⟨rfl, rfl⟩ := Prod.mk.inj henc
    exact ⟨⟨rfl, rfl, rfl, rfl, hsz₁, _, henc₁⟩, by simp⟩
  | true =>
    simp only [↓reduceIte, List.nil_append] at henc₁
    rcases hhead : h.xdrEncode (pool₁, s₁) with ⟨ok₂, pool₂, s₂⟩
    obtain ⟨hsz₂, ⟨cs, henc₂⟩, happ⟩ := xdrEncode_encoding hwords henc₁ hsz₁ hsize (by simp) hhead
    simp only [hhead] at henc
    cases ok₂ with
    | false =>
      obtain ⟨rfl, rfl⟩ := Prod.mk.inj henc
      exact ⟨⟨rfl, rfl, rfl, rfl, hsz₂, _, henc₂⟩, by simp⟩
    | true =>
      rcases hfold : payloads.foldl (fun r p => if r.1 then p.xdrEncode r.2 else r)
        ((true, pool₂, s₂) : Bool × Mem) with ⟨ok₃, m₃⟩
      have hdvd : 4 ∣ (BigEndian.encode 0x80000000 ++ msg.bytes).length := by
        rw [List.length_append, RpcMessage.bytes, wireBytes_length, BigEndian.encode_length]
        omega
      obtain ⟨hsz₃, hsome, hall⟩ := foldl_xdrEncode_encoding (happ rfl) hsz₂ hsize hdvd hfold
      simp only [hfold] at henc
      obtain ⟨rfl, rfl⟩ := Prod.mk.inj henc
      refine ⟨⟨rfl, rfl, rfl, rfl, hsz₃, hsome⟩, fun hok => ?_⟩
      rw [← List.append_assoc]
      exact hall hok

theorem Sends.of_encoded {e₁ : Endpoint} {record : List UInt8} (h : e.Encoded e₁)
    (hs : e₁.Sends size e' record) : e.Sends size e' record :=
  ⟨hs.socket.trans h.socket, by rw [hs.trace, h.trace], hs.cnxType.trans h.cnxType, hs.bufferSize,
    hs.state, hs.fragmentState, hs.remainingLen, hs.stream⟩

theorem Restarted.of_encoded {e₁ : Endpoint} (h : e.Encoded e₁) (hr : e₁.Restarted e') :
    e.Restarted e' := by
  obtain ⟨cs, hcs⟩ := h.stream
  refine ⟨hr.socket.trans h.socket, hr.trace.trans h.trace, hr.cnxType.trans h.cnxType,
    hr.bufferSize.trans h.bufferSize, hr.fragmentState, hr.remainingLen, hr.ptr, fun _ => ?_⟩
  rw [← h.bufferSize]
  exact hr.stream hcs.fault

/-- The body of a reply to the call with this transaction id. -/
def replyBody (xid : UInt32) (payloads : List Payload) : List UInt8 :=
  (RpcMessage.accepted xid .success rfl).bytes ++ payloads.flatMap Payload.bytes

/-- A reply is queued as a whole, or the connection is reset. -/
theorem sendMessage_cases (payloads : List Payload) (hdead : e.con.state ≠ .dead)
    (hfault : e.con.xdrs.fault = false) (hsize : LegalSize e.pool.memStreamBufferSize) :
    e.Sends e.pool.memStreamBufferSize (e.sendMessage payloads)
        (sentRecord (BigEndian.encode 0x80000000 ++ replyBody e.con.rpcHeader.xid payloads)) ∨
      ∃ e₁, e.Encoded e₁ ∧ e.sendMessage payloads = e₁.reset.2 := by
  rcases henc : e.encodeMessage e.con.rpcHeader.acceptCall payloads with ⟨ok, e₁⟩
  obtain ⟨hencoded, hstream⟩ := encodeMessage_encoded hfault hsize (words_acceptCall _) henc
  simp only [sendMessage, hdead, ↓reduceIte, henc]
  cases ok with
  | false => exact Or.inr ⟨e₁, hencoded, rfl⟩
  | true =>
    have hsends := enterSendingState_sends (hstream rfl) hencoded.bufferSize hsize
      (by rw [List.length_append, BigEndian.encode_length]; omega)
    exact Or.inl (hsends.of_encoded hencoded)

/-- The reply to a call that cannot be decoded. -/
def decodeErrorReply (xid : UInt32) : RpcMessage := .accepted xid .garbageArgs rfl

theorem decodeErrorReply_length (xid : UInt32) : (decodeErrorReply xid).bytes.length = 24 := by
  simp [decodeErrorReply, RpcMessage.bytes, RpcMessage.words]

/-- With a complete record, a server connection becomes ready, or an error reply is queued: this one
without a place for the fragment header. -/
theorem receiveMessage_cases {bs : List UInt8} (htype : e.con.cnxType = .server)
    (henc : e.con.xdrs.Encoding size bs) (hpool : e.pool.memStreamBufferSize = size)
    (hsize : LegalSize size) :
    let r := e.con.rpcHeader.xdrDecode.run (xdrmemstreamRewind (e.pool, e.con.xdrs) .decode).2
    r.2.fault = false ∧ r.2.op = .decode ∧
      (r.1.1 = true ∧ e.receiveMessage.2 = { e with
          con := { e.con with xdrs := r.2, rpcHeader := r.1.2, state := .ready }
          trace := e.trace ++ [.message bs] } ∨
        r.1.1 = false ∧ (e.note (.message bs)).Sends size e.receiveMessage.2
          (sentRecord (decodeErrorReply e.receiveMessage.2.con.rpcHeader.xid).bytes)) := by
  subst hpool
  obtain ⟨hpool', -, frags, hlaid, hdec⟩ := xdrmemstreamRewind_encoding henc rfl hsize
  obtain ⟨first, rest, hchain, -⟩ := hdec.at_start hsize
  have hcontents := hdec.contents_eq hlaid
  dsimp only
  rcases hm : xdrmemstreamRewind (e.pool, e.con.xdrs) .decode with ⟨pool₁, xdrs₁⟩
  simp only [hm] at hpool' hchain hcontents hdec
  subst hpool'
  have hfault := (xdrDecode_givesUp (h := e.con.rpcHeader)).run_fault (s := xdrs₁)
    ⟨hdec.fault, by simp [hchain]⟩
  have hop := (e.con.rpcHeader.xdrDecode.run_op xdrs₁).trans hdec.op
  rcases hrun : e.con.rpcHeader.xdrDecode.run xdrs₁ with ⟨⟨ok, h⟩, xdrs₂⟩
  rw [hrun] at hfault hop
  refine ⟨hfault, hop, ?_⟩
  cases ok with
  | true =>
    refine Or.inl ⟨rfl, ?_⟩
    simp only [receiveMessage, hm, setMem, note, hcontents, hrun, htype, ↓reduceIte, setState]
  | false =>
    refine Or.inr ⟨rfl, ?_⟩
    have hclear := xdrmemstreamClear_encoding (e.pool, xdrs₂) hfault
    have hsz := xdrmemstreamClear_bufferSize (e.pool, xdrs₂)
    simp only [receiveMessage, hm, setMem, note, hcontents, hrun, htype, ↓reduceIte, setState,
      clearStream, Bool.false_eq_true]
    generalize xdrmemstreamClear (e.pool, xdrs₂) = m at hclear hsz ⊢
    obtain ⟨pool, xdrs⟩ := m
    dsimp only at hclear hsz ⊢
    have hroom : 40 ≤ xdrs.handy := by
      obtain ⟨k, hk, -⟩ := hclear.length_eq
      have := hclear.room
      have := hsize.large
      simp only [List.length_nil] at hk
      omega
    have hok := xdrEncode_ok pool (words_setDecodeError h) hroom
    rcases hput : h.setDecodeError.xdrEncode (pool, xdrs) with ⟨ok, pool', xdrs'⟩
    rw [hput] at hok
    obtain rfl : ok = true := hok
    obtain ⟨hsz', -, henc'⟩ := xdrEncode_encoding (words_setDecodeError h) hclear hsz
      hsize (by simp) hput
    have hsends := enterSendingState_sends (e := { e with
      pool := pool', trace := e.trace ++ [.message bs]
      con := { e.con with
        cnxType := .server, rpcHeader := h.setDecodeError, state := .sending, xdrs := xdrs' } })
      (henc' rfl) hsz' hsize (by simp [RpcMessage.bytes, RpcMessage.words])
    exact ⟨hsends.socket, hsends.trace, hsends.cnxType.trans htype.symm, hsends.bufferSize,
      hsends.state, hsends.fragmentState, hsends.remainingLen, hsends.stream⟩

end Endpoint

end AcpltKs
