import AcpltKs.Tcp.Messages

/-! The fragment automaton against the byte-wise reader of record marking: whatever a call of
`receive` reads, the automaton takes it as the reader does. -/
namespace AcpltKs
open ByteMemory RecordMarking

/-- The fragment automaton waits for the same bytes as the reader in this phase. -/
def KssTCPXDRConnection.InPhase (con : KssTCPXDRConnection) : Phase → Prop
  | .header got => con.fragmentState = .header ∧ got.length < 4 ∧ con.ptr = got.length ∧
      con.remainingLen = 4 - got.length ∧ read con.fragmentHeader 0 con.ptr = got
  | .body left last => con.fragmentState = .body ∧ 0 < left ∧ con.remainingLen = left ∧
      con.lastFragment = last

/-- The last fragment of a record has been read. -/
def KssTCPXDRConnection.Complete (con : KssTCPXDRConnection) : Prop :=
  con.lastFragment = true ∧ con.remainingLen = 0

/-- The automaton has taken `bs` like the reader: it has either completed a record with it, or
waits for what the reader waits for. -/
def KssTCPXDRConnection.Took (con : KssTCPXDRConnection) (r : Reader) (bs : List UInt8) : Prop :=
  con.Complete ∧ r.feedAll bs = { done := r.done ++ [r.accWith bs] } ∨
    ¬ con.Complete ∧ con.InPhase (r.feedAll bs).phase ∧ (r.feedAll bs).acc = r.accWith bs ∧
      (r.feedAll bs).done = r.done

/-- Reading a part of a fragment header touches neither the stream nor the state. -/
structure Endpoint.HeaderRead (e e' : Endpoint) (r : Reader) (bs : List UInt8) : Prop where
  reads : e.socket.Reads e'.socket bs
  pool : e'.pool = e.pool
  xdrs : e'.con.xdrs = e.con.xdrs
  state : e'.con.state = e.con.state
  cnxType : e'.con.cnxType = e.con.cnxType
  rpcHeader : e'.con.rpcHeader = e.con.rpcHeader
  took : e'.con.Took r bs
  complete : e'.con.Complete → e'.con.fragmentState = .header
  trace : e'.trace = e.trace ∨ ∃ got, r.phase = .header got ∧ got.length + bs.length = 4 ∧
    e'.trace = e.trace ++ [.header (e'.socket.consumed.length - 4) (got ++ bs)]

/-- Reading a part of a body appends it to the stream. -/
structure Endpoint.BodyRead (e e' : Endpoint) (r : Reader) (bs : List UInt8) : Prop where
  reads : e.socket.Reads e'.socket bs
  state : e'.con.state = e.con.state
  cnxType : e'.con.cnxType = e.con.cnxType
  rpcHeader : e'.con.rpcHeader = e.con.rpcHeader
  took : e'.con.Took r bs
  trace : e'.trace = e.trace

theorem KssTCPXDRConnection.InPhase.not_complete {con : KssTCPXDRConnection} {p : Phase}
    (h : con.InPhase p) : ¬ con.Complete := by
  rintro ⟨-, h0⟩
  cases p with
  | header got =>
    obtain ⟨-, hlt, -, hrem, -⟩ := h
    omega
  | body left last =>
    obtain ⟨-, hpos, hrem, -⟩ := h
    omega

theorem KssTCPXDRConnection.InPhase.fragmentState_body {con : KssTCPXDRConnection} {p : Phase}
    (h : con.InPhase p) : con.fragmentState = .body ↔ ∃ left last, p = .body left last := by
  cases p with
  | header got => simp [h.1]
  | body left last => simp [h.1]

/-- A quiet socket does not make a read fail for good. -/
theorem readUninterrupted_ok {ios ios' : List IoOutcome} {sock sock' : Socket} {count : ℕ}
    {bs : List UInt8} (h : Endpoint.readUninterrupted ios sock count = (.ok bs, sock', ios')) :
    sock.Reads sock' bs ∧ bs.length ≤ count ∧
      (count ≠ 0 → (∀ io ∈ ios, io.isQuiet = true) →
        bs ≠ [] ∧ ∀ io ∈ ios', io.isQuiet = true) := by
  induction ios generalizing sock with
  | nil => simp [Endpoint.readUninterrupted] at h
  | cons io ios ih =>
    rcases hr : sock.read count io with ⟨e | cs, sock₁⟩
    · have hsock := Socket.read_error hr
      subst hsock
      cases e with
      | eintr =>
        simp only [Endpoint.readUninterrupted, hr] at h
        obtain ⟨hreads, hlen, hquiet⟩ := ih h
        exact ⟨hreads, hlen, fun h0 hios =>
          hquiet h0 fun io hio => hios io (List.mem_cons_of_mem _ hio)⟩
      | ewouldblock | eagain | econnreset | einval | enomem | eio | epipe | other =>
        simp [Endpoint.readUninterrupted, hr] at h
    · simp only [Endpoint.readUninterrupted, hr, Prod.mk.injEq, Except.ok.injEq] at h
      obtain ⟨rfl, rfl, rfl⟩ := h
      obtain ⟨hreads, hlen⟩ := Socket.read_ok hr
      refine ⟨hreads, hlen, fun h0 hios =>
        ⟨(Socket.read_quiet (hios io List.mem_cons_self) h0).1 cs hr,
          fun io hio => hios io (List.mem_cons_of_mem _ hio)⟩⟩

theorem readUninterrupted_error {ios ios' : List IoOutcome} {sock sock' : Socket} {count : ℕ}
    {errno : Errno}
    (h : Endpoint.readUninterrupted ios sock count = (.error errno, sock', ios')) :
    sock' = sock ∧ (count ≠ 0 → (∀ io ∈ ios, io.isQuiet = true) → errno = .ewouldblock) := by
  induction ios generalizing sock with
  | nil =>
    simp only [Endpoint.readUninterrupted, Prod.mk.injEq, Except.error.injEq] at h
    exact ⟨h.2.1.symm, fun _ _ => h.1.symm⟩
  | cons io ios ih =>
    rcases hr : sock.read count io with ⟨e | cs, sock₁⟩
    · have hsock := Socket.read_error hr
      subst hsock
      cases e with
      | eintr =>
        simp only [Endpoint.readUninterrupted, hr] at h
        obtain ⟨hsame, hquiet⟩ := ih h
        exact ⟨hsame, fun h0 hios =>
          hquiet h0 fun io hio => hios io (List.mem_cons_of_mem _ hio)⟩
      | ewouldblock | eagain | econnreset | einval | enomem | eio | epipe | other =>
        simp only [Endpoint.readUninterrupted, hr, Prod.mk.injEq, Except.error.injEq] at h
        obtain ⟨rfl, rfl, rfl⟩ := h
        refine ⟨rfl, fun h0 hios => ?_⟩
        rcases (Socket.read_quiet (hios io List.mem_cons_self) h0).2 _ hr with h | h <;>
          first | rfl | cases h
    · simp [Endpoint.readUninterrupted, hr] at h

namespace Endpoint
variable {e e' : Endpoint} {r : Reader} {ios ios' : List IoOutcome}

/-- The state after trouble. -/
def failedState (type : ConnectionType) : ConnectionState :=
  if type = .client then .readyFailed else .dead

/-- Where reading a header ends the call, the connection is unchanged or given up. -/
theorem receiveHeader_error {mode : ConnectionIoMode}
    (h : e.receiveHeader ios = (.error mode, e')) :
    e.socket.Reads e'.socket [] ∧ e'.trace = e.trace ∧
      (e' = e ∨ e'.con.state = failedState e.con.cnxType ∧
        (e.con.remainingLen ≠ 0 → ¬ ∀ io ∈ ios, io.isQuiet = true)) := by
  rcases hr : readUninterrupted ios e.socket e.con.remainingLen with ⟨errno | bs, sock, rest⟩
  · obtain ⟨rfl, hquiet⟩ := readUninterrupted_error hr
    simp only [receiveHeader, hr, Prod.mk.injEq] at h
    obtain ⟨-, rfl⟩ := h
    unfold headerError
    split_ifs with hblock
    · exact ⟨.refl _, rfl, Or.inl rfl⟩
    · exact ⟨.refl _, rfl, Or.inr ⟨rfl, fun h0 hios => hblock (hquiet h0 hios)⟩⟩
    · exact ⟨.refl _, rfl, Or.inr ⟨rfl, fun h0 hios => hblock (hquiet h0 hios)⟩⟩
  · obtain ⟨hreads, -, hquiet⟩ := readUninterrupted_ok hr
    cases bs with
    | nil =>
      simp only [receiveHeader, hr, Prod.mk.injEq] at h
      obtain ⟨-, rfl⟩ := h
      exact ⟨hreads, rfl, Or.inr ⟨rfl, fun h0 hios => (hquiet h0 hios).1 rfl⟩⟩
    | cons b bs => simp [receiveHeader, hr] at h

end Endpoint

namespace KssTCPXDRConnection
variable {con : KssTCPXDRConnection} {r : Reader} {got bs : List UInt8}

theorem startHeader_inPhase (con : KssTCPXDRConnection) : con.startHeader.InPhase (.header []) :=
  ⟨rfl, by simp, rfl, rfl, rfl⟩

theorem storeHeader_frame (con : KssTCPXDRConnection) (bs : List UInt8) :
    (con.storeHeader bs).xdrs = con.xdrs ∧ (con.storeHeader bs).state = con.state ∧
      (con.storeHeader bs).cnxType = con.cnxType ∧
      (con.storeHeader bs).rpcHeader = con.rpcHeader ∧
      (con.storeHeader bs).fragmentState = con.fragmentState ∧
      (con.storeHeader bs).ptr = con.ptr + bs.length :=
  ⟨rfl, rfl, rfl, rfl, rfl, rfl⟩

theorem announce_frame (con : KssTCPXDRConnection) (l : UInt32) :
    (con.announce l).xdrs = con.xdrs ∧ (con.announce l).state = con.state ∧
      (con.announce l).cnxType = con.cnxType ∧ (con.announce l).rpcHeader = con.rpcHeader :=
  ⟨rfl, rfl, rfl, rfl⟩

theorem parseHeader_cases (con : KssTCPXDRConnection) :
    let con' := con.announce (BigEndian.decode con.headerBytes)
    con'.remainingLen ≠ 0 ∧ con.parseHeader = { con' with fragmentState := .body } ∨
      con'.remainingLen = 0 ∧ con'.lastFragment = false ∧ con.parseHeader = con'.startHeader ∨
      con'.remainingLen = 0 ∧ con'.lastFragment = true ∧ con.parseHeader = con' := by
  unfold parseHeader
  dsimp only
  split_ifs with hbody hlast
  · exact Or.inl ⟨hbody, rfl⟩
  · exact Or.inr (Or.inl ⟨not_not.mp hbody, hlast, rfl⟩)
  · exact Or.inr (Or.inr ⟨not_not.mp hbody, by simpa using hlast, rfl⟩)

/-- Parsing a header leaves everything but the automaton alone. -/
theorem parseHeader_frame (con : KssTCPXDRConnection) :
    con.parseHeader.xdrs = con.xdrs ∧ con.parseHeader.state = con.state ∧
      con.parseHeader.cnxType = con.cnxType ∧ con.parseHeader.rpcHeader = con.rpcHeader := by
  have hframe := announce_frame con (BigEndian.decode con.headerBytes)
  have hcases := parseHeader_cases con
  dsimp only at hcases
  generalize con.announce (BigEndian.decode con.headerBytes) = con' at hcases hframe
  obtain ⟨-, h⟩ | ⟨-, -, h⟩ | ⟨-, -, h⟩ := hcases <;> rw [h] <;> exact hframe

theorem storeHeader_remainingLen (h : con.InPhase (.header got))
    (hlen : bs.length ≤ con.remainingLen) :
    (con.storeHeader bs).remainingLen = 4 - (got.length + bs.length) := by
  obtain ⟨-, hlt, -, hrem, -⟩ := h
  simp only [storeHeader, subU32_of_le hlen]
  omega

theorem storeHeader_bytes (bs : List UInt8) (h : con.InPhase (.header got)) :
    read (con.storeHeader bs).fragmentHeader 0 (got.length + bs.length) = got ++ bs := by
  obtain ⟨-, -, hptr, -, hgot⟩ := h
  rw [storeHeader, ← hptr, read_write_append, hgot]

/-- Bytes that do not complete the header. -/
theorem storeHeader_took (hr : r.phase = .header got) (h : con.InPhase (.header got))
    (hlen : bs.length ≤ con.remainingLen) (hpart : got.length + bs.length < 4) :
    (con.storeHeader bs).Took r bs := by
  have hfeed := Reader.feedAll_header hr hpart
  have hrem := storeHeader_remainingLen h hlen
  have hphase : (con.storeHeader bs).InPhase (.header (got ++ bs)) := by
    obtain ⟨-, -, -, -, hstate, hptr⟩ := storeHeader_frame con bs
    have hptr' : (con.storeHeader bs).ptr = got.length + bs.length := by rw [hptr, h.2.2.1]
    have hbytes := storeHeader_bytes bs h
    generalize con.storeHeader bs = con' at hstate hptr' hrem hbytes ⊢
    refine ⟨hstate.trans h.1, by simpa using hpart, by simpa using hptr', by simpa using hrem, ?_⟩
    rw [hptr', hbytes]
  refine Or.inr ⟨hphase.not_complete, ?_, ?_, ?_⟩
  · rw [hfeed]
    exact hphase
  · rw [hfeed]
    simp [Reader.accWith, hr]
  · rw [hfeed]

/-- Bytes that complete the header. -/
theorem parseHeader_took (hr : r.phase = .header got) (h : con.InPhase (.header got))
    (hne : bs ≠ []) (hfull : got.length + bs.length = 4) :
    (con.storeHeader bs).headerBytes = got ++ bs ∧
      ((con.storeHeader bs).parseHeader).Took r bs ∧
      ((con.storeHeader bs).parseHeader.Complete →
        (con.storeHeader bs).parseHeader.fragmentState = .header) := by
  have hbytes : (con.storeHeader bs).headerBytes = got ++ bs := by
    rw [headerBytes, ← hfull, storeHeader_bytes bs h]
  have hfeed := Reader.feedAll_header_full hr hne hfull
  have hacc : r.accWith bs = r.acc := by simp [Reader.accWith, hr]
  refine ⟨hbytes, ?_⟩
  have hcases := parseHeader_cases (con.storeHeader bs)
  rw [hbytes] at hcases
  dsimp only at hcases
  have hrem : ((con.storeHeader bs).announce (BigEndian.decode (got ++ bs))).remainingLen =
      bodyLength (BigEndian.decode (got ++ bs)) := rfl
  have hlast : ((con.storeHeader bs).announce (BigEndian.decode (got ++ bs))).lastFragment =
      isLast (BigEndian.decode (got ++ bs)) := rfl
  have hstate : ((con.storeHeader bs).announce (BigEndian.decode (got ++ bs))).fragmentState =
      .header := h.1
  generalize (con.storeHeader bs).announce (BigEndian.decode (got ++ bs)) = con'
    at hcases hrem hlast hstate
  obtain ⟨hbody, h⟩ | ⟨hbody, hlast', h⟩ | ⟨hbody, hlast', h⟩ := hcases
  · have hbody' := hrem ▸ hbody
    simp only [openFragment, hbody', ↓reduceIte, Bool.false_eq_true] at hfeed
    rw [h]
    refine ⟨Or.inr ⟨fun hc => hbody hc.2, ?_, ?_, ?_⟩, fun hc => absurd hc.2 hbody⟩
    · rw [hfeed]
      exact ⟨rfl, Nat.pos_of_ne_zero hbody', hrem, hlast⟩
    · rw [hfeed, hacc]
    · rw [hfeed]
  · simp only [openFragment, hrem ▸ hbody, hlast ▸ hlast', ↓reduceIte,
      Bool.false_eq_true] at hfeed
    rw [h]
    refine ⟨Or.inr ⟨(startHeader_inPhase _).not_complete, ?_, ?_, ?_⟩, fun _ => rfl⟩
    · rw [hfeed]
      exact startHeader_inPhase _
    · rw [hfeed, hacc]
    · rw [hfeed]
  · simp only [openFragment, hrem ▸ hbody, hlast ▸ hlast', ↓reduceIte] at hfeed
    rw [h]
    exact ⟨Or.inl ⟨⟨hlast', hbody⟩, by rw [hfeed, hacc]⟩, fun _ => hstate⟩

/-- Bytes of a body; the automaton goes back to the header where the body ends before the record
does. -/
theorem countBody_took (con : KssTCPXDRConnection) {left : ℕ} {last : Bool}
    (hr : r.phase = .body left last) (hpos : 0 < left)
    (hbody : con.fragmentState = .body) (hlast : con.lastFragment = last)
    (hrem : con.remainingLen + bs.length = left) :
    (if con.remainingLen = 0 ∧ con.lastFragment = false then con.startHeader else con).Took r bs := by
  have hacc : r.accWith bs = r.acc ++ bs := by simp [Reader.accWith, hr]
  by_cases h0 : con.remainingLen = 0
  · have hne : bs ≠ [] := by
      rintro rfl
      simp only [List.length_nil] at hrem
      omega
    have hfeed := Reader.feedAll_body_full hr hne (by omega)
    cases last with
    | false =>
      simp only [Bool.false_eq_true, ↓reduceIte] at hfeed
      simp only [h0, hlast, and_self, ↓reduceIte]
      refine Or.inr ⟨(startHeader_inPhase _).not_complete, ?_, ?_, ?_⟩
      · rw [hfeed]
        exact startHeader_inPhase _
      · rw [hfeed, hacc]
      · rw [hfeed]
    | true =>
      simp only [↓reduceIte] at hfeed
      simp only [hlast, Bool.true_eq_false, and_false, ↓reduceIte]
      exact Or.inl ⟨⟨hlast, h0⟩, by rw [hfeed, hacc]⟩
  · have hfeed := Reader.feedAll_body hr (show bs.length < left by omega)
    simp only [h0, false_and, ↓reduceIte]
    refine Or.inr ⟨fun hc => h0 hc.2, ?_, ?_, ?_⟩
    · rw [hfeed]
      exact ⟨hbody, by omega, by omega, hlast⟩
    · rw [hfeed, hacc]
    · rw [hfeed]

end KssTCPXDRConnection

namespace Endpoint
variable {e e' : Endpoint} {r : Reader} {ios ios' : List IoOutcome}

/-- What is read of a header is taken as the reader takes it. -/
theorem receiveHeader_ok {got : List UInt8} (hr : r.phase = .header got)
    (h : e.con.InPhase (.header got)) (hrec : e.receiveHeader ios = (.ok ios', e')) :
    (∃ bs, e.HeaderRead e' r bs) ∧
      ((∀ io ∈ ios, io.isQuiet = true) → ∀ io ∈ ios', io.isQuiet = true) := by
  rcases hu : readUninterrupted ios e.socket e.con.remainingLen with ⟨errno | bs, sock, rest⟩
  · simp [receiveHeader, hu] at hrec
  · obtain ⟨hreads, hlen, hquiet⟩ := readUninterrupted_ok hu
    cases bs with
    | nil => simp [receiveHeader, hu] at hrec
    | cons b bs =>
      have h0 : e.con.remainingLen ≠ 0 := by
        simp only [List.length_cons] at hlen
        omega
      simp only [receiveHeader, hu, Prod.mk.injEq, Except.ok.injEq] at hrec
      obtain ⟨rfl, rfl⟩ := hrec
      refine ⟨⟨b :: bs, ?_⟩, fun hios => (hquiet h0 hios).2⟩
      have hrem := KssTCPXDRConnection.storeHeader_remainingLen h hlen
      obtain ⟨hxdrs, hstate, htype, hheader, -, -⟩ :=
        KssTCPXDRConnection.storeHeader_frame e.con (b :: bs)
      unfold takeHeader
      by_cases hfull : got.length + (b :: bs).length = 4
      · obtain ⟨hbytes, htook, hcomplete⟩ := KssTCPXDRConnection.parseHeader_took hr h
          (List.cons_ne_nil b bs) hfull
        have hzero : (e.con.storeHeader (b :: bs)).remainingLen = 0 := by omega
        generalize e.con.storeHeader (b :: bs) = con at *
        obtain ⟨hxdrs', hstate', htype', hheader'⟩ := con.parseHeader_frame
        simp only [hzero, ↓reduceIte, hbytes]
        exact ⟨hreads, rfl, hxdrs'.trans hxdrs, hstate'.trans hstate, htype'.trans htype,
          hheader'.trans hheader, htook, hcomplete, Or.inr ⟨got, hr, hfull, rfl⟩⟩
      · have hlt := h.2.1
        have hrem' := h.2.2.2.1
        have hnz : (e.con.storeHeader (b :: bs)).remainingLen ≠ 0 := by omega
        have htook := KssTCPXDRConnection.storeHeader_took hr h hlen (by omega)
        generalize e.con.storeHeader (b :: bs) = con at *
        simp only [hnz, ↓reduceIte]
        exact ⟨hreads, rfl, hxdrs, hstate, htype, hheader, htook, fun hc => absurd hc.2 hnz,
          Or.inl rfl⟩

/-- A header without a byte left to read is not read. -/
theorem remainingLen_ne_zero (hrec : e.receiveHeader ios = (.ok ios', e')) :
    e.con.remainingLen ≠ 0 := by
  intro h0
  rcases hu : readUninterrupted ios e.socket e.con.remainingLen with ⟨errno | bs, sock, rest⟩
  · simp [receiveHeader, hu] at hrec
  · obtain ⟨-, hlen, -⟩ := readUninterrupted_ok hu
    obtain rfl : bs = [] := List.length_eq_zero_iff.mp (by omega)
    simp [receiveHeader, hu] at hrec

/-- What is read of a body is taken as the reader takes it, and appended to the stream. -/
theorem receiveBody_none {size left : ℕ} {last : Bool} {acc : List UInt8}
    (hr : r.phase = .body left last) (h : e.con.InPhase (.body left last))
    (henc : e.con.xdrs.Encoding size acc) (hpool : e.pool.memStreamBufferSize = size)
    (hsize : LegalSize size) (hrec : e.receiveBody ios = (none, e')) :
    ∃ bs, e.BodyRead e' r bs ∧ e'.con.xdrs.Encoding size (acc ++ bs) ∧
      e'.pool.memStreamBufferSize = size := by
  obtain ⟨hbody, hpos, hrem, hlast⟩ := h
  obtain ⟨bs, hreads, hmax⟩ := xdrmemstreamReadFromFd_accounting ios (e.pool, e.con.xdrs)
    e.socket e.con.remainingLen
  obtain ⟨cs, hcs, henc', hsz⟩ := xdrmemstreamReadFromFd_encoding henc hpool hsize ios e.socket
    e.con.remainingLen
  obtain rfl : cs = bs := List.append_cancel_left (hcs.symm.trans hreads.consumed)
  simp only [receiveBody] at hrec
  generalize xdrmemstreamReadFromFd ios (e.pool, e.con.xdrs) e.socket e.con.remainingLen = res
    at hrec hreads hmax henc' hsz
  have htook := KssTCPXDRConnection.countBody_took
    { e.con with xdrs := res.mem.2, remainingLen := res.max } hr hpos hbody hlast
    (hmax.trans hrem)
  dsimp only at htook
  cases hf : res.failure with
  | none =>
    simp only [hf] at hrec
    split_ifs at hrec with h0
    · obtain ⟨-, rfl⟩ := Prod.mk.inj hrec
      rw [if_pos (show res.max = 0 ∧ e.con.lastFragment = false from h0)] at htook
      exact ⟨cs, ⟨hreads, rfl, rfl, rfl, htook, rfl⟩, henc', hsz⟩
    · obtain ⟨-, rfl⟩ := Prod.mk.inj hrec
      rw [if_neg (show ¬ (res.max = 0 ∧ e.con.lastFragment = false) from h0)] at htook
      exact ⟨cs, ⟨hreads, rfl, rfl, rfl, htook, rfl⟩, henc', hsz⟩
  | some errno =>
    simp only [hf] at hrec
    split_ifs at hrec <;> simp at hrec

/-- Does reading the body meet `ENOMEM`, from the quota or from the socket? -/
def bodyMeetsEnomem (e : Endpoint) (ios : List IoOutcome) : Bool :=
  readMeetsEnomem ios e.pool e.con.xdrs.handy e.socket.incoming.length e.con.remainingLen

/-- Where reading a body ends the call, the connection is given up, or it is reset because there
was no fragment to go on with. -/
theorem receiveBody_some {size : ℕ} {acc : List UInt8} {mode : ConnectionIoMode}
    (htype : e.con.cnxType = .server) (hdead : e.con.state ≠ .dead)
    (henc : e.con.xdrs.Encoding size acc) (hpool : e.pool.memStreamBufferSize = size)
    (hsize : LegalSize size) (hrec : e.receiveBody ios = (some mode, e')) :
    (∃ bs, e.socket.Reads e'.socket bs) ∧ e'.trace = e.trace ∧
      (e'.con.state = .dead ∧ ¬ (∀ io ∈ ios, io.isQuiet = true) ∨
        e.bodyMeetsEnomem ios = true ∧ Fresh size e' ∧
          e'.con.state = resetState e.con.state) := by
  obtain ⟨bs, hreads, -⟩ := xdrmemstreamReadFromFd_accounting ios (e.pool, e.con.xdrs)
    e.socket e.con.remainingLen
  obtain ⟨cs, -, henc', hsz⟩ := xdrmemstreamReadFromFd_encoding henc hpool hsize ios e.socket
    e.con.remainingLen
  have hpos : 0 < e.pool.memStreamBufferSize := by
    have := hsize.large
    omega
  have henomem : (xdrmemstreamReadFromFd ios (e.pool, e.con.xdrs) e.socket
      e.con.remainingLen).failure = some .enomem ↔ e.bodyMeetsEnomem ios = true := by
    simpa only [xdrmemstreamReadFromFd, henc.op, ne_eq, not_true_eq_false, ↓reduceIte,
      bodyMeetsEnomem] using
        readFromFdLoop_enomem (s := e.con.xdrs) hpos ios e.socket e.con.remainingLen
  have hquiet : (∀ io ∈ ios, io.isQuiet = true) →
      (xdrmemstreamReadFromFd ios (e.pool, e.con.xdrs) e.socket e.con.remainingLen).failure = none ∨
        (xdrmemstreamReadFromFd ios (e.pool, e.con.xdrs) e.socket
          e.con.remainingLen).failure = some .enomem := by
    simpa only [xdrmemstreamReadFromFd, henc.op, ne_eq, not_true_eq_false, ↓reduceIte] using
      fun hios => readFromFdLoop_quiet henc hpool hsize hios e.socket e.con.remainingLen
  simp only [receiveBody] at hrec
  generalize xdrmemstreamReadFromFd ios (e.pool, e.con.xdrs) e.socket e.con.remainingLen = res
    at hrec hreads henc' hsz henomem hquiet
  cases hf : res.failure with
  | none =>
    simp only [hf] at hrec
    split_ifs at hrec <;> simp at hrec
  | some errno =>
    simp only [hf] at hrec
    split_ifs at hrec with hno
    · obtain ⟨-, rfl⟩ := Prod.mk.inj hrec
      have hmeets := henomem.mp (hf.trans (congrArg some hno.1))
      obtain ⟨hrestart, hstate⟩ := reset_restarted (e := { e.setMem res.mem with
        socket := res.socket, con := { (e.setMem res.mem).con with remainingLen := res.max } })
        hdead htype
      exact ⟨⟨bs, hrestart.socket.symm ▸ hreads⟩, hrestart.trace,
        Or.inr ⟨hmeets, hrestart.fresh htype hsz henc'.fault, hstate⟩⟩
    · obtain ⟨-, rfl⟩ := Prod.mk.inj hrec
      refine ⟨⟨bs, hreads⟩, rfl, Or.inl ⟨by simp [failed, setState, setMem, htype], ?_⟩⟩
      intro hios
      rcases hquiet hios with hnone | henomem'
      · simp [hf] at hnone
      · rw [hf, Option.some.injEq] at henomem'
        exact hno ⟨henomem', htype⟩

/-- The headers noted while `bs` was read: none, or the one it completed. -/
def Noted (e e' : Endpoint) (p : Phase) (bs : List UInt8) : Prop :=
  e'.trace = e.trace ∨ ∃ got cs, p = .header got ∧ got.length + cs.length = 4 ∧ cs <+: bs ∧
    e'.trace = e.trace ++ [.header (e.socket.consumed.length + cs.length - 4) (got ++ cs)]

/-- The bytes `bs` have been read and taken as the reader takes them; what they add to the record
under way is in the stream. -/
structure Fed (size : ℕ) (e e' : Endpoint) (r : Reader) (bs : List UInt8) : Prop where
  reads : e.socket.Reads e'.socket bs
  bufferSize : e'.pool.memStreamBufferSize = size
  state : e'.con.state = e.con.state
  cnxType : e'.con.cnxType = e.con.cnxType
  rpcHeader : e'.con.rpcHeader = e.con.rpcHeader
  noted : e.Noted e' r.phase bs
  taken : (e'.con.Complete ∧ ∃ body, r.feedAll bs = { done := r.done ++ [body] } ∧
      e'.con.xdrs.Encoding size body) ∨
    (¬ e'.con.Complete ∧ e'.con.InPhase (r.feedAll bs).phase ∧ (r.feedAll bs).done = r.done ∧
      e'.con.xdrs.Encoding size (r.feedAll bs).acc)

theorem HeaderRead.fed {size : ℕ} {bs : List UInt8} {got : List UInt8} (h : e.HeaderRead e' r bs)
    (hr : r.phase = .header got) (henc : e.con.xdrs.Encoding size r.acc)
    (hpool : e.pool.memStreamBufferSize = size) : Fed size e e' r bs := by
  have hacc : r.accWith bs = r.acc := by simp [Reader.accWith, hr]
  refine ⟨h.reads, by rw [h.pool, hpool], h.state, h.cnxType, h.rpcHeader, ?_, ?_⟩
  · rcases h.trace with htrace | ⟨got', hr', hlen, htrace⟩
    · exact Or.inl htrace
    · refine Or.inr ⟨got', bs, hr', hlen, List.prefix_rfl, ?_⟩
      rw [htrace, h.reads.consumed, List.length_append]
  · rcases h.took with ⟨hcomplete, hfeed⟩ | ⟨hcomplete, hphase, hacc', hdone⟩
    · exact Or.inl ⟨hcomplete, r.acc, by rw [hfeed, hacc], h.xdrs ▸ henc⟩
    · exact Or.inr ⟨hcomplete, hphase, hdone, by rw [hacc', hacc, h.xdrs]; exact henc⟩

/-- Reading a body behind what was read of the record before. -/
theorem Fed.body {size : ℕ} {bs cs : List UInt8} {left : ℕ} {last : Bool} {e₁ : Endpoint}
    (h : Fed size e e₁ r bs) (hc : ¬ e₁.con.Complete)
    (hphase : (r.feedAll bs).phase = .body left last)
    (hbody : e₁.BodyRead e' (r.feedAll bs) cs)
    (henc : e'.con.xdrs.Encoding size ((r.feedAll bs).acc ++ cs))
    (hpool : e'.pool.memStreamBufferSize = size) : Fed size e e' r (bs ++ cs) := by
  have hacc : (r.feedAll bs).accWith cs = (r.feedAll bs).acc ++ cs := by
    simp [Reader.accWith, hphase]
  refine ⟨h.reads.trans hbody.reads, hpool, hbody.state.trans h.state,
    hbody.cnxType.trans h.cnxType, hbody.rpcHeader.trans h.rpcHeader, ?_, ?_⟩
  · rcases h.noted with htrace | ⟨got, ds, hr, hlen, hprefix, htrace⟩
    · exact Or.inl (hbody.trace.trans htrace)
    · exact Or.inr ⟨got, ds, hr, hlen, hprefix.trans (List.prefix_append _ _),
        hbody.trace.trans htrace⟩
  · obtain ⟨-, -, hdone, -⟩ := h.taken.resolve_left fun hl => hc hl.1
    rw [Reader.feedAll_append]
    rcases hbody.took with ⟨hcomplete, hfeed⟩ | ⟨hcomplete, hphase', hacc', hdone'⟩
    · exact Or.inl ⟨hcomplete, _, by rw [hfeed, hdone], hacc ▸ henc⟩
    · exact Or.inr ⟨hcomplete, hphase', hdone'.trans hdone, by rw [hacc', hacc]; exact henc⟩

/-- Does this call of `receive` meet `ENOMEM` while it reads a body? -/
def receiveMeetsEnomem (e : Endpoint) (sys : SystemCalls) : Bool :=
  if e.con.fragmentState = .header then
    match e.receiveHeader sys.outcomes with
    | (.error _, _) => false
    | (.ok ios, e) => e.con.fragmentState = .body && e.bodyMeetsEnomem ios
  else e.bodyMeetsEnomem sys.outcomes

/-- What a call of `receive` comes to once it has taken the bytes `bs`: it looks whether the record
is complete, the connection is given up, or it is reset because there was no fragment. -/
inductive Received (size : ℕ) (e e' : Endpoint) (r : Reader) (bs : List UInt8)
    (outcomes : List IoOutcome) (enomem : Bool) : Prop
  | fed (e₁ : Endpoint) (h : Fed size e e₁ r bs) (he : e' = e₁.finishReceive.2)
  | dead (reads : e.socket.Reads e'.socket bs) (noted : e.Noted e' r.phase bs)
      (state : e'.con.state = .dead) (loud : ¬ ∀ io ∈ outcomes, io.isQuiet = true)
  | reset (reads : e.socket.Reads e'.socket bs) (noted : e.Noted e' r.phase bs)
      (enomem_eq : enomem = true) (fresh : Fresh size e')
      (state : e'.con.state = resetState e.con.state)

/-- The part of `receive` behind the fragment header. -/
theorem receiveRest_received {size : ℕ} {bs : List UInt8} {e₁ : Endpoint} (ios : List IoOutcome)
    (htype : e.con.cnxType = .server) (hdead : e.con.state ≠ .dead) (h : Fed size e e₁ r bs)
    (hcomplete : e₁.con.Complete → e₁.con.fragmentState = .header) (hsize : LegalSize size) :
    ∃ cs, Received size e (e₁.receiveRest ios).2 r (bs ++ cs) ios
      (e₁.con.fragmentState = .body && e₁.bodyMeetsEnomem ios) := by
  by_cases hbody : e₁.con.fragmentState = .body
  · have hc : ¬ e₁.con.Complete := fun hc => by simp [hcomplete hc] at hbody
    obtain ⟨-, hphase, hdone, henc⟩ := h.taken.resolve_left fun hl => hc hl.1
    obtain ⟨left, last, hp⟩ := hphase.fragmentState_body.mp hbody
    rcases hrec : e₁.receiveBody ios with ⟨_ | mode, e₂⟩
    · obtain ⟨cs, hread, henc', hpool'⟩ :=
        receiveBody_none hp (hp ▸ hphase) henc h.bufferSize hsize hrec
      exact ⟨cs, .fed e₂ (h.body hc hp hread henc' hpool')
        (by simp [receiveRest, hbody, hrec])⟩
    · obtain ⟨⟨cs, hreads⟩, htrace, hend⟩ := receiveBody_some (h.cnxType.trans htype)
        (by rwa [h.state]) henc h.bufferSize hsize hrec
      have hresult : (e₁.receiveRest ios).2 = e₂ := by simp [receiveRest, hbody, hrec]
      have hnoted : e.Noted e₂ r.phase (bs ++ cs) := by
        rcases h.noted with hsame | ⟨got, ds, hr, hlen, hprefix, hnew⟩
        · exact Or.inl (htrace.trans hsame)
        · exact Or.inr ⟨got, ds, hr, hlen, hprefix.trans (List.prefix_append _ _),
            htrace.trans hnew⟩
      rw [hresult]
      rcases hend with ⟨hstate, hloud⟩ | ⟨hmeets, hfresh, hstate⟩
      · exact ⟨cs, .dead (h.reads.trans hreads) hnoted hstate hloud⟩
      · exact ⟨cs, .reset (h.reads.trans hreads) hnoted (by simp [hbody, hmeets]) hfresh
          (h.state ▸ hstate)⟩
  · exact ⟨[], .fed e₁ (by rwa [List.append_nil]) (by simp [receiveRest, hbody])⟩

/-- A call of `receive` while a record is being received, or while the first one is waited for. -/
theorem receive_received {size : ℕ} (htype : e.con.cnxType = .server)
    (hstate : e.con.state = .idle ∨ e.con.state = .receiving ∨ e.con.state = .ready)
    (hphase : e.con.InPhase r.phase) (henc : e.con.xdrs.Encoding size r.acc)
    (hpool : e.pool.memStreamBufferSize = size) (hsize : LegalSize size) (sys : SystemCalls) :
    (e.receive sys).2 = e ∨
      ∃ bs, Received size e (e.receive sys).2 r bs sys.outcomes (e.receiveMeetsEnomem sys) := by
  have hdead : e.con.state ≠ .dead := by rcases hstate with h | h | h <;> simp [h]
  have hpending : e.connectPending sys.soError = none := by
    rcases hstate with h | h | h <;> simp [connectPending, h]
  cases hp : r.phase with
  | header got =>
    rw [hp] at hphase
    have hheader : e.con.fragmentState = .header := hphase.1
    rcases hrec : e.receiveHeader sys.outcomes with ⟨mode | ios, e₁⟩
    · obtain ⟨hreads, htrace, hend⟩ := receiveHeader_error hrec
      have hresult : (e.receive sys).2 = e₁ := by simp [receive, hpending, hheader, hrec]
      rw [hresult]
      rcases hend with hsame | ⟨hstate', hloud⟩
      · exact Or.inl hsame
      · have h0 : e.con.remainingLen ≠ 0 := by
          obtain ⟨-, hlt, -, hrem, -⟩ := hphase
          omega
        refine Or.inr ⟨[], .dead hreads (Or.inl htrace) ?_ (hloud h0)⟩
        simpa [failedState, htype] using hstate'
    · obtain ⟨⟨bs, hread⟩, hquiet⟩ := receiveHeader_ok hp hphase hrec
      have hresult : (e.receive sys).2 = (e₁.receiveRest ios).2 := by
        simp [receive, hpending, hheader, hrec]
      obtain ⟨cs, hreceived⟩ := receiveRest_received ios htype hdead
        (hread.fed hp henc hpool) hread.complete hsize
      refine Or.inr ⟨bs ++ cs, ?_⟩
      rw [hresult]
      have hmeets : e.receiveMeetsEnomem sys =
          (e₁.con.fragmentState = .body && e₁.bodyMeetsEnomem ios) := by
        simp [receiveMeetsEnomem, hheader, hrec]
      rw [hmeets]
      cases hreceived with
      | fed e₂ h he => exact .fed e₂ h he
      | dead reads noted state loud =>
        exact .dead reads noted state fun hios => loud (hquiet hios)
      | reset reads noted enomem fresh state => exact .reset reads noted enomem fresh state
  | body left last =>
    have hbody : e.con.fragmentState = .body := hphase.fragmentState_body.mpr ⟨left, last, hp⟩
    have hfed : Fed size e e r [] := ⟨.refl _, hpool, rfl, rfl, rfl, Or.inl rfl,
      Or.inr ⟨hphase.not_complete, hphase, rfl, henc⟩⟩
    have hresult : (e.receive sys).2 = (e.receiveRest sys.outcomes).2 := by
      simp [receive, hpending, hbody]
    obtain ⟨cs, hreceived⟩ := receiveRest_received sys.outcomes htype hdead hfed
      (fun hc => absurd hc hphase.not_complete) hsize
    refine Or.inr ⟨cs, ?_⟩
    rw [hresult]
    simpa [receiveMeetsEnomem, hbody] using hreceived

end Endpoint

end AcpltKs
