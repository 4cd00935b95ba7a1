import AcpltKs.Tcp.Session

/-! The fragment headers a server connection decodes are those of the peer's stream, as long as
nothing throws the automaton back to a header while a fragment is under way. -/
namespace AcpltKs
open RecordMarking GuardedRun

/-- A new server connection whose peer is going to send `incoming`. -/
def Endpoint.opened (con : KssTCPXDRConnection) (pool : Pool) (incoming : List UInt8) : Endpoint :=
  ⟨pool, ⟨incoming, [], []⟩, con, []⟩

theorem create_consistent {raw con : KssTCPXDRConnection} {pool pool' : Pool} {info : Option ℕ}
    {nonblocking connecting : Bool} (incoming : List UInt8)
    (h : KssTCPXDRConnection.create raw pool info nonblocking connecting .server =
      (some con, pool')) :
    (Endpoint.opened con pool' incoming).Consistent pool.memStreamBufferSize {} := by
  rcases hstream : xdrmemstreamCreate pool info with ⟨_ | xdrs, pool₁⟩
  · simp [KssTCPXDRConnection.create, hstream] at h
  · obtain ⟨henc, hsz⟩ := xdrmemstreamCreate_encoding hstream
    cases nonblocking <;>
      simp only [KssTCPXDRConnection.create, hstream, Bool.not_false, Bool.not_true,
        Bool.false_eq_true, ↓reduceIte, Prod.mk.injEq, Option.some.injEq] at h <;>
      obtain ⟨rfl, rfl⟩ := h
    · exact fun hdead => absurd rfl hdead
    · exact fun _ => ⟨rfl, hsz, rfl, rfl, hsz, rfl, rfl, rfl, henc⟩

/-- A new server connection is idle, or dead if its socket blocks. -/
theorem create_state {raw con : KssTCPXDRConnection} {pool pool' : Pool} {info : Option ℕ}
    {nonblocking connecting : Bool}
    (h : KssTCPXDRConnection.create raw pool info nonblocking connecting .server =
      (some con, pool')) :
    con.state = if nonblocking then .idle else .dead := by
  rcases hstream : xdrmemstreamCreate pool info with ⟨_ | xdrs, pool₁⟩
  · simp [KssTCPXDRConnection.create, hstream] at h
  · cases nonblocking <;>
      simp only [KssTCPXDRConnection.create, hstream, Bool.not_false, Bool.not_true,
        Bool.false_eq_true, ↓reduceIte, Prod.mk.injEq, Option.some.injEq] at h <;>
      rw [← h.1] <;> rfl

namespace Endpoint
variable {e e' : Endpoint} {size : ℕ} {r : Reader}

/-- Every four bytes decoded as a fragment header stand at a fragment boundary of what the peer
sends. -/
def HeadersAtBoundaries (e : Endpoint) : Prop :=
  ∀ offset bytes, Observation.header offset bytes ∈ e.trace →
    Boundary e.socket.peer offset ∧ bytes = (e.socket.peer.drop offset).take 4

/-- The connection lives, and the event does not throw it back to a header while a fragment is
under way: no timeout and no reply unless a header is due, and `ENOMEM` only in the receiving
state, where it is fatal. -/
def KeepsFraming (e : Endpoint) (ev : Event) : Prop :=
  e.con.state ≠ .dead ∧
    match ev with
    | .timedOut | .sendPingReply | .sendErrorReply .. | .sendReply .. =>
        e.con.state = .receiving → e.con.fragmentState = .header ∧ e.con.remainingLen = 4
    | .receive sys =>
        e.con.state = .idle ∨ e.con.state = .ready → e.receiveMeetsEnomem sys = false
    | _ => True

/-- The reader that runs alongside is where the socket is in the peer's stream. -/
structure InSync (size : ℕ) (e : Endpoint) (r : Reader) : Prop where
  consistent : e.Consistent size r
  position : e.con.state ≠ .dead → r.phase.At e.socket.peer e.socket.consumed.length
  headers : e.HeadersAtBoundaries

theorem HeadersAtBoundaries.of_trace (h : e.HeadersAtBoundaries)
    (hpeer : e'.socket.peer = e.socket.peer)
    (htrace : ∀ offset bytes, Observation.header offset bytes ∈ e'.trace →
      Observation.header offset bytes ∈ e.trace) : e'.HeadersAtBoundaries := by
  intro offset bytes hmem
  rw [hpeer]
  exact h offset bytes (htrace offset bytes hmem)

/-- A header that is completed in the right phase stands at a boundary. -/
theorem Noted.headersAtBoundaries {bs : List UInt8} (hnoted : e.Noted e' r.phase bs)
    (h : e.HeadersAtBoundaries) (hreads : e.socket.Reads e'.socket bs)
    (hposition : r.phase.At e.socket.peer e.socket.consumed.length) : e'.HeadersAtBoundaries := by
  rcases hnoted with hsame | ⟨got, cs, hphase, hlen, ⟨rest, hrest⟩, hnew⟩
  · exact h.of_trace hreads.peer fun _ _ hmem => hsame ▸ hmem
  · rw [hphase] at hposition
    obtain ⟨p, hp, hn, hlt, hgot⟩ := hposition
    intro offset bytes hmem
    rw [hreads.peer]
    rw [hnew, List.mem_append, List.mem_singleton, Observation.header.injEq] at hmem
    rcases hmem with hmem | ⟨rfl, rfl⟩
    · exact h offset bytes hmem
    · have hoff : e.socket.consumed.length + cs.length - 4 = p := by omega
      have hdrop : e.socket.peer.drop (p + got.length) = cs ++ (rest ++ e'.socket.incoming) := by
        rw [Socket.peer, ← hn, List.drop_left, hreads.incoming, ← hrest, List.append_assoc]
      refine ⟨hoff ▸ hp, ?_⟩
      rw [hoff, ← hlen, List.take_add, ← hgot, List.drop_drop, hdrop, List.take_left]

theorem position_reads {bs : List UInt8} {s s' : Socket} {p : Phase} (h : s.Reads s' bs)
    (hp : p.At s.peer s.consumed.length) : (p.feedAll bs).At s'.peer s'.consumed.length := by
  have hdrop : s.peer.drop s.consumed.length = bs ++ s'.incoming := by
    rw [Socket.peer, List.drop_left, h.incoming]
  rw [h.peer, h.consumed, List.length_append]
  exact Phase.at_feedAll hp hdrop

theorem Delivers.headersAtBoundaries {body : List UInt8} (h : Delivers size e e' body)
    (hheaders : e.HeadersAtBoundaries) :
    e'.HeadersAtBoundaries ∧ e'.socket = e.socket := by
  cases h with
  | ready socket trace =>
    refine ⟨hheaders.of_trace (by rw [socket]) fun _ _ hmem => ?_, socket⟩
    simpa [trace] using hmem
  | refused sends =>
    have hsocket : e'.socket = e.socket := sends.socket
    refine ⟨hheaders.of_trace (by rw [hsocket]) fun _ _ hmem => ?_, hsocket⟩
    simpa [sends.trace, note] using hmem

/-- Where the guard allows to start over, a fragment begins. -/
theorem InSync.restart {ev : Event} (h : InSync size e r) (hguard : e.KeepsFraming ev)
    (hev : ev = .timedOut ∨ ∃ payloads, ev.payloads = some payloads) :
    (Phase.header []).At e.socket.peer e.socket.consumed.length := by
  obtain ⟨hdead, hguard⟩ := hguard
  have hposition := h.position hdead
  have hheader : e.con.state = .receiving →
      e.con.fragmentState = .header ∧ e.con.remainingLen = 4 := by
    rcases hev with rfl | ⟨payloads, hev⟩
    · exact hguard
    · cases ev <;> first | exact hguard | simp [Event.payloads] at hev
  by_cases hreceiving : e.con.state = .receiving
  · obtain ⟨hstate, hrem⟩ := hheader hreceiving
    obtain ⟨-, -, hrest⟩ := h.consistent hdead
    simp only [hreceiving] at hrest
    cases hp : r.phase with
    | header got =>
      rw [hp] at hrest hposition
      obtain ⟨⟨-, hlt, -, hleft, -⟩, -⟩ := hrest
      obtain rfl : got = [] := List.length_eq_zero_iff.mp (by omega)
      exact hposition
    | body left last =>
      rw [hp] at hrest
      simp [hrest.1.1] at hstate
  · rwa [h.consistent.reader_eq hdead hreceiving] at hposition

/-- One event. -/
theorem InSync.after {ev : Event} (h : InSync size e r) (hsize : LegalSize size)
    (hguard : e.KeepsFraming ev) : ∃ r', InSync size (e.step ev) r' := by
  by_cases hfault : e.con.xdrs.fault = true
  · exact ⟨r, by rwa [step_of_fault hfault]⟩
  · have hdead := hguard.1
    have hposition := h.position hdead
    obtain ⟨r', heffect, hconsistent⟩ :=
      step_effect ev h.consistent hsize hdead (by simpa using hfault)
    generalize e.step ev = e' at heffect hconsistent
    suffices h' : (e'.con.state ≠ .dead →
        r'.phase.At e'.socket.peer e'.socket.consumed.length) ∧ e'.HeadersAtBoundaries from
      ⟨r', hconsistent, h'.1, h'.2⟩
    cases heffect with
    | stays socket trace state =>
      exact ⟨fun _ => socket ▸ hposition, h.headers.of_trace (by rw [socket])
        fun _ _ hmem => trace ▸ hmem⟩
    | feeds sys bs event before reads noted =>
      refine ⟨fun _ => ?_, noted.headersAtBoundaries h.headers reads hposition⟩
      rw [Reader.feedAll_phase]
      exact position_reads reads hposition
    | delivers sys bs body event before reads noted feed delivered =>
      obtain ⟨hheaders, hsocket⟩ := delivered.headersAtBoundaries
        (noted.headersAtBoundaries h.headers reads hposition)
      refine ⟨fun _ => ?_, hheaders⟩
      rw [Reader.feedAll_phase, hsocket]
      exact position_reads reads hposition
    | redelivers sys event state delivered =>
      obtain ⟨hheaders, hsocket⟩ := delivered.headersAtBoundaries h.headers
      exact ⟨fun _ => hsocket ▸ hposition, hheaders⟩
    | breaks bs reads noted state =>
      exact ⟨fun hd => absurd state hd, noted.headersAtBoundaries h.headers reads hposition⟩
    | exhausted sys bs event before enomem reads noted state =>
      refine ⟨fun hd => ?_, noted.headersAtBoundaries h.headers reads hposition⟩
      subst event
      rcases before with hs | hs | hs
      · simp [hguard.2 (Or.inl hs)] at enomem
      · exact absurd (state.trans (by rw [hs, resetState])) hd
      · simp [hguard.2 (Or.inr hs)] at enomem
    | restarts cause socket trace state =>
      refine ⟨fun hd => ?_, h.headers.of_trace (by rw [socket]) fun _ _ hmem => trace ▸ hmem⟩
      rw [socket]
      rcases state with ⟨rfl, -⟩ | hreset
      · exact h.restart hguard (Or.inl rfl)
      · have hreceiving : e.con.state ≠ .receiving := fun hs =>
          hd (hreset.trans (by rw [hs, resetState]))
        rwa [h.consistent.reader_eq hdead hreceiving] at hposition
    | queues payloads event sends =>
      have hsocket : e'.socket = e.socket := sends.socket
      refine ⟨fun _ => hsocket ▸ h.restart hguard (Or.inr ⟨payloads, event⟩),
        h.headers.of_trace (by rw [hsocket]) fun _ _ hmem => ?_⟩
      simpa [sends.trace] using hmem
    | writes sys record pos n event state queued position incoming consumed written trace =>
      have hpeer : e'.socket.peer = e.socket.peer := by
        rw [Socket.peer, Socket.peer, consumed, incoming]
      refine ⟨fun _ => ?_, h.headers.of_trace hpeer fun _ _ hmem => trace ▸ hmem⟩
      rwa [hpeer, consumed]

end Endpoint

/-- In every run of a server connection whose events keep the framing, every header decoded is one
of the peer's. -/
theorem headersAtBoundaries_of_keepsFraming {raw con : KssTCPXDRConnection} {pool pool' : Pool}
    {info : Option ℕ} {nonblocking connecting : Bool} (incoming : List UInt8)
    (hsize : LegalSize pool.memStreamBufferSize)
    (hcreate : KssTCPXDRConnection.create raw pool info nonblocking connecting .server =
      (some con, pool')) (es : List Event)
    (hes : Along Endpoint.step Endpoint.KeepsFraming (.opened con pool' incoming) es) :
    (run Endpoint.step (.opened con pool' incoming) es).HeadersAtBoundaries := by
  have hstart : ∃ r, Endpoint.InSync pool.memStreamBufferSize (.opened con pool' incoming) r :=
    ⟨{}, create_consistent incoming hcreate, fun _ => Phase.at_start _, by
      intro offset bytes hmem
      simp [Endpoint.opened] at hmem⟩
  obtain ⟨r, hend⟩ := run_invariant
    (I := fun e => ∃ r, Endpoint.InSync pool.memStreamBufferSize e r)
    (fun e ev ⟨r, h⟩ hguard => h.after hsize hguard) hstart hes
  exact hend.headers

/-- A new server connection in zeroed memory. -/
def zeroedConnection : KssTCPXDRConnection where
  cnxType := .server
  state := .dead
  xdrs := ⟨.encode, .null ⟨0, fun _ => 0⟩ [], 0, 0, 0, 0, false⟩
  rpcHeader := {}
  lastFragment := false
  fragmentState := .header
  remainingLen := 0
  fragmentHeader := fun _ => 0
  ptr := 0

/-- Such a connection, opened to a peer that is going to send `incoming`. -/
def Endpoint.started (incoming : List UInt8) : Endpoint :=
  let r := KssTCPXDRConnection.create zeroedConnection
    (Pool.initial fun _ => some fun _ => 0) (some 0) true false .server
  .opened (r.1.getD zeroedConnection) r.2 incoming

/-- A peer that announces a body of eight bytes, which look like a header themselves. -/
def deceivingPeer : List UInt8 := [0x80, 0, 0, 8, 0x80, 0, 0, 1, 0, 0, 0, 0]

/-- A timeout within the body, and the body is parsed as a header. -/
def timedOutWithinBody : List Event :=
  [.receive { outcomes := [.transfers 4] }, .timedOut, .receive { outcomes := [.transfers 4] }]

theorem not_headersAtBoundaries_timedOut :
    Along Endpoint.step (fun e _ => e.con.state ≠ .dead) (.started deceivingPeer)
        timedOutWithinBody ∧
      ¬ (run Endpoint.step (.started deceivingPeer) timedOutWithinBody).HeadersAtBoundaries := by
  constructor
  · refine ⟨?_, ?_, ?_, trivial⟩ <;> decide
  · intro h
    have hpeer : (run Endpoint.step (.started deceivingPeer) timedOutWithinBody).socket.peer =
        deceivingPeer := by decide
    have hboundary := (h 4 [0x80, 0, 0, 1] (by decide)).1
    rw [hpeer] at hboundary
    rcases hboundary.first with h4 | h12
    · exact absurd h4 (by decide)
    · exact absurd h12 (by decide)

/-- One record in two reads, and a ping reply. -/
theorem headersAtBoundaries_two_reads :
    (run Endpoint.step (.started [0x80, 0, 0, 4, 1, 2, 3, 4])
      [.receive { outcomes := [.transfers 2] },
        .receive { outcomes := [.transfers 2, .transfers 4] },
        .sendPingReply]).HeadersAtBoundaries := by
  refine @headersAtBoundaries_of_keepsFraming zeroedConnection _
    (Pool.initial fun _ => some fun _ => 0) _ (some 0) true false _ legalSize_default rfl _
    ⟨⟨by decide, ?_⟩, ⟨by decide, ?_⟩, ⟨by decide, ?_⟩, trivial⟩
  · exact fun _ => by decide
  · exact fun _ => by decide
  · exact fun h => absurd h (by decide)

end AcpltKs
