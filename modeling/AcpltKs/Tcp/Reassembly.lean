import AcpltKs.Tcp.Framing

/-! A server connection that is served properly delivers the records of its peer one by one, however
their bytes come in. -/
namespace AcpltKs
open RecordMarking GuardedRun

namespace Endpoint
variable {e e' : Endpoint} {size : ℕ} {r : Reader}

/-- The bodies of the records handed to the RPC decoder. -/
def messages (e : Endpoint) : List (List UInt8) :=
  e.trace.filterMap fun
    | .message body => some body
    | _ => none

/-- The connection is served properly: it receives until a record is complete, answers it, and
sends the answer, over a socket that only makes it wait and with enough fragments. -/
def Serves (e : Endpoint) : Event → Prop
  | .receive sys => (e.con.state = .idle ∨ e.con.state = .receiving) ∧
      (∀ io ∈ sys.outcomes, io.isQuiet = true) ∧ e.receiveMeetsEnomem sys = false
  | .send sys => e.con.state = .sending ∧ ∀ io ∈ sys.outcomes, io.isSteady = true
  | .sendPingReply | .sendErrorReply .. | .sendReply .. => e.con.state = .ready
  | .deserialize _ | .freeStreamMemory | .otherStreams _ => True
  | .timedOut | .reset | .personaNonGrata => False

/-- The event makes the connection ready, or makes it send a reply about a decoding error. -/
def Enters (e : Endpoint) (ev : Event) : Prop :=
  e.con.state ≠ .ready ∧ (e.step ev).con.state = .ready ∨
    (∃ sys, ev = .receive sys) ∧ e.con.state ≠ .sending ∧ (e.step ev).con.state = .sending

/-- The messages delivered are those of the byte-wise reader of what has been consumed. -/
structure Reassembles (size : ℕ) (e : Endpoint) : Prop where
  alive : e.con.state ≠ .dead
  consistent : e.Consistent size (Reader.feedAll {} e.socket.consumed)
  messages : e.messages = (Reader.feedAll {} e.socket.consumed).done

theorem messages_of_trace {os : List Observation} (h : e'.trace = e.trace ++ os) :
    e'.messages = e.messages ++ os.filterMap fun
      | .message body => some body
      | _ => none := by
  rw [messages, h, List.filterMap_append]
  rfl

theorem Noted.messages {p : Phase} {bs : List UInt8} (h : e.Noted e' p bs) :
    e'.messages = e.messages := by
  rcases h with hsame | ⟨got, cs, -, -, -, hnew⟩
  · rw [Endpoint.messages, hsame, Endpoint.messages]
  · simpa using messages_of_trace hnew

theorem Delivers.messages {body : List UInt8} (h : Delivers size e e' body) :
    e'.messages = e.messages ++ [body] ∧ e'.socket = e.socket ∧
      (e'.con.state = .ready ∨ e'.con.state = .sending) := by
  cases h with
  | ready socket trace state => exact ⟨by simpa using messages_of_trace trace, socket, Or.inl state⟩
  | refused sends =>
    refine ⟨?_, sends.socket, Or.inr sends.state⟩
    have htrace : e'.trace = e.trace ++ [.message body, 
        .queued (sentRecord (decodeErrorReply e'.con.rpcHeader.xid).bytes)] := by
      simpa [note] using sends.trace
    simpa using messages_of_trace htrace

theorem Serves.reply {ev : Event} {payloads : List Payload} (h : e.Serves ev)
    (hev : ev.payloads = some payloads) : e.con.state = .ready := by
  cases ev <;> first | exact h | simp [Event.payloads] at hev

/-- One event; if the connection is entered by it, one more message is delivered. -/
theorem Reassembles.after {ev : Event} (h : Reassembles size e) (hsize : LegalSize size)
    (hguard : e.Serves ev) :
    Reassembles size (e.step ev) ∧ (e.step ev).socket.peer = e.socket.peer ∧
      (e.Enters ev → ∃ body, (e.step ev).messages = e.messages ++ [body]) := by
  by_cases hfault : e.con.xdrs.fault = true
  · simp only [Enters, step_of_fault hfault]
    refine ⟨h, trivial, ?_⟩
    rintro (⟨hne, heq⟩ | ⟨-, hne, heq⟩) <;> exact absurd heq hne
  · obtain ⟨r', heffect, hconsistent⟩ :=
      step_effect ev h.consistent hsize h.alive (by simpa using hfault)
    have hreader := h.consistent.reader_eq h.alive
    have hmessages := h.messages
    have halive := h.alive
    have hconsumed : ∀ {s : Socket} {bs}, e.socket.Reads s bs →
        Reader.feedAll {} s.consumed = (Reader.feedAll {} e.socket.consumed).feedAll bs := by
      intro s bs hreads
      rw [hreads.consumed, Reader.feedAll_append]
    have hpeer := heffect.peer
    unfold Enters
    generalize hr : Reader.feedAll {} e.socket.consumed = r at *
    generalize e.step ev = e' at heffect hconsistent hpeer ⊢
    suffices hsuff : e'.con.state ≠ .dead ∧ Reader.feedAll {} e'.socket.consumed = r' ∧
        ((e'.con.state = .ready → e.con.state = .ready) ∧
          ((∃ sys, ev = .receive sys) → e'.con.state = .sending → e.con.state = .sending) ∧
          e'.messages = r.done ∧ r'.done = r.done ∨
        ∃ body, e'.messages = r.done ++ [body] ∧ r'.done = r.done ++ [body]) by
      obtain ⟨halive', hr', hcases⟩ := hsuff
      refine ⟨⟨halive', hr' ▸ hconsistent, ?_⟩, hpeer, fun henter => ?_⟩
      · rw [hr']
        rcases hcases with ⟨-, -, hm, hd⟩ | ⟨body, hm, hd⟩ <;> rw [hm, hd]
      · rcases hcases with ⟨hready, hsending, -⟩ | ⟨body, hm, -⟩
        · rcases henter with ⟨hne, heq⟩ | ⟨hev, hne, heq⟩
          · exact absurd (hready heq) hne
          · exact absurd (hsending hev heq) hne
        · exact ⟨body, by rw [hm, hmessages]⟩
    cases heffect with
    | stays socket trace state =>
      refine ⟨by rwa [state], by rw [socket, hr], Or.inl ⟨by rw [state]; exact id,
        by rw [state]; exact fun _ => id, ?_, rfl⟩⟩
      rw [← hmessages, Endpoint.messages, trace, Endpoint.messages]
    | feeds sys bs event before reads noted state done =>
      exact ⟨by simp [state], hconsumed reads, Or.inl ⟨by simp [state], by simp [state],
        noted.messages.trans hmessages, done⟩⟩
    | delivers sys bs body event before reads noted feed delivered =>
      obtain ⟨hm, hsocket, hstate⟩ := delivered.messages
      refine ⟨by rcases hstate with h | h <;> simp [h], by rw [hsocket, hconsumed reads],
        Or.inr ⟨body, by rw [hm, noted.messages, hmessages], by rw [feed]⟩⟩
    | redelivers sys event state delivered =>
      subst event
      rcases hguard.1 with hs | hs <;> simp [hs] at state
    | breaks bs reads noted state cause =>
      rcases cause with rfl | ⟨sys, rfl, hne⟩ | ⟨sys, rfl, hloud⟩
      · exact hguard.elim
      · exact absurd hguard.1 hne
      · exact absurd hguard.2.1 (hloud hguard.1)
    | exhausted sys bs event before enomem =>
      subst event
      simp [hguard.2.2] at enomem
    | restarts cause socket trace state =>
      have hstate : e.con.state = .ready ∨ e.con.state = .sending := by
        rcases cause with rfl | rfl | ⟨payloads, hev⟩ | ⟨sys, rfl, -⟩
        · exact hguard.elim
        · exact hguard.elim
        · exact Or.inl (hguard.reply hev)
        · exact Or.inr hguard.1
      have hreset : e'.con.state = resetState e.con.state := by
        rcases state with ⟨rfl, -⟩ | hreset
        · exact hguard.elim
        · exact hreset
      have hr' := hreader (by rcases hstate with h | h <;> simp [h])
      refine ⟨?_, by rw [socket, hr, ← hr'], Or.inl ⟨?_, ?_, ?_, rfl⟩⟩
      · rcases hstate with h | h <;> simp [hreset, h, resetState]
      · rcases hstate with h | h <;> simp [hreset, h, resetState]
      · rcases hstate with h | h <;> simp [hreset, h, resetState]
      · rw [← hmessages, Endpoint.messages, trace, Endpoint.messages]
    | queues payloads event sends =>
      have hready := hguard.reply event
      have hr' := hreader (by simp [hready])
      refine ⟨by simp [sends.state], by rw [sends.socket, hr, ← hr'], Or.inl
        ⟨by simp [sends.state], ?_, ?_, rfl⟩⟩
      · rintro ⟨sys, rfl⟩
        simp [Event.payloads] at event
      · simpa [hmessages] using messages_of_trace sends.trace
    | writes sys record pos n event state queued position incoming consumed written trace enough
        state' =>
      subst event
      refine ⟨?_, by rw [consumed, hr], Or.inl ⟨?_, by simp, ?_, rfl⟩⟩
      · rcases state' with ⟨-, hloud⟩ | ⟨hs, -⟩ | ⟨hs, -⟩
        · exact absurd hguard.2 hloud
        · simp [hs]
        · simp [hs]
      · rcases state' with ⟨hs, -⟩ | ⟨hs, -⟩ | ⟨hs, -⟩ <;> simp [hs]
      · rw [← hmessages, Endpoint.messages, trace, Endpoint.messages]

/-- A properly served connection, seen against the records of its peer. -/
theorem Reassembles.records (h : Reassembles size e) {records : List (List (List UInt8))}
    (hrecords : ∀ bodies ∈ records, bodies ≠ [] ∧ ∀ body ∈ bodies, body.length < 2 ^ 31)
    (hpeer : e.socket.peer = records.flatMap record) :
    ∃ k ≤ records.length, e.messages = (records.take k).map List.flatten ∧
      (records.take k).flatMap record <+: e.socket.consumed ∧
      (e.con.state ≠ .receiving → e.socket.consumed = (records.take k).flatMap record) := by
  obtain ⟨k, hk, hdone, hlen⟩ := @Reader.feedAll_records [] _ hrecords _ _ hpeer.symm
  have hfront : (records.take k).flatMap record <+: e.socket.consumed := by
    refine List.prefix_of_prefix_length_le ?_ ⟨e.socket.incoming, hpeer⟩ (by omega)
    refine ⟨(records.drop k).flatMap record, ?_⟩
    rw [← List.flatMap_append, List.take_append_drop]
  refine ⟨k, hk, by simpa [h.messages] using hdone, hfront, fun hstate => ?_⟩
  have hreader := h.consistent.reader_eq h.alive hstate
  have htaken : (Reader.feedAll {} e.socket.consumed).taken = 0 := by rw [hreader]
  exact (hfront.eq_of_length (by omega)).symm

end Endpoint

/-- In every run of a server connection that is served properly, over a peer that sends records, the
connection stays alive and delivers the records one by one, each when it enters the ready state or
answers a decoding error, and with no byte consumed of the record behind it. -/
theorem delivers_records {raw con : KssTCPXDRConnection} {pool pool' : Pool} {info : Option ℕ}
    {connecting : Bool} (hsize : LegalSize pool.memStreamBufferSize)
    {records : List (List (List UInt8))}
    (hrecords : ∀ bodies ∈ records, bodies ≠ [] ∧ ∀ body ∈ bodies, body.length < 2 ^ 31)
    (hcreate : KssTCPXDRConnection.create raw pool info true connecting .server =
      (some con, pool')) (es : List Event)
    (hes : Along Endpoint.step Endpoint.Serves
      (.opened con pool' (records.flatMap record)) es) :
    let e := run Endpoint.step (.opened con pool' (records.flatMap record)) es
    e.con.state ≠ .dead ∧
      ∃ k ≤ records.length, e.messages = (records.take k).map List.flatten ∧
        (records.take k).flatMap record <+: e.socket.consumed ∧
        (e.con.state ≠ .receiving → e.socket.consumed = (records.take k).flatMap record) ∧
        ∀ ev, e.Serves ev → e.Enters ev → ∃ bodies, records[k]? = some bodies ∧
          (e.step ev).messages = e.messages ++ [bodies.flatten] ∧
          (e.step ev).socket.consumed = (records.take (k + 1)).flatMap record := by
  intro e
  have hstart : Endpoint.Reassembles pool.memStreamBufferSize
      (.opened con pool' (records.flatMap record)) := by
    refine ⟨?_, create_consistent _ hcreate, rfl⟩
    rw [Endpoint.opened, create_state hcreate]
    simp
  obtain ⟨hend, hpeer⟩ : Endpoint.Reassembles pool.memStreamBufferSize e ∧
      e.socket.peer = records.flatMap record := run_invariant
    (I := fun e => Endpoint.Reassembles pool.memStreamBufferSize e ∧
      e.socket.peer = records.flatMap record)
    (fun e ev h hguard =>
      have hafter := h.1.after hsize hguard
      ⟨hafter.1, hafter.2.1.trans h.2⟩) ⟨hstart, rfl⟩ hes
  obtain ⟨k, hk, hmessages, hprefix, hall⟩ := hend.records hrecords hpeer
  refine ⟨hend.alive, k, hk, hmessages, hprefix, hall, fun ev hguard henter => ?_⟩
  obtain ⟨hnext, hpeer', hnew⟩ := hend.after hsize hguard
  obtain ⟨body, hbody⟩ := hnew henter
  obtain ⟨k', hk', hmessages', -, hall'⟩ := hnext.records hrecords (hpeer'.trans hpeer)
  have hlen := congrArg List.length (hmessages'.symm.trans hbody)
  rw [hmessages] at hlen
  simp only [List.length_map, List.length_take, List.length_append, List.length_singleton,
    min_eq_left hk, min_eq_left hk'] at hlen
  subst hlen
  have hstate : (e.step ev).con.state ≠ .receiving := by
    rcases henter with ⟨-, h⟩ | ⟨-, -, h⟩ <;> simp [h]
  have hlt : k < records.length := hk'
  refine ⟨records[k], List.getElem?_eq_getElem hlt, ?_, hall' hstate⟩
  rw [hmessages', hmessages, List.take_add_one, List.getElem?_eq_getElem hlt,
    List.map_append]
  rfl

/-- A record of an empty and two other fragments, received in pieces; it holds no RPC header. -/
theorem delivers_records_three_fragments :
    let e := run Endpoint.step (.started ([[[], [1], [2, 3]]].flatMap record))
      [.receive { outcomes := [.transfers 3] },
        .receive { outcomes := [.fails .eintr, .transfers 9, .transfers 1] },
        .receive { outcomes := [.transfers 4, .transfers 9] },
        .receive { outcomes := [.transfers 4, .transfers 1] },
        .receive { outcomes := [.transfers 9] }]
    e.con.state ≠ .dead ∧
      ∃ k ≤ 1, e.messages = (List.take k [[[], [1], [2, 3]]]).map List.flatten ∧
        (List.take k [[[], [1], [2, 3]]]).flatMap record <+: e.socket.consumed ∧
        (e.con.state ≠ .receiving →
          e.socket.consumed = (List.take k [[[], [1], [2, 3]]]).flatMap record) ∧
        ∀ ev, e.Serves ev → e.Enters ev →
          ∃ bodies, [[[], [1], [2, 3]]][k]? = some bodies ∧
            (e.step ev).messages = e.messages ++ [bodies.flatten] ∧
            (e.step ev).socket.consumed =
              (List.take (k + 1) [[[], [1], [2, 3]]]).flatMap record := by
  refine @delivers_records zeroedConnection _ (Pool.initial fun _ => some fun _ => 0) _ (some 0)
    false legalSize_default _ (by decide) rfl _ ⟨⟨Or.inl ?_, ?_, ?_⟩, ⟨Or.inr ?_, ?_, ?_⟩,
      ⟨Or.inr ?_, ?_, ?_⟩, ⟨Or.inr ?_, ?_, ?_⟩, ⟨Or.inr ?_, ?_, ?_⟩, trivial⟩
  all_goals decide

end AcpltKs
