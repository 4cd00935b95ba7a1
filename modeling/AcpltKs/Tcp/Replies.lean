import AcpltKs.Tcp.Framing

/-! What a server connection writes: whole records one after the other, as long as nothing drops a
record of which a part has been written. -/
namespace AcpltKs
open RecordMarking GuardedRun

namespace Endpoint
variable {e e' : Endpoint} {size : ℕ} {r : Reader}

/-- The records that were to be sent, in order. -/
def queuedRecords (e : Endpoint) : List (List UInt8) :=
  e.trace.filterMap fun
    | .queued record => some record
    | _ => none

/-- Some of the queued records, in order, each one a complete record. -/
def Queued (e : Endpoint) (sent : List (List UInt8)) : Prop :=
  List.Sublist sent e.queuedRecords ∧ ∀ record ∈ sent, ∃ body, IsRecord record body

/-- What has been written is the beginning of complete records in a row. -/
def WritesRecords (e : Endpoint) : Prop :=
  ∃ sent, e.Queued sent ∧ e.socket.written <+: sent.flatten

/-- If a record is being sent, nothing of it has been written. -/
def Untouched (e : Endpoint) : Prop :=
  e.con.state = .sending →
    ∃ record, e.trace.getLast? = some (.queued record) ∧ e.con.remainingLen = record.length

/-- The connection lives, the event drops no record of which a part has been written, and a reply is
short enough for the length field of its record. -/
def KeepsRecords (e : Endpoint) (ev : Event) : Prop :=
  e.con.state ≠ .dead ∧
    match ev with
    | .timedOut | .reset => e.Untouched
    | .sendPingReply | .sendErrorReply .. | .sendReply .. => e.Untouched ∧
        ∀ payloads, ev.payloads = some payloads →
          (replyBody e.con.rpcHeader.xid payloads).length < 2 ^ 31
    | _ => True

/-- Before the record that is being sent, whole records have been written. -/
structure Records (size : ℕ) (e : Endpoint) (r : Reader) : Prop where
  consistent : e.Consistent size r
  writes : e.WritesRecords
  whole : e.con.state ≠ .dead → e.con.state ≠ .sending →
    ∃ sent, e.Queued sent ∧ e.socket.written = sent.flatten
  partly : e.con.state = .sending → ∃ sent record,
    e.trace.getLast? = some (.queued record) ∧ e.Queued (sent ++ [record]) ∧
      e.con.remainingLen ≤ record.length ∧
      e.socket.written = sent.flatten ++ record.take (record.length - e.con.remainingLen)

theorem queuedRecords_of_trace {os : List Observation} (h : e'.trace = e.trace ++ os) :
    e'.queuedRecords = e.queuedRecords ++ os.filterMap fun
      | .queued record => some record
      | _ => none := by
  rw [queuedRecords, h, List.filterMap_append]
  rfl

theorem Noted.queuedRecords {p : Phase} {bs : List UInt8} (h : e.Noted e' p bs) :
    e'.queuedRecords = e.queuedRecords := by
  rcases h with hsame | ⟨got, cs, -, -, -, hnew⟩
  · rw [Endpoint.queuedRecords, hsame, Endpoint.queuedRecords]
  · simpa using queuedRecords_of_trace hnew

theorem Queued.of_append {sent sent' : List (List UInt8)} (h : e.Queued (sent ++ sent')) :
    e.Queued sent :=
  ⟨(List.sublist_append_left _ _).trans h.1,
    fun record hmem => h.2 record (List.mem_append_left _ hmem)⟩

theorem Queued.of_trace {sent : List (List UInt8)} {os : List Observation} (h : e.Queued sent)
    (htrace : e'.trace = e.trace ++ os) : e'.Queued sent :=
  ⟨by rw [queuedRecords_of_trace htrace]; exact h.1.trans (List.sublist_append_left _ _), h.2⟩

theorem Queued.of_noted {sent : List (List UInt8)} {p : Phase} {bs : List UInt8}
    (h : e.Queued sent) (hnoted : e.Noted e' p bs) : e'.Queued sent :=
  ⟨hnoted.queuedRecords ▸ h.1, h.2⟩

/-- Whole records have been written, and so it stays while nothing is sent. -/
theorem Records.of_whole {sent : List (List UInt8)} (hconsistent : e'.Consistent size r)
    (hsent : e'.Queued sent) (hwritten : e'.socket.written = sent.flatten)
    (hstate : e'.con.state ≠ .sending) : Records size e' r :=
  ⟨hconsistent, ⟨sent, hsent, by rw [hwritten]⟩, fun _ _ => ⟨sent, hsent, hwritten⟩,
    fun h => absurd h hstate⟩

/-- A record is queued behind whole ones. -/
theorem Sends.records {record body : List UInt8} {sent : List (List UInt8)}
    (h : e.Sends size e' record) (hconsistent : e'.Consistent size r) (hsent : e.Queued sent)
    (hwritten : e.socket.written = sent.flatten) (hrecord : IsRecord record body) :
    Records size e' r := by
  have hwritten' : e'.socket.written = sent.flatten := by rw [h.socket, hwritten]
  have hrem : e'.con.remainingLen = record.length := by
    rw [h.remainingLen, Nat.mod_eq_of_lt hrecord.length_lt]
  refine ⟨hconsistent, ⟨sent, hsent.of_trace h.trace, by rw [hwritten']⟩,
    fun _ hs => absurd h.state hs, fun _ => ?_⟩
  refine ⟨sent, record, by simp [h.trace], ⟨?_, ?_⟩, hrem.le, by simp [hwritten', hrem]⟩
  · rw [queuedRecords_of_trace h.trace]
    exact hsent.1.append (List.Sublist.refl _)
  · intro record' hmem
    rcases List.mem_append.mp hmem with hmem | hmem
    · exact hsent.2 record' hmem
    · exact ⟨body, List.mem_singleton.mp hmem ▸ hrecord⟩

/-- Where a record is dropped, nothing of it has been written. -/
theorem Records.untouched (h : Records size e r) (hdead : e.con.state ≠ .dead)
    (hu : e.Untouched) : ∃ sent, e.Queued sent ∧ e.socket.written = sent.flatten := by
  by_cases hs : e.con.state = .sending
  · obtain ⟨sent, record, hlast, hsent, -, hwritten⟩ := h.partly hs
    obtain ⟨record', hlast', hrem⟩ := hu hs
    obtain rfl : record = record' := by simpa using hlast.symm.trans hlast'
    exact ⟨sent, hsent.of_append, by simpa [hrem] using hwritten⟩
  · exact h.whole hdead hs

theorem KeepsRecords.reply {ev : Event} {payloads : List Payload} (h : e.KeepsRecords ev)
    (hev : ev.payloads = some payloads) :
    e.Untouched ∧ (replyBody e.con.rpcHeader.xid payloads).length < 2 ^ 31 := by
  cases ev <;> first | exact ⟨h.2.1, h.2.2 payloads hev⟩ | simp [Event.payloads] at hev

theorem Receives.not_sending (h : e.Receives) : e.con.state ≠ .sending := by
  rcases h with h | h | h <;> simp [h]

/-- The records behind the decoding of a message. -/
theorem Delivers.records {body : List UInt8} {sent : List (List UInt8)}
    (h : Delivers size e e' body) (hconsistent : e'.Consistent size r) (hsent : e.Queued sent)
    (hwritten : e.socket.written = sent.flatten) : Records size e' r := by
  cases h with
  | ready socket trace state =>
    exact .of_whole hconsistent (hsent.of_trace trace) (by rw [socket, hwritten]) (by simp [state])
  | refused sends =>
    have hrecord := sentRecord_isRecord (decodeErrorReply e'.con.rpcHeader.xid).bytes
      (by simp [decodeErrorReply_length])
    have hnote : (e.note (.message body)).trace = e.trace ++ [.message body] := rfl
    exact sends.records hconsistent (hsent.of_trace hnote) hwritten hrecord

/-- One event. -/
theorem Records.after {ev : Event} (h : Records size e r) (hsize : LegalSize size)
    (hguard : e.KeepsRecords ev) : ∃ r', Records size (e.step ev) r' := by
  by_cases hfault : e.con.xdrs.fault = true
  · exact ⟨r, by rwa [step_of_fault hfault]⟩
  · have hdead := hguard.1
    obtain ⟨r', heffect, hconsistent⟩ :=
      step_effect ev h.consistent hsize hdead (by simpa using hfault)
    refine ⟨r', ?_⟩
    generalize e.step ev = e' at heffect hconsistent
    cases heffect with
    | stays socket trace state remainingLen =>
      have hqueued : ∀ sent, e'.Queued sent ↔ e.Queued sent := fun sent => by
        rw [Queued, queuedRecords, trace, Queued, queuedRecords]
      refine ⟨hconsistent, ?_, ?_, ?_⟩
      · simpa only [WritesRecords, hqueued, socket] using h.writes
      · simpa only [hqueued, socket, state] using h.whole
      · simpa only [hqueued, socket, state, trace, remainingLen] using h.partly
    | feeds sys bs event before reads noted state done =>
      obtain ⟨sent, hsent, hwritten⟩ := h.whole hdead before.not_sending
      exact .of_whole hconsistent (hsent.of_noted noted) (by rw [reads.written, hwritten])
        (by simp [state])
    | delivers sys bs body event before reads noted feed delivered =>
      obtain ⟨sent, hsent, hwritten⟩ := h.whole hdead before.not_sending
      exact delivered.records hconsistent (hsent.of_noted noted) (by rw [reads.written, hwritten])
    | redelivers sys event state delivered =>
      obtain ⟨sent, hsent, hwritten⟩ := h.whole hdead (by simp [state])
      exact delivered.records hconsistent hsent hwritten
    | breaks bs reads noted state =>
      obtain ⟨sent, hsent, hwritten⟩ := h.writes
      exact ⟨hconsistent, ⟨sent, hsent.of_noted noted, reads.written ▸ hwritten⟩,
        fun hd => absurd state hd, by simp [state]⟩
    | exhausted sys bs event before enomem reads noted state =>
      obtain ⟨sent, hsent, hwritten⟩ := h.whole hdead before.not_sending
      refine .of_whole hconsistent (hsent.of_noted noted) (by rw [reads.written, hwritten]) ?_
      rcases before with hs | hs | hs <;> simp [state, hs, resetState]
    | restarts cause socket trace state =>
      have huntouched : e.Untouched := by
        rcases cause with rfl | rfl | ⟨payloads, hev⟩ | ⟨sys, rfl, hs⟩
        · exact hguard.2
        · exact hguard.2
        · exact (KeepsRecords.reply hguard hev).1
        · exact fun h => by simp [hs] at h
      obtain ⟨sent, hsent, hwritten⟩ := h.untouched hdead huntouched
      refine .of_whole hconsistent (hsent.of_trace (trace.trans (List.append_nil _).symm))
        (by rw [socket, hwritten]) ?_
      rcases state with ⟨-, hs⟩ | hs
      · simp [hs]
      · cases hstate : e.con.state <;> simp [hs, hstate, resetState]
    | queues payloads event sends =>
      obtain ⟨huntouched, hshort⟩ := KeepsRecords.reply hguard event
      obtain ⟨sent, hsent, hwritten⟩ := h.untouched hdead huntouched
      exact sends.records hconsistent hsent hwritten ((sentRecord_isRecord_iff _ _).mpr hshort)
    | writes sys record pos n event state queued position incoming consumed written trace enough
        state' =>
      obtain ⟨sent, record', hlast, hsent, hrem, hwritten⟩ := h.partly state
      obtain rfl : record = record' := by simpa using queued.symm.trans hlast
      obtain ⟨body, hrecord⟩ := hsent.2 record (by simp)
      rw [Nat.mod_eq_of_lt hrecord.length_lt] at position
      have hpos : record.length - e.con.remainingLen = pos := by omega
      have hsent' : e'.Queued (sent ++ [record]) :=
        hsent.of_trace (trace.trans (List.append_nil _).symm)
      have hwritten' : e'.socket.written = sent.flatten ++ record.take (pos + n) := by
        rw [written, hwritten, hpos, List.take_add, List.append_assoc]
      have hwrites : e'.WritesRecords := by
        refine ⟨_, hsent', ?_⟩
        rw [hwritten', List.flatten_append, List.flatten_singleton]
        exact List.prefix_append_right_inj _ |>.mpr (List.take_prefix _ _)
      rcases state' with ⟨hs, -⟩ | ⟨hs, hleft⟩ | ⟨hs, hall⟩
      · exact ⟨hconsistent, hwrites, fun hd => absurd hs hd, by simp [hs]⟩
      · refine ⟨hconsistent, hwrites, fun _ hn => absurd hs hn, fun _ => ?_⟩
        refine ⟨sent, record, trace ▸ hlast, hsent', by omega, ?_⟩
        rw [hwritten', show record.length - e'.con.remainingLen = pos + n by omega]
      · refine .of_whole hconsistent hsent' ?_ (by simp [hs])
        rw [hwritten', List.flatten_append, List.flatten_singleton,
          List.take_of_length_le (by omega)]

end Endpoint

/-- In every run of a server connection whose events drop no record of which a part has been
written, it writes whole records one after the other. -/
theorem writesRecords_of_keepsRecords {raw con : KssTCPXDRConnection} {pool pool' : Pool}
    {info : Option ℕ} {nonblocking connecting : Bool} (incoming : List UInt8)
    (hsize : LegalSize pool.memStreamBufferSize)
    (hcreate : KssTCPXDRConnection.create raw pool info nonblocking connecting .server =
      (some con, pool')) (es : List Event)
    (hes : Along Endpoint.step Endpoint.KeepsRecords (.opened con pool' incoming) es) :
    (run Endpoint.step (.opened con pool' incoming) es).WritesRecords := by
  have hconsistent := create_consistent incoming hcreate
  have hstate : con.state ≠ .sending := by
    rw [create_state hcreate]
    split <;> simp
  have hstart : Endpoint.Records pool.memStreamBufferSize (.opened con pool' incoming) {} :=
    .of_whole hconsistent ⟨List.nil_sublist _, by simp⟩ rfl hstate
  obtain ⟨r, hend⟩ := run_invariant
    (I := fun e => ∃ r, Endpoint.Records pool.memStreamBufferSize e r)
    (fun e ev ⟨r, h⟩ hguard => h.after hsize hguard) ⟨_, hstart⟩ hes
  exact hend.writes

/-- A peer that sends two calls. -/
def pingingPeer : List UInt8 :=
  [1, 2].flatMap fun xid => record [(RpcMessage.call xid 1 1 0).bytes]

/-- A reply of which three bytes have been written is dropped, and another one is sent. -/
def timedOutWithinReply : List Event :=
  [.receive { outcomes := [.transfers 4, .transfers 64] }, .sendPingReply,
    .send { outcomes := [.transfers 3] }, .timedOut,
    .receive { outcomes := [.transfers 4, .transfers 64] }, .sendPingReply,
    .send { outcomes := [.transfers 64] }]

theorem not_writesRecords_timedOut :
    Along Endpoint.step (fun e _ => e.con.state ≠ .dead) (.started pingingPeer)
        timedOutWithinReply ∧
      (run Endpoint.step (.started pingingPeer) timedOutWithinReply).con.state ≠ .dead ∧
      ¬ (run Endpoint.step (.started pingingPeer) timedOutWithinReply).WritesRecords := by
  refine ⟨⟨by decide, by decide, by decide, by decide, by decide, by decide, by decide, trivial⟩,
    by decide, ?_⟩
  rintro ⟨sent, ⟨hsent, -⟩, hwritten⟩
  have hall : ∀ sent ∈ (run Endpoint.step (.started pingingPeer)
      timedOutWithinReply).queuedRecords.sublists, ¬ (run Endpoint.step (.started pingingPeer)
        timedOutWithinReply).socket.written <+: sent.flatten := by decide
  exact hall sent (List.mem_sublists.mpr hsent) hwritten

/-- A reply written in two parts, and a timeout while nothing is sent. -/
theorem writesRecords_two_writes :
    (run Endpoint.step (.started pingingPeer)
      [.receive { outcomes := [.transfers 4, .transfers 64] }, .sendPingReply,
        .send { outcomes := [.transfers 3] }, .send { outcomes := [.transfers 64] },
        .timedOut]).WritesRecords := by
  refine @writesRecords_of_keepsRecords zeroedConnection _
    (Pool.initial fun _ => some fun _ => 0) _ (some 0) true false _ legalSize_default rfl _
    ⟨⟨by decide, trivial⟩, ⟨by decide, ⟨?_, ?_⟩⟩, ⟨by decide, trivial⟩, ⟨by decide, trivial⟩,
      ⟨by decide, ?_⟩, trivial⟩
  · exact fun h => absurd h (by decide)
  · rintro payloads ⟨⟩
    decide
  · exact fun h => absurd h (by decide)

end AcpltKs
