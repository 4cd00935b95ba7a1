import AcpltKs.RpcHeader.Directions
import AcpltKs.Tcp.Output

/-! What a TCP connection makes of a complete record, as a server and as a client. -/
namespace AcpltKs
open GuardedRun

theorem not_mem_of_aligned {size len pos : ℕ} (hsize : 4 ∣ size) (hlen : 4 ∣ len) (hpos : 4 ∣ pos) :
    inFragment size len pos ∉ [1, 2, 3] := by
  have hmod : 4 ∣ pos % size := (Nat.dvd_mod_iff hsize).mpr hpos
  have hrest : 4 ∣ size - pos % size := Nat.dvd_sub hsize hmod
  have hrest' : 4 ∣ len - pos := Nat.dvd_sub hlen hpos
  simp only [inFragment, List.mem_cons, List.not_mem_nil, or_false]
  omega

/-- A record of whole words hands out its own words and no others. -/
theorem yields_iff_prefix {size pos : ℕ} {frags : List Fragment} {body : List UInt8}
    {s : MemStream} (hl : Laid size frags body) (h : s.Decoding size frags pos)
    (hsize : LegalSize size) (hbody : 4 ∣ body.length) (hpos : 4 ∣ pos) (ws : List UInt32) :
    (∃ s', Yields s ws s') ↔ wireBytes ws <+: body.drop pos := by
  induction ws generalizing s pos with
  | nil => exact ⟨fun _ => List.nil_prefix, fun _ => ⟨s, rfl⟩⟩
  | cons w ws ih =>
    rcases hg : memStreamGetLong s with ⟨v, s₁⟩
    have hg' : XdrSource.getLong s = (v, s₁) := hg
    have hfit := not_mem_of_aligned hsize.aligned hbody hpos
    obtain ⟨hroom, rfl, hdec⟩ | ⟨hend, rfl, -⟩ := memStreamGetLong_decoding hl h hsize hfit hg
    · have hrest := ih hdec (Nat.dvd_add hpos (dvd_refl 4))
      have hsplit := BigEndian.eq_encode_append (body.drop pos)
        (by rw [List.length_drop]; omega)
      rw [List.drop_drop] at hsplit
      generalize BigEndian.decode (body.drop pos) = v at hg' hsplit
      rw [hsplit]
      constructor
      · rintro ⟨s', s₂, hlong, hyields⟩
        obtain ⟨hv, rfl⟩ := Prod.mk.inj (hg'.symm.trans hlong)
        obtain rfl := Option.some.inj hv
        exact (List.prefix_append_right_inj _).mpr (hrest.mp ⟨s', hyields⟩)
      · rintro ⟨suffix, hsuffix⟩
        change (BigEndian.encode w ++ wireBytes ws) ++ suffix = _ at hsuffix
        rw [List.append_assoc] at hsuffix
        obtain ⟨hw, hws⟩ := List.append_inj hsuffix rfl
        obtain rfl := BigEndian.encode_injective hw
        obtain ⟨s', hyields⟩ := hrest.mpr ⟨suffix, hws⟩
        exact ⟨s', s₁, hg', hyields⟩
    · constructor
      · rintro ⟨s', s₂, hlong, -⟩
        rw [hg'] at hlong
        cases hlong
      · intro hprefix
        rw [hend, List.drop_length] at hprefix
        have hlen := hprefix.length_le
        simp at hlen

namespace Endpoint

/-- The endpoint in front of the decoder, if the receiving part behind the fragment header completes
a record. -/
def restCompleted (e : Endpoint) (ios : List IoOutcome) : Option Endpoint :=
  let e' := if e.con.fragmentState = .body then
      match e.receiveBody ios with
      | (some _, _) => none
      | (none, e) => some e
    else some e
  e'.filter fun e => e.con.lastFragment = true ∧ e.con.remainingLen = 0

/-- The endpoint in front of the decoder, if a call of `receive` completes a record. -/
def completed (e : Endpoint) (sys : SystemCalls) : Option Endpoint :=
  match e.connectPending sys.soError with
  | some _ => none
  | none =>
      if e.con.fragmentState = .header then
        match e.receiveHeader sys.outcomes with
        | (.error _, _) => none
        | (.ok ios, e) => e.restCompleted ios
      else e.restCompleted sys.outcomes

/-- The stream that the decoder gets. -/
def rewound (e : Endpoint) : MemStream := (xdrmemstreamRewind (e.pool, e.con.xdrs) .decode).2

/-- The bytes of the record -/
def completeRecord (e : Endpoint) : List UInt8 := e.rewound.contents

/-- The connection waits for a message, or is in the middle of one. -/
def Awaits (e : Endpoint) : Prop :=
  e.con.state = .idle ∨ e.con.state = .waiting ∨ e.con.state = .receiving

/-- The message has been refused: with an error reply by a server, and otherwise as a failure. -/
def Refuses (e : Endpoint) : Prop :=
  match e.con.cnxType with
  | .server => e.con.state = .sending ∧ e.con.rpcHeader.IsDecodeError
  | .client => e.con.state = .readyFailed

/-- A call of `receive` makes the connection ready only for a message in the right direction, which
the record it completes carries; any other record is refused. A client waits for the reply to
`xid`. -/
structure RightDirection (e : Endpoint) (xid : UInt32) (sys : SystemCalls) : Prop where
  ready : (e.receive sys).2.con.state = .ready → ∃ e₁, e.completed sys = some e₁ ∧
    Carries e.con.cnxType xid e₁.completeRecord (e.receive sys).2.con.rpcHeader
  refused : ∀ e₁, e.completed sys = some e₁ → (e.receive sys).2.con.state ≠ .ready →
    (e.receive sys).2.Refuses

/-- The record that a call of `receive` completes, if any, does not mislead the connection. -/
def NotMisled (e : Endpoint) (type : ConnectionType) (xid : UInt32) (sys : SystemCalls) : Prop :=
  ∀ e₁, e.completed sys = some e₁ → ¬ Misleads type xid e₁.rewound e₁.completeRecord

variable {e e' e₁ : Endpoint} {size : ℕ} {ios ios' : List IoOutcome} {sys : SystemCalls}
  {bs : List UInt8}

theorem receiveRest_of_completed (h : e.restCompleted ios = some e₁) :
    e.receiveRest ios = e₁.receiveMessage := by
  unfold restCompleted at h
  unfold receiveRest
  split at h
  · rename_i hbody
    rw [if_pos hbody]
    rcases hrec : e.receiveBody ios with ⟨_ | mode, e₂⟩
    · simp only [hrec, Option.filter_eq_some_iff, Option.some.injEq, decide_eq_true_eq] at h
      obtain ⟨rfl, hcomplete⟩ := h
      exact if_pos hcomplete
    · simp [hrec] at h
  · rename_i hbody
    rw [if_neg hbody]
    simp only [Option.filter_eq_some_iff, Option.some.injEq, decide_eq_true_eq] at h
    obtain ⟨rfl, hcomplete⟩ := h
    exact if_pos hcomplete

theorem reset_state_ne_ready (h : e.con.state ≠ .ready) : e.reset.2.con.state ≠ .ready := by
  unfold reset
  cases hstate : e.con.state <;> cases htype : e.con.cnxType <;>
    simp_all [startHeader, clearStream, setMem, setState, KssTCPXDRConnection.startHeader]

theorem failed_state_ne_ready (e : Endpoint) : e.failed.con.state ≠ .ready := by
  unfold failed setState
  cases e.con.cnxType <;> simp

theorem finishReceive_of_not_complete
    (h : ¬ (e.con.lastFragment = true ∧ e.con.remainingLen = 0)) :
    e.finishReceive.2 = e.setState .receiving := congrArg Prod.snd (if_neg h)

theorem receiveBody_not_ready {mode : ConnectionIoMode} (h : e.con.state ≠ .ready)
    (hrec : e.receiveBody ios = (some mode, e')) : e'.con.state ≠ .ready := by
  unfold receiveBody at hrec
  dsimp only at hrec
  split at hrec
  · split at hrec
    · cases hrec
    · cases hrec
  · split at hrec
    · obtain ⟨-, rfl⟩ := Prod.mk.inj hrec
      apply reset_state_ne_ready
      exact h
    · obtain ⟨-, rfl⟩ := Prod.mk.inj hrec
      exact failed_state_ne_ready _

theorem receiveRest_not_ready (h : e.restCompleted ios = none) (hstate : e.con.state ≠ .ready) :
    (e.receiveRest ios).2.con.state ≠ .ready := by
  unfold restCompleted at h
  unfold receiveRest
  split at h
  · rename_i hbody
    rw [if_pos hbody]
    rcases hrec : e.receiveBody ios with ⟨_ | mode, e₂⟩
    · simp only [hrec, Option.filter_eq_none_iff, Option.some.injEq, decide_eq_true_eq,
        forall_eq'] at h
      rw [finishReceive_of_not_complete h]
      nofun
    · exact receiveBody_not_ready hstate hrec
  · rename_i hbody
    rw [if_neg hbody]
    simp only [Option.filter_eq_none_iff, Option.some.injEq, decide_eq_true_eq, forall_eq'] at h
    rw [finishReceive_of_not_complete h]
    nofun

/-- What is read of a header leaves the rest alone. -/
theorem receiveHeader_frame (hrec : e.receiveHeader ios = (.ok ios', e')) :
    e'.pool = e.pool ∧ e'.con.xdrs = e.con.xdrs ∧ e'.con.state = e.con.state ∧
      e'.con.cnxType = e.con.cnxType ∧ e'.con.rpcHeader = e.con.rpcHeader := by
  unfold receiveHeader at hrec
  split at hrec
  · cases hrec
  · obtain ⟨-, rfl⟩ := Prod.mk.inj hrec
    unfold takeHeader
    dsimp only
    split
    · exact ⟨rfl, KssTCPXDRConnection.parseHeader_frame _⟩
    · exact ⟨rfl, rfl, rfl, rfl, rfl⟩
  · cases hrec

theorem receiveHeader_not_ready {mode : ConnectionIoMode} (h : e.con.state ≠ .ready)
    (hrec : e.receiveHeader ios = (.error mode, e')) : e'.con.state ≠ .ready := by
  obtain ⟨-, -, rfl | ⟨hstate, -⟩⟩ := receiveHeader_error hrec
  · exact h
  · rw [hstate]
    unfold failedState
    split <;> nofun

theorem connectPending_not_ready {soError : Bool} {r : ConnectionIoMode × Endpoint}
    (h : e.connectPending soError = some r) : r.2.con.state ≠ .ready := by
  unfold connectPending at h
  split at h
  · split at h <;> obtain rfl := Option.some.inj h <;> nofun
  · rename_i hstate
    obtain rfl := Option.some.inj h
    simp [hstate]
  · rename_i hstate
    obtain rfl := Option.some.inj h
    simp [hstate]
  · cases h

/-- The decoder gets the record that `receive` completes. -/
theorem receive_of_completed (h : e.completed sys = some e₁) :
    e.receive sys = e₁.receiveMessage := by
  unfold completed at h
  unfold receive
  cases hpending : e.connectPending sys.soError with
  | some r =>
    rw [hpending] at h
    cases h
  | none =>
    rw [hpending] at h
    dsimp only at h ⊢
    by_cases hheader : e.con.fragmentState = .header
    · rw [if_pos hheader] at h ⊢
      rcases hrec : e.receiveHeader sys.outcomes with ⟨mode | ios, e'⟩
      · rw [hrec] at h
        cases h
      · rw [hrec] at h
        exact receiveRest_of_completed h
    · rw [if_neg hheader] at h ⊢
      exact receiveRest_of_completed h

/-- Without a complete record the connection does not get ready. -/
theorem receive_not_ready (h : e.completed sys = none) (hstate : e.con.state ≠ .ready) :
    (e.receive sys).2.con.state ≠ .ready := by
  unfold completed at h
  unfold receive
  cases hpending : e.connectPending sys.soError with
  | some r => exact connectPending_not_ready hpending
  | none =>
    rw [hpending] at h
    dsimp only at h ⊢
    by_cases hheader : e.con.fragmentState = .header
    · rw [if_pos hheader] at h ⊢
      rcases hrec : e.receiveHeader sys.outcomes with ⟨mode | ios, e'⟩
      · exact receiveHeader_not_ready hstate hrec
      · rw [hrec] at h
        exact receiveRest_not_ready h ((receiveHeader_frame hrec).2.2.1 ▸ hstate)
    · rw [if_neg hheader] at h ⊢
      exact receiveRest_not_ready h hstate

/-- What is read of a body is appended to the stream. -/
theorem receiveBody_frame (hrec : e.receiveBody ios = (none, e'))
    (henc : e.con.xdrs.Encoding size bs) (hpool : e.pool.memStreamBufferSize = size)
    (hsize : LegalSize size) :
    e'.con.cnxType = e.con.cnxType ∧ e'.con.rpcHeader = e.con.rpcHeader ∧
      (∃ cs, e'.con.xdrs.Encoding size cs) ∧ e'.pool.memStreamBufferSize = size := by
  obtain ⟨cs, -, henc', hpool'⟩ :=
    xdrmemstreamReadFromFd_encoding henc hpool hsize ios e.socket e.con.remainingLen
  unfold receiveBody at hrec
  dsimp only at hrec
  split at hrec
  · split at hrec
    · obtain ⟨-, rfl⟩ := Prod.mk.inj hrec
      exact ⟨rfl, rfl, ⟨_, henc'⟩, hpool'⟩
    · obtain ⟨-, rfl⟩ := Prod.mk.inj hrec
      exact ⟨rfl, rfl, ⟨_, henc'⟩, hpool'⟩
  · split at hrec <;> cases hrec

/-- An endpoint whose stream can be filled, with the same role and the same RPC header. -/
structure Fills (size : ℕ) (e e' : Endpoint) : Prop where
  cnxType : e'.con.cnxType = e.con.cnxType
  rpcHeader : e'.con.rpcHeader = e.con.rpcHeader
  stream : ∃ bs, e'.con.xdrs.Encoding size bs
  bufferSize : e'.pool.memStreamBufferSize = size

theorem restCompleted_fills (h : e.restCompleted ios = some e₁)
    (henc : e.con.xdrs.Encoding size bs) (hpool : e.pool.memStreamBufferSize = size)
    (hsize : LegalSize size) : Fills size e e₁ := by
  unfold restCompleted at h
  obtain ⟨h, -⟩ := Option.filter_eq_some_iff.mp h
  split at h
  · rcases hrec : e.receiveBody ios with ⟨_ | mode, e₂⟩
    · rw [hrec] at h
      obtain rfl := Option.some.inj h
      obtain ⟨htype, hheader, hstream, hpool'⟩ := receiveBody_frame hrec henc hpool hsize
      exact ⟨htype, hheader, hstream, hpool'⟩
    · rw [hrec] at h
      cases h
  · obtain rfl := Option.some.inj h
    exact ⟨rfl, rfl, ⟨bs, henc⟩, hpool⟩

theorem completed_fills (h : e.completed sys = some e₁) (henc : e.con.xdrs.Encoding size bs)
    (hpool : e.pool.memStreamBufferSize = size) (hsize : LegalSize size) : Fills size e e₁ := by
  unfold completed at h
  split at h
  · cases h
  · split at h
    · split at h
      · cases h
      · rename_i hrec
        obtain ⟨hpool', hxdrs, -, htype, hheader⟩ := receiveHeader_frame hrec
        have hfills := restCompleted_fills h (hxdrs ▸ henc) (hpool' ▸ hpool) hsize
        exact ⟨hfills.cnxType.trans htype, hfills.rpcHeader.trans hheader, hfills.stream,
          hfills.bufferSize⟩
    · exact restCompleted_fills h henc hpool hsize

theorem reset_rpcHeader (e : Endpoint) : e.reset.2.con.rpcHeader = e.con.rpcHeader := by
  unfold reset
  split <;> rfl

/-- The stream and the header once the decoder has run. -/
theorem receiveMessage_server (htype : e.con.cnxType = .server)
    (henc : e.con.xdrs.Encoding size bs) (hpool : e.pool.memStreamBufferSize = size)
    (hsize : LegalSize size) :
    let r := (e.con.rpcHeader.xdrDecode.run e.rewound).1
    (r.1 = true ∧ e.receiveMessage.2.con.state = .ready ∧
        e.receiveMessage.2.con.rpcHeader = r.2) ∨
      r.1 = false ∧ e.receiveMessage.2.con.state = .sending ∧
        e.receiveMessage.2.con.rpcHeader = r.2.setDecodeError := by
  obtain ⟨-, -, ⟨hok, hready⟩ | ⟨hok, hsends⟩⟩ := receiveMessage_cases htype henc hpool hsize
  · left
    rw [hready]
    exact ⟨hok, rfl, rfl⟩
  · right
    refine ⟨hok, hsends.state, ?_⟩
    unfold receiveMessage
    rcases hrun : e.con.rpcHeader.xdrDecode.run (xdrmemstreamRewind (e.pool, e.con.xdrs) .decode).2
      with ⟨⟨ok, h⟩, xdrs⟩
    rw [hrun] at hok
    obtain rfl : ok = false := hok
    simp only [note, setMem, hrun, htype, rewound]
    simp only [Bool.false_eq_true, if_false]
    split
    · rfl
    · exact reset_rpcHeader _

theorem receiveMessage_client (htype : e.con.cnxType = .client) :
    let r := (e.con.rpcHeader.xdrDecode.run e.rewound).1
    e.receiveMessage.2.con.state =
        (if r.1 = true ∧ e.con.rpcHeader.xid = r.2.xid then .ready else .readyFailed) ∧
      e.receiveMessage.2.con.rpcHeader = r.2 ∧ e.receiveMessage.2.con.cnxType = .client := by
  unfold receiveMessage
  rcases hrun : e.con.rpcHeader.xdrDecode.run (xdrmemstreamRewind (e.pool, e.con.xdrs) .decode).2
    with ⟨⟨ok, h⟩, xdrs⟩
  simp only [note, setMem, hrun, htype, rewound]
  exact ⟨rfl, rfl, rfl⟩

/-- A server is ready for what the decoder accepts, and refuses everything else. -/
theorem server_direction {xid : UInt32} (htype : e.con.cnxType = .server)
    (henc : e.con.xdrs.Encoding size bs) (hpool : e.pool.memStreamBufferSize = size)
    (hsize : LegalSize size) :
    ((e.receiveMessage.2.con.state = .ready → Carries .server xid e.completeRecord
        e.receiveMessage.2.con.rpcHeader) ↔ ¬ Misleads .server xid e.rewound e.completeRecord) ∧
      (e.receiveMessage.2.con.state ≠ .ready → e.receiveMessage.2.con.state = .sending ∧
        e.receiveMessage.2.con.rpcHeader.IsDecodeError) := by
  rw [← accepted_carries_iff e.rewound e.completeRecord e.con.rpcHeader .server xid]
  obtain ⟨hok, hready, hheader⟩ | ⟨hok, hsending, hheader⟩ :=
    receiveMessage_server htype henc hpool hsize
  · rw [hready, hheader, hok]
    exact ⟨⟨fun h _ _ => h rfl, fun h _ => h rfl nofun⟩, fun hnot => absurd rfl hnot⟩
  · rw [hsending, hheader, hok]
    exact ⟨⟨nofun, nofun⟩, fun _ => ⟨rfl, setDecodeError_isDecodeError _⟩⟩

/-- A client is ready for what the decoder accepts with the right transaction id, and fails
otherwise. -/
theorem client_direction {xid : UInt32} (htype : e.con.cnxType = .client)
    (hxid : e.con.rpcHeader.xid = xid) :
    ((e.receiveMessage.2.con.state = .ready → Carries .client xid e.completeRecord
        e.receiveMessage.2.con.rpcHeader) ↔ ¬ Misleads .client xid e.rewound e.completeRecord) ∧
      (e.receiveMessage.2.con.state ≠ .ready → e.receiveMessage.2.con.state = .readyFailed) := by
  rw [← accepted_carries_iff e.rewound e.completeRecord e.con.rpcHeader .client xid]
  obtain ⟨hstate, hheader, -⟩ := receiveMessage_client htype
  rw [hstate, hheader, hxid]
  split
  · rename_i haccepted
    exact ⟨⟨fun h _ _ => h rfl, fun h _ => h haccepted.1 fun _ => haccepted.2.symm⟩,
      fun hnot => absurd rfl hnot⟩
  · rename_i hnot
    exact ⟨⟨fun _ hok hsame => absurd ⟨hok, (hsame rfl).symm⟩ hnot, nofun⟩, fun _ => rfl⟩

theorem reset_cnxType (e : Endpoint) : e.reset.2.con.cnxType = e.con.cnxType := by
  unfold reset
  split <;> rfl

theorem receiveMessage_cnxType (e : Endpoint) :
    e.receiveMessage.2.con.cnxType = e.con.cnxType := by
  unfold receiveMessage
  dsimp only
  cases htype : e.con.cnxType with
  | client => simp only [setMem, note, setState, htype]
  | server =>
    simp only [setMem, note, setState, htype]
    split
    · rfl
    · split
      · rfl
      · exact (reset_cnxType _).trans rfl

/-- A call of `receive` that completes no record makes no connection ready. -/
theorem rightDirection_of_incomplete {xid : UInt32} {type : ConnectionType}
    (hcompleted : e.completed sys = none) (hstate : e.con.state ≠ .ready) :
    e.RightDirection xid sys ↔ e.NotMisled type xid sys := by
  constructor
  · intro _ e₁ he₁
    rw [hcompleted] at he₁
    cases he₁
  · intro _
    constructor
    · intro hready
      exact absurd hready (receive_not_ready hcompleted hstate)
    · intro e₁ he₁
      rw [hcompleted] at he₁
      cases he₁

/-- A connection that can receive takes the right messages only, unless a record misleads it. -/
theorem rightDirection_iff {xid : UInt32} (hstate : e.con.state ≠ .ready)
    (henc : e.con.xdrs.Encoding size bs) (hpool : e.pool.memStreamBufferSize = size)
    (hsize : LegalSize size) (hxid : e.con.cnxType = .client → e.con.rpcHeader.xid = xid) :
    e.RightDirection xid sys ↔ e.NotMisled e.con.cnxType xid sys := by
  cases hcompleted : e.completed sys with
  | none =>
    exact rightDirection_of_incomplete hcompleted hstate
  | some e₁ =>
    have hreceive := receive_of_completed hcompleted
    have hfills := completed_fills hcompleted henc hpool hsize
    obtain ⟨bs', henc'⟩ := hfills.stream
    have hdirection : ((e₁.receiveMessage.2.con.state = .ready →
        Carries e.con.cnxType xid e₁.completeRecord e₁.receiveMessage.2.con.rpcHeader) ↔
          ¬ Misleads e.con.cnxType xid e₁.rewound e₁.completeRecord) ∧
        (e₁.receiveMessage.2.con.state ≠ .ready → e₁.receiveMessage.2.Refuses) := by
      unfold Refuses
      rw [receiveMessage_cnxType, hfills.cnxType]
      cases htype : e.con.cnxType with
      | server => exact server_direction (hfills.cnxType.trans htype) henc' hfills.bufferSize hsize
      | client =>
        exact client_direction (hfills.cnxType.trans htype) (by rw [hfills.rpcHeader, hxid htype])
    constructor
    · rintro ⟨hready, -⟩ e₂ he₂
      obtain rfl := Option.some.inj (hcompleted.symm.trans he₂)
      refine hdirection.1.mp fun h => ?_
      rw [← hreceive] at h ⊢
      obtain ⟨e₂, he₂, hcarries⟩ := hready h
      rw [hcompleted] at he₂
      obtain rfl := Option.some.inj he₂
      exact hcarries
    · intro hclear
      constructor
      · intro hready
        refine ⟨e₁, hcompleted, ?_⟩
        rw [hreceive] at hready ⊢
        exact hdirection.1.mpr (hclear e₁ hcompleted) hready
      · intro e₂ _ hnot
        rw [hreceive] at hnot ⊢
        exact hdirection.2 hnot

/-- A record of whole words misleads the connection only by its own bytes: by a header in the other
direction. -/
theorem misleads_iff {xid : UInt32} {type : ConnectionType} (henc : e.con.xdrs.Encoding size bs)
    (hpool : e.pool.memStreamBufferSize = size) (hsize : LegalSize size) (hbs : 4 ∣ bs.length) :
    Misleads type xid e.rewound e.completeRecord ↔ ∃ msg : RpcMessage,
      msg.bytes <+: bs ∧ (type = .client → msg.xid = xid) ∧ ¬ msg.IsFor type xid := by
  obtain ⟨-, -, frags, hlaid, hdec⟩ := xdrmemstreamRewind_encoding henc hpool hsize
  have hrecord : e.completeRecord = bs := hdec.contents_eq hlaid
  have hyields : ∀ msg : RpcMessage, (∃ s', Yields e.rewound msg.words s') ↔ msg.bytes <+: bs :=
    fun msg => yields_iff_prefix hlaid hdec hsize hbs (dvd_zero 4) msg.words
  unfold Misleads
  rw [hrecord]
  refine exists_congr fun msg => ?_
  rw [hyields msg]
  tauto

/-- Nothing is received while a record is being sent. -/
theorem completed_of_sending (hstate : e.con.state = .sending) (hbody : e.con.fragmentState = .body)
    (hop : e.con.xdrs.op = .decode) : e.completed sys = none := by
  have hpending : e.connectPending sys.soError = none := by simp [connectPending, hstate]
  have hrec : ∃ mode e', e.receiveBody sys.outcomes = (some mode, e') := by
    simp [receiveBody, xdrmemstreamReadFromFd, hop]
  obtain ⟨mode, e', hrec⟩ := hrec
  simp [completed, hpending, hbody, restCompleted, hrec]

/-- A server connection, after any run in which it lives. -/
theorem Reached.rightDirection_iff (h : e.Reached size) (hsize : LegalSize size)
    (halive : e.con.state ≠ .dead) (hstate : e.con.state ≠ .ready) (xid : UInt32)
    (sys : SystemCalls) :
    e.RightDirection xid sys ↔ e.NotMisled .server xid sys := by
  obtain ⟨r, hconsistent⟩ := h.consistent hsize
  obtain ⟨htype, hpool, hrest⟩ := hconsistent halive
  have hxid : e.con.cnxType = .client → e.con.rpcHeader.xid = xid := by
    rw [htype]
    nofun
  rw [← htype]
  cases hs : e.con.state <;> simp only [hs] at hrest
  case idle => exact Endpoint.rightDirection_iff hstate hrest.2.stream hpool hsize hxid
  case receiving => exact Endpoint.rightDirection_iff hstate hrest.2 hpool hsize hxid
  case ready => exact absurd hs hstate
  case sending =>
    obtain ⟨-, hbody, frags, record, pos, -, -, hdec, -⟩ := hrest
    exact rightDirection_of_incomplete (completed_of_sending hs hbody hdec.op) hstate

theorem send_not_ready (h : e.con.state ≠ .ready) (sys : SystemCalls) :
    (e.send sys).2.con.state ≠ .ready := by
  have hfinish : ∀ e : Endpoint, e.con.state ≠ .ready → e.finishSend.2.con.state ≠ .ready := by
    intro e h
    unfold finishSend
    split
    · split
      · nofun
      · exact reset_state_ne_ready h
    · exact h
  cases hpending : e.connectPending sys.soError with
  | some r =>
    unfold send
    rw [hpending]
    exact connectPending_not_ready hpending
  | none =>
    cases hfrag : e.con.fragmentState with
    | header =>
      unfold send
      rw [hpending, hfrag]
      exact hfinish e h
    | body =>
      rw [send_body sys hpending hfrag]
      dsimp only
      split
      · exact hfinish _ h
      · exact failed_state_ne_ready _

theorem encodeMessage_state (e : Endpoint) (h : KsRpcHeader) (payloads : List Payload) :
    (e.encodeMessage h payloads).2.con.state = e.con.state := by
  unfold encodeMessage
  dsimp only
  split
  · rfl
  · split <;> rfl

theorem sendMessage_not_ready (h : e.con.state ≠ .ready) (payloads : List Payload) :
    (e.sendMessage payloads).con.state ≠ .ready := by
  have hstate := encodeMessage_state e e.con.rpcHeader.acceptCall payloads
  unfold sendMessage
  split
  · exact h
  · rcases hencoded : e.encodeMessage e.con.rpcHeader.acceptCall payloads with ⟨ok, e'⟩
    rw [hencoded] at hstate
    cases ok with
    | false => exact reset_state_ne_ready (hstate ▸ h)
    | true => nofun

theorem timedOut_not_ready (h : e.con.state ≠ .ready) : e.timedOut.2.con.state ≠ .ready := by
  unfold timedOut
  split
  · exact h
  · dsimp only
    split
    · split <;> nofun
    · nofun

/-- A connection gets ready only when it receives. -/
theorem step_ready {ev : Event} (h : e.con.state ≠ .ready)
    (hready : (e.step ev).con.state = .ready) : ∃ sys, ev = .receive sys := by
  by_cases hfault : e.con.xdrs.fault = true
  · rw [step_of_fault hfault] at hready
    exact absurd hready h
  have hstep : e.step ev = _ := if_neg hfault
  rw [hstep] at hready
  cases ev with
  | receive sys => exact ⟨sys, rfl⟩
  | send sys => exact absurd hready (send_not_ready h sys)
  | timedOut => exact absurd hready (timedOut_not_ready h)
  | reset => exact absurd hready (reset_state_ne_ready h)
  | sendPingReply => exact absurd hready (sendMessage_not_ready h _)
  | sendErrorReply avt trailer error => exact absurd hready (sendMessage_not_ready h _)
  | sendReply avt result trailer => exact absurd hready (sendMessage_not_ready h _)
  | personaNonGrata => cases hready
  | deserialize reader =>
    dsimp only at hready
    split at hready
    · exact absurd hready h
    · exact absurd hready h
  | freeStreamMemory =>
    dsimp only at hready
    split at hready
    · exact absurd hready h
    · exact absurd hready h
  | otherStreams pool =>
    dsimp only at hready
    split at hready
    · exact absurd hready h
    · exact absurd hready h

end Endpoint
end AcpltKs
