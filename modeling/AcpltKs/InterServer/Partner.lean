import AcpltKs.ConnectionMgr.Steadiness
import AcpltKs.InterServer.Automaton
import AcpltKs.Tcp.Directions

/-! The TCP connection to a server as an object of the connection manager: in which states it may be
before a call, during a call and after one. -/
namespace AcpltKs
open Function ConnectionObject

/-- What the connection to a server may be like: it never is dead, and once the user has been
notified of an answer it is connecting, connected, or has failed to connect, but for a pause in
which the user may take the answer. -/
def ConnectionState.Allowed : Bool → Bool → ConnectionState → Prop
  | false, _, state => state ≠ .dead
  | true, true, state => state ∉ [.dead, .sending, .waiting, .receiving]
  | true, false, state => state ∈ [.connecting, .connected, .connFailed]

open ConnectionState

variable {called paused : Bool} {state : ConnectionState}

theorem ConnectionState.Allowed.alive (h : Allowed called paused state) : state ≠ .dead := by
  rintro rfl
  cases called <;> cases paused <;> simp [Allowed] at h

theorem ConnectionState.Allowed.pause (h : Allowed called false state) :
    Allowed called paused state := by
  cases called
  · exact h
  · cases paused
    · exact h
    · cases state <;> simp [Allowed] at h ⊢

theorem ConnectionState.Allowed.not_answered (h : Allowed called false state)
    (hstate : state = .ready ∨ state = .readyFailed) : called = false := by
  cases called
  · rfl
  · rcases hstate with rfl | rfl <;> simp [Allowed] at h

theorem ConnectionIoMode.Reports.needTimeout {ioMode now : ConnectionIoMode}
    (h : ioMode.Reports now) : ioMode.needTimeout = now.needTimeout :=
  (ConnectionIoMode.mk.inj h.core).2.2.2.2.1

namespace Endpoint

/-- A client in one of certain states. -/
def ClientIn (allowed : ConnectionState → Prop) (e : Endpoint) : Prop :=
  e.con.cnxType = .client ∧ allowed e.con.state

variable {e e' : Endpoint} {sys : SystemCalls} {ios ios' : List IoOutcome}

theorem failed_client (h : e.con.cnxType = .client) : e.failed.ClientIn (· ≠ .dead) := by
  refine ⟨h, ?_⟩
  simp [failed, setState, h]

theorem reset_client (h : e.ClientIn (Allowed called paused)) :
    e.reset.2.ClientIn (Allowed called false) := by
  obtain ⟨htype, hstate⟩ := h
  refine ⟨(reset_cnxType e).trans htype, ?_⟩
  have hresult : e.reset.2.con.state =
      if e.con.state = .sending ∨ e.con.state = .waiting ∨ e.con.state = .receiving
      then .readyFailed else .connected := by
    rw [reset, if_neg hstate.alive]
    cases hs : e.con.state <;>
      simp [startHeader, clearStream, setMem, setState, KssTCPXDRConnection.startHeader, htype]
  rw [hresult]
  cases called
  · split_ifs <;> simp [Allowed]
  · have hnot : ¬ (e.con.state = .sending ∨ e.con.state = .waiting ∨ e.con.state = .receiving) := by
      rintro (hs | hs | hs) <;> rw [hs] at hstate <;> cases paused <;> simp [Allowed] at hstate
    rw [if_neg hnot]
    simp [Allowed]

/-- Only a connect can time out after the user has been notified of an answer. -/
theorem timedOut_client (h : e.ClientIn (Allowed called false))
    (hneed : e.getIoMode.needTimeout = true) : e.timedOut.2.ClientIn (Allowed called false) := by
  obtain ⟨htype, hstate⟩ := h
  have hresult : e.timedOut.2.con.cnxType = .client ∧ e.timedOut.2.con.state =
      if e.con.state = .connecting then .connFailed else .readyFailed := by
    rw [timedOut, if_neg hstate.alive]
    simp [startHeader, clearStream, setMem, setState, KssTCPXDRConnection.startHeader, htype]
  refine ⟨hresult.1, ?_⟩
  rw [hresult.2]
  cases called
  · split_ifs <;> simp [Allowed]
  · have hconnecting : e.con.state = .connecting := by
      cases hs : e.con.state <;>
        simp [getIoMode, KssTCPXDRConnection.getIoMode, hs, Allowed] at hneed hstate ⊢
    rw [if_pos hconnecting]
    simp [Allowed]

theorem connectPending_client {soError : Bool} {r : ConnectionIoMode × Endpoint}
    (h : e.ClientIn (Allowed called false)) (hr : e.connectPending soError = some r) :
    r.2.ClientIn (Allowed called false) := by
  rw [connectPending] at hr
  split at hr
  · split_ifs at hr <;> rw [← Option.some.inj hr] <;> refine ⟨h.1, ?_⟩ <;>
      cases called <;> simp [setState, Allowed]
  · rwa [← Option.some.inj hr]
  · rwa [← Option.some.inj hr]
  · exact absurd hr (by simp)

/-- While nothing is pending, the connection is past the connect. -/
theorem not_called_of_not_pending {soError : Bool} (h : e.ClientIn (Allowed called false))
    (hr : e.connectPending soError = none) : called = false := by
  cases called
  · rfl
  · obtain ⟨-, hstate⟩ := h
    rw [connectPending] at hr
    cases hs : e.con.state <;> simp [hs, Allowed] at hr hstate
    split_ifs at hr

theorem finishReceive_client (h : e.con.cnxType = .client) :
    e.finishReceive.2.ClientIn (· ≠ .dead) := by
  rw [finishReceive]
  split_ifs
  · refine ⟨(receiveMessage_cnxType e).trans h, ?_⟩
    rw [(receiveMessage_client h).1]
    split_ifs <;> simp
  · exact ⟨h, by simp [setState]⟩

theorem headerError_client (h : e.ClientIn (· ≠ .dead)) (errno : Errno) :
    (e.headerError errno).2.ClientIn (· ≠ .dead) := by
  rw [headerError]
  split_ifs
  · exact h
  · exact failed_client h.1
  · exact failed_client h.1

theorem receiveHeader_client {mode : ConnectionIoMode} (h : e.ClientIn (· ≠ .dead))
    (hrec : e.receiveHeader ios = (.error mode, e')) : e'.ClientIn (· ≠ .dead) := by
  rw [receiveHeader] at hrec
  split at hrec
  · obtain ⟨-, rfl⟩ := Prod.mk.inj hrec
    exact failed_client h.1
  · exact absurd (Prod.mk.inj hrec).1 (by simp)
  · simp only [Prod.mk.injEq] at hrec
    obtain ⟨-, rfl⟩ := hrec
    apply headerError_client
    exact h

theorem receiveBody_client (h : e.con.cnxType = .client) :
    (e.receiveBody ios).2.con.cnxType = .client ∧
      ((e.receiveBody ios).1 ≠ none → (e.receiveBody ios).2.ClientIn (· ≠ .dead)) := by
  rw [receiveBody]
  simp only
  split
  · split_ifs
    · exact ⟨h, fun hnone => absurd rfl hnone⟩
    · exact ⟨h, fun hnone => absurd rfl hnone⟩
  · rw [if_neg (by simp [setMem, h])]
    exact ⟨h, fun _ => failed_client h⟩

theorem receiveRest_client (h : e.con.cnxType = .client) :
    (e.receiveRest ios).2.ClientIn (· ≠ .dead) := by
  have hbody : (e.receiveBody ios).2.con.cnxType = .client ∧
      ((e.receiveBody ios).1 ≠ none → (e.receiveBody ios).2.ClientIn (· ≠ .dead)) :=
    receiveBody_client h
  rw [receiveRest]
  split_ifs
  · rcases hrec : e.receiveBody ios with ⟨_ | mode, e₁⟩
    · rw [hrec] at hbody
      exact finishReceive_client hbody.1
    · rw [hrec] at hbody
      exact hbody.2 (by simp)
  · exact finishReceive_client h

theorem receive_client (h : e.ClientIn (Allowed called false)) :
    (e.receive sys).2.ClientIn (Allowed called false) := by
  cases hpending : e.connectPending sys.soError with
  | some r =>
    rw [receive, hpending]
    exact connectPending_client h hpending
  | none =>
    obtain rfl := not_called_of_not_pending h hpending
    rw [receive, hpending]
    simp only
    split_ifs
    · rcases hrec : e.receiveHeader sys.outcomes with ⟨mode | ios, e₁⟩
      · exact receiveHeader_client h hrec
      · exact receiveRest_client ((receiveHeader_frame hrec).2.2.2.1.trans h.1)
    · exact receiveRest_client h.1

theorem finishSend_client (h : e.ClientIn (· ≠ .dead)) : e.finishSend.2.ClientIn (· ≠ .dead) := by
  rw [finishSend]
  split_ifs with _ htype
  · exact ⟨h.1, by simp [startHeader, clearStream, setMem, setState,
      KssTCPXDRConnection.startHeader]⟩
  · exact absurd h.1 htype
  · exact h

theorem send_client (h : e.ClientIn (Allowed called false)) :
    (e.send sys).2.ClientIn (Allowed called false) := by
  cases hpending : e.connectPending sys.soError with
  | some r =>
    rw [send, hpending]
    exact connectPending_client h hpending
  | none =>
    obtain rfl := not_called_of_not_pending h hpending
    rw [send, hpending]
    simp only
    split_ifs
    · split
      · exact failed_client h.1
      · exact finishSend_client h
    · exact finishSend_client h

/-- A request is under way. -/
theorem sendRequest_client (h : e.con.cnxType = .client) :
    e.sendRequest.ClientIn (· ≠ .dead) ∧ e.sendRequest.getIoMode.needTimeout = true :=
  ⟨⟨h, by simp [sendRequest, enterSendingState, note, setMem]⟩, rfl⟩

end Endpoint

namespace KssConnection

/-- A TCP client in one of certain states. -/
def Client (allowed : ConnectionState → Prop) : KssConnection → Prop
  | .tcp _ _ _ e => e.ClientIn allowed
  | .udp .. => False

variable {allowed allowed' : ConnectionState → Prop} {c c' : KssConnection}
  {tcp : Endpoint → ConnectionIoMode × Endpoint}
  {udp : UdpEndpoint → ConnectionIoMode × UdpEndpoint}

theorem Client.mono (h : ∀ state, allowed state → allowed' state) (hc : Client allowed c) :
    Client allowed' c := by
  cases c with
  | tcp _ _ _ e => exact ⟨hc.1, h _ hc.2⟩
  | udp => exact hc

theorem virtual_takesTo (htcp : ∀ e, e.ClientIn allowed → (tcp e).2.ClientIn allowed')
    (hreports : ∀ e, (tcp e).1.Reports (tcp e).2.getIoMode) :
    TakesTo (Client allowed) (Client allowed') (virtual tcp udp) := by
  intro c hc
  cases c with
  | tcp fd timeout destroyable e => exact ⟨htcp e hc, (hreports e).needTimeout⟩
  | udp => exact hc.elim

/-- What the automaton relies on outlasts input, output and timeouts. -/
theorem client_stable (called : Bool) : Stable (Client (Allowed called false)) where
  alive c hc := by
    cases c with
    | tcp _ _ _ e => exact hc.2.alive
    | udp => exact hc.elim
  receive io := virtual_takesTo (fun _ => Endpoint.receive_client) (·.receive_reports io.tcp)
  send io := virtual_takesTo (fun _ => Endpoint.send_client) (·.send_reports io.tcp)
  timedOut c hc := by
    cases c with
    | tcp _ _ _ e => exact ⟨Endpoint.timedOut_client hc.1 hc.2, e.timedOut_reports.needTimeout⟩
    | udp => exact hc.1.elim
  reset := virtual_takesTo (fun _ => Endpoint.reset_client) Endpoint.reset_reports

/-- The pause is over with a reset. -/
theorem reset_takesTo (called paused : Bool) : TakesTo (Client (Allowed called paused))
    (Client (Allowed called false)) (reset : KssConnection → ConnectionIoMode × KssConnection) :=
  virtual_takesTo (fun _ => Endpoint.reset_client) Endpoint.reset_reports

/-- The streams may be different, and the timeout. -/
inductive SameState : KssConnection → KssConnection → Prop where
  | tcp {fd timeout timeout' : ℕ} {destroyable : Bool} {e e' : Endpoint}
      (cnxType : e'.con.cnxType = e.con.cnxType) (state : e'.con.state = e.con.state) :
      SameState (.tcp fd timeout destroyable e) (.tcp fd timeout' destroyable e')
  | udp {fd : ℕ} {e e' : UdpEndpoint} : SameState (.udp fd e) (.udp fd e')

theorem SameState.refl (c : KssConnection) : SameState c c := by
  cases c
  · exact .tcp rfl rfl
  · exact .udp

theorem SameState.trans {c'' : KssConnection} (h : SameState c c') (h' : SameState c' c'') :
    SameState c c'' := by
  cases h with
  | tcp htype hstate =>
    cases h' with
    | tcp htype' hstate' => exact .tcp (htype'.trans htype) (hstate'.trans hstate)
  | udp =>
    cases h' with
    | udp => exact .udp

theorem SameState.getFd (h : SameState c c') :
    ConnectionObject.getFd c' = ConnectionObject.getFd c := by
  cases h <;> rfl

theorem SameState.client (h : SameState c c') (hc : Client allowed c) : Client allowed c' := by
  cases h with
  | tcp htype hstate => exact ⟨htype.trans hc.1, hstate ▸ hc.2⟩
  | udp => exact hc.elim

theorem SameState.getIoMode (h : SameState c c') (hc : Client allowed c) :
    ConnectionObject.getIoMode c' = ConnectionObject.getIoMode c := by
  cases h with
  | tcp htype hstate =>
    simp only [ConnectionObject.getIoMode, KssConnection.getIoMode, Endpoint.getIoMode,
      KssTCPXDRConnection.getIoMode, hstate]
  | udp => exact hc.elim

end KssConnection
end AcpltKs
