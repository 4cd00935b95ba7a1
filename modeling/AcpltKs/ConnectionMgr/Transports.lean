import AcpltKs.ConnectionMgr.Consistency
import AcpltKs.Tcp.Framing
import AcpltKs.Udp.Calls

/-! TCP and UDP connections as objects of the connection manager. -/
namespace AcpltKs
open KssConnectionManager ConnectionObject GuardedRun

/-- What the manager needs of an I/O mode beyond statistics and attention. -/
def ConnectionIoMode.core (ioMode : ConnectionIoMode) : ConnectionIoMode :=
  { ioMode with attention := false, hadError := false, hadTxError := false, hadRxError := false }

/-- An I/O mode tells what a connection asks for in its state `now`, and does not ask for attention
while there is a timeout. -/
structure ConnectionIoMode.Reports (ioMode now : ConnectionIoMode) : Prop where
  core : ioMode.core = now.core
  attention : ioMode.Exclusive

theorem ConnectionIoMode.Reports.dead {ioMode now : ConnectionIoMode} (h : ioMode.Reports now) :
    ioMode.dead = now.dead := (ConnectionIoMode.mk.inj h.core).2.2.2.1

theorem ConnectionIoMode.Reports.writeable {ioMode now : ConnectionIoMode}
    (h : ioMode.Reports now) : ioMode.writeable = now.writeable :=
  (ConnectionIoMode.mk.inj h.core).2.1

theorem ConnectionIoMode.Reports.hadError {ioMode now : ConnectionIoMode}
    (h : ioMode.Reports now) (error : Bool) :
    ConnectionIoMode.Reports { ioMode with hadError := error } now := ⟨h.core, h.attention⟩

theorem ConnectionIoMode.Reports.hadTxError {ioMode now : ConnectionIoMode}
    (h : ioMode.Reports now) (error : Bool) :
    ConnectionIoMode.Reports { ioMode with hadTxError := error } now := ⟨h.core, h.attention⟩

theorem ConnectionIoMode.Reports.hadRxError {ioMode now : ConnectionIoMode}
    (h : ioMode.Reports now) (error : Bool) :
    ConnectionIoMode.Reports { ioMode with hadRxError := error } now := ⟨h.core, h.attention⟩

namespace Endpoint

theorem getIoMode_exclusive (e : Endpoint) : e.getIoMode.Exclusive := by
  rw [ConnectionIoMode.Exclusive, getIoMode, KssTCPXDRConnection.getIoMode]
  cases e.con.state <;> simp

theorem getIoMode_dead (e : Endpoint) : e.getIoMode.dead = decide (e.con.state = .dead) := by
  rw [getIoMode, KssTCPXDRConnection.getIoMode]
  cases e.con.state <;> rfl

theorem reports_of_eq {r : ConnectionIoMode × Endpoint} (h : r.1 = r.2.getIoMode) :
    r.1.Reports r.2.getIoMode := by
  rw [h]
  exact ⟨rfl, getIoMode_exclusive r.2⟩

theorem dead_reports {e : Endpoint} (h : e.con.state = .dead) :
    ConnectionIoMode.Reports { dead := true } e.getIoMode := by
  rw [getIoMode, KssTCPXDRConnection.getIoMode, h]
  exact ⟨rfl, fun h => absurd h (by simp)⟩

theorem reset_reports (e : Endpoint) : e.reset.1.Reports e.reset.2.getIoMode := by
  rw [reset]
  by_cases h : e.con.state = .dead
  · rw [if_pos h]
    exact dead_reports h
  · rw [if_neg h]
    exact reports_of_eq rfl

theorem timedOut_reports (e : Endpoint) : e.timedOut.1.Reports e.timedOut.2.getIoMode := by
  rw [timedOut]
  by_cases h : e.con.state = .dead
  · rw [if_pos h]
    exact dead_reports h
  · rw [if_neg h]
    exact reports_of_eq rfl

theorem enterSendingState_reports (e : Endpoint) :
    e.enterSendingState.1.Reports e.enterSendingState.2.getIoMode := reports_of_eq rfl

theorem connectPending_reports {e : Endpoint} {soError : Bool} {r : ConnectionIoMode × Endpoint}
    (h : e.connectPending soError = some r) : r.1.Reports r.2.getIoMode := by
  rw [connectPending] at h
  split at h
  · split_ifs at h
    · rw [← Option.some.inj h]
      exact reports_of_eq rfl
    · rw [← Option.some.inj h]
      exact ⟨rfl, fun h => absurd h (by simp [getIoMode, setState, KssTCPXDRConnection.getIoMode])⟩
  · rw [← Option.some.inj h]
    exact ⟨rfl, fun _ => rfl⟩
  · rw [← Option.some.inj h]
    exact ⟨rfl, fun _ => rfl⟩
  · exact absurd h (by simp)

theorem peerClosed_reports (e : Endpoint) :
    e.peerClosed.1.Reports e.peerClosed.2.getIoMode := by
  have hfailed : e.failed.getIoMode.Reports e.failed.getIoMode := reports_of_eq (r := (_, _)) rfl
  rw [peerClosed]
  by_cases h : e.con.remainingLen < 4
  · simp only [h, ↓reduceIte]
    exact hfailed.hadRxError true
  · simp only [h, ↓reduceIte]
    exact hfailed

theorem headerError_reports (e : Endpoint) (errno : Errno) :
    (e.headerError errno).1.Reports (e.headerError errno).2.getIoMode := by
  rw [headerError]
  by_cases h : errno = .ewouldblock
  · rw [if_pos h]
    exact reports_of_eq rfl
  · rw [if_neg h]
    exact reports_of_eq rfl

theorem receiveHeader_reports {e e' : Endpoint} {ios : List IoOutcome} {mode : ConnectionIoMode}
    (h : e.receiveHeader ios = (.error mode, e')) : mode.Reports e'.getIoMode := by
  rw [receiveHeader] at h
  split at h
  · obtain ⟨hmode, rfl⟩ := Prod.mk.inj h
    obtain rfl := Except.error.inj hmode
    exact peerClosed_reports _
  · exact absurd (Prod.mk.inj h).1 (by simp)
  · obtain ⟨hmode, rfl⟩ := Prod.mk.inj h
    obtain rfl := Except.error.inj hmode
    exact headerError_reports _ _

theorem receiveBody_reports {e e' : Endpoint} {ios : List IoOutcome} {mode : ConnectionIoMode}
    (h : e.receiveBody ios = (some mode, e')) : mode.Reports e'.getIoMode := by
  rw [receiveBody] at h
  simp only at h
  split at h
  · split_ifs at h <;> exact absurd (Prod.mk.inj h).1 (by simp)
  · split_ifs at h
    · obtain ⟨hmode, rfl⟩ := Prod.mk.inj h
      obtain rfl := Option.some.inj hmode
      exact reset_reports _
    · obtain ⟨hmode, rfl⟩ := Prod.mk.inj h
      obtain rfl := Option.some.inj hmode
      exact (reports_of_eq (r := (_, _)) rfl).hadRxError true

/-- The error reply to a message that could not be decoded. -/
theorem errorReply_reports {ok : Bool} {e : Endpoint} {r : ConnectionIoMode × Endpoint}
    (h : (if ok then e.enterSendingState else e.reset) = r) : r.1.Reports r.2.getIoMode := by
  cases ok
  · exact h ▸ reset_reports e
  · exact h ▸ enterSendingState_reports e

theorem receiveMessage_reports (e : Endpoint) :
    e.receiveMessage.1.Reports e.receiveMessage.2.getIoMode := by
  generalize h : e.receiveMessage = r
  rw [receiveMessage] at h
  extract_lets at h
  split at h
  extract_lets at h
  split at h
  · split at h
    · subst h
      exact reports_of_eq (r := (_, _)) rfl
    · split at h
      extract_lets at h
      split at h
      next mode e' hreply =>
        subst h
        exact (errorReply_reports hreply).hadError true
  · subst h
    exact reports_of_eq (r := (_, _)) rfl

theorem finishReceive_reports (e : Endpoint) :
    e.finishReceive.1.Reports e.finishReceive.2.getIoMode := by
  rw [finishReceive]
  split_ifs
  · exact receiveMessage_reports e
  · exact reports_of_eq (r := (_, _)) rfl

theorem receiveRest_reports (e : Endpoint) (ios : List IoOutcome) :
    (e.receiveRest ios).1.Reports (e.receiveRest ios).2.getIoMode := by
  rw [receiveRest]
  split_ifs
  · rcases h : e.receiveBody ios with ⟨_ | mode, e'⟩
    · exact finishReceive_reports e'
    · exact receiveBody_reports h
  · exact finishReceive_reports e

theorem receive_reports (e : Endpoint) (sys : SystemCalls) :
    (e.receive sys).1.Reports (e.receive sys).2.getIoMode := by
  rw [receive]
  split
  · next h => exact connectPending_reports h
  · split_ifs
    · rcases h : e.receiveHeader sys.outcomes with ⟨mode | ios, e'⟩
      · exact receiveHeader_reports h
      · exact receiveRest_reports e' ios
    · exact receiveRest_reports e sys.outcomes

theorem finishSend_reports (e : Endpoint) :
    e.finishSend.1.Reports e.finishSend.2.getIoMode := by
  rw [finishSend]
  split_ifs
  · exact reports_of_eq (r := (_, _)) rfl
  · exact reset_reports e
  · exact reports_of_eq (r := (_, _)) rfl

theorem send_reports (e : Endpoint) (sys : SystemCalls) :
    (e.send sys).1.Reports (e.send sys).2.getIoMode := by
  rw [send]
  split
  · next h => exact connectPending_reports h
  · split_ifs
    · simp only
      split
      · exact (reports_of_eq (r := (_, _)) rfl).hadTxError true
      · exact finishSend_reports _
    · exact finishSend_reports e

/-- A connection that timed out does not write. -/
theorem timedOut_writeable (e : Endpoint) : e.timedOut.1.writeable = false := by
  rw [timedOut]
  split_ifs <;> rfl

end Endpoint

namespace UdpEndpoint

theorem getIoMode_exclusive (e : UdpEndpoint) : e.getIoMode.Exclusive := by
  rw [ConnectionIoMode.Exclusive, getIoMode, KssUDPXDRConnection.getIoMode]
  cases e.con.state <;> simp

theorem getIoMode_dead (e : UdpEndpoint) : e.getIoMode.dead = decide (e.con.state = .dead) := by
  rw [getIoMode, KssUDPXDRConnection.getIoMode]
  cases e.con.state <;> rfl

theorem reports_of_eq {r : ConnectionIoMode × UdpEndpoint} (h : r.1 = r.2.getIoMode) :
    r.1.Reports r.2.getIoMode := by
  rw [h]
  exact ⟨rfl, getIoMode_exclusive r.2⟩

theorem dead_reports {e : UdpEndpoint} (h : e.con.state = .dead) :
    ConnectionIoMode.Reports { dead := true } e.getIoMode := by
  rw [getIoMode, KssUDPXDRConnection.getIoMode, h]
  exact ⟨rfl, fun h => absurd h (by simp)⟩

theorem reset_reports (e : UdpEndpoint) : e.reset.1.Reports e.reset.2.getIoMode := by
  rw [reset]
  by_cases h : e.con.state = .dead
  · rw [if_pos h]
    exact dead_reports h
  · rw [if_neg h]
    exact reports_of_eq rfl

theorem timedOut_reports (e : UdpEndpoint) : e.timedOut.1.Reports e.timedOut.2.getIoMode := by
  rw [timedOut]
  split
  · exact reports_of_eq rfl
  · exact reset_reports e

theorem receiveMessage_reports (e : UdpEndpoint) :
    e.receiveMessage.1.Reports e.receiveMessage.2.getIoMode := by
  rw [receiveMessage]
  split
  · split_ifs
    · exact reports_of_eq rfl
    · split
      · exact (reports_of_eq (r := (_, _)) rfl).hadError true
      · exact reports_of_eq rfl
  · split
    · exact (reports_of_eq (r := (_, _)) rfl).hadError true
    · exact reports_of_eq rfl

theorem receiveLoop_reports (e : UdpEndpoint) (ios : List RecvOutcome) :
    (e.receiveLoop ios).1.Reports (e.receiveLoop ios).2.getIoMode := by
  fun_induction receiveLoop e ios with
  | case1 => exact reports_of_eq rfl
  | case2 ios ih => exact ih
  | case3 => exact reports_of_eq rfl
  | case4 => exact (reports_of_eq (r := (_, _)) rfl).hadRxError true
  | case5 d ios received e h => exact receiveMessage_reports e
  | case6 => exact (reports_of_eq (r := (_, _)) rfl).hadRxError true

theorem receive_reports (e : UdpEndpoint) (ios : List RecvOutcome) :
    (e.receive ios).1.Reports (e.receive ios).2.getIoMode := by
  rw [receive]
  split_ifs with h
  · exact dead_reports h
  · exact reset_reports e
  · exact receiveLoop_reports _ ios

theorem sendLoop_reports (e : UdpEndpoint) (ios : List SendOutcome) :
    (e.sendLoop ios).1.Reports (e.sendLoop ios).2.getIoMode := by
  fun_induction sendLoop e ios with
  | case1 => exact reports_of_eq rfl
  | case2 e ios ih => exact ih
  | case3 => exact reports_of_eq rfl
  | case4 e _ _ _ _ mode e' hreset =>
    have hmode : mode = (e.note (.sendto e.outgoing)).reset.1 := by rw [hreset]
    have hresult : e' = (e.note (.sendto e.outgoing)).reset.2 := by rw [hreset]
    rw [hmode, hresult]
    exact (reset_reports _).hadTxError true
  | case5 => exact reports_of_eq rfl

theorem send_reports (e : UdpEndpoint) (ios : List SendOutcome) :
    (e.send ios).1.Reports (e.send ios).2.getIoMode := by
  rw [send]
  split_ifs with h
  · exact dead_reports h
  · exact reset_reports e
  · exact sendLoop_reports e ios

end UdpEndpoint

/-- A connection with its file descriptor. TCP connections get their timeout when constructed, and
are then auto-destroyable or, as clients, not. -/
inductive KssConnection where
  | tcp (fd timeout : ℕ) (destroyable : Bool) (e : Endpoint)
  | udp (fd : ℕ) (e : UdpEndpoint)

/-- What the system calls of a member function bring. -/
structure ConnectionIo where
  tcp : SystemCalls := {}
  receives : List RecvOutcome := []
  sends : List SendOutcome := []

namespace KssConnection

def fd : KssConnection → ℕ
  | .tcp fd _ _ _ | .udp fd _ => fd

def autoDestroyable : KssConnection → Bool
  | .tcp _ _ destroyable _ => destroyable
  | .udp .. => false

def timeout : KssConnection → ℕ
  | .tcp _ timeout _ _ => timeout
  | .udp _ e => e.con.timeout.toNat

def state : KssConnection → ConnectionState
  | .tcp _ _ _ e => e.con.state
  | .udp _ e => e.con.state

def getIoMode : KssConnection → ConnectionIoMode
  | .tcp _ _ _ e => e.getIoMode
  | .udp _ e => e.getIoMode

/-- A call of a virtual function. -/
def virtual {α : Type} (tcp : Endpoint → α × Endpoint) (udp : UdpEndpoint → α × UdpEndpoint) :
    KssConnection → α × KssConnection
  | .tcp fd timeout destroyable e => ((tcp e).1, .tcp fd timeout destroyable (tcp e).2)
  | .udp fd e => ((udp e).1, .udp fd (udp e).2)

def shutdown : KssConnection → KssConnection
  | .tcp fd timeout destroyable e => .tcp fd timeout destroyable (e.setState .dead)
  | .udp fd e => .udp fd (e.setState .dead)

instance : ConnectionObject KssConnection ConnectionIo where
  getFd := fd
  isAutoDestroyable := autoDestroyable
  getTimeout := timeout
  getState := state
  getIoMode := getIoMode
  receive c io := virtual (·.receive io.tcp) (·.receive io.receives) c
  send c io := virtual (·.send io.tcp) (·.send io.sends) c
  timedOut := virtual Endpoint.timedOut UdpEndpoint.timedOut
  reset := virtual Endpoint.reset UdpEndpoint.reset
  shutdown := shutdown

theorem getIoMode_exclusive (c : KssConnection) : c.getIoMode.Exclusive := by
  cases c with
  | tcp _ _ _ e => exact e.getIoMode_exclusive
  | udp _ e => exact e.getIoMode_exclusive

variable {tcp : Endpoint → ConnectionIoMode × Endpoint}
  {udp : UdpEndpoint → ConnectionIoMode × UdpEndpoint}

theorem virtual_fd (c : KssConnection) : (virtual tcp udp c).2.fd = c.fd := by
  cases c <;> rfl

theorem virtual_reports (htcp : ∀ e, (tcp e).1.Reports (tcp e).2.getIoMode)
    (hudp : ∀ e, (udp e).1.Reports (udp e).2.getIoMode) (c : KssConnection) :
    (virtual tcp udp c).1.Reports (virtual tcp udp c).2.getIoMode := by
  cases c with
  | tcp _ _ _ e => exact htcp e
  | udp _ e => exact hudp e

theorem virtual_proper (htcp : ∀ e, (tcp e).1.Reports (tcp e).2.getIoMode)
    (hudp : ∀ e, (udp e).1.Reports (udp e).2.getIoMode) : Proper (virtual tcp udp) :=
  ⟨virtual_fd, fun c => (virtual_reports htcp hudp c).attention⟩

instance : LawfulConnection KssConnection ConnectionIo where
  getIoMode := getIoMode_exclusive
  receive io := virtual_proper (·.receive_reports io.tcp) (·.receive_reports io.receives)
  send io := virtual_proper (·.send_reports io.tcp) (·.send_reports io.sends)
  timedOut := virtual_proper Endpoint.timedOut_reports UdpEndpoint.timedOut_reports
  reset := virtual_proper Endpoint.reset_reports UdpEndpoint.reset_reports
  shutdown c := by cases c <;> rfl

end KssConnection

/-- In every order of calls on TCP and UDP connections, the lists and file descriptor sets of the
manager mirror the connections. -/
theorem connectionManager_mirrors {fdsetSize : ℕ} {ops : List (CnxSystem.Op KssConnection
    ConnectionIo)} {s : CnxSystem KssConnection}
    (hrun : run CnxSystem.step (some (CnxSystem.create fdsetSize)) ops = some s) : s.Mirrored :=
  CnxSystem.run_mirrored hrun

/-- A UDP server connection in zeroed memory. -/
def UdpEndpoint.started : UdpEndpoint where
  con := KssUDPXDRConnection.create
    { cnxType := .server, state := .dead, timeout := 0, totalTimeout := 0, timePassed := 0
      bufferSize := 0, xdrs := xdrmemCreate (fun _ => 0) 0 .decode, sendbuffer := fun _ => 0
      tosend := 0, clientAddress := ⟨0, 0⟩, rpcHeader := {} }
    30 5 none .server 16384 true true 0
  trace := []

/-- A turn at time `now` in which these bytes are transferred. -/
def transferTurn (now : ℤ) (counts : List ℕ) : Turn ConnectionIo where
  io := { tcp := { outcomes := counts.map .transfers } }
  rounds := [⟨now, {}⟩]
  resetRounds := [⟨now, {}⟩]

/-- Two connections are added; one of them receives a fragment header, and times out. -/
def twoConnections : List (CnxSystem.Op KssConnection ConnectionIo) :=
  [.construct (.tcp 4 30 true (.started [0x80, 0, 0, 8])), .addConnection 0 [⟨0, {}⟩],
    .construct (.udp 3 .started), .addConnection 1 [⟨0, {}⟩],
    .processConnections {4} ∅ (fun _ => transferTurn 1 [4]) (fun _ => transferTurn 1 []),
    .processTimeout 40000000 [transferTurn 40000000 []], .removeConnection 1]

theorem connectionManager_mirrors_twoConnections :
    ∃ s, run CnxSystem.step (some (CnxSystem.create 8)) twoConnections = some s ∧ s.Mirrored := by
  obtain ⟨s, hs⟩ := Option.isSome_iff_exists.mp
    (show (run CnxSystem.step (some (CnxSystem.create 8)) twoConnections).isSome = true by decide)
  exact ⟨s, hs, connectionManager_mirrors hs⟩

end AcpltKs
