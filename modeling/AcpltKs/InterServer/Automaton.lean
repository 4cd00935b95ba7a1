import AcpltKs.ConnectionMgr.Lingering
import AcpltKs.InterServer.Attention
import AcpltKs.Library.EventLog

/-! The automaton of an inter-server connection is consistent in every order of calls and of
attention for connection objects that connect, or fail to, before they answer requests. -/
namespace AcpltKs
open Function GuardedRun EventLog ConnectionObject

namespace CnxSystem

/-- No object goes that the manager may not destroy. -/
def Spares (s s' : CnxSystem KssConnection) : Prop :=
  ∀ con c, s.objects con = some c → isAutoDestroyable c = false →
    ∃ c', s'.objects con = some c' ∧ isAutoDestroyable c' = false

variable {s s' s'' : CnxSystem KssConnection} {item con : ℕ}

theorem Spares.refl (s : CnxSystem KssConnection) : s.Spares s := fun _ c hobj hauto =>
  ⟨c, hobj, hauto⟩

theorem Spares.trans (h : s.Spares s') (h' : s'.Spares s'') : s.Spares s'' := by
  intro con c hobj hauto
  obtain ⟨c', hobj', hauto'⟩ := h con c hobj hauto
  exact h' con c' hobj' hauto'

theorem spares_update {o : Option KssConnection} (ho : ∀ c, s.objects con = some c →
    isAutoDestroyable c = false → ∃ c' ∈ o, isAutoDestroyable c' = false) :
    s.Spares { s with objects := update s.objects con o } := by
  intro con' c hobj hauto
  by_cases hcon : con' = con
  · subst hcon
    obtain ⟨c', hc', hauto'⟩ := ho c hobj hauto
    exact ⟨c', (update_self ..).trans hc', hauto'⟩
  · exact ⟨c, (update_of_ne hcon ..).trans hobj, hauto⟩

theorem call_spares {α : Type} {f : KssConnection → α × KssConnection} {a : α}
    (hf : ∀ c, isAutoDestroyable (f c).2 = isAutoDestroyable c)
    (hc : s.call con f = some (a, s')) : s.Spares s' := by
  obtain ⟨c, hobj, -, rfl⟩ := call_eq hc
  refine spares_update fun c' hobj' hauto => ⟨_, rfl, ?_⟩
  obtain rfl := Option.some.inj (hobj.symm.trans hobj')
  rw [hf, hauto]

theorem trackCnxIoMode_spares {ioMode : ConnectionIoMode} {rounds : List (Round ConnectionIo)}
    (ht : s.trackCnxIoMode item ioMode rounds = some s') : s.Spares s' := by
  induction rounds generalizing s ioMode with
  | nil => exact absurd ht (by simp [trackCnxIoMode])
  | cons round rounds ih =>
    obtain ⟨con, -, ht⟩ := Option.bind_eq_some_iff.mp ht
    obtain ⟨c, -, ht⟩ := Option.bind_eq_some_iff.mp ht
    obtain ⟨m, -, ht⟩ := Option.bind_eq_some_iff.mp ht
    simp only at ht
    split_ifs at ht
    · obtain ⟨⟨ioMode', s₁⟩, hcall, ht⟩ := Option.bind_eq_some_iff.mp ht
      have hsend := CandidConnection.candid_send (C := KssConnection) round.io
      have hsent : Spares { s with manager := m } s₁ :=
        call_spares hsend.isAutoDestroyable hcall
      exact fun con' c' hobj => (hsent.trans (ih ht)) con' c' hobj
    · rw [← Option.some.inj ht]
      exact Spares.refl s

theorem unlessDead_spares {ok : Bool} (hu : s.unlessDead con = some (ok, s')) : s.Spares s' := by
  obtain ⟨c, hobj, hu⟩ := Option.bind_eq_some_iff.mp hu
  split_ifs at hu with hstate hauto
  · rw [← (Prod.mk.inj (Option.some.inj hu)).2]
    exact Spares.refl s
  · obtain ⟨s₁, hshut, hu⟩ := Option.bind_eq_some_iff.mp hu
    obtain ⟨⟨_, s₂⟩, hremove, hu⟩ := Option.bind_eq_some_iff.mp hu
    rw [← (Prod.mk.inj (Option.some.inj hu)).2]
    obtain ⟨_, _, hs₁⟩ := shutDown_eq hshut
    obtain ⟨_, _, hs₂⟩ := removeConnection_eq hremove
    intro con' c' hobj' hauto'
    have hcon : con' ≠ con := by
      rintro rfl
      obtain rfl := Option.some.inj (hobj.symm.trans hobj')
      exact absurd (hauto.symm.trans hauto') (by simp)
    refine ⟨c', ?_, hauto'⟩
    simp only [delete, hs₂, hs₁, update_of_ne hcon, hobj']
  · rw [← (Prod.mk.inj (Option.some.inj hu)).2]
    exact Spares.refl s

theorem trackConnection_spares {rounds : List (Round ConnectionIo)} {ok : Bool}
    (ht : s.trackConnection con rounds = some (ok, s')) : s.Spares s' := by
  obtain ⟨o, -, ht⟩ := Option.bind_eq_some_iff.mp ht
  cases o with
  | none =>
    rw [← (Prod.mk.inj (Option.some.inj ht)).2]
    exact Spares.refl s
  | some item =>
    obtain ⟨c, -, ht⟩ := Option.bind_eq_some_iff.mp ht
    obtain ⟨s₁, htrack, ht⟩ := Option.bind_eq_some_iff.mp ht
    obtain ⟨⟨ok', s₂⟩, hdead, ht⟩ := Option.bind_eq_some_iff.mp ht
    have htracked : s.Spares s₁ := by
      split_ifs at htrack
      · exact trackCnxIoMode_spares htrack
      · rw [← Option.some.inj htrack]
        exact Spares.refl s
    have hchecked := htracked.trans (unlessDead_spares hdead)
    simp only at ht
    split_ifs at ht
    · rwa [← (Prod.mk.inj (Option.some.inj ht)).2]
    · obtain ⟨⟨ioMode, s₃⟩, hreset, ht⟩ := Option.bind_eq_some_iff.mp ht
      rw [← (Prod.mk.inj (Option.some.inj ht)).2]
      have hcandid := CandidConnection.candid_reset (C := KssConnection)
      exact hchecked.trans (call_spares hcandid.isAutoDestroyable hreset)

theorem resetConnection_spares {rounds : List (Round ConnectionIo)} {ok : Bool}
    (ht : s.resetConnection con rounds = some (ok, s')) : s.Spares s' := by
  obtain ⟨o, -, ht⟩ := Option.bind_eq_some_iff.mp ht
  cases o with
  | none =>
    rw [← (Prod.mk.inj (Option.some.inj ht)).2]
    exact Spares.refl s
  | some item =>
    obtain ⟨c, -, ht⟩ := Option.bind_eq_some_iff.mp ht
    obtain ⟨s₁, htrack, hdead⟩ := Option.bind_eq_some_iff.mp ht
    refine Spares.trans ?_ (unlessDead_spares hdead)
    split_ifs at htrack
    · obtain ⟨⟨ioMode, s₂⟩, hreset, htrack⟩ := Option.bind_eq_some_iff.mp htrack
      have hcandid := CandidConnection.candid_reset (C := KssConnection)
      exact (call_spares hcandid.isAutoDestroyable hreset).trans (trackCnxIoMode_spares htrack)
    · rw [← Option.some.inj htrack]
      exact Spares.refl s

theorem addConnection_spares {rounds : List (Round ConnectionIo)} {ok : Bool}
    (ha : s.addConnection con rounds = some (ok, s')) : s.Spares s' := by
  obtain ⟨c, -, ha⟩ := Option.bind_eq_some_iff.mp ha
  cases hitem : s.manager.getConnectionItem (getFd c) with
  | none =>
    simp only [hitem] at ha
    rw [← (Prod.mk.inj (Option.some.inj ha)).2]
    exact Spares.refl s
  | some item =>
    simp only [hitem] at ha
    split_ifs at ha
    · rw [← (Prod.mk.inj (Option.some.inj ha)).2]
      exact Spares.refl s
    · obtain ⟨s₁, htrack, ha⟩ := Option.bind_eq_some_iff.mp ha
      rw [← (Prod.mk.inj (Option.some.inj ha)).2]
      exact fun con' c' hobj hauto => trackCnxIoMode_spares htrack con' c' hobj hauto

end CnxSystem

/-- What a connection object has reported so far, and whether a request has been sent on it. -/
inductive Phase where
  | fresh
  | established
  | requested
  deriving DecidableEq

def Phase.next (phase : Phase) : Notice → Phase
  | .created => .fresh
  | .reported .connected | .reported .connFailed => .established
  | .requested => .requested
  | _ => phase

/-- The phase of the latest connection object. -/
def phase (trace : List Notice) : Phase := trace.foldl Phase.next .fresh

theorem phase_concat (trace : List Notice) (n : Notice) :
    phase (trace ++ [n]) = (phase trace).next n := by
  rw [phase, List.foldl_append]
  rfl

def Notice.isOpened : Notice → Bool
  | .opened => true
  | _ => false

/-- Since the last successful call that opens, the manager is only asked for lower and lower protocol
versions, and there is only one notification that the connection is open. -/
structure Legitimate (before : List Notice) (n : Notice) : Prop where
  asked : ∀ version earlier, n = .asked version →
    .asked earlier ∈ sinceLast Notice.isOpened before → version < earlier
  opened : n = .notified .opOpen .opened →
    .notified .opOpen .opened ∉ sinceLast Notice.isOpened before

/-- Neither a request to the manager nor a notification that the connection is open. -/
def Notice.IsPlain (n : Notice) : Prop :=
  (∀ version, n ≠ .asked version) ∧ n ≠ .notified .opOpen .opened

theorem Notice.IsPlain.legitimate {n : Notice} (h : n.IsPlain) (before : List Notice) :
    Legitimate before n :=
  ⟨fun version _ hn => absurd hn (h.1 version), fun hn => absurd hn h.2⟩

namespace InterServer

/-- The calls of the user outside of notifications, and attention for the connection object, which
may have come into any state in the meantime. -/
inductive AutomatonEvent where
  | call (u : UserCall)
  | attention (c : KssConnection) (a : Attention)

/-- Attention for the connection object, which is now as `c`. -/
def attend (minVersion : ℕ) (w : InterServer) (c : KssConnection) (a : Attention) :
    Option (Bool × InterServer) := do
  let con ← w.isc.clnCon
  let system ← w.system.change con c
  attention minVersion { w with system } con a

def automatonStep (minVersion : ℕ) (o : Option InterServer) (e : AutomatonEvent) :
    Option InterServer :=
  o.bind fun w =>
    match e with
    | .call u => w.perform u
    | .attention c a => (w.attend minVersion c a).map Prod.snd

/-- A connection object first reports once that it is connected or has failed to connect, and that
it is ready or has failed only after a request was sent on it. -/
def Contract (w : InterServer) : AutomatonEvent → Prop
  | .call _ => True
  | .attention c _ =>
      match phase w.trace with
      | .fresh => getState c = .connected ∨ getState c = .connFailed
      | .established => False
      | .requested => getState c = .ready ∨ getState c = .readyFailed

/-- The connection object is there, and the manager is not going to delete it. -/
def Live (w : InterServer) (con : ℕ) : Prop :=
  ∃ c, w.system.objects con = some c ∧ isAutoDestroyable c = false

/-- What holds outside of attention. -/
structure Consistent (minVersion : ℕ) (w : InterServer) : Prop where
  closed_iff : w.isc.state = .closed ↔ w.isc.clnCon = none
  log : Always Legitimate w.trace
  reactivated : ∀ c a w', w.Contract (.attention c a) → w.attend minVersion c a = some (true, w') →
    w'.isc.clnCon = w.isc.clnCon ∧ ∀ con ∈ w'.isc.clnCon, w'.Live con

/-- The current protocol version can still be asked for. -/
def Askable (w : InterServer) : Prop :=
  w.isc.subState = .connectingPmap ∨
    w.isc.subState = .connectingManager ∧ phase w.trace = .fresh

/-- What every call keeps, also inside of notifications. -/
structure Invariant (w : InterServer) : Prop where
  closed_iff : w.isc.state = .closed ↔ w.isc.clnCon = none
  live : ∀ con ∈ w.isc.clnCon, w.Live con
  log : Always Legitimate w.trace
  version : w.isc.clnCon ≠ none → w.isc.protocolVersion ≠ 0
  asked : w.isc.clnCon ≠ none → ∀ version, .asked version ∈ sinceLast Notice.isOpened w.trace →
    w.isc.protocolVersion ≤ version ∧ (w.Askable → w.isc.protocolVersion < version)
  opened : w.isc.clnCon ≠ none →
    .notified .opOpen .opened ∈ sinceLast Notice.isOpened w.trace →
    w.isc.subState = .connectingServer ∧ phase w.trace ≠ .fresh

/-- Nothing changes that the automaton depends on, and no connection object goes. -/
structure Silent (w w' : InterServer) : Prop where
  clnCon : w'.isc.clnCon = w.isc.clnCon
  onceClosed : w'.isc.clnConOnceClosed = w.isc.clnConOnceClosed
  state : w'.isc.state = w.isc.state
  subState : w'.isc.subState = w.isc.subState
  version : w'.isc.protocolVersion = w.isc.protocolVersion
  trace : w'.trace = w.trace
  live : ∀ con, w.Live con → w'.Live con

variable {w w' w'' : InterServer}

theorem Silent.refl (w : InterServer) : Silent w w := ⟨rfl, rfl, rfl, rfl, rfl, rfl, fun _ => id⟩

theorem Silent.trans (h : Silent w w') (h' : Silent w' w'') : Silent w w'' :=
  ⟨h'.clnCon.trans h.clnCon, h'.onceClosed.trans h.onceClosed, h'.state.trans h.state,
    h'.subState.trans h.subState, h'.version.trans h.version, h'.trace.trans h.trace,
    fun con hcon => h'.live con (h.live con hcon)⟩

theorem silent_setResult (w : InterServer) (result : KsResultCode) :
    Silent w (w.setResult result) := ⟨rfl, rfl, rfl, rfl, rfl, rfl, fun _ => id⟩

theorem Invariant.silent (h : w.Invariant) (hs : Silent w w') : w'.Invariant := by
  have haskable : w'.Askable ↔ w.Askable := by
    rw [Askable, Askable, hs.subState, hs.trace]
  refine ⟨?_, ?_, hs.trace ▸ h.log, ?_, ?_, ?_⟩
  · rw [hs.state, hs.clnCon]
    exact h.closed_iff
  · rw [hs.clnCon]
    exact fun con hcon => hs.live con (h.live con hcon)
  · rw [hs.clnCon, hs.version]
    exact h.version
  · rw [hs.clnCon, hs.version, hs.trace, haskable]
    exact h.asked
  · rw [hs.clnCon, hs.trace, hs.subState]
    exact h.opened

/-- Without a connection object only the log matters. -/
theorem invariant_of_closed (hcon : w.isc.clnCon = none) (hstate : w.isc.state = .closed)
    (hlog : Always Legitimate w.trace) : w.Invariant := by
  refine ⟨⟨fun _ => hcon, fun _ => hstate⟩, fun con h => ?_, hlog, fun h => absurd hcon h,
    fun h => absurd hcon h, fun h => absurd hcon h⟩
  exact absurd (h.symm.trans hcon) (by simp)

/-- A note that is neither a request to the manager nor about being open, and that makes no
connection object fresh. -/
theorem Invariant.note (h : w.Invariant) {n : Notice} (hplain : n.IsPlain)
    (hphase : (phase w.trace).next n = .fresh → phase w.trace = .fresh)
    (hfresh : phase w.trace ≠ .fresh → (phase w.trace).next n ≠ .fresh) : (w.note n).Invariant := by
  have hsince : ∀ m, m ∈ sinceLast Notice.isOpened (w.note n).trace →
      m ∈ sinceLast Notice.isOpened w.trace ∨ m = n :=
    fun m hm => (mem_sinceLast_concat.mp hm).2
  refine ⟨h.closed_iff, h.live, always_concat.mpr ⟨h.log, hplain.legitimate _⟩, h.version,
    fun hcon version hm => ?_, fun hcon hm => ?_⟩
  · obtain hm | hm := hsince _ hm
    · obtain ⟨hle, hlt⟩ := h.asked hcon version hm
      refine ⟨hle, fun haskable => hlt ?_⟩
      refine haskable.imp_right fun hmanager => ⟨hmanager.1, hphase ?_⟩
      rw [← phase_concat]
      exact hmanager.2
    · exact absurd hm.symm (hplain.1 version)
  · obtain hm | hm := hsince _ hm
    · obtain ⟨hserver, hphase'⟩ := h.opened hcon hm
      refine ⟨hserver, ?_⟩
      rw [InterServer.note, phase_concat]
      exact hfresh hphase'
    · exact absurd hm.symm hplain.2

/-- A note that does not change the phase. -/
theorem Invariant.note_same (h : w.Invariant) {n : Notice} (hplain : n.IsPlain)
    (hphase : (phase w.trace).next n = phase w.trace) : (w.note n).Invariant :=
  h.note hplain (fun hfresh => hphase.symm.trans hfresh) fun hfresh hnext =>
    hfresh (hphase.symm.trans hnext)

theorem Invariant.note_requested (h : w.Invariant) : (w.note .requested).Invariant := by
  refine h.note ⟨fun version => ?_, ?_⟩ (fun hfresh => ?_) fun _ => ?_
  · simp
  · simp
  · exact absurd hfresh (by simp [Phase.next])
  · simp [Phase.next]

theorem silent_clnCall {α : Type} {f : KssConnection → α × KssConnection} {a : α}
    (hf : ∀ c, isAutoDestroyable (f c).2 = isAutoDestroyable c)
    (hc : w.clnCall f = some (a, w')) : Silent w w' ∧ w.isc.clnCon ≠ none := by
  obtain ⟨con, hcon, hc⟩ := Option.bind_eq_some_iff.mp hc
  obtain ⟨⟨a', system⟩, hcall, hc⟩ := Option.bind_eq_some_iff.mp hc
  obtain ⟨-, rfl⟩ := Prod.mk.inj (Option.some.inj hc)
  refine ⟨⟨rfl, rfl, rfl, rfl, rfl, rfl, fun con' ⟨c, hobj, hauto⟩ => ?_⟩, ?_⟩
  · exact CnxSystem.call_spares hf hcall con' c hobj hauto
  · rw [hcon]
    simp

theorem virtual_isAutoDestroyable {α : Type} {tcp : Endpoint → α × Endpoint}
    {udp : UdpEndpoint → α × UdpEndpoint} (c : KssConnection) :
    isAutoDestroyable (KssConnection.virtual tcp udp c).2 = isAutoDestroyable c := by
  cases c <;> rfl

theorem serialize_isAutoDestroyable (args : Payload) (otherwise : Bool) (c : KssConnection) :
    isAutoDestroyable (c.serialize args otherwise).2 = isAutoDestroyable c := by
  rw [KssConnection.serialize]
  split_ifs
  · exact virtual_isAutoDestroyable c
  · rfl

theorem deserialize_isAutoDestroyable (r : XdrReader Bool) (otherwise : Bool) (c : KssConnection) :
    isAutoDestroyable (c.deserialize r otherwise).2 = isAutoDestroyable c := by
  rw [KssConnection.deserialize]
  split_ifs
  · exact virtual_isAutoDestroyable c
  · rfl

theorem sendRequest_eq (hs : w.sendRequest = some w') :
    ∃ w₀, Silent w w₀ ∧ w.isc.clnCon ≠ none ∧ w' = w₀.note .requested := by
  obtain ⟨⟨_, w₀⟩, hcall, hs⟩ := Option.bind_eq_some_iff.mp hs
  obtain ⟨hsilent, hcon⟩ := silent_clnCall virtual_isAutoDestroyable hcall
  exact ⟨w₀, hsilent, hcon, (Option.some.inj hs).symm⟩

theorem closeConnection_eq (hc : w.closeConnection = some w') :
    w'.isc = { w.isc with clnCon := none, clnConOnceClosed := true, state := .closed } ∧
      w'.trace = w.trace := by
  obtain ⟨system, -, hc⟩ := Option.bind_eq_some_iff.mp hc
  rw [← Option.some.inj hc]
  exact ⟨rfl, rfl⟩

theorem closeConnection_invariant (hlog : Always Legitimate w.trace)
    (hc : w.closeConnection = some w') : w'.Invariant := by
  obtain ⟨hisc, htrace⟩ := closeConnection_eq hc
  refine invariant_of_closed ?_ ?_ (htrace ▸ hlog)
  · rw [hisc]
  · rw [hisc]

/-- Either there is a new connection object, or nothing has changed that matters. -/
structure Opens (w w' : InterServer) (subState : ISCSubState) (ok : Bool) : Prop where
  version : w'.isc.protocolVersion = w.isc.protocolVersion
  onceClosed : w'.isc.clnConOnceClosed = w.isc.clnConOnceClosed
  cases : ok = false ∧ w'.isc.state = .closed ∧ w'.isc.clnCon = none ∧ w'.trace = w.trace ∨
    ok = true ∧ w'.isc.state = .busy ∧ w'.isc.subState = subState ∧
      w'.trace = w.trace ++ [.created] ∧ ∃ con, w'.isc.clnCon = some con ∧ w'.Live con

theorem openConnection_opens {subState : ISCSubState} {port : UInt16}
    {new : SocketAddress → ℕ → KssConnection} {c : Creation} {ok : Bool}
    (hnew : ∀ addr sock, getState (new addr sock) ≠ .dead →
      isAutoDestroyable (new addr sock) = false)
    (ho : w.openConnection subState port new c = some (ok, w')) (hclosed : w.isc.state = .closed)
    (hcon : w.isc.clnCon = none) : Opens w w' subState ok := by
  rw [openConnection] at ho
  cases hsock : c.sock with
  | none =>
    simp only [hsock] at ho
    obtain ⟨rfl, rfl⟩ := Prod.mk.inj (Option.some.inj ho)
    exact ⟨rfl, rfl, Or.inl ⟨rfl, hclosed, hcon, rfl⟩⟩
  | some sock =>
    simp only [hsock] at ho
    split_ifs at ho with hallocated hdead
    · obtain ⟨rfl, rfl⟩ := Prod.mk.inj (Option.some.inj ho)
      exact ⟨rfl, rfl, Or.inl ⟨rfl, hclosed, rfl, rfl⟩⟩
    · obtain ⟨⟨_, system⟩, -, ho⟩ := Option.bind_eq_some_iff.mp ho
      obtain ⟨rfl, rfl⟩ := Prod.mk.inj (Option.some.inj ho)
      exact ⟨rfl, rfl, Or.inl ⟨rfl, hclosed, rfl, rfl⟩⟩
    · obtain ⟨w₁, hactivate, ho⟩ := Option.bind_eq_some_iff.mp ho
      obtain ⟨rfl, rfl⟩ := Prod.mk.inj (Option.some.inj ho)
      obtain ⟨⟨_, system⟩, hadd, hactivate⟩ := Option.bind_eq_some_iff.mp hactivate
      rw [← Option.some.inj hactivate]
      refine ⟨rfl, rfl, Or.inr ⟨rfl, rfl, rfl, rfl, w.system.next, rfl, ?_⟩⟩
      exact CnxSystem.addConnection_spares hadd w.system.next _ (update_self ..) (hnew _ _ hdead)

theorem newTcp_isAutoDestroyable (fd timeout : ℕ) (c : Creation)
    (h : getState (KssConnection.newTcp fd timeout c) ≠ .dead) :
    isAutoDestroyable (KssConnection.newTcp fd timeout c) = false := by
  rcases hstream : xdrmemstreamCreate c.pool c.info with ⟨_ | xdrs, pool⟩
  · simp [KssConnection.newTcp, KssTCPXDRConnection.create, hstream, getState,
      KssConnection.state, Endpoint.opened] at h
  · cases hblock : c.nonblocking
    · simp [KssConnection.newTcp, KssTCPXDRConnection.create, hstream, hblock, getState,
        KssConnection.state, Endpoint.opened] at h
    · simp [KssConnection.newTcp, KssTCPXDRConnection.create, hstream, hblock, isAutoDestroyable,
        KssConnection.autoDestroyable]

theorem openPortmapperConnection_opens {c : Creation} {ok : Bool}
    (ho : w.openPortmapperConnection c = some (ok, w')) (hclosed : w.isc.state = .closed)
    (hcon : w.isc.clnCon = none) : Opens w w' .connectingPmap ok :=
  openConnection_opens (fun _ _ _ => rfl) ho hclosed hcon

theorem openManagerConnection_opens {port : UInt16} {udp : Bool} {c : Creation} {ok : Bool}
    (ho : w.openManagerConnection port udp c = some (ok, w')) (hclosed : w.isc.state = .closed)
    (hcon : w.isc.clnCon = none) : Opens w w' .connectingManager ok := by
  refine openConnection_opens (fun addr sock hdead => ?_) ho hclosed hcon
  cases udp
  · exact newTcp_isAutoDestroyable _ _ c hdead
  · rfl

theorem openServerConnection_opens {port : UInt16} {c : Creation} {ok : Bool}
    (ho : w.openServerConnection port c = some (ok, w')) (hclosed : w.isc.state = .closed)
    (hcon : w.isc.clnCon = none) : Opens w w' .connectingServer ok :=
  openConnection_opens (fun _ _ => newTcp_isAutoDestroyable _ _ c) ho hclosed hcon

/-- A new connection object is as good as the requests and notifications before it allow. -/
theorem Opens.invariant {subState : ISCSubState} {ok : Bool} (h : Opens w w' subState ok)
    (hlog : Always Legitimate w.trace) (hversion : w.isc.protocolVersion ≠ 0)
    (hasked : ∀ version, .asked version ∈ sinceLast Notice.isOpened w.trace →
      w.isc.protocolVersion ≤ version ∧
        (subState ≠ .connectingServer → w.isc.protocolVersion < version))
    (hopened : .notified .opOpen .opened ∉ sinceLast Notice.isOpened w.trace) : w'.Invariant := by
  obtain ⟨-, hstate, hcon, htrace⟩ | ⟨-, hstate, hsub, htrace, con, hcon, hlive⟩ := h.cases
  · exact invariant_of_closed hcon hstate (htrace ▸ hlog)
  · have hsince : ∀ n, n ∈ sinceLast Notice.isOpened w'.trace → n ≠ .created →
        n ∈ sinceLast Notice.isOpened w.trace := by
      intro n hn hne
      rw [htrace] at hn
      exact (mem_sinceLast_concat.mp hn).2.resolve_right hne
    refine ⟨?_, ?_, ?_, fun _ => ?_, fun _ version hm => ?_, fun _ hm => ?_⟩
    · simp [hstate, hcon]
    · intro con' hcon'
      rwa [← Option.some.inj (hcon.symm.trans hcon')]
    · rw [htrace]
      refine always_concat.mpr ⟨hlog, Notice.IsPlain.legitimate ⟨fun version => ?_, ?_⟩ _⟩
      · simp
      · simp
    · rwa [h.version]
    · obtain ⟨hle, hlt⟩ := hasked version (hsince _ hm (by simp))
      rw [h.version]
      refine ⟨hle, fun haskable => hlt ?_⟩
      rw [Askable, hsub] at haskable
      rintro rfl
      simp at haskable
    · exact absurd (hsince _ hm (by simp)) hopened

/-- Unless the connection has been closed, its connection object is the same. -/
def SameUnlessClosed (w w' : InterServer) : Prop :=
  w'.isc.clnConOnceClosed = false →
    w.isc.clnConOnceClosed = false ∧ (w.isc.clnCon ≠ none → w'.isc.clnCon = w.isc.clnCon)

theorem Silent.same (h : Silent w w') : SameUnlessClosed w w' :=
  fun hclosed => ⟨h.onceClosed.symm.trans hclosed, fun _ => h.clnCon⟩

/-- A call keeps the invariant, and the connection object unless it closes the connection. -/
def Kept (w w' : InterServer) : Prop := w'.Invariant ∧ SameUnlessClosed w w'

theorem Invariant.kept (h : w.Invariant) (hs : Silent w w') : Kept w w' := ⟨h.silent hs, hs.same⟩

theorem contact_opens {c : Creation} {ok : Bool} (ho : w.contact c = some (ok, w'))
    (hclosed : w.isc.state = .closed) (hcon : w.isc.clnCon = none) :
    ∃ subState, Opens w w' subState ok := by
  rw [contact] at ho
  split_ifs at ho
  · exact ⟨_, openServerConnection_opens ho hclosed hcon⟩
  · exact ⟨_, openManagerConnection_opens ho hclosed hcon⟩
  · exact ⟨_, openPortmapperConnection_opens ho hclosed hcon⟩

/-- What was asked and notified before a successful call that opens does not matter. -/
theorem Opens.opened_invariant {subState : ISCSubState} (h : Opens w w' subState true)
    (hlog : Always Legitimate w.trace) (hversion : w.isc.protocolVersion ≠ 0) :
    (w'.note .opened).Invariant := by
  obtain ⟨hok, -⟩ | ⟨-, hstate, hsub, htrace, con, hcon, hlive⟩ := h.cases
  · exact absurd hok (by simp)
  · have hsince : sinceLast Notice.isOpened (w'.note .opened).trace = [] :=
      sinceLast_concat ..
    refine ⟨?_, ?_, ?_, fun _ => ?_, fun _ version hm => ?_, fun _ hm => ?_⟩
    · simp [InterServer.note, hstate, hcon]
    · intro con' hcon'
      rwa [← Option.some.inj (hcon.symm.trans hcon')]
    · rw [InterServer.note, htrace]
      have hplain : ∀ n : Notice, n = .created ∨ n = .opened → n.IsPlain := by
        rintro n (rfl | rfl) <;> simp [Notice.IsPlain]
      exact always_concat.mpr ⟨always_concat.mpr ⟨hlog, (hplain _ (Or.inl rfl)).legitimate _⟩,
        (hplain _ (Or.inr rfl)).legitimate _⟩
    · exact h.version ▸ hversion
    · rw [hsince] at hm
      exact absurd hm List.not_mem_nil
    · rw [hsince] at hm
      exact absurd hm List.not_mem_nil

/-- Opening finds no connection object that it could replace. -/
theorem startOpen_same (hclosed_iff : w.isc.state = .closed ↔ w.isc.clnCon = none)
    {lookup : HostLookup} {c : Creation} {ok : Bool}
    (ho : w.startOpen lookup c = some (ok, w')) : SameUnlessClosed w w' := by
  rw [InterServer.startOpen] at ho
  by_cases hstate : w.isc.state ≠ .closed
  · rw [if_pos hstate] at ho
    obtain ⟨-, rfl⟩ := Prod.mk.inj (Option.some.inj ho)
    exact (silent_setResult w _).same
  · rw [if_neg hstate] at ho
    have hclosed := not_ne_iff.mp hstate
    have hcon := hclosed_iff.mp hclosed
    have hsame : w'.isc.clnConOnceClosed = w.isc.clnConOnceClosed → SameUnlessClosed w w' :=
      fun honce hfalse => ⟨honce.symm.trans hfalse, fun hne => absurd hcon hne⟩
    simp only at ho
    split at ho
    · obtain ⟨-, rfl⟩ := Prod.mk.inj (Option.some.inj ho)
      exact hsame rfl
    · split at ho
      · obtain ⟨-, rfl⟩ := Prod.mk.inj (Option.some.inj ho)
        exact hsame rfl
      · obtain ⟨⟨ok', w₁⟩, hopen, hres⟩ := Option.bind_eq_some_iff.mp ho
        obtain ⟨-, hw'⟩ := Prod.mk.inj (Option.some.inj hres)
        obtain ⟨subState, hopens⟩ := contact_opens hopen hclosed hcon
        refine hsame ?_
        rw [← hw', ← hopens.onceClosed]
        cases ok' <;> rfl

theorem Invariant.startOpen (h : w.Invariant) {lookup : HostLookup} {c : Creation} {ok : Bool}
    (ho : w.startOpen lookup c = some (ok, w')) : w'.Invariant := by
  rw [InterServer.startOpen] at ho
  by_cases hstate : w.isc.state ≠ .closed
  · rw [if_pos hstate] at ho
    obtain ⟨-, rfl⟩ := Prod.mk.inj (Option.some.inj ho)
    exact h.silent (silent_setResult w _)
  · rw [if_neg hstate] at ho
    have hclosed := not_ne_iff.mp hstate
    have hcon := h.closed_iff.mp hclosed
    simp only at ho
    split at ho
    · obtain ⟨-, rfl⟩ := Prod.mk.inj (Option.some.inj ho)
      exact invariant_of_closed hcon hclosed h.log
    · split at ho
      · obtain ⟨-, rfl⟩ := Prod.mk.inj (Option.some.inj ho)
        exact invariant_of_closed hcon hclosed h.log
      · obtain ⟨⟨ok', w₁⟩, hopen, hres⟩ := Option.bind_eq_some_iff.mp ho
        obtain ⟨-, hw'⟩ := Prod.mk.inj (Option.some.inj hres)
        obtain ⟨subState, hopens⟩ := contact_opens hopen hclosed hcon
        rw [← hw']
        cases ok' with
        | true => exact hopens.opened_invariant h.log (show ksProtocolVersion ≠ 0 by decide)
        | false =>
          obtain ⟨-, hstate', hcon', htrace⟩ | ⟨hok, -⟩ := hopens.cases
          · exact invariant_of_closed hcon' hstate' (htrace ▸ h.log)
          · exact absurd hok (by simp)

theorem close_same (hc : w.close = some w') : SameUnlessClosed w w' := by
  obtain ⟨w₁, hclose, hw'⟩ := Option.bind_eq_some_iff.mp hc
  rw [← Option.some.inj hw']
  intro honce
  have hisc := (closeConnection_eq hclose).1
  rw [InterServer.note, hisc] at honce
  exact absurd honce (by simp)

theorem Invariant.close (h : w.Invariant) (hc : w.close = some w') : w'.Invariant := by
  obtain ⟨w₁, hclose, hw'⟩ := Option.bind_eq_some_iff.mp hc
  rw [← Option.some.inj hw']
  refine (closeConnection_invariant h.log hclose).note_same ⟨fun version => ?_, ?_⟩ rfl
  · simp
  · simp

theorem beginSend_silent {xid serviceid : UInt32} {ok : Bool}
    (hb : w.beginSend xid serviceid = some (ok, w')) : Silent w w' := by
  rw [beginSend] at hb
  split_ifs at hb
  · rw [← (Prod.mk.inj (Option.some.inj hb)).2]
    exact silent_setResult w _
  · obtain ⟨⟨ok', w₁⟩, hcall, hb⟩ := Option.bind_eq_some_iff.mp hb
    have hsilent := (silent_clnCall virtual_isAutoDestroyable hcall).1
    simp only at hb
    split_ifs at hb <;>
    · rw [← (Prod.mk.inj (Option.some.inj hb)).2]
      exact hsilent.trans (silent_setResult w₁ _)

theorem beginReceive_silent {ok : Bool} (hb : w.beginReceive = some (ok, w')) : Silent w w' := by
  rw [beginReceive] at hb
  split_ifs at hb
  · rw [← (Prod.mk.inj (Option.some.inj hb)).2]
    exact silent_setResult w _
  · obtain ⟨⟨h, w₁⟩, hcall, hb⟩ := Option.bind_eq_some_iff.mp hb
    have hsilent := (silent_clnCall (fun _ => rfl) hcall).1
    simp only at hb
    split_ifs at hb <;>
    · rw [← (Prod.mk.inj (Option.some.inj hb)).2]
      exact hsilent.trans (silent_setResult w₁ _)

theorem silent_system {system : CnxSystem KssConnection} (h : w.system.Spares system) :
    Silent w { w with system } :=
  ⟨rfl, rfl, rfl, rfl, rfl, rfl, fun con ⟨c, hobj, hauto⟩ => h con c hobj hauto⟩

theorem endReceive_silent {rounds : List (Round ConnectionIo)} {ok : Bool}
    (he : w.endReceive rounds = some (ok, w')) : Silent w w' := by
  rw [endReceive] at he
  split_ifs at he
  · rw [← (Prod.mk.inj (Option.some.inj he)).2]
    exact silent_setResult w _
  · obtain ⟨con, -, he⟩ := Option.bind_eq_some_iff.mp he
    obtain ⟨⟨ok', system⟩, hreset, he⟩ := Option.bind_eq_some_iff.mp he
    rw [← (Prod.mk.inj (Option.some.inj he)).2]
    exact (silent_system (CnxSystem.resetConnection_spares hreset)).trans (silent_setResult _ _)

theorem receive_silent {result : XdrReader Bool} {otherwise : Bool}
    {rounds : List (Round ConnectionIo)} {ok : Bool}
    (hr : w.receive result otherwise rounds = some (ok, w')) : Silent w w' := by
  obtain ⟨⟨ok₁, w₁⟩, hbegin, hr⟩ := Option.bind_eq_some_iff.mp hr
  have h₁ := beginReceive_silent hbegin
  simp only at hr
  split_ifs at hr
  · obtain ⟨⟨ticket, w₂⟩, hticket, hr⟩ := Option.bind_eq_some_iff.mp hr
    obtain ⟨⟨read, w₃⟩, hread, hr⟩ := Option.bind_eq_some_iff.mp hr
    obtain ⟨⟨ok₂, w₄⟩, hend, hr⟩ := Option.bind_eq_some_iff.mp hr
    have h₂ := (silent_clnCall (deserialize_isAutoDestroyable _ _) hticket).1
    have h₃ := (silent_clnCall (deserialize_isAutoDestroyable _ _) hread).1
    have h₄ := ((h₁.trans h₂).trans h₃).trans (endReceive_silent hend)
    simp only at hr
    split_ifs at hr
    · rwa [← (Prod.mk.inj (Option.some.inj hr)).2]
    · rw [← (Prod.mk.inj (Option.some.inj hr)).2]
      exact h₄.trans (silent_setResult _ _)
  · rwa [← (Prod.mk.inj (Option.some.inj hr)).2]

theorem useXdr_silent {f : KssConnection → Bool × KssConnection}
    (hf : ∀ c, isAutoDestroyable (f c).2 = isAutoDestroyable c) (hu : w.useXdr f = some w') :
    Silent w w' := by
  rw [useXdr] at hu
  split at hu
  · rw [← Option.some.inj hu]
    exact Silent.refl w
  · obtain ⟨⟨a, w₁⟩, hcall, rfl⟩ := Option.map_eq_some_iff.mp hu
    exact (silent_clnCall hf hcall).1

/-- The request goes out on the connection object that is there. -/
theorem endSend_same {rounds : List (Round ConnectionIo)} {ok : Bool}
    (he : w.endSend rounds = some (ok, w')) : SameUnlessClosed w w' := by
  have hsame : w'.isc.clnCon = w.isc.clnCon ∧
      w'.isc.clnConOnceClosed = w.isc.clnConOnceClosed := by
    rw [endSend] at he
    split_ifs at he
    · rw [← (Prod.mk.inj (Option.some.inj he)).2]
      exact ⟨rfl, rfl⟩
    · obtain ⟨w₁, hsend, he₁⟩ := Option.bind_eq_some_iff.mp he
      obtain ⟨⟨_, w₂⟩, htimeout, he₂⟩ := Option.bind_eq_some_iff.mp he₁
      obtain ⟨con, -, he₃⟩ := Option.bind_eq_some_iff.mp he₂
      obtain ⟨⟨ok', system⟩, -, he₄⟩ := Option.bind_eq_some_iff.mp he₃
      obtain ⟨w₀, hsilent, -, rfl⟩ := sendRequest_eq hsend
      have h₂ := (silent_clnCall (f := fun c => ((), c.setTimeout _))
        (fun c => by cases c <;> rfl) htimeout).1
      have hall : w₂.isc.clnCon = w.isc.clnCon ∧
          w₂.isc.clnConOnceClosed = w.isc.clnConOnceClosed :=
        ⟨h₂.clnCon.trans hsilent.clnCon, h₂.onceClosed.trans hsilent.onceClosed⟩
      simp only at he₄
      split_ifs at he₄ <;>
      · rw [← (Prod.mk.inj (Option.some.inj he₄)).2]
        exact hall
  exact fun honce => ⟨hsame.2.symm.trans honce, fun _ => hsame.1⟩

/-- The connection is busy once the request is on its way. -/
theorem Invariant.endSend (h : w.Invariant) {rounds : List (Round ConnectionIo)} {ok : Bool}
    (he : w.endSend rounds = some (ok, w')) : w'.Invariant := by
  rw [InterServer.endSend] at he
  by_cases hstate : w.isc.state ≠ .opened
  · rw [if_pos hstate] at he
    rw [← (Prod.mk.inj (Option.some.inj he)).2]
    exact h.silent (silent_setResult w _)
  · rw [if_neg hstate] at he
    obtain ⟨w₁, hsend, he₁⟩ := Option.bind_eq_some_iff.mp he
    obtain ⟨⟨_, w₂⟩, htimeout, he₂⟩ := Option.bind_eq_some_iff.mp he₁
    obtain ⟨con, hcon, he₃⟩ := Option.bind_eq_some_iff.mp he₂
    obtain ⟨⟨ok', system⟩, htrack, he₄⟩ := Option.bind_eq_some_iff.mp he₃
    obtain ⟨w₀, hsilent, -, hw₁⟩ := sendRequest_eq hsend
    have h₂ := (silent_clnCall (f := fun c => ((), c.setTimeout _))
      (fun c => by cases c <;> rfl) htimeout).1
    have h₃ := h₂.trans (silent_system (CnxSystem.trackConnection_spares htrack))
    have hinv := (hw₁ ▸ (h.silent hsilent).note_requested : w₁.Invariant).silent h₃
    simp only at he₄
    split at he₄
    · rw [← (Prod.mk.inj (Option.some.inj he₄)).2]
      refine Invariant.note_same ?_ ⟨fun version => ?_, ?_⟩ rfl
      · refine ⟨?_, hinv.live, hinv.log, hinv.version, hinv.asked, hinv.opened⟩
        simp [hcon]
      · simp
      · simp
    · rw [← (Prod.mk.inj (Option.some.inj he₄)).2]
      exact hinv.silent (silent_setResult _ _)

theorem SameUnlessClosed.of_silent (h : Silent w w') (hsame : SameUnlessClosed w' w'') :
    SameUnlessClosed w w'' := by
  intro honce
  obtain ⟨honce', hcon⟩ := hsame honce
  refine ⟨h.onceClosed.symm.trans honce', fun hne => ?_⟩
  rw [hcon (h.clnCon ▸ hne), h.clnCon]

theorem send_cases {xid serviceid : UInt32} {params : Payload}
    {rounds : List (Round ConnectionIo)} {ok : Bool}
    (hs : w.send xid serviceid params rounds = some (ok, w')) :
    Silent w w' ∨ ∃ w₀, Silent w w₀ ∧ w₀.endSend rounds = some (ok, w') := by
  obtain ⟨⟨ok₁, w₁⟩, hbegin, hs⟩ := Option.bind_eq_some_iff.mp hs
  have h₁ := beginSend_silent hbegin
  simp only at hs
  split_ifs at hs
  · obtain ⟨⟨ticket, w₂⟩, hticket, hs⟩ := Option.bind_eq_some_iff.mp hs
    obtain ⟨⟨ok₂, w₃⟩, hparams, hs⟩ := Option.bind_eq_some_iff.mp hs
    have h₂ := (silent_clnCall virtual_isAutoDestroyable hticket).1
    have h₃ := (h₁.trans h₂).trans (silent_clnCall virtual_isAutoDestroyable hparams).1
    simp only at hs
    split_ifs at hs
    · exact Or.inr ⟨w₃, h₃, hs⟩
    · rw [← (Prod.mk.inj (Option.some.inj hs)).2]
      exact Or.inl (h₃.trans (silent_setResult _ _))
  · rw [← (Prod.mk.inj (Option.some.inj hs)).2]
    exact Or.inl h₁

/-- A call opens, closes, sends, or leaves the automaton alone. -/
theorem perform_cases {u : UserCall} (hp : w.perform u = some w') :
    Silent w w' ∨ (∃ lookup c ok, w.startOpen lookup c = some (ok, w')) ∨ w.close = some w' ∨
      ∃ w₀ rounds ok, Silent w w₀ ∧ w₀.endSend rounds = some (ok, w') := by
  cases u with
  | setTimeouts connectTimeout callTimeout =>
    rw [← Option.some.inj hp]
    exact Or.inl ⟨rfl, rfl, rfl, rfl, rfl, rfl, fun _ => id⟩
  | startOpen lookup creation =>
    obtain ⟨⟨ok, w₁⟩, ho, rfl⟩ := Option.map_eq_some_iff.mp hp
    exact Or.inr (Or.inl ⟨lookup, creation, ok, ho⟩)
  | close => exact Or.inr (Or.inr (Or.inl hp))
  | beginSend xid serviceid =>
    obtain ⟨⟨ok, w₁⟩, hb, rfl⟩ := Option.map_eq_some_iff.mp hp
    exact Or.inl (beginSend_silent hb)
  | encode args otherwise =>
    exact Or.inl (useXdr_silent (serialize_isAutoDestroyable args otherwise) hp)
  | endSend rounds =>
    obtain ⟨⟨ok, w₁⟩, he, rfl⟩ := Option.map_eq_some_iff.mp hp
    exact Or.inr (Or.inr (Or.inr ⟨w, rounds, ok, Silent.refl w, he⟩))
  | send xid serviceid params rounds =>
    obtain ⟨⟨ok, w₁⟩, hs, rfl⟩ := Option.map_eq_some_iff.mp hp
    obtain hsilent | ⟨w₀, hsilent, he⟩ := send_cases hs
    · exact Or.inl hsilent
    · exact Or.inr (Or.inr (Or.inr ⟨w₀, rounds, ok, hsilent, he⟩))
  | beginReceive =>
    obtain ⟨⟨ok, w₁⟩, hb, rfl⟩ := Option.map_eq_some_iff.mp hp
    exact Or.inl (beginReceive_silent hb)
  | decode r otherwise =>
    exact Or.inl (useXdr_silent (deserialize_isAutoDestroyable r otherwise) hp)
  | endReceive rounds =>
    obtain ⟨⟨ok, w₁⟩, he, rfl⟩ := Option.map_eq_some_iff.mp hp
    exact Or.inl (endReceive_silent he)
  | receive result otherwise rounds =>
    obtain ⟨⟨ok, w₁⟩, hr, rfl⟩ := Option.map_eq_some_iff.mp hp
    exact Or.inl (receive_silent hr)

theorem perform_same (hclosed_iff : w.isc.state = .closed ↔ w.isc.clnCon = none) {u : UserCall}
    (hp : w.perform u = some w') : SameUnlessClosed w w' := by
  obtain hsilent | ⟨_, _, _, ho⟩ | hc | ⟨w₀, _, _, hsilent, he⟩ := perform_cases hp
  · exact hsilent.same
  · exact startOpen_same hclosed_iff ho
  · exact close_same hc
  · exact (endSend_same he).of_silent hsilent

theorem Invariant.perform (h : w.Invariant) {u : UserCall} (hp : w.perform u = some w') :
    Kept w w' := by
  refine ⟨?_, perform_same h.closed_iff hp⟩
  obtain hsilent | ⟨_, _, _, ho⟩ | hc | ⟨w₀, _, _, hsilent, he⟩ := perform_cases hp
  · exact h.silent hsilent
  · exact h.startOpen ho
  · exact h.close hc
  · exact (h.silent hsilent).endSend he

end InterServer
end AcpltKs
