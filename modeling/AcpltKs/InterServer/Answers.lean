import AcpltKs.InterServer.Partner

/-! The calls of the user of an inter-server connection, and what they mean for a connection object
whose answer has been reported. -/
namespace AcpltKs
open Function GuardedRun EventLog ConnectionObject ConnectionState

namespace KssConnection

theorem virtual_sameState {α : Type} {tcp : Endpoint → α × Endpoint}
    {udp : UdpEndpoint → α × UdpEndpoint} (htcp : ∀ e, (tcp e).2.con.cnxType = e.con.cnxType ∧
      (tcp e).2.con.state = e.con.state) (c : KssConnection) :
    SameState c (virtual tcp udp c).2 := by
  cases c with
  | tcp _ _ _ e => exact .tcp (htcp e).1 (htcp e).2
  | udp => exact .udp

theorem beginRequest_sameState (xid progNumber progVersion procNumber : UInt32)
    (c : KssConnection) : SameState c (c.beginRequest xid progNumber progVersion procNumber).2 := by
  refine virtual_sameState (fun e => ?_) c
  have hencode : ∀ h : KsRpcHeader, (e.encodeMessage h []).2.con.cnxType = e.con.cnxType := by
    intro h
    unfold Endpoint.encodeMessage
    dsimp only
    split
    · rfl
    · split <;> rfl
  rw [Endpoint.beginRequest]
  split_ifs
  · exact ⟨rfl, rfl⟩
  · exact ⟨hencode _, Endpoint.encodeMessage_state ..⟩

theorem encodeArguments_sameState (args : Payload) (c : KssConnection) :
    SameState c (c.encodeArguments args).2 := virtual_sameState (fun _ => ⟨rfl, rfl⟩) c

theorem decode_sameState {α : Type} (r : XdrReader α) (c : KssConnection) :
    SameState c (c.decode r).2 := virtual_sameState (fun _ => ⟨rfl, rfl⟩) c

theorem serialize_sameState (args : Payload) (otherwise : Bool) (c : KssConnection) :
    SameState c (c.serialize args otherwise).2 := by
  rw [serialize]
  split_ifs
  · exact encodeArguments_sameState args c
  · exact SameState.refl c

theorem deserialize_sameState (r : XdrReader Bool) (otherwise : Bool) (c : KssConnection) :
    SameState c (c.deserialize r otherwise).2 := by
  rw [deserialize]
  split_ifs
  · exact decode_sameState r c
  · exact SameState.refl c

theorem setTimeout_sameState (timeout : ℕ) (c : KssConnection) :
    SameState c (c.setTimeout timeout) := by
  cases c
  · exact .tcp rfl rfl
  · exact .udp

end KssConnection

namespace CnxSystem

/-- Only streams and timeouts of connections may have changed. -/
structure Mild (s s' : CnxSystem KssConnection) : Prop where
  manager : s'.manager = s.manager
  next : s'.next = s.next
  object : ∀ con c', s'.objects con = some c' →
    ∃ c, s.objects con = some c ∧ KssConnection.SameState c c'

variable {s s' s'' : CnxSystem KssConnection} {con : ℕ} {pending : ℤ}

theorem Mild.refl (s : CnxSystem KssConnection) : Mild s s :=
  ⟨rfl, rfl, fun _ c' hobj => ⟨c', hobj, .refl c'⟩⟩

theorem call_mild {α : Type} {f : KssConnection → α × KssConnection} {a : α}
    (hf : ∀ c, KssConnection.SameState c (f c).2) (hc : s.call con f = some (a, s')) :
    Mild s s' := by
  obtain ⟨c, hobj, -, rfl⟩ := call_eq hc
  refine ⟨rfl, rfl, fun con' c' hobj' => ?_⟩
  by_cases hcon : con' = con
  · subst hcon
    have hself : update s.objects con' (some (f c).2) con' = some (f c).2 := update_self ..
    exact ⟨c, hobj, Option.some.inj (hself.symm.trans hobj') ▸ hf c⟩
  · exact ⟨c', (update_of_ne hcon ..).symm.trans hobj', .refl c'⟩

theorem Mild.invariant (h : Mild s s') (hinv : s.Invariant pending) : s'.Invariant pending := by
  refine ⟨h.manager ▸ hinv.mirrors, h.manager ▸ hinv.count, fun item con c' hcon hobj => ?_,
    fun item con hcon => ?_, fun con c' hobj => ?_⟩
  · obtain ⟨c, hold, hsame⟩ := h.object con c' hobj
    rw [h.manager] at hcon
    exact hsame.getFd.trans (hinv.fd item con c hcon hold)
  · rw [h.manager] at hcon
    rw [h.next]
    exact hinv.lt_next item con hcon
  · obtain ⟨c, hold, -⟩ := h.object con c' hobj
    rw [h.next]
    exact hinv.object_lt con c hold

theorem Mild.steady (h : Mild s s') {allowed : ConnectionState → Prop}
    (hs : s.Steady (KssConnection.Client allowed) con) :
    s'.Steady (KssConnection.Client allowed) con := by
  intro item c' hcon hobj
  obtain ⟨c, hold, hsame⟩ := h.object con c' hobj
  rw [h.manager] at hcon ⊢
  obtain ⟨hc, hneed⟩ := hs item c hcon hold
  rw [hsame.getIoMode hc]
  exact ⟨hsame.client hc, hneed⟩

theorem Steady.mono {P Q : KssConnection → Prop} (h : s.Steady P con) (hPQ : ∀ c, P c → Q c) :
    s.Steady Q con :=
  fun item c hcon hobj => ⟨hPQ c (h item c hcon hobj).1, (h item c hcon hobj).2⟩

/-- A connection that sends a request is alive, and asks for a timeout. -/
theorem sendRequest_steady {allowed : ConnectionState → Prop} {a : Unit}
    (hs : s.Steady (KssConnection.Client allowed) con)
    (hc : s.call con (fun c => ((), c.sendRequest)) = some (a, s')) :
    s'.Steady (KssConnection.Client (Allowed false false)) con := by
  obtain ⟨c, hobj, -, rfl⟩ := call_eq hc
  intro item c' hcon hobj'
  have hself : update s.objects con (some c.sendRequest) con = some c.sendRequest := update_self ..
  obtain rfl := Option.some.inj (hself.symm.trans hobj')
  have hold := (hs item c hcon hobj).1
  cases c with
  | tcp fd timeout destroyable e =>
    obtain ⟨hclient, hneed⟩ := Endpoint.sendRequest_client hold.1
    exact ⟨hclient, fun _ => hneed⟩
  | udp => exact hold.elim

end CnxSystem

/-- A notification about a call. -/
def Notice.isCall : Notice → Bool
  | .notified .opCall _ => true
  | _ => false

def Notice.isSent : Notice → Bool
  | .sent => true
  | _ => false

/-- Since the last request that was sent there is only one notification about a call. -/
def Once (before : List Notice) (n : Notice) : Prop :=
  n.isCall = true → ∀ m ∈ sinceLast Notice.isSent before, m.isCall = false

namespace InterServer

/-- The user has been notified of an answer to the last request. -/
def called (w : InterServer) : Bool := (sinceLast Notice.isSent w.trace).any Notice.isCall

/-- The connection may wait in the open state for its answer to be taken. -/
def pausing (w : InterServer) (owed : Bool) : Bool := owed && w.isc.state = .opened

/-- What holds between calls. The answer that has been reported is owed as long as the notification
lasts. -/
structure Orderly (owed : Bool) (w : InterServer) : Prop where
  system : w.system.Invariant 0
  closed_iff : w.isc.state = .closed ↔ w.isc.clnCon = none
  opened : w.isc.state = .opened → w.isc.subState = .connectingServer
  subState : w.isc.clnCon ≠ none → w.isc.subState ≠ .none
  steady : ∀ con ∈ w.isc.clnCon, w.isc.subState = .connectingServer →
    w.system.Steady (KssConnection.Client (Allowed w.called (w.pausing owed))) con
  once : Always Once w.trace

/-- Neither the automaton nor the state of a connection object has changed. -/
structure Mild (w w' : InterServer) : Prop where
  silent : Silent w w'
  system : w.system.Mild w'.system

variable {w w' w'' : InterServer} {owed : Bool} {con : ℕ}

theorem Mild.trans (h : Mild w w') (h' : Mild w' w'') : Mild w w'' := by
  refine ⟨h.silent.trans h'.silent, h'.system.manager.trans h.system.manager,
    h'.system.next.trans h.system.next, fun con c'' hobj => ?_⟩
  obtain ⟨c', hobj', hsame'⟩ := h'.system.object con c'' hobj
  obtain ⟨c, hold, hsame⟩ := h.system.object con c' hobj'
  exact ⟨c, hold, hsame.trans hsame'⟩

theorem mild_setResult (w : InterServer) (result : KsResultCode) : Mild w (w.setResult result) :=
  ⟨silent_setResult w result, .refl w.system⟩

theorem mild_clnCall {α : Type} {f : KssConnection → α × KssConnection} {a : α}
    (hf : ∀ c, KssConnection.SameState c (f c).2)
    (hauto : ∀ c, isAutoDestroyable (f c).2 = isAutoDestroyable c)
    (hc : w.clnCall f = some (a, w')) : Mild w w' := by
  refine ⟨(silent_clnCall hauto hc).1, ?_⟩
  obtain ⟨con, -, hc⟩ := Option.bind_eq_some_iff.mp hc
  obtain ⟨⟨a', system⟩, hcall, hc⟩ := Option.bind_eq_some_iff.mp hc
  rw [← (Prod.mk.inj (Option.some.inj hc)).2]
  exact CnxSystem.call_mild hf hcall

theorem called_note (w : InterServer) (n : Notice) :
    (w.note n).called = (!n.isSent && (w.called || n.isCall)) := by
  rw [called, note, sinceLast_concat]
  cases n.isSent <;> simp [called]

theorem not_called_iff : w.called = false ↔
    ∀ m ∈ sinceLast Notice.isSent w.trace, m.isCall = false := by
  simp [called]

theorem Orderly.mild (h : Orderly owed w) (hm : Mild w w') : Orderly owed w' := by
  have hcalled : w'.called = w.called := by rw [called, hm.silent.trace, called]
  have hpausing : w'.pausing owed = w.pausing owed := by rw [pausing, hm.silent.state, pausing]
  refine ⟨hm.system.invariant h.system, ?_, ?_, ?_, ?_, hm.silent.trace ▸ h.once⟩
  · rw [hm.silent.state, hm.silent.clnCon]
    exact h.closed_iff
  · rw [hm.silent.state, hm.silent.subState]
    exact h.opened
  · rw [hm.silent.clnCon, hm.silent.subState]
    exact h.subState
  · rw [hm.silent.clnCon, hm.silent.subState, hcalled, hpausing]
    exact fun con hcon hsub => hm.system.steady (h.steady con hcon hsub)

/-- Without a connection object only the log matters. -/
theorem orderly_of_closed (hsystem : w.system.Invariant 0) (hcon : w.isc.clnCon = none)
    (hstate : w.isc.state = .closed) (honce : Always Once w.trace) : Orderly owed w := by
  refine ⟨hsystem, ⟨fun _ => hcon, fun _ => hstate⟩, fun hopened => ?_, fun hne => absurd hcon hne,
    fun con hmem => ?_, honce⟩
  · exact absurd (hstate.symm.trans hopened) (by simp)
  · exact absurd (hmem.symm.trans hcon) (by simp)

/-- Nothing is owed in other states. -/
theorem Orderly.settled (h : Orderly owed w) (hstate : w.isc.state ≠ .opened) :
    Orderly false w := by
  have hpausing : w.pausing owed = w.pausing false := by simp [pausing, hstate]
  refine ⟨h.system, h.closed_iff, h.opened, h.subState, ?_, h.once⟩
  rw [← hpausing]
  exact h.steady

theorem Orderly.relax (h : Orderly false w) : Orderly owed w := by
  refine ⟨h.system, h.closed_iff, h.opened, h.subState, fun con hcon hsub => ?_, h.once⟩
  refine (h.steady con hcon hsub).mono fun c hc => hc.mono fun state hstate => ?_
  exact ConnectionState.Allowed.pause hstate

/-- A note that is neither about a call nor about a request that was sent. -/
theorem Orderly.note (h : Orderly owed w) {n : Notice} (hcall : n.isCall = false)
    (hsent : n.isSent = false) : Orderly owed (w.note n) := by
  refine ⟨h.system, h.closed_iff, h.opened, h.subState, ?_, ?_⟩
  · rw [called_note, hcall, hsent, Bool.or_false, Bool.not_false, Bool.true_and]
    exact h.steady
  · exact always_concat.mpr ⟨h.once, fun htrue => absurd (hcall.symm.trans htrue) (by simp)⟩

theorem closeConnection_system (hsystem : w.system.Invariant 0)
    (hc : w.closeConnection = some w') : w'.system.Invariant 0 := by
  obtain ⟨system, hdestroy, hc⟩ := Option.bind_eq_some_iff.mp hc
  rw [← Option.some.inj hc]
  cases hcon : w.isc.clnCon with
  | none =>
    rw [hcon] at hdestroy
    rwa [← Option.some.inj hdestroy]
  | some con =>
    rw [hcon] at hdestroy
    exact hsystem.destroy hdestroy

theorem closeConnection_orderly (hsystem : w.system.Invariant 0) (honce : Always Once w.trace)
    (hc : w.closeConnection = some w') : Orderly owed w' := by
  obtain ⟨hisc, htrace⟩ := closeConnection_eq hc
  refine orderly_of_closed (closeConnection_system hsystem hc) ?_ ?_ (htrace ▸ honce)
  · rw [hisc]
  · rw [hisc]

theorem newTcp_client (fd timeout : ℕ) (c : Creation) {called : Bool}
    (h : getState (KssConnection.newTcp fd timeout c) ≠ .dead) :
    KssConnection.Client (Allowed called false) (KssConnection.newTcp fd timeout c) := by
  rcases hstream : xdrmemstreamCreate c.pool c.info with ⟨_ | xdrs, pool⟩
  · simp [KssConnection.newTcp, KssTCPXDRConnection.create, hstream, getState,
      KssConnection.state, Endpoint.opened] at h
  · cases hblock : c.nonblocking <;> cases hconnect : c.connecting <;>
      simp [KssConnection.newTcp, KssTCPXDRConnection.create, hstream, hblock, hconnect, getState,
        KssConnection.state, Endpoint.opened] at h
    cases called <;>
      simp [KssConnection.newTcp, KssTCPXDRConnection.create, hstream, hblock, hconnect,
        KssConnection.Client, Endpoint.ClientIn, Endpoint.opened, Allowed]

/-- There is a new connection object, or none. -/
theorem openConnection_orderly {subState : ISCSubState} {port : UInt16}
    {new : SocketAddress → ℕ → KssConnection} {c : Creation} {ok : Bool}
    (hsub : subState ≠ .none) (hnew : subState = .connectingServer → ∀ called addr sock,
      getState (new addr sock) ≠ .dead →
        KssConnection.Client (Allowed called false) (new addr sock))
    (hsystem : w.system.Invariant 0) (hclosed : w.isc.state = .closed)
    (hcon : w.isc.clnCon = none) (honce : Always Once w.trace)
    (ho : w.openConnection subState port new c = some (ok, w')) : Orderly owed w' := by
  rw [openConnection] at ho
  cases hsock : c.sock with
  | none =>
    simp only [hsock] at ho
    rw [← (Prod.mk.inj (Option.some.inj ho)).2]
    exact orderly_of_closed hsystem hcon hclosed honce
  | some sock =>
    simp only [hsock] at ho
    have hconstruct := hsystem.construct (new { w.isc.hostAddr with port } sock)
    split_ifs at ho with hallocated hdead
    · rw [← (Prod.mk.inj (Option.some.inj ho)).2]
      exact orderly_of_closed hsystem rfl hclosed honce
    · obtain ⟨system, hshut, ho⟩ := Option.bind_eq_some_iff.mp ho
      rw [← (Prod.mk.inj (Option.some.inj ho)).2]
      exact orderly_of_closed ((hconstruct.shutDown hshut).delete _) rfl hclosed honce
    · obtain ⟨w₁, hactivate, ho⟩ := Option.bind_eq_some_iff.mp ho
      obtain ⟨⟨added, system⟩, hadd, hactivate⟩ := Option.bind_eq_some_iff.mp hactivate
      rw [← (Prod.mk.inj (Option.some.inj ho)).2, ← Option.some.inj hactivate]
      apply Orderly.relax
      refine ⟨hconstruct.addConnection hadd, by simp [InterServer.note], by simp [InterServer.note],
        fun _ => hsub, fun con hmem hserver => ?_, ?_⟩
      · obtain rfl := Option.some.inj hmem
        have hfresh : ¬ w.system.Manages w.system.next := by
          rintro ⟨item, hitem⟩
          exact (hsystem.lt_next item _ hitem).false
        refine hconstruct.addConnection_steady (KssConnection.client_stable _)
          (CnxSystem.steady_of_not_manages hfresh) (fun _ c' hobj => ?_) hadd
        have hself : update w.system.objects w.system.next (some (new _ sock)) w.system.next =
            some (new { w.isc.hostAddr with port } sock) := update_self ..
        obtain rfl := Option.some.inj (hself.symm.trans hobj)
        exact hnew hserver _ _ _ hdead
      · exact always_concat.mpr ⟨honce, fun htrue => absurd htrue (by simp [Notice.isCall])⟩

theorem openServerConnection_orderly {port : UInt16} {c : Creation} {ok : Bool}
    (hsystem : w.system.Invariant 0) (hclosed : w.isc.state = .closed)
    (hcon : w.isc.clnCon = none) (honce : Always Once w.trace)
    (ho : w.openServerConnection port c = some (ok, w')) : Orderly owed w' :=
  openConnection_orderly (by simp) (fun _ _ _ _ hdead => newTcp_client _ _ c hdead) hsystem hclosed
    hcon honce ho

theorem openManagerConnection_orderly {port : UInt16} {udp : Bool} {c : Creation} {ok : Bool}
    (hsystem : w.system.Invariant 0) (hclosed : w.isc.state = .closed)
    (hcon : w.isc.clnCon = none) (honce : Always Once w.trace)
    (ho : w.openManagerConnection port udp c = some (ok, w')) : Orderly owed w' :=
  openConnection_orderly (by simp) (fun hserver => absurd hserver (by simp)) hsystem hclosed hcon
    honce ho

theorem openPortmapperConnection_orderly {c : Creation} {ok : Bool}
    (hsystem : w.system.Invariant 0) (hclosed : w.isc.state = .closed)
    (hcon : w.isc.clnCon = none) (honce : Always Once w.trace)
    (ho : w.openPortmapperConnection c = some (ok, w')) : Orderly owed w' :=
  openConnection_orderly (by simp) (fun hserver => absurd hserver (by simp)) hsystem hclosed hcon
    honce ho

theorem contact_orderly {c : Creation} {ok : Bool} (hsystem : w.system.Invariant 0)
    (hclosed : w.isc.state = .closed) (hcon : w.isc.clnCon = none) (honce : Always Once w.trace)
    (ho : w.contact c = some (ok, w')) : Orderly owed w' := by
  rw [contact] at ho
  split_ifs at ho
  · exact openServerConnection_orderly hsystem hclosed hcon honce ho
  · exact openManagerConnection_orderly hsystem hclosed hcon honce ho
  · exact openPortmapperConnection_orderly hsystem hclosed hcon honce ho

theorem Orderly.startOpen (h : Orderly owed w) {lookup : HostLookup} {c : Creation} {ok : Bool}
    (ho : w.startOpen lookup c = some (ok, w')) : Orderly owed w' := by
  rw [InterServer.startOpen] at ho
  by_cases hstate : w.isc.state ≠ .closed
  · rw [if_pos hstate] at ho
    rw [← (Prod.mk.inj (Option.some.inj ho)).2]
    exact h.mild (mild_setResult w _)
  · rw [if_neg hstate] at ho
    have hclosed := not_ne_iff.mp hstate
    have hcon := h.closed_iff.mp hclosed
    simp only at ho
    split at ho
    · rw [← (Prod.mk.inj (Option.some.inj ho)).2]
      exact orderly_of_closed h.system hcon hclosed h.once
    · split at ho
      · rw [← (Prod.mk.inj (Option.some.inj ho)).2]
        exact orderly_of_closed h.system hcon hclosed h.once
      · obtain ⟨⟨ok', w₁⟩, hopen, hres⟩ := Option.bind_eq_some_iff.mp ho
        rw [← (Prod.mk.inj (Option.some.inj hres)).2]
        have hopens : Orderly owed w₁ := by
          refine contact_orderly ?_ ?_ ?_ ?_ hopen
          · exact h.system
          · exact hclosed
          · exact hcon
          · exact h.once
        cases ok' with
        | true => exact hopens.note rfl rfl
        | false => exact hopens

theorem Orderly.close (h : Orderly owed w) (hc : w.close = some w') : Orderly false w' := by
  obtain ⟨w₁, hclose, hw'⟩ := Option.bind_eq_some_iff.mp hc
  rw [← Option.some.inj hw']
  exact (closeConnection_orderly h.system h.once hclose).note rfl rfl

theorem beginSend_mild {xid serviceid : UInt32} {ok : Bool}
    (hb : w.beginSend xid serviceid = some (ok, w')) : Mild w w' := by
  rw [beginSend] at hb
  split_ifs at hb
  · rw [← (Prod.mk.inj (Option.some.inj hb)).2]
    exact mild_setResult w _
  · obtain ⟨⟨ok', w₁⟩, hcall, hb⟩ := Option.bind_eq_some_iff.mp hb
    have hmild := mild_clnCall (KssConnection.beginRequest_sameState _ _ _ _)
      virtual_isAutoDestroyable hcall
    simp only at hb
    split_ifs at hb <;>
    · rw [← (Prod.mk.inj (Option.some.inj hb)).2]
      exact hmild.trans (mild_setResult w₁ _)

theorem useXdr_mild {f : KssConnection → Bool × KssConnection}
    (hf : ∀ c, KssConnection.SameState c (f c).2)
    (hauto : ∀ c, isAutoDestroyable (f c).2 = isAutoDestroyable c)
    (hu : w.useXdr f = some w') : Mild w w' := by
  rw [useXdr] at hu
  split at hu
  · rw [← Option.some.inj hu]
    exact ⟨Silent.refl w, .refl w.system⟩
  · obtain ⟨⟨a, w₁⟩, hcall, rfl⟩ := Option.map_eq_some_iff.mp hu
    exact mild_clnCall hf hauto hcall

/-- The RPC layer of the server has accepted the request that the connection object has the answer
to, and has served it. -/
def Accepted (w : InterServer) : Prop :=
  ∀ con ∈ w.isc.clnCon, ∀ c ∈ w.system.objects con, replySucceeded c.getRpcHeader = true

/-- The user can begin to read what has been accepted. -/
theorem beginReceive_mild {ok : Bool} (hb : w.beginReceive = some (ok, w')) :
    Mild w w' ∧ (w.isc.state = .opened → w.Accepted → ok = true) := by
  rw [beginReceive] at hb
  by_cases hstate : w.isc.state ≠ .opened
  · rw [if_pos hstate] at hb
    rw [← (Prod.mk.inj (Option.some.inj hb)).2]
    exact ⟨mild_setResult w _, fun hopened => absurd hopened hstate⟩
  · rw [if_neg hstate] at hb
    obtain ⟨⟨header, w₁⟩, hcall, hb⟩ := Option.bind_eq_some_iff.mp hb
    have hmild := mild_clnCall (fun c => .refl c) (fun _ => rfl) hcall
    obtain ⟨con, hcon, hcall⟩ := Option.bind_eq_some_iff.mp hcall
    obtain ⟨⟨header', system⟩, hobject, hcall⟩ := Option.bind_eq_some_iff.mp hcall
    obtain ⟨rfl, -⟩ := Prod.mk.inj (Option.some.inj hcall)
    obtain ⟨c, hobj, rfl, -⟩ := CnxSystem.call_eq hobject
    simp only at hb
    split_ifs at hb with hsucceeded
    · obtain ⟨rfl, rfl⟩ := Prod.mk.inj (Option.some.inj hb)
      exact ⟨hmild.trans (mild_setResult w₁ _), fun _ _ => rfl⟩
    · rw [← (Prod.mk.inj (Option.some.inj hb)).2]
      exact ⟨hmild.trans (mild_setResult w₁ _),
        fun _ haccepted => absurd (haccepted con hcon c hobj) hsucceeded⟩

/-- After a reset nothing is owed. -/
theorem Orderly.endReceive (h : Orderly owed w) {rounds : List (Round ConnectionIo)} {ok : Bool}
    (he : w.endReceive rounds = some (ok, w')) : Orderly false w' := by
  rw [InterServer.endReceive] at he
  by_cases hstate : w.isc.state ≠ .opened
  · rw [if_pos hstate] at he
    rw [← (Prod.mk.inj (Option.some.inj he)).2]
    exact (h.settled hstate).mild (mild_setResult w _)
  · rw [if_neg hstate] at he
    obtain ⟨con, hcon, he⟩ := Option.bind_eq_some_iff.mp he
    obtain ⟨⟨ok', system⟩, hreset, he⟩ := Option.bind_eq_some_iff.mp he
    rw [← (Prod.mk.inj (Option.some.inj he)).2]
    refine Orderly.mild ?_ (mild_setResult _ _)
    refine ⟨h.system.resetConnection hreset, h.closed_iff, h.opened, h.subState,
      fun con' hmem hserver => ?_, h.once⟩
    obtain rfl := Option.some.inj (hcon.symm.trans hmem)
    refine h.system.resetConnection_steady (fun c hc => ?_)
      (KssConnection.reset_takesTo w.called (w.pausing owed))
      (KssConnection.client_stable w.called) (h.steady con hcon hserver) hreset
    cases c with
    | tcp => exact hc.2.alive
    | udp => exact hc.elim

/-- A request that is on its way starts anew, and one that is not belongs to a connection that the
manager does not have. -/
theorem Orderly.endSend (h : Orderly owed w) {rounds : List (Round ConnectionIo)} {ok : Bool}
    (he : w.endSend rounds = some (ok, w')) : Orderly false w' := by
  rw [InterServer.endSend] at he
  by_cases hstate : w.isc.state ≠ .opened
  · rw [if_pos hstate] at he
    rw [← (Prod.mk.inj (Option.some.inj he)).2]
    exact (h.settled hstate).mild (mild_setResult w _)
  · rw [if_neg hstate] at he
    obtain ⟨w₁, hsend, he₁⟩ := Option.bind_eq_some_iff.mp he
    obtain ⟨⟨_, w₂⟩, htimeout, he₂⟩ := Option.bind_eq_some_iff.mp he₁
    obtain ⟨con₂, hcon₂, he₃⟩ := Option.bind_eq_some_iff.mp he₂
    obtain ⟨⟨ok', system⟩, htrack, he₄⟩ := Option.bind_eq_some_iff.mp he₃
    obtain ⟨⟨_, w₀⟩, hcln, hw₁⟩ := Option.bind_eq_some_iff.mp hsend
    obtain rfl := Option.some.inj hw₁
    obtain ⟨con, hcon, hobject⟩ := Option.bind_eq_some_iff.mp hcln
    obtain ⟨⟨_, s₀⟩, hcall, hw₀⟩ := Option.bind_eq_some_iff.mp hobject
    obtain ⟨-, rfl⟩ := Prod.mk.inj (Option.some.inj hw₀)
    have hserver := h.opened (not_ne_iff.mp hstate)
    have hmild := mild_clnCall (f := fun c => ((), c.setTimeout _))
      (KssConnection.setTimeout_sameState _) (fun c => by cases c <;> rfl) htimeout
    have hcon' : con₂ = con := by
      rw [hmild.silent.clnCon] at hcon₂
      exact Option.some.inj (hcon₂.symm.trans hcon)
    subst hcon'
    have hsystem := hmild.system.invariant (h.system.call (fun c => by cases c <;> rfl) hcall)
    have hsent := hmild.system.steady (CnxSystem.sendRequest_steady (h.steady con₂ hcon hserver)
      hcall)
    obtain ⟨hsteady, hfailed⟩ :=
      hsystem.trackConnection_steady (KssConnection.client_stable false) hsent htrack
    have honce : Always Once w₂.trace := by
      rw [hmild.silent.trace]
      exact always_concat.mpr ⟨h.once, fun htrue => absurd htrue (by simp [Notice.isCall])⟩
    simp only at he₄
    split_ifs at he₄ with hok
    · rw [← (Prod.mk.inj (Option.some.inj he₄)).2]
      refine ⟨hsystem.trackConnection htrack, ?_,
        fun hopened => absurd hopened (by simp [InterServer.note]), fun _ => ?_,
        fun con hmem _ => ?_,
        always_concat.mpr ⟨honce, fun htrue => absurd htrue (by simp [Notice.isCall])⟩⟩
      · simp [InterServer.note, hcon₂]
      · rw [InterServer.note, hmild.silent.subState]
        exact h.subState (by simp [hcon])
      · obtain rfl := Option.some.inj (hcon₂.symm.trans hmem)
        rw [called_note]
        exact hsteady
    · rw [← (Prod.mk.inj (Option.some.inj he₄)).2]
      have hnot := hfailed (Bool.not_eq_true _ ▸ hok)
      refine Orderly.mild ?_ (mild_setResult _ _)
      refine ⟨hsystem.trackConnection htrack, ?_, ?_, ?_, fun con hmem _ => ?_, honce⟩
      · rw [hmild.silent.state, hmild.silent.clnCon]
        exact h.closed_iff
      · rw [hmild.silent.state, hmild.silent.subState]
        exact h.opened
      · rw [hmild.silent.clnCon, hmild.silent.subState]
        exact h.subState
      · obtain rfl := Option.some.inj (hcon₂.symm.trans hmem)
        exact CnxSystem.steady_of_not_manages hnot

/-- An accepted answer is taken with the stream and all. -/
theorem Orderly.receive (h : Orderly owed w) {result : XdrReader Bool} {otherwise : Bool}
    {rounds : List (Round ConnectionIo)} {ok : Bool}
    (hr : w.receive result otherwise rounds = some (ok, w')) :
    Orderly owed w' ∧ ((w.isc.state = .opened → w.Accepted) → Orderly false w') := by
  obtain ⟨⟨ok₁, w₁⟩, hbegin, hr⟩ := Option.bind_eq_some_iff.mp hr
  obtain ⟨h₁, hbegun⟩ := beginReceive_mild hbegin
  simp only at hr
  split_ifs at hr with hok
  · obtain ⟨⟨ticket, w₂⟩, hticket, hr⟩ := Option.bind_eq_some_iff.mp hr
    obtain ⟨⟨read, w₃⟩, hread, hr⟩ := Option.bind_eq_some_iff.mp hr
    obtain ⟨⟨ok₂, w₄⟩, hend, hr⟩ := Option.bind_eq_some_iff.mp hr
    have h₂ := mild_clnCall (KssConnection.deserialize_sameState _ _)
      (deserialize_isAutoDestroyable _ _) hticket
    have h₃ := mild_clnCall (KssConnection.deserialize_sameState _ _)
      (deserialize_isAutoDestroyable _ _) hread
    have h₄ := (h.mild ((h₁.trans h₂).trans h₃)).endReceive hend
    have hdone : Orderly false w' := by
      simp only at hr
      split_ifs at hr
      · rwa [← (Prod.mk.inj (Option.some.inj hr)).2]
      · rw [← (Prod.mk.inj (Option.some.inj hr)).2]
        exact h₄.mild (mild_setResult _ _)
    exact ⟨hdone.relax, fun _ => hdone⟩
  · rw [← (Prod.mk.inj (Option.some.inj hr)).2]
    refine ⟨h.mild h₁, fun haccepted => ?_⟩
    by_cases hopened : w.isc.state = .opened
    · exact absurd (hbegun hopened (haccepted hopened)) hok
    · exact (h.settled hopened).mild h₁

theorem Orderly.send (h : Orderly owed w) {xid serviceid : UInt32} {params : Payload}
    {rounds : List (Round ConnectionIo)} {ok : Bool}
    (hs : w.send xid serviceid params rounds = some (ok, w')) : Orderly owed w' := by
  obtain ⟨⟨ok₁, w₁⟩, hbegin, hs⟩ := Option.bind_eq_some_iff.mp hs
  have h₁ := beginSend_mild hbegin
  simp only at hs
  split_ifs at hs
  · obtain ⟨⟨ticket, w₂⟩, hticket, hs⟩ := Option.bind_eq_some_iff.mp hs
    obtain ⟨⟨ok₂, w₃⟩, hparams, hs⟩ := Option.bind_eq_some_iff.mp hs
    have h₂ := mild_clnCall (KssConnection.encodeArguments_sameState _)
      virtual_isAutoDestroyable hticket
    have h₃ := (h₁.trans h₂).trans (mild_clnCall (KssConnection.encodeArguments_sameState _)
      virtual_isAutoDestroyable hparams)
    simp only at hs
    split_ifs at hs
    · exact ((h.mild h₃).endSend hs).relax
    · rw [← (Prod.mk.inj (Option.some.inj hs)).2]
      exact h.mild (h₃.trans (mild_setResult _ _))
  · rw [← (Prod.mk.inj (Option.some.inj hs)).2]
    exact h.mild h₁

theorem Orderly.perform (h : Orderly owed w) {u : UserCall} (hp : w.perform u = some w') :
    Orderly owed w' := by
  cases u with
  | setTimeouts connectTimeout callTimeout =>
    rw [← Option.some.inj hp]
    exact ⟨h.system, h.closed_iff, h.opened, h.subState, h.steady, h.once⟩
  | startOpen lookup creation =>
    obtain ⟨⟨ok, w₁⟩, ho, rfl⟩ := Option.map_eq_some_iff.mp hp
    exact h.startOpen ho
  | close => exact (h.close hp).relax
  | beginSend xid serviceid =>
    obtain ⟨⟨ok, w₁⟩, hb, rfl⟩ := Option.map_eq_some_iff.mp hp
    exact h.mild (beginSend_mild hb)
  | encode args otherwise =>
    exact h.mild (useXdr_mild (KssConnection.serialize_sameState args otherwise)
      (serialize_isAutoDestroyable args otherwise) hp)
  | endSend rounds =>
    obtain ⟨⟨ok, w₁⟩, he, rfl⟩ := Option.map_eq_some_iff.mp hp
    exact (h.endSend he).relax
  | send xid serviceid params rounds =>
    obtain ⟨⟨ok, w₁⟩, hs, rfl⟩ := Option.map_eq_some_iff.mp hp
    exact h.send hs
  | beginReceive =>
    obtain ⟨⟨ok, w₁⟩, hb, rfl⟩ := Option.map_eq_some_iff.mp hp
    exact h.mild (beginReceive_mild hb).1
  | decode r otherwise =>
    exact h.mild (useXdr_mild (KssConnection.deserialize_sameState r otherwise)
      (deserialize_isAutoDestroyable r otherwise) hp)
  | endReceive rounds =>
    obtain ⟨⟨ok, w₁⟩, he, rfl⟩ := Option.map_eq_some_iff.mp hp
    exact (h.endReceive he).relax
  | receive result otherwise rounds =>
    obtain ⟨⟨ok, w₁⟩, hr, rfl⟩ := Option.map_eq_some_iff.mp hp
    exact (h.receive hr).1

theorem Orderly.script (h : Orderly owed w) {script : List UserCall}
    (hs : script.foldlM InterServer.perform w = some w') : Orderly owed w' := by
  induction script generalizing w with
  | nil => rwa [← Option.some.inj hs]
  | cons u script ih =>
    obtain ⟨w₁, hu, hs⟩ := Option.bind_eq_some_iff.mp hs
    exact ih (h.perform hu) hs

/-- The call takes the answer at hand, if there is one: it closes the connection, or reads a reply
that the server has accepted. -/
def Takes (w : InterServer) : UserCall → Prop
  | .close => True
  | .receive .. => w.isc.state = .opened → w.Accepted
  | _ => False

/-- One of the calls has the property in the state in which it is made. -/
def Among (w : InterServer) (script : List UserCall) (p : InterServer → UserCall → Prop) : Prop :=
  ∃ before u after, script = before ++ u :: after ∧
    ∀ w' ∈ before.foldlM perform w, p w' u

theorem Orderly.takes (h : Orderly owed w) {u : UserCall} (hu : w.Takes u)
    (hp : w.perform u = some w') : Orderly false w' := by
  cases u with
  | close => exact h.close hp
  | receive result otherwise rounds =>
    obtain ⟨⟨ok, w₁⟩, hr, rfl⟩ := Option.map_eq_some_iff.mp hp
    exact (h.receive hr).2 hu
  | _ => exact hu.elim

/-- Once the answer has been taken, nothing is owed for the rest of the notification. -/
theorem Orderly.taken (h : Orderly owed w) {script : List UserCall} (ht : w.Among script Takes)
    (hs : script.foldlM InterServer.perform w = some w') : Orderly false w' := by
  obtain ⟨before, u, after, rfl, htakes⟩ := ht
  rw [List.foldlM_append] at hs
  obtain ⟨w₁, hbefore, hs⟩ := Option.bind_eq_some_iff.mp hs
  obtain ⟨w₂, hu, hafter⟩ := Option.bind_eq_some_iff.mp hs
  exact (((h.script hbefore).takes (htakes w₁ hbefore) hu)).script hafter

end InterServer
end AcpltKs
