import AcpltKs.InterServer.Answers
import AcpltKs.InterServer.Attended

/-! The event loop of a server with an inter-server connection: a request that was sent is reported
once if the user takes the answer when notified. -/
namespace AcpltKs
open Function GuardedRun EventLog ConnectionObject ConnectionState

namespace InterServer

/-- What happens in the server: calls of the user outside of notifications, whatever is done to
other connections or to all of them, and the service of the next connection that wants
attention. -/
inductive LoopEvent where
  | call (u : UserCall)
  | manage (op : CnxSystem.Op KssConnection ConnectionIo)
  | serve (a : Attention) (rounds : List (Round ConnectionIo))

def loopStep (minVersion : ℕ) (o : Option InterServer) (e : LoopEvent) : Option InterServer :=
  o.bind fun w =>
    match e with
    | .call u => w.perform u
    | .manage op => (w.system.perform op).map fun system => { w with system }
    | .serve a rounds => w.serveNext minVersion a rounds

/-- Others have connection objects and file descriptors of their own, and leave it to the loop to
fetch the next connection. -/
def Elsewhere (w : InterServer) : LoopEvent → Prop
  | .manage .getNextServiceableConnection => False
  | .manage op => ∀ con ∈ w.isc.clnCon, w.system.Apart con op
  | _ => True

/-- The state in which the user is notified while the next connection is served, before the user
makes any call. -/
def notified (minVersion : ℕ) (w : InterServer) (a : Attention) : Option InterServer := do
  let (next, system) ← w.system.getNextServiceableConnection
  let con ← next
  if w.isc.clnCon = some con then
    (attention minVersion { w with system } con { a with script := [] }).map Prod.snd
  else none

/-- When notified of an answer while the connection is open, the user makes a certain call. -/
def Handles (minVersion : ℕ) (p : InterServer → UserCall → Prop) (w : InterServer) :
    LoopEvent → Prop
  | .serve a _ => ∀ w' ∈ notified minVersion w a,
      w'.trace.getLast? = some (.notified .opCall .opened) → w'.Among a.script p
  | _ => True

variable {w w' : InterServer} {con : ℕ} {a : Attention} {reactivate : Bool} {minVersion : ℕ}

/-- What the service of the connection object `con` keeps. -/
def Serviced (w' : InterServer) (con : ℕ) (reactivate : Bool) : Prop :=
  Orderly false w' ∧ (reactivate = true → w'.isc.clnCon = some con)

/-- The connection is closed before the user is notified of an error. -/
theorem reportError_serviced {state : ConnectionState} (hsystem : w.system.Invariant 0)
    (honce : Always Once w.trace) (hstate : state = .readyFailed → w.called = false)
    (hr : w.reportError state a = some (reactivate, w')) : Serviced w' con reactivate := by
  obtain ⟨w₁, hclose, hr⟩ := Option.bind_eq_some_iff.mp hr
  obtain ⟨w₂, hnotify, hr⟩ := Option.bind_eq_some_iff.mp hr
  obtain ⟨rfl, rfl⟩ := Prod.mk.inj (Option.some.inj hr)
  obtain ⟨hisc, htrace⟩ := closeConnection_eq hclose
  refine ⟨Orderly.script ?_ hnotify, fun hfalse => absurd hfalse (by simp)⟩
  have hclosed := closeConnection_system hsystem hclose
  refine orderly_of_closed hclosed ?_ ?_ ?_
  · rw [note, hisc]
  · rw [note, hisc]
  · rw [note, htrace]
    refine always_concat.mpr ⟨honce, fun hcall => not_called_iff.mp (hstate ?_)⟩
    by_contra hne
    rw [operationOf, if_neg hne] at hcall
    exact absurd hcall (by simp [Notice.isCall])

theorem attentionFailed_serviced {state : ConnectionState} (hsystem : w.system.Invariant 0)
    (honce : Always Once w.trace) (hstate : state = .readyFailed →
      w.isc.subState = .connectingPmap ∨ w.isc.subState = .connectingManager ∨ w.called = false)
    (hf : w.attentionFailed state a = some (reactivate, w')) : Serviced w' con reactivate := by
  rw [attentionFailed] at hf
  cases hsub : w.isc.subState with
  | connectingPmap =>
    simp only [hsub] at hf
    refine reportError_serviced ?_ ?_ (fun hfailed => absurd hfailed (by simp)) hf
    · exact hsystem
    · exact honce
  | connectingManager =>
    simp only [hsub] at hf
    refine reportError_serviced ?_ ?_ (fun hfailed => absurd hfailed (by simp)) hf
    · exact hsystem
    · exact honce
  | none =>
    simp only [hsub] at hf
    refine reportError_serviced ?_ ?_ (fun hfailed => ?_) hf
    · exact hsystem
    · exact honce
    · exact ((hstate hfailed).resolve_left (by simp [hsub])).resolve_left (by simp [hsub])
  | connectingServer =>
    simp only [hsub] at hf
    refine reportError_serviced ?_ ?_ (fun hfailed => ?_) hf
    · exact hsystem
    · exact honce
    · exact ((hstate hfailed).resolve_left (by simp [hsub])).resolve_left (by simp [hsub])

/-- A request to the portmapper or the manager. -/
theorem Orderly.request (h : Orderly false w) (hsub : w.isc.subState ≠ .connectingServer)
    (hs : w.sendRequest = some w') : Orderly false w' ∧ w'.isc.clnCon = w.isc.clnCon := by
  obtain ⟨⟨_, w₀⟩, hcln, hs⟩ := Option.bind_eq_some_iff.mp hs
  obtain ⟨con, -, hobject⟩ := Option.bind_eq_some_iff.mp hcln
  obtain ⟨⟨_, s₀⟩, hcall, hw₀⟩ := Option.bind_eq_some_iff.mp hobject
  obtain ⟨-, rfl⟩ := Prod.mk.inj (Option.some.inj hw₀)
  rw [← Option.some.inj hs]
  have hsent : Orderly false { w with system := s₀ } :=
    ⟨h.system.call (fun c => by cases c <;> rfl) hcall, h.closed_iff, h.opened, h.subState,
      fun _ _ hserver => absurd hserver hsub, h.once⟩
  exact ⟨hsent.note rfl rfl, rfl⟩

/-- A request is written into the stream of the connection object. -/
theorem mild_written {xid progNumber progVersion procNumber : UInt32} {args : Payload}
    {ok₁ ok₂ : Bool} {w₁ w₂ : InterServer}
    (hbegin : w.clnCall (·.beginRequest xid progNumber progVersion procNumber) = some (ok₁, w₁))
    (hencode : (if ok₁ then w₁.clnCall (·.encodeArguments args) else some (false, w₁)) =
      some (ok₂, w₂)) : Mild w w₂ := by
  have h₁ := mild_clnCall (KssConnection.beginRequest_sameState _ _ _ _)
    virtual_isAutoDestroyable hbegin
  cases ok₁ with
  | false =>
    rw [← (Prod.mk.inj (Option.some.inj hencode)).2]
    exact h₁
  | true =>
    exact h₁.trans (mild_clnCall (KssConnection.encodeArguments_sameState _)
      virtual_isAutoDestroyable hencode)

theorem Orderly.pmapConnected (h : Orderly false w) (hcon : w.isc.clnCon = some con)
    (hsub : w.isc.subState = .connectingPmap)
    (hp : w.pmapConnected a = some (reactivate, w')) : Serviced w' con reactivate := by
  obtain ⟨⟨ok₁, w₁⟩, hbegin, hp⟩ := Option.bind_eq_some_iff.mp hp
  obtain ⟨⟨ok₂, w₂⟩, hencode, hp⟩ := Option.bind_eq_some_iff.mp hp
  have h₂ : Mild w w₂ := mild_written hbegin hencode
  have hkept := h.mild h₂
  simp only at hp
  split_ifs at hp
  · obtain ⟨w₃, hsend, hp⟩ := Option.bind_eq_some_iff.mp hp
    obtain ⟨rfl, rfl⟩ := Prod.mk.inj (Option.some.inj hp)
    obtain ⟨hsent, hsame⟩ := hkept.request (by rw [h₂.silent.subState, hsub]; simp) hsend
    exact ⟨hsent, fun _ => hsame.trans (h₂.silent.clnCon.trans hcon)⟩
  · exact reportError_serviced (by exact hkept.system) (by exact hkept.once)
      (fun hfailed => absurd hfailed (by simp)) hp

theorem Orderly.managerConnected (h : Orderly false w) (hcon : w.isc.clnCon = some con)
    (hsub : w.isc.subState = .connectingManager)
    (hm : w.managerConnected a = some (reactivate, w')) : Serviced w' con reactivate := by
  obtain ⟨⟨ok₁, w₁⟩, hbegin, hm⟩ := Option.bind_eq_some_iff.mp hm
  obtain ⟨⟨ok₂, w₂⟩, hencode, hm⟩ := Option.bind_eq_some_iff.mp hm
  have h₂ : Mild w w₂ := mild_written hbegin hencode
  have hkept := h.mild h₂
  simp only at hm
  split_ifs at hm
  · obtain ⟨w₃, hsend, hm⟩ := Option.bind_eq_some_iff.mp hm
    obtain ⟨rfl, rfl⟩ := Prod.mk.inj (Option.some.inj hm)
    obtain ⟨hsent, hsame⟩ := hkept.request (by rw [h₂.silent.subState, hsub]; simp) hsend
    exact ⟨hsent.note rfl rfl, fun _ => hsame.trans (h₂.silent.clnCon.trans hcon)⟩
  · exact reportError_serviced (by exact hkept.system) (by exact hkept.once)
      (fun hfailed => absurd hfailed (by simp)) hm

/-- Either there is a new connection object, or its creation has failed. -/
theorem Orderly.reopened {ok : Bool} (h : Orderly false w)
    (hr : (if ok then some (false, w) else w.reportError .ready a) = some (reactivate, w')) :
    Serviced w' con reactivate := by
  split_ifs at hr
  · obtain ⟨rfl, rfl⟩ := Prod.mk.inj (Option.some.inj hr)
    exact ⟨h, fun hfalse => absurd hfalse (by simp)⟩
  · exact reportError_serviced h.system h.once (fun hfailed => absurd hfailed (by simp)) hr

theorem Orderly.pmapReady (h : Orderly false w) (hp : w.pmapReady a = some (reactivate, w')) :
    Serviced w' con reactivate := by
  obtain ⟨⟨header, w₁⟩, hheader, hp⟩ := Option.bind_eq_some_iff.mp hp
  have h₁ := h.mild (mild_clnCall (fun c => .refl c) (fun _ => rfl) hheader)
  simp only at hp
  split_ifs at hp
  · obtain ⟨⟨port, w₂⟩, hport, hp⟩ := Option.bind_eq_some_iff.mp hp
    have h₂ := h₁.mild (mild_clnCall (KssConnection.decode_sameState _)
      virtual_isAutoDestroyable hport)
    cases port with
    | none =>
      exact reportError_serviced (by exact h₂.system) (by exact h₂.once)
        (fun hfailed => absurd hfailed (by simp)) hp
    | some port =>
      simp only at hp
      split_ifs at hp
      · obtain ⟨w₃, hclose, hp⟩ := Option.bind_eq_some_iff.mp hp
        obtain ⟨⟨ok, w₄⟩, hopen, hp⟩ := Option.bind_eq_some_iff.mp hp
        obtain ⟨hisc, htrace⟩ := closeConnection_eq hclose
        have h₄ : Orderly false w₄ := openManagerConnection_orderly
          (closeConnection_system h₂.system hclose) (by rw [hisc]) (by rw [hisc])
          (htrace ▸ h₂.once) hopen
        exact h₄.reopened hp
      · exact reportError_serviced (by exact h₂.system) (by exact h₂.once)
          (fun hfailed => absurd hfailed (by simp)) hp
  · exact reportError_serviced (by exact h₁.system) (by exact h₁.once)
      (fun hfailed => absurd hfailed (by simp)) hp

theorem lowerVersion_serviced (hsystem : w.system.Invariant 0) (hclosed : w.isc.state = .closed)
    (hcon : w.isc.clnCon = none) (honce : Always Once w.trace)
    (hl : lowerVersion minVersion w a = some (reactivate, w')) : Serviced w' con reactivate := by
  simp only [lowerVersion] at hl
  split_ifs at hl with hge hport
  · obtain ⟨⟨ok, w₁⟩, hopen, hl⟩ := Option.bind_eq_some_iff.mp hl
    have h₁ : Orderly false w₁ := openManagerConnection_orderly (by exact hsystem)
      (by exact hclosed) (by exact hcon) (by exact honce) hopen
    exact h₁.reopened hl
  · obtain ⟨⟨ok, w₁⟩, hopen, hl⟩ := Option.bind_eq_some_iff.mp hl
    have h₁ : Orderly false w₁ := openPortmapperConnection_orderly (by exact hsystem)
      (by exact hclosed) (by exact hcon) (by exact honce) hopen
    exact h₁.reopened hl
  · exact reportError_serviced (by exact hsystem) (by exact honce)
      (fun hfailed => absurd hfailed (by simp)) hl

theorem Orderly.managerReady (h : Orderly false w)
    (hm : managerReady minVersion w a = some (reactivate, w')) : Serviced w' con reactivate := by
  obtain ⟨⟨header, w₁⟩, hheader, hm⟩ := Option.bind_eq_some_iff.mp hm
  have h₁ := h.mild (mild_clnCall (fun c => .refl c) (fun _ => rfl) hheader)
  simp only at hm
  split_ifs at hm
  · obtain ⟨⟨⟨ok, result, port⟩, w₂⟩, hreply, hm⟩ := Option.bind_eq_some_iff.mp hm
    obtain ⟨w₃, hclose, hm⟩ := Option.bind_eq_some_iff.mp hm
    have h₂ := h₁.mild (mild_clnCall (KssConnection.decode_sameState _)
      virtual_isAutoDestroyable hreply)
    obtain ⟨hisc, htrace⟩ := closeConnection_eq hclose
    have hsystem := closeConnection_system h₂.system hclose
    have hclosed : w₃.isc.state = .closed := by rw [hisc]
    have hnone : w₃.isc.clnCon = none := by rw [hisc]
    have honce : Always Once w₃.trace := htrace ▸ h₂.once
    simp only at hm
    split_ifs at hm
    · obtain ⟨⟨ok', w₄⟩, hopen, hm⟩ := Option.bind_eq_some_iff.mp hm
      have h₄ : Orderly false w₄ :=
        openServerConnection_orderly hsystem hclosed hnone honce hopen
      exact h₄.reopened hm
    · exact lowerVersion_serviced hsystem hclosed hnone honce hm
    · exact reportError_serviced (by exact hsystem) (by exact honce)
        (fun hfailed => absurd hfailed (by simp)) hm
  · exact reportError_serviced (by exact h₁.system) (by exact h₁.once)
      (fun hfailed => absurd hfailed (by simp)) hm

theorem Orderly.script_same {owed : Bool} (h : Orderly owed w) {script : List UserCall}
    (hs : script.foldlM InterServer.perform w = some w') : SameUnlessClosed w w' := by
  induction script generalizing w with
  | nil =>
    rw [← Option.some.inj hs]
    exact (Silent.refl w).same
  | cons u script ih =>
    obtain ⟨w₁, hu, hs⟩ := Option.bind_eq_some_iff.mp hs
    intro honce
    obtain ⟨honce₁, hcon₁⟩ := ih (h.perform hu) hs honce
    obtain ⟨honce₀, hcon₀⟩ := perform_same h.closed_iff hu honce₁
    refine ⟨honce₀, fun hne => ?_⟩
    rw [hcon₁ (by rwa [hcon₀ hne]), hcon₀ hne]

/-- The state in which the user is notified that the connection is open, or of an answer. -/
def announced (w : InterServer) (op : KssInterKsServerConnectionOperations) : InterServer :=
  { w with isc := { w.isc with
    state := .opened
    result := .ok
    clnConOnceClosed := false } }.note (.notified op .opened)

/-- Only a connection that has not been closed in the notification is reactivated. -/
theorem serverAttention_serviced {op : KssInterKsServerConnectionOperations} {owed : Bool}
    (h : Orderly owed (w.announced op)) (hcon : w.isc.clnCon = some con)
    (htaken : ∀ w', a.script.foldlM perform (w.announced op) = some w' → Orderly false w')
    (hs : w.serverAttention op a = some (reactivate, w')) : Serviced w' con reactivate := by
  obtain ⟨w₁, hnotify, hs⟩ := Option.bind_eq_some_iff.mp hs
  obtain ⟨hreactivate, rfl⟩ := Prod.mk.inj (Option.some.inj hs)
  refine ⟨htaken w₁ hnotify, fun htrue => ?_⟩
  rw [htrue, Bool.not_eq_true'] at hreactivate
  exact ((h.script_same hnotify hreactivate).2 (by simp [announced, InterServer.note, hcon])).trans
    hcon

theorem Orderly.announced_open (h : Orderly false w) (hcon : w.isc.clnCon ≠ none)
    (hsub : w.isc.subState = .connectingServer) : Orderly false (w.announced .opOpen) := by
  refine Orderly.note ?_ rfl rfl
  refine ⟨h.system, ?_, fun _ => hsub, h.subState, h.steady, h.once⟩
  simp [hcon]

/-- The first notification of an answer leaves it to the user to take it. -/
theorem Orderly.announced_call (h : Orderly false w) (hcon : w.isc.clnCon = some con)
    (hsub : w.isc.subState = .connectingServer) {c : KssConnection}
    (hobj : w.system.objects con = some c) (hstate : getState c = .ready)
    (hcalled : w.called = false) : Orderly true (w.announced .opCall) := by
  refine ⟨h.system, ?_, fun _ => hsub, h.subState, fun con' hmem hserver => ?_, ?_⟩
  · simp [announced, InterServer.note, hcon]
  · obtain rfl := Option.some.inj (hcon.symm.trans hmem)
    have hallowed : Allowed (w.announced .opCall).called ((w.announced .opCall).pausing true) =
        Allowed true true := by
      rw [announced, called_note]
      simp [pausing, InterServer.note, Notice.isSent, Notice.isCall]
    rw [hallowed]
    intro item c' hitem hobj'
    obtain rfl := Option.some.inj (hobj.symm.trans hobj')
    obtain ⟨hclient, hneed⟩ := h.steady con hcon hsub item c hitem hobj
    refine ⟨?_, hneed⟩
    cases c with
    | tcp fd timeout destroyable e =>
      refine ⟨hclient.1, ?_⟩
      have hready : e.con.state = .ready := hstate
      simp [hready, Allowed]
    | udp => exact hclient.elim
  · exact always_concat.mpr ⟨h.once, fun _ => not_called_iff.mp hcalled⟩

/-- A connection to a server that has an answer, or has failed to get one, has not been reported
since the request was sent. -/
theorem Orderly.not_called (h : Orderly false w) (hcon : w.isc.clnCon = some con)
    (hm : w.system.Manages con) {c : KssConnection} (hobj : w.system.objects con = some c)
    (hsub : w.isc.subState = .connectingServer)
    (hstate : getState c = .ready ∨ getState c = .readyFailed) : w.called = false := by
  obtain ⟨item, hitem⟩ := hm
  have hclient := (h.steady con hcon hsub item c hitem hobj).1
  cases c with
  | tcp => exact hclient.2.not_answered hstate
  | udp => exact hclient.elim

theorem Orderly.attention (h : Orderly false w) (hcon : w.isc.clnCon = some con)
    (hm : w.system.Manages con) {c : KssConnection} (hobj : w.system.objects con = some c)
    (htakes : getState c = .ready → w.isc.subState = .connectingServer →
      ((w.note (.reported (getState c))).announced .opCall).Among a.script Takes)
    (ha : InterServer.attention minVersion w con a = some (reactivate, w')) :
    Serviced w' con reactivate := by
  have h₀ : Orderly false (w.note (.reported (getState c))) := h.note rfl rfl
  have hcalled : (w.note (.reported (getState c))).called = w.called := by
    rw [called_note]
    simp [Notice.isSent, Notice.isCall]
  have hne : (w.note (.reported (getState c))).isc.clnCon ≠ none := by
    simp [InterServer.note, hcon]
  have hfirst := h.not_called hcon hm hobj
  rw [← hcalled] at hfirst
  have hfailed : getState c = .readyFailed → w.isc.subState = .connectingPmap ∨
      w.isc.subState = .connectingManager ∨
        (w.note (.reported (getState c))).called = false := by
    intro hstate
    cases hsub : w.isc.subState with
    | none => exact absurd hsub (h.subState (by simp [hcon]))
    | connectingPmap => exact Or.inl rfl
    | connectingManager => exact Or.inr (Or.inl rfl)
    | connectingServer => exact Or.inr (Or.inr (hfirst hsub (Or.inr hstate)))
  simp only [InterServer.attention, hobj, Option.bind_eq_bind, Option.bind_some] at ha
  generalize hw₀ : w.note (.reported (getState c)) = w₀ at h₀ hne hfirst hfailed htakes ha
  have hsub₀ : w₀.isc.subState = w.isc.subState := by rw [← hw₀]; rfl
  have hcon₀ : w₀.isc.clnCon = some con := by rw [← hw₀]; exact hcon
  have hobj₀ : w₀.system.objects con = some c := by rw [← hw₀]; exact hobj
  rw [← hsub₀] at hfirst hfailed htakes
  have hother : ∀ {state : ConnectionState}, state ≠ .readyFailed →
      w₀.reportError state a = some (reactivate, w') → Serviced w' con reactivate :=
    fun hstate hr => reportError_serviced h₀.system h₀.once (fun heq => absurd heq hstate) hr
  cases hstate : getState c with
  | connFailed =>
    simp only [hstate] at ha
    exact attentionFailed_serviced h₀.system h₀.once (fun heq => absurd heq (by simp)) ha
  | readyFailed =>
    simp only [hstate] at ha
    exact attentionFailed_serviced h₀.system h₀.once (fun _ => hfailed hstate) ha
  | dead =>
    simp only [hstate] at ha
    exact attentionFailed_serviced h₀.system h₀.once (fun heq => absurd heq (by simp)) ha
  | connected =>
    cases hsub : w₀.isc.subState with
    | none =>
      simp only [hstate, hsub] at ha
      exact hother (by simp) ha
    | connectingPmap =>
      simp only [hstate, hsub] at ha
      exact h₀.pmapConnected hcon₀ hsub ha
    | connectingManager =>
      simp only [hstate, hsub] at ha
      exact h₀.managerConnected hcon₀ hsub ha
    | connectingServer =>
      simp only [hstate, hsub] at ha
      have hopen := h₀.announced_open hne hsub
      exact serverAttention_serviced hopen hcon₀ (fun _ hs => hopen.script hs) ha
  | ready =>
    cases hsub : w₀.isc.subState with
    | none =>
      simp only [hstate, hsub] at ha
      exact hother (by simp) ha
    | connectingPmap =>
      simp only [hstate, hsub] at ha
      exact h₀.pmapReady ha
    | connectingManager =>
      simp only [hstate, hsub] at ha
      exact h₀.managerReady ha
    | connectingServer =>
      simp only [hstate, hsub] at ha
      have hcall := h₀.announced_call hcon₀ hsub hobj₀ hstate (hfirst hsub (Or.inl hstate))
      exact serverAttention_serviced hcall hcon₀
        (fun _ hs => hcall.taken (htakes hstate hsub) hs) ha
  | _ =>
    simp only [hstate] at ha
    exact hother (by simp) ha

theorem notified_ready {system : CnxSystem KssConnection}
    (hnext : w.system.getNextServiceableConnection = some (some con, system))
    (hcon : w.isc.clnCon = some con) {c : KssConnection} (hobj : system.objects con = some c)
    (hstate : getState c = .ready) (hsub : w.isc.subState = .connectingServer) :
    notified minVersion w a = some
      (({ w with system }.note (.reported (getState c))).announced .opCall) := by
  simp [notified, hnext, hcon, InterServer.attention, hobj, hstate, hsub, serverAttention,
    asyncAttention, announced, InterServer.note]

/-- The next connection is served and comes back into play. -/
theorem Orderly.serveNext (h : Orderly false w) {rounds : List (Round ConnectionIo)}
    (hhandles : Handles minVersion Takes w (.serve a rounds))
    (hs : InterServer.serveNext minVersion w a rounds = some w') : Orderly false w' := by
  obtain ⟨⟨next, system⟩, hnext, hs⟩ := Option.bind_eq_some_iff.mp hs
  obtain ⟨hbypasses, hmanages⟩ := CnxSystem.getNext_cases hnext
  have h₁ : Orderly false { w with system } :=
    ⟨h.system.getNext hnext, h.closed_iff, h.opened, h.subState,
      fun con hcon hsub => (h.steady con hcon hsub).bypass (hbypasses con), h.once⟩
  cases next with
  | none => exact Option.some.inj hs ▸ h₁
  | some con =>
    simp only at hs
    split_ifs at hs with hcon
    · obtain ⟨⟨reactivate, w₂⟩, ha, hs⟩ := Option.bind_eq_some_iff.mp hs
      obtain ⟨c, hobj, -⟩ := Option.bind_eq_some_iff.mp ha
      have hserviced := h₁.attention hcon (hmanages con rfl) hobj (fun hstate hsub => ?_) ha
      · obtain ⟨h₂, hcon₂⟩ := hserviced
        simp only at hs
        split_ifs at hs with hreactivate
        · obtain ⟨⟨ok, system₂⟩, htrack, hs⟩ := Option.bind_eq_some_iff.mp hs
          rw [← Option.some.inj hs]
          refine ⟨h₂.system.trackConnection htrack, h₂.closed_iff, h₂.opened, h₂.subState,
            fun con' hmem hsub => ?_, h₂.once⟩
          obtain rfl := Option.some.inj ((hcon₂ hreactivate).symm.trans hmem)
          exact (h₂.system.trackConnection_steady (KssConnection.client_stable _)
            (h₂.steady con (hcon₂ hreactivate) hsub) htrack).1
        · exact Option.some.inj hs ▸ h₂
      · refine hhandles _ (notified_ready hnext hcon hobj hstate hsub) ?_
        exact List.getLast?_concat
    · exact Option.some.inj hs ▸ h₁

theorem Orderly.manage (h : Orderly false w) {op : CnxSystem.Op KssConnection ConnectionIo}
    (hop : w.Elsewhere (.manage op)) {system : CnxSystem KssConnection}
    (hp : w.system.perform op = some system) : Orderly false { w with system } := by
  refine ⟨h.system.perform hp, h.closed_iff, h.opened, h.subState, fun con hcon hsub => ?_, h.once⟩
  have hapart : w.system.Apart con op := by
    cases op with
    | getNextServiceableConnection => exact hop.elim
    | _ => exact hop con hcon
  exact h.system.perform_steady (KssConnection.client_stable _) (h.steady con hcon hsub) hapart hp

theorem create_orderly (host : KsString) (hostPort : UInt16) (server : KsString)
    (hostAddr : SocketAddress) (fdsetSize : ℕ) :
    Orderly false (create (.create host hostPort server hostAddr) fdsetSize) :=
  orderly_of_closed (CnxSystem.create_invariant fdsetSize) rfl rfl always_nil

/-- As long as the user takes every answer when notified of it, there is only one notification for
each request. -/
theorem call_reported_once {minVersion : ℕ} (host : KsString) (hostPort : UInt16)
    (server : KsString) (hostAddr : SocketAddress) (fdsetSize : ℕ) {es : List LoopEvent}
    (hes : Along (loopStep minVersion)
      (fun o e => ∀ w ∈ o, w.Elsewhere e ∧ Handles minVersion Takes w e)
      (some (create (.create host hostPort server hostAddr) fdsetSize)) es)
    (hrun : run (loopStep minVersion)
      (some (create (.create host hostPort server hostAddr) fdsetSize)) es = some w) :
    Always Once w.trace := by
  have hinv : ∀ w ∈ run (loopStep minVersion)
      (some (create (.create host hostPort server hostAddr) fdsetSize)) es,
      Orderly false w := by
    refine run_invariant (I := fun o => ∀ w ∈ o, Orderly false w) ?_ ?_ hes
    · intro o e ho hguard w' hw'
      obtain ⟨w, rfl, hstep⟩ := Option.bind_eq_some_iff.mp hw'
      have h := ho w rfl
      obtain ⟨helse, hhandles⟩ := hguard w rfl
      cases e with
      | call u => exact h.perform hstep
      | manage op =>
        obtain ⟨system, hp, rfl⟩ := Option.map_eq_some_iff.mp hstep
        exact h.manage helse hp
      | serve a rounds => exact h.serveNext hhandles hstep
    · rintro w ⟨⟩
      exact create_orderly ..
  exact (hinv w hrun).once

/-- An answer to the request `xid`, with its accept status and what follows. -/
def answerTo (xid status : UInt8) (results : List UInt8) : List UInt8 :=
  [0x80, 0, 0, 24 + results.length.toUInt8, 0, 0, 0, xid, 0, 0, 0, 1] ++ List.replicate 12 0 ++
    [0, 0, 0, status] ++ results

/-- The manager knows the server at port 7510. -/
def managerAnswer : List UInt8 :=
  answerTo 1 0 (List.replicate 16 0 ++ [0, 0, 0x1D, 0x56] ++ List.replicate 12 0)

def transferAll : List (Round ConnectionIo) :=
  [⟨0, { tcp := { outcomes := [.transfers 200] } }⟩, ⟨0, {}⟩]

def connectDone : LoopEvent :=
  .manage (.processConnections ∅ {7} (fun _ => transferTurn 0 []) fun _ => transferTurn 0 [])

def answerComes : LoopEvent :=
  .manage (.processConnections {7} ∅ (fun _ => transferTurn 0 (List.replicate 12 200))
    fun _ => transferTurn 0 [])

/-- The user opens a connection by way of the manager, and the server is going to answer the first
request with a certain accept status. -/
def connectionOpens (status : UInt8) : List LoopEvent :=
  [.call (.startOpen ⟨0x7F000001, none⟩ { creationInProgress with incoming := managerAnswer }),
    connectDone, .serve ⟨1, creationInProgress, [.close]⟩ transferAll, answerComes,
    .serve ⟨1, { creationInProgress with incoming := answerTo 2 status (List.replicate 8 0) },
      [.close]⟩ [],
    connectDone]

/-- When notified that the connection is open, the user sends a request. -/
def callGoesOut : Attention := ⟨1, creationInProgress, [.send 2 1 ⟨[], true⟩ transferAll]⟩

/-- When notified of the answer, the user calls `receive`. -/
def answerTaken : Attention :=
  ⟨1, creationInProgress, [.receive (.word false fun _ => .done true) true [⟨0, {}⟩]]⟩

/-- The event loop serves the connection until the answer is there, and twice from then on. -/
def answeredCall (status : UInt8) : List LoopEvent :=
  connectionOpens status ++ [.serve callGoesOut [⟨0, {}⟩], answerComes] ++
    [.serve answerTaken [⟨0, {}⟩]] ++ [.serve answerTaken [⟨0, {}⟩]]

/-- The server of the user, before anything happens. -/
def starting : Option InterServer := some (create (.create [104] 7509 [115] ⟨0, 0⟩) 8)

/-- What the user is notified of while the next connection is served after the events. -/
def nextNotice (es : List LoopEvent) (a : Attention) : Option Notice :=
  (run (loopStep 1) starting es).bind fun w =>
    (notified 1 w a).bind fun w' => w'.trace.getLast?

theorem handles_of_nextNotice {es : List LoopEvent} {rounds : List (Round ConnectionIo)}
    {p : InterServer → UserCall → Prop} (h : nextNotice es a ≠ some (.notified .opCall .opened)) :
    ∀ w ∈ run (loopStep 1) starting es, Handles 1 p w (.serve a rounds) := by
  intro w hw w' hw' hlast
  refine absurd ?_ h
  rw [nextNotice, Option.mem_def.mp hw, Option.bind_some, Option.mem_def.mp hw', Option.bind_some,
    hlast]

/-- The handler makes one call only. -/
theorem handles_singleton {p : InterServer → UserCall → Prop} {version : UInt32} {c : Creation}
    {u : UserCall} {rounds : List (Round ConnectionIo)}
    (h : ∀ w' ∈ notified minVersion w ⟨version, c, [u]⟩, p w' u) :
    Handles minVersion p w (.serve ⟨version, c, [u]⟩ rounds) := by
  intro w' hw' _
  refine ⟨[], u, [], rfl, fun w'' hw'' => ?_⟩
  obtain rfl := Option.some.inj hw''
  exact h w' hw'

/-- The user takes an answer, or gives up the connection. -/
def Reacts (_ : InterServer) : UserCall → Prop
  | .close | .receive .. => True
  | _ => False

theorem along_answeredCall {p : InterServer → UserCall → Prop} {status : UInt8}
    (hclose : ∀ w, p w .close)
    (hopens : nextNotice (connectionOpens status) callGoesOut = some (.notified .opOpen .opened))
    (htaken : ∀ es, es = connectionOpens status ++ [.serve callGoesOut [⟨0, {}⟩], answerComes] ∨
      es = connectionOpens status ++ [.serve callGoesOut [⟨0, {}⟩], answerComes] ++
        [.serve answerTaken [⟨0, {}⟩]] →
      ∀ w ∈ run (loopStep 1) starting es, Handles 1 p w (.serve answerTaken [⟨0, {}⟩])) :
    Along (loopStep 1) (fun o e => ∀ w ∈ o, w.Elsewhere e ∧ Handles 1 p w e) starting
      (answeredCall status) := by
  rw [answeredCall, along_append, along_append, along_append]
  refine ⟨⟨⟨?_, ?_⟩, ?_⟩, ?_⟩
  · have hclosing : ∀ {w version c rounds}, Handles 1 p w (.serve ⟨version, c, [.close]⟩ rounds) :=
      fun {_ _ _ _} => handles_singleton fun w' _ => hclose w'
    exact ⟨fun _ _ => ⟨trivial, trivial⟩, fun _ _ => ⟨fun _ _ => trivial, trivial⟩,
      fun _ _ => ⟨trivial, hclosing⟩, fun _ _ => ⟨fun _ _ => trivial, trivial⟩,
      fun _ _ => ⟨trivial, hclosing⟩, fun _ _ => ⟨fun _ _ => trivial, trivial⟩, trivial⟩
  · refine ⟨fun w hw => ⟨trivial, handles_of_nextNotice ?_ w hw⟩,
      fun _ _ => ⟨fun _ _ => trivial, trivial⟩, trivial⟩
    rw [hopens]
    simp
  · exact ⟨fun w hw => ⟨trivial, htaken _ (Or.inl rfl) w hw⟩, trivial⟩
  · exact ⟨fun w hw => ⟨trivial, htaken _ (Or.inr rfl) w hw⟩, trivial⟩

/-- The server does not know the procedure, the user calls `receive`, and is notified of the same
answer again. -/
theorem call_reported_twice :
    ∃ w, Along (loopStep 1) (fun o e => ∀ w ∈ o, w.Elsewhere e ∧ Handles 1 Reacts w e) starting
      (answeredCall 3) ∧
      run (loopStep 1) starting (answeredCall 3) = some w ∧ ¬ Always Once w.trace := by
  have htwice : (run (loopStep 1) starting (answeredCall 3)).any (fun w =>
      w.trace.getLast? = some (.notified .opCall .opened) ∧
        .notified .opCall .opened ∈ sinceLast Notice.isSent w.trace.dropLast) = true := by
    decide +kernel
  obtain ⟨w, hw⟩ := Option.isSome_iff_exists.mp (Option.isSome_of_any htwice)
  rw [hw, Option.any_some, decide_eq_true_iff] at htwice
  obtain ⟨hlast, hmem⟩ := htwice
  refine ⟨w, along_answeredCall (fun _ => trivial) (by decide +kernel) ?_, hw, fun honce => ?_⟩
  · exact fun _ _ _ _ => handles_singleton fun _ _ => trivial
  · rw [← List.dropLast_append_getLast? _ (Option.mem_def.mpr hlast)] at honce
    exact absurd ((always_concat.mp honce).2 rfl _ hmem) (by simp [Notice.isCall])

/-- The server knows the procedure. -/
theorem call_reported_once_accepted :
    ∃ w, run (loopStep 1) starting (answeredCall 0) = some w ∧ Always Once w.trace := by
  have hsome : (run (loopStep 1) starting (answeredCall 0)).isSome = true := by decide +kernel
  obtain ⟨w, hw⟩ := Option.isSome_iff_exists.mp hsome
  refine ⟨w, hw, call_reported_once [104] 7509 [115] ⟨0, 0⟩ 8
    (along_answeredCall (fun _ => trivial) (by decide +kernel) ?_) hw⟩
  intro es hes w hw
  refine handles_singleton fun w' hw' _ con hcon c hc => ?_
  have haccepted : ((run (loopStep 1) starting es).bind fun w =>
      (notified 1 w answerTaken).bind fun w' => w'.isc.clnCon.bind fun con =>
        (w'.system.objects con).map fun c => replySucceeded c.getRpcHeader) ≠ some false := by
    rcases hes with rfl | rfl <;> decide +kernel
  rw [Option.mem_def.mp hw, Option.bind_some] at haccepted
  have hnotified : notified 1 w answerTaken = some w' := hw'
  simpa [hnotified, Option.mem_def.mp hcon, Option.mem_def.mp hc] using haccepted

end InterServer
end AcpltKs
