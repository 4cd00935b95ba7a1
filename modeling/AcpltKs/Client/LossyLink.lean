import AcpltKs.Client.Requests
import AcpltKs.SimpleServer.Remote
import AcpltKs.SimpleServer.Repetition

/-! A client and a simple server with a link between them that loses requests and replies: the
client repeats calls that have failed, and the server performs all calls that reach it. -/
namespace AcpltKs
open AnsweringMachines

/-- The outcome of a call that has failed. -/
abbrev ClntFailure := { stat : ClntStat // stat ≠ .success }

/-- What becomes of a call. If the reply is lost, the result may have been written to. -/
inductive Fate where
  | requestLost (failure : ClntFailure)
  | replyLost (env : KssEnvironment) (failure : ClntFailure) (scrap : KsServiceResult)
  | delivered (env : KssEnvironment)

/-- The clock of the server can be sent. -/
def Fate.Timely : Fate → Prop
  | requestLost _ => True
  | replyLost env _ _ | delivered env => env.now.Sendable

/-- The world of a client, with the memory of the server, which is nothing if the server is gone, and
the fates of the calls to come. -/
structure Linked (W : Type*) where
  world : W
  memory : Option KssMemory
  fates : List Fate

namespace Linked
variable {W α : Type*}

/-- What happens elsewhere in the world. -/
def lift (f : W → α × W) (w : Linked W) : α × Linked W :=
  ((f w.world).1, { w with world := (f w.world).2 })

/-- The server and the link have not changed. -/
def Kept (w w' : Linked W) : Prop := w'.memory = w.memory ∧ w'.fates = w.fates

theorem Kept.refl (w : Linked W) : w.Kept w := ⟨rfl, rfl⟩

theorem Kept.trans {w w' w'' : Linked W} (h : w.Kept w') (h' : w'.Kept w'') : w.Kept w'' :=
  ⟨h'.1.trans h.1, h'.2.trans h.2⟩

theorem kept_lift (f : W → α × W) (w : Linked W) : w.Kept (w.lift f).2 := ⟨rfl, rfl⟩

end Linked

/-- Where the link leads to: the server, how it reads its requests, how the client reads the replies,
and the negotiators of the client. -/
structure KssLink (σ τ : Type*) where
  circumstances : KsSimpleServer.Circumstances
  toServer : List UInt8 → σ
  toClient : List UInt8 → τ
  negotiatorAt : ℕ → KscNegotiatorObject

namespace KssLink
open KsSimpleServer

variable {σ τ W : Type*} [XdrSource σ] [XdrSource τ] (link : KssLink σ τ)

def negotiatorObject : KscNegotiator → KscNegotiatorObject
  | .avNone => .none
  | .object address => link.negotiatorAt address

/-- The server answers a call at some time. -/
def answer (env : KssEnvironment) (negotiator : KscNegotiator) (params : KsServiceParams)
    (result : KsServiceResult) (m : KssMemory) :
    Option ((ClntStat × KsServiceResult) × KssMemory) :=
  exchange link.toServer link.toClient m
    ⟨link.circumstances.at env, link.negotiatorObject negotiator, params, result⟩

/-- A call of a service over the link. Where no fate has been settled, the client waits in vain. -/
def callServer (negotiator : KscNegotiator) (params : KsServiceParams) (result : KsServiceResult)
    (w : Linked W) : ClntStat × KsServiceResult × Linked W :=
  match w.fates with
  | [] => (.timedOut, result, w)
  | .requestLost failure :: fates => (failure, result, { w with fates })
  | .replyLost env failure scrap :: fates =>
      (failure, if scrap.serviceId = result.serviceId then scrap else result,
        { w with
          fates
          memory := (w.memory.bind (link.answer env negotiator params result)).map Prod.snd })
  | .delivered env :: fates =>
      let answered := w.memory.bind (link.answer env negotiator params result)
      ((answered.elim (.cantRecv, result) Prod.fst).1,
        (answered.elim (.cantRecv, result) Prod.fst).2,
        { w with fates, memory := answered.map Prod.snd })

/-- The services are called over the link; whatever else a client calls is as it was. -/
def network (net : KscNetwork W KsServiceParams KsServiceResult) :
    KscNetwork (Linked W) KsServiceParams KsServiceResult where
  inetAddr := net.inetAddr
  getHostByName name := Linked.lift (net.getHostByName name)
  clntTcpCreate addr port prog version := Linked.lift (net.clntTcpCreate addr port prog version)
  clntUdpCreate addr port prog version := Linked.lift (net.clntUdpCreate addr port prog version)
  clntDestroy transport w := { w with world := net.clntDestroy transport w.world }
  callManager transport desc info w :=
    let (stat, info, world) := net.callManager transport desc info w.world
    (stat, info, { w with world })
  callServer _ _ negotiator params result w := link.callServer negotiator params result w
  sleep w := { w with world := net.sleep w.world }
  clientAvModule w := net.clientAvModule w.world
  getNegotiator avm := Linked.lift (net.getNegotiator avm)
  addNegotiator := Linked.lift net.addNegotiator

end KssLink

/-- A request of a client. -/
structure ClientRequest where
  avm : Option KscAvModule
  params : KsServiceParams
  result : KsServiceResult

/-- The parameters fit into a message, and the result is one of their kind. -/
structure ClientRequest.Sendable (req : ClientRequest) : Prop where
  params : req.params.Sendable
  result : req.result.serviceId = req.params.serviceId

namespace KscServer
variable {W : Type*}

/-- A request; the loop takes no more passes than there are tries. -/
def request (net : KscNetwork W KsServiceParams KsServiceResult) (st : KscServer × W)
    (req : ClientRequest) : Option ((Bool × KsServiceResult) × (KscServer × W)) :=
  (requestByOpcode net (max 1 st.1.tries) req.params.serviceId req.avm req.params req.result
    st.1 st.2).map fun r => ((r.1, r.2.result), (r.2.server, r.2.world))

end KscServer

namespace KsSimpleServer

/-- What all clients may do. -/
def granted (c : Circumstances) : KsAvTicket :=
  (KscNegotiatorObject.none.ticket c.defaultAccess).permissions

/-- An account of the requests of a client, as if they had not been made over a link: each of them
is performed once or not at all, one after the other, and one that has succeeded is performed and
has the result that the client has got. -/
inductive Explains (c : Circumstances) : Option KssMemory → List ClientRequest →
    List (Bool × KsServiceResult) → Option KssMemory → Prop
  | nil (memory : Option KssMemory) : Explains c memory [] [] memory
  | ignored {memory memory' : Option KssMemory} {req : ClientRequest} {reqs : List ClientRequest}
      {outcomes : List (Bool × KsServiceResult)} (result : KsServiceResult)
      (rest : Explains c memory reqs outcomes memory') :
      Explains c memory (req :: reqs) ((false, result) :: outcomes) memory'
  | performed {m m₁ : KssMemory} {memory' : Option KssMemory} {req : ClientRequest}
      {reqs : List ClientRequest} {outcomes : List (Bool × KsServiceResult)} {ok : Bool}
      {result result' : KsServiceResult} (env : KssEnvironment)
      (perform_eq : perform m (c.at env) (granted c) req.params = some (result, m₁))
      (received : ok = true → result.Alike result')
      (rest : Explains c (some m₁) reqs outcomes memory') :
      Explains c (some m) (req :: reqs) ((ok, result') :: outcomes) memory'
  | gone {m : KssMemory} {memory' : Option KssMemory} {req : ClientRequest}
      {reqs : List ClientRequest} {outcomes : List (Bool × KsServiceResult)}
      (result : KsServiceResult)
      (perform_eq : memoryAfterService m c (granted c) req.params = none)
      (rest : Explains c none reqs outcomes memory') :
      Explains c (some m) (req :: reqs) ((false, result) :: outcomes) memory'

end KsSimpleServer

section Frame
variable {σ τ W : Type*} [XdrSource σ] [XdrSource τ] {link : KssLink σ τ}
  {net : KscNetwork W KsServiceParams KsServiceResult} {s s' : KscServer} {w w' : Linked W}

namespace KscServer
open Linked

theorem destroyTransport_kept (link : KssLink σ τ)
    (net : KscNetwork W KsServiceParams KsServiceResult) (s : KscServer) (w : Linked W) :
    w.Kept (s.destroyTransport (link.network net) w).2 := by
  unfold destroyTransport
  cases s.clientTransport <;> exact ⟨rfl, rfl⟩

theorem getHostAddr_kept {ip : Option UInt32}
    (h : s.getHostAddr (link.network net) w = (ip, s', w')) : w.Kept w' := by
  unfold getHostAddr at h
  dsimp only at h
  split at h
  · cases h
    exact .refl w
  · split_ifs at h
    · split at h <;> cases h <;> exact kept_lift _ w
    · cases h
      exact .refl w

theorem clntTcpCreate_kept {addr : UInt32} {port : UInt16} {prog : UInt32} {version : ℕ}
    {transport : Except ClntStat ClntHandle}
    (h : (link.network net).clntTcpCreate addr port prog version w = (transport, w')) :
    w.Kept w' := by
  cases h
  exact kept_lift _ w

theorem managerTransport_kept {addr : UInt32} {port : UInt16} {version : ℕ}
    {transport : Except ClntStat ClntHandle}
    (h : managerTransport (link.network net) addr port version w = (transport, w')) :
    w.Kept w' := by
  unfold managerTransport at h
  split_ifs at h <;> cases h <;> exact kept_lift _ w

theorem getServerDescFrom_kept {addr : UInt32} {port : UInt16} {version : ℕ} {found : Bool}
    (h : getServerDescFrom (link.network net) addr port version s w = (found, s', w')) :
    w.Kept w' := by
  induction version generalizing s w with
  | zero =>
    cases h
    exact .refl _
  | succ version ih =>
    unfold getServerDescFrom at h
    split at h
    · next htransport =>
      cases h
      exact managerTransport_kept htransport
    · next transport w₁ htransport =>
      have hfirst := managerTransport_kept htransport
      dsimp only at h
      split_ifs at h
      · cases h
        exact hfirst
      · cases h
        exact hfirst
      · have hrest := ih h
        exact hfirst.trans ⟨hrest.1, hrest.2⟩
      · cases h
        exact hfirst

theorem createTransport_kept {created : Bool}
    (h : s.createTransport (link.network net) w = (created, s', w')) : w.Kept w' := by
  unfold createTransport at h
  have hdestroy := destroyTransport_kept link net s w
  rcases hhost : getHostAddr (link.network net) (s.destroyTransport (link.network net) w).1
    (s.destroyTransport (link.network net) w).2 with ⟨hostAddr, s₁, w₁⟩
  have hfirst := hdestroy.trans (getHostAddr_kept hhost)
  dsimp only at h
  rw [hhost] at h
  dsimp only at h
  split at h
  · cases h
    exact hfirst
  · cases h
    exact hfirst
  · rename_i addr port _
    rcases hdesc : getServerDesc (link.network net) addr port s₁ w₁ with ⟨found, s₂, w₂⟩
    have hsecond := hfirst.trans (getServerDescFrom_kept hdesc)
    rw [hdesc] at h
    dsimp only at h
    split_ifs at h
    · cases h
      exact hsecond
    · cases h
      exact hsecond
    · split at h <;> cases h <;> exact hsecond.trans (clntTcpCreate_kept ‹_›)

theorem reconnectServer_kept {tryCount : ℕ} {errcode : ClntStat} {again : Bool}
    (h : s.reconnectServer (link.network net) tryCount errcode w = (again, s', w')) :
    w.Kept w' := by
  unfold reconnectServer at h
  dsimp only at h
  split_ifs at h
  · cases h
    exact .refl w
  · cases h
    have hcreate : ((link.network net).sleep w).Kept
      (s.createTransport (link.network net) ((link.network net).sleep w)).2.2 :=
        createTransport_kept rfl
    exact ⟨hcreate.1, hcreate.2⟩
  · cases h
    exact .refl w

theorem moduleNegotiator_kept {avm : KscAvModule} {negotiator : Option KscNegotiator}
    (h : (link.network net).getNegotiator avm w = (negotiator, w')) : w.Kept w' := by
  cases h
  exact kept_lift _ w

theorem getNegotiator_kept (link : KssLink σ τ)
    (net : KscNetwork W KsServiceParams KsServiceResult) (avm : Option KscAvModule)
    (s : KscServer) (w : Linked W) :
    w.Kept (s.getNegotiator (link.network net) avm w).2.2 := by
  unfold getNegotiator
  split
  · exact .refl w
  · split
    · exact .refl w
    · split
      · next hget => exact moduleNegotiator_kept hget
      · next hget =>
        have hkept := moduleNegotiator_kept hget
        dsimp only
        split_ifs <;> exact ⟨hkept.1, hkept.2⟩

end KscServer

end Frame

namespace KssLink
open KsSimpleServer

variable {σ τ W : Type*} [XdrSource σ] [XdrSource τ] {P : σ → List UInt8 → Prop}
  {Q : τ → List UInt8 → Prop} {link : KssLink σ τ} {params : KsServiceParams}
  {start now : Option KssMemory} {m : KssMemory}

/-- Both sides get the bytes that are sent to them, and the names of the client are not too long. -/
structure Sound (link : KssLink σ τ) (P : σ → List UInt8 → Prop) (Q : τ → List UInt8 → Prop) :
    Prop where
  feedsServer : Feeding P
  feedsClient : Feeding Q
  toServer : ∀ bs, 4 ∣ bs.length → P (link.toServer bs) bs
  toClient : ∀ bs, 4 ∣ bs.length → Q (link.toClient bs) bs
  negotiatorAt : ∀ address, (link.negotiatorAt address).Sendable

/-- A memory that clients can be told about, if there is one. -/
def Fit (memory : Option KssMemory) : Prop := ∀ m ∈ memory, m.Sound ∧ m.Sendable

theorem permissions_ticket (neg : KscNegotiatorObject) (c : Circumstances) :
    (neg.ticket c.defaultAccess).permissions = granted c := by
  cases neg <;> rfl

/-- A call that gets through has the result that it has in the server itself. -/
theorem Sound.answer (h : link.Sound P Q) {env : KssEnvironment} (henv : env.now.Sendable)
    (negotiator : KscNegotiator) (hparams : params.Sendable) {result : KsServiceResult}
    (hresult : result.serviceId = params.serviceId) (hm : m.Sound ∧ m.Sendable) :
    Option.Rel (fun r s => Received r.1 s.1 ∧ Agree r.2 s.2)
      (perform m (link.circumstances.at env) (granted link.circumstances) params)
      (link.answer env negotiator params result m) := by
  have hneg : (link.negotiatorObject negotiator).Sendable := by
    cases negotiator with
    | avNone => trivial
    | object address => exact h.negotiatorAt address
  have hcall : RemoteCall.Sendable ⟨link.circumstances.at env, link.negotiatorObject negotiator,
    params, result⟩ := ⟨henv, hneg, hparams, hresult⟩
  have hexchange := exchange_eq h.feedsServer h.feedsClient h.toServer h.toClient hm.1 hm.2 hcall
  rwa [performCall, permissions_ticket] at hexchange

/-- The request has not been performed, or once, and this only if the encoder takes it. -/
def Progress (c : Circumstances) (params : KsServiceParams) (start now : Option KssMemory) : Prop :=
  now = start ∨ params.xdrEncode.ok = true ∧
    now = start.bind fun m => memoryAfterService m c (granted c) params

/-- However far a request has come, performing it gives the same. -/
theorem Progress.perform_eq {c : Circumstances} (h : Progress c params start (some m))
    (hfit : Fit start) (hparams : params.xdrEncode.ok = true → params.Sendable) :
    ∃ m₀, start = some m₀ ∧ m.Sound ∧ m.Sendable ∧ ∀ env,
      perform m (c.at env) (granted c) params = perform m₀ (c.at env) (granted c) params := by
  obtain rfl | h := h
  · obtain ⟨hsound, hsendable⟩ := hfit m rfl
    exact ⟨m, rfl, hsound, hsendable, fun _ => rfl⟩
  · obtain ⟨hok, h⟩ := h
    obtain ⟨m₀, rfl, hafter⟩ := Option.bind_eq_some_iff.mp h.symm
    obtain ⟨hsound, hsendable⟩ := hfit m₀ rfl
    obtain ⟨_, hperform, rfl⟩ := Option.map_eq_some_iff.mp hafter
    obtain ⟨hsound', hsendable'⟩ := perform_keeps hsound hsendable (hparams hok) hperform
    exact ⟨m₀, rfl, hsound', hsendable', perform_again hsound hafter⟩

theorem Progress.fit {c : Circumstances} (h : Progress c params start now) (hfit : Fit start)
    (hparams : params.xdrEncode.ok = true → params.Sendable) : Fit now := by
  intro m hm
  rw [hm] at h
  obtain ⟨-, -, hsound, hsendable, -⟩ := h.perform_eq hfit hparams
  exact ⟨hsound, hsendable⟩

/-- The request has been performed, and the client has got the result. -/
def Achieved (c : Circumstances) (params : KsServiceParams) (start now : Option KssMemory)
    (result : KsServiceResult) : Prop :=
  ∃ m m₁ env r, start = some m ∧ perform m (c.at env) (granted c) params = some (r, m₁) ∧
    now = some m₁ ∧ r.Sendable ∧ r.Alike result

/-- What cannot be encoded is not sent. -/
theorem answer_of_not_ok (link : KssLink σ τ) (env : KssEnvironment) (negotiator : KscNegotiator)
    (hok : params.xdrEncode.ok = false) (result : KsServiceResult) (m : KssMemory) :
    link.answer env negotiator params result m = some ((.cantEncodeArgs, result), m) := by
  have hrequest : ((link.negotiatorObject negotiator).xdrEncode.andThen params.xdrEncode).ok =
      false := by
    rw [Payload.andThen]
    split_ifs with hneg
    · exact hok
    · exact Bool.not_eq_true _ ▸ hneg
  rw [answer, exchange, RemoteCall.request, if_neg (by simp [hrequest])]

/-- The server answers a request that has come so far. -/
theorem Sound.answer_spec (h : link.Sound P Q) {env : KssEnvironment} (henv : env.now.Sendable)
    (negotiator : KscNegotiator) (hparams : params.xdrEncode.ok = true → params.Sendable)
    {result : KsServiceResult} (hresult : result.serviceId = params.serviceId) (hfit : Fit start)
    (hprogress : Progress link.circumstances params start now) :
    Progress link.circumstances params start
        ((now.bind (link.answer env negotiator params result)).map Prod.snd) ∧
      ∀ r ∈ now.bind (link.answer env negotiator params result),
        r.1.2.serviceId = params.serviceId ∧ (r.1.1 = .success →
          Achieved link.circumstances params start (some r.2) r.1.2) := by
  cases now with
  | none => exact ⟨hprogress, nofun⟩
  | some m =>
    cases hok : params.xdrEncode.ok with
    | false =>
      rw [Option.bind_some, link.answer_of_not_ok env negotiator hok]
      refine ⟨hprogress, ?_⟩
      rintro _ ⟨⟩
      exact ⟨hresult, nofun⟩
    | true =>
    obtain ⟨m₀, rfl, hsound, hsendable, hsame⟩ := hprogress.perform_eq hfit hparams
    replace hparams := hparams hok
    have hanswer := h.answer henv negotiator hparams hresult ⟨hsound, hsendable⟩
    have hafter := @memoryAfterService_at m₀ (granted link.circumstances) (hfit m₀ rfl).1
      link.circumstances env params
    rw [hsame env] at hanswer
    rw [Option.bind_some]
    cases hperform : perform m₀ (link.circumstances.at env) (granted link.circumstances) params with
    | none =>
      rw [hperform] at hanswer
      rw [memoryAfterService, hperform] at hafter
      cases hget : link.answer env negotiator params result m with
      | some s =>
        rw [hget] at hanswer
        cases hanswer
      | none => exact ⟨Or.inr ⟨hok, hafter⟩, nofun⟩
    | some r =>
      rw [hperform] at hanswer
      rw [memoryAfterService, hperform] at hafter
      cases hget : link.answer env negotiator params result m with
      | none =>
        rw [hget] at hanswer
        cases hanswer
      | some s =>
        rw [hget] at hanswer
        obtain ⟨⟨stat, result'⟩, m'⟩ := s
        obtain ⟨r, m₁⟩ := r
        cases hanswer with
        | some hanswer =>
        obtain ⟨⟨hsuccess, halike⟩, rfl, -⟩ := hanswer
        refine ⟨Or.inr ⟨hok, hafter⟩, ?_⟩
        rintro _ ⟨⟩
        obtain ⟨hclass, hsend⟩ :=
          perform_result (hfit m₀ rfl).1 (hfit m₀ rfl).2 henv hparams hperform
        exact ⟨halike.serviceId_eq.trans hclass,
          fun _ => ⟨m₀, _, env, r, rfl, hperform, rfl, hsend, halike⟩⟩

/-- A request under way over the link. -/
structure Attempting (link : KssLink σ τ) (params : KsServiceParams) (start : Option KssMemory)
    (r : KscServer.Request (Linked W) KsServiceResult) : Prop where
  progress : Progress link.circumstances params start r.world.memory
  fates : ∀ fate ∈ r.world.fates, fate.Timely
  result : r.result.serviceId = params.serviceId

/-- After a call, the result is there if the call has succeeded. -/
structure Attempted (link : KssLink σ τ) (params : KsServiceParams) (start : Option KssMemory)
    (r : KscServer.Request (Linked W) KsServiceResult) : Prop
    extends Attempting link params start r where
  achieved : r.errcode = .success →
    Achieved link.circumstances params start r.world.memory r.result

variable {net : KscNetwork W KsServiceParams KsServiceResult}
  {r : KscServer.Request (Linked W) KsServiceResult} {w w' : Linked W}

theorem Sound.attempt (h : link.Sound P Q)
    (hparams : params.xdrEncode.ok = true → params.Sendable) (hfit : Fit start)
    (hr : Attempting link params start r) (service : UInt32) (avm : Option KscAvModule) :
    Attempted link params start (KscServer.tryRequest (link.network net) service avm params r) := by
  unfold KscServer.tryRequest
  cases htransport : r.server.clientTransport with
  | none => exact ⟨⟨hr.progress, hr.fates, hr.result⟩, nofun⟩
  | some transport =>
    have hkept := KscServer.getNegotiator_kept link net avm r.server r.world
    rcases hneg : KscServer.getNegotiator (link.network net) avm r.server r.world with
      ⟨negotiator, s, w⟩
    rw [hneg] at hkept
    obtain ⟨hmemory, hfates⟩ := hkept
    have hprogress := hr.progress
    have htimely := hr.fates
    rw [← hmemory] at hprogress
    rw [← hfates] at htimely
    dsimp only [network]
    rcases w with ⟨world, memory, fates⟩
    cases fates with
    | nil => exact ⟨⟨hprogress, htimely, hr.result⟩, nofun⟩
    | cons fate fates =>
      obtain ⟨hfate, hrest⟩ := List.forall_mem_cons.mp htimely
      cases fate with
      | requestLost failure =>
        exact ⟨⟨hprogress, hrest, hr.result⟩, fun hsuccess => absurd hsuccess failure.2⟩
      | replyLost env failure scrap =>
        refine ⟨⟨(h.answer_spec hfate negotiator hparams hr.result hfit hprogress).1, hrest, ?_⟩,
          fun hsuccess => absurd hsuccess failure.2⟩
        dsimp only [callServer]
        split_ifs with hclass
        · exact hclass.trans hr.result
        · exact hr.result
      | delivered env =>
        obtain ⟨hprogress', hanswer⟩ :=
          h.answer_spec hfate negotiator hparams hr.result hfit hprogress
        dsimp only [callServer]
        cases hget : memory.bind (link.answer env negotiator params r.result) with
        | none =>
          rw [hget] at hprogress'
          exact ⟨⟨hprogress', hrest, hr.result⟩, nofun⟩
        | some answered =>
          rw [hget] at hprogress'
          obtain ⟨hclass, hachieved⟩ := hanswer answered hget
          exact ⟨⟨hprogress', hrest, hclass⟩, hachieved⟩

omit [XdrSource σ] [XdrSource τ] in
/-- What does not change the server and the link changes nothing about a request. -/
theorem Attempted.of_kept {r' : KscServer.Request (Linked W) KsServiceResult}
    (hr : Attempted link params start r) (hworld : r.world.Kept r'.world)
    (hresult : r'.result = r.result) (herr : r'.errcode = r.errcode) :
    Attempted link params start r' := by
  refine ⟨⟨?_, ?_, hresult ▸ hr.result⟩, fun hsuccess => ?_⟩
  · rw [hworld.1]
    exact hr.progress
  · rw [hworld.2]
    exact hr.fates
  · rw [hworld.1, hresult]
    exact hr.achieved (herr ▸ hsuccess)

theorem Attempted.retry (hr : Attempted link params start r) :
    Attempted link params start (KscServer.retryRequest (link.network net) r).2 := by
  unfold KscServer.retryRequest
  split_ifs
  · exact hr
  · exact hr.of_kept (KscServer.reconnectServer_kept rfl) rfl rfl

theorem Attempted.finish (hr : Attempted link params start r) :
    Attempted link params start (KscServer.finishRequest (link.network net) r).2 := by
  unfold KscServer.finishRequest
  split_ifs
  · exact hr.of_kept (KscServer.destroyTransport_kept link net r.server r.world) rfl rfl
  · exact hr.of_kept (.refl _) rfl rfl

/-- A request at the beginning of a pass through the loop. -/
def Underway (link : KssLink σ τ) (params : KsServiceParams) (start : Option KssMemory)
    (tries left : ℕ) (r : KscServer.Request (Linked W) KsServiceResult) : Prop :=
  r.Retrying tries left ∧ Attempting link params start r

/-- A request at the end of the loop. -/
def Ended (link : KssLink σ τ) (params : KsServiceParams) (start : Option KssMemory) (tries : ℕ)
    (r : KscServer.Request (Linked W) KsServiceResult) : Prop :=
  r.Settled tries ∧ Attempted link params start r

theorem Sound.again (h : link.Sound P Q)
    (hparams : params.xdrEncode.ok = true → params.Sendable) (hfit : Fit start)
    {tries left : ℕ} (hr : Underway link params start tries left r) (service : UInt32)
    (avm : Option KscAvModule) (hagain : (KscServer.retryRequest (link.network net)
      (KscServer.tryRequest (link.network net) service avm params r)).1 = true) :
    ∃ left', left = left' + 1 ∧ Underway link params start tries left' (KscServer.retryRequest
      (link.network net) (KscServer.tryRequest (link.network net) service avm params r)).2 := by
  obtain ⟨left', hleft, hretrying⟩ := hr.1.again (link.network net) service avm params hagain
  exact ⟨left', hleft, hretrying,
    (h.attempt hparams hfit hr.2 service avm).retry.toAttempting⟩

theorem Sound.exit (h : link.Sound P Q)
    (hparams : params.xdrEncode.ok = true → params.Sendable) (hfit : Fit start)
    {tries left : ℕ} (hr : Underway link params start tries left r) (service : UInt32)
    (avm : Option KscAvModule) : Ended link params start tries (KscServer.retryRequest
      (link.network net) (KscServer.tryRequest (link.network net) service avm params r)).2 :=
  ⟨hr.1.exit (link.network net) service avm params,
    (h.attempt hparams hfit hr.2 service avm).retry⟩

/-- What has become of a request: it has not been performed, it has been performed once, or the
server is gone. -/
theorem Sound.request_spec (h : link.Sound P Q) {req : ClientRequest}
    (hparams : req.params.xdrEncode.ok = true → req.params.Sendable)
    (hresult : req.result.serviceId = req.params.serviceId) (hfit : Fit w.memory)
    (hfates : ∀ fate ∈ w.fates, fate.Timely) (s : KscServer) :
    ∃ ok result s' w', KscServer.request (link.network net) (s, w) req =
        some ((ok, result), (s', w')) ∧ (∀ fate ∈ w'.fates, fate.Timely) ∧
      Progress link.circumstances req.params w.memory w'.memory ∧
      (ok = true → Achieved link.circumstances req.params w.memory w'.memory result) ∧
      (ok = false → s'.lastResult ≠ .ok) := by
  unfold KscServer.request KscServer.requestByOpcode
  dsimp only
  generalize hprepare : (if s.clientTransport.isSome = true then
    (true, ({ s with lastResult := .ok } : KscServer), w)
    else KscServer.createTransport (link.network net) { s with lastResult := .ok } w) = prepared
  obtain ⟨created, s₁, w₁⟩ := prepared
  have hprepared : s₁.tries = s.tries ∧ w.Kept w₁ := by
    split_ifs at hprepare
    · cases hprepare
      exact ⟨rfl, .refl w⟩
    · exact ⟨(KscServer.createTransport_changes hprepare).1,
        KscServer.createTransport_kept hprepare⟩
  obtain ⟨htries, hmemory, hfates'⟩ := hprepared
  rw [← hfates'] at hfates
  rw [← hmemory] at hfit ⊢
  dsimp only
  split_ifs with hgiven
  · refine ⟨_, _, _, _, rfl, hfates, Or.inl rfl, nofun, fun _ hok => ?_⟩
    rw [hok, KscServer.reconnectAfterCreate_ok] at hgiven
    simp at hgiven
  · have hstart : (⟨s₁, w₁, req.result, .failed, 0, []⟩ : KscServer.Request (Linked W)
        KsServiceResult).Retrying s.tries (max 1 s.tries - 1) :=
      ⟨htries, by dsimp only; omega, rfl, nofun⟩
    have hattempting : Attempting link req.params w₁.memory
        (⟨s₁, w₁, req.result, .failed, 0, []⟩ : KscServer.Request (Linked W) KsServiceResult) :=
      ⟨Or.inl rfl, hfates, hresult⟩
    obtain ⟨r, hrun, hsettled, hattempted⟩ := @DoWhile.run_total _
      (KscServer.tryRequest (link.network net) req.params.serviceId req.avm req.params)
      (KscServer.retryRequest (link.network net)) (Underway link req.params w₁.memory s.tries)
      (Ended link req.params w₁.memory s.tries)
      (fun _ _ hr => h.again hparams hfit hr req.params.serviceId req.avm)
      (fun _ _ hr _ => h.exit hparams hfit hr req.params.serviceId req.avm) _ _
      ⟨hstart, hattempting⟩
    have hfuel := DoWhile.run_mono hrun (show max 1 s.tries - 1 + 1 ≤ max 1 s.tries by omega)
    have hfinish : Attempted link req.params w₁.memory
        (KscServer.finishRequest (link.network net) r).2 := hattempted.finish
    obtain ⟨hreturned, hfailed⟩ := hsettled.finish (link.network net)
    rw [hfuel]
    refine ⟨_, _, _, _, rfl, hfinish.fates, hfinish.progress, fun hok => hfinish.achieved ?_,
      fun hok => (hfailed hok).1⟩
    exact hsettled.lastCall_iff.mp (hreturned.mp hok)

/-- In every run of requests of a client over a link that loses requests and replies as it likes, all
requests come to an end, and what they have come to has an account in which each of them has been
performed at most once, in order, and each one that has succeeded exactly once, with the result that
the client has got: the calls that are repeated are not noticed. -/
theorem requests_explained (h : link.Sound P Q) (net : KscNetwork W KsServiceParams KsServiceResult)
    {reqs : List ClientRequest} (hreqs : ∀ req ∈ reqs, req.Sendable) (hfit : Fit w.memory)
    (hfates : ∀ fate ∈ w.fates, fate.Timely) (s : KscServer) :
    ∃ outcomes s' w', runAll (KscServer.request (link.network net)) (s, w) reqs =
        some (outcomes, (s', w')) ∧
      Explains link.circumstances w.memory reqs outcomes w'.memory := by
  induction reqs generalizing s w with
  | nil => exact ⟨[], s, w, rfl, .nil _⟩
  | cons req reqs ih =>
    obtain ⟨hreq, hreqs⟩ := List.forall_mem_cons.mp hreqs
    obtain ⟨ok, result, s₁, w₁, hrequest, hfates₁, hprogress, hachieved, -⟩ :=
      h.request_spec (fun _ => hreq.params) hreq.result hfit hfates s
    have hfit₁ := hprogress.fit hfit fun _ => hreq.params
    obtain ⟨outcomes, s', w', hrun, hexplains⟩ := ih hreqs hfit₁ hfates₁ s₁
    refine ⟨(ok, result) :: outcomes, s', w', runAll_cons hrequest hrun, ?_⟩
    cases ok with
    | true =>
      obtain ⟨m, m₁, env, r, hstart, hperform, hnow, -, halike⟩ := hachieved rfl
      rw [hnow] at hexplains
      rw [hstart]
      exact .performed env hperform (fun _ => halike) hexplains
    | false =>
      obtain hnow | ⟨-, hnow⟩ := hprogress
      · rw [hnow] at hexplains
        exact .ignored result hexplains
      · cases hstart : w.memory with
        | none =>
          rw [hstart] at hnow
          rw [hnow] at hexplains
          exact .ignored result hexplains
        | some m =>
          rw [hstart, Option.bind_some] at hnow
          cases hafter : memoryAfterService m link.circumstances (granted link.circumstances)
            req.params with
          | none =>
            rw [hnow, hafter] at hexplains
            exact .gone result hafter hexplains
          | some m₁ =>
            rw [hnow, hafter] at hexplains
            obtain ⟨⟨r, m₁'⟩, hperform, rfl⟩ := Option.map_eq_some_iff.mp hafter
            exact .performed link.circumstances.toKssEnvironment hperform nofun hexplains

/-- A network on which every transport can be created at once. -/
def quietNetwork : KscNetwork Unit KsServiceParams KsServiceResult where
  inetAddr _ := 1
  getHostByName _ w := ([], w)
  clntTcpCreate _ _ _ _ w := (.ok ⟨0⟩, w)
  clntUdpCreate _ _ _ _ w := (.ok ⟨0⟩, w)
  clntDestroy _ w := w
  callManager _ _ info w := (.success, { info with result := .ok }, w)
  callServer _ _ _ _ result w := (.timedOut, result, w)
  sleep w := w
  clientAvModule _ := none
  getNegotiator _ w := (none, w)
  addNegotiator w := (true, w)

/-- A link by memory streams, and a client whose requests are tried twice. -/
def pumpLink : KssLink XdrMem XdrMem where
  circumstances := ⟨⟨⟨5, 0⟩, fun _ => 0⟩, true, {}, KsAccess.readWrite⟩
  toServer := XdrMem.ofBytes
  toClient := XdrMem.ofBytes
  negotiatorAt _ := .none

def pumpServer : KscServer where
  hostName := [104]
  serverDesc := ⟨[115], 2⟩
  serverInfo := ⟨.ok, ⟨⟨[115], 2⟩, 1, 0, true⟩⟩
  clientTransport := some ⟨0⟩
  tries := 2
  lastIp := 0
  negTable := []
  avModule := none
  lastResult := .ok

def pumpRequests : List ClientRequest :=
  [⟨none, .setVar ⟨[⟨[47, 112], some (.var (some (.int 7)) ⟨1, 0⟩ KsState.good)⟩]⟩, .setVar ⟨0, []⟩⟩,
    ⟨none, .getVar ⟨[[47, 112]]⟩, .getVar ⟨0, []⟩⟩]

/-- The first reply is lost. -/
def pumpFates : List Fate :=
  [.replyLost ⟨⟨6, 0⟩, fun _ => 0⟩ ⟨.timedOut, by decide⟩ (.setVar ⟨0, []⟩),
    .delivered ⟨⟨7, 0⟩, fun _ => 0⟩, .delivered ⟨⟨8, 0⟩, fun _ => 0⟩]

theorem pumpLink_sound : pumpLink.Sound XdrMem.Holds XdrMem.Holds where
  feedsServer := feeding_xdrMem
  feedsClient := feeding_xdrMem
  toServer bs _ := XdrMem.holds_ofBytes bs
  toClient bs _ := XdrMem.holds_ofBytes bs
  negotiatorAt _ := trivial

/-- The variable `p` is written to twice, as the first reply is lost, and then it is read. -/
theorem requests_explained_pump : ∃ (m : KssMemory) (s' : KscServer) (w' : Linked Unit),
    m.Sound ∧ m.Sendable ∧
    runAll (KscServer.request (pumpLink.network quietNetwork))
      (pumpServer, ⟨(), some m, pumpFates⟩) pumpRequests =
        some ([(true, .setVar ⟨.ok, [.ok]⟩),
          (true, .getVar ⟨.ok, [⟨.ok, some (.var (some (.int 7)) ⟨1, 0⟩ KsState.good)⟩]⟩)],
          (s', w')) ∧ w'.fates = [] ∧
    Explains pumpLink.circumstances (some m) pumpRequests
      [(true, .setVar ⟨.ok, [.ok]⟩),
        (true, .getVar ⟨.ok, [⟨.ok, some (.var (some (.int 7)) ⟨1, 0⟩ KsState.good)⟩]⟩)]
      w'.memory := by
  obtain ⟨m₀, m, hcreate, rfl, hsound, -⟩ := exists_pump
  have hrun : (create ⟨⟨0, 0⟩, fun _ => 0⟩).map (fun m₀ =>
      (decide (GuardedRun.run step m₀ pumpEvents).Sendable,
        (runAll (KscServer.request (pumpLink.network quietNetwork))
          (pumpServer, ⟨(), some (GuardedRun.run step m₀ pumpEvents), pumpFates⟩)
          pumpRequests).map fun r => (r.1, r.2.2.fates.isEmpty))) =
      some (true, some ([(true, .setVar ⟨.ok, [.ok]⟩),
        (true, .getVar ⟨.ok, [⟨.ok, some (.var (some (.int 7)) ⟨1, 0⟩ KsState.good)⟩]⟩)], true)) := by
    decide +kernel
  rw [hcreate, Option.map_some, Option.some.injEq] at hrun
  obtain ⟨hsendable, hrun⟩ := Prod.mk.inj hrun
  have hsendable := of_decide_eq_true hsendable
  have hreqs : ∀ req ∈ pumpRequests, req.Sendable := by
    intro req hreq
    obtain rfl | rfl : _ ∨ _ := by simpa [pumpRequests] using hreq
    · refine ⟨⟨by decide, ?_⟩, rfl⟩
      simp only [List.mem_singleton, forall_eq]
      exact ⟨by decide, _, rfl, ⟨_, rfl, trivial⟩, by decide⟩
    · refine ⟨⟨by decide, ?_⟩, rfl⟩
      simp only [List.mem_singleton, forall_eq]
      decide
  have hfates : ∀ fate ∈ pumpFates, fate.Timely := by
    simp only [pumpFates, List.forall_mem_cons, Fate.Timely]
    exact ⟨by decide, by decide, by decide, by simp⟩
  have hfit : Fit (some (GuardedRun.run step m₀ pumpEvents)) := by
    rintro _ ⟨⟩
    exact ⟨hsound, hsendable⟩
  obtain ⟨outcomes, s', w', hruns, hexplains⟩ := @requests_explained _ _ _ _ _ _ _ _
    ⟨(), some (GuardedRun.run step m₀ pumpEvents), pumpFates⟩ pumpLink_sound quietNetwork
      pumpRequests hreqs hfit hfates pumpServer
  rw [hruns, Option.map_some, Option.some.injEq] at hrun
  obtain ⟨rfl, hempty⟩ := Prod.mk.inj hrun
  exact ⟨_, s', w', hsound, hsendable, hruns, List.isEmpty_iff.mp hempty, hexplains⟩

end KssLink

end AcpltKs
