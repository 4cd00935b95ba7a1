import AcpltKs.Service.Fallback

/-! How a server answers a request: tickets, parameters, and replies. -/
namespace AcpltKs

namespace KsSvc

def getVar : UInt32 := 0x00000101
def setVar : UInt32 := 0x00000102
def exgData : UInt32 := 0x00000103

end KsSvc

def KsResultCode.notImplemented : KsResultCode := 0x0003

/-- A pointer to a ticket. There is one emergency ticket, which is never destroyed. -/
inductive AvTicketPtr where
  | emergency
  | object (address : ℕ)
  deriving DecidableEq

/-- A ticket, and whether it takes the address of the sender. -/
structure TicketObject where
  result : KsResultCode
  setSenderAddress : Bool

/-- What becomes of a request: tickets that are obtained and destroyed, and calls of the
transport. -/
inductive DispatchEvent where
  | getTicket (pTicket : Option AvTicketPtr)
  | finishRequestDeserialization (ticket : AvTicketPtr) (ok : Bool)
  | sendPingReply
  | sendErrorReply (ticket : AvTicketPtr) (error : KsResultCode)
  | sendReply (ticket : AvTicketPtr) (result : Payload)
  | personaNonGrata
  | deleteTicket (ticket : AvTicketPtr)

namespace DispatchEvent

def isAnswer : DispatchEvent → Bool
  | .sendPingReply | .sendErrorReply .. | .sendReply .. | .personaNonGrata => true
  | _ => false

/-- A reply that comes after the deserialization of the request. -/
def isReply : DispatchEvent → Bool
  | .sendErrorReply .. | .sendReply .. => true
  | _ => false

def isFinish : DispatchEvent → Bool
  | .finishRequestDeserialization .. => true
  | _ => false

def obtains (ticket : AvTicketPtr) : DispatchEvent → Bool
  | .getTicket pTicket => pTicket = some ticket
  | _ => false

def destroys (ticket : AvTicketPtr) : DispatchEvent → Bool
  | .deleteTicket ticket' => ticket' = ticket
  | _ => false

end DispatchEvent

/-- The virtual functions of a server, and the tickets it makes. `σ` are the streams. -/
structure KsServerFunctions (σ : Type*) where
  getTicket : σ → Option AvTicketPtr × σ
  ticket : ℕ → TicketObject
  getVar : AvTicketPtr → KsGetVarParams → KsGetVarResult → KsGetVarResult
  setVar : AvTicketPtr → KsSetVarParams → KsSetVarResult → KsSetVarResult
  getEP : AvTicketPtr → KsGetEPParams → KsGetEPResult
  exgData : AvTicketPtr → KsExgDataParams → KsExgDataResult → KsExgDataResult

/-- Whether there is memory for the arrays of a result, and for the items of a list. -/
structure ResultMemory where
  results : Bool := true
  items : Bool := true
  item : ℕ → Bool := fun _ => true

/-- The emergency ticket is made for errors. -/
def KsServerFunctions.ticketAt {σ : Type*} (server : KsServerFunctions σ) :
    AvTicketPtr → TicketObject
  | .emergency => ⟨.generic, true⟩
  | .object address => server.ticket address

/-- An array of this size, or an empty one. -/
def newArray {α : Type*} (room : Bool) (size : ℕ) (blank : α) : List α :=
  if room then List.replicate size blank else []

/-- Projected properties, up to the first one for which there is no memory. -/
def projectItems : (ℕ → Bool) → List KsEngProps → KsResultCode × List KsEngPropsV1
  | _, [] => (.ok, [])
  | room, hep :: heps =>
      match hep.toV1 with
      | none => projectItems room heps
      | some epv1 =>
          if room 0 then
            let (result, items) := projectItems (fun i => room (i + 1)) heps
            (result, epv1 :: items)
          else (.generic, [])

/-- With enough memory, these are the properties that can be projected. -/
theorem projectItems_eq {room : ℕ → Bool} (hroom : ∀ i, room i = true) (heps : List KsEngProps) :
    projectItems room heps = (.ok, heps.filterMap KsEngProps.toV1) := by
  induction heps generalizing room with
  | nil => rfl
  | cons hep heps ih =>
    cases hv1 : hep.toV1 with
    | none =>
      simp only [projectItems, hv1, List.filterMap_cons]
      exact ih hroom
    | some epv1 =>
      have hrest := ih fun i => hroom (i + 1)
      simp only [projectItems, hv1, List.filterMap_cons, hroom 0, hrest, if_true]

namespace KsServerBase
variable {σ : Type*} [XdrSource σ]

/-- The parameters are read, and deserialization is finished in any case. -/
def readParams {α : Type*} (params : XdrReader (Bool × α)) (xdr : σ) (ticket : AvTicketPtr)
    (answer : α → DispatchEvent) : List DispatchEvent :=
  let (decodedOk, params) := (params.run xdr).1
  [.finishRequestDeserialization ticket decodedOk,
    if decodedOk then answer params else .sendErrorReply ticket .generic]

def dispatchGetVar (server : KsServerFunctions σ) (memory : ResultMemory) (xdr : σ)
    (ticket : AvTicketPtr) : List DispatchEvent :=
  readParams (KsGetVarParams.xdrDecode ⟨[]⟩) xdr ticket fun params =>
    let result : KsGetVarResult := ⟨KsResult.blank,
      newArray memory.items params.identifiers.length KsGetVarItemResult.blank⟩
    .sendReply ticket (server.getVar ticket params result).xdrEncode

def dispatchSetVar (server : KsServerFunctions σ) (memory : ResultMemory) (xdr : σ)
    (ticket : AvTicketPtr) : List DispatchEvent :=
  readParams (KsSetVarParams.xdrDecode ⟨[]⟩) xdr ticket fun params =>
    let result : KsSetVarResult := ⟨KsResult.blank,
      newArray memory.results params.items.length KsResult.blank⟩
    .sendReply ticket (server.setVar ticket params result).xdrEncode

def dispatchGetPP (server : KsServerFunctions σ) (memory : ResultMemory) (xdr : σ)
    (ticket : AvTicketPtr) : List DispatchEvent :=
  readParams (KsGetPPParams.xdrDecode ⟨[], 0, []⟩) xdr ticket fun params =>
    let r := server.getEP ticket
      ⟨params.path, params.typeMask, params.nameMask, KsEPFlags.children⟩
    let result : KsGetPPResult :=
      if r.result = .ok then
        let (result, items) := projectItems memory.item r.items
        ⟨result, items⟩
      else ⟨r.result, []⟩
    .sendReply ticket result.xdrEncode

/-- With enough memory, the older service is the one that the client falls back on. -/
theorem dispatchGetPP_eq (server : KsServerFunctions σ) (xdr : σ) (ticket : AvTicketPtr) :
    dispatchGetPP server {} xdr ticket =
      readParams (KsGetPPParams.xdrDecode ⟨[], 0, []⟩) xdr ticket fun params =>
        .sendReply ticket (getPP (server.getEP ticket) params).xdrEncode := by
  unfold dispatchGetPP getPP
  simp only [projectItems_eq fun _ => rfl]
  congr 1
  funext params
  split
  · next hok => rw [hok]
  · rfl

def dispatchGetEP (server : KsServerFunctions σ) (xdr : σ) (ticket : AvTicketPtr) :
    List DispatchEvent :=
  readParams (KsGetEPParams.xdrDecode ⟨[], 0, [], 0⟩) xdr ticket fun params =>
    .sendReply ticket (server.getEP ticket params).xdrEncode

def dispatchExgData (server : KsServerFunctions σ) (memory : ResultMemory) (xdr : σ)
    (ticket : AvTicketPtr) : List DispatchEvent :=
  readParams (KsExgDataParams.xdrDecode ⟨[], []⟩) xdr ticket fun params =>
    let result : KsExgDataResult := ⟨KsResult.blank,
      newArray memory.results params.setVars.length KsResult.blank,
      newArray memory.items params.getVars.length KsGetVarItemResult.blank⟩
    if result.results.length = params.setVars.length ∧
        result.items.length = params.getVars.length then
      .sendReply ticket (server.exgData ticket params result).xdrEncode
    else .sendErrorReply ticket .generic

def dispatch (server : KsServerFunctions σ) (memory : ResultMemory) (serviceId : UInt32) (xdr : σ)
    (ticket : AvTicketPtr) : List DispatchEvent :=
  if serviceId = KsSvc.getVar then dispatchGetVar server memory xdr ticket
  else if serviceId = KsSvc.setVar then dispatchSetVar server memory xdr ticket
  else if serviceId = KsSvc.getPP then dispatchGetPP server memory xdr ticket
  else if serviceId = KsSvc.getEP then dispatchGetEP server xdr ticket
  else if serviceId = KsSvc.exgData then dispatchExgData server memory xdr ticket
  else [.finishRequestDeserialization ticket false, .sendErrorReply ticket .notImplemented]

/-- Any ticket but the emergency ticket is deleted. -/
def release (pTicket : AvTicketPtr) : List DispatchEvent :=
  if pTicket ≠ .emergency then [.deleteTicket pTicket] else []

def dispatchTransport (server : KsServerFunctions σ) (memory : ResultMemory) (serviceId : UInt32)
    (xdr : σ) : List DispatchEvent :=
  if serviceId = 0 then [.sendPingReply]
  else
    let (obtained, xdr) := server.getTicket xdr
    let pTicket := obtained.getD .emergency
    if (server.ticketAt pTicket).result ≠ .ok then
      .getTicket obtained :: .finishRequestDeserialization pTicket false ::
        .sendErrorReply pTicket (server.ticketAt pTicket).result :: release pTicket
    else if !(server.ticketAt pTicket).setSenderAddress then
      [.getTicket obtained, .personaNonGrata]
    else .getTicket obtained :: (dispatch server memory serviceId xdr pTicket ++ release pTicket)

end KsServerBase

/-- One answer, deserialization finished once before a reply, and every ticket destroyed once. -/
structure AnswersOnce (events : List DispatchEvent) : Prop where
  answer : events.countP (·.isAnswer) = 1
  finish : ∀ before reply after, events = before ++ reply :: after → reply.isReply = true →
    before.countP (·.isFinish) = 1 ∧ after.countP (·.isFinish) = 0
  destroys : ∀ ticket, events.countP (·.destroys ticket) =
    if ticket = .emergency then 0 else events.countP (·.obtains ticket)

/-- The server gets a valid ticket, which does not take the address of the sender. -/
def Refuses {σ : Type*} (server : KsServerFunctions σ) (xdr : σ) : Prop :=
  ∃ address, (server.getTicket xdr).1 = some (.object address) ∧
    (server.ticket address).result = .ok ∧ (server.ticket address).setSenderAddress = false

section Proofs
variable {σ : Type*} [XdrSource σ] {ticket : AvTicketPtr} {events : List DispatchEvent}

/-- Deserialization is finished, and a reply is sent. -/
def Replies (ticket : AvTicketPtr) (events : List DispatchEvent) : Prop :=
  ∃ ok reply, events = [.finishRequestDeserialization ticket ok, reply] ∧ reply.isReply = true

theorem readParams_replies {α : Type*} (params : XdrReader (Bool × α)) (xdr : σ)
    (ticket : AvTicketPtr) {answer : α → DispatchEvent} (h : ∀ a, (answer a).isReply = true) :
    Replies ticket (KsServerBase.readParams params xdr ticket answer) := by
  refine ⟨_, _, rfl, ?_⟩
  split
  · exact h _
  · rfl

theorem dispatch_replies (server : KsServerFunctions σ) (memory : ResultMemory)
    (serviceId : UInt32) (xdr : σ) (ticket : AvTicketPtr) :
    Replies ticket (KsServerBase.dispatch server memory serviceId xdr ticket) := by
  unfold KsServerBase.dispatch
  split_ifs
  · exact readParams_replies _ xdr ticket fun _ => rfl
  · exact readParams_replies _ xdr ticket fun _ => rfl
  · exact readParams_replies _ xdr ticket fun _ => rfl
  · exact readParams_replies _ xdr ticket fun _ => rfl
  · refine readParams_replies _ xdr ticket fun params => ?_
    dsimp only
    split <;> rfl
  · exact ⟨_, _, rfl, rfl⟩

theorem reply_cases {reply : DispatchEvent} (h : reply.isReply = true) :
    (∃ ticket error, reply = .sendErrorReply ticket error) ∨
      ∃ ticket result, reply = .sendReply ticket result := by
  cases reply with
  | sendErrorReply ticket error => exact Or.inl ⟨ticket, error, rfl⟩
  | sendReply ticket result => exact Or.inr ⟨ticket, result, rfl⟩
  | _ => exact absurd h Bool.false_ne_true

/-- What is done with the ticket in the end does not count as an answer. -/
theorem release_silent (pTicket : AvTicketPtr) :
    (KsServerBase.release pTicket).countP (·.isFinish) = 0 ∧
      (KsServerBase.release pTicket).countP (·.isAnswer) = 0 ∧
      ∀ e ∈ KsServerBase.release pTicket, e.isReply = false := by
  unfold KsServerBase.release
  split <;> simp [DispatchEvent.isFinish, DispatchEvent.isAnswer, DispatchEvent.isReply]

/-- A ticket is destroyed if it has been obtained. -/
theorem release_destroys (obtained : Option AvTicketPtr) (ticket : AvTicketPtr) :
    (KsServerBase.release (obtained.getD .emergency)).countP (·.destroys ticket) =
      (if ticket = .emergency then 0
        else [DispatchEvent.getTicket obtained].countP (·.obtains ticket)) ∧
    (KsServerBase.release (obtained.getD .emergency)).countP (·.obtains ticket) = 0 := by
  unfold KsServerBase.release
  cases obtained with
  | none => simp [DispatchEvent.obtains]
  | some pTicket =>
    by_cases hp : pTicket = .emergency
    · subst hp
      simp [DispatchEvent.obtains, eq_comm]
    · rw [Option.getD_some, if_pos hp]
      simp only [List.countP_singleton, DispatchEvent.destroys, DispatchEvent.obtains,
        Option.some.injEq, decide_eq_true_eq]
      by_cases heq : pTicket = ticket
      · subst heq
        simp [hp]
      · simp [heq]

/-- The ticket is obtained, a reply is sent, and the ticket is destroyed. -/
theorem Replies.answersOnce {obtained : Option AvTicketPtr}
    (h : Replies (obtained.getD .emergency) events) :
    AnswersOnce (.getTicket obtained :: (events ++
      KsServerBase.release (obtained.getD .emergency))) := by
  obtain ⟨ok, reply, rfl, hreply⟩ := h
  obtain ⟨hfinish, hanswer, hnone⟩ := release_silent (obtained.getD .emergency)
  refine ⟨?_, fun before reply' after heq hreply' => ?_, fun ticket => ?_⟩
  · change List.countP _ ([_, _, reply] ++ _) = 1
    rw [List.countP_append, hanswer]
    obtain ⟨_, _, rfl⟩ | ⟨_, _, rfl⟩ := reply_cases hreply <;> rfl
  · rcases before with _ | ⟨a, _ | ⟨b, _ | ⟨c, before⟩⟩⟩
    · obtain ⟨rfl, -⟩ := List.cons.inj heq
      exact absurd hreply' Bool.false_ne_true
    · obtain ⟨-, heq⟩ := List.cons.inj heq
      obtain ⟨rfl, -⟩ := List.cons.inj heq
      exact absurd hreply' Bool.false_ne_true
    · simp only [List.cons_append, List.nil_append, List.cons.injEq] at heq
      obtain ⟨rfl, rfl, rfl, rfl⟩ := heq
      exact ⟨rfl, hfinish⟩
    · simp only [List.cons_append, List.nil_append, List.cons.injEq] at heq
      have hmem : reply' ∈ KsServerBase.release (obtained.getD .emergency) := by
        rw [heq.2.2.2]
        exact List.mem_append_right _ List.mem_cons_self
      exact absurd hreply' (by rw [hnone reply' hmem]; exact Bool.false_ne_true)
  · obtain ⟨hdestroys, hobtains⟩ := release_destroys obtained ticket
    change List.countP _ ([_, _, reply] ++ _) =
      if ticket = .emergency then 0 else List.countP _ ([_, _, reply] ++ _)
    rw [List.countP_append, List.countP_append, hdestroys, hobtains]
    obtain ⟨_, _, rfl⟩ | ⟨_, _, rfl⟩ := reply_cases hreply <;> exact Nat.zero_add _

omit [XdrSource σ] in
theorem emergency_result (server : KsServerFunctions σ) :
    (server.ticketAt .emergency).result ≠ .ok := by
  rw [KsServerFunctions.ticketAt]
  decide

end Proofs

/-- Every request gets exactly one answer, and its ticket is destroyed exactly once, but for a ticket
that does not take the address of the sender. -/
theorem dispatchTransport_answersOnce_iff {σ : Type*} [XdrSource σ] (server : KsServerFunctions σ)
    (memory : ResultMemory) (serviceId : UInt32) (xdr : σ) :
    AnswersOnce (KsServerBase.dispatchTransport server memory serviceId xdr) ↔
      serviceId = 0 ∨ ¬ Refuses server xdr := by
  by_cases hping : serviceId = 0
  · rw [KsServerBase.dispatchTransport, if_pos hping]
    refine iff_of_true ⟨rfl, fun before reply after heq hreply => ?_, fun ticket => ?_⟩ (Or.inl hping)
    · have hmem : reply ∈ [DispatchEvent.sendPingReply] := by
        rw [heq]
        exact List.mem_append_right _ List.mem_cons_self
      rw [List.mem_singleton.mp hmem] at hreply
      exact absurd hreply Bool.false_ne_true
    · split <;> rfl
  rw [KsServerBase.dispatchTransport, if_neg hping, or_iff_right hping]
  generalize hticket : server.getTicket xdr = obtained
  obtain ⟨obtained, xdr'⟩ := obtained
  dsimp only
  by_cases hresult : (server.ticketAt (obtained.getD .emergency)).result = .ok
  swap
  · rw [if_pos hresult]
    refine iff_of_true (Replies.answersOnce ⟨false, _, rfl, rfl⟩) ?_
    rintro ⟨address, hobtained, hok, -⟩
    rw [hticket] at hobtained
    obtain rfl : obtained = some (.object address) := hobtained
    exact hresult hok
  rw [if_neg (not_not.mpr hresult)]
  cases haccept : (server.ticketAt (obtained.getD .emergency)).setSenderAddress with
  | true =>
    refine iff_of_true (dispatch_replies server memory serviceId xdr' _).answersOnce ?_
    rintro ⟨address, hobtained, -, hrefused⟩
    rw [hticket] at hobtained
    obtain rfl : obtained = some (.object address) := hobtained
    exact absurd (haccept.symm.trans hrefused) (by simp)
  | false =>
    obtain ⟨address, rfl⟩ : ∃ address, obtained = some (.object address) := by
      rcases obtained with _ | (_ | address)
      · exact absurd hresult (emergency_result server)
      · exact absurd hresult (emergency_result server)
      · exact ⟨address, rfl⟩
    refine iff_of_false (fun h => ?_) (not_not.mpr ⟨address, by rw [hticket], hresult, haccept⟩)
    have hdestroys := h.destroys (.object address)
    simp [DispatchEvent.destroys, DispatchEvent.obtains] at hdestroys

/-- A server whose tickets are all valid, but take no address. -/
def refusingServer : KsServerFunctions XdrMem where
  getTicket xdr := (some (.object 0), xdr)
  ticket _ := ⟨.ok, false⟩
  getVar _ _ result := result
  setVar _ _ result := result
  getEP _ _ := ⟨.ok, []⟩
  exgData _ _ result := result

/-- The ticket of a client that is refused is never destroyed. -/
theorem not_answersOnce_refused :
    ¬ AnswersOnce (KsServerBase.dispatchTransport refusingServer {} KsSvc.getVar
      (xdrmemCreate (fun _ => 0) 0 .decode)) := by
  intro h
  exact absurd (h.destroys (.object 0)) (by decide)

end AcpltKs
