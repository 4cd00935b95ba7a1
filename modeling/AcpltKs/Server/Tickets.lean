import AcpltKs.Server.Dispatch
import AcpltKs.Service.Alignment

/-! Access tickets on the wire: what the negotiators of a client write in front of the parameters of
a request and expect in front of its result, and which tickets a server makes of that. -/
namespace AcpltKs

namespace KsAuthType

def none : UInt32 := 0
def simple : UInt32 := 1

end KsAuthType

def KsResultCode.unknownAuth : KsResultCode := 0x0005

/-- The tickets of the library: what they allow for every name, and whether they are good at all. -/
inductive KsAvTicketObject where
  | none (access : KsAccess) (result : KsResultCode)
  | simple (access : KsAccess) (result : KsResultCode) (id : KsString)
  deriving DecidableEq

namespace KsAvTicketObject

def xdrTypeCode : KsAvTicketObject → UInt32
  | none .. => KsAuthType.none
  | simple .. => KsAuthType.simple

def access : KsAvTicketObject → KsAccess
  | none access _ | simple access _ _ => access

def result : KsAvTicketObject → KsResultCode
  | none _ result | simple _ result _ => result

/-- The permissions, which are the same for all names. -/
def permissions (ticket : KsAvTicketObject) : KsAvTicket where
  canReadVar _ := ticket.access &&& KsAccess.read ≠ 0
  canWriteVar _ := ticket.access &&& KsAccess.write ≠ 0
  isVisible _ := ticket.access &&& KsAccess.readWrite ≠ 0

def emergencyTicket : KsAvTicketObject := none KsAccess.none .generic

/-- The factory, for servers without tickets of their own. A ticket of an unknown kind is one that
is good for nothing. -/
def xdrNew (defaultAccess : KsAccess) : XdrReader (Option KsAvTicketObject) :=
  .long fun
    | .none => .done .none
    | some typecode =>
        if typecode = KsAuthType.none then .done (some (none defaultAccess .ok))
        else if typecode = KsAuthType.simple then
          (KsString.xdrDecode []).bind fun id =>
            .done (if id.1 then some (simple defaultAccess .ok id.2) else .none)
        else .done (some (none KsAccess.none .unknownAuth))

/-- The parts behind the type code are empty. -/
def xdrEncode (ticket : KsAvTicketObject) : Payload :=
  (xdreULong ticket.xdrTypeCode).andThen (Payload.nothing.andThen .nothing)

def xdrEncodeTrailer (_ : KsAvTicketObject) : Payload := .nothing

end KsAvTicketObject

/-- The negotiators of the library. -/
inductive KscNegotiatorObject where
  | none
  | simple (id : KsString)
  deriving DecidableEq

namespace KscNegotiatorObject

def xdrEncode : KscNegotiatorObject → Payload
  | none => xdreULong KsAuthType.none
  | simple id => (xdreULong KsAuthType.simple).andThen (KsString.xdrEncode id)

def xdrDecode (neg : KscNegotiatorObject) : XdrReader Bool :=
  .long fun
    | .none => .done false
    | some authType =>
        .done (match neg with
          | none => authType = KsAuthType.none
          | simple _ => authType = KsAuthType.simple ∨ authType = KsAuthType.none)

def Sendable : KscNegotiatorObject → Prop
  | none => True
  | simple id => KsString.Sendable id

/-- The ticket that a server makes for the negotiator. -/
def ticket (defaultAccess : KsAccess) : KscNegotiatorObject → KsAvTicketObject
  | none => .none defaultAccess .ok
  | simple id => .simple defaultAccess .ok id

theorem ticket_result (defaultAccess : KsAccess) (neg : KscNegotiatorObject) :
    (neg.ticket defaultAccess).result = .ok := by
  cases neg <;> rfl

theorem xdrEncode_ok (neg : KscNegotiatorObject) : neg.xdrEncode.ok = true := by
  cases neg <;> rfl

/-- The server reads what the negotiator has written. -/
theorem takes_ticket {neg : KscNegotiatorObject} (h : neg.Sendable) (defaultAccess : KsAccess) :
    (KsAvTicketObject.xdrNew defaultAccess).Takes neg.xdrEncode.bytes
      (some (neg.ticket defaultAccess)) := by
  cases neg with
  | none => exact ⟨KsAuthType.none, [], rfl, rfl, rfl⟩
  | simple id =>
    obtain ⟨-, id', htakes, rfl⟩ := KsString.restores h []
    rw [xdrEncode, Payload.bytes_andThen rfl, xdreULong_bytes]
    exact ⟨KsAuthType.simple, _, rfl, htakes.bind_done rfl⟩

/-- The negotiator accepts the ticket that has been made for it, and tickets without any access
control. -/
theorem takes_reply {neg : KscNegotiatorObject} {ticket : KsAvTicketObject}
    (h : ticket.xdrTypeCode = KsAuthType.none ∨ ∃ defaultAccess, ticket = neg.ticket defaultAccess) :
    neg.xdrDecode.Takes ticket.xdrEncode.bytes true := by
  refine ⟨ticket.xdrTypeCode, [], ?_, rfl, ?_⟩
  · rw [KsAvTicketObject.xdrEncode, Payload.bytes_andThen rfl, xdreULong_bytes]
    rfl
  · obtain hnone | ⟨defaultAccess, rfl⟩ := h
    · cases neg <;> simp [hnone]
    · cases neg <;> simp [ticket, KsAvTicketObject.xdrTypeCode]

theorem aligned_decode (neg : KscNegotiatorObject) : neg.xdrDecode.AlignedAt 0 :=
  ⟨dvd_zero 4, fun _ => dvd_refl 4⟩

end KscNegotiatorObject

theorem KsAvTicketObject.aligned_new (defaultAccess : KsAccess) :
    (xdrNew defaultAccess).AlignedAt 0 := by
  refine ⟨dvd_zero 4, fun typecode => XdrReader.AlignedAt.of_dvd ?_ (dvd_refl 4)⟩
  dsimp only
  split_ifs
  · exact XdrReader.alignedAt_done _
  · exact (KsString.aligned []).bind fun _ => XdrReader.alignedAt_done _
  · exact XdrReader.alignedAt_done _

end AcpltKs
