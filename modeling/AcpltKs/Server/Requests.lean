import AcpltKs.Server.Tickets

/-! The core services as one kind of requests: the parameters that go one way, the results that come
back, and the dispatcher between them. -/
namespace AcpltKs
open XdrDecoder (content)

/-- The parameters of a core service. -/
inductive KsServiceParams where
  | getVar (params : KsGetVarParams)
  | setVar (params : KsSetVarParams)
  | getPP (params : KsGetPPParams)
  | getEP (params : KsGetEPParams)
  | exgData (params : KsExgDataParams)
  deriving DecidableEq

/-- The result of a core service. -/
inductive KsServiceResult where
  | getVar (result : KsGetVarResult)
  | setVar (result : KsSetVarResult)
  | getPP (result : KsGetPPResult)
  | getEP (result : KsGetEPResult)
  | exgData (result : KsExgDataResult)
  deriving DecidableEq

namespace KsServiceParams

def serviceId : KsServiceParams → UInt32
  | getVar _ => KsSvc.getVar
  | setVar _ => KsSvc.setVar
  | getPP _ => KsSvc.getPP
  | getEP _ => KsSvc.getEP
  | exgData _ => KsSvc.exgData

def xdrEncode : KsServiceParams → Payload
  | getVar params => params.xdrEncode
  | setVar params => params.xdrEncode
  | getPP params => params.xdrEncode
  | getEP params => params.xdrEncode
  | exgData params => params.xdrEncode

/-- How the dispatcher reads the parameters; nothing if it does not know the service. -/
def xdrDecode (serviceId : UInt32) : Option (XdrReader (Bool × KsServiceParams)) :=
  if serviceId = KsSvc.getVar then some (content getVar KsGetVarParams.xdrDecode ⟨[]⟩)
  else if serviceId = KsSvc.setVar then some (content setVar KsSetVarParams.xdrDecode ⟨[]⟩)
  else if serviceId = KsSvc.getPP then some (content getPP KsGetPPParams.xdrDecode ⟨[], 0, []⟩)
  else if serviceId = KsSvc.getEP then some (content getEP KsGetEPParams.xdrDecode ⟨[], 0, [], 0⟩)
  else if serviceId = KsSvc.exgData then
    some (content exgData KsExgDataParams.xdrDecode ⟨[], []⟩)
  else none

/-- No service is taken for a ping. -/
theorem serviceId_ne_zero (params : KsServiceParams) : params.serviceId ≠ 0 := by
  cases params with
  | getVar => exact show KsSvc.getVar ≠ 0 by decide
  | setVar => exact show KsSvc.setVar ≠ 0 by decide
  | getPP => exact show KsSvc.getPP ≠ 0 by decide
  | getEP => exact show KsSvc.getEP ≠ 0 by decide
  | exgData => exact show KsSvc.exgData ≠ 0 by decide

def Sendable : KsServiceParams → Prop
  | getVar params => params.Sendable
  | setVar params => params.Sendable
  | getPP params => params.Sendable
  | getEP params => params.Sendable
  | exgData params => params.Sendable

theorem xdrEncode_ok {params : KsServiceParams} (h : params.Sendable) :
    params.xdrEncode.ok = true := by
  cases params with
  | getVar params => exact (params.restores h params).1
  | setVar params => exact (params.restores h params).1
  | getPP params => exact (params.restores h params).1
  | getEP params => exact (params.restores h params).1
  | exgData params => exact (params.restores h params).1

/-- The dispatcher reads the parameters that have been sent. -/
theorem takes {params : KsServiceParams} (h : params.Sendable) :
    ∃ r, xdrDecode params.serviceId = some r ∧ r.AlignedAt 0 ∧
      r.Takes params.xdrEncode.bytes (true, params) := by
  cases params with
  | getVar params =>
    obtain ⟨-, _, htakes, rfl⟩ := KsGetVarParams.restores h ⟨[]⟩
    exact ⟨_, rfl, KsGetVarParams.aligned.content _ _, htakes.bind_done rfl⟩
  | setVar params =>
    obtain ⟨-, _, htakes, rfl⟩ := KsSetVarParams.restores h ⟨[]⟩
    exact ⟨_, rfl, KsSetVarParams.aligned.content _ _, htakes.bind_done rfl⟩
  | getPP params =>
    obtain ⟨-, _, htakes, rfl⟩ := KsGetPPParams.restores h ⟨[], 0, []⟩
    exact ⟨_, rfl, KsGetPPParams.aligned.content _ _, htakes.bind_done rfl⟩
  | getEP params =>
    obtain ⟨-, _, htakes, rfl⟩ := KsGetEPParams.restores h ⟨[], 0, [], 0⟩
    exact ⟨_, rfl, KsGetEPParams.aligned.content _ _, htakes.bind_done rfl⟩
  | exgData params =>
    obtain ⟨-, _, htakes, rfl⟩ := KsExgDataParams.restores h ⟨[], []⟩
    exact ⟨_, rfl, KsExgDataParams.aligned.content _ _, htakes.bind_done rfl⟩

end KsServiceParams

namespace KsServiceResult

def serviceId : KsServiceResult → UInt32
  | getVar _ => KsSvc.getVar
  | setVar _ => KsSvc.setVar
  | getPP _ => KsSvc.getPP
  | getEP _ => KsSvc.getEP
  | exgData _ => KsSvc.exgData

def xdrEncode : KsServiceResult → Payload
  | getVar result => result.xdrEncode
  | setVar result => result.xdrEncode
  | getPP result => result.xdrEncode
  | getEP result => result.xdrEncode
  | exgData result => result.xdrEncode

/-- The client reads into the result that it has. -/
def xdrDecode : XdrDecoder KsServiceResult
  | getVar result => content getVar KsGetVarResult.xdrDecode result
  | setVar result => content setVar KsSetVarResult.xdrDecode result
  | getPP result => content getPP KsGetPPResult.xdrDecode result
  | getEP result => content getEP KsGetEPResult.xdrDecode result
  | exgData result => content exgData KsExgDataResult.xdrDecode result

def Sendable : KsServiceResult → Prop
  | getVar result => result.Sendable
  | setVar result => result.Sendable
  | getPP result => result.Sendable
  | getEP result => result.Sendable
  | exgData result => result.Sendable

/-- The same but for what is not transmitted. -/
def Alike : KsServiceResult → KsServiceResult → Prop
  | getVar result, getVar result' => result.Alike result'
  | setVar result, setVar result' => result.Alike result'
  | getPP result, getPP result' => result.Alike result'
  | getEP result, getEP result' => result.Alike result'
  | exgData result, exgData result' => result.Alike result'
  | _, _ => False

theorem Alike.serviceId_eq {result result' : KsServiceResult} (h : result.Alike result') :
    result'.serviceId = result.serviceId := by
  cases result <;> cases result' <;> first
    | rfl
    | exact absurd h id

theorem aligned_decode : xdrDecode.Aligned := by
  intro old
  cases old with
  | getVar result => exact KsGetVarResult.aligned.content _ _
  | setVar result => exact KsSetVarResult.aligned.content _ _
  | getPP result => exact KsGetPPResult.aligned.content _ _
  | getEP result => exact KsGetEPResult.aligned.content _ _
  | exgData result => exact KsExgDataResult.aligned.content _ _

theorem restores_content {α : Type*} {p : Payload} {d : XdrDecoder α} {a : α} {good : α → Prop}
    {good' : KsServiceResult → Prop} (h : Restores p (d a) good) (wrap : α → KsServiceResult)
    (hgood : ∀ b, good b → good' (wrap b)) : Restores p (content wrap d a) good' := by
  obtain ⟨hok, b, htakes, hb⟩ := h
  exact ⟨hok, wrap b, htakes.bind_done rfl, hgood b hb⟩

theorem restores {result old : KsServiceResult} (h : result.Sendable)
    (hclass : old.serviceId = result.serviceId) :
    Restores result.xdrEncode (xdrDecode old) result.Alike := by
  cases result <;> cases old <;> first
    | exact restores_content (KsGetVarResult.restores h _) _ fun _ hb => hb
    | exact restores_content (KsSetVarResult.restores h _) _ fun _ hb => hb
    | exact restores_content (KsGetPPResult.restores h _) _ fun _ hb => hb
    | exact restores_content (KsGetEPResult.restores h _) _ fun _ hb => hb
    | exact restores_content (KsExgDataResult.restores h _) _ fun _ hb => hb
    | exact absurd hclass (by simp [serviceId, KsSvc.getVar, KsSvc.setVar, KsSvc.getPP,
        KsSvc.getEP, KsSvc.exgData])

end KsServiceResult

/-- The reply to a request whose parameters have been read. -/
def KsServerFunctions.answer {σ : Type*} (server : KsServerFunctions σ) (memory : ResultMemory)
    (ticket : AvTicketPtr) : KsServiceParams → DispatchEvent
  | .getVar params =>
      .sendReply ticket (server.getVar ticket params ⟨KsResult.blank,
        newArray memory.items params.identifiers.length KsGetVarItemResult.blank⟩).xdrEncode
  | .setVar params =>
      .sendReply ticket (server.setVar ticket params ⟨KsResult.blank,
        newArray memory.results params.items.length KsResult.blank⟩).xdrEncode
  | .getPP params =>
      let r := server.getEP ticket
        ⟨params.path, params.typeMask, params.nameMask, KsEPFlags.children⟩
      .sendReply ticket (if r.result = .ok then
          KsGetPPResult.mk (projectItems memory.item r.items).1
            (projectItems memory.item r.items).2
        else ⟨r.result, []⟩).xdrEncode
  | .getEP params => .sendReply ticket (server.getEP ticket params).xdrEncode
  | .exgData params =>
      let result : KsExgDataResult := ⟨KsResult.blank,
        newArray memory.results params.setVars.length KsResult.blank,
        newArray memory.items params.getVars.length KsGetVarItemResult.blank⟩
      if result.results.length = params.setVars.length ∧
          result.items.length = params.getVars.length then
        .sendReply ticket (server.exgData ticket params result).xdrEncode
      else .sendErrorReply ticket .generic

namespace KsServerBase
variable {σ : Type*} [XdrSource σ]

theorem readParams_content {α β : Type*} (wrap : α → β) (d : XdrDecoder α) (a : α) (xdr : σ)
    (ticket : AvTicketPtr) (answer : β → DispatchEvent) :
    readParams (content wrap d a) xdr ticket answer =
      readParams (d a) xdr ticket fun b => answer (wrap b) := by
  simp only [readParams, content, XdrReader.run_bind, XdrReader.run]

/-- The dispatcher reads the parameters of the service and answers them; there is no other way for
it to get at a service. -/
theorem dispatch_eq (server : KsServerFunctions σ) (memory : ResultMemory) (serviceId : UInt32)
    (xdr : σ) (ticket : AvTicketPtr) :
    dispatch server memory serviceId xdr ticket =
      (KsServiceParams.xdrDecode serviceId).elim
        [.finishRequestDeserialization ticket false, .sendErrorReply ticket .notImplemented]
        fun params => readParams params xdr ticket (server.answer memory ticket) := by
  unfold dispatch KsServiceParams.xdrDecode
  split_ifs <;> simp only [Option.elim_some, Option.elim_none, readParams_content] <;> rfl

end KsServerBase

end AcpltKs
