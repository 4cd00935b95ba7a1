import AcpltKs.Service.RoundTrip

/-! Engineered properties of servers that only know the projected properties of protocol version 1:
the client falls back on the older service, and a server still offers it. -/
namespace AcpltKs

namespace KsSvc

def getPP : UInt32 := 0x00000001
def getEP : UInt32 := 0x00000002

end KsSvc

namespace KsEPFlags

def parts : UInt32 := 0x80000000
def children : UInt32 := 0x40000000
def flatten : UInt32 := 0x00000001

end KsEPFlags

/-- What the client makes of projected properties: engineered ones without semantic flags. -/
def KsEngPropsV1.toEngProps (p : KsEngPropsV1) : KsEngProps :=
  { identifier := p.identifier
    creationTime := p.creationTime
    comment := p.comment
    accessMode := p.accessMode
    semanticFlags := 0
    variant :=
      match p.variant with
      | .domain => .domain []
      | .var techUnit type => .var techUnit type
      | .link type oppositeRole classIdentifier => .link type oppositeRole classIdentifier
      | .history type default supported typeIdentifier =>
          .history type default supported typeIdentifier }

/-- What a server makes of engineered properties: projected ones, if there are any of their kind. -/
def KsEngProps.toV1 (p : KsEngProps) : Option KsEngPropsV1 :=
  let projected (variant : KsEngPropsV1Variant) : KsEngPropsV1 :=
    ⟨p.identifier, p.creationTime, p.comment, p.accessMode, variant⟩
  match p.variant with
  | .domain _ => some (projected .domain)
  | .var techUnit type => some (projected (.var techUnit type))
  | .link type oppositeRole association => some (projected (.link type oppositeRole association))
  | .history type default supported typeIdentifier =>
      some (projected (.history type default supported typeIdentifier))
  | .struct _ => none

/-- `KsServerBase::dispatch` for the older service, with the parameters it has read. -/
def KsServerBase.getPP (getEP : KsGetEPParams → KsGetEPResult) (params : KsGetPPParams) :
    KsGetPPResult :=
  let r := getEP ⟨params.path, params.typeMask, params.nameMask, KsEPFlags.children⟩
  ⟨r.result, if r.result = .ok then r.items.filterMap KsEngProps.toV1 else []⟩

namespace KscServerBase

/-- The services of the server as the client gets at them: `requestByOpcode` sends the parameters it
is given, returns whether that has worked out, and leaves the result. -/
structure Services where
  /-- The protocol version, if the server can be reached. -/
  version : Option UInt32
  requestGetPP : Payload → Bool × KsGetPPResult
  requestGetEP : Payload → KsGetEPResult → Bool × KsGetEPResult

/-- What a call comes to: the requests that have been sent, what is returned, and the result. -/
structure Outcome where
  sent : List (UInt32 × Payload)
  returned : Bool
  result : KsGetEPResult

/-- The parameters for a server of version 1. -/
def getPPParams (params : KsGetEPParams) : KsGetPPParams :=
  { path := params.path
    typeMask := params.typeMask &&&
      (KsObjType.var ||| KsObjType.domain ||| KsObjType.link ||| KsObjType.history)
    nameMask := params.nameMask }

/-- The parameters that go along with the request of the older service. They are those of the
caller, and not those that have been made up for this service. -/
def sentGetPP (params : KsGetEPParams) : Payload := params.xdrEncode

def getEP (services : Services) (params : KsGetEPParams) (result : KsGetEPResult) : Outcome :=
  match services.version with
  | none => ⟨[], false, result⟩
  | some version =>
      if version = 1 then
        if params.scopeFlags &&& KsEPFlags.children = 0 then
          ⟨[], true, { result with result := .ok }⟩
        else
          let (ok, r) := services.requestGetPP (sentGetPP params)
          if ok = false then
            ⟨[(KsSvc.getPP, sentGetPP params)], false, { result with result := r.result }⟩
          else
            ⟨[(KsSvc.getPP, sentGetPP params)], true,
              { result := r.result
                items := if r.result = .ok then result.items ++ r.items.map KsEngPropsV1.toEngProps
                  else result.items }⟩
      else
        let (ok, r) := services.requestGetEP params.xdrEncode result
        ⟨[(KsSvc.getEP, params.xdrEncode)], ok, r⟩

end KscServerBase

/-- The parameters of the newer service are those of the older one and the scope flags. -/
theorem KsGetEPParams.bytes_eq (p : KsGetEPParams) : p.xdrEncode.bytes =
    (KsGetPPParams.mk p.path p.typeMask p.nameMask).xdrEncode.bytes ++
      BigEndian.encode p.scopeFlags := by
  simp only [xdrEncode, KsGetPPParams.xdrEncode, KsString.xdrEncode,
    Payload.bytes_andThen (show (xdreULong _).ok = true from rfl),
    Payload.bytes_andThen (show ((xdreULong _).andThen (xdreOpaque _)).ok = true from rfl),
    xdreULong_bytes, List.append_assoc]

/-- Properties that a server has projected come back with their fields, but for the semantic flags
and the class identifier of a domain. -/
theorem KsEngProps.toEngProps_toV1 (p : KsEngProps) {q : KsEngPropsV1} (h : p.toV1 = some q) :
    q.toEngProps = { p with
      semanticFlags := 0
      variant := match p.variant with
        | .domain _ => .domain []
        | variant => variant } := by
  obtain ⟨identifier, creationTime, comment, accessMode, semanticFlags, variant⟩ := p
  cases variant with
  | struct flags => exact absurd h (by simp [toV1])
  | var | domain | link | history =>
    obtain rfl := Option.some.inj h
    rfl

namespace KscServerBase

/-- The older service is asked with its own encoding of the path, the type mask with the types that
it knows of, and the name mask, and what it returns becomes the result, item by item. -/
def FaithfulFallback (services : Services) (params : KsGetEPParams) : Prop :=
  let o := getEP services params ⟨KsResult.blank, []⟩
  o.sent.map (fun request => (request.1, request.2.bytes)) =
      [(KsSvc.getPP, (getPPParams params).xdrEncode.bytes)] ∧
    (o.returned = true → o.result.result = .ok →
      o.result.items = (services.requestGetPP (sentGetPP params)).2.items.map
        KsEngPropsV1.toEngProps)

/-- A server of version 1 is asked for the children. -/
theorem getEP_children {services : Services} {params : KsGetEPParams} (result : KsGetEPResult)
    (hversion : services.version = some 1)
    (hchildren : params.scopeFlags &&& KsEPFlags.children ≠ 0) :
    (getEP services params result).sent = [(KsSvc.getPP, sentGetPP params)] := by
  simp only [getEP, hversion, if_true, hchildren, if_false]
  split <;> rfl

/-- The items come behind those of the result, in the order in which they have been received. -/
theorem getEP_items {services : Services} {params : KsGetEPParams} {result : KsGetEPResult}
    (hversion : services.version = some 1)
    (hchildren : params.scopeFlags &&& KsEPFlags.children ≠ 0)
    (hreturned : (getEP services params result).returned = true)
    (hok : (getEP services params result).result.result = .ok) :
    (getEP services params result).result.items = result.items ++
      (services.requestGetPP (sentGetPP params)).2.items.map KsEngPropsV1.toEngProps := by
  simp only [getEP, hversion, if_true, hchildren, if_false] at hreturned hok ⊢
  split at hreturned
  · exact Bool.noConfusion hreturned
  · rename_i hsent
    simp only [hsent, Bool.true_eq_false, if_false] at hok ⊢
    exact if_pos hok

/-- What is sent is four bytes longer than any encoding for the older service with this path and
this name mask. -/
theorem sentGetPP_length (params : KsGetEPParams) :
    (sentGetPP params).bytes.length = (getPPParams params).xdrEncode.bytes.length + 4 := by
  have hmask (mask : KsObjType) :
      (KsGetPPParams.mk params.path mask params.nameMask).xdrEncode.bytes.length =
        (KsString.xdrEncode params.path).bytes.length + 4 +
          (KsString.xdrEncode params.nameMask).bytes.length := by
    simp only [KsGetPPParams.xdrEncode, KsString.xdrEncode,
      Payload.bytes_andThen (show (xdreULong _).ok = true from rfl),
      Payload.bytes_andThen (show ((xdreULong _).andThen (xdreOpaque _)).ok = true from rfl),
      xdreULong_bytes, List.length_append, BigEndian.encode_length]
    omega
  rw [sentGetPP, KsGetEPParams.bytes_eq, List.length_append, BigEndian.encode_length, hmask,
    getPPParams, hmask]

/-- A server of version 1 reads the path, the unrestricted type mask and the name mask, and leaves
the scope flags. -/
theorem sentGetPP_left {params : KsGetEPParams}
    (h : (KsGetPPParams.mk params.path params.typeMask params.nameMask).Sendable)
    (old : KsGetPPParams) {x : XdrMem} (hroom : (sentGetPP params).bytes.length ≤ x.handy)
    (hread : ByteMemory.read x.buffer x.pos (sentGetPP params).bytes.length =
      (sentGetPP params).bytes) :
    ∃ x', (KsGetPPParams.xdrDecode old).run x =
        ((true, ⟨params.path, params.typeMask, params.nameMask⟩), x') ∧
      x'.pos + 4 = x.pos + (sentGetPP params).bytes.length := by
  obtain ⟨-, p, htakes, rfl⟩ := KsGetPPParams.restores h old
  rw [sentGetPP, KsGetEPParams.bytes_eq, List.length_append, BigEndian.encode_length] at hroom hread
  rw [ByteMemory.read_add] at hread
  obtain ⟨hparams, -⟩ := List.append_inj hread (ByteMemory.read_length _ _ _)
  refine ⟨_, htakes.run_mem (by omega) hparams, ?_⟩
  rw [sentGetPP, KsGetEPParams.bytes_eq, List.length_append, BigEndian.encode_length]
  exact Nat.add_assoc _ _ _

/-- The fallback is never faithful: the parameters that have been made up are not those that are
sent. -/
theorem not_faithfulFallback {services : Services} {params : KsGetEPParams}
    (hversion : services.version = some 1)
    (hchildren : params.scopeFlags &&& KsEPFlags.children ≠ 0) :
    ¬ FaithfulFallback services params := by
  rintro ⟨hsent, -⟩
  rw [getEP_children _ hversion hchildren] at hsent
  have hbytes : (sentGetPP params).bytes = (getPPParams params).xdrEncode.bytes :=
    congrArg Prod.snd (List.head_eq_of_cons_eq hsent)
  have hlength := sentGetPP_length params
  rw [hbytes] at hlength
  omega

/-- A server of version 1 with nothing in it. -/
def emptyServices : Services :=
  { version := some 1
    requestGetPP := fun _ => (true, ⟨.ok, []⟩)
    requestGetEP := fun _ r => (false, r) }

/-- Everything below the root. -/
def rootParams : KsGetEPParams := ⟨[47], 0xFFFFFFFF, [42], KsEPFlags.children⟩

theorem not_faithfulFallback_root : ¬ FaithfulFallback emptyServices rootParams :=
  not_faithfulFallback rfl (by decide)

/-- The request for what is below the root ends with the scope flags. -/
theorem sent_root_differs : ¬ ∀ services params, services.version = some 1 →
    params.scopeFlags &&& KsEPFlags.children ≠ 0 → FaithfulFallback services params := by
  intro h
  have hsent := (h emptyServices rootParams rfl (by decide)).1
  exact absurd hsent (by decide)

end KscServerBase

end AcpltKs
