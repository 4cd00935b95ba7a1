import AcpltKs.Service.Values

/-! The wire format of engineered and current properties, of the projected properties of protocol
version 1, and of selectors. -/
namespace AcpltKs
open XdrDecoder (pair content)

namespace KsEngPropsVariant

def xdrTypeCode : KsEngPropsVariant → UInt32
  | .var .. => KsObjType.var
  | .domain .. => KsObjType.domain
  | .link .. => KsObjType.link
  | .history .. => KsObjType.history
  | .struct .. => KsObjType.struct

def xdrEncode : KsEngPropsVariant → Payload
  | .var techUnit type => (KsString.xdrEncode techUnit).andThen (xdreULong type)
  | .domain classIdentifier => KsString.xdrEncode classIdentifier
  | .link type oppositeRole association =>
      (xdreULong type).andThen
        ((KsString.xdrEncode oppositeRole).andThen (KsString.xdrEncode association))
  | .history type default supported typeIdentifier =>
      (xdreULong type).andThen ((xdreULong default).andThen
        ((xdreULong supported).andThen (KsString.xdrEncode typeIdentifier)))
  | .struct flags => xdreULong flags

def xdrDecode : XdrDecoder KsEngPropsVariant
  | .var techUnit type =>
      content (fun p => .var p.1 p.2) (pair KsString.xdrDecode xdrdULong) (techUnit, type)
  | .domain classIdentifier => content .domain KsString.xdrDecode classIdentifier
  | .link type oppositeRole association =>
      content (fun p => .link p.1 p.2.1 p.2.2)
        (pair xdrdULong (pair KsString.xdrDecode KsString.xdrDecode))
        (type, oppositeRole, association)
  | .history type default supported typeIdentifier =>
      content (fun p => .history p.1 p.2.1 p.2.2.1 p.2.2.2)
        (pair xdrdULong (pair xdrdULong (pair xdrdULong KsString.xdrDecode)))
        (type, default, supported, typeIdentifier)
  | .struct flags => content .struct xdrdULong flags

def Sendable : KsEngPropsVariant → Prop
  | .var techUnit _ => KsString.Sendable techUnit
  | .domain classIdentifier => KsString.Sendable classIdentifier
  | .link _ oppositeRole association =>
      KsString.Sendable oppositeRole ∧ KsString.Sendable association
  | .history _ _ _ typeIdentifier => KsString.Sendable typeIdentifier
  | .struct _ => True

theorem restores {v old : KsEngPropsVariant} (h : v.Sendable)
    (hclass : old.xdrTypeCode = v.xdrTypeCode) :
    Restores v.xdrEncode (xdrDecode old) fun v' => v' = v := by
  cases v <;> cases old <;>
    try simp [xdrTypeCode, KsObjType.var, KsObjType.domain, KsObjType.link, KsObjType.history,
      KsObjType.struct] at hclass
  case var.var techUnit type techUnit' type' =>
    exact ((KsString.restores h techUnit').pair (c := (techUnit, type))
      (restores_uLong type type')).content fun p => var p.1 p.2
  case domain.domain classIdentifier classIdentifier' =>
    exact (KsString.restores h classIdentifier').content _
  case link.link type oppositeRole association type' oppositeRole' association' =>
    exact ((restores_uLong type type').pair (c := (type, oppositeRole, association))
      ((KsString.restores h.1 oppositeRole').pair (KsString.restores h.2 association'))).content
        fun p => link p.1 p.2.1 p.2.2
  case history.history type default supported typeIdentifier type' default' supported'
      typeIdentifier' =>
    exact ((restores_uLong type type').pair (c := (type, default, supported, typeIdentifier))
      ((restores_uLong default default').pair ((restores_uLong supported supported').pair
        (KsString.restores h typeIdentifier')))).content
          fun p => history p.1 p.2.1 p.2.2.1 p.2.2.2
  case struct.struct flags flags' => exact (restores_uLong flags flags').content _

end KsEngPropsVariant

namespace KsEngProps

def xdrTypeCode (p : KsEngProps) : UInt32 := p.variant.xdrTypeCode

def xdrEncodeVariant (p : KsEngProps) : Payload := p.variant.xdrEncode

def xdrDecodeVariant : XdrDecoder KsEngProps :=
  .field (·.variant) (fun variant p => { p with variant }) KsEngPropsVariant.xdrDecode

def xdrEncodeCommon (p : KsEngProps) : Payload :=
  (KsString.xdrEncode p.identifier).andThen ((KsTime.xdrEncode p.creationTime).andThen
    ((KsString.xdrEncode p.comment).andThen
      ((xdreULong p.accessMode).andThen (xdreULong p.semanticFlags))))

def xdrDecodeCommon : XdrDecoder KsEngProps :=
  (XdrDecoder.field (·.identifier) (fun identifier p => { p with identifier })
      KsString.xdrDecode).andThen <|
    (XdrDecoder.field (·.creationTime) (fun creationTime p => { p with creationTime })
      KsTime.xdrDecode).andThen <|
    (XdrDecoder.field (·.comment) (fun comment p => { p with comment })
      KsString.xdrDecode).andThen <|
    (XdrDecoder.field (·.accessMode) (fun accessMode p => { p with accessMode })
      xdrdULong).andThen <|
    .field (·.semanticFlags) (fun semanticFlags p => { p with semanticFlags }) xdrdULong

def union : XdrUnion KsEngProps where
  typeCode := xdrTypeCode
  encodeVariant := xdrEncodeVariant
  decodeVariant := xdrDecodeVariant
  encodeCommon := xdrEncodeCommon
  decodeCommon := xdrDecodeCommon
  blanks :=
    [.var [] 0, .domain [], .link 0 [] [], .history 0 0 0 [], .struct 0].map
      (⟨[], ⟨0, 0⟩, [], 0, 0, ·⟩)

def xdrEncode (p : KsEngProps) : Payload := union.encode p

def xdrDecode : XdrDecoder KsEngProps := union.decode

def xdrNew : XdrReader (Option KsEngProps) := union.new

structure Sendable (p : KsEngProps) : Prop where
  identifier : KsString.Sendable p.identifier
  creationTime : p.creationTime.Sendable
  comment : KsString.Sendable p.comment
  variant : p.variant.Sendable

theorem restoresParts {p : KsEngProps} (h : p.Sendable) : union.RestoresParts p := by
  intro old hclass
  show Restores (p.variant.xdrEncode.andThen p.xdrEncodeCommon)
    (xdrDecodeVariant.andThen xdrDecodeCommon old) _
  refine (KsEngPropsVariant.restores h.variant hclass).field.andThen fun _ => ?_
  rintro ⟨_, rfl, rfl⟩
  refine (KsString.restores h.identifier _).field.andThen fun _ => ?_
  rintro ⟨_, rfl, rfl⟩
  refine (KsTime.restores h.creationTime _).field.andThen fun _ => ?_
  rintro ⟨_, rfl, rfl⟩
  refine (KsString.restores h.comment _).field.andThen fun _ => ?_
  rintro ⟨_, rfl, rfl⟩
  refine (restores_uLong p.accessMode _).field.andThen fun _ => ?_
  rintro ⟨_, rfl, rfl⟩
  refine (restores_uLong p.semanticFlags _).field.mono ?_
  rintro _ ⟨_, rfl, rfl⟩
  rfl

theorem isSome_blank (p : KsEngProps) : (union.blank p.xdrTypeCode).isSome = true := by
  obtain ⟨_, _, _, _, _, variant⟩ := p
  cases variant <;> rfl

end KsEngProps

/-- What the projected properties of an object hold in addition to the common ones. -/
inductive KsEngPropsV1Variant where
  | var (techUnit : KsString) (type : UInt32)
  | domain
  | link (type : UInt32) (oppositeRoleIdentifier classIdentifier : KsString)
  | history (type defaultInterpolation supportedInterpolations : UInt32)
      (typeIdentifier : KsString)
  deriving DecidableEq

/-- The projected properties of protocol version 1. -/
structure KsEngPropsV1 where
  identifier : KsString
  creationTime : PltTime
  comment : KsString
  accessMode : KsAccess
  variant : KsEngPropsV1Variant
  deriving DecidableEq

namespace KsEngPropsV1Variant

def xdrTypeCode : KsEngPropsV1Variant → UInt32
  | .var .. => KsObjType.var
  | .domain => KsObjType.domain
  | .link .. => KsObjType.link
  | .history .. => KsObjType.history

def xdrEncode : KsEngPropsV1Variant → Payload
  | .var techUnit type => (KsString.xdrEncode techUnit).andThen (xdreULong type)
  | .domain => .nothing
  | .link type oppositeRole classIdentifier =>
      (xdreULong type).andThen
        ((KsString.xdrEncode oppositeRole).andThen (KsString.xdrEncode classIdentifier))
  | .history type default supported typeIdentifier =>
      (xdreULong type).andThen ((xdreULong default).andThen
        ((xdreULong supported).andThen (KsString.xdrEncode typeIdentifier)))

def xdrDecode : XdrDecoder KsEngPropsV1Variant
  | .var techUnit type =>
      content (fun p => .var p.1 p.2) (pair KsString.xdrDecode xdrdULong) (techUnit, type)
  | .domain => .done (true, .domain)
  | .link type oppositeRole classIdentifier =>
      content (fun p => .link p.1 p.2.1 p.2.2)
        (pair xdrdULong (pair KsString.xdrDecode KsString.xdrDecode))
        (type, oppositeRole, classIdentifier)
  | .history type default supported typeIdentifier =>
      content (fun p => .history p.1 p.2.1 p.2.2.1 p.2.2.2)
        (pair xdrdULong (pair xdrdULong (pair xdrdULong KsString.xdrDecode)))
        (type, default, supported, typeIdentifier)

def Sendable : KsEngPropsV1Variant → Prop
  | .var techUnit _ => KsString.Sendable techUnit
  | .domain => True
  | .link _ oppositeRole classIdentifier =>
      KsString.Sendable oppositeRole ∧ KsString.Sendable classIdentifier
  | .history _ _ _ typeIdentifier => KsString.Sendable typeIdentifier

theorem restores {v old : KsEngPropsV1Variant} (h : v.Sendable)
    (hclass : old.xdrTypeCode = v.xdrTypeCode) :
    Restores v.xdrEncode (xdrDecode old) fun v' => v' = v := by
  cases v <;> cases old <;>
    try simp [xdrTypeCode, KsObjType.var, KsObjType.domain, KsObjType.link, KsObjType.history]
      at hclass
  case var.var techUnit type techUnit' type' =>
    exact ((KsString.restores h techUnit').pair (c := (techUnit, type))
      (restores_uLong type type')).content fun p => var p.1 p.2
  case domain.domain => exact .nothing rfl
  case link.link type oppositeRole classIdentifier type' oppositeRole' classIdentifier' =>
    exact ((restores_uLong type type').pair (c := (type, oppositeRole, classIdentifier))
      ((KsString.restores h.1 oppositeRole').pair
        (KsString.restores h.2 classIdentifier'))).content fun p => link p.1 p.2.1 p.2.2
  case history.history type default supported typeIdentifier type' default' supported'
      typeIdentifier' =>
    exact ((restores_uLong type type').pair (c := (type, default, supported, typeIdentifier))
      ((restores_uLong default default').pair ((restores_uLong supported supported').pair
        (KsString.restores h typeIdentifier')))).content
          fun p => history p.1 p.2.1 p.2.2.1 p.2.2.2

end KsEngPropsV1Variant

namespace KsEngPropsV1

def xdrTypeCode (p : KsEngPropsV1) : UInt32 := p.variant.xdrTypeCode

def xdrEncodeVariant (p : KsEngPropsV1) : Payload := p.variant.xdrEncode

def xdrDecodeVariant : XdrDecoder KsEngPropsV1 :=
  .field (·.variant) (fun variant p => { p with variant }) KsEngPropsV1Variant.xdrDecode

def xdrEncodeCommon (p : KsEngPropsV1) : Payload :=
  (KsString.xdrEncode p.identifier).andThen ((KsTime.xdrEncode p.creationTime).andThen
    ((KsString.xdrEncode p.comment).andThen (xdreULong p.accessMode)))

def xdrDecodeCommon : XdrDecoder KsEngPropsV1 :=
  (XdrDecoder.field (·.identifier) (fun identifier p => { p with identifier })
      KsString.xdrDecode).andThen <|
    (XdrDecoder.field (·.creationTime) (fun creationTime p => { p with creationTime })
      KsTime.xdrDecode).andThen <|
    (XdrDecoder.field (·.comment) (fun comment p => { p with comment })
      KsString.xdrDecode).andThen <|
    .field (·.accessMode) (fun accessMode p => { p with accessMode }) xdrdULong

def union : XdrUnion KsEngPropsV1 where
  typeCode := xdrTypeCode
  encodeVariant := xdrEncodeVariant
  decodeVariant := xdrDecodeVariant
  encodeCommon := xdrEncodeCommon
  decodeCommon := xdrDecodeCommon
  blanks :=
    [.var [] 0, .domain, .link 0 [] [], .history 0 0 0 []].map (⟨[], ⟨0, 0⟩, [], 0, ·⟩)

def xdrEncode (p : KsEngPropsV1) : Payload := union.encode p

def xdrDecode : XdrDecoder KsEngPropsV1 := union.decode

def xdrNew : XdrReader (Option KsEngPropsV1) := union.new

structure Sendable (p : KsEngPropsV1) : Prop where
  identifier : KsString.Sendable p.identifier
  creationTime : p.creationTime.Sendable
  comment : KsString.Sendable p.comment
  variant : p.variant.Sendable

theorem restoresParts {p : KsEngPropsV1} (h : p.Sendable) : union.RestoresParts p := by
  intro old hclass
  show Restores (p.variant.xdrEncode.andThen p.xdrEncodeCommon)
    (xdrDecodeVariant.andThen xdrDecodeCommon old) _
  refine (KsEngPropsV1Variant.restores h.variant hclass).field.andThen fun _ => ?_
  rintro ⟨_, rfl, rfl⟩
  refine (KsString.restores h.identifier _).field.andThen fun _ => ?_
  rintro ⟨_, rfl, rfl⟩
  refine (KsTime.restores h.creationTime _).field.andThen fun _ => ?_
  rintro ⟨_, rfl, rfl⟩
  refine (KsString.restores h.comment _).field.andThen fun _ => ?_
  rintro ⟨_, rfl, rfl⟩
  refine (restores_uLong p.accessMode _).field.mono ?_
  rintro _ ⟨_, rfl, rfl⟩
  rfl

theorem isSome_blank (p : KsEngPropsV1) : (union.blank p.xdrTypeCode).isSome = true := by
  obtain ⟨_, _, _, _, variant⟩ := p
  cases variant <;> rfl

end KsEngPropsV1

namespace KsCurrProps

def xdrTypeCode : KsCurrProps → UInt32
  | .var .. => KsObjType.var
  | .domain => KsObjType.domain

def xdrEncodeVariant : KsCurrProps → Payload
  | .var value time state =>
      (handleEncode KsValue.xdrEncode value).andThen
        ((KsTime.xdrEncode time).andThen (xdreULong state))
  | .domain => .nothing

def xdrDecodeVariant : XdrDecoder KsCurrProps
  | .var value time state =>
      content (fun p => .var p.1 p.2.1 p.2.2)
        (pair (handleDecode KsValue.xdrNew) (pair KsTime.xdrDecode xdrdULong))
        (value, time, state)
  | .domain => .done (true, .domain)

def union : XdrUnion KsCurrProps where
  typeCode := xdrTypeCode
  encodeVariant := xdrEncodeVariant
  decodeVariant := xdrDecodeVariant
  blanks :=
    [.var none ⟨0, 0⟩ 0, .domain]

def xdrEncode (p : KsCurrProps) : Payload := union.encode p

def xdrDecode : XdrDecoder KsCurrProps := union.decode

def xdrNew : XdrReader (Option KsCurrProps) := union.new

/-- The handle of a variable's value is bound. -/
def Sendable : KsCurrProps → Prop
  | .var value time _ => (∃ v, value = some v ∧ v.Sendable) ∧ time.Sendable
  | .domain => True

theorem restores_variant {p old : KsCurrProps} (h : p.Sendable)
    (hclass : old.xdrTypeCode = p.xdrTypeCode) :
    Restores p.xdrEncodeVariant (xdrDecodeVariant old) fun p' => p' = p := by
  cases p <;> cases old <;>
    try simp [xdrTypeCode, KsObjType.var, KsObjType.domain] at hclass
  case var.var value time state value' time' state' =>
    obtain ⟨⟨v, rfl, hv⟩, htime⟩ := h
    obtain ⟨hok, hnew⟩ := (KsValue.restoresParts hv).new (KsValue.isSome_blank v)
    have hvalue : Restores _ _ fun c => c = some v := (restores_handle hok hnew value').mono (by
      rintro _ ⟨_, rfl, rfl⟩
      rfl)
    exact (hvalue.pair (c := (some v, time, state))
      ((KsTime.restores htime time').pair (restores_uLong state state'))).content
        fun p => var p.1 p.2.1 p.2.2
  case domain.domain => exact .nothing rfl

theorem restoresParts {p : KsCurrProps} (h : p.Sendable) : union.RestoresParts p := fun _ hclass =>
  (restores_variant h hclass).andThen fun _ hp' => .nothing hp'

theorem isSome_blank (p : KsCurrProps) : (union.blank p.xdrTypeCode).isSome = true := by
  cases p <;> rfl

end KsCurrProps

/-- A point in time or a span of time. -/
inductive KsAbsRelTime where
  | absolute (sec usec : UInt32)
  | relative (sec usec : Int32)
  deriving DecidableEq

namespace KsAbsRelTime

def xdrEncode : KsAbsRelTime → Payload
  | .absolute sec usec => (xdreULong 0).andThen ((xdreULong sec).andThen (xdreULong usec))
  | .relative sec usec => (xdreULong 1).andThen ((xdreLong sec).andThen (xdreLong usec))

/-- The type is read along with the time. -/
def xdrDecode : XdrDecoder KsAbsRelTime := fun old =>
  .long fun
    | none => .done (false, old)
    | some w =>
        if w = 0 then content (fun p => .absolute p.1 p.2) (pair xdrdULong xdrdULong) (0, 0)
        else if w = 1 then content (fun p => .relative p.1 p.2) (pair xdrdLong xdrdLong) (0, 0)
        else .done (false, old)

theorem restores (t old : KsAbsRelTime) :
    Restores t.xdrEncode (xdrDecode old) fun t' => t' = t := by
  cases t with
  | absolute sec usec =>
    obtain ⟨hok, t, htakes, ht⟩ := ((restores_uLong sec 0).pair (c := (sec, usec))
      (restores_uLong usec 0)).content fun p => absolute p.1 p.2
    refine ⟨hok, t, ?_, ht⟩
    rw [xdrEncode, Payload.bytes_andThen rfl, xdreULong_bytes]
    exact ⟨_, _, rfl, htakes⟩
  | relative sec usec =>
    obtain ⟨hok, t, htakes, ht⟩ := ((restores_long sec 0).pair (c := (sec, usec))
      (restores_long usec 0)).content fun p => relative p.1 p.2
    refine ⟨hok, t, ?_, ht⟩
    rw [xdrEncode, Payload.bytes_andThen rfl, xdreULong_bytes]
    exact ⟨_, _, rfl, htakes⟩

end KsAbsRelTime

/-- What part of a history is asked for. -/
inductive KsSelector where
  | none
  | time (ipMode : UInt32) (start stop : KsAbsRelTime) (delta : PltTimeSpan)
  | string (mask : KsString)
  deriving DecidableEq

namespace KsSelector

def xdrTypeCode : KsSelector → UInt32
  | .none => 0
  | .time .. => 1
  | .string _ => 2

def xdrEncodeVariant : KsSelector → Payload
  | .none => .nothing
  | .time ipMode start stop delta =>
      (xdreULong ipMode).andThen
        (start.xdrEncode.andThen (stop.xdrEncode.andThen (KsTimeSpan.xdrEncode delta)))
  | .string mask => KsString.xdrEncode mask

def xdrDecodeVariant : XdrDecoder KsSelector
  | .none => .done (true, .none)
  | .time ipMode start stop delta =>
      content (fun p => .time p.1 p.2.1 p.2.2.1 p.2.2.2)
        (pair xdrdULong (pair KsAbsRelTime.xdrDecode
          (pair KsAbsRelTime.xdrDecode KsTimeSpan.xdrDecode)))
        (ipMode, start, stop, delta)
  | .string mask => content .string KsString.xdrDecode mask

def union : XdrUnion KsSelector where
  typeCode := xdrTypeCode
  encodeVariant := xdrEncodeVariant
  decodeVariant := xdrDecodeVariant
  blanks :=
    [.none, .time 0x8000 (.absolute 0 0) (.absolute 0 0) ⟨0, 0⟩, .string []]

def xdrEncode (sel : KsSelector) : Payload := union.encode sel

def xdrDecode : XdrDecoder KsSelector := union.decode

def xdrNew : XdrReader (Option KsSelector) := union.new

def Sendable : KsSelector → Prop
  | .none | .time .. => True
  | .string mask => KsString.Sendable mask

theorem restores_variant {sel old : KsSelector} (h : sel.Sendable)
    (hclass : old.xdrTypeCode = sel.xdrTypeCode) :
    Restores sel.xdrEncodeVariant (xdrDecodeVariant old) fun sel' => sel' = sel := by
  cases sel <;> cases old <;> try simp [xdrTypeCode] at hclass
  case none.none => exact .nothing rfl
  case time.time ipMode start stop delta ipMode' start' stop' delta' =>
    exact ((restores_uLong ipMode ipMode').pair (c := (ipMode, start, stop, delta))
      ((KsAbsRelTime.restores start start').pair ((KsAbsRelTime.restores stop stop').pair
        (KsTimeSpan.restores delta delta')))).content fun p => time p.1 p.2.1 p.2.2.1 p.2.2.2
  case string.string mask mask' => exact (KsString.restores h mask').content _

theorem restoresParts {sel : KsSelector} (h : sel.Sendable) : union.RestoresParts sel := fun _ hclass =>
  (restores_variant h hclass).andThen fun _ hsel' => .nothing hsel'

theorem isSome_blank (sel : KsSelector) : (union.blank sel.xdrTypeCode).isSome = true := by
  cases sel <;> rfl

end KsSelector

end AcpltKs
