import AcpltKs.Props
import AcpltKs.XdrCodec

/-! The wire format of strings, times, result codes and values. -/
namespace AcpltKs

/-- The lists that are read in element by element, each as it was sent. -/
theorem eq_of_forall₂ {α : Type*} {l l' : List α} (h : List.Forall₂ (fun a b => b = a) l l') :
    l' = l := by
  induction h with
  | nil => rfl
  | cons hab _ ih => rw [hab, ih]

namespace KsString

def xdrEncode (s : KsString) : Payload :=
  (xdreULong (UInt32.ofNat s.length)).andThen (xdreOpaque s)

def xdrDecode : XdrDecoder KsString := fun old =>
  .long fun
    | none => .done (false, old)
    | some sz => xdrdOpaque sz.toNat fun
        | none => .done (false, old)
        | some n => .done (true, n)

/-- The length goes over the wire as a word. -/
def Sendable (s : KsString) : Prop := s.length < 2 ^ 32

theorem restores {s : KsString} (h : Sendable s) (old : KsString) :
    Restores (xdrEncode s) (xdrDecode old) fun s' => s' = s := by
  refine ⟨rfl, s, ?_, rfl⟩
  rw [xdrEncode, Payload.bytes_andThen rfl, xdreULong_bytes]
  refine ⟨_, _, rfl, ?_⟩
  simp only [toNat_length h]
  have htakes : (xdrdOpaque s.length fun
    | none => .done (false, old)
    | some n => .done (true, n)).Takes ((xdreOpaque s).bytes ++ []) (true, s) :=
    takes_opaque ⟨rfl, rfl⟩
  rwa [List.append_nil] at htakes

end KsString

/-- The microseconds are brought into the range of a second. -/
def PltTime.normalize (t : PltTime) : PltTime :=
  ⟨Int32.ofInt (t.sec.toInt + t.usec.toInt / 1000000), Int32.ofInt (t.usec.toInt % 1000000)⟩

/-- A normalised time that is not negative. -/
def PltTime.Sendable (t : PltTime) : Prop := 0 ≤ t.sec ∧ 0 ≤ t.usec ∧ t.usec < 1000000

theorem PltTime.normalize_eq {t : PltTime} (h : t.Sendable) : t.normalize = t := by
  obtain ⟨-, hlow, hhigh⟩ := h
  have hlow' : 0 ≤ t.usec.toInt := Int32.le_iff_toInt_le.mp hlow
  have hhigh' : t.usec.toInt < 1000000 := Int32.lt_iff_toInt_lt.mp hhigh
  have hdiv : t.usec.toInt / 1000000 = 0 := Int.ediv_eq_zero_of_lt hlow' hhigh'
  have hmod : t.usec.toInt % 1000000 = t.usec.toInt := Int.emod_eq_of_lt hlow' hhigh'
  simp [normalize, hdiv, hmod]

namespace KsTime

def xdrEncode (t : PltTime) : Payload :=
  (xdreULong t.sec.toUInt32).andThen (xdreULong t.usec.toUInt32)

def xdrDecode : XdrDecoder PltTime := fun old =>
  .long fun
    | none => .done (false, old)
    | some sec => .long fun
        | none => .done (false, old)
        | some usec => .done (true, PltTime.normalize ⟨sec.toInt32, usec.toInt32⟩)

theorem restores {t : PltTime} (h : t.Sendable) (old : PltTime) :
    Restores (xdrEncode t) (xdrDecode old) fun t' => t' = t :=
  ⟨rfl, t, ⟨t.sec.toUInt32, _, rfl, t.usec.toUInt32, [], rfl, rfl, by
    simp [PltTime.normalize_eq h]⟩, rfl⟩

end KsTime

namespace KsTimeSpan

def xdrEncode (ts : PltTimeSpan) : Payload := (xdreLong ts.sec).andThen (xdreLong ts.usec)

def xdrDecode : XdrDecoder PltTimeSpan :=
  (XdrDecoder.field (·.sec) (fun sec ts => { ts with sec }) xdrdLong).andThen
    (.field (·.usec) (fun usec ts => { ts with usec }) xdrdLong)

theorem restores (ts old : PltTimeSpan) :
    Restores (xdrEncode ts) (xdrDecode old) fun ts' => ts' = ts := by
  refine (restores_long ts.sec _).field.andThen fun _ => ?_
  rintro ⟨_, rfl, rfl⟩
  refine (restores_long ts.usec _).field.mono ?_
  rintro _ ⟨_, rfl, rfl⟩
  rfl

end KsTimeSpan

namespace KsResult

def xdrEncode (result : KsResultCode) : Payload := xdreULong result

def xdrDecode : XdrDecoder KsResultCode := xdrdULong

end KsResult

/-- An array of bytes goes over the wire as opaque data. -/
def byteArrayEncode (bs : List UInt8) : Payload := KsString.xdrEncode bs

def byteArrayDecode : XdrDecoder (List UInt8) := fun old =>
  .long fun
    | none => .done (false, old)
    | some sz => xdrdOpaque sz.toNat fun
        | none => .done (false, if old.length ≠ sz.toNat then List.replicate sz.toNat 0 else old)
        | some bs => .done (true, bs)

theorem restores_byteArray {bs : List UInt8} (h : bs.length < 2 ^ 32) (old : List UInt8) :
    Restores (byteArrayEncode bs) (byteArrayDecode old) fun bs' => bs' = bs := by
  refine ⟨rfl, bs, ?_, rfl⟩
  rw [byteArrayEncode, KsString.xdrEncode, Payload.bytes_andThen rfl, xdreULong_bytes]
  refine ⟨_, _, rfl, ?_⟩
  simp only [toNat_length h]
  have htakes : (xdrdOpaque bs.length fun
    | none => .done (false, if old.length ≠ bs.length then List.replicate bs.length 0 else old)
    | some bs => .done (true, bs)).Takes ((xdreOpaque bs).bytes ++ []) (true, bs) :=
    takes_opaque ⟨rfl, rfl⟩
  rwa [List.append_nil] at htakes

namespace KsValue
open XdrDecoder (content)

def xdrTypeCode : KsValue → UInt32
  | .bool _ => 0x02
  | .int _ => 0x10
  | .uint _ => 0x11
  | .single _ => 0x20
  | .double _ => 0x21
  | .string _ => 0x30
  | .time _ => 0x31
  | .timeSpan _ => 0x32
  | .state _ => 0x38
  | .void => 0x00
  | .byteVec _ => 0x81
  | .boolVec _ => 0x82
  | .intVec _ => 0x90
  | .uintVec _ => 0x91
  | .singleVec _ => 0xA0
  | .doubleVec _ => 0xA1
  | .stringVec _ => 0xB0
  | .timeVec _ => 0xB1
  | .timeSpanVec _ => 0xB2
  | .stateVec _ => 0xB8

def xdrEncodeVariant : KsValue → Payload
  | .bool val => xdreBool val
  | .int val => xdreLong val
  | .uint val | .single val | .state val => xdreULong val
  | .double bits => xdreDouble bits
  | .string val => KsString.xdrEncode val
  | .time val => KsTime.xdrEncode val
  | .timeSpan val => KsTimeSpan.xdrEncode val
  | .void => .nothing
  | .byteVec vals => byteArrayEncode vals
  | .boolVec vals => arrayEncode xdreBool vals
  | .intVec vals => arrayEncode xdreLong vals
  | .uintVec vals | .singleVec vals | .stateVec vals => arrayEncode xdreULong vals
  | .doubleVec vals => arrayEncode xdreDouble vals
  | .stringVec vals => arrayEncode KsString.xdrEncode vals
  | .timeVec vals => arrayEncode KsTime.xdrEncode vals
  | .timeSpanVec vals => arrayEncode KsTimeSpan.xdrEncode vals

def xdrDecodeVariant : XdrDecoder KsValue
  | .bool val => content .bool xdrdBool val
  | .int val => content .int xdrdLong val
  | .uint val => content .uint xdrdULong val
  | .single bits => content .single xdrdULong bits
  | .double bits => content .double xdrdDouble bits
  | .string val => content .string KsString.xdrDecode val
  | .time val => content .time KsTime.xdrDecode val
  | .timeSpan val => content .timeSpan KsTimeSpan.xdrDecode val
  | .state val => content .state xdrdULong val
  | .void => .done (true, .void)
  | .byteVec vals => content .byteVec byteArrayDecode vals
  | .boolVec vals => content .boolVec (arrayDecode false xdrdBool) vals
  | .intVec vals => content .intVec (arrayDecode 0 xdrdLong) vals
  | .uintVec vals => content .uintVec (arrayDecode 0 xdrdULong) vals
  | .singleVec vals => content .singleVec (arrayDecode 0 xdrdULong) vals
  | .doubleVec vals => content .doubleVec (arrayDecode 0 xdrdDouble) vals
  | .stringVec vals => content .stringVec (arrayDecode [] KsString.xdrDecode) vals
  | .timeVec vals => content .timeVec (arrayDecode ⟨0, 0⟩ KsTime.xdrDecode) vals
  | .timeSpanVec vals => content .timeSpanVec (arrayDecode ⟨0, 0⟩ KsTimeSpan.xdrDecode) vals
  | .stateVec vals => content .stateVec (arrayDecode 0 xdrdULong) vals

def union : XdrUnion KsValue where
  typeCode := xdrTypeCode
  encodeVariant := xdrEncodeVariant
  decodeVariant := xdrDecodeVariant
  blanks :=
    [.bool false, .int 0, .uint 0, .single 0, .double 0, .string [], .time ⟨0, 0⟩, .timeSpan ⟨0, 0⟩,
      .state 0, .void, .byteVec [], .boolVec [], .intVec [], .uintVec [], .singleVec [],
      .doubleVec [], .stringVec [], .timeVec [], .timeSpanVec [], .stateVec []]

def xdrEncode (v : KsValue) : Payload := union.encode v

def xdrDecode : XdrDecoder KsValue := union.decode

def xdrNew : XdrReader (Option KsValue) := union.new

/-- Times are normal, and lengths fit into a word. -/
def Sendable : KsValue → Prop
  | .string val => KsString.Sendable val
  | .time val => val.Sendable
  | .byteVec vals => vals.length < 2 ^ 32
  | .boolVec vals => vals.length < 2 ^ 32
  | .intVec vals => vals.length < 2 ^ 32
  | .uintVec vals | .singleVec vals | .stateVec vals => vals.length < 2 ^ 32
  | .doubleVec vals => vals.length < 2 ^ 32
  | .stringVec vals => vals.length < 2 ^ 32 ∧ ∀ s ∈ vals, KsString.Sendable s
  | .timeVec vals => vals.length < 2 ^ 32 ∧ ∀ t ∈ vals, t.Sendable
  | .timeSpanVec vals => vals.length < 2 ^ 32
  | .bool _ | .int _ | .uint _ | .single _ | .double _ | .timeSpan _ | .state _ | .void => True

theorem restores_vector {α : Type*} {wrap : List α → KsValue} {enc : α → Payload}
    {dec : XdrDecoder α} {l : List α} (hlen : l.length < 2 ^ 32)
    (h : ∀ a ∈ l, ∀ b, Restores (enc a) (dec b) fun c => c = a) (new : α) (old : List α) :
    Restores (arrayEncode enc l) (content wrap (arrayDecode new dec) old)
      fun v => v = wrap l :=
  Restores.content ((restores_array hlen h new old).mono fun _ => eq_of_forall₂) wrap

/-- The variant of a value is read into any value of its class. -/
theorem restores_variant {v old : KsValue} (h : v.Sendable)
    (hclass : old.xdrTypeCode = v.xdrTypeCode) :
    Restores v.xdrEncodeVariant (xdrDecodeVariant old) fun v' => v' = v := by
  cases v <;> cases old <;> try simp [xdrTypeCode] at hclass
  case bool.bool val val' => exact (restores_bool val val').content _
  case int.int val val' => exact (restores_long val val').content _
  case uint.uint val val' => exact (restores_uLong val val').content _
  case single.single val val' => exact (restores_uLong val val').content _
  case double.double val val' => exact (restores_double val val').content _
  case string.string val val' => exact (KsString.restores h val').content _
  case time.time val val' => exact (KsTime.restores h val').content _
  case timeSpan.timeSpan val val' => exact (KsTimeSpan.restores val val').content _
  case state.state val val' => exact (restores_uLong val val').content _
  case void.void => exact .nothing rfl
  case byteVec.byteVec vals vals' => exact (restores_byteArray h vals').content _
  case boolVec.boolVec vals vals' => exact restores_vector h (fun a _ b => restores_bool a b) _ vals'
  case intVec.intVec vals vals' => exact restores_vector h (fun a _ b => restores_long a b) _ vals'
  case uintVec.uintVec vals vals' =>
    exact restores_vector h (fun a _ b => restores_uLong a b) _ vals'
  case singleVec.singleVec vals vals' =>
    exact restores_vector h (fun a _ b => restores_uLong a b) _ vals'
  case doubleVec.doubleVec vals vals' =>
    exact restores_vector h (fun a _ b => restores_double a b) _ vals'
  case stringVec.stringVec vals vals' =>
    exact restores_vector h.1 (fun a ha b => KsString.restores (h.2 a ha) b) _ vals'
  case timeVec.timeVec vals vals' =>
    exact restores_vector h.1 (fun a ha b => KsTime.restores (h.2 a ha) b) _ vals'
  case timeSpanVec.timeSpanVec vals vals' =>
    exact restores_vector h (fun a _ b => KsTimeSpan.restores a b) _ vals'
  case stateVec.stateVec vals vals' =>
    exact restores_vector h (fun a _ b => restores_uLong a b) _ vals'

theorem restoresParts {v : KsValue} (h : v.Sendable) : union.RestoresParts v := fun _ hclass =>
  (restores_variant h hclass).andThen fun _ hv' => .nothing hv'

theorem isSome_blank (v : KsValue) : (union.blank v.xdrTypeCode).isSome = true := by
  cases v <;> rfl

end KsValue

end AcpltKs
