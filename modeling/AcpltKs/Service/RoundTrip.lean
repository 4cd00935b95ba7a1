import AcpltKs.Service.Params

/-! What the services send is read in again: into any object of the class that is there already, or
by the factory. -/
namespace AcpltKs
open ByteMemory

variable {α β : Type*}

/-- What is written to a buffer that has room for it is read from there by the decoder, up to the
last byte. -/
def Delivers (p : Payload) (r : XdrReader β) (good : β → Prop) : Prop :=
  ∀ (buffer : ℕ → UInt8) (size rest : ℕ), p.bytes.length ≤ size →
    ∃ x, p.xdrEncode (xdrmemCreate buffer size .encode) = (true, x) ∧
      ∃ b x', r.run (xdrmemCreate x.buffer (x.pos + rest) .decode) = (b, x') ∧ x'.pos = x.pos ∧
        good b

theorem delivers_of_takes {p : Payload} {r : XdrReader β} {b : β} {good : β → Prop}
    (hok : p.ok = true) (htakes : r.Takes p.bytes b) (hb : good b) : Delivers p r good := by
  intro buffer size rest hroom
  let x := (xdrmemCreate buffer size .encode).stored p.bytes
  have hpos : x.pos = p.bytes.length := Nat.zero_add _
  have hread : read x.buffer 0 p.bytes.length = p.bytes :=
    XdrMem.read_stored (xdrmemCreate buffer size .encode) p.bytes
  have hrun := htakes.run_mem (x := xdrmemCreate x.buffer (x.pos + rest) .decode)
    (by rw [hpos]; exact Nat.le_add_right _ _) hread
  refine ⟨x, ?_, b, _, hrun, ?_, hb⟩
  · have hitems := xdrEncodeItems_stored p.items (x := xdrmemCreate buffer size .encode) hroom
    rw [Payload.xdrEncode, hitems, hok]
    rfl
  · rw [hpos]
    exact Nat.zero_add _

theorem delivers_of_restores {p : Payload} {r : XdrReader (Bool × α)} {good : α → Prop}
    (h : Restores p r good) : Delivers p r fun b => b.1 = true ∧ good b.2 := by
  obtain ⟨hok, a, htakes, ha⟩ := h
  exact delivers_of_takes hok htakes ⟨rfl, ha⟩

/-- Everything that can be sent is read in place by every object of its class, and by the factory;
it comes out the same but for what is not transmitted. -/
def RoundTrips (enc : α → Payload) (dec : XdrDecoder α) (new : XdrReader (Option α))
    (sendable : α → Prop) (sameClass alike : α → α → Prop) : Prop :=
  ∀ a, sendable a →
    (∀ old, sameClass old a → Delivers (enc a) (dec old) fun p => p.1 = true ∧ alike a p.2) ∧
      Delivers (enc a) new fun b => ∃ a', b = some a' ∧ alike a a'

theorem roundTrips_of_restores {enc : α → Payload} {dec : XdrDecoder α} {blank : α}
    {sendable : α → Prop} {alike : α → α → Prop}
    (h : ∀ {a}, sendable a → ∀ old, Restores (enc a) (dec old) (alike a)) :
    RoundTrips enc dec (xdrNew blank dec) sendable (fun _ _ => True) alike := by
  intro a ha
  obtain ⟨b, htakes, hb⟩ := (h ha blank).xdrNew
  exact ⟨fun old _ => delivers_of_restores (h ha old),
    delivers_of_takes (h ha blank).1 htakes ⟨b, rfl, hb⟩⟩

/-- An object of a union is read in place by the objects of its class. -/
theorem roundTrips_of_union {u : XdrUnion α} {sendable : α → Prop}
    (h : ∀ {a}, sendable a → u.RestoresParts a)
    (hblank : ∀ a, (u.blank (u.typeCode a)).isSome = true) :
    RoundTrips u.encode u.decode u.new sendable (fun old a => u.typeCode old = u.typeCode a)
      fun a b => b = a := by
  intro a ha
  obtain ⟨hok, b, htakes, hb⟩ := (h ha).new (hblank a)
  exact ⟨fun old hclass => delivers_of_restores ((h ha).decode hclass),
    delivers_of_takes hok htakes ⟨b, rfl, hb⟩⟩

/-- The values, properties and selectors, and the parameters and results of the services. -/
theorem service_roundTrip :
    RoundTrips KsValue.xdrEncode KsValue.xdrDecode KsValue.xdrNew KsValue.Sendable
      (fun old v => old.xdrTypeCode = v.xdrTypeCode) (fun v v' => v' = v) ∧
    RoundTrips KsCurrProps.xdrEncode KsCurrProps.xdrDecode KsCurrProps.xdrNew KsCurrProps.Sendable
      (fun old p => old.xdrTypeCode = p.xdrTypeCode) (fun p p' => p' = p) ∧
    RoundTrips KsEngProps.xdrEncode KsEngProps.xdrDecode KsEngProps.xdrNew KsEngProps.Sendable
      (fun old p => old.xdrTypeCode = p.xdrTypeCode) (fun p p' => p' = p) ∧
    RoundTrips KsEngPropsV1.xdrEncode KsEngPropsV1.xdrDecode KsEngPropsV1.xdrNew
      KsEngPropsV1.Sendable (fun old p => old.xdrTypeCode = p.xdrTypeCode) (fun p p' => p' = p) ∧
    RoundTrips KsSelector.xdrEncode KsSelector.xdrDecode KsSelector.xdrNew KsSelector.Sendable
      (fun old sel => old.xdrTypeCode = sel.xdrTypeCode) (fun sel sel' => sel' = sel) ∧
    RoundTrips KsGetPPParams.xdrEncode KsGetPPParams.xdrDecode KsGetPPParams.xdrNew
      KsGetPPParams.Sendable (fun _ _ => True) (fun p p' => p' = p) ∧
    RoundTrips KsGetPPResult.xdrEncode KsGetPPResult.xdrDecode KsGetPPResult.xdrNew
      KsGetPPResult.Sendable (fun _ _ => True) KsGetPPResult.Alike ∧
    RoundTrips KsGetEPParams.xdrEncode KsGetEPParams.xdrDecode KsGetEPParams.xdrNew
      KsGetEPParams.Sendable (fun _ _ => True) (fun p p' => p' = p) ∧
    RoundTrips KsGetEPResult.xdrEncode KsGetEPResult.xdrDecode KsGetEPResult.xdrNew
      KsGetEPResult.Sendable (fun _ _ => True) KsGetEPResult.Alike ∧
    RoundTrips KsGetVarParams.xdrEncode KsGetVarParams.xdrDecode KsGetVarParams.xdrNew
      KsGetVarParams.Sendable (fun _ _ => True) (fun p p' => p' = p) ∧
    RoundTrips KsGetVarResult.xdrEncode KsGetVarResult.xdrDecode KsGetVarResult.xdrNew
      KsGetVarResult.Sendable (fun _ _ => True) KsGetVarResult.Alike ∧
    (∀ r : KsGetVarItemResult, r.Sendable → ∀ old, Delivers r.xdrEncode
      (KsGetVarItemResult.xdrDecode old) fun p => p.1 = true ∧ r.Alike p.2) ∧
    RoundTrips KsSetVarItem.xdrEncode KsSetVarItem.xdrDecode KsSetVarItem.xdrNew
      KsSetVarItem.Sendable (fun _ _ => True) (fun item item' => item' = item) ∧
    RoundTrips KsSetVarParams.xdrEncode KsSetVarParams.xdrDecode KsSetVarParams.xdrNew
      KsSetVarParams.Sendable (fun _ _ => True) (fun p p' => p' = p) ∧
    RoundTrips KsSetVarResult.xdrEncode KsSetVarResult.xdrDecode KsSetVarResult.xdrNew
      KsSetVarResult.Sendable (fun _ _ => True) KsSetVarResult.Alike ∧
    RoundTrips KsExgDataParams.xdrEncode KsExgDataParams.xdrDecode KsExgDataParams.xdrNew
      KsExgDataParams.Sendable (fun _ _ => True) (fun p p' => p' = p) ∧
    RoundTrips KsExgDataResult.xdrEncode KsExgDataResult.xdrDecode KsExgDataResult.xdrNew
      KsExgDataResult.Sendable (fun _ _ => True) KsExgDataResult.Alike :=
  ⟨roundTrips_of_union KsValue.restoresParts KsValue.isSome_blank,
    roundTrips_of_union KsCurrProps.restoresParts KsCurrProps.isSome_blank,
    roundTrips_of_union KsEngProps.restoresParts KsEngProps.isSome_blank,
    roundTrips_of_union KsEngPropsV1.restoresParts KsEngPropsV1.isSome_blank,
    roundTrips_of_union KsSelector.restoresParts KsSelector.isSome_blank,
    roundTrips_of_restores KsGetPPParams.restores, roundTrips_of_restores KsGetPPResult.restores,
    roundTrips_of_restores KsGetEPParams.restores, roundTrips_of_restores KsGetEPResult.restores,
    roundTrips_of_restores KsGetVarParams.restores, roundTrips_of_restores KsGetVarResult.restores,
    fun _ h old => delivers_of_restores (KsGetVarItemResult.restores h old),
    roundTrips_of_restores KsSetVarItem.restores, roundTrips_of_restores KsSetVarParams.restores,
    roundTrips_of_restores KsSetVarResult.restores,
    roundTrips_of_restores KsExgDataParams.restores,
    roundTrips_of_restores KsExgDataResult.restores⟩

/-- A vector of two strings, the first of which needs filling up. -/
theorem service_roundTrip_strings :
    Delivers (KsValue.stringVec [[65], []]).xdrEncode KsValue.xdrNew
      fun b => ∃ v, b = some v ∧ v = .stringVec [[65], []] :=
  (service_roundTrip.1 (.stringVec [[65], []]) ⟨by decide, by simp [KsString.Sendable]⟩).2

/-- The current properties of a variable whose value is not bound are not sent. -/
theorem not_delivers_unbound :
    ¬ ∃ x, (KsCurrProps.var none ⟨0, 0⟩ 0).xdrEncode.xdrEncode
      (xdrmemCreate (fun _ => 0) 64 .encode) = (true, x) := by
  rintro ⟨x, h⟩
  have hfalse : ((KsCurrProps.var none ⟨0, 0⟩ 0).xdrEncode.xdrEncode
      (xdrmemCreate (fun _ => 0) 64 .encode)).1 = false := by decide
  rw [h] at hfalse
  exact Bool.noConfusion (show true = false from hfalse)

end AcpltKs
