import AcpltKs.Service.Params
import AcpltKs.XdrStreams

/-! The decoders of the services read words at multiples of four bytes only, so memory streams feed
them as any other streams do. -/
namespace AcpltKs
open XdrDecoder

theorem KsString.aligned : xdrDecode.Aligned := by
  refine fun old => ⟨dvd_zero 4, fun sz => XdrReader.AlignedAt.of_dvd ?_ (dvd_refl 4)⟩
  exact XdrReader.alignedAt_opaque (fun bs => XdrReader.alignedAt_done (true, bs)) sz.toNat

theorem KsTime.aligned : xdrDecode.Aligned :=
  fun _ => ⟨dvd_zero 4, fun _ => ⟨dvd_refl 4, fun _ => dvd_add (dvd_refl 4) (dvd_refl 4)⟩⟩

theorem KsTimeSpan.aligned : xdrDecode.Aligned :=
  (aligned_long.field _ _).andThen (aligned_long.field _ _)

theorem aligned_byteArray : byteArrayDecode.Aligned := by
  refine fun old => ⟨dvd_zero 4, fun sz => XdrReader.AlignedAt.of_dvd ?_ (dvd_refl 4)⟩
  exact XdrReader.alignedAt_opaque (fun bs => XdrReader.alignedAt_done (true, bs)) sz.toNat

theorem KsValue.aligned_variant : xdrDecodeVariant.Aligned := by
  intro v
  cases v with
  | bool val => exact aligned_bool.content _ _
  | int val => exact aligned_long.content _ _
  | uint val | single val | state val => exact aligned_uLong.content _ _
  | double bits => exact aligned_double.content _ _
  | string val => exact KsString.aligned.content _ _
  | time val => exact KsTime.aligned.content _ _
  | timeSpan val => exact KsTimeSpan.aligned.content _ _
  | void => exact XdrReader.alignedAt_done _
  | byteVec vals => exact aligned_byteArray.content _ _
  | boolVec vals => exact (aligned_array aligned_bool _).content _ _
  | intVec vals => exact (aligned_array aligned_long _).content _ _
  | uintVec vals | singleVec vals | stateVec vals =>
    exact (aligned_array aligned_uLong _).content _ _
  | doubleVec vals => exact (aligned_array aligned_double _).content _ _
  | stringVec vals => exact (aligned_array KsString.aligned _).content _ _
  | timeVec vals => exact (aligned_array KsTime.aligned _).content _ _
  | timeSpanVec vals => exact (aligned_array KsTimeSpan.aligned _).content _ _

theorem KsValue.aligned_new : KsValue.xdrNew.AlignedAt 0 :=
  aligned_unionNew (aligned_variant.andThen aligned_nothing)

theorem KsCurrProps.aligned_variant : xdrDecodeVariant.Aligned := by
  intro p
  cases p with
  | var value time state =>
    rw [xdrDecodeVariant]
    exact ((aligned_handle KsValue.aligned_new).pair (KsTime.aligned.pair aligned_uLong)).content _ _
  | domain => exact XdrReader.alignedAt_done _

theorem KsCurrProps.aligned_new : KsCurrProps.xdrNew.AlignedAt 0 :=
  aligned_unionNew (aligned_variant.andThen aligned_nothing)

theorem KsEngPropsVariant.aligned : xdrDecode.Aligned := by
  intro v
  cases v <;> rw [xdrDecode]
  case var techUnit type => exact (KsString.aligned.pair aligned_uLong).content _ _
  case domain classIdentifier => exact KsString.aligned.content _ _
  case link type oppositeRole association =>
    exact (aligned_uLong.pair (KsString.aligned.pair KsString.aligned)).content _ _
  case history type default supported typeIdentifier =>
    exact (aligned_uLong.pair (aligned_uLong.pair (aligned_uLong.pair KsString.aligned))).content _ _
  case struct flags => exact aligned_uLong.content _ _

theorem KsEngProps.aligned_variant : xdrDecodeVariant.Aligned := KsEngPropsVariant.aligned.field _ _

theorem KsEngProps.aligned_common : xdrDecodeCommon.Aligned := by
  unfold xdrDecodeCommon
  exact (KsString.aligned.field _ _).andThen <| (KsTime.aligned.field _ _).andThen <|
    (KsString.aligned.field _ _).andThen <| (aligned_uLong.field _ _).andThen
      (aligned_uLong.field _ _)

theorem KsEngProps.aligned_new : KsEngProps.xdrNew.AlignedAt 0 :=
  aligned_unionNew (aligned_variant.andThen aligned_common)

theorem KsEngPropsV1Variant.aligned : xdrDecode.Aligned := by
  intro v
  cases v <;> rw [xdrDecode]
  case var techUnit type => exact (KsString.aligned.pair aligned_uLong).content _ _
  case domain => exact XdrReader.alignedAt_done _
  case link type oppositeRole classIdentifier =>
    exact (aligned_uLong.pair (KsString.aligned.pair KsString.aligned)).content _ _
  case history type default supported typeIdentifier =>
    exact (aligned_uLong.pair (aligned_uLong.pair (aligned_uLong.pair KsString.aligned))).content _ _

theorem KsEngPropsV1.aligned_variant : xdrDecodeVariant.Aligned :=
  KsEngPropsV1Variant.aligned.field _ _

theorem KsEngPropsV1.aligned_common : xdrDecodeCommon.Aligned := by
  unfold xdrDecodeCommon
  exact (KsString.aligned.field _ _).andThen <| (KsTime.aligned.field _ _).andThen <|
    (KsString.aligned.field _ _).andThen (aligned_uLong.field _ _)

theorem KsEngPropsV1.aligned_new : KsEngPropsV1.xdrNew.AlignedAt 0 :=
  aligned_unionNew (aligned_variant.andThen aligned_common)

theorem XdrDecoder.Aligned.behindOk {α : Type*} {d : XdrDecoder α} (hd : d.Aligned)
    (result : α → KsResultCode) : (behindOk result d).Aligned := by
  intro a
  unfold XdrDecoder.behindOk
  split_ifs
  · exact hd a
  · exact XdrReader.alignedAt_done _

theorem KsSetVarItem.aligned : xdrDecode.Aligned :=
  (KsString.aligned.field _ _).andThen ((aligned_handle KsCurrProps.aligned_new).field _ _)

theorem KsGetVarItemResult.aligned : xdrDecode.Aligned :=
  (aligned_uLong.field _ _).andThen
    (((aligned_handle KsCurrProps.aligned_new).field _ _).behindOk _)

theorem KsGetPPParams.aligned : xdrDecode.Aligned :=
  (KsString.aligned.field _ _).andThen <| (aligned_uLong.field _ _).andThen
    (KsString.aligned.field _ _)

theorem KsGetPPResult.aligned : xdrDecode.Aligned :=
  (aligned_uLong.field _ _).andThen (((aligned_list KsEngPropsV1.aligned_new).field _ _).behindOk _)

theorem KsGetEPParams.aligned : xdrDecode.Aligned :=
  (KsString.aligned.field _ _).andThen <| (aligned_uLong.field _ _).andThen <|
    (KsString.aligned.field _ _).andThen (aligned_uLong.field _ _)

theorem KsGetEPResult.aligned : xdrDecode.Aligned :=
  (aligned_uLong.field _ _).andThen (((aligned_list KsEngProps.aligned_new).field _ _).behindOk _)

theorem KsGetVarParams.aligned : xdrDecode.Aligned := (aligned_array KsString.aligned _).field _ _

theorem KsGetVarResult.aligned : xdrDecode.Aligned :=
  (aligned_uLong.field _ _).andThen
    (((aligned_array KsGetVarItemResult.aligned _).field _ _).behindOk _)

theorem KsSetVarParams.aligned : xdrDecode.Aligned :=
  (aligned_array KsSetVarItem.aligned _).field _ _

theorem KsSetVarResult.aligned : xdrDecode.Aligned :=
  (aligned_uLong.field _ _).andThen (((aligned_array aligned_uLong _).field _ _).behindOk _)

theorem KsExgDataParams.aligned : xdrDecode.Aligned :=
  ((aligned_array KsSetVarItem.aligned _).field _ _).andThen
    ((aligned_array KsString.aligned _).field _ _)

theorem KsExgDataResult.aligned : xdrDecode.Aligned :=
  (aligned_uLong.field _ _).andThen <| Aligned.behindOk
    (((aligned_array aligned_uLong _).field _ _).andThen
      ((aligned_array KsGetVarItemResult.aligned _).field _ _)) _

end AcpltKs
