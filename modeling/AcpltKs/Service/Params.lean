import AcpltKs.Service.Props
import AcpltKs.SimpleServer.Basic

/-! The wire format of the parameters and results of the services. -/
namespace AcpltKs

/-- A result that has not been set. -/
def KsResult.blank : KsResultCode := 0xFFFFFFFF

/-- What follows behind a result is read if the service has succeeded. -/
def XdrDecoder.behindOk {α : Type*} (result : α → KsResultCode) (d : XdrDecoder α) : XdrDecoder α :=
  fun a => if result a = .ok then d a else .done (true, a)

/-- What follows behind a result is sent if the service has succeeded. -/
def Payload.behindOk (result : KsResultCode) (p : Payload) : Payload :=
  if result = .ok then p else .nothing

theorem Restores.behindOk {α : Type*} {p : Payload} {d : XdrDecoder α} {result : α → KsResultCode}
    {a : α} {code : KsResultCode} {good : α → Prop} (hcode : result a = code)
    (hok : code = .ok → Restores p (d a) good) (hfailed : code ≠ .ok → good a) :
    Restores (p.behindOk code) (XdrDecoder.behindOk result d a) good := by
  subst hcode
  by_cases h : result a = .ok
  · simpa only [Payload.behindOk, XdrDecoder.behindOk, h, if_true] using hok h
  · simp only [Payload.behindOk, XdrDecoder.behindOk, h, if_false]
    exact .nothing (hfailed h)

structure KsGetPPParams where
  path : KsString
  typeMask : KsObjType
  nameMask : KsString
  deriving DecidableEq

namespace KsGetPPParams

def xdrEncode (p : KsGetPPParams) : Payload :=
  (KsString.xdrEncode p.path).andThen
    ((xdreULong p.typeMask).andThen (KsString.xdrEncode p.nameMask))

def xdrDecode : XdrDecoder KsGetPPParams :=
  (XdrDecoder.field (·.path) (fun path p => { p with path }) KsString.xdrDecode).andThen <|
    (XdrDecoder.field (·.typeMask) (fun typeMask p => { p with typeMask }) xdrdULong).andThen <|
    .field (·.nameMask) (fun nameMask p => { p with nameMask }) KsString.xdrDecode

def xdrNew : XdrReader (Option KsGetPPParams) := AcpltKs.xdrNew ⟨[], 0, []⟩ xdrDecode

def Sendable (p : KsGetPPParams) : Prop := KsString.Sendable p.path ∧ KsString.Sendable p.nameMask

theorem restores {p : KsGetPPParams} (h : p.Sendable) (old : KsGetPPParams) :
    Restores p.xdrEncode (xdrDecode old) fun p' => p' = p := by
  refine (KsString.restores h.1 _).field.andThen fun _ => ?_
  rintro ⟨_, rfl, rfl⟩
  refine (restores_uLong p.typeMask _).field.andThen fun _ => ?_
  rintro ⟨_, rfl, rfl⟩
  refine (KsString.restores h.2 _).field.mono ?_
  rintro _ ⟨_, rfl, rfl⟩
  rfl

end KsGetPPParams

structure KsGetPPResult where
  result : KsResultCode
  items : List KsEngPropsV1
  deriving DecidableEq

namespace KsGetPPResult

def xdrEncode (r : KsGetPPResult) : Payload :=
  (KsResult.xdrEncode r.result).andThen
    (.behindOk r.result (arrayEncode KsEngPropsV1.xdrEncode r.items))

def xdrDecode : XdrDecoder KsGetPPResult :=
  (XdrDecoder.field (·.result) (fun result r => { r with result }) KsResult.xdrDecode).andThen <|
    .behindOk (·.result) <|
      .field (·.items) (fun items r => { r with items }) (listDecode KsEngPropsV1.xdrNew)

def xdrNew : XdrReader (Option KsGetPPResult) := AcpltKs.xdrNew ⟨KsResult.blank, []⟩ xdrDecode

def Sendable (r : KsGetPPResult) : Prop :=
  r.result = .ok → r.items.length < 2 ^ 32 ∧ ∀ p ∈ r.items, p.Sendable

/-- The same but for what is not transmitted. -/
def Alike (r r' : KsGetPPResult) : Prop :=
  r'.result = r.result ∧ (r.result = .ok → r'.items = r.items)

theorem restores {r : KsGetPPResult} (h : r.Sendable) (old : KsGetPPResult) :
    Restores r.xdrEncode (xdrDecode old) r.Alike := by
  refine (restores_uLong r.result _).field.andThen fun _ => ?_
  rintro ⟨_, rfl, rfl⟩
  refine .behindOk rfl (fun hok => ?_) fun hfailed => ⟨rfl, fun hok => absurd hok hfailed⟩
  obtain ⟨hlength, hitems⟩ := h hok
  refine (restores_list hlength (fun p hp => (KsEngPropsV1.restoresParts (hitems p hp)).new
    (KsEngPropsV1.isSome_blank p)) _).field.mono ?_
  rintro _ ⟨_, hitems', rfl⟩
  exact ⟨rfl, fun _ => eq_of_forall₂ hitems'⟩

end KsGetPPResult

namespace KsGetEPParams

def xdrEncode (p : KsGetEPParams) : Payload :=
  (KsString.xdrEncode p.path).andThen ((xdreULong p.typeMask).andThen
    ((KsString.xdrEncode p.nameMask).andThen (xdreULong p.scopeFlags)))

def xdrDecode : XdrDecoder KsGetEPParams :=
  (XdrDecoder.field (·.path) (fun path p => { p with path }) KsString.xdrDecode).andThen <|
    (XdrDecoder.field (·.typeMask) (fun typeMask p => { p with typeMask }) xdrdULong).andThen <|
    (XdrDecoder.field (·.nameMask) (fun nameMask p => { p with nameMask })
      KsString.xdrDecode).andThen <|
    .field (·.scopeFlags) (fun scopeFlags p => { p with scopeFlags }) xdrdULong

def xdrNew : XdrReader (Option KsGetEPParams) := AcpltKs.xdrNew ⟨[], 0, [], 0⟩ xdrDecode

def Sendable (p : KsGetEPParams) : Prop := KsString.Sendable p.path ∧ KsString.Sendable p.nameMask

theorem restores {p : KsGetEPParams} (h : p.Sendable) (old : KsGetEPParams) :
    Restores p.xdrEncode (xdrDecode old) fun p' => p' = p := by
  refine (KsString.restores h.1 _).field.andThen fun _ => ?_
  rintro ⟨_, rfl, rfl⟩
  refine (restores_uLong p.typeMask _).field.andThen fun _ => ?_
  rintro ⟨_, rfl, rfl⟩
  refine (KsString.restores h.2 _).field.andThen fun _ => ?_
  rintro ⟨_, rfl, rfl⟩
  refine (restores_uLong p.scopeFlags _).field.mono ?_
  rintro _ ⟨_, rfl, rfl⟩
  rfl

end KsGetEPParams

namespace KsGetEPResult

def xdrEncode (r : KsGetEPResult) : Payload :=
  (KsResult.xdrEncode r.result).andThen
    (.behindOk r.result (arrayEncode KsEngProps.xdrEncode r.items))

def xdrDecode : XdrDecoder KsGetEPResult :=
  (XdrDecoder.field (·.result) (fun result r => { r with result }) KsResult.xdrDecode).andThen <|
    .behindOk (·.result) <|
      .field (·.items) (fun items r => { r with items }) (listDecode KsEngProps.xdrNew)

def xdrNew : XdrReader (Option KsGetEPResult) := AcpltKs.xdrNew ⟨KsResult.blank, []⟩ xdrDecode

def Sendable (r : KsGetEPResult) : Prop :=
  r.result = .ok → r.items.length < 2 ^ 32 ∧ ∀ p ∈ r.items, p.Sendable

def Alike (r r' : KsGetEPResult) : Prop :=
  r'.result = r.result ∧ (r.result = .ok → r'.items = r.items)

theorem restores {r : KsGetEPResult} (h : r.Sendable) (old : KsGetEPResult) :
    Restores r.xdrEncode (xdrDecode old) r.Alike := by
  refine (restores_uLong r.result _).field.andThen fun _ => ?_
  rintro ⟨_, rfl, rfl⟩
  refine .behindOk rfl (fun hok => ?_) fun hfailed => ⟨rfl, fun hok => absurd hok hfailed⟩
  obtain ⟨hlength, hitems⟩ := h hok
  refine (restores_list hlength (fun p hp => (KsEngProps.restoresParts (hitems p hp)).new
    (KsEngProps.isSome_blank p)) _).field.mono ?_
  rintro _ ⟨_, hitems', rfl⟩
  exact ⟨rfl, fun _ => eq_of_forall₂ hitems'⟩

end KsGetEPResult

/-- An array of strings. -/
theorem restores_strings {l : List KsString} (hlength : l.length < 2 ^ 32)
    (h : ∀ s ∈ l, KsString.Sendable s) (old : List KsString) :
    Restores (arrayEncode KsString.xdrEncode l) (arrayDecode [] KsString.xdrDecode old)
      fun l' => l' = l :=
  (restores_array hlength (fun s hs => KsString.restores (h s hs)) [] old).mono
    fun _ => eq_of_forall₂

structure KsGetVarParams where
  identifiers : List KsString
  deriving DecidableEq

namespace KsGetVarParams

def xdrEncode (p : KsGetVarParams) : Payload := arrayEncode KsString.xdrEncode p.identifiers

def xdrDecode : XdrDecoder KsGetVarParams :=
  .field (·.identifiers) (fun identifiers p => { p with identifiers })
    (arrayDecode [] KsString.xdrDecode)

def xdrNew : XdrReader (Option KsGetVarParams) := AcpltKs.xdrNew ⟨[]⟩ xdrDecode

def Sendable (p : KsGetVarParams) : Prop :=
  p.identifiers.length < 2 ^ 32 ∧ ∀ s ∈ p.identifiers, KsString.Sendable s

theorem restores {p : KsGetVarParams} (h : p.Sendable) (old : KsGetVarParams) :
    Restores p.xdrEncode (xdrDecode old) fun p' => p' = p := by
  refine (restores_strings h.1 h.2 _).field.mono ?_
  rintro _ ⟨_, rfl, rfl⟩
  rfl

end KsGetVarParams

namespace KsGetVarItemResult

def xdrEncode (r : KsGetVarItemResult) : Payload :=
  (KsResult.xdrEncode r.result).andThen
    (.behindOk r.result (handleEncode KsCurrProps.xdrEncode r.item))

def xdrDecode : XdrDecoder KsGetVarItemResult :=
  (XdrDecoder.field (·.result) (fun result r => { r with result }) KsResult.xdrDecode).andThen <|
    .behindOk (·.result) <|
      .field (·.item) (fun item r => { r with item }) (handleDecode KsCurrProps.xdrNew)

def blank : KsGetVarItemResult := ⟨KsResult.blank, none⟩

/-- There is an item if the service has succeeded. -/
def Sendable (r : KsGetVarItemResult) : Prop :=
  r.result = .ok → ∃ p, r.item = some p ∧ p.Sendable

def Alike (r r' : KsGetVarItemResult) : Prop :=
  r'.result = r.result ∧ (r.result = .ok → r'.item = r.item)

theorem restores {r : KsGetVarItemResult} (h : r.Sendable) (old : KsGetVarItemResult) :
    Restores r.xdrEncode (xdrDecode old) r.Alike := by
  refine (restores_uLong r.result _).field.andThen fun _ => ?_
  rintro ⟨_, rfl, rfl⟩
  refine .behindOk rfl (fun hok => ?_) fun hfailed => ⟨rfl, fun hok => absurd hok hfailed⟩
  obtain ⟨p, hitem, hp⟩ := h hok
  obtain ⟨hsent, hnew⟩ := (KsCurrProps.restoresParts hp).new (KsCurrProps.isSome_blank p)
  rw [hitem]
  refine (restores_handle hsent hnew _).field.mono ?_
  rintro _ ⟨_, ⟨_, rfl, rfl⟩, rfl⟩
  exact ⟨rfl, fun _ => hitem.symm⟩

end KsGetVarItemResult

/-- An array of item results. -/
theorem restores_items {l : List KsGetVarItemResult} (hlength : l.length < 2 ^ 32)
    (h : ∀ r ∈ l, r.Sendable) (old : List KsGetVarItemResult) :
    Restores (arrayEncode KsGetVarItemResult.xdrEncode l)
      (arrayDecode KsGetVarItemResult.blank KsGetVarItemResult.xdrDecode old)
      (List.Forall₂ KsGetVarItemResult.Alike l) :=
  restores_array hlength (fun r hr => KsGetVarItemResult.restores (h r hr)) _ old

structure KsGetVarResult where
  result : KsResultCode
  items : List KsGetVarItemResult
  deriving DecidableEq

namespace KsGetVarResult

def xdrEncode (r : KsGetVarResult) : Payload :=
  (KsResult.xdrEncode r.result).andThen
    (.behindOk r.result (arrayEncode KsGetVarItemResult.xdrEncode r.items))

def xdrDecode : XdrDecoder KsGetVarResult :=
  (XdrDecoder.field (·.result) (fun result r => { r with result }) KsResult.xdrDecode).andThen <|
    .behindOk (·.result) <|
      .field (·.items) (fun items r => { r with items })
        (arrayDecode KsGetVarItemResult.blank KsGetVarItemResult.xdrDecode)

def xdrNew : XdrReader (Option KsGetVarResult) := AcpltKs.xdrNew ⟨KsResult.blank, []⟩ xdrDecode

def Sendable (r : KsGetVarResult) : Prop :=
  r.result = .ok → r.items.length < 2 ^ 32 ∧ ∀ item ∈ r.items, item.Sendable

def Alike (r r' : KsGetVarResult) : Prop :=
  r'.result = r.result ∧ (r.result = .ok → List.Forall₂ KsGetVarItemResult.Alike r.items r'.items)

theorem restores {r : KsGetVarResult} (h : r.Sendable) (old : KsGetVarResult) :
    Restores r.xdrEncode (xdrDecode old) r.Alike := by
  refine (restores_uLong r.result _).field.andThen fun _ => ?_
  rintro ⟨_, rfl, rfl⟩
  refine .behindOk rfl (fun hok => ?_) fun hfailed => ⟨rfl, fun hok => absurd hok hfailed⟩
  obtain ⟨hlength, hitems⟩ := h hok
  refine (restores_items hlength hitems _).field.mono ?_
  rintro _ ⟨_, hitems', rfl⟩
  exact ⟨rfl, fun _ => hitems'⟩

end KsGetVarResult

structure KsSetVarItem where
  pathAndName : KsString
  currProps : Option KsCurrProps
  deriving DecidableEq

namespace KsSetVarItem

def xdrEncode (item : KsSetVarItem) : Payload :=
  (KsString.xdrEncode item.pathAndName).andThen
    (handleEncode KsCurrProps.xdrEncode item.currProps)

def xdrDecode : XdrDecoder KsSetVarItem :=
  (XdrDecoder.field (·.pathAndName) (fun pathAndName item => { item with pathAndName })
      KsString.xdrDecode).andThen <|
    .field (·.currProps) (fun currProps item => { item with currProps })
      (handleDecode KsCurrProps.xdrNew)

def blank : KsSetVarItem := ⟨[], none⟩

def xdrNew : XdrReader (Option KsSetVarItem) := AcpltKs.xdrNew blank xdrDecode

def Sendable (item : KsSetVarItem) : Prop :=
  KsString.Sendable item.pathAndName ∧ ∃ p, item.currProps = some p ∧ p.Sendable

theorem restores {item : KsSetVarItem} (h : item.Sendable) (old : KsSetVarItem) :
    Restores item.xdrEncode (xdrDecode old) fun item' => item' = item := by
  obtain ⟨pathAndName, currProps⟩ := item
  obtain ⟨hpath, p, rfl, hp⟩ := h
  obtain ⟨hsent, hnew⟩ := (KsCurrProps.restoresParts hp).new (KsCurrProps.isSome_blank p)
  refine (KsString.restores hpath _).field.andThen fun _ => ?_
  rintro ⟨_, rfl, rfl⟩
  refine (restores_handle hsent hnew _).field.mono ?_
  rintro _ ⟨_, ⟨_, rfl, rfl⟩, rfl⟩
  rfl

end KsSetVarItem

/-- An array of variables to be set. -/
theorem restores_setItems {l : List KsSetVarItem} (hlength : l.length < 2 ^ 32)
    (h : ∀ item ∈ l, item.Sendable) (old : List KsSetVarItem) :
    Restores (arrayEncode KsSetVarItem.xdrEncode l)
      (arrayDecode KsSetVarItem.blank KsSetVarItem.xdrDecode old) fun l' => l' = l :=
  (restores_array hlength (fun item hitem => KsSetVarItem.restores (h item hitem)) _ old).mono
    fun _ => eq_of_forall₂

structure KsSetVarParams where
  items : List KsSetVarItem
  deriving DecidableEq

namespace KsSetVarParams

def xdrEncode (p : KsSetVarParams) : Payload := arrayEncode KsSetVarItem.xdrEncode p.items

def xdrDecode : XdrDecoder KsSetVarParams :=
  .field (·.items) (fun items p => { p with items })
    (arrayDecode KsSetVarItem.blank KsSetVarItem.xdrDecode)

def xdrNew : XdrReader (Option KsSetVarParams) := AcpltKs.xdrNew ⟨[]⟩ xdrDecode

def Sendable (p : KsSetVarParams) : Prop :=
  p.items.length < 2 ^ 32 ∧ ∀ item ∈ p.items, item.Sendable

theorem restores {p : KsSetVarParams} (h : p.Sendable) (old : KsSetVarParams) :
    Restores p.xdrEncode (xdrDecode old) fun p' => p' = p := by
  refine (restores_setItems h.1 h.2 _).field.mono ?_
  rintro _ ⟨_, rfl, rfl⟩
  rfl

end KsSetVarParams

/-- An array of result codes. -/
theorem restores_results {l : List KsResultCode} (hlength : l.length < 2 ^ 32)
    (old : List KsResultCode) :
    Restores (arrayEncode KsResult.xdrEncode l) (arrayDecode KsResult.blank KsResult.xdrDecode old)
      fun l' => l' = l :=
  (restores_array hlength (fun r _ => restores_uLong r) _ old).mono fun _ => eq_of_forall₂

structure KsSetVarResult where
  result : KsResultCode
  results : List KsResultCode
  deriving DecidableEq

namespace KsSetVarResult

def xdrEncode (r : KsSetVarResult) : Payload :=
  (KsResult.xdrEncode r.result).andThen
    (.behindOk r.result (arrayEncode KsResult.xdrEncode r.results))

def xdrDecode : XdrDecoder KsSetVarResult :=
  (XdrDecoder.field (·.result) (fun result r => { r with result }) KsResult.xdrDecode).andThen <|
    .behindOk (·.result) <|
      .field (·.results) (fun results r => { r with results })
        (arrayDecode KsResult.blank KsResult.xdrDecode)

def xdrNew : XdrReader (Option KsSetVarResult) := AcpltKs.xdrNew ⟨KsResult.blank, []⟩ xdrDecode

def Sendable (r : KsSetVarResult) : Prop := r.result = .ok → r.results.length < 2 ^ 32

def Alike (r r' : KsSetVarResult) : Prop :=
  r'.result = r.result ∧ (r.result = .ok → r'.results = r.results)

theorem restores {r : KsSetVarResult} (h : r.Sendable) (old : KsSetVarResult) :
    Restores r.xdrEncode (xdrDecode old) r.Alike := by
  refine (restores_uLong r.result _).field.andThen fun _ => ?_
  rintro ⟨_, rfl, rfl⟩
  refine .behindOk rfl (fun hok => ?_) fun hfailed => ⟨rfl, fun hok => absurd hok hfailed⟩
  refine (restores_results (h hok) _).field.mono ?_
  rintro _ ⟨_, rfl, rfl⟩
  exact ⟨rfl, fun _ => rfl⟩

end KsSetVarResult

structure KsExgDataParams where
  setVars : List KsSetVarItem
  getVars : List KsString
  deriving DecidableEq

namespace KsExgDataParams

def xdrEncode (p : KsExgDataParams) : Payload :=
  (arrayEncode KsSetVarItem.xdrEncode p.setVars).andThen
    (arrayEncode KsString.xdrEncode p.getVars)

def xdrDecode : XdrDecoder KsExgDataParams :=
  (XdrDecoder.field (·.setVars) (fun setVars p => { p with setVars })
      (arrayDecode KsSetVarItem.blank KsSetVarItem.xdrDecode)).andThen <|
    .field (·.getVars) (fun getVars p => { p with getVars }) (arrayDecode [] KsString.xdrDecode)

def xdrNew : XdrReader (Option KsExgDataParams) := AcpltKs.xdrNew ⟨[], []⟩ xdrDecode

structure Sendable (p : KsExgDataParams) : Prop where
  setVars : p.setVars.length < 2 ^ 32 ∧ ∀ item ∈ p.setVars, item.Sendable
  getVars : p.getVars.length < 2 ^ 32 ∧ ∀ s ∈ p.getVars, KsString.Sendable s

theorem restores {p : KsExgDataParams} (h : p.Sendable) (old : KsExgDataParams) :
    Restores p.xdrEncode (xdrDecode old) fun p' => p' = p := by
  refine (restores_setItems h.setVars.1 h.setVars.2 _).field.andThen fun _ => ?_
  rintro ⟨_, rfl, rfl⟩
  refine (restores_strings h.getVars.1 h.getVars.2 _).field.mono ?_
  rintro _ ⟨_, rfl, rfl⟩
  rfl

end KsExgDataParams

structure KsExgDataResult where
  result : KsResultCode
  results : List KsResultCode
  items : List KsGetVarItemResult
  deriving DecidableEq

namespace KsExgDataResult

def xdrEncode (r : KsExgDataResult) : Payload :=
  (KsResult.xdrEncode r.result).andThen (.behindOk r.result
    ((arrayEncode KsResult.xdrEncode r.results).andThen
      (arrayEncode KsGetVarItemResult.xdrEncode r.items)))

def xdrDecode : XdrDecoder KsExgDataResult :=
  (XdrDecoder.field (·.result) (fun result r => { r with result }) KsResult.xdrDecode).andThen <|
    .behindOk (·.result) <|
      (XdrDecoder.field (·.results) (fun results r => { r with results })
        (arrayDecode KsResult.blank KsResult.xdrDecode)).andThen <|
      .field (·.items) (fun items r => { r with items })
        (arrayDecode KsGetVarItemResult.blank KsGetVarItemResult.xdrDecode)

def xdrNew : XdrReader (Option KsExgDataResult) :=
  AcpltKs.xdrNew ⟨KsResult.blank, [], []⟩ xdrDecode

def Sendable (r : KsExgDataResult) : Prop :=
  r.result = .ok → r.results.length < 2 ^ 32 ∧ r.items.length < 2 ^ 32 ∧
    ∀ item ∈ r.items, item.Sendable

def Alike (r r' : KsExgDataResult) : Prop :=
  r'.result = r.result ∧ (r.result = .ok →
    r'.results = r.results ∧ List.Forall₂ KsGetVarItemResult.Alike r.items r'.items)

theorem restores {r : KsExgDataResult} (h : r.Sendable) (old : KsExgDataResult) :
    Restores r.xdrEncode (xdrDecode old) r.Alike := by
  refine (restores_uLong r.result _).field.andThen fun _ => ?_
  rintro ⟨_, rfl, rfl⟩
  refine .behindOk rfl (fun hok => ?_) fun hfailed => ⟨rfl, fun hok => absurd hok hfailed⟩
  obtain ⟨hresults, hlength, hitems⟩ := h hok
  refine (restores_results hresults _).field.andThen fun _ => ?_
  rintro ⟨_, rfl, rfl⟩
  refine (restores_items hlength hitems _).field.mono ?_
  rintro _ ⟨_, hitems', rfl⟩
  exact ⟨rfl, fun _ => ⟨rfl, hitems'⟩⟩

end KsExgDataResult

end AcpltKs
