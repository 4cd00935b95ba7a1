import AcpltKs.SimpleServer.Basic

/-! What a client gets to see of engineered properties, and what its ticket says about them. -/
namespace AcpltKs

/-- What a ticket allows to tell of the object at `path` with the engineered properties `props`. -/
structure Honours (ticket : KsAvTicket) (path : KsString) (props item : KsEngProps) : Prop where
  visible : ticket.isVisible path = true
  access : item.accessMode &&& KsAccess.readWrite &&& ~~~ticket.getAccess path = 0
  identifier : item.identifier = ksStringToPercent props.identifier

theorem restrict_access (mode access : KsAccess) :
    mode &&& (access ||| ~~~KsAccess.readWrite) &&& KsAccess.readWrite &&& ~~~access = 0 := by
  apply UInt32.toBitVec_inj.mp
  ext i hi
  simp only [UInt32.toBitVec_and, UInt32.toBitVec_or, UInt32.toBitVec_not, BitVec.getElem_and,
    BitVec.getElem_or, BitVec.getElem_not, UInt32.toBitVec_zero, BitVec.getElem_zero]
  cases mode.toBitVec[i] <;> cases access.toBitVec[i] <;> simp

/-- A child's properties are shown within what the ticket allows. -/
theorem KsSimpleServer.honours_restrictEP {ticket : KsAvTicket} {childname : KsString}
    (hvisible : ticket.isVisible childname = true) (props : KsEngProps) :
    Honours ticket childname props (restrictEP ticket childname props) :=
  ⟨hvisible, restrict_access _ _, rfl⟩

namespace KsSimpleServer
variable {Obj : Type*} [KssCommObject Obj] {rootDomain pobj : Obj} {ticket : KsAvTicket}
  {params : KsGetEPParams} {result : KsGetEPResult} {item : KsEngProps} {pre : KsString}
open KssCommObject (typeCode getIdentifier newMaskedIterator)

/-- The query gets through to an object: this one, the decoded path it has been found by, and what
the paths of its children begin with. -/
structure Reaches (rootDomain : Obj) (ticket : KsAvTicket) (params : KsGetEPParams)
    (path : KsPath) (pobj : Obj) (pre : KsString) : Prop where
  accepted : ∃ p, KsPath.ofString params.path = some p ∧ p.valid = true ∧ p.isAbsolute = true ∧
    p.decodePercents = (KsResultCode.ok, path)
  visible : ticket.isVisible path.toPltString = true
  target : getEPTarget rootDomain params path = (some pobj, pre)

/-- The objects that a query which gets through asks about, with their paths: the object itself if
there is no name mask, else the children that the iterator returns. -/
def Asked (params : KsGetEPParams) (path : KsPath) (pobj : Obj) (pre : KsString) (name : KsString)
    (obj : Obj) : Prop :=
  if cString params.nameMask = [] then name = path.toPltString ∧ obj = pobj
  else ∃ mask it, ksStringFromPercent params.nameMask = .ok mask ∧
    newMaskedIterator pobj mask params.typeMask = some it ∧ some obj ∈ it ∧
      name = concat pre (getIdentifier obj)

/-- Every item describes an object that the query asks about, as far as the ticket allows. -/
def ListsHonestly (rootDomain : Obj) (ticket : KsAvTicket) (params : KsGetEPParams) : Prop :=
  ∀ result, getEP rootDomain ticket params ⟨-1, []⟩ = some result → ∀ item ∈ result.items,
    ∃ path pobj pre name obj props, Reaches rootDomain ticket params path pobj pre ∧
      Asked params path pobj pre name obj ∧ KssCommObject.getEP obj = some props ∧
        Honours ticket name props item

theorem getEP_of_reaches {path : KsPath} (h : Reaches rootDomain ticket params path pobj pre)
    (result : KsGetEPResult) : getEP rootDomain ticket params result =
      some (getEPOfObject pobj pre ticket params result) := by
  obtain ⟨⟨p, hp, hvalid, habsolute, hdecode⟩, hvisible, htarget⟩ := h
  simp [getEP, hp, hvalid, habsolute, hdecode, hvisible, htarget]

/-- A query that does not get through adds nothing to the result. -/
theorem getEP_cases {result' : KsGetEPResult}
    (h : getEP rootDomain ticket params result = some result') :
    result'.items = result.items ∨
      ∃ path pobj pre, Reaches rootDomain ticket params path pobj pre ∧
        result' = getEPOfObject pobj pre ticket params result := by
  obtain ⟨p, hp, h⟩ := Option.bind_eq_some_iff.mp h
  split_ifs at h with hok
  · obtain ⟨convres, path, hdecode⟩ : ∃ convres path, p.decodePercents = (convres, path) :=
      ⟨_, _, rfl⟩
    rw [hdecode] at h
    simp only at h
    split_ifs at h with hconv hvisible
    · obtain ⟨target, pre, htarget⟩ : ∃ target pre, getEPTarget rootDomain params path =
          (target, pre) := ⟨_, _, rfl⟩
      rw [htarget] at h
      cases target with
      | none => exact Or.inl (by rw [← Option.some.inj h])
      | some pobj =>
        subst hconv
        exact Or.inr ⟨path, pobj, pre, ⟨⟨p, hp, hok.1, hok.2, hdecode⟩, hvisible, htarget⟩,
          (Option.some.inj h).symm⟩
    · exact Or.inl (by rw [← Option.some.inj h])
    · exact Or.inl (by rw [← Option.some.inj h])
  · exact Or.inl (by rw [← Option.some.inj h])

/-- Where the items for an object come from. -/
theorem mem_getEPOfObject (h : item ∈ (getEPOfObject pobj pre ticket params ⟨-1, []⟩).items) :
    (cString params.nameMask = [] ∧ KssCommObject.getEP pobj = some item) ∨
      (cString params.nameMask ≠ [] ∧ ∃ mask it child props,
        ksStringFromPercent params.nameMask = .ok mask ∧
        newMaskedIterator pobj mask params.typeMask = some it ∧ some child ∈ it ∧
        ticket.isVisible (concat pre (getIdentifier child)) = true ∧
        KssCommObject.getEP child = some props ∧
        item = restrictEP ticket (concat pre (getIdentifier child)) props) := by
  unfold getEPOfObject at h
  split_ifs at h with hmask htype
  · refine Or.inl ⟨hmask, ?_⟩
    cases hget : KssCommObject.getEP pobj with
    | none => simp [hget] at h
    | some props =>
      obtain rfl : item = props := by simpa [hget] using h
      rfl
  · refine Or.inr ⟨hmask, ?_⟩
    split at h
    · exact absurd h List.not_mem_nil
    · rename_i mask hdecoded
      split at h
      · rename_i it hit
        rw [List.nil_append, List.mem_flatMap] at h
        obtain ⟨handle, hmem, hitem⟩ := h
        cases handle with
        | none => exact absurd hitem List.not_mem_nil
        | some child =>
          simp only [getEPOfChild] at hitem
          split_ifs at hitem with hvisible
          · obtain ⟨props, hprops, rfl⟩ := Option.map_eq_some_iff.mp (Option.mem_toList.mp hitem)
            exact ⟨mask, it, child, props, hdecoded, hit, hmem, hvisible, hprops, rfl⟩
          · exact absurd hitem List.not_mem_nil
      · exact absurd h List.not_mem_nil
  · exact absurd h List.not_mem_nil

/-- A query about the object itself is answered within what the ticket allows only if the object
shows no more on its own account. -/
theorem listsHonestly_iff : ListsHonestly rootDomain ticket params ↔
    (cString params.nameMask = [] → ∀ path pobj pre props,
      Reaches rootDomain ticket params path pobj pre → KssCommObject.getEP pobj = some props →
        props.accessMode &&& KsAccess.readWrite &&& ~~~ticket.getAccess path.toPltString = 0 ∧
          props.identifier = ksStringToPercent props.identifier) := by
  constructor
  · intro h hmask path pobj pre props hreaches hprops
    have hitem : props ∈ (getEPOfObject pobj pre ticket params ⟨-1, []⟩).items := by
      simp [getEPOfObject, hmask, hprops]
    obtain ⟨path', pobj', pre', name, obj, props', hreaches', hasked, hprops', hhonours⟩ :=
      h _ (getEP_of_reaches hreaches _) props hitem
    obtain ⟨⟨p, hp, -, -, hdecode⟩, -, htarget⟩ := hreaches
    obtain ⟨⟨p', hp', -, -, hdecode'⟩, -, htarget'⟩ := hreaches'
    obtain rfl := Option.some.inj (hp.symm.trans hp')
    obtain rfl := (Prod.mk.inj (hdecode.symm.trans hdecode')).2
    obtain rfl := Option.some.inj (Prod.mk.inj (htarget.symm.trans htarget')).1
    rw [Asked, if_pos hmask] at hasked
    obtain ⟨rfl, rfl⟩ := hasked
    obtain rfl := Option.some.inj (hprops.symm.trans hprops')
    exact ⟨hhonours.access, hhonours.identifier⟩
  · intro h result hresult item hitem
    obtain hnone | ⟨path, pobj, pre, hreaches, rfl⟩ := getEP_cases hresult
    · rw [hnone] at hitem
      exact absurd hitem List.not_mem_nil
    · obtain ⟨hmask, hprops⟩ | ⟨hmask, mask, it, child, props, hdecoded, hit, hchild, hvisible,
        hprops, rfl⟩ := mem_getEPOfObject hitem
      · obtain ⟨haccess, hidentifier⟩ := h hmask path pobj pre item hreaches hprops
        exact ⟨path, pobj, pre, path.toPltString, pobj, item, hreaches,
          by rw [Asked, if_pos hmask]; exact ⟨rfl, rfl⟩, hprops,
          ⟨hreaches.visible, haccess, hidentifier⟩⟩
      · exact ⟨path, pobj, pre, _, child, props, hreaches,
          by rw [Asked, if_neg hmask]; exact ⟨mask, it, hdecoded, hit, hchild, rfl⟩, hprops,
          honours_restrictEP hvisible props⟩

/-- A root domain with one variable `p`, which can be read and written. -/
inductive Plant where
  | root
  | pump

instance : KssCommObject Plant where
  typeCode
    | .root => KsObjType.domain
    | .pump => KsObjType.var
  getIdentifier
    | .root => [slashChar]
    | .pump => [112]
  getEP
    | .root => none
    | .pump => some ⟨[112], ⟨0, 0⟩, [], KsAccess.readWrite, 0, .var [] 0x20⟩
  getChildById
    | .root, id => if id = [112] then some .pump else none
    | .pump, _ => none
  newMaskedIterator
    | .root, _, _ => some [some .pump]
    | .pump, _, _ => none
  aliasDomain obj := obj
  getCurrProps _ := (.generic, none)
  setCurrProps obj _ := (.generic, obj)

/-- The ticket allows to read everything and to write nothing; the query is about `/p` itself. -/
theorem not_listsHonestly_pump :
    ¬ ListsHonestly Plant.root ⟨fun _ => true, fun _ => false, fun _ => true⟩
      ⟨[47, 112], 0x0f, [], 0x40000000⟩ := by
  intro h
  obtain ⟨path, pobj, pre, name, obj, props, -, -, -, hhonours⟩ :=
    h _ rfl _ (List.mem_singleton.mpr rfl)
  exact absurd hhonours.access (by simp [KsAvTicket.getAccess]; decide)

end KsSimpleServer

end AcpltKs
