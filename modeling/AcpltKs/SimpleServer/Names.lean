import AcpltKs.Library.LabelledGraphs
import AcpltKs.SimpleServer.Naming
import AcpltKs.SimpleServer.Objects

/-! How the objects of a simple server are found by their names: the domains, which have no sisters,
and the links are a graph with the identifiers as labels, and a lookup is a walk in it. -/
namespace AcpltKs
open LabelledGraphs

/-- A path that can be looked up. -/
def KsPath.Proper (p : KsPath) : Prop := p.valid = true ∧ p.first ≤ p.last

theorem KsPath.Proper.components_ne_nil {p : KsPath} (h : p.Proper) :
    p.components.map cString ≠ [] := by
  simp [components, size, h.1]

namespace KssMemory
variable {m m' : KssMemory} {a b d : ℕ} {id id' : KsString}

/-- The child that a domain, or the domain of a link, has under a name. -/
def edge (m : KssMemory) (a : ℕ) (id : KsString) : Option ℕ :=
  (m.container a).bind fun d => m.childOf d id

/-- The object that these names lead to from the root domain. -/
def find (m : KssMemory) (ids : List KsString) : Option ℕ := walk m.edge 0 ids

/-- The table of a domain is sound, and lists objects under their own identifiers. -/
def Lists (m : KssMemory) (children : KssChildren ℕ) : Prop :=
  ∃ names, children.Represents names ∧ ∀ key h, names key = some h →
    ∃ a, h = some a ∧ a < m.objects.length ∧ cString (m.identifierAt a) = cString key.text

/-- The tables of all domains are sound, links lead to domains, and the root is a domain. -/
structure Sound (m : KssMemory) : Prop where
  lists : ∀ d children, m.children d = some children → m.Lists children
  links : ∀ a d, m.container a = some d → (m.children d).isSome = true
  root : (m.children 0).isSome = true

theorem container_of_children (h : (m.children d).isSome = true) : m.container d = some d := by
  unfold children at h
  unfold container
  split at h
  · next heq => rw [heq]
  · exact absurd h (by simp)

theorem Sound.container_idem (h : m.Sound) (hd : m.container a = some d) :
    m.container d = some d :=
  container_of_children (h.links a d hd)

/-- The children of a sound table and what is found in it. -/
theorem Lists.spec {children : KssChildren ℕ} (h : m.Lists children) :
    (∀ handle ∈ children.iterate.map Prod.snd, ∃ a, handle = some a ∧ a < m.objects.length) ∧
      (∀ id, ∃ found, children.query ⟨id⟩ = some found ∧ found ≠ some none ∧
        ∀ a, found = some (some a) ↔ some a ∈ children.iterate.map Prod.snd ∧
          cString (m.identifierAt a) = cString id) := by
  obtain ⟨names, hrep, hnames⟩ := h
  have hiter := hrep.maps.iterates hrep.sound.valid
  have hkey : ∀ p ∈ children.iterate, names p.1 = some p.2 := fun p hp =>
    (hiter.complete p.1 p.2).mpr ⟨p, hp, LawfulPltKey.refl p.1, rfl⟩
  refine ⟨fun handle hhandle => ?_, fun id => ⟨names ⟨id⟩, hrep.query ⟨id⟩, fun hnone => ?_,
    fun a => ⟨?_, ?_⟩⟩⟩
  · obtain ⟨p, hp, rfl⟩ := List.mem_map.mp hhandle
    obtain ⟨a, ha, hlt, -⟩ := hnames p.1 p.2 (hkey p hp)
    exact ⟨a, ha, hlt⟩
  · obtain ⟨a, ha, -⟩ := hnames ⟨id⟩ none hnone
    exact absurd ha (by simp)
  · intro hfound
    obtain ⟨p, hp, -, hvalue⟩ := (hiter.complete ⟨id⟩ (some a)).mp hfound
    obtain ⟨b, hb, -, hident⟩ := hnames ⟨id⟩ (some a) hfound
    obtain rfl := Option.some.inj hb
    exact ⟨List.mem_map.mpr ⟨p, hp, hvalue⟩, hident⟩
  · rintro ⟨hmem, hident⟩
    obtain ⟨p, hp, hvalue⟩ := List.mem_map.mp hmem
    obtain ⟨b, hb, -, hident'⟩ := hnames p.1 p.2 (hkey p hp)
    obtain rfl := Option.some.inj (hb.symm.trans hvalue)
    exact (hiter.complete ⟨id⟩ (some b)).mpr
      ⟨p, hp, identifier_beq_iff.mpr (hident'.symm.trans hident), hvalue⟩

/-- The handles of the children are bound. -/
theorem Sound.handles_bound (h : m.Sound) {handle : Option ℕ} (hmem : handle ∈ m.handles d) :
    ∃ a, handle = some a ∧ a < m.objects.length := by
  unfold handles at hmem
  cases hchildren : m.children d with
  | none => simp [hchildren] at hmem
  | some children =>
    rw [hchildren] at hmem
    exact (h.lists d children hchildren).spec.1 handle hmem

/-- A lookup finds the children of a domain, under their own identifiers. -/
theorem Sound.childOf_iff (h : m.Sound) : m.childOf d id = some a ↔
    some a ∈ m.handles d ∧ cString (m.identifierAt a) = cString id := by
  unfold childOf handles
  cases hchildren : m.children d with
  | none => simp
  | some children =>
    obtain ⟨found, hquery, -, hfound⟩ := (h.lists d children hchildren).spec.2 id
    rw [Option.bind_some, hquery, Option.join_some, Option.join_eq_some_iff]
    exact hfound a

theorem Sound.childOf_lt (h : m.Sound) (hchild : m.childOf d id = some a) :
    a < m.objects.length := by
  obtain ⟨b, hb, hlt⟩ := h.handles_bound (h.childOf_iff.mp hchild).1
  obtain rfl := Option.some.inj hb
  exact hlt

/-- Identifiers are compared as null-terminated strings. -/
theorem Sound.childOf_congr (h : m.Sound) (hid : cString id = cString id') :
    m.childOf d id = m.childOf d id' := by
  refine Option.ext fun a => ?_
  rw [h.childOf_iff, h.childOf_iff, hid]

theorem typeCodeAt_cases (m : KssMemory) (a : ℕ) :
    (m.typeCodeAt a = KsObjType.domain ∧ m.container a = some a) ∨
      (m.typeCodeAt a = KsObjType.link ∧ ∃ d, m.container a = some d) ∨
      (m.typeCodeAt a ≠ KsObjType.domain ∧ m.typeCodeAt a ≠ KsObjType.link ∧
        m.typeCodeAt a ≠ KsObjType.history ∧ m.container a = none) := by
  unfold typeCodeAt container
  rcases m.objects[a]? with _ | (_ | _ | _ | _ | _) <;>
    simp [KssObject.typeCode, KsObjType.domain, KsObjType.link, KsObjType.history, KsObjType.var]

/-- Behind an object on the way, the walk goes on from its domain. -/
theorem Sound.walk_container (h : m.Sound) (hd : m.container a = some d) {ids : List KsString}
    (hne : ids ≠ []) : walk m.edge a ids = walk m.edge d ids := by
  obtain ⟨id, ids, rfl⟩ := List.exists_cons_of_ne_nil hne
  simp only [walk, edge, hd, h.container_idem hd]

theorem walk_of_container_none (ha : m.container a = none) {ids : List KsString}
    (hne : ids ≠ []) : walk m.edge a ids = none := by
  obtain ⟨id, ids, rfl⟩ := List.exists_cons_of_ne_nil hne
  simp only [walk, edge, ha, Option.bind_none]

/-- The lookup of the server is a walk along the names. -/
theorem Sound.lookUp_eq (h : m.Sound) (env : KssEnvironment) (a : ℕ) {ids : List KsString}
    (hne : ids ≠ []) :
    lookUp (⟨m, env, a⟩ : KssHandle) ids = (walk m.edge a ids).map (⟨m, env, ·⟩) := by
  induction ids generalizing a with
  | nil => exact absurd rfl hne
  | cons id ids ih =>
    have hchild : KssCommObject.getChildById (⟨m, env, a⟩ : KssHandle) id =
        (m.edge a id).map (⟨m, env, ·⟩) := by
      simp only [KssCommObject.getChildById, edge, Option.map_bind]
      rfl
    rw [lookUp, hchild, walk]
    cases hedge : m.edge a id with
    | none => rfl
    | some b =>
      simp only [Option.map_some, Option.bind_eq_bind, Option.bind_some]
      by_cases hnil : ids = []
      · rw [if_pos hnil, hnil]
        rfl
      · rw [if_neg hnil]
        simp only [KssCommObject.typeCode, KssCommObject.aliasDomain]
        obtain ⟨htype, -⟩ | ⟨htype, d, hd⟩ | ⟨hdomain, hlink, hhistory, hnone⟩ :=
          m.typeCodeAt_cases b
        · rw [if_pos htype, ih b hnil]
        · have hne : ¬ m.typeCodeAt b = KsObjType.domain := by
            rw [htype]
            decide
          rw [if_neg hne, if_pos htype, hd, Option.getD_some, ih d hnil,
            h.walk_container hd hnil]
        · rw [if_neg hdomain, if_neg hlink, if_neg hhistory, walk_of_container_none hnone hnil]
          rfl

/-- Other variables in the same tree. -/
structure SameTree (m m' : KssMemory) : Prop where
  length : m'.objects.length = m.objects.length
  children : ∀ a, m'.children a = m.children a
  container : ∀ a, m'.container a = m.container a
  identifierAt : ∀ a, m'.identifierAt a = m.identifierAt a

theorem SameTree.edge_eq (h : m.SameTree m') : m'.edge = m.edge := by
  funext a id
  simp only [edge, childOf, h.container, h.children]

theorem SameTree.find_eq (h : m.SameTree m') (ids : List KsString) : m'.find ids = m.find ids := by
  rw [find, h.edge_eq, find]

theorem SameTree.sound (hsame : m.SameTree m') (h : m.Sound) : m'.Sound where
  lists d children hchildren := by
    rw [hsame.children] at hchildren
    simpa only [Lists, hsame.length, hsame.identifierAt] using h.lists d children hchildren
  links a d hd := by
    rw [hsame.container] at hd
    rw [hsame.children]
    exact h.links a d hd
  root := by
    rw [hsame.children]
    exact h.root

theorem Sound.getChildByPath_eq (h : m.Sound) (env : KssEnvironment) {p : KsPath}
    (hp : p.Proper) : KsSimpleServer.getChildByPath (⟨m, env, 0⟩ : KssHandle) p =
      (m.find (p.components.map cString)).map (⟨m, env, ·⟩) := by
  rw [getChildByPath_eq_lookUp hp.1 hp.2, h.lookUp_eq env 0 hp.components_ne_nil, find]

/-- A domain is an object with the table of its children. -/
theorem object_of_children {children : KssChildren ℕ} (h : m.children d = some children) :
    ∃ common classIdentifier,
      m.objects[d]? = some (.simpleDomain common classIdentifier children) := by
  unfold KssMemory.children at h
  split at h
  · next heq =>
    cases h
    exact ⟨_, _, heq⟩
  · exact absurd h (by simp)

theorem Sound.edge_lt (h : m.Sound) (hedge : m.edge a id = some b) : b < m.objects.length := by
  obtain ⟨d, -, hchild⟩ := Option.bind_eq_some_iff.mp hedge
  exact h.childOf_lt hchild

theorem Sound.root_lt (h : m.Sound) : 0 < m.objects.length := by
  obtain ⟨children, hchildren⟩ := Option.isSome_iff_exists.mp h.root
  obtain ⟨common, classIdentifier, hobj⟩ := object_of_children hchildren
  exact (List.getElem?_eq_some_iff.mp hobj).1

/-- What is found is an object. -/
theorem Sound.object_of_find (h : m.Sound) {ids : List KsString} (hfind : m.find ids = some a) :
    ∃ obj, m.objects[a]? = some obj := by
  have hlt : a < m.objects.length :=
    walk_invariant (I := fun a => a < m.objects.length) (fun _ _ _ _ => h.edge_lt) h.root_lt hfind
  exact ⟨_, List.getElem?_eq_getElem hlt⟩

end KssMemory
end AcpltKs
