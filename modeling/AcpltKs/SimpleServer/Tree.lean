import AcpltKs.SimpleServer.Names

/-! How the tree of a simple server grows and shrinks: objects are made, put into domains under their
identifiers, and taken out again. -/
namespace AcpltKs
open LabelledGraphs

/-- An object that the application asks for. -/
inductive NewObject where
  | simpleDomain (common : KssSimpleCommObject) (classIdentifier : KsString)
  | simpleVariable (common : KssSimpleCommObject) (var : KssSimpleVariable)
  | ioStatisticsVariable (common : KssSimpleCommObject) (var : KssSimpleVariable)
      (statType : KssIoStatisticType)
  | timeNowVariable (common : KssSimpleCommObject)
  | simpleLinkAlias (common : KssSimpleCommObject) (haliasDomain : ℕ) (aliasPath : KsString)

namespace KssMemory

/-- A new domain has no children, and a link is made of a domain. -/
def make (m : KssMemory) : NewObject → Option (ℕ × KssMemory)
  | .simpleDomain common classIdentifier =>
      (KssChildren.create : Option (KssChildren ℕ)).map fun children =>
        m.allocate (.simpleDomain common classIdentifier children)
  | .simpleVariable common var => some (m.allocate (.simpleVariable common var))
  | .ioStatisticsVariable common var statType =>
      some (m.allocate (.ioStatisticsVariable common var statType))
  | .timeNowVariable common => some (m.allocate (.timeNowVariable common))
  | .simpleLinkAlias common haliasDomain aliasPath =>
      if (m.children haliasDomain).isSome then
        some (m.allocate (.simpleLinkAlias common haliasDomain aliasPath))
      else none

end KssMemory

namespace KsSimpleServer

/-- The constructor: there is a root domain without children. -/
def create (env : KssEnvironment) : Option KssMemory :=
  (KssChildren.create : Option (KssChildren ℕ)).map fun children =>
    ⟨[.simpleDomain ⟨[slashChar], env.now, [], 0⟩ [] children]⟩

/-- The object that the path of a domain leads to; the root domain has no name. -/
def domainAt (m : KssMemory) (env : KssEnvironment) (dompath : KsPath) : Option ℕ :=
  if dompath.isSingle ∧ cString (dompath.component 0) = [] then some 0
  else (getChildByPath (⟨m, env, 0⟩ : KssHandle) dompath).map KssHandle.address

/-- Put an object into a domain, unless there is one of the same name. Nothing if the handle is not
bound, or if an operation on the table of the domain does not end. -/
def addCommObject (m : KssMemory) (env : KssEnvironment) (dompath : KsPath) (ho : ℕ) :
    Option (Bool × KssMemory) :=
  match domainAt m env dompath with
  | none => some (false, m)
  | some hd =>
      match m.objects[hd]? with
      | some (.simpleDomain common classIdentifier children) => do
          let obj ← m.objects[ho]?
          let found ← children.query ⟨obj.getIdentifier⟩
          if found.join.isSome then some (false, m)
          else
            let (added, children) ← children.add ⟨obj.getIdentifier⟩ (some ho)
            some (added, m.write hd (.simpleDomain common classIdentifier children))
      | _ => some (false, m)

def removeCommObject (m : KssMemory) (env : KssEnvironment) (dompath : KsPath) (id : KsString) :
    Option (Bool × KssMemory) :=
  match domainAt m env dompath with
  | none => some (false, m)
  | some hd =>
      match m.objects[hd]? with
      | some (.simpleDomain common classIdentifier children) => do
          let (removed, children) ← children.remove ⟨id⟩
          some (removed.join.isSome, m.write hd (.simpleDomain common classIdentifier children))
      | _ => some (false, m)

def addDomain (m : KssMemory) (env : KssEnvironment) (dompath : KsPath) (id comment : KsString) :
    Option (Bool × KssMemory) := do
  let (ho, m) ← m.make (.simpleDomain ⟨id, env.now, comment, 0⟩ [])
  addCommObject m env dompath ho

def addStringVar (m : KssMemory) (env : KssEnvironment) (dompath : KsPath)
    (id str comment : KsString) (lock : Bool) : Option (Bool × KssMemory) := do
  let var := ((KssSimpleVariable.create env.now).setValue (some (.string str))).2
  let var := (var.setState KsState.good).2
  let var := if lock then var.lock else var
  let (ho, m) ← m.make (.simpleVariable ⟨id, env.now, comment, 0⟩ var)
  addCommObject m env dompath ho

end KsSimpleServer

namespace KssMemory
variable {m m' : KssMemory} {a d : ℕ} {id : KsString} {obj : KssObject}
  {common : KssSimpleCommObject} {classIdentifier : KsString} {children children' : KssChildren ℕ}

theorem children_eq (hobj : m.objects[d]? = some (.simpleDomain common classIdentifier children)) :
    m.children d = some children := by
  rw [KssMemory.children, hobj]

/-- The objects of a memory are looked up in one that they are all part of. -/
theorem getElem?_allocate (m : KssMemory) (obj : KssObject) (a : ℕ) :
    (m.allocate obj).2.objects[a]? = if a = m.objects.length then some obj else m.objects[a]? := by
  rw [allocate, List.getElem?_append]
  split_ifs with hlt heq heq
  · omega
  · rfl
  · simp [heq]
  · rw [List.getElem?_eq_none (by simpa using by omega), List.getElem?_eq_none (by omega)]

section Table
variable (hobj : m.objects[d]? = some (.simpleDomain common classIdentifier children))
include hobj

theorem getElem?_writeTable (a : ℕ) :
    (m.write d (.simpleDomain common classIdentifier children')).objects[a]? =
      if a = d then some (.simpleDomain common classIdentifier children') else m.objects[a]? := by
  have hlt := (List.getElem?_eq_some_iff.mp hobj).1
  rw [write, List.getElem?_set]
  by_cases h : d = a
  · rw [if_pos h, if_pos hlt, if_pos h.symm]
  · rw [if_neg h, if_neg (Ne.symm h)]

theorem children_writeTable (a : ℕ) :
    (m.write d (.simpleDomain common classIdentifier children')).children a =
      if a = d then some children' else m.children a := by
  rw [KssMemory.children, getElem?_writeTable hobj, KssMemory.children]
  split_ifs <;> rfl

theorem container_writeTable (a : ℕ) :
    (m.write d (.simpleDomain common classIdentifier children')).container a = m.container a := by
  rw [container, getElem?_writeTable hobj, container]
  split_ifs with h
  · rw [h, hobj]
  · rfl

theorem identifierAt_writeTable (a : ℕ) :
    (m.write d (.simpleDomain common classIdentifier children')).identifierAt a =
      m.identifierAt a := by
  rw [identifierAt, getElem?_writeTable hobj, identifierAt]
  split_ifs with h
  · rw [h, hobj]
    rfl
  · rfl

/-- A memory stays sound if the table that changes is. -/
theorem Sound.writeTable (h : m.Sound) (hlists : m.Lists children') :
    (m.write d (.simpleDomain common classIdentifier children')).Sound where
  lists a table htable := by
    rw [children_writeTable hobj] at htable
    simp only [Lists, identifierAt_writeTable hobj]
    rw [show (m.write d _).objects.length = m.objects.length from List.length_set]
    split_ifs at htable
    · cases htable
      exact hlists
    · exact h.lists a table htable
  links a b hb := by
    rw [container_writeTable hobj] at hb
    rw [children_writeTable hobj]
    split_ifs
    · rfl
    · exact h.links a b hb
  root := by
    rw [children_writeTable hobj]
    split_ifs
    · rfl
    · exact h.root

end Table

theorem Lists.add (h : m.Lists children) {ho : ℕ} (hobj : m.objects[ho]? = some obj)
    (hnew : children.query ⟨obj.getIdentifier⟩ = some none) :
    ∃ children', children.add ⟨obj.getIdentifier⟩ (some ho) =
        some (!children.exhausted, children') ∧ m.Lists children' ∧
      ∀ id, children'.query ⟨id⟩ =
        if children.exhausted = false ∧ cString id = cString obj.getIdentifier then some (some (some ho))
        else children.query ⟨id⟩ := by
  obtain ⟨names, hrep, hnames⟩ := h
  have hnone : names ⟨obj.getIdentifier⟩ = none := by
    rw [hrep.query] at hnew
    exact Option.some.inj hnew
  obtain ⟨children', hadd, hrep'⟩ := hrep.add ⟨obj.getIdentifier⟩ (some ho)
  simp only [hnone, Option.isSome_none, Bool.false_eq_true, false_or] at hadd hrep'
  have hident : m.identifierAt ho = obj.getIdentifier := by simp [identifierAt, hobj]
  have hbound : ho < m.objects.length := (List.getElem?_eq_some_iff.mp hobj).1
  cases hfull : children.exhausted with
  | true =>
    rw [hfull] at hadd hrep'
    refine ⟨children', hadd, ⟨names, hrep', hnames⟩, fun id => ?_⟩
    have hquery := hrep'.query ⟨id⟩
    rw [if_pos rfl] at hquery
    rw [hquery, hrep.query, if_neg (by simp)]
  | false =>
    rw [hfull] at hadd hrep'
    refine ⟨children', hadd, ⟨_, hrep', fun key h hkey => ?_⟩, fun id => ?_⟩
    · simp only [Bool.false_eq_true, if_false, PltHashTable.setKey] at hkey
      split_ifs at hkey with hsame
      · exact ⟨ho, (Option.some.inj hkey).symm, hbound, by
          rw [hident]
          exact identifier_beq_iff.mp hsame⟩
      · exact hnames key h hkey
    · rw [hrep'.query, hrep.query]
      simp only [Bool.false_eq_true, if_false, PltHashTable.setKey, identifier_beq_iff, true_and]
      split_ifs with h h' h'
      · rfl
      · exact absurd h.symm h'
      · exact absurd h'.symm h
      · rfl

theorem Lists.remove (h : m.Lists children) (id : KsString) :
    ∃ children' found, children.query ⟨id⟩ = some found ∧
      children.remove ⟨id⟩ = some (found, children') ∧ m.Lists children' ∧
      ∀ id', children'.query ⟨id'⟩ =
        if cString id' = cString id then some none else children.query ⟨id'⟩ := by
  obtain ⟨names, hrep, hnames⟩ := h
  obtain ⟨children', hremove, hrep'⟩ := hrep.remove ⟨id⟩
  refine ⟨children', _, hrep.query ⟨id⟩, hremove, ⟨_, hrep', fun key h hkey => ?_⟩, fun id' => ?_⟩
  · simp only [PltHashTable.eraseKey] at hkey
    split_ifs at hkey
    exact hnames key h hkey
  · rw [hrep'.query, hrep.query]
    simp only [PltHashTable.eraseKey, identifier_beq_iff]
    split_ifs with h h' h'
    · rfl
    · exact absurd h.symm h'
    · exact absurd h'.symm h
    · rfl

theorem childOf_writeTable
    (hobj : m.objects[d]? = some (.simpleDomain common classIdentifier children)) (a : ℕ)
    (id : KsString) :
    (m.write d (.simpleDomain common classIdentifier children')).childOf a id =
      if a = d then (children'.query ⟨id⟩).join.join else m.childOf a id := by
  rw [childOf, children_writeTable hobj, childOf]
  split_ifs <;> rfl

/-- The same names lead to the same objects. -/
structure SameNames (m m' : KssMemory) : Prop where
  length : m'.objects.length = m.objects.length
  container : ∀ a, m'.container a = m.container a
  identifierAt : ∀ a, m'.identifierAt a = m.identifierAt a
  childOf : ∀ a id, m'.childOf a id = m.childOf a id

/-- One name in one domain leads somewhere else, or nowhere. -/
structure Renames (m m' : KssMemory) (d : ℕ) (id : KsString) (child : Option ℕ) : Prop where
  length : m'.objects.length = m.objects.length
  container : ∀ a, m'.container a = m.container a
  identifierAt : ∀ a, m'.identifierAt a = m.identifierAt a
  childOf : ∀ a id', m'.childOf a id' =
    if a = d ∧ cString id' = cString id then child else m.childOf a id'

theorem SameNames.refl (m : KssMemory) : m.SameNames m :=
  ⟨rfl, fun _ => rfl, fun _ => rfl, fun _ _ => rfl⟩

section Table
variable (hobj : m.objects[d]? = some (.simpleDomain common classIdentifier children))
include hobj

theorem sameNames_writeTable (hquery : ∀ id, children'.query ⟨id⟩ = children.query ⟨id⟩) :
    m.SameNames (m.write d (.simpleDomain common classIdentifier children')) where
  length := List.length_set
  container := container_writeTable hobj
  identifierAt := identifierAt_writeTable hobj
  childOf a id := by
    rw [childOf_writeTable hobj, hquery]
    split_ifs with h
    · rw [h, childOf, children_eq hobj]
      rfl
    · rfl

theorem renames_writeTable {found : Option (Option ℕ)} (hquery : ∀ id', children'.query ⟨id'⟩ =
      if cString id' = cString id then some found else children.query ⟨id'⟩) :
    m.Renames (m.write d (.simpleDomain common classIdentifier children')) d id found.join where
  length := List.length_set
  container := container_writeTable hobj
  identifierAt := identifierAt_writeTable hobj
  childOf a id' := by
    rw [childOf_writeTable hobj, hquery]
    by_cases ha : a = d
    · subst ha
      by_cases hid : cString id' = cString id
      · simp [hid]
      · rw [if_pos rfl, if_neg hid, if_neg fun hboth => hid hboth.2, childOf, children_eq hobj]
        rfl
    · rw [if_neg ha, if_neg fun hboth => ha hboth.1]

end Table

theorem childOf_of_query
    (hobj : m.objects[d]? = some (.simpleDomain common classIdentifier children))
    {found : Option (Option ℕ)} (hquery : children.query ⟨id⟩ = some found) :
    m.childOf d id = found.join := by
  rw [childOf, children_eq hobj, Option.bind_some, hquery]
  rfl

theorem represents_create :
    ∃ children : KssChildren ℕ, KssChildren.create = some children ∧
      children.Represents fun _ => none := by
  obtain ⟨c, hcreate, hsound, -⟩ := PltHashTable.create_spec (K := KsIdentifier)
    (V := Option ℕ) 11 (show (0 : ℚ) < 4 / 10 by norm_num)
    (show (4 / 10 : ℚ) < 8 / 10 by norm_num) (by norm_num)
  obtain ⟨hsound, hentries, -, hmedwater⟩ := hsound (by norm_num)
  exact ⟨c, hcreate, hsound, by rw [hmedwater]; norm_num, fun key value => by simp [hentries]⟩

theorem lists_create (m : KssMemory) {children : KssChildren ℕ}
    (h : KssChildren.create = some children) : m.Lists children := by
  obtain ⟨c, hcreate, hrep⟩ := represents_create
  obtain rfl := Option.some.inj (h.symm.trans hcreate)
  exact ⟨_, hrep, fun key handle hkey => by simp at hkey⟩

theorem create_sound {env : KssEnvironment} (h : KsSimpleServer.create env = some m) : m.Sound := by
  obtain ⟨children, hchildren, rfl⟩ := Option.map_eq_some_iff.mp h
  have hroot : (⟨[.simpleDomain ⟨[slashChar], env.now, [], 0⟩ [] children]⟩ : KssMemory).children 0 =
      some children := rfl
  have hother : ∀ a, a ≠ 0 →
      ([KssObject.simpleDomain ⟨[slashChar], env.now, [], 0⟩ [] children])[a]? = none := by
    intro a ha
    exact List.getElem?_eq_none (by rw [List.length_singleton]; omega)
  refine ⟨fun d table htable => ?_, fun a d hd => ?_, by rw [hroot]; rfl⟩
  · by_cases hd : d = 0
    · subst hd
      rw [hroot] at htable
      exact Option.some.inj htable ▸ lists_create _ hchildren
    · simp [KssMemory.children, hother d hd] at htable
  · by_cases ha : a = 0
    · subst ha
      obtain rfl : 0 = d := by simpa [container] using hd
      rw [hroot]
      rfl
    · simp [container, hother a ha] at hd

section Allocate
variable (m : KssMemory) (obj : KssObject)

theorem children_allocate (ha : a < m.objects.length) :
    (m.allocate obj).2.children a = m.children a := by
  rw [KssMemory.children, getElem?_allocate, if_neg ha.ne, KssMemory.children]

theorem container_allocate (ha : a < m.objects.length) :
    (m.allocate obj).2.container a = m.container a := by
  rw [container, getElem?_allocate, if_neg ha.ne, container]

theorem identifierAt_allocate (ha : a < m.objects.length) :
    (m.allocate obj).2.identifierAt a = m.identifierAt a := by
  rw [identifierAt, getElem?_allocate, if_neg ha.ne, identifierAt]

theorem length_allocate : (m.allocate obj).2.objects.length = m.objects.length + 1 := by
  simp [allocate]

end Allocate

theorem lt_of_children {children : KssChildren ℕ} (h : m.children d = some children) :
    d < m.objects.length := by
  obtain ⟨common, classIdentifier, hobj⟩ := object_of_children h
  exact (List.getElem?_eq_some_iff.mp hobj).1

theorem Lists.allocate {children : KssChildren ℕ} (h : m.Lists children) (obj : KssObject) :
    (m.allocate obj).2.Lists children := by
  obtain ⟨names, hrep, hnames⟩ := h
  refine ⟨names, hrep, fun key handle hkey => ?_⟩
  obtain ⟨a, ha, hlt, hid⟩ := hnames key handle hkey
  exact ⟨a, ha, by rw [length_allocate]; omega, by rw [identifierAt_allocate m obj hlt, hid]⟩

theorem Sound.allocate (h : m.Sound) (hlists : ∀ common classIdentifier children,
      obj = .simpleDomain common classIdentifier children → m.Lists children)
    (hlink : ∀ common d aliasPath, obj = .simpleLinkAlias common d aliasPath →
      (m.children d).isSome = true) : (m.allocate obj).2.Sound where
  lists d children hchildren := by
    by_cases hd : d = m.objects.length
    · rw [KssMemory.children, getElem?_allocate, if_pos hd] at hchildren
      split at hchildren
      · next heq =>
        cases hchildren
        exact (hlists _ _ _ (Option.some.inj heq)).allocate obj
      · exact absurd hchildren (by simp)
    · have hlt := lt_of_children hchildren
      rw [length_allocate] at hlt
      rw [children_allocate m obj (by omega)] at hchildren
      exact (h.lists d children hchildren).allocate obj
  links a d hd := by
    have hkeep : ∀ {d}, (m.children d).isSome = true →
        ((m.allocate obj).2.children d).isSome = true := by
      intro d hsome
      obtain ⟨children, hchildren⟩ := Option.isSome_iff_exists.mp hsome
      rw [children_allocate m obj (lt_of_children hchildren), hsome]
    rw [container, getElem?_allocate] at hd
    split_ifs at hd with ha
    · cases obj with
      | simpleDomain common classIdentifier children =>
        cases hd
        rw [KssMemory.children, getElem?_allocate, if_pos ha]
        rfl
      | simpleLinkAlias common haliasDomain aliasPath =>
        cases hd
        exact hkeep (hlink _ _ _ rfl)
      | simpleVariable | ioStatisticsVariable | timeNowVariable => cases hd
    · exact hkeep (h.links a d hd)
  root := by
    rw [children_allocate m obj h.root_lt]
    exact h.root

theorem Sound.make (h : m.Sound) {new : NewObject} (hmake : m.make new = some (a, m')) :
    m'.Sound ∧ ∀ ids, m'.find ids = m.find ids := by
  have hallocate : ∃ obj, m' = (m.allocate obj).2 ∧ (m.allocate obj).2.Sound := by
    cases new with
    | simpleDomain common classIdentifier =>
      rw [KssMemory.make] at hmake
      obtain ⟨children, hchildren, heq⟩ := Option.map_eq_some_iff.mp hmake
      refine ⟨_, (Prod.mk.inj heq).2.symm, h.allocate ?_ ?_⟩
      · rintro _ _ _ ⟨⟩
        exact lists_create m hchildren
      · rintro _ _ _ ⟨⟩
    | simpleLinkAlias common haliasDomain aliasPath =>
      simp only [KssMemory.make] at hmake
      split_ifs at hmake with hdomain
      refine ⟨_, (Prod.mk.inj (Option.some.inj hmake)).2.symm, h.allocate ?_ ?_⟩
      · rintro _ _ _ ⟨⟩
      · rintro _ _ _ ⟨⟩
        exact hdomain
    | simpleVariable | ioStatisticsVariable | timeNowVariable =>
      refine ⟨_, (Prod.mk.inj (Option.some.inj hmake)).2.symm, h.allocate ?_ ?_⟩ <;>
        rintro _ _ _ ⟨⟩
  obtain ⟨obj, rfl, hsound⟩ := hallocate
  refine ⟨hsound, fun ids => ?_⟩
  refine walk_congr (I := fun a => a < m.objects.length) (fun _ _ _ _ => h.edge_lt)
    (fun a id ha => ?_) h.root_lt
  rw [edge, edge, container_allocate m obj ha]
  cases hcontainer : m.container a with
  | none => rfl
  | some d =>
    obtain ⟨children, hchildren⟩ := Option.isSome_iff_exists.mp (h.links a d hcontainer)
    simp only [Option.bind_some, childOf, children_allocate m obj (lt_of_children hchildren)]

end KssMemory

namespace KsSimpleServer
variable {m m' : KssMemory} {env : KssEnvironment} {dompath : KsPath} {a d ho : ℕ}
  {id : KsString} {obj : KssObject}

/-- The domain at a path, with the table of its children. -/
def TableAt (m : KssMemory) (env : KssEnvironment) (dompath : KsPath) (d : ℕ)
    (children : KssChildren ℕ) : Prop :=
  domainAt m env dompath = some d ∧ m.children d = some children

/-- An object is added exactly if there is a domain with room for it and without a child of this
name. Then the name leads to the object, and nothing else changes. -/
theorem addCommObject_spec (h : m.Sound) (env : KssEnvironment) (dompath : KsPath)
    (hobj : m.objects[ho]? = some obj) :
    ∃ added m', addCommObject m env dompath ho = some (added, m') ∧ m'.Sound ∧
      ((added = false ∧ m.SameNames m' ∧ ∀ d children, TableAt m env dompath d children →
          (m.childOf d obj.getIdentifier).isSome = true ∨ children.exhausted = true) ∨
        (added = true ∧ ∃ d children, TableAt m env dompath d children ∧
          m.childOf d obj.getIdentifier = none ∧ children.exhausted = false ∧
          m.Renames m' d obj.getIdentifier (some ho))) := by
  unfold addCommObject TableAt
  cases hdomain : domainAt m env dompath with
  | none => exact ⟨false, m, rfl, h, Or.inl ⟨rfl, .refl m, by simp⟩⟩
  | some d =>
    dsimp only
    split
    · next common classIdentifier children hd =>
      have hchildren := KssMemory.children_eq hd
      obtain ⟨found, hquery, hbound, -⟩ := (h.lists d children hchildren).spec.2 obj.getIdentifier
      have hchild := KssMemory.childOf_of_query hd hquery
      rw [hobj, Option.bind_eq_bind, Option.bind_some, hquery, Option.bind_eq_bind,
        Option.bind_some]
      cases hjoin : found.join with
      | some a =>
        refine ⟨false, m, rfl, h, Or.inl ⟨rfl, .refl m, fun d' table htable => Or.inl ?_⟩⟩
        obtain rfl := Option.some.inj htable.1
        rw [hchild, hjoin]
        rfl
      | none =>
        obtain rfl : found = none := by
          rcases found with _ | (_ | a)
          · rfl
          · exact absurd rfl hbound
          · exact absurd hjoin (by simp)
        obtain ⟨children', hadd, hlists, hnames⟩ :=
          (h.lists d children hchildren).add hobj hquery
        refine ⟨!children.exhausted, m.write d (.simpleDomain common classIdentifier children'),
          by simp [hadd], h.writeTable hd hlists, ?_⟩
        cases hfull : children.exhausted with
        | true =>
          simp only [hfull, Bool.true_eq_false, false_and, if_false] at hnames
          refine Or.inl ⟨rfl, KssMemory.sameNames_writeTable hd hnames,
            fun d' table htable => Or.inr ?_⟩
          obtain rfl := Option.some.inj htable.1
          rw [← Option.some.inj (hchildren.symm.trans htable.2), hfull]
        | false =>
          simp only [hfull, true_and] at hnames
          exact Or.inr ⟨rfl, d, children, ⟨rfl, hchildren⟩, by rw [hchild]; rfl, hfull,
            KssMemory.renames_writeTable hd hnames⟩
    · next hnot =>
      refine ⟨false, m, rfl, h, Or.inl ⟨rfl, .refl m, fun d' table htable => ?_⟩⟩
      obtain rfl := Option.some.inj htable.1
      obtain ⟨common, classIdentifier, hd⟩ := KssMemory.object_of_children htable.2
      exact absurd hd (hnot _ _ _)

/-- A child is removed exactly if there is a domain with a child of this name. Then the name leads
nowhere, and nothing else changes. -/
theorem removeCommObject_spec (h : m.Sound) (env : KssEnvironment) (dompath : KsPath)
    (id : KsString) :
    ∃ removed m', removeCommObject m env dompath id = some (removed, m') ∧ m'.Sound ∧
      ((removed = false ∧ m.SameNames m' ∧ ∀ d children, TableAt m env dompath d children →
          m.childOf d id = none) ∨
        (removed = true ∧ ∃ d children, TableAt m env dompath d children ∧
          (m.childOf d id).isSome = true ∧ m.Renames m' d id none)) := by
  unfold removeCommObject TableAt
  cases hdomain : domainAt m env dompath with
  | none => exact ⟨false, m, rfl, h, Or.inl ⟨rfl, .refl m, by simp⟩⟩
  | some d =>
    dsimp only
    split
    · next common classIdentifier children hd =>
      have hchildren := KssMemory.children_eq hd
      obtain ⟨children', found, hquery, hremove, hlists, hnames⟩ :=
        (h.lists d children hchildren).remove id
      have hchild := KssMemory.childOf_of_query hd hquery
      refine ⟨found.join.isSome, m.write d (.simpleDomain common classIdentifier children'),
        by simp [hremove], h.writeTable hd hlists, ?_⟩
      have hrenames := KssMemory.renames_writeTable hd hnames
      cases hjoin : found.join with
      | some a =>
        exact Or.inr ⟨rfl, d, children, ⟨rfl, hchildren⟩, by rw [hchild, hjoin]; rfl, hrenames⟩
      | none =>
        refine Or.inl ⟨rfl, ⟨hrenames.length, hrenames.container, hrenames.identifierAt,
          fun a id' => ?_⟩, fun d' table htable => ?_⟩
        · rw [hrenames.childOf]
          split_ifs with hboth
          · obtain ⟨rfl, hid⟩ := hboth
            rw [h.childOf_congr hid, hchild, hjoin]
            rfl
          · rfl
        · obtain rfl := Option.some.inj htable.1
          rw [hchild, hjoin]
    · next hnot =>
      refine ⟨false, m, rfl, h, Or.inl ⟨rfl, .refl m, fun d' table htable => ?_⟩⟩
      obtain rfl := Option.some.inj htable.1
      obtain ⟨common, classIdentifier, hd⟩ := KssMemory.object_of_children htable.2
      exact absurd hd (hnot _ _ _)

end KsSimpleServer

/-- The names that lead to the domain at a path, which is the root domain if there is only an empty
one. -/
def KsPath.domainNames (dompath : KsPath) : List KsString :=
  if dompath.components.map cString = [[]] then [] else dompath.components.map cString

namespace KssMemory
variable {m m' : KssMemory} {a d : ℕ} {id : KsString} {ids : List KsString} {child : Option ℕ}

/-- The steps to the child of a domain with this name. -/
def StepTo (m : KssMemory) (d : ℕ) (id : KsString) (a : ℕ) (id' : KsString) : Prop :=
  m.container a = some d ∧ cString id' = cString id

theorem SameNames.find_eq (h : m.SameNames m') (ids : List KsString) : m'.find ids = m.find ids := by
  have hedge : m'.edge = m.edge := by
    funext a id
    rw [edge, edge, h.container]
    congr 1
    funext d
    exact h.childOf d id
  rw [find, find, hedge]

theorem Renames.edge_eq (h : m.Renames m' d id child) {id' : KsString}
    (hstep : ¬ m.StepTo d id a id') : m'.edge a id' = m.edge a id' := by
  rw [edge, edge, h.container]
  cases hcontainer : m.container a with
  | none => rfl
  | some b =>
    rw [Option.bind_some, Option.bind_some, h.childOf, if_neg]
    rintro ⟨rfl, hid⟩
    exact hstep ⟨hcontainer, hid⟩

theorem Renames.edge_step (h : m.Renames m' d id child) {id' : KsString}
    (hstep : m.StepTo d id a id') : m'.edge a id' = child := by
  rw [edge, h.container, hstep.1, Option.bind_some, h.childOf, if_pos ⟨rfl, hstep.2⟩]

/-- Names that do not pass the one that changes lead to where they led before. -/
theorem Renames.find_eq (h : m.Renames m' d id child)
    (hnot : ¬ Meets m.edge (m.StepTo d id) 0 ids) : m'.find ids = m.find ids :=
  walk_eq_of_not_meets (fun _ _ hstep => h.edge_eq hstep) hnot

theorem Sound.edge_of_step (h : m.Sound) {id' : KsString} (hstep : m.StepTo d id a id') :
    m.edge a id' = m.childOf d id := by
  rw [edge, hstep.1, Option.bind_some, h.childOf_congr hstep.2]

/-- Names that pass a child that there is not lead nowhere. -/
theorem find_of_meets {changed : ℕ → KsString → Prop} (hmeets : Meets m.edge changed 0 ids)
    (hnone : ∀ a id, changed a id → m.edge a id = none) : m.find ids = none := by
  obtain ⟨before, l, after, b, rfl, hwalk, hchanged⟩ := hmeets
  rw [find, walk_append, hwalk, Option.bind_some, walk, hnone b l hchanged]
  rfl

end KssMemory

namespace KsSimpleServer
variable {m m' : KssMemory} {env : KssEnvironment} {dompath : KsPath} {a d ho : ℕ}
  {id : KsString} {obj : KssObject}

theorem domainAt_eq (h : m.Sound) (env : KssEnvironment) (hp : dompath.Proper) :
    domainAt m env dompath = m.find dompath.domainNames := by
  have hsingle : (dompath.isSingle ∧ cString (dompath.component 0) = []) ↔
      dompath.components.map cString = [[]] := by
    obtain hsize | hmore := hp.2.eq_or_lt
    · rw [KsPath.components_single hp.1 hsize, KsPath.isSingle_iff hp.1 hp.2]
      simp [hsize, KsPath.getHead]
    · rw [KsPath.isSingle_iff hp.1 hp.2]
      have hsize : dompath.size ≠ 1 := by
        simp only [KsPath.size, hp.1, if_true]
        omega
      constructor
      · rintro ⟨heq, -⟩
        exact absurd heq hmore.ne
      · intro heq
        have hlength := congrArg List.length heq
        simp [KsPath.components] at hlength
        exact absurd hlength hsize
  unfold domainAt KsPath.domainNames
  by_cases hroot : dompath.components.map cString = [[]]
  · rw [if_pos (hsingle.mpr hroot), if_pos hroot]
    rfl
  · rw [if_neg fun hcond => hroot (hsingle.mp hcond), if_neg hroot, h.getChildByPath_eq env hp]
    cases m.find (dompath.components.map cString) <;> rfl

/-- An object is added if and only if its domain has room for it and no child of this name. Then the
domain's name with the identifier behind it leads to the object. Whatever a name has led to before
it still does, and new names are only those that pass the new child. -/
theorem addCommObject_names (h : m.Sound) (env : KssEnvironment) (hp : dompath.Proper)
    (hobj : m.objects[ho]? = some obj) :
    ∃ added m', addCommObject m env dompath ho = some (added, m') ∧ m'.Sound ∧
      (added = true ↔ ∃ d children, m.find dompath.domainNames = some d ∧
        m.children d = some children ∧ children.exhausted = false ∧
        m.find (dompath.domainNames ++ [obj.getIdentifier]) = none) ∧
      (added = true → m'.find (dompath.domainNames ++ [obj.getIdentifier]) = some ho) ∧
      (∀ ids a, m.find ids = some a → m'.find ids = some a) ∧
      ∀ ids, m'.find ids ≠ m.find ids → ∃ d, m.find dompath.domainNames = some d ∧
        Meets m.edge (m.StepTo d obj.getIdentifier) 0 ids := by
  have hfind : ∀ d, m.find dompath.domainNames = some d → (m.children d).isSome = true →
      m.find (dompath.domainNames ++ [obj.getIdentifier]) = m.childOf d obj.getIdentifier := by
    intro d hd hchildren
    rw [KssMemory.find, walk_concat, ← KssMemory.find, hd, Option.bind_some, KssMemory.edge,
      KssMemory.container_of_children hchildren, Option.bind_some]
  obtain ⟨added, m', hadd, hsound, hcases⟩ := addCommObject_spec h env dompath hobj
  refine ⟨added, m', hadd, hsound, ?_⟩
  unfold TableAt at hcases
  rw [domainAt_eq h env hp] at hcases
  obtain ⟨rfl, hsame, hnot⟩ | ⟨rfl, d, children, ⟨hd, hchildren⟩, hnone, hroom, hrenames⟩ := hcases
  · refine ⟨⟨fun hadded => absurd hadded (by simp), ?_⟩, fun hadded => absurd hadded (by simp),
      fun ids a hids => by rw [hsame.find_eq, hids],
      fun ids hne => absurd (hsame.find_eq ids) hne⟩
    rintro ⟨d, children, hd, hchildren, hroom, hnone⟩
    rw [hfind d hd (by rw [hchildren]; rfl)] at hnone
    obtain hsome | hfull := hnot d children ⟨hd, hchildren⟩
    · rw [hnone] at hsome
      exact absurd hsome (by simp)
    · exact absurd (hroom.symm.trans hfull) (by simp)
  · have hisSome : (m.children d).isSome = true := by
      rw [hchildren]
      rfl
    have hmeets : ∀ ids, Meets m.edge (m.StepTo d obj.getIdentifier) 0 ids → m.find ids = none :=
      fun ids hids => KssMemory.find_of_meets hids fun a id hstep => by
        rw [h.edge_of_step hstep, hnone]
    refine ⟨⟨fun _ => ⟨d, children, hd, hchildren, hroom, ?_⟩, fun _ => rfl⟩, fun _ => ?_,
      fun ids a hids => ?_, fun ids hne => ⟨d, hd, ?_⟩⟩
    · rw [hfind d hd hisSome, hnone]
    · have hbase : m'.find dompath.domainNames = some d := by
        rw [hrenames.find_eq, hd]
        intro hmeet
        rw [hmeets _ hmeet] at hd
        exact absurd hd (by simp)
      have hstep : m.StepTo d obj.getIdentifier d obj.getIdentifier :=
        ⟨KssMemory.container_of_children hisSome, rfl⟩
      rw [KssMemory.find, walk_concat, ← KssMemory.find, hbase, Option.bind_some,
        hrenames.edge_step hstep]
    · rw [hrenames.find_eq, hids]
      intro hmeet
      rw [hmeets ids hmeet] at hids
      exact absurd hids (by simp)
    · by_contra hmeet
      exact hne (hrenames.find_eq hmeet)

/-- A variable `p` is added to the root domain, whose path is `/`. -/
theorem addCommObject_names_pump :
    ∃ (m m' : KssMemory) (obj : KssObject), m.Sound ∧ m.objects[1]? = some obj ∧
      addCommObject m ⟨⟨0, 0⟩, fun _ => 0⟩ ⟨[47], true, [some 1, none], 0, 0, 0⟩ 1 =
        some (true, m') ∧ m'.find [obj.getIdentifier] = some 1 := by
  obtain ⟨m₀, hcreate⟩ : ∃ m₀, create ⟨⟨0, 0⟩, fun _ => 0⟩ = some m₀ := by
    obtain ⟨children, hchildren, -⟩ := KssMemory.represents_create
    exact ⟨_, by rw [create, hchildren]; rfl⟩
  have hsound := KssMemory.create_sound hcreate
  obtain ⟨⟨ho, m⟩, hmake⟩ : ∃ r, m₀.make (.simpleVariable ⟨[112], ⟨0, 0⟩, [], 0⟩
      (.create ⟨0, 0⟩)) = some r := ⟨_, rfl⟩
  obtain ⟨hsound', -⟩ := hsound.make hmake
  have hadded : ((create ⟨⟨0, 0⟩, fun _ => 0⟩).bind fun m₀ =>
      (m₀.make (.simpleVariable ⟨[112], ⟨0, 0⟩, [], 0⟩ (.create ⟨0, 0⟩))).bind fun r =>
        (addCommObject r.2 ⟨⟨0, 0⟩, fun _ => 0⟩ ⟨[47], true, [some 1, none], 0, 0, 0⟩ 1).map fun s =>
          (s.1, (r.2.objects[1]?).isSome)) = some (true, true) := by decide +kernel
  rw [hcreate, Option.bind_some, hmake, Option.bind_some] at hadded
  obtain ⟨⟨added, m''⟩, hadd, hboth⟩ := Option.map_eq_some_iff.mp hadded
  obtain ⟨rfl, hsome⟩ := Prod.mk.inj hboth
  obtain ⟨obj, hobj⟩ := Option.isSome_iff_exists.mp hsome
  have hproper : (⟨[47], true, [some 1, none], 0, 0, 0⟩ : KsPath).Proper := ⟨rfl, le_refl 0⟩
  obtain ⟨added, m', hadd', -, -, hfind, -⟩ :=
    addCommObject_names hsound' ⟨⟨0, 0⟩, fun _ => 0⟩ hproper hobj
  obtain ⟨rfl, rfl⟩ := Prod.mk.inj (Option.some.inj (hadd.symm.trans hadd'))
  exact ⟨m, m'', obj, hsound', hobj, hadd, hfind rfl⟩

end KsSimpleServer
end AcpltKs
