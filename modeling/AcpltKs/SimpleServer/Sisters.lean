import AcpltKs.Library.Iterators
import AcpltKs.Mask.Basic
import AcpltKs.Plt.HashTableMap
import AcpltKs.SimpleServer.Listing

/-! Simple domains: the table of their own children, the chain of their next sisters, and the
iterators that go through both. -/
namespace AcpltKs
open GuardedRun Iterators

/-- An identifier as the key of a hash table. -/
structure KsIdentifier where
  text : KsString

instance : PltKey KsIdentifier where
  beq id id' := decide (cString id.text = cString id'.text)
  hash id := (hashString id.text).toNat

theorem identifier_beq_iff {id id' : KsIdentifier} :
    (id == id') = true ↔ cString id.text = cString id'.text := decide_eq_true_iff

instance : LawfulPltKey KsIdentifier where
  refl _ := identifier_beq_iff.mpr rfl
  symm _ _ h := identifier_beq_iff.mpr (identifier_beq_iff.mp h).symm
  trans _ _ _ h h' :=
    identifier_beq_iff.mpr ((identifier_beq_iff.mp h).trans (identifier_beq_iff.mp h'))
  hash_eq id id' h := by simp only [PltKey.hash, hashString, identifier_beq_iff.mp h]

/-- The own children of a domain. A handle is bound to an object, or to nothing. -/
abbrev KssChildren (Obj : Type*) := PltHashTable KsIdentifier (Option Obj)

namespace KssChildren
variable {Obj : Type*} [KssCommObject Obj]

/-- The table has the default capacity and load limits. -/
def create : Option (KssChildren Obj) := PltHashTable.create 11 (8 / 10) (4 / 10)

def addChild (children : KssChildren Obj) (h : Option Obj) : Option (Bool × KssChildren Obj) :=
  match h with
  | some obj => children.add ⟨KssCommObject.getIdentifier obj⟩ h
  | none => some (false, children)

def removeChild (children : KssChildren Obj) (id : KsString) :
    Option (Option Obj × KssChildren Obj) :=
  (children.remove ⟨id⟩).map fun r => (r.1.join, r.2)

/-- What happens to the children of a domain. -/
inductive Op (Obj : Type*) where
  | addChild (h : Option Obj)
  | removeChild (id : KsString)

def step (children : Option (KssChildren Obj)) (op : Op Obj) : Option (KssChildren Obj) :=
  children.bind fun children =>
    match op with
    | .addChild h => (addChild children h).map Prod.snd
    | .removeChild id => (removeChild children id).map Prod.snd

/-- The children have come in and gone out through the operations. -/
def Made (children : KssChildren Obj) : Prop := ∃ ops, run step create ops = some children

end KssChildren

/-- A domain, with the next sister if there is one. -/
inductive KssSimpleDomain (Obj : Type*) where
  | single (children : KssChildren Obj)
  | sister (children : KssChildren Obj) (nextSister : KssSimpleDomain Obj)

/-- An iterator over a hash table is at a slot of the table. -/
structure PltHashIterator (K V : Type*) where
  container : PltHashTable K V
  index : ℕ

namespace PltHashIterator
variable {K V : Type*}

def create (t : PltHashTable K V) : PltHashIterator K V := ⟨t, t.toStart⟩

def inRange (it : PltHashIterator K V) : Bool := it.index < it.container.capacity

def pCurrent (it : PltHashIterator K V) : Option (K × V) :=
  match it.container.table it.index with
  | .used p => some p
  | _ => none

def advance (it : PltHashIterator K V) : PltHashIterator K V :=
  { it with index := it.container.advance it.index }

def toStart (it : PltHashIterator K V) : PltHashIterator K V :=
  { it with index := it.container.toStart }

end PltHashIterator

/-- The iterator over a domain, with one over the next sister if there is one. -/
inductive KssSimpleDomainIterator (Obj : Type*) where
  | single (childrenIter : PltHashIterator KsIdentifier (Option Obj)) (atSister : Bool)
  | sister (childrenIter : PltHashIterator KsIdentifier (Option Obj))
      (sisterIter : KssSimpleDomainIterator Obj) (atSister : Bool)

namespace KssSimpleDomainIterator
variable {Obj : Type*}

def create : KssSimpleDomain Obj → KssSimpleDomainIterator Obj
  | .single children => .single (.create children) false
  | .sister children nextSister => .sister (.create children) (create nextSister) false

/-- `operator bool` -/
def isAtChild : KssSimpleDomainIterator Obj → Bool
  | .single childrenIter _ => childrenIter.inRange
  | .sister childrenIter sisterIter atSister =>
      if atSister then isAtChild sisterIter else childrenIter.inRange

/-- `operator *` -/
def current : KssSimpleDomainIterator Obj → Option (Option Obj)
  | .single childrenIter _ => childrenIter.pCurrent.map Prod.snd
  | .sister childrenIter sisterIter atSister =>
      if atSister then current sisterIter else childrenIter.pCurrent.map Prod.snd

/-- `operator ++` -/
def increment : KssSimpleDomainIterator Obj → KssSimpleDomainIterator Obj
  | .single childrenIter atSister =>
      .single childrenIter.advance (atSister || !childrenIter.advance.inRange)
  | .sister childrenIter sisterIter atSister =>
      if atSister then .sister childrenIter (increment sisterIter) atSister
      else .sister childrenIter.advance sisterIter (!childrenIter.advance.inRange)

def toStart : KssSimpleDomainIterator Obj → KssSimpleDomainIterator Obj
  | .single childrenIter _ => .single childrenIter.toStart false
  | .sister childrenIter sisterIter _ => .sister childrenIter.toStart (toStart sisterIter) false

def cursor (Obj : Type*) : Cursor (KssSimpleDomainIterator Obj) (Option Obj) where
  more := isAtChild
  get := current
  next it := some it.increment

variable [KssCommObject Obj]

/-- The test of `KssMaskedDomainIterator`; nothing if the matching of the name does not come to an
end in the given number of rounds. -/
def isMatch (nameMask : KsString) (typeMask : KsObjType) (rounds : ℕ) : Option Obj → Option Bool
  | none => some false
  | some obj =>
      if KssCommObject.typeCode obj &&& typeMask ≠ 0 then
        (KsMask.doesMatch nameMask (KssCommObject.getIdentifier obj) rounds).map (· == 1)
      else some false

end KssSimpleDomainIterator

namespace KssSimpleDomain
variable {Obj : Type*} [KssCommObject Obj]

/-- Look among the own children, then among those of the sister. -/
def getChildById : KssSimpleDomain Obj → KsString → Option (Option Obj)
  | .single children, id => (children.query ⟨id⟩).map Option.join
  | .sister children nextSister, id => do
      let found ← children.query ⟨id⟩
      match found with
      | some h => some h
      | none => getChildById nextSister id

/-- The handles of all children, those of the sisters included. -/
def handles : KssSimpleDomain Obj → List (Option Obj)
  | .single children => children.iterate.map Prod.snd
  | .sister children nextSister => children.iterate.map Prod.snd ++ handles nextSister

/-- Handles of objects with different identifiers. -/
def Differ (h h' : Option Obj) : Prop :=
  ∀ obj ∈ h, ∀ obj' ∈ h',
    cString (KssCommObject.getIdentifier obj) ≠ cString (KssCommObject.getIdentifier obj')

/-- The children of every domain of the chain have come in and gone out through its operations. -/
def Made : KssSimpleDomain Obj → Prop
  | .single children => children.Made
  | .sister children nextSister => children.Made ∧ Made nextSister

/-- No identifier occurs in two domains of the chain. -/
def Disjoint : KssSimpleDomain Obj → Prop
  | .single _ => True
  | .sister children nextSister =>
      (∀ h ∈ children.iterate.map Prod.snd, ∀ h' ∈ handles nextSister, Differ h h') ∧
        Disjoint nextSister

/-- What the iterators make of a domain, and what a lookup in it does. -/
structure AgreesOn (d : KssSimpleDomain Obj) (hs : List (Option Obj)) : Prop where
  yields : (KssSimpleDomainIterator.cursor Obj).Yields (.create d) hs
  all : hs.Perm d.handles
  once : hs.Pairwise Differ
  found : ∀ id, (∃ obj, some obj ∈ hs ∧
      cString (KssCommObject.getIdentifier obj) = cString id) ↔
    ∃ obj, d.getChildById id = some (some obj)
  masked : ∀ nameMask typeMask rounds,
    (∀ h ∈ hs, (KssSimpleDomainIterator.isMatch nameMask typeMask rounds h).isSome) →
      ∃ bound, ∀ fuel ≥ bound, ∃ it, (KssSimpleDomainIterator.cursor Obj).skip
          (KssSimpleDomainIterator.isMatch nameMask typeMask rounds) fuel (.create d) = some it ∧
        ((KssSimpleDomainIterator.cursor Obj).filtered
          (KssSimpleDomainIterator.isMatch nameMask typeMask rounds) fuel).Yields it
            (hs.filter fun h =>
              KssSimpleDomainIterator.isMatch nameMask typeMask rounds h == some true)

/-- Iterating and looking up agree, and the iterator visits every child once. -/
def Agrees (d : KssSimpleDomain Obj) : Prop := ∃ hs, d.AgreesOn hs

/-- There are no children at all. -/
def Childless : KssSimpleDomain Obj → Prop
  | .single children => children.size = 0
  | .sister children nextSister => children.size = 0 ∧ Childless nextSister

/-- Behind a domain without own children there are no children. -/
def Gapless : KssSimpleDomain Obj → Prop
  | .single _ => True
  | .sister children nextSister => (children.size = 0 → Childless nextSister) ∧ Gapless nextSister

end KssSimpleDomain

namespace PltHashIterator
variable {K V : Type*} {it : PltHashIterator K V} {p : K × V} {l : List (K × V)}

/-- These associations are left for the iterator, which is at the first of them. -/
def Left (it : PltHashIterator K V) (l : List (K × V)) : Prop :=
  it.container.assocsFrom it.index = l ∧
    (it.inRange = true → PltHashTable.usedSlot (it.container.table it.index) = true)

theorem left_create (t : PltHashTable K V) : (create t).Left t.iterate := by
  rw [PltHashTable.iterate_eq, Left, create]
  dsimp only [inRange]
  rw [PltHashTable.toStart]
  split
  · next h =>
    obtain ⟨hrest, -, hused⟩ := PltHashTable.advanceLoop_spec (t := t) t.capacity
      (show t.capacity ≤ 0 + 1 + t.capacity by omega)
    have hstart := PltHashTable.assocsFrom_step h.1
    rw [PltHashTable.usedSlot_eq_false.mp h.2] at hstart
    exact ⟨hrest.trans hstart.symm, fun hlt => hused (of_decide_eq_true hlt)⟩
  · next h =>
    exact ⟨rfl, fun hlt => by simpa [of_decide_eq_true hlt] using h⟩

/-- An iterator that is at an association has it before it. -/
theorem Left.inRange (h : it.Left l) (hrange : it.inRange = true) :
    ∃ p l', l = p :: l' ∧ it.pCurrent = some p ∧ it.advance.Left l' := by
  obtain ⟨hleft, hused⟩ := h
  have hlt : it.index < it.container.capacity := of_decide_eq_true hrange
  have hfuel : it.container.capacity ≤ it.index + 1 + it.container.capacity := by omega
  obtain ⟨hrest, -, hused'⟩ := PltHashTable.advanceLoop_spec it.container.capacity hfuel
  have hslot := hused hrange
  rw [PltHashTable.assocsFrom_step hlt] at hleft
  cases hs : it.container.table it.index with
  | empty | deleted => simp [hs, PltHashTable.usedSlot] at hslot
  | used p =>
    rw [PltHashTable.assocAt_eq_some.mpr hs] at hleft
    exact ⟨p, _, hleft.symm, by rw [pCurrent, hs], hrest, fun hr => hused' (of_decide_eq_true hr)⟩

theorem Left.done (h : it.Left []) : it.inRange = false := by
  rw [← Bool.not_eq_true]
  intro hrange
  obtain ⟨p, l', hl, -, -⟩ := h.inRange hrange
  exact absurd hl (by simp)

theorem Left.step (h : it.Left (p :: l)) :
    it.inRange = true ∧ it.pCurrent = some p ∧ it.advance.Left l := by
  have hrange : it.inRange = true := by
    by_contra hrange
    have hend : it.container.capacity ≤ it.index := by
      simpa [PltHashIterator.inRange] using hrange
    exact absurd (h.1.symm.trans (PltHashTable.assocsFrom_end hend)) (by simp)
  obtain ⟨p', l', hl, hcurrent, hadvance⟩ := h.inRange hrange
  obtain ⟨rfl, rfl⟩ := List.cons.inj hl
  exact ⟨hrange, hcurrent, hadvance⟩

theorem Left.isEmpty (h : it.Left l) : it.inRange = !l.isEmpty := by
  cases l with
  | nil => exact h.done
  | cons p l => exact h.step.1

end PltHashIterator

namespace KssSimpleDomainIterator
variable {Obj : Type*} {it : KssSimpleDomainIterator Obj} {h : Option Obj} {l : List (Option Obj)}

/-- These handles are left for the iterator: an iterator that does not get to an own child will not
get to a sister. -/
def Left : KssSimpleDomainIterator Obj → List (Option Obj) → Prop
  | single childrenIter _, l => ∃ own, childrenIter.Left own ∧ l = own.map Prod.snd
  | sister childrenIter sisterIter atSister, l =>
      if atSister then Left sisterIter l
      else ∃ own rest, childrenIter.Left own ∧ Left sisterIter rest ∧
        l = if own = [] then [] else own.map Prod.snd ++ rest

theorem Left.done (hleft : it.Left []) : it.isAtChild = false := by
  induction it with
  | single childrenIter atSister =>
    obtain ⟨own, hown, hmap⟩ := hleft
    obtain rfl := List.map_eq_nil_iff.mp hmap.symm
    exact hown.done
  | sister childrenIter sisterIter atSister ih =>
    rw [Left] at hleft
    rw [isAtChild]
    split_ifs at hleft ⊢
    · exact ih hleft
    · obtain ⟨own, rest, hown, -, hempty⟩ := hleft
      split_ifs at hempty with hnil
      · exact (hnil ▸ hown).done
      · exact absurd (List.append_eq_nil_iff.mp hempty.symm).1 (by simpa using hnil)

theorem Left.step (hleft : it.Left (h :: l)) :
    it.isAtChild = true ∧ it.current = some h ∧ it.increment.Left l := by
  induction it generalizing l with
  | single childrenIter atSister =>
    obtain ⟨own, hown, hmap⟩ := hleft
    obtain ⟨p, own, rfl, rfl, rfl⟩ := List.map_eq_cons_iff.mp hmap.symm
    obtain ⟨hrange, hcurrent, hadvance⟩ := hown.step
    exact ⟨hrange, by rw [current, hcurrent, Option.map_some], own, hadvance, rfl⟩
  | sister childrenIter sisterIter atSister ih =>
    rw [Left] at hleft
    rw [isAtChild, current, increment]
    split_ifs at hleft ⊢ with hat
    · obtain ⟨hchild, hcurrent, hrest⟩ := ih hleft
      exact ⟨hchild, hcurrent, by rwa [Left, if_pos hat]⟩
    · obtain ⟨own, rest, hown, hsister, hsplit⟩ := hleft
      rcases own with _ | ⟨p, own⟩
      · exact absurd hsplit (by simp)
      rw [if_neg (List.cons_ne_nil p own), List.map_cons, List.cons_append] at hsplit
      obtain ⟨rfl, rfl⟩ := List.cons.inj hsplit
      obtain ⟨hrange, hcurrent, hadvance⟩ := hown.step
      refine ⟨hrange, by rw [hcurrent, Option.map_some], ?_⟩
      rw [Left, hadvance.isEmpty]
      rcases own with _ | ⟨q, own⟩
      · exact hsister
      · exact ⟨q :: own, rest, hadvance, hsister, by simp⟩

/-- What the iterator over a domain visits. -/
def visited : KssSimpleDomain Obj → List (Option Obj)
  | .single children => children.iterate.map Prod.snd
  | .sister children nextSister =>
      if children.iterate = [] then [] else children.iterate.map Prod.snd ++ visited nextSister

theorem left_create (d : KssSimpleDomain Obj) : (create d).Left (visited d) := by
  induction d with
  | single children => exact ⟨children.iterate, PltHashIterator.left_create children, rfl⟩
  | sister children nextSister ih =>
    exact ⟨children.iterate, visited nextSister, PltHashIterator.left_create children, ih, rfl⟩

theorem yields_visited (d : KssSimpleDomain Obj) : (cursor Obj).Yields (create d) (visited d) :=
  Cursor.yields_of_left Left (fun _ hleft => hleft.done)
    (fun _ _ _ hleft => ⟨hleft.step.1, hleft.step.2.1, _, rfl, hleft.step.2.2⟩) (left_create d)

end KssSimpleDomainIterator

namespace KssChildren
variable {Obj : Type*} [KssCommObject Obj] {children : KssChildren Obj}

/-- The table is sound, and the keys are the identifiers of the objects. -/
def Stocked (children : KssChildren Obj) : Prop :=
  ∃ m, children.Represents m ∧ ∀ key h, m key = some h →
    ∃ obj, h = some obj ∧ cString (KssCommObject.getIdentifier obj) = cString key.text

theorem Stocked.step (hstocked : children.Stocked) (op : Op Obj) :
    ∃ children', step (some children) op = some children' ∧ children'.Stocked := by
  obtain ⟨m, hrep, hm⟩ := hstocked
  cases op with
  | addChild h =>
    cases h with
    | none => exact ⟨children, rfl, m, hrep, hm⟩
    | some obj =>
      obtain ⟨t', hadd, hrep'⟩ := hrep.add ⟨KssCommObject.getIdentifier obj⟩ (some obj)
      refine ⟨t', by simp only [KssChildren.step, Option.bind_some, addChild, hadd,
        Option.map_some], _, hrep', fun key h hkey => ?_⟩
      split at hkey
      · exact hm key h hkey
      · rw [PltHashTable.setKey] at hkey
        split at hkey
        · next heq =>
          exact ⟨obj, (Option.some.inj hkey).symm, identifier_beq_iff.mp heq⟩
        · exact hm key h hkey
  | removeChild id =>
    obtain ⟨t', hperform, hrep'⟩ := hrep.perform (.remove ⟨id⟩) (by intro _ hop; cases hop)
    obtain ⟨r, hremove, heq⟩ := Option.map_eq_some_iff.mp hperform
    obtain ⟨-, rfl⟩ := Prod.mk.inj heq
    refine ⟨r.2, by simp only [KssChildren.step, Option.bind_some, removeChild, hremove,
      Option.map_some], _, hrep', fun key h hkey => ?_⟩
    simp only [PltHashTable.Op.onMap, PltHashTable.eraseKey] at hkey
    split at hkey
    · exact absurd hkey (by simp)
    · exact hm key h hkey

theorem Made.stocked (hmade : children.Made) : children.Stocked := by
  obtain ⟨ops, hops⟩ := hmade
  have hcreate : ∃ c : KssChildren Obj, create = some c ∧ c.Stocked := by
    obtain ⟨c, hcreate, hsound, -⟩ := PltHashTable.create_spec (K := KsIdentifier)
      (V := Option Obj) 11 (show (0 : ℚ) < 4 / 10 by norm_num)
      (show (4 / 10 : ℚ) < 8 / 10 by norm_num) (by norm_num)
    obtain ⟨hsound, hentries, -, hmedwater⟩ := hsound (by norm_num)
    refine ⟨c, hcreate, fun _ => none, ⟨hsound, by rw [hmedwater]; norm_num, fun key value => ?_⟩,
      fun _ _ hkey => (nomatch hkey)⟩
    simp [hentries]
  have hstep : ∀ (s : Option (KssChildren Obj)) (op : Op Obj), (∃ c, s = some c ∧ Stocked c) →
      True → ∃ c, step s op = some c ∧ Stocked c := by
    rintro s op ⟨c, rfl, hstocked⟩ -
    exact hstocked.step op
  have halong : Along step (fun _ _ => True) create ops :=
    Along.of_forall (fun _ => True) fun _ _ => trivial
  obtain ⟨c, hc, hstocked⟩ := run_invariant
    (I := fun s : Option (KssChildren Obj) => ∃ c, s = some c ∧ Stocked c) hstep hcreate halong
  obtain rfl := Option.some.inj (hops.symm.trans hc)
  exact hstocked

/-- What the iterator over the own children and a lookup among them have to do with each other. -/
theorem Stocked.spec (hstocked : children.Stocked) :
    (∀ h ∈ children.iterate.map Prod.snd, ∃ obj, h = some obj) ∧
      (children.iterate.map Prod.snd).Pairwise KssSimpleDomain.Differ ∧
      (children.size = 0 ↔ children.iterate = []) ∧
      ∀ id, ∃ found, children.query ⟨id⟩ = some found ∧ found ≠ some none ∧
        ∀ obj, found = some (some obj) ↔ some obj ∈ children.iterate.map Prod.snd ∧
          cString (KssCommObject.getIdentifier obj) = cString id := by
  obtain ⟨m, hrep, hm⟩ := hstocked
  have hiter := hrep.maps.iterates hrep.sound.valid
  have hkey : ∀ p ∈ children.iterate, m p.1 = some p.2 := fun p hp =>
    (hiter.complete p.1 p.2).mpr ⟨p, hp, LawfulPltKey.refl p.1, rfl⟩
  refine ⟨fun h hh => ?_, ?_, ?_, fun id => ?_⟩
  · obtain ⟨p, hp, rfl⟩ := List.mem_map.mp hh
    obtain ⟨obj, hobj, -⟩ := hm p.1 p.2 (hkey p hp)
    exact ⟨obj, hobj⟩
  · rw [List.pairwise_map]
    refine hiter.distinct.imp_of_mem fun {p q} hp hq hne obj hobj obj' hobj' heq => ?_
    obtain ⟨o, ho, hident⟩ := hm p.1 p.2 (hkey p hp)
    obtain ⟨o', ho', hident'⟩ := hm q.1 q.2 (hkey q hq)
    obtain rfl := Option.some.inj (ho.symm.trans hobj)
    obtain rfl := Option.some.inj (ho'.symm.trans hobj')
    rw [identifier_beq_iff.mpr (hident.symm.trans (heq.trans hident'))] at hne
    exact absurd hne (by simp)
  · rw [hrep.sound.valid.size_eq, Multiset.card_eq_zero, ← PltHashTable.coe_iterate,
      Multiset.coe_eq_zero]
  · obtain ⟨t', hperform, -⟩ := hrep.perform (.query ⟨id⟩) fun _ hop => nomatch hop
    obtain ⟨found, hfound, heq⟩ := Option.map_eq_some_iff.mp hperform
    simp only [PltHashTable.Op.onMap, Prod.mk.injEq, PltHashTable.Result.value.injEq] at heq
    obtain ⟨rfl, -⟩ := heq
    refine ⟨m ⟨id⟩, hfound, fun hnone => ?_, fun obj => ⟨fun hobj => ?_, ?_⟩⟩
    · obtain ⟨obj, hobj, -⟩ := hm ⟨id⟩ none hnone
      exact absurd hobj (by simp)
    · obtain ⟨p, hp, -, hvalue⟩ := (hiter.complete ⟨id⟩ (some obj)).mp hobj
      obtain ⟨o, ho, hident⟩ := hm ⟨id⟩ (some obj) hobj
      obtain rfl := Option.some.inj ho
      exact ⟨List.mem_map.mpr ⟨p, hp, hvalue⟩, hident⟩
    · rintro ⟨hobj, hident⟩
      obtain ⟨p, hp, hvalue⟩ := List.mem_map.mp hobj
      obtain ⟨o, ho, hident'⟩ := hm p.1 p.2 (hkey p hp)
      obtain rfl := Option.some.inj (ho.symm.trans hvalue)
      exact (hiter.complete ⟨id⟩ (some o)).mpr
        ⟨p, hp, identifier_beq_iff.mpr (hident'.symm.trans hident), hvalue⟩

end KssChildren

namespace KssSimpleDomain
variable {Obj : Type*} [KssCommObject Obj] {d : KssSimpleDomain Obj}

/-- A lookup finds the children of the domain and of its sisters. -/
theorem getChildById_iff (hmade : d.Made) (id : KsString) :
    (∃ obj, some obj ∈ d.handles ∧ cString (KssCommObject.getIdentifier obj) = cString id) ↔
      ∃ obj, d.getChildById id = some (some obj) := by
  induction d with
  | single children =>
    obtain ⟨found, hquery, -, hfound⟩ := (KssChildren.Made.stocked hmade).spec.2.2.2 id
    simp only [handles, getChildById, hquery, Option.map_some, Option.some.injEq,
      Option.join_eq_some_iff, hfound]
  | sister children nextSister ih =>
    obtain ⟨found, hquery, hbound, hfound⟩ := (KssChildren.Made.stocked hmade.1).spec.2.2.2 id
    simp only [handles, getChildById, hquery, Option.bind_eq_bind, Option.bind_some,
      List.mem_append, or_and_right, exists_or, ih hmade.2, ← hfound]
    rcases found with _ | ⟨_ | obj⟩
    · simp
    · exact absurd rfl hbound
    · simp

/-- All children have different identifiers. -/
theorem handles_differ (hmade : d.Made) (hdisjoint : d.Disjoint) : d.handles.Pairwise Differ := by
  induction d with
  | single children => exact (KssChildren.Made.stocked hmade).spec.2.1
  | sister children nextSister ih =>
    rw [handles, List.pairwise_append]
    exact ⟨(KssChildren.Made.stocked hmade.1).spec.2.1, ih hmade.2 hdisjoint.2, hdisjoint.1⟩

theorem childless_iff (hmade : d.Made) : d.Childless ↔ d.handles = [] := by
  induction d with
  | single children =>
    rw [Childless, handles, (KssChildren.Made.stocked hmade).spec.2.2.1, List.map_eq_nil_iff]
  | sister children nextSister ih =>
    rw [Childless, handles, (KssChildren.Made.stocked hmade.1).spec.2.2.1, List.append_eq_nil_iff,
      List.map_eq_nil_iff, ih hmade.2]

/-- The iterator visits all children exactly if no domain without children stands in the way. -/
theorem visited_length (hmade : d.Made) :
    (KssSimpleDomainIterator.visited d).length ≤ d.handles.length ∧
      ((KssSimpleDomainIterator.visited d).length = d.handles.length → d.Gapless) ∧
      (d.Gapless → KssSimpleDomainIterator.visited d = d.handles) := by
  induction d with
  | single children => exact ⟨le_refl _, fun _ => trivial, fun _ => rfl⟩
  | sister children nextSister ih =>
    obtain ⟨hle, hlength, hvisited⟩ := ih hmade.2
    have hsize := (KssChildren.Made.stocked hmade.1).spec.2.2.1
    rw [KssSimpleDomainIterator.visited, handles, Gapless, hsize, childless_iff hmade.2]
    split
    · next hempty =>
      rw [hempty, List.map_nil, List.nil_append, List.length_nil]
      refine ⟨Nat.zero_le _, fun hzero => ?_, fun hgap => (hgap.1 rfl).symm⟩
      have hnil := List.length_eq_zero_iff.mp hzero.symm
      refine ⟨fun _ => hnil, hlength ?_⟩
      rw [hnil, List.length_nil] at hle ⊢
      omega
    · next hne =>
      rw [List.length_append, List.length_append]
      exact ⟨by omega, fun heq => ⟨fun h => absurd h hne, hlength (by omega)⟩,
        fun hgap => by rw [hvisited hgap.2]⟩

theorem agreesOn_visited (hmade : d.Made) (hdisjoint : d.Disjoint) (hgap : d.Gapless) :
    d.AgreesOn d.handles := by
  have hyields := KssSimpleDomainIterator.yields_visited d
  rw [(visited_length hmade).2.2 hgap] at hyields
  refine ⟨hyields, .refl _, handles_differ hmade hdisjoint, getChildById_iff hmade,
    fun nameMask typeMask rounds hreturns => ⟨d.handles.length + 1, fun fuel hfuel => ?_⟩⟩
  refine hyields.skip (fun h hh => ?_) (by omega) (by omega)
  obtain ⟨b, hb⟩ := Option.isSome_iff_exists.mp (hreturns h hh)
  cases b <;> simp [hb]

end KssSimpleDomain

/-- Iterating over a simple domain and looking up in it agree exactly if no domain without own
children stands before one that has some. -/
theorem simpleDomain_agrees_iff {Obj : Type*} [KssCommObject Obj] {d : KssSimpleDomain Obj}
    (hmade : d.Made) (hdisjoint : d.Disjoint) : d.Agrees ↔ d.Gapless := by
  constructor
  · rintro ⟨hs, hagrees⟩
    obtain rfl := hagrees.yields.unique (KssSimpleDomainIterator.yields_visited d)
    exact (KssSimpleDomain.visited_length hmade).2.1 hagrees.all.length_eq
  · exact fun hgap => ⟨d.handles, KssSimpleDomain.agreesOn_visited hmade hdisjoint hgap⟩

section Plant
open KsSimpleServer (Plant)

deriving instance DecidableEq for Plant

/-- The tables of domains with one child. -/
theorem made_plant (obj : Plant) :
    ∃ children, KssChildren.Made children ∧ children.iterate.map Prod.snd = [some obj] := by
  have hrun : ((run KssChildren.step KssChildren.create [.addChild (some obj)]).map fun children =>
      children.iterate.map Prod.snd) = some [some obj] := by
    cases obj <;> decide +kernel
  obtain ⟨children, hchildren, hiterate⟩ := Option.map_eq_some_iff.mp hrun
  exact ⟨children, ⟨_, hchildren⟩, hiterate⟩

/-- A domain with one child, whose sister has another one. -/
theorem simpleDomain_agrees_twoChildren :
    ∃ d : KssSimpleDomain Plant, d.handles = [some .root, some .pump] ∧
      (d.Agrees ↔ d.Gapless) := by
  obtain ⟨children, hmade, hiterate⟩ := made_plant .root
  obtain ⟨children', hmade', hiterate'⟩ := made_plant .pump
  refine ⟨.sister children (.single children'), ?_,
    simpleDomain_agrees_iff ⟨hmade, hmade'⟩ ⟨?_, trivial⟩⟩
  · simp only [KssSimpleDomain.handles, hiterate, hiterate', List.singleton_append]
  · rw [KssSimpleDomain.handles, hiterate, hiterate']
    simp only [List.mem_singleton, forall_eq]
    rintro obj hobj obj' hobj'
    obtain rfl := Option.some.inj hobj
    obtain rfl := Option.some.inj hobj'
    decide

/-- The domain itself has no children, so those of its sister are not visited. -/
theorem not_agrees_noOwnChildren :
    ∃ d : KssSimpleDomain Plant, d.Made ∧ d.Disjoint ∧ d.handles = [some .pump] ∧ ¬ d.Agrees := by
  obtain ⟨children, hmade, hiterate⟩ : ∃ children : KssChildren Plant,
      KssChildren.Made children ∧ children.iterate = [] := by
    have hcreate : (KssChildren.create : Option (KssChildren Plant)).map (fun children =>
        children.iterate.isEmpty) = some true := by decide +kernel
    obtain ⟨children, hchildren, hempty⟩ := Option.map_eq_some_iff.mp hcreate
    exact ⟨children, ⟨[], hchildren⟩, List.isEmpty_iff.mp hempty⟩
  obtain ⟨children', hmade', hiterate'⟩ := made_plant .pump
  have hhandles : (KssSimpleDomain.sister children (.single children')).handles = [some .pump] := by
    simp only [KssSimpleDomain.handles, hiterate, hiterate', List.map_nil, List.nil_append]
  refine ⟨.sister children (.single children'), ⟨hmade, hmade'⟩, ⟨?_, trivial⟩, hhandles, ?_⟩
  · rw [hiterate]
    exact fun h hh => (nomatch hh)
  · rintro ⟨hs, hagrees⟩
    have hvisited := KssSimpleDomainIterator.yields_visited (.sister children (.single children'))
    rw [KssSimpleDomainIterator.visited, if_pos hiterate] at hvisited
    obtain rfl := hagrees.yields.unique hvisited
    have hlength := hagrees.all.length_eq
    rw [hhandles] at hlength
    exact absurd hlength (by decide)

end Plant
end AcpltKs
