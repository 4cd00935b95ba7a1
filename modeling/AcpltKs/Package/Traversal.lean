import AcpltKs.Library.Iterators
import AcpltKs.Package.Basic

/-! Iterating over the variables of a package and of the packages in it. The iterator holds another
one for the subpackage it is in, and steps over packages without variables. -/
namespace AcpltKs
open Iterators

/-- The list of the variables of a package, and how many there are. -/
structure KscVariableList where
  vars : List KscVariableHandle
  numVars : ℕ
  counted : numVars = vars.length

namespace KscVariableList

def empty : KscVariableList := ⟨[], 0, rfl⟩

/-- The handle has to be bound to a variable with a valid path, and there must be memory for it. -/
def add (own : KscVariableList) (var : Option KscVariableHandle) (validPath memory : Bool) :
    Bool × KscVariableList :=
  match var with
  | some var =>
      if validPath && memory then
        (true, ⟨own.vars ++ [var], own.numVars + 1, by simp [own.counted]⟩)
      else (false, own)
  | none => (false, own)

/-- The first handle of the variable is taken out. -/
def remove (own : KscVariableList) (var : Option KscVariableHandle) : Bool × KscVariableList :=
  match var with
  | some var =>
      if h : var ∈ own.vars then
        (true, ⟨own.vars.erase var, own.numVars - 1, by
          rw [own.counted, List.length_erase_of_mem h]⟩)
      else (false, own)
  | none => (false, own)

end KscVariableList

/-- A package with the count of its variables, and the packages in it. A package that is in several
others occurs several times. -/
inductive CountedPackage where
  | mk (own : KscVariableList) (pkgs : List CountedPackage)

namespace CountedPackage

def own : CountedPackage → KscVariableList
  | ⟨own, _⟩ => own

def pkgs : CountedPackage → List CountedPackage
  | ⟨_, pkgs⟩ => pkgs

mutual

def sizeVariables : CountedPackage → Bool → ℕ
  | ⟨own, pkgs⟩, deep => if deep then sizeSubpackages pkgs + own.numVars else own.numVars

def sizeSubpackages : List CountedPackage → ℕ
  | [] => 0
  | pkg :: pkgs => sizeVariables pkg true + sizeSubpackages pkgs

end

mutual

/-- The variables of the package, and behind them those of its subpackages. -/
def inOrder : CountedPackage → List KscVariableHandle
  | ⟨own, pkgs⟩ => own.vars ++ inOrderAll pkgs

def inOrderAll : List CountedPackage → List KscVariableHandle
  | [] => []
  | pkg :: pkgs => inOrder pkg ++ inOrderAll pkgs

end
end CountedPackage

/-- The iterators over the two lists of a package are what they have not passed. Without `rek_it`,
no subpackage has been entered. -/
inductive DeepIterator where
  | outer (pkg : CountedPackage) (varsIt : List KscVariableHandle) (pkgsIt : List CountedPackage)
  | inner (pkg : CountedPackage) (varsIt : List KscVariableHandle) (rekIt : DeepIterator)
      (pkgsIt : List CountedPackage)

namespace DeepIterator
open CountedPackage

/-- `operator bool` -/
def isAtVariable : DeepIterator → Bool
  | outer _ varsIt _ => !varsIt.isEmpty
  | inner _ varsIt rekIt _ => !varsIt.isEmpty || isAtVariable rekIt

/-- `operator *` -/
def current : DeepIterator → Option KscVariableHandle
  | outer _ varsIt _ => varsIt.head?
  | inner _ varsIt rekIt _ =>
      match varsIt with
      | var :: _ => some var
      | [] => if isAtVariable rekIt then current rekIt else none

mutual

/-- The constructor, which normalizes. -/
def create : CountedPackage → DeepIterator
  | ⟨own, pkgs⟩ =>
      if own.vars.isEmpty then enter ⟨own, pkgs⟩ none pkgs else outer ⟨own, pkgs⟩ own.vars pkgs

/-- Enter the next subpackage that has variables. -/
def enter (pkg : CountedPackage) : Option DeepIterator → List CountedPackage → DeepIterator
  | none, [] => outer pkg [] []
  | some rekIt, [] => inner pkg [] rekIt []
  | _, sub :: pkgsIt =>
      if isAtVariable (create sub) then inner pkg [] (create sub) pkgsIt
      else enter pkg (some (create sub)) pkgsIt

end

def normalize : DeepIterator → DeepIterator
  | outer pkg varsIt pkgsIt =>
      if varsIt.isEmpty then enter pkg none pkgsIt else outer pkg varsIt pkgsIt
  | inner pkg varsIt rekIt pkgsIt =>
      if varsIt.isEmpty then
        if isAtVariable rekIt then inner pkg varsIt rekIt pkgsIt else enter pkg (some rekIt) pkgsIt
      else inner pkg varsIt rekIt pkgsIt

/-- The prefix `operator ++` -/
def increment : DeepIterator → DeepIterator
  | outer pkg varsIt pkgsIt =>
      if varsIt.tail.isEmpty then enter pkg none pkgsIt else outer pkg varsIt.tail pkgsIt
  | inner pkg varsIt rekIt pkgsIt =>
      if varsIt.tail.isEmpty then
        if isAtVariable rekIt then
          if isAtVariable (increment rekIt) then inner pkg varsIt.tail (increment rekIt) pkgsIt
          else enter pkg (some (increment rekIt)) pkgsIt
        else enter pkg (some rekIt) pkgsIt
      else inner pkg varsIt.tail rekIt pkgsIt

/-- The postfix `operator ++` -/
def postIncrement : DeepIterator → DeepIterator
  | outer pkg varsIt pkgsIt =>
      if !varsIt.isEmpty && !varsIt.tail.isEmpty then outer pkg varsIt.tail pkgsIt
      else enter pkg none pkgsIt
  | inner pkg varsIt rekIt pkgsIt =>
      if !varsIt.isEmpty && !varsIt.tail.isEmpty then inner pkg varsIt.tail rekIt pkgsIt
      else if isAtVariable rekIt then
        if isAtVariable (increment rekIt) then inner pkg varsIt.tail (increment rekIt) pkgsIt
        else enter pkg (some (increment rekIt)) pkgsIt
      else enter pkg (some rekIt) pkgsIt

def pkg : DeepIterator → CountedPackage
  | outer pkg _ _ => pkg
  | inner pkg _ _ _ => pkg

def toStart (it : DeepIterator) : DeepIterator :=
  normalize (outer it.pkg it.pkg.own.vars it.pkg.pkgs)

def cursor : Cursor DeepIterator KscVariableHandle where
  more := isAtVariable
  get := current
  next it := some it.increment

/-- The variables that are left for the iterator. -/
def remaining : DeepIterator → List KscVariableHandle
  | outer _ varsIt pkgsIt => varsIt ++ inOrderAll pkgsIt
  | inner _ varsIt rekIt pkgsIt => varsIt ++ (remaining rekIt ++ inOrderAll pkgsIt)

/-- The iterator is at a variable if there is one left. -/
def Normal : DeepIterator → Prop
  | outer _ varsIt pkgsIt => varsIt = [] → pkgsIt = []
  | inner _ varsIt rekIt pkgsIt =>
      varsIt = [] ∧ Normal rekIt ∧ (isAtVariable rekIt = false → pkgsIt = [])

variable {it : DeepIterator} {var : KscVariableHandle} {l : List KscVariableHandle}

theorem Normal.isAtVariable_iff (h : it.Normal) :
    it.isAtVariable = false ↔ it.remaining = [] := by
  induction it with
  | outer pkg varsIt pkgsIt =>
    rw [isAtVariable, remaining, List.append_eq_nil_iff, Bool.not_eq_false', List.isEmpty_iff]
    exact ⟨fun hvars => ⟨hvars, by rw [h hvars, inOrderAll]⟩, fun hnil => hnil.1⟩
  | inner pkg varsIt rekIt pkgsIt ih =>
    obtain ⟨rfl, hrek, hpkgs⟩ := h
    rw [isAtVariable, remaining, List.isEmpty_nil, Bool.not_true, Bool.false_or, List.nil_append,
      List.append_eq_nil_iff, ← ih hrek]
    exact ⟨fun hat => ⟨hat, by rw [hpkgs hat, inOrderAll]⟩, fun hnil => hnil.1⟩

/-- An iterator over a subpackage that has run out, if one has been there. -/
def Passed (rekIt : Option DeepIterator) : Prop :=
  ∀ it ∈ rekIt, it.Normal ∧ it.isAtVariable = false

mutual

theorem create_left : ∀ pkg, (create pkg).Normal ∧ (create pkg).remaining = inOrder pkg
  | ⟨own, pkgs⟩ => by
    rw [create, inOrder]
    split
    · next hempty =>
      rw [List.isEmpty_iff.mp hempty, List.nil_append]
      exact enter_left pkgs ⟨own, pkgs⟩ none fun _ h => (nomatch h)
    · next hvars =>
      exact ⟨fun hnil => absurd (List.isEmpty_iff.mpr hnil) hvars, rfl⟩

theorem enter_left : ∀ pkgsIt pkg rekIt, Passed rekIt →
    (enter pkg rekIt pkgsIt).Normal ∧ (enter pkg rekIt pkgsIt).remaining = inOrderAll pkgsIt
  | [], pkg, none, _ => by
    rw [enter]
    exact ⟨fun _ => rfl, rfl⟩
  | [], pkg, some rekIt, hpassed => by
    obtain ⟨hnormal, hat⟩ := hpassed rekIt rfl
    rw [enter]
    refine ⟨⟨rfl, hnormal, fun _ => rfl⟩, ?_⟩
    rw [remaining, hnormal.isAtVariable_iff.mp hat]
    rfl
  | sub :: pkgsIt, pkg, rekIt, _ => by
    obtain ⟨hnormal, hleft⟩ := create_left sub
    rw [enter, inOrderAll]
    split
    · next hat =>
      refine ⟨⟨rfl, hnormal, fun hnot => absurd (hnot.symm.trans hat) Bool.false_ne_true⟩, ?_⟩
      rw [remaining, List.nil_append, hleft]
    · next hat =>
      rw [Bool.not_eq_true] at hat
      rw [← hleft, hnormal.isAtVariable_iff.mp hat, List.nil_append]
      refine enter_left pkgsIt pkg (some (create sub)) fun it hit => ?_
      obtain rfl := Option.some.inj hit
      exact ⟨hnormal, hat⟩

end

/-- Where the next subpackage is entered, it is entered from its start. -/
theorem enter_some {rekIt : DeepIterator} {pkgsIt : List CountedPackage} (pkg : CountedPackage)
    (hnormal : rekIt.Normal) (hat : rekIt.isAtVariable = false) :
    (enter pkg (some rekIt) pkgsIt).Normal ∧
      (enter pkg (some rekIt) pkgsIt).remaining = inOrderAll pkgsIt :=
  enter_left pkgsIt pkg (some rekIt) fun it hit => by
    obtain rfl := Option.some.inj hit
    exact ⟨hnormal, hat⟩

/-- A step passes the variable the iterator is at. -/
theorem Normal.increment (h : it.Normal) (hleft : it.remaining = var :: l) :
    it.isAtVariable = true ∧ it.current = some var ∧ it.increment.Normal ∧
      it.increment.remaining = l := by
  induction it generalizing l with
  | outer pkg varsIt pkgsIt =>
    rcases varsIt with _ | ⟨v, varsIt⟩
    · rw [remaining, h rfl] at hleft
      exact absurd hleft (by simp [inOrderAll])
    rw [remaining, List.cons_append] at hleft
    obtain ⟨rfl, rfl⟩ := List.cons.inj hleft
    refine ⟨rfl, rfl, ?_⟩
    rw [DeepIterator.increment, List.tail_cons]
    split
    · next hempty =>
      rw [List.isEmpty_iff.mp hempty, List.nil_append]
      exact enter_left pkgsIt pkg none fun _ hit => (nomatch hit)
    · next hvars =>
      exact ⟨fun hnil => absurd (List.isEmpty_iff.mpr hnil) hvars, rfl⟩
  | inner pkg varsIt rekIt pkgsIt ih =>
    obtain ⟨rfl, hrek, hpkgs⟩ := h
    rw [remaining, List.nil_append] at hleft
    have hat : rekIt.isAtVariable = true := by
      by_contra hnot
      rw [Bool.not_eq_true] at hnot
      rw [hrek.isAtVariable_iff.mp hnot, hpkgs hnot] at hleft
      exact absurd hleft (by simp [inOrderAll])
    obtain ⟨v, rest, hrest⟩ := List.exists_cons_of_ne_nil fun hnil =>
      Bool.false_ne_true ((hrek.isAtVariable_iff.mpr hnil).symm.trans hat)
    rw [hrest, List.cons_append] at hleft
    obtain ⟨rfl, rfl⟩ := List.cons.inj hleft
    obtain ⟨-, hcurrent, hnormal, hremaining⟩ := ih hrek hrest
    rw [isAtVariable, current, DeepIterator.increment, List.tail_nil, hat]
    refine ⟨rfl, by rw [if_pos rfl, hcurrent], ?_⟩
    rw [if_pos List.isEmpty_nil, if_pos rfl]
    split
    · next hmore =>
      refine ⟨⟨rfl, hnormal, fun hnot => absurd (hnot.symm.trans hmore) Bool.false_ne_true⟩, ?_⟩
      rw [remaining, List.nil_append, hremaining]
    · next hmore =>
      rw [Bool.not_eq_true] at hmore
      obtain rfl := hremaining.symm.trans (hnormal.isAtVariable_iff.mp hmore)
      exact enter_some pkg hnormal hmore

theorem create_eq (pkg : CountedPackage) :
    normalize (outer pkg pkg.own.vars pkg.pkgs) = create pkg := by
  cases pkg with
  | mk own pkgs =>
    rw [create]
    rfl

theorem enter_pkg (pkg : CountedPackage) (rekIt : Option DeepIterator)
    (pkgsIt : List CountedPackage) : (enter pkg rekIt pkgsIt).pkg = pkg := by
  induction pkgsIt generalizing rekIt with
  | nil => cases rekIt <;> (rw [enter]; rfl)
  | cons sub pkgsIt ih =>
    rw [enter]
    split
    · rfl
    · exact ih _

theorem increment_pkg (it : DeepIterator) : it.increment.pkg = it.pkg := by
  cases it with
  | outer pkg varsIt pkgsIt =>
    rw [increment]
    split
    · exact enter_pkg ..
    · rfl
  | inner pkg varsIt rekIt pkgsIt =>
    rw [increment]
    split_ifs
    · rfl
    · exact enter_pkg ..
    · exact enter_pkg ..
    · rfl

theorem create_pkg (pkg : CountedPackage) : (create pkg).pkg = pkg := by
  rw [← create_eq, normalize]
  split
  · exact enter_pkg ..
  · rfl

theorem iterate_toStart (pkg : CountedPackage) (n : ℕ) :
    (increment^[n] (create pkg)).toStart = create pkg := by
  have hpkg : (increment^[n] (create pkg)).pkg = pkg := by
    induction n with
    | zero => exact create_pkg pkg
    | succ n ih => rw [Function.iterate_succ_apply', increment_pkg, ih]
  rw [toStart, hpkg, create_eq]

theorem postIncrement_eq (it : DeepIterator) : it.postIncrement = it.increment := by
  cases it with
  | outer pkg varsIt pkgsIt =>
    rw [postIncrement, increment]
    rcases varsIt with _ | ⟨v, _ | ⟨v', varsIt⟩⟩ <;> rfl
  | inner pkg varsIt rekIt pkgsIt =>
    rw [postIncrement, increment]
    rcases varsIt with _ | ⟨v, _ | ⟨v', varsIt⟩⟩ <;> rfl

end DeepIterator

namespace CountedPackage

mutual

theorem sizeVariables_deep : ∀ pkg : CountedPackage, pkg.sizeVariables true = (inOrder pkg).length
  | ⟨own, pkgs⟩ => by
    rw [sizeVariables, if_pos rfl, inOrder, List.length_append, sizeSubpackages_eq pkgs,
      own.counted, Nat.add_comm]

theorem sizeSubpackages_eq : ∀ pkgs, sizeSubpackages pkgs = (inOrderAll pkgs).length
  | [] => rfl
  | pkg :: pkgs => by
    rw [sizeSubpackages, inOrderAll, List.length_append, sizeVariables_deep pkg,
      sizeSubpackages_eq pkgs]

end
end CountedPackage

/-- The iterator visits the variables of a package and then, package by package, those of its
subpackages. Their number is the deep size; both increments do the same, and `toStart` leads back to
the start from everywhere. -/
theorem deepIterator_visits (pkg : CountedPackage) :
    DeepIterator.cursor.Yields (.create pkg) pkg.inOrder ∧
      pkg.sizeVariables true = pkg.inOrder.length ∧
      (∀ it : DeepIterator, it.postIncrement = it.increment) ∧
      ∀ n, (DeepIterator.increment^[n] (.create pkg)).toStart = .create pkg := by
  refine ⟨?_, CountedPackage.sizeVariables_deep pkg, DeepIterator.postIncrement_eq,
    DeepIterator.iterate_toStart pkg⟩
  refine Cursor.yields_of_left (fun it l => it.Normal ∧ it.remaining = l) ?_ ?_
    (DeepIterator.create_left pkg)
  · rintro it ⟨hnormal, hnil⟩
    exact hnormal.isAtVariable_iff.mpr hnil
  · rintro it var l ⟨hnormal, hleft⟩
    obtain ⟨hat, hcurrent, hnormal', hremaining⟩ := hnormal.increment hleft
    exact ⟨hat, hcurrent, _, rfl, hnormal', hremaining⟩

end AcpltKs
