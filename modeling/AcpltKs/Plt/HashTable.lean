import AcpltKs.Library.GuardedRun
import AcpltKs.Library.OpenAddressing

/-! The hash table. Collisions are resolved by open addressing, removed associations leave a mark
behind, and the table is rehashed when it grows or shrinks. -/
namespace AcpltKs
open Function OpenAddressing

/-- What a type of keys provides. -/
class PltKey (K : Type*) extends BEq K where
  hash : K → ℕ

/-- What the hash table asks of it: the equality is one, and equal keys have the same hash. -/
class LawfulPltKey (K : Type*) [PltKey K] : Prop where
  refl : ∀ k : K, (k == k) = true
  symm : ∀ k l : K, (k == l) = true → (l == k) = true
  trans : ∀ k l m : K, (k == l) = true → (l == m) = true → (k == m) = true
  hash_eq : ∀ k l : K, (k == l) = true → PltKey.hash k = PltKey.hash l

/-- The slots hold associations of a key and a value. The load limits are exact. -/
structure PltHashTable (K V : Type*) where
  table : ℕ → Slot (K × V)
  capacity : ℕ
  minCapacity : ℕ
  lowwater : ℚ
  highwater : ℚ
  medwater : ℚ
  used : ℕ
  deleted : ℕ

/-- The hash table must have prime size. -/
def primes : List ℕ := [
  7, 11, 13, 17, 19, 23, 29,
  31, 41, 47, 59, 67, 79, 97, 127, 137, 167, 197, 239, 293, 347, 419,
  499, 593, 709, 853, 1021, 1229, 1471, 1777, 2129, 2539, 3049, 3659,
  4391, 5273, 6323, 7583, 9103, 10937, 13109, 15727, 18899, 22651,
  27179, 32609, 39133, 46957, 56359, 67619, 81157, 97369, 116849,
  140221, 168253, 201907, 242309, 290761, 348889, 418667, 502409,
  602887, 723467, 868151, 1041779, 1250141, 1500181, 1800191, 2160233,
  2592277, 3110741, 3732887, 4479463, 5375371, 6450413, 7740517,
  9288589, 11146307, 13375573, 16050689, 19260817, 23112977, 27735583,
  33282701, 39939233, 47927081, 57512503, 69014987, 82818011, 99381577,
  119257883, 143109469, 171731387, 206077643, 247293161, 296751781,
  356102141, 427322587, 512787097, 615344489, 738413383, 886096061,
  1063315271, 1275978331, 1531174013, 1837408799]

namespace PltHashTable
variable {K V : Type*}

/-- The number of associations. -/
def size (t : PltHashTable K V) : ℕ := t.used - t.deleted

/-- A few steps of quadratic probe followed by linear steps. -/
def collidx (t : PltHashTable K V) (i j : ℕ) : ℕ :=
  (if j < 12 then i + j else i + 1) % t.capacity

/-- Enough rounds for the probe loops: if they have not ended by then, they never will. -/
def rounds (t : PltHashTable K V) : ℕ := t.capacity + 6

section Keys
variable [PltKey K]

/-- The loop of `locate`, from slot `i` on; nothing if it takes more rounds. -/
def locateLoop (t : PltHashTable K V) (key : K) : ℕ → ℕ → ℕ → Option ℕ
  | 0, _, _ => none
  | fuel + 1, i, j =>
      match t.table i with
      | .empty => some t.capacity
      | .deleted => t.locateLoop key fuel (t.collidx i j) (j + 2)
      | .used (k, _) =>
          if k == key then some i else t.locateLoop key fuel (t.collidx i j) (j + 2)

/-- The index of a key, or the capacity if there is none; nothing if the loop does not end, or if
there is no table and `collidx` divides by zero. -/
def locate (t : PltHashTable K V) (key : K) : Option ℕ :=
  if t.capacity = 0 then none
  else t.locateLoop key t.rounds (t.collidx (PltKey.hash key) 0) 1

/-- The loop of `insert`: is there a duplicate, where did it end, and where was the last mark of a
deleted association? -/
def insertLoop (t : PltHashTable K V) (key : K) : ℕ → ℕ → ℕ → ℕ → Option (Bool × ℕ × ℕ)
  | 0, _, _, _ => none
  | fuel + 1, i, j, deleted =>
      match t.table i with
      | .empty => some (false, i, deleted)
      | .deleted => t.insertLoop key fuel (t.collidx i j) (j + 2) i
      | .used (k, _) =>
          if k == key then some (true, i, deleted)
          else t.insertLoop key fuel (t.collidx i j) (j + 2) deleted

/-- Insert without size checking. -/
def insert (t : PltHashTable K V) (p : K × V) : Option (Bool × PltHashTable K V) :=
  if t.capacity = 0 then none
  else
    match t.insertLoop p.1 t.rounds (t.collidx (PltKey.hash p.1) 0) 1 t.capacity with
    | none => none
    | some (true, _, _) => some (false, t)
    | some (false, i, deleted) =>
        if deleted < t.capacity then
          some (true, { t with
            table := Function.update t.table deleted (.used p), deleted := t.deleted - 1 })
        else
          some (true, { t with
            table := Function.update t.table i (.used p), used := t.used + 1 })

/-- Insert the associations of an old table, from the slots given. -/
def reinsert (oldTable : ℕ → Slot (K × V)) : List ℕ → PltHashTable K V → Option (PltHashTable K V)
  | [], t => some t
  | i :: is, t =>
      match oldTable i with
      | .used p =>
          match t.insert p with
          | none => none
          | some (_, t) => reinsert oldTable is t
      | _ => reinsert oldTable is t

/-- The smallest prime size that is large enough. -/
def primeFor (minCap : ℕ) : Option ℕ := primes.find? fun p => ¬ p < minCap

/-- Growing and shrinking. -/
def changeCapacity (t : PltHashTable K V) (cap : ℕ) : Option (Bool × PltHashTable K V) :=
  let minCap := if cap < t.minCapacity then t.minCapacity else cap
  match primeFor minCap with
  | none => some (false, t)
  | some newCap =>
      if newCap = t.capacity then some (true, t)
      else
        (reinsert t.table (List.range t.capacity) { t with
          table := fun _ => .empty, used := 0, deleted := 0, capacity := newCap }).map (true, ·)

/-- What the constructor starts from. -/
def blank (mincap : ℕ) (highwater lowwater : ℚ) : PltHashTable K V where
  table := fun _ => .empty
  capacity := 0
  minCapacity := mincap
  lowwater
  highwater
  medwater := (highwater + lowwater) / 2
  used := 0
  deleted := 0

/-- The constructor. -/
def create (mincap : ℕ) (highwater lowwater : ℚ) : Option (PltHashTable K V) :=
  ((blank mincap highwater lowwater).changeCapacity mincap).map Prod.snd

/-- No table, and a new minimum capacity. -/
def clear (t : PltHashTable K V) (mincap : ℕ) : PltHashTable K V :=
  { t with table := fun _ => .empty, capacity := 0, minCapacity := mincap, used := 0, deleted := 0 }

def reset (t : PltHashTable K V) (mincap : ℕ) : Option (Bool × PltHashTable K V) :=
  (t.clear mincap).changeCapacity mincap

/-- Grow if needed and insert. -/
def add (t : PltHashTable K V) (key : K) (value : V) : Option (Bool × PltHashTable K V) :=
  let minCap := t.used + 1 + 1
  if t.capacity < minCap ∨ ((t.size + 1 : ℕ) : ℚ) > t.capacity * t.highwater then
    let tmp := ⌊(t.size : ℚ) / t.medwater⌋₊
    let prefCap := if tmp < minCap then minCap else tmp
    match t.changeCapacity prefCap with
    | none => none
    | some (false, t) => some (false, t)
    | some (true, t) => t.insert (key, value)
  else t.insert (key, value)

/-- The association of a key. -/
def lookupAssoc (t : PltHashTable K V) (key : K) : Option (Option (ℕ × K × V)) :=
  (t.locate key).map fun i =>
    if i < t.capacity then
      match t.table i with
      | .used p => some (i, p)
      | _ => none
    else none

/-- The value of a key, if there is one. -/
def query (t : PltHashTable K V) (key : K) : Option (Option V) :=
  (t.lookupAssoc key).map fun assoc => assoc.map fun p => p.2.2

/-- Take an association out, and shrink the table if there are few left. -/
def remove (t : PltHashTable K V) (key : K) : Option (Option V × PltHashTable K V) :=
  match t.lookupAssoc key with
  | none => none
  | some none => some (none, t)
  | some (some (i, _, value)) =>
      let t := { t with table := Function.update t.table i .deleted, deleted := t.deleted + 1 }
      if (t.size : ℚ) < t.capacity * t.lowwater then
        (t.changeCapacity ⌊(t.size : ℚ) / t.medwater⌋₊).map fun r => (some value, r.2)
      else some (some value, t)

/-- Give a key a new value; the result also has the old one if there was one. -/
def update (t : PltHashTable K V) (key : K) (newValue : V) :
    Option (Bool × Option V × PltHashTable K V) :=
  match t.lookupAssoc key with
  | none => none
  | some (some (i, k, oldValue)) =>
      some (true, some oldValue,
        { t with table := Function.update t.table i (.used (k, newValue)) })
  | some none => (t.add key newValue).map fun r => (r.1, none, r.2)

end Keys

def usedSlot : Slot (K × V) → Bool
  | .used _ => true
  | _ => false

/-- The loop of `advance`: the next index with an association from `i` on, or the capacity. -/
def advanceLoop (t : PltHashTable K V) : ℕ → ℕ → ℕ
  | 0, i => i
  | fuel + 1, i =>
      if i < t.capacity ∧ usedSlot (t.table i) = false then t.advanceLoop fuel (i + 1) else i

/-- Where an iterator at index `i` goes. -/
def advance (t : PltHashTable K V) (i : ℕ) : ℕ := t.advanceLoop t.capacity (i + 1)

/-- Where an iterator starts. -/
def toStart (t : PltHashTable K V) : ℕ :=
  if 0 < t.capacity ∧ usedSlot (t.table 0) = false then t.advance 0 else 0

/-- What an iterator yields from index `i` to the end. -/
def iterateFrom (t : PltHashTable K V) : ℕ → ℕ → List (K × V)
  | 0, _ => []
  | fuel + 1, i =>
      if i < t.capacity then
        match t.table i with
        | .used p => p :: t.iterateFrom fuel (t.advance i)
        | _ => t.iterateFrom fuel (t.advance i)
      else []

def iterate (t : PltHashTable K V) : List (K × V) := t.iterateFrom t.capacity t.toStart

inductive Op (K V : Type*) where
  | add (key : K) (value : V)
  | remove (key : K)
  | query (key : K)
  | update (key : K) (value : V)
  | reset (mincap : ℕ)

inductive Result (V : Type*) where
  | done (ok : Bool)
  | value (value : Option V)
  | updated (ok : Bool) (oldValue : Option V)

/-- What an operation returns and leaves behind. -/
def perform [PltKey K] (t : PltHashTable K V) : Op K V → Option (Result V × PltHashTable K V)
  | .add key value => (t.add key value).map fun r => (.done r.1, r.2)
  | .remove key => (t.remove key).map fun r => (.value r.1, r.2)
  | .query key => (t.query key).map fun r => (.value r, t)
  | .update key value => (t.update key value).map fun r => (.updated r.1 r.2.1, r.2.2)
  | .reset mincap => (t.reset mincap).map fun r => (.done r.1, r.2)

/-- A step from a table, if there is still one. -/
def step [PltKey K] (t : Option (PltHashTable K V)) (op : Op K V) : Option (PltHashTable K V) :=
  t.bind fun t => (t.perform op).map Prod.snd

end PltHashTable
end AcpltKs
