import AcpltKs.Library.BinaryHeap
import AcpltKs.Library.GuardedRun

/-! The priority queue of the timer events: a binary heap in an array that grows as needed. -/
namespace AcpltKs
open BinaryHeap Function GuardedRun

/-- What `new` brings for an array: its cells with whatever they hold, or nothing. -/
abbrev NewArray (α : Type*) := Option (ℕ → α)

/-- The cells behind the first `size` ones hold what has been left there. -/
structure PltPriorityQueue (α : Type*) where
  growsize : ℕ
  capacity : ℕ
  size : ℕ
  elems : ℕ → α

/-- The comparisons of the elements: a total preorder, and an equality that implies equivalence. -/
class PltComparable (α : Type*) [Preorder α] [BEq α] : Prop where
  total : ∀ a b : α, a ≤ b ∨ b ≤ a
  le_of_beq : ∀ a b : α, (a == b) = true → a ≤ b ∧ b ≤ a

namespace PltPriorityQueue

def leftChild (i : ℕ) : ℕ := 2 * i + 1

def rightChild (i : ℕ) : ℕ := 2 * i + 2

/-- The difference is that of a `size_t`, so the root has a parent far away. -/
def parent (i : ℕ) : ℕ := if i = 0 then (2 ^ 64 - 1) / 2 else (i - 1) / 2

section Code
variable {α : Type*} [Preorder α] [DecidableLE α] [DecidableLT α] [BEq α]

def isEmpty (q : PltPriorityQueue α) : Bool := q.size = 0

def peek (q : PltPriorityQueue α) : α := q.elems 0

/-- Move to a larger array. -/
def grow (q : PltPriorityQueue α) (cap : ℕ) : NewArray α → Bool × PltPriorityQueue α
  | none => (false, q)
  | some p => (true, { q with
      capacity := cap
      elems := fun i => if i < q.size then q.elems i else p i })

/-- The constructor; what `undefined` holds is the array while there is none. -/
def create (undefined : ℕ → α) (growsize : ℕ) (memory : NewArray α) : PltPriorityQueue α :=
  (grow ⟨growsize, 0, 0, undefined⟩ growsize memory).2

/-- Look for an element in the part of the tree below `node`. -/
def locateFrom (q : PltPriorityQueue α) (elem : α) : ℕ → ℕ → ℕ
  | 0, _ => q.size
  | fuel + 1, node =>
      if elem == q.elems node then node
      else if leftChild node < q.size then
        let lfound :=
          if elem ≥ q.elems (leftChild node) then q.locateFrom elem fuel (leftChild node)
          else q.size
        if lfound < q.size then lfound
        else if rightChild node < q.size ∧ elem ≥ q.elems (rightChild node) then
          let rfound := q.locateFrom elem fuel (rightChild node)
          if rfound ≠ 0 then rfound else q.size
        else q.size
      else q.size

def locate (q : PltPriorityQueue α) (elem : α) : ℕ := q.locateFrom elem (q.size + 1) 0

/-- Move the hole at `k` down until `v` fits into it. -/
def downheapLoop (size : ℕ) (v : α) : ℕ → (ℕ → α) → ℕ → ℕ → α
  | 0, elems, k => update elems k v
  | fuel + 1, elems, k =>
      if k ≤ parent (size - 1) then
        let lc := leftChild k
        let rc := lc + 1
        let j := if rc < size ∧ elems rc < elems lc then rc else lc
        if elems j ≥ v then update elems k v
        else downheapLoop size v fuel (update elems k (elems j)) j
      else update elems k v

def downheap (q : PltPriorityQueue α) (k : ℕ) (v : α) : PltPriorityQueue α :=
  { q with elems := downheapLoop q.size v q.size q.elems k }

/-- Move the hole at `i` up until `x` fits into it. -/
def upheapLoop (x : α) : ℕ → (ℕ → α) → ℕ → ℕ → α
  | 0, elems, i => update elems i x
  | fuel + 1, elems, i =>
      if i > 0 then
        let j := parent i
        if x < elems j then upheapLoop x fuel (update elems i (elems j)) j
        else update elems i x
      else update elems i x

def add (q : PltPriorityQueue α) (x : α) (memory : NewArray α) : Bool × PltPriorityQueue α :=
  let (ok, q) :=
    if q.size = q.capacity then q.grow (q.capacity + q.growsize) memory else (true, q)
  if ok then
    (true, { q with size := q.size + 1, elems := upheapLoop x q.size q.elems q.size })
  else (false, q)

def removeFirst (q : PltPriorityQueue α) : α × PltPriorityQueue α :=
  let x := q.elems 0
  let q := { q with size := q.size - 1 }
  (x, if q.size > 0 then q.downheap 0 (q.elems q.size) else q)

def remove (q : PltPriorityQueue α) (elem : α) : Bool × PltPriorityQueue α :=
  let loc := q.locate elem
  if loc < q.size then
    let q := { q with size := q.size - 1 }
    (true, if q.size > 0 ∧ loc < q.size then q.downheap loc (q.elems q.size) else q)
  else (false, q)

end Code

/-- The operations on a queue; what `new` is going to bring is known beforehand. -/
inductive Op (α : Type*) where
  | add (x : α) (memory : NewArray α)
  | removeFirst
  | remove (x : α)

/-- What an operation returns; removing the first element of an empty queue is not allowed. -/
inductive Result (α : Type*) where
  | done (ok : Bool)
  | first (x : Option α)

section Runs
variable {α : Type*} [Preorder α] [DecidableLE α] [DecidableLT α] [BEq α]

def perform (q : PltPriorityQueue α) : Op α → Result α × PltPriorityQueue α
  | .add x memory =>
      let (ok, q) := q.add x memory
      (.done ok, q)
  | .removeFirst =>
      if q.isEmpty then (.first none, q)
      else
        let (x, q) := q.removeFirst
        (.first (some x), q)
  | .remove x =>
      let (ok, q) := q.remove x
      (.done ok, q)

def step (q : PltPriorityQueue α) (op : Op α) : PltPriorityQueue α := (q.perform op).2

/-- The elements in the queue. -/
def contents (q : PltPriorityQueue α) : Multiset α := BinaryHeap.contents q.elems q.size

/-- What the operations of a priority queue come to: `held` is in the queue before, and `held'`
afterwards. -/
def Meets (held held' : Multiset α) : Op α → Result α → Prop
  | .add x memory, .done ok =>
      ok = true ∧ held' = x ::ₘ held ∨ ok = false ∧ memory = none ∧ held' = held
  | .removeFirst, .first (some x) => held = x ::ₘ held' ∧ ∀ y ∈ held, x ≤ y
  | .removeFirst, .first none => held = 0 ∧ held' = held
  | .remove x, .done ok =>
      ok = true ∧ (∃ y, (x == y) = true ∧ held = y ::ₘ held') ∨
        ok = false ∧ (∀ y ∈ held, (x == y) = false) ∧ held' = held
  | _, _ => False

/-- A heap, so that there is a minimum of the contents at its root. -/
def Ordered (q : PltPriorityQueue α) : Prop :=
  IsHeap q.elems q.size ∧
    (q.size ≠ 0 → q.peek ∈ q.contents ∧ ∀ y ∈ q.contents, q.peek ≤ y)

/-- From `q` on, the queue is ordered all the time, and all operations come to what they should. -/
def Behaves : PltPriorityQueue α → List (Op α) → Prop
  | q, [] => q.Ordered
  | q, op :: ops =>
      q.Ordered ∧ Meets q.contents (q.step op).contents op (q.perform op).1 ∧
        Behaves (q.step op) ops

/-- The last element, which replaces one removed from the middle, is not smaller than that one's
parent. -/
def KeepsOrder (q : PltPriorityQueue α) : Op α → Prop
  | .remove x => 0 < q.locate x → q.locate x < q.size - 1 →
      ¬ q.elems (q.size - 1) < q.elems (parent (q.locate x))
  | _ => True

end Runs

end PltPriorityQueue
end AcpltKs
