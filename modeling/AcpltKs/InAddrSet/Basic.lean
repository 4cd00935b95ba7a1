import AcpltKs.Library.GuardedRun
import AcpltKs.Library.MemoryBlocks
import Mathlib.Algebra.Order.Ring.Int

/-! Sets of internet addresses: items kept in an array that grows as needed, and the two kinds of
sets that are built on them. -/
namespace AcpltKs
open MemoryBlocks

/-- `KsInAddrSet_base::Item` -/
structure InAddrItem where
  addr : UInt32
  mask : UInt32
  incl : Bool

def InAddrItem.matches (x : InAddrItem) (addr : UInt32) : Bool := addr &&& x.mask == x.addr

/-- `KsInAddrSet_base`, with the memory its array is in; the pointer to the array is null where
there is none. -/
structure KsInAddrSetBase where
  memory : Memory InAddrItem
  items : Option ℕ
  itemsAllocated : Int32
  itemsUsed : Int32

namespace KsInAddrSetBase

/-- `sizeof(Item)` -/
def itemSize : ℕ := 12

/-- The product is a `size_t`. -/
def arraySize (count : Int32) : ℕ := (itemSize * count.toInt % 2 ^ 64).toNat

/-- No block is larger than a `ptrdiff_t` can tell. -/
def sizeLimit : ℕ := 2 ^ 63 - 1

def create (memory : Memory InAddrItem) : KsInAddrSetBase := ⟨memory, none, 0, 0⟩

/-- The next free entry is filled in; it has to be one of the array. -/
def fillIn (s : KsInAddrSetBase) (x : InAddrItem) : Option (Bool × KsInAddrSetBase) :=
  s.items.bind fun p => s.itemsUsed.toInt.toNat?.bind fun i =>
    (s.memory.store p i x).map fun memory =>
      (true, { s with memory := memory, itemsUsed := s.itemsUsed + 1 })

/-- `addItem`, where memory is `granted` or not when some is asked for; it has no outcome where
memory is used that is not the set's. -/
def addItem (s : KsInAddrSetBase) (addr mask : UInt32) (incl granted : Bool) :
    Option (Bool × KsInAddrSetBase) :=
  if addr &&& ~~~mask ≠ 0 then some (false, s)
  else if s.itemsUsed ≥ s.itemsAllocated then
    let newItemsCount := if s.itemsAllocated = 0 then 1 else s.itemsAllocated * 2
    let size := arraySize newItemsCount
    (s.memory.realloc s.items (size / itemSize) (granted && size ≤ sizeLimit)).bind fun r =>
      match r with
      | (none, _) => some (false, s)
      | (some newItems, memory) =>
          { s with memory, items := some newItems, itemsAllocated := newItemsCount }.fillIn
            ⟨addr, mask, incl⟩
  else s.fillIn ⟨addr, mask, incl⟩

/-- The pointer stays what it is. -/
def removeAll (s : KsInAddrSetBase) : Option KsInAddrSetBase :=
  match s.items with
  | none => some s
  | some p => (s.memory.free p).map fun memory =>
      { s with memory := memory, itemsUsed := 0, itemsAllocated := 0 }

/-- The destructor, with the memory it leaves -/
def destroy (s : KsInAddrSetBase) : Option (Memory InAddrItem) := s.removeAll.map (·.memory)

/-- The loop of `isMember` over the `n` items from `idx` on -/
def isMemberFrom (s : KsInAddrSetBase) (addr : UInt32) : ℕ → ℕ → Option Bool
  | 0, _ => some false
  | n + 1, idx =>
      (s.items.bind fun p => s.memory.load p idx).bind fun x =>
        if x.matches addr then some x.incl else s.isMemberFrom addr n (idx + 1)

def isMember (s : KsInAddrSetBase) (addr : UInt32) : Option Bool :=
  s.isMemberFrom addr s.itemsUsed.toInt.toNat 0

end KsInAddrSetBase

/-- A call, with whether memory is granted if it asks for some -/
inductive InAddrCall
  | addItem (addr mask : UInt32) (incl granted : Bool)
  | removeAll

/-- A set, and the items that were added since it was emptied last. -/
structure InAddrRun where
  set : KsInAddrSetBase
  added : List InAddrItem

namespace InAddrRun

def create (memory : Memory InAddrItem) : InAddrRun := ⟨.create memory, []⟩

def perform (r : InAddrRun) : InAddrCall → Option InAddrRun
  | .addItem addr mask incl granted =>
      (r.set.addItem addr mask incl granted).map fun a =>
        ⟨a.2, if a.1 then r.added ++ [⟨addr, mask, incl⟩] else r.added⟩
  | .removeAll => r.set.removeAll.map fun s => ⟨s, []⟩

/-- There is nothing left to say once a call had no outcome. -/
def step (r : Option InAddrRun) (c : InAddrCall) : Option InAddrRun := r.bind (·.perform c)

end InAddrRun

structure KsSimpleInAddrSet where
  base : KsInAddrSetBase
  defaultIsAccept : Bool

namespace KsSimpleInAddrSet

def create (memory : Memory InAddrItem) (defaultIsAccept : Bool) : KsSimpleInAddrSet :=
  ⟨.create memory, defaultIsAccept⟩

def accept (s : KsSimpleInAddrSet) (addr mask : UInt32) (granted : Bool) :
    Option (Bool × KsSimpleInAddrSet) :=
  (s.base.addItem addr mask true granted).map fun a => (a.1, { s with base := a.2 })

def reject (s : KsSimpleInAddrSet) (addr mask : UInt32) (granted : Bool) :
    Option (Bool × KsSimpleInAddrSet) :=
  (s.base.addItem addr mask false granted).map fun a => (a.1, { s with base := a.2 })

def isMember (s : KsSimpleInAddrSet) (addr : UInt32) : Option Bool :=
  (s.base.isMember addr).map fun found => if found then true else s.defaultIsAccept

end KsSimpleInAddrSet

namespace KsHostInAddrSet

/-- The loop over the active interfaces with their addresses; it is left where one cannot be
added. -/
def addLocalAddresses (s : KsInAddrSetBase) : List (UInt32 × Bool) → Option KsInAddrSetBase
  | [] => some s
  | (addr, granted) :: interfaces =>
      (s.addItem addr 0xFFFFFFFF true granted).bind fun a =>
        if a.1 then addLocalAddresses a.2 interfaces else some a.2

/-- The interfaces may remain unknown. -/
def findLocalAddresses (s : KsInAddrSetBase) :
    Option (List (UInt32 × Bool)) → Option (Bool × KsInAddrSetBase)
  | none => some (false, s)
  | some interfaces => (addLocalAddresses s interfaces).map (true, ·)

def create (memory : Memory InAddrItem) (interfaces : Option (List (UInt32 × Bool))) :
    Option KsInAddrSetBase :=
  (findLocalAddresses (.create memory) interfaces).map (·.2)

def update (s : KsInAddrSetBase) (interfaces : Option (List (UInt32 × Bool))) :
    Option (Bool × KsInAddrSetBase) :=
  s.removeAll.bind fun s => findLocalAddresses s interfaces

end KsHostInAddrSet
end AcpltKs
