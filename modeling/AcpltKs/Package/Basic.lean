import AcpltKs.Path.Client
import AcpltKs.Plt.HashTable
import AcpltKs.Service.Params

/-! Variables of servers as a client knows them, packages of them, and the sorter that breaks an
update of a package down into requests to single servers. -/
namespace AcpltKs

/-- A negotiator for access, known by its address. -/
structure KscAvModule where
  address : ℕ
  deriving DecidableEq

/-- A server object of the client, known by its address. -/
structure KscServerBase where
  address : ℕ
  deriving DecidableEq

/-- The current properties of a variable. -/
structure KsVarCurrProps where
  value : Option KsValue
  time : PltTime
  state : UInt32
  deriving DecidableEq

/-- A variable object. A package only takes it if its path is valid, and then it has a server. -/
structure KscVariable where
  pathAndName : KscPath
  server : KscServerBase
  avModule : Option KscAvModule
  currProps : KsVarCurrProps
  dirty : Bool
  lastResult : KsResultCode

/-- What a handle of a variable object is bound to: its place in the memory of the client. -/
abbrev KscVariableHandle := ℕ

structure KscClient where
  avModule : Option KscAvModule
  serverAvModule : KscServerBase → Option KscAvModule
  vars : KscVariableHandle → KscVariable

/-- A package, and the packages in it. -/
inductive KscPackage where
  | mk (avModule : Option KscAvModule) (vars : List KscVariableHandle) (pkgs : List KscPackage)

def KscPackage.avModule : KscPackage → Option KscAvModule
  | ⟨avModule, _, _⟩ => avModule

def KscPackage.setAvModule : KscPackage → Option KscAvModule → KscPackage
  | ⟨_, vars, pkgs⟩, avModule => ⟨avModule, vars, pkgs⟩

/-- The variables of one server that are accessed by the same module. -/
structure KscSorterBucket where
  avModule : Option KscAvModule
  server : KscServerBase
  vars : List KscVariableHandle
  varCount : ℕ
  deriving DecidableEq

namespace KscSorterBucket

def create (avModule : Option KscAvModule) (server : KscServerBase) : KscSorterBucket :=
  ⟨avModule, server, [], 0⟩

def add (bucket : KscSorterBucket) (var : KscVariableHandle) : KscSorterBucket :=
  { bucket with vars := var :: bucket.vars, varCount := bucket.varCount + 1 }

end KscSorterBucket

/-- What the variables of a bucket have in common. -/
@[ext]
structure KscSorter.Key where
  avModule : Option KscAvModule
  server : KscServerBase
  deriving DecidableEq

instance : PltKey KscSorter.Key where
  beq k₁ k₂ := decide (k₁.server = k₂.server) && decide (k₁.avModule = k₂.avModule)
  hash k := (k.avModule.elim 0 (·.address) + k.server.address) % 2 ^ 64

/-- The sorter: the table finds the handles of the buckets, which are in the memory. -/
structure KscSorter where
  valid : Bool
  dirtyOnly : Bool
  table : PltHashTable KscSorter.Key ℕ
  memory : List KscSorterBucket

namespace KscSorter

def findAvModule (client : KscClient) (var : KscVariableHandle)
    (avmPackage : Option KscAvModule) : Option KscAvModule :=
  match (client.vars var).avModule with
  | some avm => some avm
  | none =>
      match avmPackage with
      | some avm => some avm
      | none =>
          match client.serverAvModule (client.vars var).server with
          | some avm => some avm
          | none => client.avModule

/-- Put a variable into the bucket of this handle. -/
def addTo (s : KscSorter) (bucket : ℕ) (var : KscVariableHandle) : KscSorter :=
  { s with memory := s.memory.modify bucket (·.add var) }

/-- The loop body of `sortVariables`; nothing if a search in the table does not end. -/
def sortVariable (client : KscClient) (avmDefault : Option KscAvModule) (s : KscSorter)
    (current : KscVariableHandle) : Option (Bool × KscSorter) :=
  if ¬ s.dirtyOnly ∨ (client.vars current).dirty then
    let key : Key := ⟨findAvModule client current avmDefault, (client.vars current).server⟩
    match s.table.query key with
    | none => none
    | some (some bucket) => some (true, s.addTo bucket current)
    | some none =>
        let bucket := s.memory.length
        let memory := s.memory ++ [.create key.avModule key.server]
        match s.table.add key bucket with
        | none => none
        | some (false, table) => some (false, { s with table, memory })
        | some (true, table) => some (true, { s with table, memory }.addTo bucket current)
  else some (true, s)

/-- The variables of a package itself. -/
def sortEach (client : KscClient) (avmDefault : Option KscAvModule) :
    List KscVariableHandle → KscSorter → Option (Bool × KscSorter)
  | [], s => some (true, s)
  | var :: vars, s =>
      match sortVariable client avmDefault s var with
      | some (true, s) => sortEach client avmDefault vars s
      | r => r

mutual

def sortVariables (client : KscClient) :
    KscPackage → Option KscAvModule → KscSorter → Option (Bool × KscSorter)
  | ⟨avModule, vars, pkgs⟩, avmDefault, s =>
      let avmDefault := if avModule.isSome then avModule else avmDefault
      match sortEach client avmDefault vars s with
      | some (true, s) => sortSubpackages client pkgs avmDefault s
      | r => r

def sortSubpackages (client : KscClient) :
    List KscPackage → Option KscAvModule → KscSorter → Option (Bool × KscSorter)
  | [], _, s => some (true, s)
  | pkg :: pkgs, avmDefault, s =>
      match sortVariables client pkg avmDefault s with
      | some (true, s) => sortSubpackages client pkgs avmDefault s
      | r => r

end

/-- The constructor. -/
def create (client : KscClient) (pkg : KscPackage) (dirtyOnly : Bool)
    (avmDefault : Option KscAvModule) : Option KscSorter := do
  let table ← PltHashTable.create 11 (8 / 10) (4 / 10)
  let (valid, s) ← sortVariables client pkg avmDefault ⟨false, dirtyOnly, table, []⟩
  some { s with valid }

def isEmpty (s : KscSorter) : Bool := s.table.size = 0

/-- The buckets that an iterator yields, with their keys. -/
def buckets (s : KscSorter) : List (Key × KscSorterBucket) :=
  s.table.iterate.filterMap fun p => s.memory[p.2]?.map (p.1, ·)

/-- Take a bucket out; it is unbound if there is none, and nothing if a search does not end. -/
def removeFirst (s : KscSorter) : Option (Option KscSorterBucket × KscSorter) :=
  match s.table.iterate with
  | [] => some (none, s)
  | (key, bucket) :: _ =>
      (s.table.remove key).map fun r =>
        (s.memory[r.1.getD bucket]?, { s with table := r.2 })

/-- Take the bucket for the same server and the same module out. -/
def removeMatchingBucket (s : KscSorter) (bucket : KscSorterBucket) :
    Option (Option KscSorterBucket × KscSorter) :=
  (s.table.remove ⟨bucket.avModule, bucket.server⟩).map fun r =>
    (r.1.bind (s.memory[·]?), { s with table := r.2 })

end KscSorter

/-- A request to a server, with the variables in the order of the bucket. -/
structure KscExchange where
  avModule : Option KscAvModule
  server : KscServerBase
  getVars : List KscVariableHandle
  setVars : List KscVariableHandle
  deriving DecidableEq

/-- The array of the variables of a bucket, before it is sorted by their paths; nothing if it has
been made for another number of them. -/
def KscSorterBucket.getSortedVars (bucket : KscSorterBucket) : Option (List KscVariableHandle) :=
  if bucket.vars.length = bucket.varCount then some bucket.vars else none

namespace KscExchangePackage

def varsOf : Option KscSorterBucket → Option (List KscVariableHandle)
  | none => some []
  | some bucket => bucket.getSortedVars

/-- The requests of `doSimpleExchange`: one, unless there is no bucket at all. -/
def doSimpleExchange (getBucket setBucket : Option KscSorterBucket) : Option (List KscExchange) := do
  let getVars ← varsOf getBucket
  let setVars ← varsOf setBucket
  match setBucket.or getBucket with
  | none => some []
  | some bucket => some [⟨bucket.avModule, bucket.server, getVars, setVars⟩]

/-- The loop that empties the second sorter; nothing if it takes more rounds. -/
def mergeRest : ℕ → KscSorter → Option (List KscExchange)
  | 0, setSorter => if setSorter.isEmpty then some [] else none
  | rounds + 1, setSorter =>
      if setSorter.isEmpty then some []
      else do
        let (currSet, setSorter) ← setSorter.removeFirst
        let exchange ← doSimpleExchange none currSet
        let exchanges ← mergeRest rounds setSorter
        some (exchange ++ exchanges)

/-- The loop that empties the first sorter, and then the other one. -/
def mergeLoop : ℕ → KscSorter → KscSorter → Option (List KscExchange)
  | 0, getSorter, setSorter =>
      if getSorter.isEmpty then mergeRest setSorter.table.size setSorter else none
  | rounds + 1, getSorter, setSorter =>
      if getSorter.isEmpty then mergeRest setSorter.table.size setSorter
      else do
        let (currGet, getSorter) ← getSorter.removeFirst
        -- an unbound handle would be dereferenced
        let bucket ← currGet
        let (currSet, setSorter) ← setSorter.removeMatchingBucket bucket
        let exchange ← doSimpleExchange currGet currSet
        let exchanges ← mergeLoop rounds getSorter setSorter
        some (exchange ++ exchanges)

/-- The requests that `mergeSorters` comes to. Whether one of them succeeds has no influence on the
others. -/
def mergeSorters (getSorter setSorter : KscSorter) : Option (List KscExchange) :=
  mergeLoop getSorter.table.size getSorter setSorter

end KscExchangePackage
end AcpltKs
