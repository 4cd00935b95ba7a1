import AcpltKs.Conversions

/-! Paths of communication objects: the path string is parsed once, and the indices at which its
components begin are kept. -/
namespace AcpltKs

@[match_pattern] abbrev slashChar : UInt8 := 47
@[match_pattern] abbrev dotChar : UInt8 := 46

/-- The entry of `_slash` behind the last component may be `PLT_SIZE_T_MAX`, here `none`. Of an
invalid path only the string and the flag matter. -/
structure KsPath where
  str : KsString
  valid : Bool
  slash : List (Option ℕ)
  first : ℕ
  last : ℕ
  goUp : ℕ
  deriving DecidableEq

/-- Skip the points in front of a relative path and count how often they go up; nothing if one of
them is not followed by a slash. The flag tells whether the last character was a slash. -/
def skipPoints : KsString → Bool → ℕ → Option (KsString × Bool × ℕ)
  | dotChar :: dotChar :: slashChar :: p, _, goUp => skipPoints p true (goUp + 1)
  | dotChar :: dotChar :: _, _, _ => none
  | dotChar :: slashChar :: p, _, goUp => skipPoints p true goUp
  | dotChar :: _, _, _ => none
  | p, wasSlash, goUp => some (p, wasSlash, goUp)

/-- Count the slashes; nothing if there are two in a row. -/
def countSlashes : KsString → Bool → Option ℕ
  | [], _ => some 0
  | c :: p, wasSlash =>
      if c = slashChar then
        if wasSlash then none else (countSlashes p true).map (· + 1)
      else countSlashes p false

/-- How far the path goes up and how many slashes there are behind its beginning, if it is well
formed. -/
def checkAndCount (str : KsString) : Option (ℕ × ℕ) :=
  match cString str with
  | [] => none
  | c :: p =>
      if c = slashChar then (countSlashes p true).map fun slashes => (0, slashes)
      else do
        let (p, wasSlash, goUp) ← skipPoints (c :: p) false 1
        let slashes ← countSlashes p wasSlash
        some (goUp, slashes)

/-- The index behind the slashes and dots at the beginning. -/
def skipSlashesAndDots (str : KsString) : ℕ :=
  (str.takeWhile fun c => c == slashChar || c == dotChar).length

/-- The indices behind the next `n` slashes; nothing if the search leaves the memory. The characters
are those from index `si` on. -/
def nextSlashes : List UInt8 → ℕ → ℕ → Option (List ℕ)
  | _, _, 0 => some []
  | [], _, _ + 1 => none
  | c :: s, si, n + 1 =>
      if c = slashChar then (nextSlashes s (si + 1) n).map ((si + 1) :: ·)
      else nextSlashes s (si + 1) (n + 1)

namespace KsPath

/-- Parse the path string; `size` is that of `_slash`. Nothing if a character behind the null
character at the end would be looked at. -/
def findSlashes (str : KsString) (goUp size : ℕ) : Option KsPath := do
  let si := skipSlashesAndDots str
  let slashes ← nextSlashes ((cString str ++ [0]).drop si) si (size - 2)
  some { str, valid := true, slash := (si :: slashes).map some ++ [none], first := 0
         last := slashes.length, goUp }

def invalid (str : KsString) : KsPath := ⟨str, false, [], 0, 0, 0⟩

/-- Construct a path from a string. -/
def ofString (str : KsString) : Option KsPath :=
  match checkAndCount str with
  | none => some (invalid str)
  | some (goUp, slashes) => findSlashes str goUp (slashes + 2)

/-- An entry that exists. -/
def slashAt (p : KsPath) (i : ℕ) : Option ℕ := p.slash.getD i none

def size (p : KsPath) : ℕ := if p.valid then p.last - p.first + 1 else 0

def isAbsolute (p : KsPath) : Bool := p.goUp = 0

/-- What the string holds from one entry of `_slash` to another one, less `n` characters. -/
def slice (p : KsPath) (i j n : ℕ) : KsString :=
  match p.slashAt i with
  | none => []
  | some start => substr p.str start ((p.slashAt j).map fun stop => stop - start - n)

/-- `operator[]` -/
def component (p : KsPath) (i : ℕ) : KsString := p.slice (p.first + i) (p.first + i + 1) 1

/-- All components. -/
def components (p : KsPath) : List KsString := (List.range p.size).map p.component

/-- The constructor that appends a relative path to what it does not climb out of. -/
def append (abs rel : KsPath) : Option KsPath :=
  findSlashes (concat (substr abs.str 0 (abs.slashAt (abs.last + 1 - rel.goUp)))
      (rel.slice rel.first (rel.last + 1) 0))
    0 (abs.size - rel.goUp + rel.size + 1)

/-- Resolve a path in the context of another one. -/
def resolve (context rel : KsPath) : Option KsPath :=
  if rel.isAbsolute then some rel
  else if rel.goUp ≤ context.size then context.append rel
  else ofString [slashChar, slashChar]

/-- Each percent sign between the last slash and an entry moves the entry by two. The last entry is
the end of the path. -/
def moveSlashes (str : KsString) : ℕ → ℕ → List (Option ℕ) → List (Option ℕ)
  | count, slashIndex, some next :: entry :: slash =>
      let count := count + ((str.drop slashIndex).take (next - slashIndex)).count percentChar
      some (next - 2 * count) :: moveSlashes str count next (entry :: slash)
  | _, _, slash => slash

/-- An error leaves the path as it is. -/
def decodePercents (p : KsPath) : KsResultCode × KsPath :=
  match ksStringFromPercent p.str with
  | .error res => (res, p)
  | .ok str =>
      (.ok, { p with
        slash := p.slash.take 1 ++ moveSlashes p.str 0 ((p.slashAt 0).getD 0) p.slash.tail
        str })

/-- Parse a path and resolve it in the context of the path before it. -/
def resolveNext (context : KsPath) (id : KsString) : Option (KsPath × KsResultCode) := do
  let path ← ofString id
  if path.valid then
    if context.valid then do
      let path ← context.resolve path
      some (path, if path.valid then .ok else .badPath)
    else some (path, if path.isAbsolute then .ok else .badPath)
  else some (path, .badPath)

/-- Whatever comes of a path, it is the context of the next one. -/
def resolveEach : KsPath → List KsString → Option (List (KsPath × KsResultCode))
  | _, [] => some []
  | context, id :: ids => do
      let (path, res) ← resolveNext context id
      let rest ← resolveEach path ids
      some ((path, res) :: rest)

/-- Decode a path that has been resolved. -/
def decodeResolved : KsPath × KsResultCode → KsPath × KsResultCode
  | (path, res) =>
      if res = KsResultCode.ok then (path.decodePercents.2, path.decodePercents.1) else (path, res)

def resolvePaths (ids : List KsString) : Option (List (KsPath × KsResultCode)) := do
  let context ← ofString [slashChar, slashChar]
  let paths ← resolveEach context ids
  some (paths.map decodeResolved)

/-- The first component. -/
def getHead (p : KsPath) : KsString := p.component 0

/-- The path without its first component. -/
def getTail (p : KsPath) : KsPath := { p with first := p.first + 1, goUp := 1 }

/-- `operator PltString` -/
def toPltString (p : KsPath) : KsString :=
  concat (if p.isAbsolute then [slashChar]
      else (List.replicate (p.goUp - 1) [dotChar, dotChar, slashChar]).flatten)
    (p.slice p.first (p.last + 1) 0)

end KsPath

end AcpltKs
