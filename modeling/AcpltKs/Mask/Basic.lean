import AcpltKs.Plt.String

/-! Matching names against masks with jokers, sets and escapes, as the code does it: a loop over the
mask that starts again behind every joker. -/
namespace AcpltKs

def isdigit (c : UInt8) : Bool := 48 ≤ c && c ≤ 57
def isupper (c : UInt8) : Bool := 65 ≤ c && c ≤ 90
def islower (c : UInt8) : Bool := 97 ≤ c && c ≤ 122

abbrev starChar : UInt8 := 42
abbrev questionChar : UInt8 := 63
abbrev openChar : UInt8 := 91
abbrev escapeChar : UInt8 := 92
abbrev closeChar : UInt8 := 93
abbrev caretChar : UInt8 := 94
abbrev dashChar : UInt8 := 45

namespace KsMask

/-- What one candidate of a joker comes to: it is settled, or the loop is entered again. -/
inductive Attempt where
  | settled (r : ℤ)
  | goOn (n m : ℕ)
  deriving DecidableEq

/-- What one turn of the loop comes to: `n` is the index in the name and `m` that in the mask. -/
inductive Turn where
  | done (r : ℤ)
  | goOn (n m : ℕ)
  | attempts (as : List Attempt)
  deriving DecidableEq

/-- Does the range from `lo` to `hi` contain `c`? Nothing if the two do not make a range. -/
def rangeContains (lo hi c : UInt8) : Option Bool :=
  if (isdigit lo && isdigit hi) || (isupper lo && isupper hi) || (islower lo && islower hi) then
    some (lo ≤ c && c ≤ hi)
  else if isupper lo && islower hi then some ((lo ≤ c && c ≤ 90) || (97 ≤ c && c ≤ hi))
  else if islower lo && isupper hi then some ((lo ≤ c && c ≤ 122) || (65 ≤ c && c ≤ hi))
  else none

/-- Does the set whose items begin at `start` contain `c`, and where does it end? Nothing if it is
malformed. -/
def setContains (mask : KsString) (start : ℕ) (c : UInt8) : Option (Bool × ℕ) :=
  if start + 4 ≤ mask.length ∧ charAt mask (start + 1) = dashChar then
    if charAt mask (start + 3) = closeChar then
      (rangeContains (charAt mask start) (charAt mask (start + 2)) c).map (·, start + 4)
    else none
  else
    let items := (mask.drop start).takeWhile (· ≠ closeChar)
    if start + items.length < mask.length then
      some (items.contains c, start + items.length + 1)
    else none

variable (mask name : KsString)

/-- A set, which begins at `m`: the result, and the two indices behind it. A character outside of a
complement is accepted where it is. -/
def set (n m : ℕ) : ℤ × ℕ × ℕ :=
  if mask.length ≤ m + 2 then (-(m + 1), n, m)
  else if charAt mask (m + 1) ≠ caretChar then
    match setContains mask (m + 1) (charAt name n) with
    | none => (-(m + 1), n, m)
    | some (true, next) => (1, n + 1, next)
    | some (false, _) => (0, n, m)
  else
    match setContains mask (m + 2) (charAt name n) with
    | none => (-(m + 1), n, m)
    | some (true, next) => (0, n + 1, next)
    | some (false, _) => (1, n, m)

/-- Skip the jokers behind `m`; the characters are those of the mask from there on. Nothing if the
name is too short. -/
def skipJokers (k : ℕ) : KsString → ℕ → ℕ → Option (ℕ × ℕ)
  | [], n, m => some (n, m)
  | c :: rest, n, m =>
      if c = questionChar then if n < k then skipJokers k rest (n + 1) (m + 1) else none
      else if c = starChar then skipJokers k rest n (m + 1)
      else some (n, m)

/-- The estimate of how many characters the rest of a mask stands for at least. -/
def restLength : UInt8 → Bool → KsString → ℕ
  | _, _, [] => 0
  | prev, inSet, c :: rest =>
      if c = openChar ∧ prev ≠ escapeChar then restLength c true rest
      else if c = closeChar ∧ prev ≠ escapeChar then restLength c false rest + 1
      else if inSet = false ∧ c ≠ escapeChar ∧ (c ≠ starChar ∨ prev = escapeChar) then
        restLength c inSet rest + 1
      else restLength c inSet rest

/-- The indices from `k - lRest` down to `n`. -/
def candidates (k lRest n : ℕ) : List ℕ := (List.range' n (k + 1 - lRest - n)).reverse

/-- What becomes of the character at `i`, if the mask goes on with a literal or a set at `m`. -/
def attempt (m i : ℕ) : Attempt :=
  if charAt mask m ≠ openChar then
    if charAt mask m = charAt name i then .goOn (i + 1) (m + 1) else .settled 0
  else
    match set mask name i m with
    | (r, h1, h2) => if r = 1 then .goOn h1 h2 else if r < 0 then .settled r else .settled 0

def joker (n m : ℕ) : Turn :=
  let k := name.length
  match skipJokers k (mask.drop (m + 1)) n m with
  | none => .done 0
  | some (n, m) =>
      if n = k ∧ m + 1 ≠ mask.length then .done 0
      else if mask.length ≤ m + 1 then .done 1
      else
        let lRest := restLength (charAt mask m) false (mask.drop (m + 1))
        if lRest = 0 then .done (-(m + 1))
        else
          let m := if charAt mask (m + 1) = escapeChar then m + 1 else m
          .attempts ((candidates k lRest n).map (attempt mask name (m + 1)))

/-- One turn of `m_loop`, or what it does at the end of the loop. -/
def turn (n m : ℕ) : Turn :=
  if n < name.length ∧ m < mask.length then
    if charAt mask m = openChar then
      match set mask name n m with
      | (r, n, m) => if r = 0 then .done 0 else .goOn n m
    else if charAt mask m = starChar then joker mask name n m
    else if charAt mask m = questionChar then .goOn (n + 1) (m + 1)
    else
      let m := if charAt mask m = escapeChar then m + 1 else m
      if mask.length ≤ m ∨ charAt mask m ≠ charAt name n then .done 0 else .goOn (n + 1) (m + 1)
  else if n = name.length ∧ m = mask.length then .done 1
  else if m < mask.length ∧ charAt mask m = starChar then joker mask name n m
  else .done 0

/-- The first result other than zero. -/
def firstHit (loop : ℕ → ℕ → Option ℤ) : List Attempt → Option ℤ
  | [] => some 0
  | .settled r :: as => if r ≠ 0 then some r else firstHit loop as
  | .goOn n m :: as => do
      let r ← loop n m
      if r ≠ 0 then some r else firstHit loop as

/-- The loop, with as many turns one behind the other as there is fuel. -/
def mLoop : ℕ → ℕ → ℕ → Option ℤ
  | 0, _, _ => none
  | fuel + 1, n, m =>
      match turn mask name n m with
      | .done r => some r
      | .goOn n m => mLoop fuel n m
      | .attempts as => firstHit (mLoop fuel) as

/-- `KsMask::matches` -/
def doesMatch (fuel : ℕ) : Option ℤ := mLoop mask (cString name) fuel 0 0

end KsMask

end AcpltKs
