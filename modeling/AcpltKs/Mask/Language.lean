import AcpltKs.Mask.Basic

/-! The masks as a grammar makes them, and the names they stand for. -/
namespace AcpltKs

/-- The parts a mask consists of; the flag of a set tells whether it is a complement. -/
inductive MaskToken where
  | star
  | any
  | literal (c : UInt8)
  | escaped (c : UInt8)
  | items (complement : Bool) (cs : KsString)
  | range (complement : Bool) (lo hi : UInt8)
  deriving DecidableEq

namespace MaskToken

/-- The characters between two letters or digits. Between letters of either case are those up to the
last one of the first case and those from the first one of the other case on. -/
def InRange (lo hi c : UInt8) : Prop :=
  (lo ≤ c ∧ c ≤ hi ∧ ((isdigit lo ∧ isdigit hi) ∨ (isupper lo ∧ isupper hi) ∨
      (islower lo ∧ islower hi))) ∨
    (isupper lo ∧ islower hi ∧ ((isupper c ∧ lo ≤ c) ∨ (islower c ∧ c ≤ hi))) ∨
    (islower lo ∧ isupper hi ∧ ((islower c ∧ lo ≤ c) ∨ (isupper c ∧ c ≤ hi)))

/-- How a part is written. -/
def text : MaskToken → KsString
  | star => [starChar]
  | any => [questionChar]
  | literal c => [c]
  | escaped c => [escapeChar, c]
  | items complement cs =>
      openChar :: ((if complement then [caretChar] else []) ++ cs ++ [closeChar])
  | range complement lo hi =>
      openChar :: ((if complement then [caretChar] else []) ++ [lo, dashChar, hi, closeChar])

/-- The parts as the grammar allows them: a set has an item, a set whose second item is a dash is a
range, and a range is one of letters or digits. -/
def WellFormed : MaskToken → Prop
  | star | any | escaped _ => True
  | literal c => c ≠ starChar ∧ c ≠ questionChar ∧ c ≠ openChar ∧ c ≠ escapeChar
  | items complement cs => cs ≠ [] ∧ closeChar ∉ cs ∧ cs[1]? ≠ some dashChar ∧
      (complement = false → cs.head? ≠ some caretChar)
  | range _ lo hi => (isdigit lo ∧ isdigit hi) ∨ ((isupper lo ∨ islower lo) ∧
      (isupper hi ∨ islower hi))

/-- The characters a part stands for, one of which is taken. -/
def Accepts : MaskToken → UInt8 → Prop
  | star, _ => False
  | any, _ => True
  | literal c, d => d = c
  | escaped c, d => d = c
  | items complement cs, d => if complement then d ∉ cs else d ∈ cs
  | range complement lo hi, d => if complement then ¬ InRange lo hi d else InRange lo hi d

def isJoker : MaskToken → Bool
  | star | any => true
  | _ => false

def isComplement : MaskToken → Bool
  | items complement _ | range complement _ _ => complement
  | _ => false

end MaskToken

namespace KsMask
open MaskToken

/-- How a mask is written. -/
def text (tokens : List MaskToken) : KsString := tokens.flatMap MaskToken.text

/-- The language of a mask. -/
def Denotes : List MaskToken → KsString → Prop
  | [], s => s = []
  | .star :: tokens, s => ∃ skipped rest, s = skipped ++ rest ∧ Denotes tokens rest
  | token :: tokens, s => ∃ c rest, s = c :: rest ∧ token.Accepts c ∧ Denotes tokens rest

/-- The length of the shortest names. -/
def minLength (tokens : List MaskToken) : ℕ := (tokens.filter (· ≠ .star)).length

/-- The estimate that is made behind a joker. -/
def estimate (tokens : List MaskToken) : ℕ := restLength starChar false (text tokens)

/-- What is behind a joker is no escaped `[`, and the estimate of its length is neither too high nor
zero. -/
def RestSafe (rest : List MaskToken) : Prop :=
  rest = [] ∨ (rest.head? ≠ some (.escaped openChar) ∧ 0 < estimate rest ∧
    estimate rest ≤ minLength rest)

/-- The masks that are matched as they should be: without complements, and safe behind each run of
jokers that begins with a star. -/
def Safe : List MaskToken → Prop
  | [] => True
  | .star :: tokens => RestSafe (tokens.dropWhile isJoker) ∧ Safe tokens
  | token :: tokens => token.isComplement = false ∧ Safe tokens

theorem denotes_cons {token : MaskToken} (h : token ≠ .star) (tokens : List MaskToken)
    (s : KsString) : Denotes (token :: tokens) s ↔
      ∃ c rest, s = c :: rest ∧ token.Accepts c ∧ Denotes tokens rest := by
  rw [Denotes]
  exact h

theorem minLength_cons {token : MaskToken} (h : token ≠ .star) (tokens : List MaskToken) :
    minLength (token :: tokens) = minLength tokens + 1 := by
  simp [minLength, h]

theorem minLength_star (tokens : List MaskToken) :
    minLength (.star :: tokens) = minLength tokens := by
  simp [minLength]

/-- No name of the language is shorter. -/
theorem Denotes.minLength_le {tokens : List MaskToken} {s : KsString} (h : Denotes tokens s) :
    minLength tokens ≤ s.length := by
  induction tokens generalizing s with
  | nil => exact Nat.zero_le _
  | cons token tokens ih =>
    by_cases hstar : token = .star
    · subst hstar
      obtain ⟨skipped, rest, rfl, hrest⟩ := h
      rw [minLength_star, List.length_append]
      exact (ih hrest).trans (Nat.le_add_left _ _)
    · obtain ⟨c, rest, rfl, -, hrest⟩ := (denotes_cons hstar tokens s).mp h
      rw [minLength_cons hstar, List.length_cons]
      exact Nat.succ_le_succ (ih hrest)

/-- The single characters that a run of jokers takes. -/
def wildcards (run : List MaskToken) : ℕ := run.count .any

/-- A run of jokers can do with the characters for its wildcards. -/
theorem denotes_run {run rest : List MaskToken} (hrun : ∀ token ∈ run, token.isJoker = true)
    {s : KsString} (hle : wildcards run ≤ s.length)
    (h : Denotes rest (s.drop (wildcards run))) : Denotes (run ++ rest) s := by
  induction run generalizing s with
  | nil => exact h
  | cons token run ih =>
    have hrun' : ∀ token ∈ run, token.isJoker = true := fun t ht =>
      hrun t (List.mem_cons_of_mem _ ht)
    have hjoker := hrun token List.mem_cons_self
    cases token with
    | star =>
      have hsame : wildcards (.star :: run) = wildcards run := by simp [wildcards]
      rw [hsame] at hle h
      exact ⟨[], s, rfl, ih hrun' hle h⟩
    | any =>
      have hmore : wildcards (.any :: run) = wildcards run + 1 := by simp [wildcards]
      rw [hmore] at hle h
      cases s with
      | nil => exact absurd hle (Nat.not_succ_le_zero _)
      | cons c s => exact ⟨c, s, rfl, trivial, ih hrun' (Nat.le_of_succ_le_succ hle) h⟩
    | literal | escaped | items | range => exact absurd hjoker (by simp [isJoker])

/-- A run of jokers takes at least the characters for its wildcards. -/
theorem Denotes.of_run {run rest : List MaskToken} (hrun : ∀ token ∈ run, token.isJoker = true)
    {s : KsString} (h : Denotes (run ++ rest) s) :
    ∃ i, wildcards run ≤ i ∧ i ≤ s.length ∧ Denotes rest (s.drop i) := by
  induction run generalizing s with
  | nil => exact ⟨0, le_rfl, Nat.zero_le _, h⟩
  | cons token run ih =>
    have hrun' : ∀ token ∈ run, token.isJoker = true := fun t ht =>
      hrun t (List.mem_cons_of_mem _ ht)
    have hjoker := hrun token List.mem_cons_self
    cases token with
    | star =>
      obtain ⟨skipped, s, rfl, h⟩ := h
      obtain ⟨i, hwild, hi, hrest⟩ := ih hrun' h
      refine ⟨skipped.length + i, ?_, ?_, ?_⟩
      · rw [show wildcards (.star :: run) = wildcards run by simp [wildcards]]
        exact hwild.trans (Nat.le_add_left _ _)
      · rw [List.length_append]
        exact Nat.add_le_add_left hi _
      · rwa [← List.drop_drop, List.drop_left]
    | any =>
      obtain ⟨c, s, rfl, -, h⟩ := h
      obtain ⟨i, hwild, hi, hrest⟩ := ih hrun' h
      refine ⟨i + 1, ?_, Nat.succ_le_succ hi, hrest⟩
      rw [show wildcards (.any :: run) = wildcards run + 1 by simp [wildcards]]
      exact Nat.succ_le_succ hwild
    | literal | escaped | items | range => exact absurd hjoker (by simp [isJoker])

/-- A run of jokers behind a star takes any part of the name that is long enough. -/
theorem denotes_star_run {run : List MaskToken} (rest : List MaskToken)
    (hrun : ∀ token ∈ run, token.isJoker = true) (s : KsString) : Denotes (.star :: (run ++ rest)) s ↔
      ∃ i, wildcards run ≤ i ∧ i ≤ s.length ∧ Denotes rest (s.drop i) := by
  constructor
  · rintro ⟨skipped, s, rfl, h⟩
    obtain ⟨i, hwild, hi, hrest⟩ := h.of_run hrun
    refine ⟨skipped.length + i, hwild.trans (Nat.le_add_left _ _), ?_, ?_⟩
    · rw [List.length_append]
      exact Nat.add_le_add_left hi _
    · rwa [← List.drop_drop, List.drop_left]
  · rintro ⟨i, hwild, hi, hrest⟩
    refine ⟨s.take (i - wildcards run), s.drop (i - wildcards run),
      (List.take_append_drop _ s).symm, denotes_run hrun ?_ ?_⟩
    · rw [List.length_drop]
      omega
    · rwa [List.drop_drop, Nat.sub_add_cancel hwild]

end KsMask

end AcpltKs
