import Mathlib.Data.List.TakeWhile
import AcpltKs.Plt.Long

/-! Strings of the PLT library, without the counting of references. -/
namespace AcpltKs

/-- The characters of a string, which may contain null characters. -/
abbrev KsString := List UInt8

def isalnum (c : UInt8) : Bool :=
  (48 ≤ c && c ≤ 57) || (65 ≤ c && c ≤ 90) || (97 ≤ c && c ≤ 122)

/-- What comparisons and lookups see of a string: it ends at the first null character. -/
def cString (s : KsString) : KsString := s.takeWhile fun c => c ≠ 0

/-- The character at an index; behind the last one is the null character. -/
def charAt (s : KsString) (i : ℕ) : UInt8 := s.getD i 0

/-- The decimal digits. -/
def fromInt (i : ℕ) : KsString := (Nat.toDigits 10 i).map fun c => UInt8.ofNat c.toNat

/-- One character more for `PltString::hash`; `char` is signed. -/
def hashChar (res : ULong) (c : UInt8) : ULong :=
  let res := (res <<< 4) + UInt64.ofInt c.toInt8.toInt
  let g := res &&& 0xf0000000
  if g ≠ 0 then (res ^^^ (g >>> 24)) ^^^ g else res

/-- `PltString::hash` -/
def hashString (s : KsString) : ULong := (cString s).foldl hashChar 0

/-- A part of a string; no length stands for `PLT_SIZE_T_MAX`. Only the whole string keeps what is
behind a null character. -/
def substr (s : KsString) (first : ℕ) (len : Option ℕ) : KsString :=
  if first = 0 ∧ ∀ n ∈ len, s.length ≤ n then s
  else if first < s.length then
    match len with
    | none => cString (s.drop first)
    | some n => (cString (s.drop first)).take n
  else []

/-- The constructor that concatenates. -/
def concat (p₁ p₂ : KsString) : KsString := cString p₁ ++ cString p₂

theorem cString_cons {c : UInt8} (s : KsString) (h : c ≠ 0) : cString (c :: s) = c :: cString s := by
  simp [cString, h]

theorem not_mem_cString (s : KsString) : 0 ∉ cString s := by
  intro h
  simpa using List.mem_takeWhile_imp h

theorem mem_of_mem_cString {s : KsString} {c : UInt8} (h : c ∈ cString s) : c ∈ s :=
  (List.takeWhile_sublist _).subset h

theorem cString_eq_self {s : KsString} (h : 0 ∉ s) : cString s = s :=
  List.takeWhile_eq_self_iff.mpr fun c hc => by
    simp only [ne_eq, decide_not, Bool.not_eq_true', decide_eq_false_iff_not]
    rintro rfl
    exact h hc

@[simp] theorem cString_cString (s : KsString) : cString (cString s) = cString s :=
  cString_eq_self (not_mem_cString s)

theorem cString_append {s : KsString} (h : 0 ∉ s) (t : KsString) :
    cString (s ++ t) = s ++ cString t := by
  induction s with
  | nil => rfl
  | cons c s ih =>
    have hc : c ≠ 0 := fun hc => h (hc ▸ List.mem_cons_self)
    rw [List.cons_append, cString_cons _ hc, ih fun hs => h (List.mem_cons_of_mem c hs),
      List.cons_append]

/-- What is behind the null character is not seen. -/
theorem cString_append_of_mem {s : KsString} (h : 0 ∈ s) (t : KsString) :
    cString (s ++ t) = cString s := by
  induction s with
  | nil => cases h
  | cons c s ih =>
    by_cases hc : c = 0
    · subst hc
      rfl
    · obtain rfl | hs := List.mem_cons.mp h
      · exact absurd rfl hc
      · rw [List.cons_append, cString_cons _ hc, ih hs, cString_cons _ hc]

/-- Only the whole string keeps what is behind a null character. -/
theorem substr_whole_or (s : KsString) (first : ℕ) (len : Option ℕ) :
    (first = 0 ∧ ∀ n ∈ len, s.length ≤ n) ∧ substr s first len = s ∨
      ¬ (first = 0 ∧ ∀ n ∈ len, s.length ≤ n) ∧
        cString (substr s first len) = substr s first len := by
  by_cases hwhole : first = 0 ∧ ∀ n ∈ len, s.length ≤ n
  · exact Or.inl ⟨hwhole, if_pos hwhole⟩
  · refine Or.inr ⟨hwhole, ?_⟩
    unfold substr
    rw [if_neg hwhole]
    split_ifs
    · cases len with
      | none => exact cString_cString _
      | some n => exact cString_eq_self fun hmem => not_mem_cString _ (List.mem_of_mem_take hmem)
    · rfl

end AcpltKs
