import AcpltKs.Path.Resolution
import Mathlib.Data.List.Forall2

/-! Paths of the client, and how they are sent: each one relative to the one before it if the two
have enough components in common. -/
namespace AcpltKs
open DelimitedText

def kscMaxRelDepth : ℕ := 5

/-- The counts of an invalid path do not matter. -/
structure KscPath where
  str : KsString
  valid : Bool
  slashCount : ℕ
  lastComp : ℕ
  deriving DecidableEq

/-- Count the delimiters behind position `pos` and find the last component. Two in a row are only
allowed at the beginning, where the second one is a dot. -/
def parseComponents : KsString → ℕ → Bool → ℕ → ℕ → Option (ℕ × ℕ)
  | [], _, previousWasDelimiter, slashCount, lastComp =>
      if previousWasDelimiter then none else some (slashCount, lastComp)
  | c :: s, pos, previousWasDelimiter, slashCount, lastComp =>
      if c = slashChar ∨ c = dotChar then
        if previousWasDelimiter ∧ (c ≠ dotChar ∨ pos ≠ 1) then none
        else parseComponents s (pos + 1) true (slashCount + 1) (pos + 1)
      else parseComponents s (pos + 1) false slashCount lastComp

namespace KscPath

def parse (str : KsString) : Option (ℕ × ℕ) :=
  match cString str with
  | [] => none
  | c :: s =>
      if c = slashChar then
        if s = [] then some (0, 1) else parseComponents s 1 true 1 1
      else none

def ofString (str : KsString) : KscPath :=
  match parse str with
  | none => ⟨str, false, 0, 0⟩
  | some (slashCount, lastComp) => ⟨str, true, slashCount, lastComp⟩

def countComponents (p : KscPath) : ℕ := p.slashCount

end KscPath

/-- The number of delimiters in which two strings agree, and the position of the last one. The part
of a root domain begins with two characters that count as one delimiter. -/
def commonDelimiters : KsString → KsString → ℕ → ℕ → ℕ → ℕ × ℕ
  | [], _, delimiters, lc, _ => (delimiters, lc)
  | _ :: _, [], delimiters, lc, _ => (delimiters, lc)
  | c₁ :: s₁, c₂ :: s₂, delimiters, lc, pos =>
      if isSlashOrDot c₁ then
        if !isSlashOrDot c₂ then (delimiters, lc)
        else
          match s₁, s₂ with
          | d₁ :: t₁, d₂ :: t₂ =>
              if c₁ = slashChar ∧ d₁ = dotChar ∧ c₂ = slashChar ∧ d₂ = dotChar then
                commonDelimiters t₁ t₂ (delimiters + 1) (pos + 1) (pos + 2)
              else if c₁ ≠ c₂ then (delimiters + 1, pos)
              else commonDelimiters (d₁ :: t₁) (d₂ :: t₂) (delimiters + 1) pos (pos + 1)
          | s₁, s₂ =>
              if c₁ ≠ c₂ then (delimiters + 1, pos)
              else commonDelimiters s₁ s₂ (delimiters + 1) pos (pos + 1)
      else if c₁ ≠ c₂ then (delimiters, lc)
      else commonDelimiters s₁ s₂ delimiters lc (pos + 1)

namespace KscPath

/-- The number of common components, and where the first different one begins. -/
def inCommon (p other : KscPath) : ℕ × ℕ :=
  let (delimiters, lc) := commonDelimiters (cString p.str) (cString other.str) 0 0 0
  (delimiters - 1, lc)

def praefix (up : ℕ) : KsString := (List.replicate up [dotChar, dotChar, slashChar]).flatten

def relTo (p other : KscPath) (maxDepth : ℕ) : KsString :=
  if p.slashCount ≠ 0 ∧ other.slashCount ≠ 0 then
    let maxDepth := min maxDepth kscMaxRelDepth
    let (common, lastCommon) := p.inCommon other
    let up := other.countComponents - common - 1
    if 0 < common ∧ up ≤ maxDepth then
      let lastCommon := if p.str.getD lastCommon 0 = slashChar then lastCommon + 1 else lastCommon
      concat (praefix up) ((cString p.str).drop lastCommon)
    else p.str
  else p.str

end KscPath

/-- The paths of the sorted variables as they are sent. -/
def optimizePaths : List KscPath → List KsString
  | [] => []
  | p :: paths =>
      p.str :: List.zipWith (fun path previous => path.relTo previous kscMaxRelDepth) paths
        (p :: paths)

theorem parseComponents_eq {s : KsString} {pos slashCount lastComp n last : ℕ} {previous : Bool}
    (hdot : dotChar ∉ s)
    (hparse : parseComponents s pos previous slashCount lastComp = some (n, last)) :
    n = slashCount + s.count slashChar ∧ ∃ first others,
      List.splitOn slashChar s = first :: others ∧ (∀ piece ∈ others, piece ≠ []) ∧
        (previous = true → first ≠ []) := by
  induction s generalizing pos slashCount lastComp previous with
  | nil =>
    cases previous with
    | true => exact absurd hparse (by simp [parseComponents])
    | false =>
      obtain ⟨rfl, -⟩ := Prod.mk.inj (Option.some.inj hparse)
      exact ⟨rfl, [], [], rfl, by simp, by simp⟩
  | cons c s ih =>
    have hc : c ≠ dotChar := fun h => hdot (h ▸ List.mem_cons_self)
    have hs : dotChar ∉ s := fun h => hdot (List.mem_cons_of_mem c h)
    rw [parseComponents] at hparse
    by_cases hslash : c = slashChar
    · subst hslash
      rw [if_pos (Or.inl rfl)] at hparse
      split_ifs at hparse with hdouble
      have hprevious : previous = false := by
        by_contra h
        exact hdouble ⟨by simpa using h, Or.inl (by decide)⟩
      obtain ⟨rfl, first, others, hsplit, hothers, hfirst⟩ := ih hs hparse
      refine ⟨by rw [List.count_cons_self]; omega, [], first :: others, ?_, ?_, by simp [hprevious]⟩
      · rw [List.splitOn_cons_eq_if_modifyHead, if_pos (by simp), hsplit]
      · intro piece hpiece
        rcases List.mem_cons.mp hpiece with rfl | hpiece
        · exact hfirst rfl
        · exact hothers piece hpiece
    · rw [if_neg (by simp [hslash, hc])] at hparse
      obtain ⟨rfl, first, others, hsplit, hothers, -⟩ := ih hs hparse
      refine ⟨by rw [List.count_cons_of_ne hslash], c :: first, others, ?_, hothers, by simp⟩
      rw [List.splitOn_cons_eq_if_modifyHead, if_neg (by simpa using hslash), hsplit]
      rfl

namespace KscPath

/-- The components of a valid path without dots; the one of the root is empty. -/
def pieces (p : KscPath) : List KsString := List.splitOn slashChar (cString p.str).tail

/-- A path that a client may use and in which there are neither dots nor percent signs. -/
structure Plain (p : KscPath) : Prop where
  parsed : p = ofString p.str
  valid : p.valid = true
  noDot : dotChar ∉ p.str
  noPercent : percentChar ∉ p.str

variable {p other : KscPath}

theorem Plain.pieces_ne_nil (_h : p.Plain) : p.pieces ≠ [] := List.splitOn_ne_nil _ _

theorem Plain.noSlash (_h : p.Plain) : ∀ piece ∈ p.pieces, slashChar ∉ piece :=
  fun _ => not_mem_of_mem_splitOn

/-- A plain path is the root, or none of its components is empty. -/
theorem Plain.eq (h : p.Plain) : cString p.str = slashChar :: join slashChar p.pieces ∧
    (p.slashCount = 0 ∧ p.pieces = [[]] ∨
      p.slashCount = p.pieces.length ∧ ∀ piece ∈ p.pieces, piece ≠ []) := by
  have hdot : dotChar ∉ cString p.str := fun hmem => h.noDot (mem_of_mem_cString hmem)
  cases hparse : parse p.str with
  | none =>
    have hvalid := h.valid
    rw [h.parsed, ofString, hparse] at hvalid
    exact absurd hvalid (by simp)
  | some r =>
    obtain ⟨n, last⟩ := r
    have hcount : p.slashCount = n := by
      have hparsed := congrArg slashCount h.parsed
      rwa [ofString, hparse] at hparsed
    rw [parse] at hparse
    cases hstr : cString p.str with
    | nil =>
      rw [hstr] at hparse
      exact absurd hparse (by simp)
    | cons c s =>
      simp only [hstr] at hparse
      split_ifs at hparse with hslash hroot
      · obtain ⟨rfl, -⟩ := Prod.mk.inj (Option.some.inj hparse)
        rw [pieces, hstr, hroot, hslash]
        exact ⟨rfl, Or.inl ⟨hcount, rfl⟩⟩
      · rw [hstr] at hdot
        obtain ⟨rfl, first, others, hsplit, hothers, hfirst⟩ :=
          parseComponents_eq (fun hmem => hdot (List.mem_cons_of_mem c hmem)) hparse
        rw [pieces, hstr, List.tail_cons, hslash]
        refine ⟨by rw [join, List.intercalate_splitOn], Or.inr ⟨?_, ?_⟩⟩
        · rw [hcount, length_splitOn, Nat.add_comm]
        · rw [hsplit]
          intro piece hpiece
          rcases List.mem_cons.mp hpiece with rfl | hpiece
          · exact hfirst rfl
          · exact hothers piece hpiece

end KscPath

theorem commonDelimiters_char {c₁ : UInt8} (hc : isSlashOrDot c₁ = false) (c₂ : UInt8)
    (s₁ s₂ : KsString) (delimiters lc pos : ℕ) :
    commonDelimiters (c₁ :: s₁) (c₂ :: s₂) delimiters lc pos =
      if c₁ ≠ c₂ then (delimiters, lc) else commonDelimiters s₁ s₂ delimiters lc (pos + 1) := by
  rw [commonDelimiters.eq_def]
  simp [hc]

theorem commonDelimiters_slash {s₁ s₂ : KsString} (hdot : s₁.head? ≠ some dotChar)
    (delimiters lc pos : ℕ) :
    commonDelimiters (slashChar :: s₁) (slashChar :: s₂) delimiters lc pos =
      commonDelimiters s₁ s₂ (delimiters + 1) pos (pos + 1) := by
  rw [commonDelimiters.eq_def]
  match s₁, s₂ with
  | [], _ => simp [isSlashOrDot]
  | _ :: _, [] => simp [isSlashOrDot]
  | d₁ :: t₁, d₂ :: t₂ =>
    have hd : d₁ ≠ dotChar := by simpa using hdot
    simp [isSlashOrDot, hd]

/-- A piece is in common as a whole, or the search ends in it. -/
theorem commonDelimiters_append {piece : KsString} (hpiece : ∀ c ∈ piece, isSlashOrDot c = false)
    (t₁ t₂ : KsString) (delimiters lc pos : ℕ) :
    commonDelimiters (piece ++ t₁) t₂ delimiters lc pos = (delimiters, lc) ∨
      ∃ rest, t₂ = piece ++ rest ∧ commonDelimiters (piece ++ t₁) t₂ delimiters lc pos =
        commonDelimiters t₁ rest delimiters lc (pos + piece.length) := by
  induction piece generalizing t₂ pos with
  | nil => exact Or.inr ⟨t₂, rfl, rfl⟩
  | cons c piece ih =>
    cases t₂ with
    | nil => exact Or.inl (by rw [List.cons_append, commonDelimiters])
    | cons c₂ t₂ =>
      rw [List.cons_append, commonDelimiters_char (hpiece c List.mem_cons_self)]
      split_ifs with hc
      · exact Or.inl rfl
      · obtain rfl := not_ne_iff.mp hc
        obtain hend | ⟨rest, rfl, hrest⟩ :=
          ih (fun c' hc' => hpiece c' (List.mem_cons_of_mem c hc')) t₂ (pos + 1)
        · exact Or.inl hend
        · refine Or.inr ⟨rest, rfl, ?_⟩
          rw [hrest, List.length_cons, Nat.add_assoc, Nat.add_comm 1]

theorem not_dot_of_mem_join {pieces : List KsString}
    (hchars : ∀ piece ∈ pieces, ∀ c ∈ piece, isSlashOrDot c = false) :
    dotChar ∉ join slashChar pieces := by
  intro hmem
  obtain hslash | ⟨piece, hpiece, hc⟩ := mem_join hmem
  · exact absurd hslash (by decide)
  · exact absurd (hchars piece hpiece dotChar hc) (by decide)

/-- Only components that are the same in both paths are in common. -/
theorem commonDelimiters_join {as bs : List KsString} (has : as ≠ []) (hbs : bs ≠ [])
    (hcharsA : ∀ a ∈ as, ∀ c ∈ a, isSlashOrDot c = false)
    (hcharsB : ∀ b ∈ bs, ∀ c ∈ b, isSlashOrDot c = false) (delimiters lc pos : ℕ) :
    ∃ k offset, k < as.length ∧ k < bs.length ∧ as.take k = bs.take k ∧
      commonDelimiters (slashChar :: join slashChar as) (slashChar :: join slashChar bs) delimiters
          lc pos = (delimiters + 1 + k, pos + offset) ∧
      (slashChar :: join slashChar as).drop offset = slashChar :: join slashChar (as.drop k) := by
  induction as generalizing bs delimiters lc pos with
  | nil => exact absurd rfl has
  | cons a as ih =>
    have hslash : ∀ {l : List KsString}, (∀ piece ∈ l, ∀ c ∈ piece, isSlashOrDot c = false) →
        ∀ piece ∈ l, slashChar ∉ piece :=
      fun hchars piece hpiece hmem => absurd (hchars piece hpiece slashChar hmem) (by decide)
    have hdot : (join slashChar (a :: as)).head? ≠ some dotChar := fun hhead =>
      not_dot_of_mem_join hcharsA (List.mem_of_mem_head? hhead)
    have hstop : commonDelimiters (join slashChar (a :: as)) (join slashChar bs) (delimiters + 1)
          pos (pos + 1) = (delimiters + 1, pos) →
        ∃ k offset, k < (a :: as).length ∧ k < bs.length ∧ (a :: as).take k = bs.take k ∧
          commonDelimiters (slashChar :: join slashChar (a :: as))
            (slashChar :: join slashChar bs) delimiters lc pos =
              (delimiters + 1 + k, pos + offset) ∧
          (slashChar :: join slashChar (a :: as)).drop offset =
            slashChar :: join slashChar ((a :: as).drop k) := by
      intro hend
      refine ⟨0, 0, by simp, List.length_pos_of_ne_nil hbs, rfl, ?_, rfl⟩
      rw [commonDelimiters_slash hdot]
      exact hend
    by_cases hnil : as = []
    · subst hnil
      refine hstop ?_
      obtain hend | ⟨rest, -, hrest⟩ := commonDelimiters_append (hcharsA a List.mem_cons_self) []
        (join slashChar bs) (delimiters + 1) pos (pos + 1)
      · simpa [join] using hend
      · rw [commonDelimiters] at hrest
        simpa [join] using hrest
    · obtain hend | ⟨rest, hbs', hrest⟩ := commonDelimiters_append (hcharsA a List.mem_cons_self)
        (slashChar :: join slashChar as) (join slashChar bs) (delimiters + 1) pos (pos + 1)
      · rw [← join_cons hnil] at hend
        exact hstop hend
      · rw [← join_cons hnil] at hrest
        cases rest with
        | nil =>
          rw [commonDelimiters] at hrest
          exact hstop hrest
        | cons c rest =>
          have hc : c ≠ dotChar := by
            rintro rfl
            refine not_dot_of_mem_join hcharsB ?_
            rw [hbs']
            simp
          by_cases hcslash : c = slashChar
          · subst hcslash
            have hsplit : bs = a :: List.splitOn slashChar rest := by
              rw [← List.splitOn_intercalate slashChar (hslash hcharsB) hbs]
              change List.splitOn slashChar (join slashChar bs) = _
              rw [hbs', List.splitOn_append_cons_self_of_not_mem
                (hslash hcharsA a List.mem_cons_self)]
            have hjoin : join slashChar (List.splitOn slashChar rest) = rest :=
              List.intercalate_splitOn slashChar
            obtain ⟨k, offset, hk, hk', htake, hcommon, hdrop⟩ := ih hnil
              (List.splitOn_ne_nil slashChar rest)
              (fun a' ha' => hcharsA a' (List.mem_cons_of_mem a ha'))
              (fun b hb => hcharsB b (by rw [hsplit]; exact List.mem_cons_of_mem a hb))
              (delimiters + 1) pos (pos + 1 + a.length)
            rw [hjoin] at hcommon
            refine ⟨k + 1, 1 + a.length + offset, by simpa using hk, ?_, ?_, ?_, ?_⟩
            · rw [hsplit]
              simpa using hk'
            · rw [hsplit, List.take_succ_cons, List.take_succ_cons, htake]
            · rw [commonDelimiters_slash hdot, hrest, hcommon]
              refine Prod.ext ?_ ?_
              · simp only
                omega
              · simp only
                omega
            · rw [join_cons hnil, List.drop_succ_cons, ← hdrop,
                show 1 + a.length + offset = (a.length + offset) + 1 by omega,
                List.drop_succ_cons, ← List.drop_drop, List.drop_left]
          · refine hstop ?_
            rw [hrest, commonDelimiters.eq_def]
            simp [isSlashOrDot, hc, hcslash]

namespace KscPath
variable {p other : KscPath}

theorem Plain.chars (h : p.Plain) : ∀ piece ∈ p.pieces, ∀ c ∈ piece, isSlashOrDot c = false := by
  intro piece hpiece c hc
  have hslash : c ≠ slashChar := by
    rintro rfl
    exact h.noSlash piece hpiece hc
  have hdot : c ≠ dotChar := by
    rintro rfl
    have hmem : dotChar ∈ cString p.str := by
      rw [h.eq.1]
      exact List.mem_cons_of_mem _ (mem_join_of_mem hpiece hc)
    exact h.noDot (mem_of_mem_cString hmem)
  simp [isSlashOrDot, hslash, hdot]

theorem praefix_all (up : ℕ) : (praefix up).all isSlashOrDot = true := by
  rw [praefix, List.all_flatten, List.all_replicate]
  split_ifs
  · rfl
  · decide

theorem cString_praefix (up : ℕ) : cString (praefix up) = praefix up :=
  cString_eq_self fun hmem => absurd (List.all_eq_true.mp (praefix_all up) 0 hmem) (by decide)

theorem getD_of_drop_cString {str rest : KsString} {k : ℕ} {c : UInt8}
    (hdrop : (cString str).drop k = c :: rest) : str.getD k 0 = c := by
  obtain ⟨tail, htail⟩ := cString_append_rest str
  have hlt : k < (cString str).length := by
    by_contra hle
    rw [List.drop_of_length_le (Nat.not_lt.mp hle)] at hdrop
    exact absurd hdrop (by simp)
  have hget : (cString str)[k]? = some c := by
    rw [← List.head?_drop, hdrop]
    rfl
  rw [List.getD_eq_getElem?_getD, htail, List.getElem?_append_left hlt, hget, Option.getD_some]

/-- Either the path is sent in full, or what the other one has in common with it is left out. -/
theorem Plain.relTo (h : p.Plain) (hother : other.Plain) (maxDepth : ℕ) :
    p.relTo other maxDepth = p.str ∨ ∃ k, k < p.pieces.length ∧ k < other.pieces.length ∧
      p.pieces.take k = other.pieces.take k ∧ (∀ piece ∈ p.pieces, piece ≠ []) ∧
      p.relTo other maxDepth =
        praefix (other.pieces.length - k - 1) ++ join slashChar (p.pieces.drop k) := by
  obtain ⟨hstr, hcount⟩ := h.eq
  obtain ⟨hstr', hcount'⟩ := hother.eq
  obtain ⟨k, offset, hk, hk', htake, hcommon, hdrop⟩ := commonDelimiters_join h.pieces_ne_nil
    hother.pieces_ne_nil h.chars hother.chars 0 0 0
  rw [← hstr, ← hstr', Nat.zero_add, Nat.zero_add] at hcommon
  rw [← hstr] at hdrop
  have hin : p.inCommon other = (k, offset) := by
    rw [inCommon, hcommon]
    simp
  rw [KscPath.relTo]
  split_ifs with hroot
  · obtain ⟨hzero, -⟩ | ⟨-, hne⟩ := hcount
    · exact absurd hzero hroot.1
    · obtain ⟨hzero, -⟩ | ⟨hlength, -⟩ := hcount'
      · exact absurd hzero hroot.2
      · simp only [hin, countComponents, hlength]
        rw [if_pos (getD_of_drop_cString hdrop)]
        split_ifs
        · refine Or.inr ⟨k, hk, hk', htake, hne, ?_⟩
          have hrest : (cString p.str).drop (offset + 1) = join slashChar (p.pieces.drop k) := by
            rw [← List.drop_drop, hdrop]
            rfl
          have hnot : 0 ∉ join slashChar (p.pieces.drop k) := by
            rw [← hrest]
            exact fun hmem => not_mem_cString _ (List.mem_of_mem_drop hmem)
          rw [concat, cString_praefix, hrest, cString_eq_self hnot]
        · exact Or.inl rfl
  · exact Or.inl rfl

end KscPath

theorem countSlashes_char_append {piece : KsString} (hpiece : slashChar ∉ piece) (hne : piece ≠ [])
    (rest : KsString) (wasSlash : Bool) :
    countSlashes (piece ++ rest) wasSlash = countSlashes rest false := by
  induction piece generalizing wasSlash with
  | nil => exact absurd rfl hne
  | cons c piece ih =>
    have hc : c ≠ slashChar := fun h => hpiece (h ▸ List.mem_cons_self)
    rw [List.cons_append, countSlashes, if_neg hc]
    by_cases hnil : piece = []
    · rw [hnil, List.nil_append]
    · exact ih (fun h => hpiece (List.mem_cons_of_mem c h)) hnil false

/-- No two slashes are in a row if no component is empty. -/
theorem countSlashes_join {pieces : List KsString} (hslash : ∀ piece ∈ pieces, slashChar ∉ piece)
    (hne : ∀ piece ∈ pieces, piece ≠ []) (wasSlash : Bool) :
    countSlashes (join slashChar pieces) wasSlash =
      some ((join slashChar pieces).count slashChar) := by
  induction pieces generalizing wasSlash with
  | nil => rfl
  | cons piece pieces ih =>
    have hpiece := hslash piece List.mem_cons_self
    have hempty := hne piece List.mem_cons_self
    by_cases hnil : pieces = []
    · subst hnil
      have happend := countSlashes_char_append hpiece hempty [] wasSlash
      rw [List.append_nil] at happend
      rw [join, List.intercalate_singleton, happend, List.count_eq_zero_of_not_mem hpiece]
      rfl
    · rw [join_cons hnil, countSlashes_char_append hpiece hempty, countSlashes, if_pos rfl,
        if_neg (by simp), ih (fun q hq => hslash q (List.mem_cons_of_mem piece hq))
          (fun q hq => hne q (List.mem_cons_of_mem piece hq)), List.count_append,
        List.count_cons_self, List.count_eq_zero_of_not_mem hpiece, Nat.zero_add]
      rfl

theorem skipPoints_praefix {rest : KsString} (hhead : rest.head? ≠ some dotChar) (up goUp : ℕ)
    (wasSlash : Bool) : skipPoints (KscPath.praefix up ++ rest) wasSlash goUp =
      some (rest, wasSlash || decide (0 < up), goUp + up) := by
  induction up generalizing wasSlash goUp with
  | zero =>
    have hdot : ∀ s, rest ≠ dotChar :: s := fun s h => hhead (by rw [h]; rfl)
    rw [show KscPath.praefix 0 ++ rest = rest from rfl, skipPoints.eq_5 rest wasSlash goUp
      (fun s h => hdot _ h) (fun s h => hdot _ h) (fun s h => hdot _ h) fun s h => hdot _ h]
    simp
  | succ up ih =>
    have hcons : KscPath.praefix (up + 1) ++ rest =
        dotChar :: dotChar :: slashChar :: (KscPath.praefix up ++ rest) := by
      rw [KscPath.praefix, List.replicate_succ]
      rfl
    have hstep : skipPoints (dotChar :: dotChar :: slashChar :: (KscPath.praefix up ++ rest))
        wasSlash goUp = skipPoints (KscPath.praefix up ++ rest) true (goUp + 1) :=
      skipPoints.eq_1 ..
    rw [hcons, hstep, ih]
    simp [Nat.add_assoc, Nat.add_comm 1]

/-- The text of components that are not empty begins with neither a slash nor a dot. -/
theorem head?_join {pieces : List KsString}
    (hchars : ∀ piece ∈ pieces, ∀ c ∈ piece, isSlashOrDot c = false)
    (hne : ∀ piece ∈ pieces, piece ≠ []) :
    ∀ c ∈ (join slashChar pieces).head?, isSlashOrDot c = false := by
  cases pieces with
  | nil => exact fun c hc => absurd hc (by simp [join])
  | cons piece pieces =>
    obtain ⟨first, tail, rfl⟩ := List.exists_cons_of_ne_nil (hne piece List.mem_cons_self)
    intro c hc
    refine hchars (first :: tail) List.mem_cons_self c ?_
    by_cases hnil : pieces = []
    · subst hnil
      rw [join, List.intercalate_singleton] at hc
      obtain rfl : first = c := by simpa using hc
      exact List.mem_cons_self
    · rw [join_cons hnil] at hc
      obtain rfl : first = c := by simpa using hc
      exact List.mem_cons_self

/-- What the client leaves out is asked for by going up. -/
theorem ofString_praefix {pieces : List KsString} (up : ℕ)
    (hchars : ∀ piece ∈ pieces, ∀ c ∈ piece, isSlashOrDot c = false)
    (hne : ∀ piece ∈ pieces, piece ≠ []) (hpieces : pieces ≠ [])
    (hnot : 0 ∉ join slashChar pieces) :
    ∃ p, KsPath.ofString (KscPath.praefix up ++ join slashChar pieces) = some p ∧
      p.Splits (KscPath.praefix up) pieces ∧ p.goUp = up + 1 := by
  have hslash : ∀ piece ∈ pieces, slashChar ∉ piece := fun piece hpiece hmem =>
    absurd (hchars piece hpiece slashChar hmem) (by decide)
  have hhead := head?_join hchars hne
  have hcstring : cString (KscPath.praefix up ++ join slashChar pieces) =
      KscPath.praefix up ++ join slashChar pieces := by
    have h0 : 0 ∉ KscPath.praefix up := KscPath.cString_praefix up ▸ not_mem_cString _
    rw [cString_append h0, cString_eq_self hnot]
  have hdot : (join slashChar pieces).head? ≠ some dotChar :=
    fun h => absurd (hhead dotChar h) (by decide)
  have hcheck : checkAndCount (KscPath.praefix up ++ join slashChar pieces) =
      some (up + 1, (join slashChar pieces).count slashChar) := by
    have hstart : (KscPath.praefix up ++ join slashChar pieces).head? ≠ some slashChar := by
      cases up with
      | zero => exact fun h => absurd (hhead slashChar h) (by decide)
      | succ up =>
        rw [KscPath.praefix, List.replicate_succ]
        exact fun h => absurd (Option.some.inj h) (by decide)
    have hskip := skipPoints_praefix hdot up 1 false
    rw [checkAndCount, hcstring]
    cases hstr : KscPath.praefix up ++ join slashChar pieces with
    | nil =>
      have hempty := (List.append_eq_nil_iff.mp hstr).2
      obtain ⟨piece, pieces, rfl⟩ := List.exists_cons_of_ne_nil hpieces
      obtain ⟨first, tail, rfl⟩ := List.exists_cons_of_ne_nil (hne piece List.mem_cons_self)
      have hmem : first ∈ join slashChar ((first :: tail) :: pieces) :=
        mem_join_of_mem List.mem_cons_self List.mem_cons_self
      rw [hempty] at hmem
      exact absurd hmem List.not_mem_nil
    | cons c s =>
      rw [hstr] at hskip hstart
      have hc : c ≠ slashChar := by simpa using hstart
      simp only [if_neg hc, hskip, Option.bind_eq_bind, Option.bind_some,
        countSlashes_join hslash hne, Nat.add_comm]
  obtain ⟨p, hp, hsplits, hup, -⟩ := ofString_splits hcheck hcstring (KscPath.praefix_all up) hhead
    rfl
  rw [List.splitOn_intercalate slashChar hslash hpieces] at hsplits
  exact ⟨p, hp, hsplits, hup⟩

/-- A path in full is absolute. -/
theorem KscPath.Plain.ofString {p : KscPath} (h : p.Plain) :
    ∃ path, KsPath.ofString p.str = some path ∧ path.Splits [slashChar] p.pieces ∧
      path.goUp = 0 ∧ path.str = p.str := by
  obtain ⟨hstr, hcount⟩ := h.eq
  have hcount' : countSlashes (join slashChar p.pieces) true =
        some ((join slashChar p.pieces).count slashChar) ∧
      ∀ c ∈ (join slashChar p.pieces).head?, isSlashOrDot c = false := by
    obtain ⟨-, hroot⟩ | ⟨-, hne⟩ := hcount
    · rw [hroot]
      exact ⟨rfl, fun c hc => absurd hc (by simp [join])⟩
    · exact ⟨countSlashes_join h.noSlash hne true, head?_join h.chars hne⟩
  have hcheck : checkAndCount p.str =
      some (0, (join slashChar p.pieces).count slashChar) := by
    simp only [checkAndCount, hstr, if_pos, hcount'.1, Option.map_some]
  have hstr' : cString p.str = [slashChar] ++ join slashChar p.pieces := hstr
  obtain ⟨path, hpath, hsplits, hup, hid⟩ :=
    ofString_splits hcheck hstr' (by decide) hcount'.2 rfl
  rw [List.splitOn_intercalate slashChar h.noSlash h.pieces_ne_nil] at hsplits
  exact ⟨path, hpath, hsplits, hup, hid⟩

namespace KscPath
variable {p other : KscPath} {path context : KsPath}

/-- The server has found the components of the path. -/
structure Resolves (p : KscPath) (path : KsPath) : Prop where
  goUp : path.goUp = 0
  splits : ∃ skipped, path.Splits skipped p.pieces
  noPercent : percentChar ∉ path.str

theorem Plain.resolveNext (h : p.Plain) (context : KsPath) :
    ∃ path, context.resolveNext p.str = some (path, KsResultCode.ok) ∧ p.Resolves path := by
  obtain ⟨path, hpath, hsplits, hup, hstr⟩ := h.ofString
  exact ⟨path, KsPath.resolveNext_absolute hpath hsplits.valid (by simp [KsPath.isAbsolute, hup]),
    hup, ⟨_, hsplits⟩, hstr ▸ h.noPercent⟩

/-- Whatever the client leaves out, the server takes from the context. -/
theorem Plain.resolveNext_relTo (h : p.Plain) (hother : other.Plain)
    (hcontext : other.Resolves context) (maxDepth : ℕ) :
    ∃ path, context.resolveNext (p.relTo other maxDepth) = some (path, KsResultCode.ok) ∧
      p.Resolves path := by
  obtain hfull | ⟨k, hk, hk', htake, hne, hrel⟩ := h.relTo hother maxDepth
  · rw [hfull]
    exact h.resolveNext context
  · have hnot : 0 ∉ join slashChar (p.pieces.drop k) := fun hmem => by
      obtain hslash | ⟨piece, hpiece, hc⟩ := mem_join hmem
      · exact absurd hslash (by decide)
      · have hmem' : 0 ∈ cString p.str := by
          rw [h.eq.1]
          exact List.mem_cons_of_mem _ (mem_join_of_mem (List.mem_of_mem_drop hpiece) hc)
        exact not_mem_cString _ hmem'
    obtain ⟨rel, hofString, hsplits, hup⟩ := ofString_praefix
      (other.pieces.length - k - 1)
      (fun piece hpiece => h.chars piece (List.mem_of_mem_drop hpiece))
      (fun piece hpiece => hne piece (List.mem_of_mem_drop hpiece)) (by simp; omega) hnot
    obtain ⟨skipped, hsplits'⟩ := hcontext.splits
    have hle : rel.goUp ≤ other.pieces.length := by omega
    obtain ⟨path, happend, hpath, hzero, hstr⟩ := hsplits'.append hsplits (by omega) hle
    have hkeep : other.pieces.length - rel.goUp = k := by omega
    rw [hkeep, ← htake, List.take_append_drop] at hpath hstr
    refine ⟨path, ?_, hzero, ⟨skipped, hpath⟩, ?_⟩
    · rw [hrel, KsPath.resolveNext_relative ⟨hofString, hsplits.valid, by simp [KsPath.isAbsolute, hup]⟩
        hsplits'.valid (by rwa [hsplits'.size]), happend]
      rfl
    · rw [hstr]
      intro hmem
      obtain hmem | hmem := List.mem_append.mp hmem
      · exact absurd (List.all_eq_true.mp hpath.skipped_all _ hmem) (by decide)
      · refine h.noPercent (mem_of_mem_cString ?_)
        rw [h.eq.1]
        exact List.mem_cons_of_mem _ hmem

/-- There is nothing to decode. -/
theorem Resolves.decode (h : p.Resolves path) :
    (KsPath.decodeResolved (path, KsResultCode.ok)).2 = KsResultCode.ok ∧
      (KsPath.decodeResolved (path, KsResultCode.ok)).1.components.map cString = p.pieces := by
  obtain ⟨skipped, hsplits⟩ := h.splits
  have hok : path.decodePercents.1 = KsResultCode.ok := by
    rw [KsPath.decodePercents, ksStringFromPercent, fromPercent_eq_self h.noPercent]
  have hdecode : path.decodePercents = (KsResultCode.ok, path.decodePercents.2) :=
    Prod.ext hok rfl
  obtain ⟨pieces', hpieces, hparses, -⟩ := hsplits.decodePercents hdecode
  refine ⟨hok, ?_⟩
  have hself : p.pieces.map fromPercent = p.pieces.map some := by
    refine List.map_congr_left fun piece hpiece => fromPercent_eq_self fun hmem => ?_
    refine h.noPercent (mem_of_mem_cString ?_)
    rw [hsplits.str]
    exact List.mem_append_right _ (mem_join_of_mem hpiece hmem)
  rw [hself] at hpieces
  have hsame : p.pieces = pieces' := 
    List.map_injective_iff.mpr (fun _ _ => Option.some.inj) hpieces
  rw [KsPath.decodeResolved, if_pos rfl, hsame]
  exact hparses.components

end KscPath

/-- Every path has been resolved to its components. -/
def AllResolved (paths : List KscPath) (results : List (KsPath × KsResultCode)) : Prop :=
  List.Forall₂ (fun p r => r.2 = KsResultCode.ok ∧ p.Resolves r.1) paths results

theorem resolveEach_full {paths : List KscPath} (h : ∀ p ∈ paths, p.Plain) (context : KsPath) :
    ∃ results, KsPath.resolveEach context (paths.map KscPath.str) = some results ∧
      AllResolved paths results := by
  induction paths generalizing context with
  | nil => exact ⟨[], rfl, .nil⟩
  | cons p paths ih =>
    obtain ⟨path, hnext, hpath⟩ := (h p List.mem_cons_self).resolveNext context
    obtain ⟨results, hresults, hall⟩ := ih (fun q hq => h q (List.mem_cons_of_mem p hq)) path
    refine ⟨(path, KsResultCode.ok) :: results, ?_, .cons ⟨rfl, hpath⟩ hall⟩
    simp [KsPath.resolveEach, hnext, hresults]

theorem resolveEach_relTo {paths : List KscPath} (h : ∀ p ∈ paths, p.Plain) {previous : KscPath}
    (hprevious : previous.Plain) {context : KsPath} (hcontext : previous.Resolves context) :
    ∃ results, KsPath.resolveEach context
        (List.zipWith (fun path previous => path.relTo previous kscMaxRelDepth) paths
          (previous :: paths)) = some results ∧ AllResolved paths results := by
  induction paths generalizing previous context with
  | nil => exact ⟨[], rfl, .nil⟩
  | cons p paths ih =>
    have hp := h p List.mem_cons_self
    obtain ⟨path, hnext, hpath⟩ := hp.resolveNext_relTo hprevious hcontext kscMaxRelDepth
    obtain ⟨results, hresults, hall⟩ :=
      ih (fun q hq => h q (List.mem_cons_of_mem p hq)) hp hpath
    refine ⟨(path, KsResultCode.ok) :: results, ?_, .cons ⟨rfl, hpath⟩ hall⟩
    rw [List.zipWith_cons_cons, KsPath.resolveEach, hnext]
    simp [hresults]

theorem AllResolved.decode {paths : List KscPath} {results : List (KsPath × KsResultCode)}
    (h : AllResolved paths results) :
    (∀ r ∈ results.map KsPath.decodeResolved, r.2 = KsResultCode.ok) ∧
      (results.map KsPath.decodeResolved).map (fun r => r.1.components.map cString) =
        paths.map KscPath.pieces := by
  induction h with
  | nil => exact ⟨by simp, rfl⟩
  | @cons p r paths results hr _ ih =>
    obtain ⟨path, res⟩ := r
    obtain ⟨rfl, hpath⟩ := hr
    obtain ⟨hok, hcomponents⟩ := hpath.decode
    refine ⟨fun r hr => ?_, ?_⟩
    · rcases List.mem_cons.mp hr with rfl | hr
      · exact hok
      · exact ih.1 r hr
    · rw [List.map_cons, List.map_cons, List.map_cons, hcomponents, ih.2]

/-- The server resolves what the client sends to the components of the paths in full. -/
theorem optimizePaths_resolved {paths : List KscPath} (h : ∀ p ∈ paths, p.Plain) :
    ∃ results full, KsPath.resolvePaths (optimizePaths paths) = some results ∧
      KsPath.resolvePaths (paths.map KscPath.str) = some full ∧
      results.length = paths.length ∧ (∀ r ∈ results, r.2 = KsResultCode.ok) ∧
      results.map (fun r => r.1.components.map cString) =
        full.map (fun r => r.1.components.map cString) := by
  obtain ⟨full, hfull, hallfull⟩ := resolveEach_full h (.invalid [47, 47])
  obtain ⟨results, hresults, hall⟩ : ∃ results,
      KsPath.resolveEach (.invalid [47, 47]) (optimizePaths paths) = some results ∧
        AllResolved paths results := by
    cases paths with
    | nil => exact ⟨[], rfl, .nil⟩
    | cons p paths =>
      have hp := h p List.mem_cons_self
      obtain ⟨path, hnext, hpath⟩ := hp.resolveNext (.invalid [47, 47])
      obtain ⟨results, hresults, hall⟩ :=
        resolveEach_relTo (fun q hq => h q (List.mem_cons_of_mem p hq)) hp hpath
      refine ⟨(path, KsResultCode.ok) :: results, ?_, .cons ⟨rfl, hpath⟩ hall⟩
      rw [optimizePaths, KsPath.resolveEach, hnext]
      simp [hresults]
  refine ⟨_, _, KsPath.resolvePaths_eq_some.mpr ⟨results, hresults, rfl⟩,
    KsPath.resolvePaths_eq_some.mpr ⟨full, hfull, rfl⟩, ?_, hall.decode.1, ?_⟩
  · rw [List.length_map, hall.length_eq]
  · rw [hall.decode.2, hallfull.decode.2]

/-- The paths `/a/b/c`, `/a/d` and the root. -/
theorem optimizePaths_resolved_threePaths :
    ∃ results full,
      KsPath.resolvePaths (optimizePaths ([[47, 97, 47, 98, 47, 99], [47, 97, 47, 100], [47]].map
        KscPath.ofString)) = some results ∧
      KsPath.resolvePaths [[47, 97, 47, 98, 47, 99], [47, 97, 47, 100], [47]] = some full ∧
      results.length = 3 ∧ (∀ r ∈ results, r.2 = KsResultCode.ok) ∧
      results.map (fun r => r.1.components.map cString) =
        full.map (fun r => r.1.components.map cString) := by
  refine optimizePaths_resolved fun p hp => ?_
  simp only [List.map_cons, List.map_nil, List.mem_cons, List.not_mem_nil, or_false] at hp
  rcases hp with rfl | rfl | rfl <;>
    exact ⟨by decide, by decide, by decide, by decide⟩

end AcpltKs
