import AcpltKs.Path.ComponentStack

/-! What it means to resolve a path: the names of a path, the steps of a relative path, and the place
that the steps lead to. -/
namespace AcpltKs
open LevelMoves

/-- A child or a part of the object above it. -/
structure PathName where
  isPart : Bool
  name : KsString
  ne_nil : name ≠ []
  isNameChar : ∀ c ∈ name, isNameChar c = true
  deriving DecidableEq

def PathName.delimiter (c : PathName) : UInt8 := if c.isPart then dotChar else slashChar

def PathName.text (c : PathName) : KsString := c.delimiter :: c.name

/-- The names without the slash of the root. -/
def writeNames (path : List PathName) : KsString := path.flatMap PathName.text

/-- The path from the root; a part of the root has the slash of the root in front of its point. -/
def writePath : List PathName → KsString
  | [] => [slashChar]
  | c :: path => (if c.isPart then [slashChar] else []) ++ writeNames (c :: path)

/-- `.`, `..`, or a name. -/
abbrev PathStep := Move PathName

namespace PathStep

def isName : PathStep → Bool
  | .down _ => true
  | _ => false

/-- How a step is written behind a name or elsewhere. -/
def text (afterName : Bool) : PathStep → KsString
  | .stay => [dotChar]
  | .up => [dotChar, dotChar]
  | .down c => if c.isPart && !afterName then dotChar :: c.name else c.name

/-- What separates a step from the one before. -/
def separator (afterName : Bool) : PathStep → UInt8
  | .down c => if c.isPart && afterName then dotChar else slashChar
  | _ => slashChar

/-- The steps that follow others. A slash may stand at the end. -/
def writeBehind (trailing : Bool) : Bool → List PathStep → KsString
  | _, [] => if trailing then [slashChar] else []
  | afterName, step :: steps =>
      separator afterName step :: text afterName step ++ writeBehind trailing (isName step) steps

/-- A relative path. -/
def write (trailing : Bool) (steps : List PathStep) : KsString :=
  (writeBehind trailing false steps).tail

end PathStep

namespace KscPathParser

/-- The names of the path of a locator; one of a server has none. -/
def HasPath (parser : KscPathParser) (base : List PathName) : Prop :=
  if parser.pathType = .hostServer then base = [] else parser.fullPath.str = writePath base

/-- The locator of another place on the same server. -/
def locate (parser : KscPathParser) (path : List PathName) : KsString :=
  parser.hostserver ++ if parser.pathType = .hostServer ∧ path = [] then [] else writePath path

/-- The path is a relative one, and the steps lead from the place of the locator to the other one. -/
def LeadsTo (parser : KscPathParser) (str : KsString) (path : List PathName) : Prop :=
  ∃ base steps trailing, parser.HasPath base ∧ str = PathStep.write trailing steps ∧
    path = follow base steps

/-- What a path stands for. A locator stands for itself, a path from the root for one on the same
server, if there is a server, and a path that is not well formed for nothing. -/
def Reference (parser : KscPathParser) (str result : KsString) : Prop :=
  if charAt str 0 = slashChar then
    result = if charAt str 1 = slashChar then str
      else if parser.pathType = .pathOnly then [] else parser.hostserver ++ str
  else
    (∃ path, parser.LeadsTo str path ∧ result = parser.locate path) ∨
      (∀ steps trailing, str ≠ PathStep.write trailing steps) ∧ result = []

end KscPathParser

section Names
variable {path others : List PathName} {c : PathName} {str : KsString} {i k : ℕ}

theorem charAt_eq_head? (str : KsString) (i : ℕ) : charAt str i = (str.drop i).head?.getD 0 := by
  rw [charAt, List.head?_drop, List.getD_eq_getElem?_getD]

theorem PathName.exists_cons (c : PathName) :
    ∃ a name, c.name = a :: name ∧ AcpltKs.isNameChar a = true := by
  obtain ⟨a, name, h⟩ := List.exists_cons_of_ne_nil c.ne_nil
  exact ⟨a, name, h, c.isNameChar a (h ▸ List.mem_cons_self)⟩

theorem isNameChar_ne {a : UInt8} (h : isNameChar a = true) :
    a ≠ 0 ∧ a ≠ slashChar ∧ a ≠ dotChar := by
  simpa [isNameChar, and_assoc] using h

theorem isNameChar_delimiter (c : PathName) : isNameChar c.delimiter = false := by
  rw [PathName.delimiter]
  split <;> rfl

/-- The end of a name is where another delimiter stands, or the end of the path. -/
theorem nameEnd_eq {rest : KsString} (h : str.drop i = c.name ++ rest)
    (hrest : ∀ a ∈ rest.head?, isNameChar a = false) : nameEnd str i = i + c.name.length := by
  rw [nameEnd, h, List.takeWhile_append_of_pos c.isNameChar]
  cases rest with
  | nil => simp
  | cons a rest => simp [hrest a rfl]

theorem writeNames_cons : writeNames (c :: path) = c.delimiter :: (c.name ++ writeNames path) := rfl

theorem writeNames_append : writeNames (path ++ others) = writeNames path ++ writeNames others :=
  List.flatMap_append

theorem head_writeNames : ∀ a ∈ (writeNames path).head?, isNameChar a = false := by
  cases path with
  | nil => simp [writeNames]
  | cons c path =>
    intro a ha
    rw [writeNames_cons, List.head?_cons] at ha
    exact Option.some.inj ha ▸ isNameChar_delimiter c

theorem writePath_append (h : path ≠ []) :
    writePath (path ++ others) = writePath path ++ writeNames others := by
  obtain ⟨c, path, rfl⟩ := List.exists_cons_of_ne_nil h
  rw [List.cons_append, writePath, writePath, ← List.cons_append, writeNames_append,
    List.append_assoc]

theorem not_mem_writeNames (path : List PathName) : 0 ∉ writeNames path := by
  intro h
  obtain ⟨c, -, h⟩ := List.mem_flatMap.mp h
  obtain h | h := List.mem_cons.mp h
  · rw [PathName.delimiter] at h
    split at h <;> exact absurd h (by decide)
  · exact (isNameChar_ne (c.isNameChar 0 h)).1 rfl

theorem not_mem_writePath (path : List PathName) : 0 ∉ writePath path := by
  cases path with
  | nil => decide
  | cons c path =>
    rw [writePath, List.mem_append]
    rintro (h | h)
    · split at h
      · exact absurd h (by decide)
      · exact absurd h List.not_mem_nil
    · exact not_mem_writeNames _ h

end Names

section Counting
variable {path : List PathName} {c : PathName}

/-- How often a path counts its first delimiter too much: once if it is that of a part. -/
def partsOfRoot (path : List PathName) : ℕ := if (path.head?.any PathName.isPart) then 1 else 0

theorem parseComponents_name (c : PathName) (s : KsString) (pos : ℕ) (previous : Bool)
    (slashCount lastComp : ℕ) : parseComponents (c.name ++ s) pos previous slashCount lastComp =
      parseComponents s (pos + c.name.length) false slashCount lastComp := by
  have hchars : ∀ (name : KsString) (pos : ℕ) (previous : Bool), name ≠ [] →
      (∀ a ∈ name, isNameChar a = true) →
      parseComponents (name ++ s) pos previous slashCount lastComp =
        parseComponents s (pos + name.length) false slashCount lastComp := by
    intro name
    induction name with
    | nil => exact fun _ _ h => absurd rfl h
    | cons a name ih =>
      intro pos previous _ hname
      obtain ⟨-, hslash, hdot⟩ := isNameChar_ne (hname a List.mem_cons_self)
      rw [List.cons_append, parseComponents, if_neg (by simp [hslash, hdot])]
      by_cases hnil : name = []
      · subst hnil
        rfl
      · rw [ih _ _ hnil fun b hb => hname b (List.mem_cons_of_mem a hb), List.length_cons]
        congr 1
        omega
  exact hchars c.name pos previous c.ne_nil c.isNameChar

/-- Behind a name, a delimiter is counted, and the next name follows. -/
theorem parseComponents_text (c : PathName) (s : KsString) (pos slashCount lastComp : ℕ) :
    parseComponents (c.text ++ s) pos false slashCount lastComp =
      parseComponents s (pos + 1 + c.name.length) false (slashCount + 1) (pos + 1) := by
  have hdelimiter : c.delimiter = slashChar ∨ c.delimiter = dotChar := by
    rw [PathName.delimiter]
    split
    · exact Or.inr rfl
    · exact Or.inl rfl
  rw [PathName.text, List.cons_append, parseComponents, if_pos hdelimiter, if_neg (by simp),
    parseComponents_name]

theorem parseComponents_names (path : List PathName) (pos slashCount lastComp : ℕ) :
    ∃ last, parseComponents (writeNames path) pos false slashCount lastComp =
      some (slashCount + path.length, last) := by
  induction path generalizing pos slashCount lastComp with
  | nil => exact ⟨lastComp, rfl⟩
  | cons c path ih =>
    obtain ⟨last, hlast⟩ := ih (pos + 1 + c.name.length) (slashCount + 1) (pos + 1)
    refine ⟨last, ?_⟩
    rw [writeNames, List.flatMap_cons, parseComponents_text]
    rw [← writeNames, hlast, List.length_cons, Nat.add_assoc, Nat.add_comm 1]

theorem parse_slash {s : KsString} (hzero : 0 ∉ s) (hne : s ≠ []) :
    KscPath.parse (slashChar :: s) = parseComponents s 1 true 1 1 := by
  have hstr : cString (slashChar :: s) = slashChar :: s :=
    (cString_cons s (by decide)).trans (congrArg _ (cString_eq_self hzero))
  rw [KscPath.parse, hstr]
  simp only [if_true, if_neg hne]

/-- Behind the first name, the slash of the root has been counted, and the point of a part. -/
theorem parse_cons (c : PathName) (path : List PathName) :
    KscPath.parse (writePath (c :: path)) =
      parseComponents (writeNames path) (1 + partsOfRoot (c :: path) + c.name.length) false
        (1 + partsOfRoot (c :: path)) (1 + partsOfRoot (c :: path)) := by
  have hzero := not_mem_writePath (c :: path)
  cases hpart : c.isPart with
  | false =>
    have hpath : writePath (c :: path) = slashChar :: (c.name ++ writeNames path) := by
      simp [writePath, writeNames_cons, PathName.delimiter, hpart]
    have hparts : partsOfRoot (c :: path) = 0 := by simp [partsOfRoot, hpart]
    rw [hpath] at hzero ⊢
    rw [parse_slash (fun h => hzero (List.mem_cons_of_mem _ h)) (by simp [c.ne_nil]),
      parseComponents_name, hparts]
  | true =>
    have hpath : writePath (c :: path) = slashChar :: dotChar :: (c.name ++ writeNames path) := by
      simp [writePath, writeNames_cons, PathName.delimiter, hpart]
    have hparts : partsOfRoot (c :: path) = 1 := by simp [partsOfRoot, hpart]
    rw [hpath] at hzero ⊢
    rw [parse_slash (fun h => hzero (List.mem_cons_of_mem _ h)) (by simp), parseComponents,
      if_pos (Or.inr rfl), if_neg (by simp), parseComponents_name, hparts]

/-- A part of the root counts as two components. -/
theorem parse_writePath (path : List PathName) :
    ∃ last, KscPath.parse (writePath path) = some (path.length + partsOfRoot path, last) := by
  cases path with
  | nil => exact ⟨1, rfl⟩
  | cons c path =>
    obtain ⟨last, hlast⟩ := parseComponents_names path (1 + partsOfRoot (c :: path) + c.name.length)
      (1 + partsOfRoot (c :: path)) (1 + partsOfRoot (c :: path))
    refine ⟨last, (parse_cons c path).trans (hlast.trans ?_)⟩
    rw [List.length_cons, Nat.add_right_comm, Nat.add_comm 1]

/-- What is parsed begins with characters of a name, and names with delimiters follow. -/
theorem parseComponents_eq_some {s : KsString} {pos slashCount lastComp n last : ℕ}
    {previous : Bool} (hzero : 0 ∉ s) (hpos : 0 < pos) (hdot : pos = 1 → s.head? ≠ some dotChar)
    (hparse : parseComponents s pos previous slashCount lastComp = some (n, last)) :
    ∃ name path, s = name ++ writeNames path ∧ (∀ a ∈ name, isNameChar a = true) ∧
      (previous = true → name ≠ []) := by
  induction s generalizing pos slashCount lastComp previous with
  | nil =>
    cases previous with
    | true => exact absurd hparse (by simp [parseComponents])
    | false => exact ⟨[], [], rfl, by simp, by simp⟩
  | cons a s ih =>
    obtain ⟨ha, hs⟩ := not_or.mp (mt List.mem_cons.mpr hzero)
    have hnext : pos + 1 = 1 → s.head? ≠ some dotChar := by omega
    rw [parseComponents] at hparse
    by_cases hdelimiter : a = slashChar ∨ a = dotChar
    · rw [if_pos hdelimiter] at hparse
      split_ifs at hparse with hdouble
      have hprevious : previous = false := by
        by_contra hp
        refine hdouble ⟨by simpa using hp, ?_⟩
        by_cases hone : pos = 1
        · exact Or.inl fun hpoint => hdot hone (by rw [hpoint]; rfl)
        · exact Or.inr hone
      obtain ⟨name, path, rfl, hname, hne⟩ := ih hs (Nat.succ_pos pos) hnext hparse
      refine ⟨[], ⟨decide (a = dotChar), name, hne rfl, hname⟩ :: path, ?_, by simp,
        by simp [hprevious]⟩
      rw [writeNames_cons, PathName.delimiter, List.nil_append]
      obtain rfl | rfl := hdelimiter <;> rfl
    · rw [if_neg hdelimiter] at hparse
      obtain ⟨name, path, rfl, hname, -⟩ := ih hs (Nat.succ_pos pos) hnext hparse
      refine ⟨a :: name, path, rfl, fun b hb => ?_, by simp⟩
      obtain rfl | hb := List.mem_cons.mp hb
      · simpa [isNameChar, and_assoc] using ⟨fun h => ha h.symm, not_or.mp hdelimiter⟩
      · exact hname b hb

/-- A valid path consists of names. -/
theorem exists_writePath {str : KsString} (hzero : 0 ∉ str)
    (hvalid : (KscPath.ofString str).valid = true) : ∃ path, str = writePath path := by
  obtain ⟨⟨n, last⟩, hparse⟩ : ∃ r, KscPath.parse str = some r := by
    rw [KscPath.ofString] at hvalid
    cases hparse : KscPath.parse str with
    | none =>
      rw [hparse] at hvalid
      exact absurd hvalid (by simp)
    | some r => exact ⟨r, rfl⟩
  cases str with
  | nil => exact absurd hparse (by simp [KscPath.parse, cString])
  | cons a s =>
    obtain ⟨-, hs⟩ := not_or.mp (mt List.mem_cons.mpr hzero)
    by_cases hslash : a = slashChar
    · subst hslash
      by_cases hnil : s = []
      · exact ⟨[], by rw [hnil]; rfl⟩
      rw [parse_slash hs hnil] at hparse
      by_cases hdot : s.head? = some dotChar
      · obtain ⟨s, rfl⟩ := List.head?_eq_some_iff.mp hdot
        rw [parseComponents, if_pos (Or.inr rfl), if_neg (by simp)] at hparse
        obtain ⟨name, path, rfl, hname, hne⟩ := parseComponents_eq_some
          (fun h => hs (List.mem_cons_of_mem _ h)) (Nat.succ_pos 1) (by omega) hparse
        exact ⟨⟨true, name, hne rfl, hname⟩ :: path, rfl⟩
      · obtain ⟨name, path, rfl, hname, hne⟩ :=
          parseComponents_eq_some hs Nat.one_pos (fun _ => hdot) hparse
        exact ⟨⟨false, name, hne rfl, hname⟩ :: path, rfl⟩
    · rw [KscPath.parse, cString_eq_self hzero] at hparse
      exact absurd hparse (by simp [hslash])

end Counting

section Keeping
variable {path : List PathName} {str : KsString} {sz n : ℕ}

/-- The names of a path are skipped one by one. -/
theorem componentsEnd_names (h : str.drop sz = writeNames path) :
    componentsEnd str n sz =
      if n ≤ path.length then some (sz + (writeNames (path.take n)).length) else none := by
  induction n generalizing sz path with
  | zero => simp [componentsEnd, writeNames]
  | succ n ih =>
    cases path with
    | nil =>
      have hle : str.length ≤ sz := List.drop_eq_nil_iff.mp h
      rw [componentsEnd, if_neg (Nat.not_lt.mpr hle), if_neg (by simp)]
    | cons c path =>
      have hlt : sz < str.length := by
        by_contra hle
        rw [List.drop_eq_nil_of_le (Nat.not_lt.mp hle)] at h
        exact absurd h (by simp [writeNames_cons])
      have hdrop : str.drop (sz + 1) = c.name ++ writeNames path := by
        rw [← List.drop_drop, h, writeNames_cons, List.drop_succ_cons, List.drop_zero]
      have hend := nameEnd_eq hdrop head_writeNames
      have hrest : str.drop (nameEnd str (sz + 1)) = writeNames path := by
        rw [hend, ← List.drop_drop, hdrop, List.drop_left]
      rw [componentsEnd, if_pos hlt, ih hrest, hend]
      simp only [List.length_cons, Nat.add_le_add_iff_right, List.take_succ_cons, writeNames_cons,
        List.length_append]
      congr 2
      omega

theorem substr_zero (hzero : 0 ∉ str) (n : ℕ) : substr str 0 (some n) = str.take n := by
  rw [substr]
  by_cases hle : str.length ≤ n
  · rw [if_pos ⟨rfl, by simpa using hle⟩, List.take_of_length_le hle]
  · rw [if_neg (by simpa using hle), if_pos (by omega)]
    exact congrArg (List.take n) (cString_eq_self hzero)

theorem take_writeNames (path : List PathName) (n : ℕ) :
    (writeNames path).take (writeNames (path.take n)).length = writeNames (path.take n) := by
  conv_lhs => rw [← List.take_append_drop n path, writeNames_append, List.take_append_drop]
  exact List.take_left ..

/-- The components that are kept, if there are so many. -/
theorem keptPath_names {p : KscPath} (hp : p.str = writePath path) (hne : path ≠ [])
    (hn : 0 < n) : keptPath p n =
      if n ≤ path.length then some (writePath (path.take n)) else none := by
  obtain ⟨c, path, rfl⟩ := List.exists_cons_of_ne_nil hne
  obtain ⟨n, rfl⟩ := Nat.exists_eq_succ_of_ne_zero (Nat.ne_of_gt hn)
  have hzero := not_mem_writePath (c :: path)
  obtain ⟨a, name, hname, ha⟩ := c.exists_cons
  have htake := take_writeNames (c :: path) (n + 1)
  have hnil : writePath (c :: path) ≠ [] := by simp [writePath, writeNames_cons]
  rw [keptPath, if_neg (by simp), hp, cString_eq_self hzero]
  simp only [if_neg hnil, substr_zero hzero]
  have hends : ∀ sz, (writePath (c :: path)).drop sz = writeNames (c :: path) →
      componentsEnd (writePath (c :: path)) (n + 1) sz = _ := fun sz h => componentsEnd_names h
  cases hpart : c.isPart with
  | false =>
    have hpath : writePath (c :: path) = writeNames (c :: path) := by simp [writePath, hpart]
    have hsecond : charAt (writePath (c :: path)) 1 = a := by
      rw [hpath, writeNames_cons, hname]
      rfl
    rw [hsecond, if_neg (isNameChar_ne ha).2.2,
      hends 0 hpath]
    split
    · rw [Option.bind_eq_bind, Option.bind_some, Nat.zero_add, hpath, htake, List.take_succ_cons,
        writePath, hpart]
      rfl
    · rfl
  | true =>
    have hpath : writePath (c :: path) = slashChar :: writeNames (c :: path) := by
      simp [writePath, hpart]
    have hsecond : charAt (writePath (c :: path)) 1 = dotChar := by
      rw [hpath, writeNames_cons, PathName.delimiter, hpart]
      rfl
    rw [hsecond, if_pos rfl, hends 1 (by rw [hpath]; rfl)]
    split
    · rw [Option.bind_eq_bind, Option.bind_some, hpath, Nat.add_comm 1, List.take_succ_cons, htake,
        List.take_succ_cons, writePath, hpart]
      rfl
    · rfl

theorem keptPath_of_nil {p : KscPath} (hp : p.str = []) (hn : 0 < n) : keptPath p n = none := by
  rw [keptPath, if_neg (Nat.ne_of_gt hn), hp]
  rfl

end Keeping

namespace KscPathParser

/-- The locators against which relative paths can be resolved. -/
def HasServerOrPath (parser : KscPathParser) : Prop :=
  parser.pathType = .pathOnly ∨ parser.pathType = .hostServer ∨ parser.pathType = .resourceLocator

/-- What a locator of such a type consists of. -/
structure WellMade (parser : KscPathParser) : Prop where
  hostserver : parser.hostserver = [] ↔ parser.pathType = .pathOnly
  hostserver_noZero : 0 ∉ parser.hostserver
  noPath : parser.pathType = .hostServer → parser.fullPath.str = []
  path : parser.pathType ≠ .hostServer →
    ∃ str, 0 ∉ str ∧ parser.fullPath = .ofString str ∧ parser.fullPath.valid = true

variable {parser : KscPathParser} {base : List PathName}

theorem parseResourceLocator_hostserver (str : KsString) :
    ((parseResourceLocator str).1 = .pathOnly → (parseResourceLocator str).2.1 = []) ∧
      ((parseResourceLocator str).1 = .hostServer ∨ (parseResourceLocator str).1 = .resourceLocator →
        (parseResourceLocator str).2.1 ≠ []) ∧
      (parseResourceLocator str).2.1 ⊆ str := by
  rw [parseResourceLocator]
  dsimp only
  split_ifs with h₀ h₁ h₂ h₃ h₄ h₅
  · simp
  · simp
  · simp
  · simp
  · simp
  · refine ⟨by simp, fun _ hnil => h₀ ?_, List.Subset.refl _⟩
    have hnil : str = [] := hnil
    rw [hnil]
    decide
  · refine ⟨by simp, fun _ hnil => ?_, List.take_subset ..⟩
    obtain hpos | hnil := List.take_eq_nil_iff.mp hnil
    · rw [nextSlash] at hpos
      omega
    · rw [hnil] at h₀
      exact h₀ (by decide)

theorem ofString_wellMade {str : KsString} {undefined : ℕ}
    (h : (ofString str undefined).HasServerOrPath) : (ofString str undefined).WellMade := by
  have hzero : ∀ n, 0 ∉ (cString str).drop n :=
    fun n hmem => not_mem_cString str (List.mem_of_mem_drop hmem)
  obtain ⟨hnone, hsome, hsubset⟩ := parseResourceLocator_hostserver (cString str)
  have hhost : 0 ∉ (parseResourceLocator (cString str)).2.1 :=
    fun hmem => not_mem_cString str (hsubset hmem)
  revert h
  rw [ofString]
  dsimp only
  intro h
  split_ifs at h ⊢ with hpath hvalid hinvalid
  · refine ⟨⟨fun hnil => ?_, hnone⟩, hhost, fun htype => ?_, fun _ => ⟨_, hzero _, rfl, hvalid⟩⟩
    · obtain htype | htype := hpath
      · exact absurd hnil (hsome (Or.inr htype))
      · exact htype
    · have htype : (parseResourceLocator (cString str)).1 = .hostServer := htype
      exact absurd hpath (by simp [htype])
  · exact absurd h (by simp [HasServerOrPath])
  · exact absurd h (by simp [HasServerOrPath])
  · have htype : (parseResourceLocator (cString str)).1 = .hostServer := by
      obtain htype | htype | htype := h
      · exact absurd (Or.inr htype) hpath
      · exact htype
      · exact absurd (Or.inl htype) hpath
    refine ⟨⟨fun hnil => absurd hnil (hsome (Or.inl htype)), fun hpathOnly => ?_⟩, hhost,
      fun _ => rfl, fun hne => absurd htype hne⟩
    exact absurd (htype.symm.trans hpathOnly) (by decide)

theorem WellMade.exists_hasPath (h : parser.WellMade) : ∃ base, parser.HasPath base := by
  by_cases htype : parser.pathType = .hostServer
  · exact ⟨[], by rw [HasPath, if_pos htype]⟩
  · obtain ⟨str, hzero, hpath, hvalid⟩ := h.path htype
    rw [hpath] at hvalid
    obtain ⟨base, rfl⟩ := exists_writePath hzero hvalid
    refine ⟨base, ?_⟩
    rw [HasPath, if_neg htype, hpath, KscPath.ofString]
    split <;> rfl

/-- A part of the root is counted twice. -/
theorem WellMade.countComponents_eq (h : parser.WellMade) (hpath : parser.HasPath base)
    (htype : parser.pathType ≠ .hostServer) :
    parser.fullPath.countComponents = base.length + partsOfRoot base := by
  obtain ⟨str, -, hfull, -⟩ := h.path htype
  rw [HasPath, if_neg htype] at hpath
  have hstr : str = writePath base := by
    rw [← hpath, hfull, KscPath.ofString]
    split <;> rfl
  obtain ⟨last, hparse⟩ := parse_writePath base
  rw [hfull, hstr, KscPath.ofString, hparse]
  rfl

end KscPathParser
end AcpltKs
