import AcpltKs.Library.DelimitedText
import AcpltKs.Path.Basic
import Mathlib.Data.List.GetD

/-! Which components the parser finds in a path string, and when it stays inside of the string. -/
namespace AcpltKs
open DelimitedText

/-- The leading points of a relative path and the slashes behind them. -/
def skipItems : KsString → KsString
  | dotChar :: slashChar :: s => skipItems s
  | dotChar :: dotChar :: slashChar :: s => skipItems s
  | s => s

/-- What is between the slashes behind the beginning of a path. -/
def pathPieces (str : KsString) : List KsString :=
  List.splitOn slashChar (if (cString str).head? = some slashChar then (cString str).tail
    else skipItems (cString str))

/-- A path is parsed exactly if no character behind the null character at the end is looked at, and
the components are the pieces between the slashes. -/
def ParsedExactly (str : KsString) : Prop :=
  ∃ p, KsPath.ofString str = some p ∧ p.components.map cString = pathPieces str

def isSlashOrDot (c : UInt8) : Bool := c == slashChar || c == dotChar

theorem countSlashes_slash (p : KsString) : countSlashes (slashChar :: p) true = none := by
  rw [countSlashes, if_pos rfl, if_pos rfl]

theorem countSlashes_eq {p : KsString} {wasSlash : Bool} {n : ℕ}
    (hcount : countSlashes p wasSlash = some n) : n = p.count slashChar := by
  fun_induction countSlashes p wasSlash generalizing n with
  | case1 => exact (Option.some.inj hcount).symm
  | case2 => exact absurd hcount (by simp)
  | case3 p wasSlash _ ih =>
    obtain ⟨m, hm, rfl⟩ := Option.map_eq_some_iff.mp hcount
    rw [ih hm, List.count_cons_self]
  | case4 c p _ hc ih => rw [ih hcount, List.count_cons_of_ne hc]

/-- The points are skipped item by item, and what is behind them does not begin with another one. -/
theorem skipPoints_eq {p rest : KsString} {wasSlash wasSlash' : Bool} {goUp goUp' : ℕ}
    (hskip : skipPoints p wasSlash goUp = some (rest, wasSlash', goUp')) :
    goUp ≤ goUp' ∧ rest = skipItems p ∧ rest.head? ≠ some dotChar ∧ ∃ items, p = items ++ rest ∧
      items.all isSlashOrDot = true ∧ (items = [] → wasSlash' = wasSlash) ∧
      (items ≠ [] → wasSlash' = true) := by
  fun_induction skipPoints p wasSlash goUp with
  | case1 p _ goUp ih =>
    obtain ⟨hup, hrest, hhead, items, rfl, hall, hnil, hne⟩ := ih hskip
    refine ⟨by omega, hrest, hhead, dotChar :: dotChar :: slashChar :: items, rfl, ?_, by simp,
      fun _ => ?_⟩
    · simpa [isSlashOrDot] using hall
    · by_cases hitems : items = []
      · exact hnil hitems
      · exact hne hitems
  | case2 => exact absurd hskip (by simp)
  | case3 p _ goUp ih =>
    obtain ⟨hup, hrest, hhead, items, rfl, hall, hnil, hne⟩ := ih hskip
    refine ⟨hup, hrest, hhead, dotChar :: slashChar :: items, rfl, ?_, by simp, fun _ => ?_⟩
    · simpa [isSlashOrDot] using hall
    · by_cases hitems : items = []
      · exact hnil hitems
      · exact hne hitems
  | case4 => exact absurd hskip (by simp)
  | case5 p wasSlash goUp hup hdots hstay hdot =>
    obtain ⟨rfl, rfl, rfl⟩ : p = rest ∧ wasSlash = wasSlash' ∧ goUp = goUp' := by simpa using hskip
    refine ⟨le_refl _, ?_, ?_, [], rfl, rfl, fun _ => rfl, fun h => absurd rfl h⟩
    · rw [skipItems.eq_3 p (fun s => hstay s) fun s => hup s]
    · intro hhead
      obtain ⟨tail, rfl⟩ : ∃ tail, p = dotChar :: tail := by
        cases p with
        | nil => exact absurd hhead (by simp)
        | cons c tail => exact ⟨tail, by simpa using hhead⟩
      exact hdot tail rfl

/-- Behind the part of the string that is skipped, slashes separate these pieces. -/
structure KsPath.Laid (p : KsPath) (skipped : KsString) (pieces : List KsString) : Prop where
  str : cString p.str = skipped ++ join slashChar pieces
  slash : p.slash = (starts skipped.length pieces).map some ++ [none]

/-- The components are these pieces, behind the part of the string that is skipped. -/
structure KsPath.Parses (p : KsPath) (skipped : KsString) (pieces : List KsString) : Prop where
  valid : p.valid = true
  str : cString p.str = skipped ++ join slashChar pieces
  slash : p.slash = (starts skipped.length pieces).map some ++ [none]
  first : p.first = 0
  last : p.last + 1 = pieces.length

/-- The slashes and dots at the beginning are skipped, and the slashes behind them separate the
components. -/
structure KsPath.Splits (p : KsPath) (skipped : KsString) (pieces : List KsString) : Prop
    extends p.Parses skipped pieces where
  skipped_all : skipped.all isSlashOrDot = true
  head : ∀ c ∈ (join slashChar pieces).head?, isSlashOrDot c = false
  noSlash : ∀ piece ∈ pieces, slashChar ∉ piece

theorem nextSlashes_append {piece : KsString} (hpiece : slashChar ∉ piece) (rest : List UInt8)
    (si n : ℕ) :
    nextSlashes (piece ++ rest) si (n + 1) = nextSlashes rest (si + piece.length) (n + 1) := by
  induction piece generalizing si with
  | nil => rfl
  | cons c piece ih =>
    have hc : c ≠ slashChar := fun h => hpiece (h ▸ List.mem_cons_self)
    rw [List.cons_append, nextSlashes, if_neg hc,
      ih (fun h => hpiece (List.mem_cons_of_mem c h)), List.length_cons]
    congr 1
    omega

/-- The slashes between the pieces are found, whatever there is behind the pieces. -/
theorem nextSlashes_join {piece : KsString} {pieces : List KsString}
    (hslash : ∀ q ∈ piece :: pieces, slashChar ∉ q) (rest : List UInt8) (si : ℕ) :
    nextSlashes (join slashChar (piece :: pieces) ++ rest) si pieces.length =
      some (starts si (piece :: pieces)).tail := by
  induction pieces generalizing piece si with
  | nil => simp [nextSlashes, starts]
  | cons piece' pieces ih =>
    have hnext := ih (fun q hq => hslash q (List.mem_cons_of_mem piece hq))
      (si + piece.length + 1)
    rw [join_cons (by simp), List.append_assoc, List.cons_append, List.length_cons,
      nextSlashes_append (hslash piece List.mem_cons_self), nextSlashes, if_pos rfl, hnext]
    rfl

theorem skipSlashesAndDots_cString (str : KsString) :
    skipSlashesAndDots (cString str) = skipSlashesAndDots str := by
  induction str with
  | nil => rfl
  | cons c str ih =>
    by_cases hc : c = 0
    · subst hc
      rfl
    · rw [cString_cons str hc]
      simp only [skipSlashesAndDots, List.takeWhile_cons] at ih ⊢
      split
      · simpa using ih
      · rfl

theorem skipSlashesAndDots_append {skipped rest : KsString}
    (hskipped : skipped.all isSlashOrDot = true)
    (hrest : ∀ c ∈ rest.head?, isSlashOrDot c = false) :
    skipSlashesAndDots (skipped ++ rest) = skipped.length := by
  rw [skipSlashesAndDots]
  have hstop : rest.takeWhile isSlashOrDot = [] := by
    cases rest with
    | nil => rfl
    | cons c rest => simp [hrest c rfl]
  have hall : ∀ c ∈ skipped, isSlashOrDot c = true := List.all_eq_true.mp hskipped
  have htake : (skipped ++ rest).takeWhile isSlashOrDot = skipped ++ rest.takeWhile isSlashOrDot :=
    List.takeWhile_append_of_pos hall
  rw [hstop, List.append_nil] at htake
  exact congrArg List.length htake

theorem cString_append_rest (str : KsString) : ∃ rest, str = cString str ++ rest :=
  ⟨_, (List.takeWhile_append_dropWhile ..).symm⟩

theorem findSlashes_splits {str skipped : KsString} {pieces : List KsString} (hne : pieces ≠ [])
    (hstr : cString str = skipped ++ join slashChar pieces)
    (hskipped : skipped.all isSlashOrDot = true)
    (hhead : ∀ c ∈ (join slashChar pieces).head?, isSlashOrDot c = false)
    (hslash : ∀ piece ∈ pieces, slashChar ∉ piece) (goUp : ℕ) :
    ∃ p, KsPath.findSlashes str goUp (pieces.length + 1) = some p ∧ p.Splits skipped pieces ∧
      p.goUp = goUp ∧ p.str = str := by
  obtain ⟨piece, pieces, rfl⟩ := List.exists_cons_of_ne_nil hne
  have hsi : skipSlashesAndDots str = skipped.length := by
    rw [← skipSlashesAndDots_cString, hstr, skipSlashesAndDots_append hskipped hhead]
  have hdrop : (cString str ++ [0]).drop skipped.length =
      join slashChar (piece :: pieces) ++ [0] := by
    rw [hstr]
    simp
  have hnext := nextSlashes_join hslash [0] skipped.length
  refine ⟨⟨str, true, (starts skipped.length (piece :: pieces)).map some ++ [none], 0,
      (starts skipped.length (piece :: pieces)).tail.length, goUp⟩,
    ?_, ⟨⟨rfl, hstr, rfl, rfl, ?_⟩, hskipped, hhead, hslash⟩, rfl, rfl⟩
  · simp only [KsPath.findSlashes, hsi, hdrop, List.length_cons, Nat.add_sub_cancel,
      Nat.add_assoc, Nat.reduceAdd]
    rw [hnext]
    rfl
  · simp

theorem cString_drop {str : KsString} {k : ℕ} (hk : k ≤ (cString str).length) :
    cString (str.drop k) = (cString str).drop k := by
  obtain ⟨rest, hrest⟩ := cString_append_rest str
  have hrest' : cString rest = [] := by
    have happend := cString_append (not_mem_cString str) rest
    rw [← hrest] at happend
    simpa using happend
  have hnot : 0 ∉ (cString str).drop k := fun h => not_mem_cString str (List.mem_of_mem_drop h)
  conv_lhs => rw [hrest, List.drop_append_of_le_length hk, cString_append hnot, hrest']
  rw [List.append_nil]

theorem cString_length_le (str : KsString) : (cString str).length ≤ str.length :=
  (List.takeWhile_sublist _).length_le

namespace KsPath
variable {p : KsPath} {skipped : KsString} {pieces : List KsString} {i : ℕ}

theorem Parses.size (h : p.Parses skipped pieces) : p.size = pieces.length := by
  rw [KsPath.size, if_pos h.valid, h.first, ← h.last, Nat.sub_zero]

theorem Laid.slashAt (h : p.Laid skipped pieces) (hi : i < pieces.length) :
    p.slashAt i = some (getElem (starts skipped.length pieces) i (by simpa using hi)) := by
  rw [KsPath.slashAt, h.slash, List.getD_append _ _ _ _ (by simpa using hi),
    List.getD_eq_getElem _ _ (by simpa using hi), List.getElem_map]

theorem Laid.slashAt_length (h : p.Laid skipped pieces) : p.slashAt pieces.length = none := by
  rw [KsPath.slashAt, h.slash, List.getD_append_right _ _ _ _ (by simp)]
  simp

/-- A part of the string from the start of a piece on. -/
theorem Laid.substr_start (h : p.Laid skipped pieces) (hi : i < pieces.length)
    (len : Option ℕ) :
    cString (substr p.str (getElem (starts skipped.length pieces) i (by simpa using hi)) len) =
      len.elim (join slashChar (pieces.drop i)) (join slashChar (pieces.drop i)).take := by
  have hdrop := drop_starts (d := slashChar) hi skipped
  have hle := starts_le hi skipped slashChar
  rw [← h.str] at hdrop hle
  have hcstring := cString_drop hle
  rw [hdrop] at hcstring
  have hnot : 0 ∉ join slashChar (pieces.drop i) := hcstring ▸ not_mem_cString _
  unfold substr
  split_ifs with hwhole hlt
  · obtain ⟨hzero, hlen⟩ := hwhole
    rw [hzero, List.drop_zero] at hdrop
    cases len with
    | none => exact hdrop
    | some n =>
      have hlength := cString_length_le p.str
      rw [hdrop] at hlength
      rw [hdrop, Option.elim_some, List.take_of_length_le (hlength.trans (hlen n rfl))]
  · rw [hcstring]
    cases len with
    | none => exact cString_eq_self hnot
    | some n => exact cString_eq_self fun hmem => hnot (List.mem_of_mem_take hmem)
  · have hnil : join slashChar (pieces.drop i) = [] := by
      rw [← hdrop]
      exact List.drop_of_length_le ((cString_length_le p.str).trans (Nat.not_lt.mp hlt))
    cases len <;> simp [hnil, cString]

theorem Parses.laid (h : p.Parses skipped pieces) : p.Laid skipped pieces := ⟨h.str, h.slash⟩

theorem Parses.slashAt (h : p.Parses skipped pieces) (hi : i < pieces.length) :
    p.slashAt i = some (getElem (starts skipped.length pieces) i (by simpa using hi)) :=
  h.laid.slashAt hi

theorem Parses.slashAt_length (h : p.Parses skipped pieces) : p.slashAt pieces.length = none :=
  h.laid.slashAt_length

theorem Parses.substr_start (h : p.Parses skipped pieces) (hi : i < pieces.length)
    (len : Option ℕ) :
    cString (substr p.str (getElem (starts skipped.length pieces) i (by simpa using hi)) len) =
      len.elim (join slashChar (pieces.drop i)) (join slashChar (pieces.drop i)).take :=
  h.laid.substr_start hi len

/-- The piece between two entries. -/
theorem Laid.slice (h : p.Laid skipped pieces) (hi : i < pieces.length) :
    cString (p.slice i (i + 1) 1) = pieces[i] := by
  have htake := take_join (d := slashChar) hi
  rw [KsPath.slice, h.slashAt hi]
  simp only
  by_cases hlast : i + 1 = pieces.length
  · rw [hlast, h.slashAt_length, Option.map_none, h.substr_start hi]
    have hdrop : pieces.drop i = [pieces[i]] := by
      rw [List.drop_eq_getElem_cons hi, List.drop_of_length_le hlast.ge]
    simp [hdrop]
  · have hi' : i + 1 < pieces.length := by omega
    have hstart := starts_succ (k := skipped.length) hi'
    rw [h.slashAt hi', Option.map_some, hstart]
    have hlen : getElem (starts skipped.length pieces) i (by simpa using hi) +
        pieces[i].length + 1 - getElem (starts skipped.length pieces) i (by simpa using hi) - 1 =
          pieces[i].length := by omega
    rw [hlen, h.substr_start hi]
    exact htake

theorem Parses.component (h : p.Parses skipped pieces) (hi : i < pieces.length) :
    cString (p.component i) = pieces[i] := by
  rw [KsPath.component, h.first, Nat.zero_add, h.laid.slice hi]

/-- The components are the pieces. -/
theorem Parses.components (h : p.Parses skipped pieces) : p.components.map cString = pieces := by
  rw [KsPath.components, h.size, List.map_map]
  refine List.ext_getElem (by simp) fun i hi hi' => ?_
  simp only [List.getElem_map, List.getElem_range, Function.comp_apply]
  exact h.component hi'

end KsPath

/-- A valid path is absolute, or begins with items and then something else than a slash or a dot. -/
theorem checkAndCount_eq {str : KsString} {goUp n : ℕ}
    (hcheck : checkAndCount str = some (goUp, n)) :
    (goUp = 0 ∧ ∃ rest, cString str = slashChar :: rest ∧ rest.head? ≠ some slashChar ∧
        n = rest.count slashChar) ∨
      (1 ≤ goUp ∧ (cString str).head? ≠ some slashChar ∧
        ∃ skipped rest, cString str = skipped ++ rest ∧
          skipped.all isSlashOrDot = true ∧ (∀ c ∈ rest.head?, isSlashOrDot c = false) ∧
          rest = skipItems (cString str) ∧ n = rest.count slashChar) := by
  rw [checkAndCount] at hcheck
  cases hstr : cString str with
  | nil =>
    rw [hstr] at hcheck
    exact absurd hcheck (by simp)
  | cons c p =>
    simp only [hstr] at hcheck
    by_cases hc : c = slashChar
    · rw [if_pos hc] at hcheck
      obtain ⟨m, hm, heq⟩ := Option.map_eq_some_iff.mp hcheck
      obtain ⟨rfl, rfl⟩ := Prod.mk.inj heq
      refine Or.inl ⟨rfl, p, by rw [hc], fun hhead => ?_, countSlashes_eq hm⟩
      obtain ⟨tail, rfl⟩ := List.head?_eq_some_iff.mp hhead
      rw [countSlashes_slash] at hm
      exact absurd hm (by simp)
    · rw [if_neg hc] at hcheck
      obtain ⟨⟨rest, wasSlash, up⟩, hskip, hcheck⟩ := Option.bind_eq_some_iff.mp hcheck
      obtain ⟨m, hm, heq⟩ := Option.bind_eq_some_iff.mp hcheck
      obtain ⟨rfl, rfl⟩ := Prod.mk.inj (Option.some.inj heq)
      obtain ⟨hup, hrest, hdot, items, happend, hall, hitems, hitems'⟩ := skipPoints_eq hskip
      refine Or.inr ⟨hup, by simpa using hc, items, rest, happend, hall, fun c' hc' => ?_,
        hrest, countSlashes_eq hm⟩
      obtain ⟨tail, rfl⟩ : ∃ tail, rest = c' :: tail := List.head?_eq_some_iff.mp hc'
      have hslash : c' ≠ slashChar := by
        rintro rfl
        by_cases hempty : items = []
        · rw [hempty, List.nil_append] at happend
          exact hc (List.cons.inj happend).1
        · rw [hitems' hempty, countSlashes_slash] at hm
          exact absurd hm (by simp)
      have hcdot : c' ≠ dotChar := fun hdotc => hdot (by rw [hdotc]; rfl)
      simp only [isSlashOrDot, Bool.or_eq_false_iff, beq_eq_false_iff_ne]
      exact ⟨hslash, hcdot⟩

theorem ofString_splits {str skipped rest : KsString} {goUp n : ℕ}
    (hcheck : checkAndCount str = some (goUp, n)) (hstr : cString str = skipped ++ rest)
    (hskipped : skipped.all isSlashOrDot = true)
    (hhead : ∀ c ∈ rest.head?, isSlashOrDot c = false)
    (hcount : n = rest.count slashChar) :
    ∃ p, KsPath.ofString str = some p ∧ p.Splits skipped (List.splitOn slashChar rest) ∧
      p.goUp = goUp ∧ p.str = str := by
  have hjoin : join slashChar (List.splitOn slashChar rest) = rest :=
    List.intercalate_splitOn slashChar
  rw [KsPath.ofString, hcheck]
  simp only
  have hlength : n + 2 = (List.splitOn slashChar rest).length + 1 := by
    rw [length_splitOn, hcount]
  rw [hlength]
  exact findSlashes_splits (List.splitOn_ne_nil slashChar rest) (by rw [hjoin, hstr]) hskipped
    (by rwa [hjoin]) (fun piece => not_mem_of_mem_splitOn) goUp

theorem head?_cString_ne {s : KsString} {c : UInt8} (h : s.head? ≠ some c) :
    (cString s).head? ≠ some c := by
  cases s with
  | nil => exact h
  | cons c' s =>
    by_cases hc : c' = 0
    · subst hc
      simp [cString]
    · rwa [cString_cons s hc]

theorem head?_substr_ne {str : KsString} {k : ℕ} {c : UInt8} (hk : k ≠ 0)
    (h : (str.drop k).head? ≠ some c) (len : Option ℕ) :
    (cString (substr str k len)).head? ≠ some c := by
  unfold substr
  rw [if_neg fun hwhole => hk hwhole.1]
  have hdrop := head?_cString_ne h
  split_ifs
  · cases len with
    | none => rwa [cString_cString]
    | some n =>
      refine head?_cString_ne ?_
      cases n with
      | zero => simp
      | succ n => rwa [List.head?_take, if_neg (by omega)]
  · simp [cString]

/-- Dots behind the first slash are skipped although they belong to the first component. -/
theorem not_parsedExactly {str rest : KsString}
    (hstr : cString str = slashChar :: dotChar :: rest) {goUp n : ℕ}
    (hcheck : checkAndCount str = some (goUp, n)) : ¬ ParsedExactly str := by
  rintro ⟨p, hparse, hcomponents⟩
  rw [KsPath.ofString, hcheck] at hparse
  obtain ⟨slashes, -, hfound⟩ := Option.bind_eq_some_iff.mp hparse
  obtain rfl := Option.some.inj hfound
  obtain ⟨first, others, hpieces⟩ : ∃ first others,
      pathPieces str = (dotChar :: first) :: others := by
    obtain ⟨first, others, hsplit⟩ :=
      List.exists_cons_of_ne_nil (List.splitOn_ne_nil slashChar rest)
    refine ⟨first, others, ?_⟩
    rw [pathPieces, hstr, if_pos (by simp), List.tail_cons, List.splitOn_cons_eq_if_modifyHead,
      if_neg (by decide), hsplit]
    rfl
  have hsi : skipSlashesAndDots str ≠ 0 := by
    rw [← skipSlashesAndDots_cString, hstr]
    simp [skipSlashesAndDots]
  have hhead : (str.drop (skipSlashesAndDots str)).head? ≠ some dotChar := by
    have hdrop : str.drop (skipSlashesAndDots str) = str.dropWhile isSlashOrDot := by
      have happend := List.takeWhile_append_dropWhile (p := isSlashOrDot) (l := str)
      nth_rewrite 2 [← happend]
      exact List.drop_left
    rw [hdrop]
    intro hhead
    have hnot := List.head?_dropWhile_not isSlashOrDot str
    rw [hhead] at hnot
    exact absurd hnot (by decide)
  rw [hpieces, KsPath.components, KsPath.size, if_pos rfl, Nat.sub_zero, List.range_succ_eq_map,
    List.map_cons, List.map_cons] at hcomponents
  refine head?_substr_ne hsi hhead _ (congrArg List.head? (List.cons.inj hcomponents).1)

/-- A valid path is parsed exactly unless it is absolute and its first component starts with a
dot. -/
theorem parsedExactly_iff {str : KsString} (hvalid : (checkAndCount str).isSome = true) :
    ParsedExactly str ↔ ∀ rest, cString str ≠ slashChar :: dotChar :: rest := by
  obtain ⟨⟨goUp, n⟩, hcheck⟩ := Option.isSome_iff_exists.mp hvalid
  refine ⟨fun h rest hstr => not_parsedExactly hstr hcheck h, fun hdot => ?_⟩
  obtain ⟨-, rest, hstr, hnot, hcount⟩ |
    ⟨-, hslash, skipped, rest, hstr, hall, hhead, hrest, hcount⟩ := checkAndCount_eq hcheck
  · have hhead : ∀ c ∈ rest.head?, isSlashOrDot c = false := by
      intro c hc
      obtain ⟨tail, rfl⟩ : ∃ tail, rest = c :: tail := List.head?_eq_some_iff.mp hc
      simp only [isSlashOrDot, Bool.or_eq_false_iff, beq_eq_false_iff_ne]
      refine ⟨fun hc => hnot (by rw [hc]; rfl), ?_⟩
      rintro rfl
      exact hdot tail hstr
    have hstr' : cString str = [slashChar] ++ rest := hstr
    obtain ⟨p, hp, hsplits, -, -⟩ := ofString_splits hcheck hstr' (by decide) hhead hcount
    refine ⟨p, hp, ?_⟩
    rw [hsplits.components, pathPieces, hstr, if_pos (by simp), List.tail_cons]
  · obtain ⟨p, hp, hsplits, -, -⟩ := ofString_splits hcheck hstr hall hhead hcount
    refine ⟨p, hp, ?_⟩
    rw [hsplits.components, pathPieces, if_neg hslash, hrest]

/-- The path `../a/b`. -/
theorem parsedExactly_twoComponents : ParsedExactly [46, 46, 47, 97, 47, 98] :=
  (parsedExactly_iff (by decide)).mpr fun rest h => absurd (List.cons.inj h).1 (by decide)

/-- The path `/./a`: a second slash is looked for behind the end of the string. -/
theorem not_parsedExactly_slashDot :
    (checkAndCount [47, 46, 47, 97]).isSome = true ∧ ¬ ParsedExactly [47, 46, 47, 97] := by
  refine ⟨by decide, ?_⟩
  rintro ⟨p, hparse, -⟩
  have hnone : KsPath.ofString [47, 46, 47, 97] = none := by decide
  exact absurd (hnone.symm.trans hparse) (by simp)

end AcpltKs
