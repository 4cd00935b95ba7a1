import AcpltKs.Path.Reading

/-! The grammar of the client's paths, and what a path says about its components. -/
namespace AcpltKs

namespace KscPath

/-- The last component. -/
def getName (p : KscPath) : KsString :=
  if p.slashCount ≠ 0 then substr p.str p.lastComp none else []

def isNamePart (p : KscPath) : Bool :=
  p.slashCount ≠ 0 && p.lastComp ≠ 0 && charAt p.str (p.lastComp - 1) = dotChar

/-- The path without its last component. -/
def getPathOnly (p : KscPath) : KsString :=
  if 1 < p.slashCount then substr p.str 0 (some (p.lastComp - 1)) else [slashChar]

/-- What a path tells about its components. -/
structure Tells (p : KscPath) (path : List PathName) : Prop where
  countComponents : p.countComponents = path.length
  getName : p.getName = (path.getLast?.map PathName.name).getD []
  isNamePart : p.isNamePart = path.getLast?.any PathName.isPart
  getPathOnly : p.getPathOnly = writePath path.dropLast

/-- The paths of the grammar are accepted, no others, and they tell about their components. -/
def FollowsGrammar (str : KsString) : Prop :=
  ((ofString str).valid = true ↔ ∃ path, cString str = writePath path) ∧
    ∀ path, cString str = writePath path → (ofString str).Tells path

end KscPath

section Counting
variable {path : List PathName} {c : PathName} {str : KsString}

/-- The last component of names with their delimiters. -/
theorem parseComponents_concat (init : List PathName) (c : PathName)
    (pos slashCount lastComp : ℕ) :
    parseComponents (writeNames (init ++ [c])) pos false slashCount lastComp =
      some (slashCount + (init.length + 1), pos + (writeNames init).length + 1) := by
  induction init generalizing pos slashCount lastComp with
  | nil =>
    rw [List.nil_append, writeNames, List.flatMap_singleton, ← List.append_nil c.text,
      parseComponents_text]
    rfl
  | cons d init ih =>
    rw [List.cons_append, writeNames, List.flatMap_cons, parseComponents_text, ← writeNames, ih,
      List.length_cons, writeNames_cons, List.length_cons, List.length_append]
    congr 2 <;> omega

/-- What stands in front of the last name. -/
def beforeName : List PathName → PathName → KsString
  | [], c => if c.isPart then [slashChar, dotChar] else [slashChar]
  | d :: init, c => writePath (d :: init) ++ [c.delimiter]

theorem writePath_concat (init : List PathName) (c : PathName) :
    writePath (init ++ [c]) = beforeName init c ++ c.name := by
  cases init with
  | nil =>
    rw [List.nil_append, writePath, writeNames_cons, beforeName, PathName.delimiter]
    cases c.isPart <;> simp [writeNames]
  | cons d init =>
    rw [writePath_append (List.cons_ne_nil d init), writeNames_cons, beforeName]
    simp [writeNames]

theorem length_beforeName_nil (c : PathName) :
    (beforeName [] c).length = 1 + partsOfRoot [c] := by
  rw [beforeName, partsOfRoot, List.head?_cons, Option.any_some]
  cases c.isPart <;> rfl

theorem parse_concat (init : List PathName) (c : PathName) :
    KscPath.parse (writePath (init ++ [c])) =
      some (init.length + 1 + partsOfRoot (init ++ [c]), (beforeName init c).length) := by
  cases init with
  | nil =>
    rw [List.nil_append, parse_cons, length_beforeName_nil]
    rfl
  | cons d init =>
    have hparts : partsOfRoot (d :: init) = partsOfRoot (d :: (init ++ [c])) := rfl
    have hlength : (beforeName (d :: init) c).length =
        1 + partsOfRoot (d :: init) + d.name.length + (writeNames init).length + 1 := by
      rw [beforeName, List.length_append, writePath, writeNames_cons, partsOfRoot,
        List.head?_cons, Option.any_some]
      cases d.isPart <;> simp <;> omega
    rw [List.cons_append, parse_cons, parseComponents_concat, hlength, hparts, List.length_cons]
    congr 2
    omega

end Counting

namespace KscPath
variable {path : List PathName} {c : PathName} {str : KsString}

theorem parse_cString (str : KsString) : parse (cString str) = parse str := by
  rw [parse, parse, cString_cString]

theorem ofString_concat {init : List PathName} (h : cString str = writePath (init ++ [c])) :
    ofString str = ⟨str, true, init.length + 1 + partsOfRoot (init ++ [c]),
      (beforeName init c).length⟩ := by
  rw [ofString, ← parse_cString, h, parse_concat]

theorem ofString_root (h : cString str = writePath []) : ofString str = ⟨str, true, 0, 1⟩ := by
  rw [ofString, ← parse_cString, h]
  rfl

/-- The last name stands behind its delimiter, and that behind the other names, if there are any. -/
theorem beforeName_eq (init : List PathName) (c : PathName) :
    ∃ others, beforeName init c = others ++ [c.delimiter] ∧
      if 1 < init.length + 1 + partsOfRoot (init ++ [c]) then others = writePath init
      else init = [] := by
  cases init with
  | nil =>
    rw [List.nil_append, partsOfRoot, List.head?_cons, Option.any_some, beforeName,
      PathName.delimiter]
    cases c.isPart
    · exact ⟨[], rfl, rfl⟩
    · exact ⟨[slashChar], rfl, rfl⟩
  | cons d init =>
    refine ⟨writePath (d :: init), rfl, ?_⟩
    rw [if_pos (by rw [List.length_cons]; omega)]

theorem substr_cString {first : ℕ} (hne : first ≠ 0) (hle : first ≤ (cString str).length) :
    substr str first none = (cString str).drop first := by
  rw [substr, if_neg (fun h => hne h.1)]
  split_ifs with hlt
  · exact cString_drop hle
  · have hlength := cString_length_le str
    rw [List.drop_eq_nil_of_le (by omega)]

theorem take_cString {n : ℕ} (hlt : n < (cString str).length) :
    substr str 0 (some n) = (cString str).take n := by
  have hlength := cString_length_le str
  rw [substr, if_neg (by simp; omega), if_pos (by omega)]
  rfl

theorem charAt_cString {i : ℕ} (hlt : i < (cString str).length) :
    charAt str i = charAt (cString str) i := by
  obtain ⟨rest, hrest⟩ := cString_append_rest str
  rw [charAt, charAt, List.getD_eq_getElem?_getD, List.getD_eq_getElem?_getD]
  conv_lhs => rw [hrest]
  rw [List.getElem?_append_left hlt]

/-- A path tells the truth about its last component; a part of the root is counted twice. -/
theorem tells_concat {init : List PathName} (h : cString str = writePath (init ++ [c])) :
    (ofString str).getName = c.name ∧ (ofString str).isNamePart = c.isPart ∧
      (ofString str).getPathOnly = writePath init := by
  obtain ⟨others, hothers, hif⟩ := beforeName_eq init c
  have hstr : cString str = others ++ c.delimiter :: c.name := by
    rw [h, writePath_concat, hothers, List.append_assoc, List.singleton_append]
  have hlast : (beforeName init c).length = others.length + 1 := by
    rw [hothers, List.length_append, List.length_singleton]
  rw [ofString_concat h, hlast]
  refine ⟨?_, ?_, ?_⟩
  · rw [getName, if_pos (by simp), substr_cString (by simp) (by simp [hstr]), hstr]
    simp
  · have hchar : charAt str others.length = c.delimiter := by
      rw [charAt_cString (by simp [hstr]), hstr]
      simp [charAt]
    rw [isNamePart, Nat.add_sub_cancel, hchar, PathName.delimiter]
    cases c.isPart <;> simp [slashChar, dotChar]
  · rw [getPathOnly, Nat.add_sub_cancel]
    split_ifs at hif ⊢ with hone
    · rw [take_cString (by simp [hstr]), hstr, List.take_left, hif]
    · rw [hif]
      rfl

theorem parse_eq (h : cString str = writePath path) :
    (ofString str).valid = true ∧ (ofString str).countComponents = path.length + partsOfRoot path := by
  obtain ⟨last, hlast⟩ := parse_writePath path
  rw [countComponents, ofString, ← parse_cString, h, hlast]
  exact ⟨rfl, rfl⟩

/-- Exactly the paths of the grammar are accepted. -/
theorem valid_iff (str : KsString) :
    (ofString str).valid = true ↔ ∃ path, cString str = writePath path := by
  constructor
  · intro hvalid
    refine exists_writePath (not_mem_cString str) ?_
    rw [ofString, parse_cString]
    rw [ofString] at hvalid
    split at hvalid <;> simp_all
  · rintro ⟨path, h⟩
    exact (parse_eq h).1

/-- The components are counted right unless the path begins with a part of the root. -/
theorem followsGrammar_iff (str : KsString) : FollowsGrammar str ↔
    ∀ c path, cString str = writePath (c :: path) → c.isPart = false := by
  constructor
  · intro hfollows c path h
    have hright := (hfollows.2 _ h).countComponents
    rw [(parse_eq h).2, partsOfRoot, List.head?_cons, Option.any_some] at hright
    by_contra hpart
    rw [if_pos (by simpa using hpart)] at hright
    omega
  · intro hchild
    refine ⟨valid_iff str, fun path h => ?_⟩
    have hparts : partsOfRoot path = 0 := by
      cases path with
      | nil => rfl
      | cons c path =>
        rw [partsOfRoot, List.head?_cons, Option.any_some, hchild c path h]
        rfl
    have hlength : (ofString str).countComponents = path.length := by
      rw [(parse_eq h).2, hparts, Nat.add_zero]
    obtain rfl | ⟨init, c, rfl⟩ := path.eq_nil_or_concat'
    · rw [ofString_root h] at hlength ⊢
      exact ⟨rfl, rfl, rfl, rfl⟩
    · obtain ⟨hname, hpart, hothers⟩ := tells_concat h
      refine ⟨hlength, ?_, ?_, ?_⟩
      · rw [hname, List.getLast?_concat]
        rfl
      · rw [hpart, List.getLast?_concat]
        rfl
      · rw [hothers, List.dropLast_concat]

/-- `/.a` has two delimiters. -/
theorem not_followsGrammar_part : ¬ FollowsGrammar [slashChar, dotChar, 97] := by
  intro h
  have hcount := (h.2 [⟨true, [97], by decide, List.forall_mem_singleton.mpr rfl⟩] rfl).countComponents
  exact absurd hcount (by decide)

end KscPath

end AcpltKs
