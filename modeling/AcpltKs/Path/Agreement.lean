import AcpltKs.Path.Reading

/-! When the resolution of a path comes to what the path stands for. -/
namespace AcpltKs
open LevelMoves PathStep

section Building
variable {str : KsString} {q : PathPiece} {c : PathName} {names : List PathName}
  {pieces : List PathPiece}

theorem charAt_of_take {i n : ℕ} {a : UInt8} {s : KsString} (h : (str.drop i).take n = a :: s) :
    charAt str i = a := by
  cases hdrop : str.drop i with
  | nil =>
    rw [hdrop, List.take_nil] at h
    exact absurd h (by simp)
  | cons b rest =>
    cases n with
    | zero => exact absurd h (by simp)
    | succ n =>
      rw [hdrop, List.take_succ_cons] at h
      exact (charAt_of_drop hdrop).trans (List.cons.inj h).1

/-- With the slash in front of it a component is added like the name that it shows. -/
theorem PathPiece.Shows.leadingSlash_append (h : q.Shows str c) (keep : ℕ) :
    leadingSlash keep (charAt str q.p) ++ (str.drop q.p).take q.len =
      (if keep = 0 ∧ c.isPart = true then [slashChar] else []) ++ c.text := by
  obtain h | ⟨-, hpart, h⟩ := h
  · rw [charAt_of_take h, h, leadingSlash, PathName.delimiter]
    cases c.isPart with
    | false => simp [show slashChar ≠ dotChar by decide]
    | true => simp
  · obtain ⟨a, name, hname, ha⟩ := c.exists_cons
    obtain ⟨-, hslash, hdot⟩ := isNameChar_ne ha
    rw [charAt_of_take (h.trans hname), h, leadingSlash, PathName.text, PathName.delimiter, hpart]
    simp [hslash, hdot]

/-- The components of names that follow each other are added in one run. -/
theorem buildComponents_cons (hshows : List.Forall₂ (PathPiece.Shows str) pieces names)
    (hjoined : (q :: pieces).IsChain fun q q' => q'.joinWithPrevious = true → q'.p = q.p + q.len)
    (keep : ℕ) : buildComponents str keep (q :: pieces) =
      leadingSlash keep (charAt str q.p) ++ (str.drop q.p).take q.len ++ writeNames names := by
  induction hshows generalizing q keep with
  | nil =>
    rw [buildComponents, List.takeWhile_nil, List.dropWhile_nil, buildComponents]
    rfl
  | @cons q' c pieces names hshow _ ih =>
    obtain ⟨hfollow, hrest⟩ := List.isChain_cons_cons.mp hjoined
    by_cases hjoin : q'.joinWithPrevious = true
    · have hp := hfollow hjoin
      have htext : (str.drop q'.p).take q'.len = c.text :=
        hshow.resolve_right fun h => absurd (hjoin.symm.trans h.1) (by simp)
      have hmerged : buildComponents str keep (q :: q' :: pieces) =
          buildComponents str keep ({ q with len := q.len + q'.len } :: pieces) := by
        rw [buildComponents, buildComponents, List.takeWhile_cons_of_pos hjoin,
          List.dropWhile_cons_of_pos hjoin, List.map_cons, List.sum_cons, Nat.add_assoc]
      rw [hmerged, ih (q := { q with len := q.len + q'.len }), List.take_add, List.drop_drop, ← hp,
        htext]
      · simp only [List.append_assoc]
        rfl
      · refine List.isChain_cons.mpr ⟨fun q'' hq'' hjoin'' => ?_, hrest.tail⟩
        have hp'' := (List.isChain_cons.mp hrest).1 q'' hq'' hjoin''
        dsimp only
        omega
    · rw [buildComponents, List.takeWhile_cons_of_neg hjoin, List.dropWhile_cons_of_neg hjoin,
        ih hrest, hshow.leadingSlash_append]
      have hkeep : max keep 1 ≠ 0 := by omega
      simp [hkeep]
      rfl

/-- All components of a stack. -/
theorem buildComponents_eq (hshows : List.Forall₂ (PathPiece.Shows str) pieces names)
    (hjoined : pieces.IsChain fun q q' => q'.joinWithPrevious = true → q'.p = q.p + q.len)
    (keep : ℕ) : buildComponents str keep pieces =
      (if keep = 0 ∧ names ≠ [] then writePath names else writeNames names) := by
  cases hshows with
  | nil => simp [buildComponents, writeNames]
  | @cons q c pieces names hshow hshows =>
    rw [buildComponents_cons hshows hjoined, hshow.leadingSlash_append, List.append_assoc]
    by_cases hkeep : keep = 0
    · subst hkeep
      simp only [ne_eq, reduceCtorEq, not_false_eq_true, true_and, if_true]
      rfl
    · simp only [hkeep, false_and, if_false]
      rfl

end Building

section Lengths
variable {str : KsString} {room : ℕ → Bool} {readings : List PathReading} {cursor : PathCursor}

theorem exists_drop_of_charAt {i : ℕ} (h : charAt str i ≠ 0) :
    ∃ s, str.drop i = charAt str i :: s := by
  cases hdrop : str.drop i with
  | nil => exact absurd (charAt_of_drop hdrop) h
  | cons a s => exact ⟨s, by rw [charAt_of_drop hdrop]; rfl⟩

theorem lt_nameEnd {i : ℕ} (h : isNameChar (charAt str i) = true) : i < nameEnd str i := by
  obtain ⟨s, hs⟩ := exists_drop_of_charAt (isNameChar_ne h).1
  rw [nameEnd, hs, List.takeWhile_cons_of_pos h, List.length_cons]
  omega

/-- The separator of a component is in front of it, except that of the first one. -/
theorem readComponent_len_pos {cursor' : PathCursor} {reading : PathReading}
    (hne : charAt str cursor.p ≠ 0) (hsz : cursor.sz < cursor.p ∨
      cursor.sz = cursor.p ∧ charAt str cursor.p ≠ slashChar)
    (h : readComponent str cursor = some (reading, cursor')) :
    (∀ p len joinWithPrevious, reading = .name p len joinWithPrevious → 0 < len) ∧
      (charAt str cursor'.p ≠ 0 → cursor'.sz < cursor'.p) := by
  have hbehind : ∀ e, charAt str (if charAt str e ≠ 0 then e + 1 else e) ≠ 0 →
      e < if charAt str e ≠ 0 then e + 1 else e := by
    intro e he
    split_ifs at he ⊢ with hzero
    · exact Nat.lt_succ_self e
    · exact absurd (not_not.mp hzero) he
  rw [readComponent] at h
  split_ifs at h with hdot hslash hdots hbad hallowed hend
  · obtain ⟨rfl, rfl⟩ := Prod.mk.inj (Option.some.inj h)
    exact ⟨by simp, hbehind _⟩
  · obtain ⟨rfl, rfl⟩ := Prod.mk.inj (Option.some.inj h)
    exact ⟨by simp, hbehind _⟩
  · obtain ⟨rfl, rfl⟩ := Prod.mk.inj (Option.some.inj h)
    refine ⟨fun p len join heq => ?_, hbehind _⟩
    obtain ⟨-, rfl, -⟩ := PathReading.name.inj heq
    have hle := le_nameEnd str (cursor.p + 1)
    dsimp only
    omega
  · obtain ⟨rfl, rfl⟩ := Prod.mk.inj (Option.some.inj h)
    refine ⟨fun p len join heq => ?_, hbehind _⟩
    obtain ⟨-, rfl, -⟩ := PathReading.name.inj heq
    have hle := le_nameEnd str cursor.p
    obtain hsz | ⟨hsz, hslash⟩ := hsz
    · omega
    · have hname : isNameChar (charAt str cursor.p) = true := by
        simp [isNameChar, hne, hslash, hdot]
      have hlt := lt_nameEnd hname
      omega

/-- No component on the stack is empty. -/
theorem ReadTo.items_len_pos (h : ReadTo str room readings cursor)
    (hslash : charAt str 0 ≠ slashChar) :
    (∀ q ∈ (PathReading.pathTrace readings).items, 0 < q.len) ∧
      (charAt str cursor.p ≠ 0 → cursor.sz < cursor.p ∨
        cursor.sz = cursor.p ∧ charAt str cursor.p ≠ slashChar) := by
  induction h with
  | start => exact ⟨by simp [PathReading.pathTrace, trace, Trace.start], fun _ => Or.inr ⟨rfl, hslash⟩⟩
  | @next readings cursor cursor' reading _ hne hr _ ih =>
    obtain ⟨hpos, hsz⟩ := ih
    obtain ⟨hlen, hsz'⟩ := readComponent_len_pos hne (hsz hne) hr
    refine ⟨?_, fun hne' => Or.inl (hsz' hne')⟩
    rw [PathReading.pathTrace_append]
    cases reading with
    | stay => exact hpos
    | up =>
      dsimp only [PathReading.move]
      rw [Trace.move]
      split
      · exact hpos
      · exact fun q hq => hpos q (List.dropLast_subset _ hq)
    | name p len joinWithPrevious =>
      intro q hq
      obtain hq | hq := List.mem_append.mp hq
      · exact hpos q hq
      · rw [List.mem_singleton.mp hq]
        exact hlen _ _ _ rfl

theorem buildComponents_ne_nil {q : PathPiece} (hq : 0 < q.len) (keep : ℕ)
    (pieces : List PathPiece) : buildComponents str keep (q :: pieces) ≠ [] := by
  intro hnil
  rw [buildComponents] at hnil
  obtain ⟨hfront, -⟩ := List.append_eq_nil_iff.mp hnil
  obtain ⟨hslash, htake⟩ := List.append_eq_nil_iff.mp hfront
  have hzero : charAt str q.p = 0 := by
    by_contra hne
    obtain ⟨s, hs⟩ := exists_drop_of_charAt hne
    rw [hs] at htake
    obtain hlen | hdrop := List.take_eq_nil_iff.mp htake
    · omega
    · exact absurd hdrop (by simp)
  rw [hzero, leadingSlash] at hslash
  exact absurd (List.append_eq_nil_iff.mp hslash).2 (by decide)

theorem ReadToEnd.items_eq_nil (h : ReadToEnd str room readings)
    (hslash : charAt str 0 ≠ slashChar) {keep : ℕ}
    (hbuilt : buildComponents str keep (PathReading.pathTrace readings).items = []) :
    (PathReading.pathTrace readings).items = [] := by
  obtain ⟨cursor, hread, -⟩ := h
  obtain ⟨hpos, -⟩ := hread.items_len_pos hslash
  cases hitems : (PathReading.pathTrace readings).items with
  | nil => rfl
  | cons q pieces =>
    rw [hitems] at hpos hbuilt
    exact absurd hbuilt (buildComponents_ne_nil (hpos q List.mem_cons_self) keep pieces)

end Lengths

namespace KscPathParser

/-- What comes of a path is what it stands for. -/
def ResolvesRight (parser : KscPathParser) (room : ℕ → Bool) (str : KsString) : Prop :=
  ∃ result nodes, parser.resolve room str = some (result, nodes) ∧
    parser.Reference (cString str) result

/-- The steps do not end with a point, there is memory for their names, no name is the last one
because `..` has taken back the next one, the locator counts the components that remain, and there is
one in the end. -/
structure StepsRight (parser : KscPathParser) (room : ℕ → Bool) (base : List PathName)
    (steps : List PathStep) (trailing : Bool) : Prop where
  point : steps.getLast? = some .stay → trailing = true
  room : ∀ n < steps.countP isName, room n = true
  intact : (trace steps).retreated = false
  counted : parser.fullPath.countComponents - (trace steps).climbed =
    base.length - (trace steps).climbed
  place : parser.pathType = .hostServer ∨ follow base steps ≠ []

/-- A path that is not well formed is given up, or nothing is left of it and of the locator. -/
def Refuses (parser : KscPathParser) (room : ℕ → Bool) (str : KsString) : Prop :=
  GivenUp str room ∨ parser.pathType = .pathOnly ∧ ∃ readings, ReadToEnd str room readings ∧
    PathReading.depth readings = 0 ∧
    parser.fullPath.countComponents ≤ (PathReading.pathTrace readings).climbed

/-- The paths that are resolved as they should be. -/
def Resolvable (parser : KscPathParser) (room : ℕ → Bool) (str : KsString) : Prop :=
  if str = [] then True
  else if charAt str 0 = slashChar then
    charAt str 1 ≠ slashChar ∧ parser.pathType = .pathOnly
  else
    (∃ base steps trailing, parser.HasPath base ∧ str = write trailing steps ∧
        parser.StepsRight room base steps trailing) ∨
      (∀ steps trailing, str ≠ write trailing steps) ∧ parser.Refuses room str

variable {parser : KscPathParser} {room : ℕ → Bool} {str : KsString} {base : List PathName}
  {steps : List PathStep} {trailing : Bool}

theorem WellMade.locate_ne_nil (h : parser.WellMade) (path : List PathName) :
    parser.locate path ≠ [] := by
  rw [locate]
  intro hnil
  obtain ⟨hhost, hpath⟩ := List.append_eq_nil_iff.mp hnil
  have htype := h.hostserver.mp hhost
  rw [if_neg (by simp [htype])] at hpath
  cases path with
  | nil => exact absurd hpath (by simp [writePath])
  | cons c path => exact absurd hpath (by simp [writePath, writeNames_cons])

/-- A path that keeps one component more is a longer one. -/
theorem writePath_take_succ (base names : List PathName) {m : ℕ} (hm : m < base.length) :
    (writePath (base.take m ++ names)).length <
      (writePath (base.take (m + 1)) ++ writeNames names).length := by
  have htake : base.take (m + 1) = base.take m ++ [base[m]] := List.take_succ_eq_append_getElem hm
  have hone : 2 ≤ (writeNames [base[m]]).length := by
    obtain ⟨a, name, hname, -⟩ := base[m].exists_cons
    simp [writeNames_cons, hname]
  by_cases hnil : base.take m = []
  · have hpath : (writePath names).length ≤ 1 + (writeNames names).length := by
      cases names with
      | nil => exact Nat.le_refl 1
      | cons c names =>
        rw [writePath, List.length_append]
        exact Nat.add_le_add_right (by split <;> simp) _
    have hkept : (writeNames [base[m]]).length ≤ (writePath [base[m]]).length := by
      rw [writePath, List.length_append]
      exact Nat.le_add_left ..
    rw [htake, hnil, List.nil_append, List.nil_append, List.length_append]
    omega
  · rw [htake, writePath_append hnil, writePath_append hnil, List.length_append,
      List.length_append, List.length_append]
    omega

/-- The components that are kept and those that are added, if there is one. -/
theorem HasPath.kept_append_iff (hbase : parser.HasPath base) {k : ℕ} (hk : k ≤ base.length)
    (names : List PathName) :
    (∃ kept, keptPath parser.fullPath k = some kept ∧
      kept ++ (if k = 0 ∧ names ≠ [] then writePath names else writeNames names) =
        if parser.pathType = .hostServer ∧ base.take k ++ names = [] then []
        else writePath (base.take k ++ names)) ↔
      parser.pathType = .hostServer ∨ base.take k ++ names ≠ [] := by
  by_cases hzero : k = 0
  · subst hzero
    rw [List.take_zero, List.nil_append]
    have hkept : keptPath parser.fullPath 0 = some [] := if_pos rfl
    rw [hkept]
    by_cases hnil : names = []
    · subst hnil
      by_cases htype : parser.pathType = .hostServer
      · simp [htype, writeNames]
      · simp [htype, writeNames, writePath]
    · simp [hnil]
  · have hne : base ≠ [] := List.ne_nil_of_length_pos (by omega)
    have htake : base.take k ≠ [] := List.ne_nil_of_length_pos (by rw [List.length_take]; omega)
    have htype : parser.pathType ≠ .hostServer := by
      intro htype
      rw [HasPath, if_pos htype] at hbase
      exact hne hbase
    rw [HasPath, if_neg htype] at hbase
    rw [keptPath_names hbase hne (Nat.pos_of_ne_zero hzero), if_pos hk, if_neg (by simp [hzero]),
      if_neg (by simp [htype]), writePath_append htake]
    simp [htake]

/-- If the locator counts another number of components, too many are kept. -/
theorem WellMade.not_kept_append (h : parser.WellMade) (hbase : parser.HasPath base)
    {climbed : ℕ} (hcounted : parser.fullPath.countComponents - climbed ≠ base.length - climbed)
    (names : List PathName) {kept : KsString}
    (hkept : keptPath parser.fullPath (parser.fullPath.countComponents - climbed) = some kept) :
    kept ++ (if parser.fullPath.countComponents - climbed = 0 ∧ names ≠ [] then writePath names
        else writeNames names) ≠
      if parser.pathType = .hostServer ∧ base.take (base.length - climbed) ++ names = [] then []
      else writePath (base.take (base.length - climbed) ++ names) := by
  by_cases htype : parser.pathType = .hostServer
  · rw [HasPath, if_pos htype] at hbase
    subst hbase
    rw [List.length_nil, Nat.zero_sub] at hcounted
    rw [keptPath_of_nil (h.noPath htype) (Nat.pos_of_ne_zero hcounted)] at hkept
    exact absurd hkept (by simp)
  · have hcount := h.countComponents_eq hbase htype
    rw [HasPath, if_neg htype] at hbase
    have hpart : partsOfRoot base = 1 := by
      rw [partsOfRoot] at hcount ⊢
      split_ifs at hcount ⊢
      · rfl
      · exact absurd (by rw [hcount, Nat.add_zero]) hcounted
    obtain ⟨hle, hk⟩ : climbed ≤ base.length ∧
        parser.fullPath.countComponents - climbed = base.length - climbed + 1 := by omega
    have hne : base ≠ [] := by
      rintro rfl
      exact absurd hpart (by simp [partsOfRoot])
    rw [hk, keptPath_names hbase hne (Nat.succ_pos _)] at hkept
    rw [hk, if_neg (by simp), if_neg (by simp [htype])]
    split_ifs at hkept with hlt
    obtain rfl := Option.some.inj hkept
    intro heq
    have hlength := writePath_take_succ base names hlt
    rw [heq] at hlength
    exact lt_irrefl _ hlength

/-- When the loop has come to the end of a path that is well formed, the result is right exactly if
the stack is intact and the locator counts its components, one of which remains. -/
theorem WellMade.resolveRelative_iff (h : parser.WellMade) (hbase : parser.HasPath base)
    {readings : List PathReading} (hread : ReadsSteps str room steps readings) :
    (∃ nodes, parser.resolveRelative room str =
      some (parser.locate (follow base steps), nodes)) ↔
      (trace steps).retreated = false ∧
        parser.fullPath.countComponents - (trace steps).climbed =
          base.length - (trace steps).climbed ∧
        (parser.pathType = .hostServer ∨ follow base steps ≠ []) := by
  rw [hread.read.resolveRelative parser rfl, hread.trace.retreated, hread.trace.climbed,
    buildComponents_eq hread.trace.items hread.joined, follow_eq]
  cases hretreated : (trace steps).retreated with
  | true => simp
  | false =>
    simp only [Bool.false_eq_true, if_false, Option.map_eq_some_iff, Prod.mk.injEq, true_and,
      locate, List.append_assoc, List.append_cancel_left_eq]
    by_cases hcounted : parser.fullPath.countComponents - (trace steps).climbed =
        base.length - (trace steps).climbed
    · rw [hcounted, ← hbase.kept_append_iff (Nat.sub_le ..) (trace steps).items]
      constructor
      · rintro ⟨nodes, kept, hkept, heq, -⟩
        exact ⟨rfl, kept, hkept, heq⟩
      · rintro ⟨-, kept, hkept, heq⟩
        exact ⟨_, kept, hkept, heq, rfl⟩
    · refine iff_of_false ?_ fun hright => hcounted hright.1
      rintro ⟨nodes, kept, hkept, heq, -⟩
      exact h.not_kept_append hbase hcounted _ hkept heq

theorem WellMade.resolve_nil (h : parser.WellMade) (room : ℕ → Bool) (htype : parser.HasServerOrPath) :
    parser.resolve room [] = some (parser.toKsString, fun _ => none) ∧
      parser.Reference [] parser.toKsString := by
  have hnot : ¬ (parser.pathType = .invalid ∨ parser.pathType = .host) := by
    obtain htype | htype | htype := htype <;> simp [htype]
  refine ⟨?_, ?_⟩
  · rw [resolve]
    exact (if_neg (by decide)).trans ((if_neg hnot).trans (if_pos rfl))
  · rw [Reference, if_neg (by decide)]
    obtain ⟨base, hbase⟩ := h.exists_hasPath
    refine Or.inl ⟨base, ⟨base, [], false, hbase, rfl, rfl⟩, ?_⟩
    have hhost := cString_eq_self h.hostserver_noZero
    rw [HasPath] at hbase
    obtain hpath | hserver | hresource := htype
    · rw [if_neg (by simp [hpath])] at hbase
      rw [locate, h.hostserver.mpr hpath, if_neg (by simp [hpath]), ← hbase, toKsString, hpath]
      rfl
    · rw [if_pos hserver] at hbase
      rw [locate, if_pos ⟨hserver, hbase⟩, toKsString, hserver, List.append_nil]
    · rw [if_neg (by simp [hresource])] at hbase
      rw [locate, if_neg (by simp [hresource]), toKsString, hresource]
      dsimp only
      rw [concat, hhost, hbase, cString_eq_self (not_mem_writePath base)]

/-- A path that begins with a slash loses it. -/
theorem resolvesRight_slash (htype : parser.HasServerOrPath)
    (hslash : charAt (cString str) 0 = slashChar) : parser.ResolvesRight room str ↔
      charAt (cString str) 1 ≠ slashChar ∧ parser.pathType = .pathOnly := by
  have hlt := lt_of_charAt (by rw [hslash]; decide : charAt (cString str) 0 ≠ 0)
  have hshort : (cString str).tail ≠ cString str := by
    intro heq
    have hlength := congrArg List.length heq
    rw [List.length_tail] at hlength
    omega
  simp only [ResolvesRight, resolve, Reference, hslash, if_true]
  by_cases hlocator : charAt (cString str) 1 = slashChar
  · simp [hlocator, hshort]
  · obtain htype | htype | htype := htype
    · simp [hlocator, htype]
    · simp [hlocator, htype, hshort]
    · simp [hlocator, htype, hshort]

theorem resolve_relative (room : ℕ → Bool) (htype : parser.HasServerOrPath)
    (hslash : charAt (cString str) 0 ≠ slashChar) (hne : cString str ≠ []) :
    parser.resolve room str = parser.resolveRelative room (cString str) := by
  have hnot : ¬ (parser.pathType = .invalid ∨ parser.pathType = .host) := by
    obtain htype | htype | htype := htype <;> simp [htype]
  rw [resolve]
  exact (if_neg hslash).trans ((if_neg hnot).trans (if_neg hne))

/-- Only a locator of which something is kept has a path that is kept. -/
theorem WellMade.eq_zero_of_keptPath (h : parser.WellMade) {n : ℕ}
    (hkept : keptPath parser.fullPath (parser.fullPath.countComponents - n) = some []) :
    parser.fullPath.countComponents - n = 0 := by
  by_contra hne
  have hpos := Nat.pos_of_ne_zero hne
  obtain ⟨base, hbase⟩ := h.exists_hasPath
  by_cases htype : parser.pathType = .hostServer
  · rw [keptPath_of_nil (h.noPath htype) hpos] at hkept
    exact absurd hkept (by simp)
  · have hcount := h.countComponents_eq hbase htype
    rw [HasPath, if_neg htype] at hbase
    cases base with
    | nil => exact hne (by rw [hcount]; exact Nat.zero_sub n)
    | cons c path =>
      rw [keptPath_names hbase (by simp) hpos] at hkept
      split_ifs at hkept
      obtain ⟨k, hk⟩ := Nat.exists_eq_succ_of_ne_zero hne
      rw [hk, List.take_succ_cons] at hkept
      exact absurd (Option.some.inj hkept) (by simp [writePath, writeNames_cons])

/-- A path that is well formed. -/
theorem WellMade.resolvesRight_wellFormed (h : parser.WellMade)
    (hresolve : parser.resolve room str = parser.resolveRelative room (cString str))
    (hslash : charAt (cString str) 0 ≠ slashChar)
    (hformed : ∃ steps trailing, cString str = write trailing steps) :
    parser.ResolvesRight room str ↔ ∃ base steps trailing, parser.HasPath base ∧
      cString str = write trailing steps ∧ parser.StepsRight room base steps trailing := by
  constructor
  · rintro ⟨result, nodes, hresult, hreference⟩
    rw [Reference, if_neg hslash] at hreference
    obtain ⟨path, ⟨base, steps, trailing, hbase, hstr, rfl⟩, rfl⟩ | ⟨hill, -⟩ := hreference
    · refine ⟨base, steps, trailing, hbase, hstr, ?_⟩
      obtain ⟨readings, hread, hpoint, hroom⟩ | ⟨hgiven, -⟩ :=
        readsSteps_or_givenUp _ room steps trailing hstr
      · obtain ⟨hintact, hcounted, hplace⟩ :=
          (h.resolveRelative_iff hbase hread).mp ⟨nodes, hresolve.symm.trans hresult⟩
        exact ⟨hpoint, hroom, hintact, hcounted, hplace⟩
      · obtain ⟨nodes', hnil⟩ := hgiven.resolveRelative parser
        have heq := Option.some.inj ((hresolve.trans hnil).symm.trans hresult)
        exact absurd (Prod.mk.inj heq).1.symm (h.locate_ne_nil _)
    · obtain ⟨steps, trailing, hstr⟩ := hformed
      exact absurd hstr (hill steps trailing)
  · rintro ⟨base, steps, trailing, hbase, hstr, hright⟩
    obtain ⟨readings, hread, -⟩ | ⟨-, ⟨hstay, htrailing⟩ | ⟨n, hn, hfull⟩⟩ :=
      readsSteps_or_givenUp _ room steps trailing hstr
    · obtain ⟨nodes, hresult⟩ := (h.resolveRelative_iff hbase hread).mpr
        ⟨hright.intact, hright.counted, hright.place⟩
      refine ⟨_, nodes, hresolve.trans hresult, ?_⟩
      rw [Reference, if_neg hslash]
      exact Or.inl ⟨_, ⟨base, steps, trailing, hbase, hstr, rfl⟩, rfl⟩
    · exact absurd ((hright.point hstay).symm.trans htrailing) (by simp)
    · exact absurd ((hright.room n hn).symm.trans hfull) (by simp)

/-- A path that is not well formed. -/
theorem WellMade.resolvesRight_illFormed (h : parser.WellMade)
    (hresolve : parser.resolve room str = parser.resolveRelative room (cString str))
    (hslash : charAt (cString str) 0 ≠ slashChar)
    (hill : ∀ steps trailing, cString str ≠ write trailing steps) :
    parser.ResolvesRight room str ↔ parser.Refuses room (cString str) := by
  have hempty : parser.ResolvesRight room str ↔
      ∃ nodes, parser.resolveRelative room (cString str) = some ([], nodes) := by
    rw [ResolvesRight, hresolve]
    constructor
    · rintro ⟨result, nodes, hresult, hreference⟩
      rw [Reference, if_neg hslash] at hreference
      obtain ⟨path, ⟨base, steps, trailing, -, hstr, -⟩, -⟩ | ⟨-, rfl⟩ := hreference
      · exact absurd hstr (hill steps trailing)
      · exact ⟨nodes, hresult⟩
    · rintro ⟨nodes, hresult⟩
      refine ⟨[], nodes, hresult, ?_⟩
      rw [Reference, if_neg hslash]
      exact Or.inr ⟨hill, rfl⟩
  rw [hempty]
  constructor
  · rintro ⟨nodes, hresult⟩
    obtain hgiven | ⟨readings, hread⟩ := givenUp_or_readToEnd (cString str) room
    · exact Or.inl hgiven
    rw [hread.resolveRelative parser rfl] at hresult
    split_ifs at hresult
    obtain ⟨kept, hkept, heq⟩ := Option.map_eq_some_iff.mp hresult
    obtain ⟨hfront, hbuilt⟩ := List.append_eq_nil_iff.mp (Prod.mk.inj heq).1
    obtain ⟨hhost, rfl⟩ := List.append_eq_nil_iff.mp hfront
    refine Or.inr ⟨h.hostserver.mp hhost, readings, hread, ?_, ?_⟩
    · rw [PathReading.depth_eq, hread.items_eq_nil hslash hbuilt]
      rfl
    · exact Nat.sub_eq_zero_iff_le.mp (h.eq_zero_of_keptPath hkept)
  · rintro (hgiven | ⟨htype, readings, hread, hdepth, hclimbed⟩)
    · exact hgiven.resolveRelative parser
    · rw [PathReading.depth_eq, List.length_eq_zero_iff] at hdepth
      have hretreated : ¬ (PathReading.pathTrace readings).retreated = true :=
        fun h => items_ne_nil_of_retreated h hdepth
      refine ⟨fun _ => none, ?_⟩
      rw [hread.resolveRelative parser (Nat.sub_eq_zero_of_le hclimbed), if_neg hretreated, hdepth,
        h.hostserver.mpr htype, buildComponents, keptPath, if_pos rfl]
      rfl

/-- Relative paths and others are resolved as they should be exactly in these cases. -/
theorem resolvesRight_iff {locator : KsString} {undefined : ℕ}
    (hparser : parser = ofString locator undefined) (htype : parser.HasServerOrPath) :
    parser.ResolvesRight room str ↔ parser.Resolvable room (cString str) := by
  have h : parser.WellMade := by
    subst hparser
    exact ofString_wellMade htype
  rw [Resolvable]
  by_cases hne : cString str = []
  · rw [if_pos hne]
    obtain ⟨hresult, hreference⟩ := h.resolve_nil room htype
    refine iff_true_intro ⟨parser.toKsString, fun _ => none, ?_, by rw [hne]; exact hreference⟩
    rw [← hresult, resolve, resolve, hne]
    rfl
  by_cases hslash : charAt (cString str) 0 = slashChar
  · rw [if_neg hne, if_pos hslash]
    exact resolvesRight_slash htype hslash
  rw [if_neg hne, if_neg hslash]
  have hresolve := resolve_relative room htype hslash hne
  by_cases hformed : ∃ steps trailing, cString str = write trailing steps
  · rw [h.resolvesRight_wellFormed hresolve hslash hformed, or_iff_left]
    obtain ⟨steps, trailing, hstr⟩ := hformed
    exact fun hill => hill.1 steps trailing hstr
  · have hill : ∀ steps trailing, cString str ≠ write trailing steps :=
      fun steps trailing hstr => hformed ⟨steps, trailing, hstr⟩
    rw [h.resolvesRight_illFormed hresolve hslash hill, or_iff_right, and_iff_right hill]
    rintro ⟨base, steps, trailing, -, hstr, -⟩
    exact hill steps trailing hstr

/-- From `//h/s/a` the path `../b` leads to `//h/s/b`. -/
theorem resolvesRight_sibling :
    (ofString [47, 47, 104, 47, 115, 47, 97] 0).ResolvesRight (fun _ => true) [46, 46, 47, 98] := by
  refine (resolvesRight_iff rfl (Or.inr (Or.inr (by decide)))).mpr ?_
  rw [Resolvable, if_neg (by decide), if_neg (by decide)]
  refine Or.inl ⟨[⟨false, [97], by decide, List.forall_mem_singleton.mpr rfl⟩],
    [.up, .down ⟨false, [98], by decide, List.forall_mem_singleton.mpr rfl⟩], false, ?_, rfl, ?_,
    ?_, rfl, rfl, ?_⟩
  · rw [HasPath, if_neg (by decide)]
    rfl
  · exact fun h => absurd h (by simp)
  · exact fun _ _ => rfl
  · exact Or.inr (by simp [follow, Move.apply])

/-- The locator `//h/s/b` loses its first slash. -/
theorem not_resolvesRight_locator :
    ¬ (ofString [47, 47, 104, 47, 115, 47, 97] 0).ResolvesRight (fun _ => true)
      [47, 47, 104, 47, 115, 47, 98] := by
  rintro ⟨result, nodes, hresult, hreference⟩
  have hshort : (ofString [47, 47, 104, 47, 115, 47, 97] 0).resolve (fun _ => true)
      [47, 47, 104, 47, 115, 47, 98] = some ([47, 104, 47, 115, 47, 98], fun _ => none) := rfl
  obtain ⟨rfl, -⟩ := Prod.mk.inj (Option.some.inj (hshort.symm.trans hresult))
  rw [Reference, if_pos (by decide), if_pos (by decide)] at hreference
  exact absurd hreference (by decide)

end KscPathParser
end AcpltKs
