import AcpltKs.Path.Decoding

/-! Paths are resolved one in the context of the other: which of them are, and to what. -/
namespace AcpltKs
open DelimitedText

theorem nextSlashes_le_count {s : List UInt8} {si n : ℕ} {slashes : List ℕ}
    (hnext : nextSlashes s si n = some slashes) : n ≤ s.count slashChar := by
  fun_induction nextSlashes s si n generalizing slashes with
  | case1 => exact Nat.zero_le _
  | case2 => exact absurd hnext (by simp)
  | case3 s si n ih =>
    obtain ⟨slashes', hnext', -⟩ := Option.map_eq_some_iff.mp hnext
    rw [List.count_cons_self]
    exact Nat.succ_le_succ (ih hnext')
  | case4 c s si n hc ih =>
    rw [List.count_cons_of_ne hc]
    exact ih hnext

/-- The path is valid and absolute, and there is another slash among the slashes and dots behind the
first one. -/
def Overruns (id : KsString) : Prop :=
  (checkAndCount id).isSome = true ∧
    ∃ rest, cString id = slashChar :: rest ∧ slashChar ∈ rest.takeWhile isSlashOrDot

/-- An absolute path that does not overrun its string. -/
theorem ofString_absolute {id rest : KsString} {n : ℕ} (hcheck : checkAndCount id = some (0, n))
    (hstr : cString id = slashChar :: rest) (hcount : n = rest.count slashChar) :
    (slashChar ∈ rest.takeWhile isSlashOrDot ∧ KsPath.ofString id = none) ∨
      slashChar ∉ rest.takeWhile isSlashOrDot ∧ ∃ p skipped pieces, KsPath.ofString id = some p ∧
        p.Splits skipped pieces ∧ p.goUp = 0 ∧ p.str = id := by
  have hrest : cString id =
      (slashChar :: rest.takeWhile isSlashOrDot) ++ rest.dropWhile isSlashOrDot := by
    rw [hstr, List.cons_append, List.takeWhile_append_dropWhile]
  have hcounts := congrArg (List.count slashChar)
    (List.takeWhile_append_dropWhile (p := isSlashOrDot) (l := rest))
  rw [List.count_append, ← hcount] at hcounts
  have hall : (slashChar :: rest.takeWhile isSlashOrDot).all isSlashOrDot = true := by
    rw [List.all_cons, List.all_takeWhile]
    rfl
  have hhead : ∀ c ∈ (rest.dropWhile isSlashOrDot).head?, isSlashOrDot c = false := by
    intro c hc
    have hnot := List.head?_dropWhile_not isSlashOrDot rest
    rw [Option.mem_def.mp hc] at hnot
    simpa using hnot
  by_cases hmem : slashChar ∈ rest.takeWhile isSlashOrDot
  · refine Or.inl ⟨hmem, ?_⟩
    have hpos := List.count_pos_iff.mpr hmem
    have hsi : skipSlashesAndDots id = (slashChar :: rest.takeWhile isSlashOrDot).length := by
      rw [← skipSlashesAndDots_cString, hrest, skipSlashesAndDots_append hall hhead]
    rw [KsPath.ofString, hcheck]
    simp only [KsPath.findSlashes, hsi, Nat.add_sub_cancel]
    rw [hrest, List.append_assoc, List.drop_left]
    cases hnext : nextSlashes (rest.dropWhile isSlashOrDot ++ [0])
        (slashChar :: rest.takeWhile isSlashOrDot).length n with
    | none => rfl
    | some slashes =>
      have hle := nextSlashes_le_count hnext
      have hzero : [0].count slashChar = 0 := by decide
      rw [List.count_append, hzero] at hle
      omega
  · rw [List.count_eq_zero_of_not_mem hmem, Nat.zero_add] at hcounts
    obtain ⟨p, hp, hsplits, hup, hid⟩ := ofString_splits hcheck hrest hall hhead hcounts.symm
    exact Or.inr ⟨hmem, p, _, _, hp, hsplits, hup, hid⟩

/-- What there is in a path that has been parsed. -/
theorem ofString_cases (id : KsString) :
    (Overruns id ∧ KsPath.ofString id = none) ∨ KsPath.ofString id = some (.invalid id) ∨
      ∃ p skipped pieces, KsPath.ofString id = some p ∧ p.Splits skipped pieces ∧ p.str = id := by
  cases hcheck : checkAndCount id with
  | none => exact Or.inr (Or.inl (by rw [KsPath.ofString, hcheck]))
  | some r =>
    obtain ⟨goUp, n⟩ := r
    obtain ⟨rfl, rest, hstr, -, hcount⟩ | ⟨-, -, skipped, rest, hstr, hall, hhead, -, hcount⟩ :=
      checkAndCount_eq hcheck
    · obtain ⟨hmem, hnone⟩ | ⟨-, p, skipped, pieces, hp, hsplits, -, hid⟩ :=
        ofString_absolute hcheck hstr hcount
      · exact Or.inl ⟨⟨by rw [hcheck]; rfl, rest, hstr, hmem⟩, hnone⟩
      · exact Or.inr (Or.inr ⟨p, skipped, pieces, hp, hsplits, hid⟩)
    · obtain ⟨p, hp, hsplits, -, hid⟩ := ofString_splits hcheck hstr hall hhead hcount
      exact Or.inr (Or.inr ⟨p, _, _, hp, hsplits, hid⟩)

theorem ofString_eq_none_iff {id : KsString} : KsPath.ofString id = none ↔ Overruns id := by
  constructor
  · intro hnone
    obtain ⟨h, -⟩ | h | ⟨p, skipped, pieces, h, -⟩ := ofString_cases id
    · exact h
    · exact absurd (hnone.symm.trans h) (by simp)
    · exact absurd (hnone.symm.trans h) (by simp)
  · rintro ⟨hvalid, rest, hstr, hmem⟩
    obtain ⟨⟨goUp, n⟩, hcheck⟩ := Option.isSome_iff_exists.mp hvalid
    obtain ⟨rfl, rest', hstr', -, hcount⟩ | ⟨-, hhead, -⟩ := checkAndCount_eq hcheck
    · obtain rfl := (List.cons.inj (hstr.symm.trans hstr')).2
      obtain ⟨-, hnone⟩ | ⟨hnot, -⟩ := ofString_absolute hcheck hstr hcount
      · exact hnone
      · exact absurd hmem hnot
    · exact absurd (by rw [hstr]; rfl) hhead

theorem invalid_or_splits {id : KsString} {p : KsPath} (hp : KsPath.ofString id = some p) :
    p = .invalid id ∨ ∃ skipped pieces, p.Splits skipped pieces := by
  obtain ⟨-, h⟩ | h | ⟨p', skipped, pieces, h, hsplits, -⟩ := ofString_cases id
  · exact absurd (hp.symm.trans h) (by simp)
  · exact Or.inl (Option.some.inj (hp.symm.trans h))
  · obtain rfl := Option.some.inj (hp.symm.trans h)
    exact Or.inr ⟨skipped, pieces, hsplits⟩

namespace KsPath
variable {abs rel : KsPath} {skipped skipped' : KsString} {pieces pieces' : List KsString}

theorem Splits.ne_nil (h : abs.Splits skipped pieces) : pieces ≠ [] := by
  rintro rfl
  exact absurd h.last (by simp)

/-- What is left of the string of a path without its last components. -/
theorem Parses.substr_take (h : abs.Parses skipped pieces) {k : ℕ} (hk : k < pieces.length) :
    cString (substr abs.str 0 (abs.slashAt k)) =
      skipped ++ (pieces.take k).flatMap (· ++ [slashChar]) := by
  have htake := take_starts (d := slashChar) hk skipped
  have hle := starts_le hk skipped slashChar
  rw [← h.str] at htake hle
  rw [h.slashAt hk, ← htake]
  unfold substr
  split_ifs with hwhole hlt
  · have hlength := cString_length_le abs.str
    rw [List.take_of_length_le (hlength.trans (hwhole.2 _ rfl))]
  · exact cString_eq_self fun hmem => not_mem_cString _ (List.mem_of_mem_take hmem)
  · have hnil : abs.str = [] := List.length_eq_zero_iff.mp (by omega)
    rw [hnil]
    simp [cString]

/-- What is in the string of a path from its first component on. -/
theorem Parses.slice_all (h : rel.Parses skipped pieces) :
    cString (rel.slice rel.first (rel.last + 1) 0) = join slashChar pieces := by
  have hpos : 0 < pieces.length := by
    rw [← h.last]
    omega
  have hstart := h.substr_start hpos none
  rw [KsPath.slice, h.first, h.last, h.slashAt hpos, h.slashAt_length]
  exact hstart

/-- A path keeps its first component if it keeps some of them. -/
theorem Splits.head_take (h : abs.Splits skipped pieces) {k : ℕ} (hk : k < pieces.length)
    (hne : pieces' ≠ [])
    (hhead : ∀ c ∈ (join slashChar pieces').head?, isSlashOrDot c = false) :
    ∀ c ∈ (join slashChar (pieces.take k ++ pieces')).head?, isSlashOrDot c = false := by
  cases k with
  | zero => rwa [List.take_zero, List.nil_append]
  | succ k =>
    obtain ⟨piece, pieces, rfl⟩ := List.exists_cons_of_ne_nil h.ne_nil
    have hmore : pieces ≠ [] := by
      rintro rfl
      exact absurd hk (by simp)
    have hfirst := h.head
    rw [join_cons hmore] at hfirst
    have hpiece : piece ≠ [] := by
      rintro rfl
      exact absurd (hfirst slashChar rfl) (by decide)
    rw [List.take_succ_cons, List.cons_append, join_cons (by simp [hne])]
    rwa [List.head?_append_of_ne_nil _ hpiece] at hfirst ⊢

/-- A relative path takes the place of the components it climbs out of. -/
theorem Splits.append (h : abs.Splits skipped pieces) (hrel : rel.Splits skipped' pieces')
    (hpos : 1 ≤ rel.goUp) (hup : rel.goUp ≤ pieces.length) :
    ∃ p, abs.append rel = some p ∧
      p.Splits skipped (pieces.take (pieces.length - rel.goUp) ++ pieces') ∧ p.goUp = 0 ∧
      p.str = skipped ++ join slashChar (pieces.take (pieces.length - rel.goUp) ++ pieces') := by
  have hk : pieces.length - rel.goUp < pieces.length := by omega
  have hconcat : concat (substr abs.str 0 (abs.slashAt (abs.last + 1 - rel.goUp)))
      (rel.slice rel.first (rel.last + 1) 0) = skipped ++
        join slashChar (pieces.take (pieces.length - rel.goUp) ++ pieces') := by
    rw [concat, h.last, h.substr_take hk, hrel.slice_all, join_append hrel.ne_nil,
      List.append_assoc]
  have hsize : abs.size - rel.goUp + rel.size + 1 =
      (pieces.take (pieces.length - rel.goUp) ++ pieces').length + 1 := by
    rw [h.size, hrel.size, List.length_append, List.length_take_of_le (by omega)]
  have hcstring : cString (skipped ++
      join slashChar (pieces.take (pieces.length - rel.goUp) ++ pieces')) =
        skipped ++ join slashChar (pieces.take (pieces.length - rel.goUp) ++ pieces') := by
    rw [← hconcat, concat, cString_append (not_mem_cString _), cString_cString]
  have hslash : ∀ piece ∈ pieces.take (pieces.length - rel.goUp) ++ pieces',
      slashChar ∉ piece := by
    intro piece hpiece
    obtain hpiece | hpiece := List.mem_append.mp hpiece
    · exact h.noSlash piece (List.mem_of_mem_take hpiece)
    · exact hrel.noSlash piece hpiece
  obtain ⟨p, hp, hsplits, hzero, hstr⟩ := findSlashes_splits (by simp [hrel.ne_nil]) hcstring
    h.skipped_all (h.head_take hk hrel.ne_nil hrel.head) hslash 0
  refine ⟨p, ?_, hsplits, hzero, hstr⟩
  rw [KsPath.append, hconcat, hsize, hp]

end KsPath

/-- The path is valid and relative. -/
def Relative (id : KsString) (p : KsPath) : Prop :=
  KsPath.ofString id = some p ∧ p.valid = true ∧ p.isAbsolute = false

/-- From a valid absolute path on, each of the paths in front of index `n` has been resolved against
the one before it; the last one has these components. -/
inductive Resolved (ids : List KsString) : ℕ → List KsString → Prop
  | absolute {n : ℕ} {id : KsString} {p : KsPath} (hid : ids[n]? = some id)
      (hp : KsPath.ofString id = some p) (hvalid : p.valid = true)
      (habsolute : p.isAbsolute = true) : Resolved ids (n + 1) (p.components.map cString)
  | relative {n : ℕ} {id : KsString} {p : KsPath} {pieces : List KsString}
      (hchain : Resolved ids n pieces) (hid : ids[n]? = some id) (hp : Relative id p)
      (hup : p.goUp ≤ pieces.length) :
      Resolved ids (n + 1) (pieces.take (pieces.length - p.goUp) ++ p.components.map cString)

/-- The paths are resolved in context: a relative one only at the end of a chain, and no relative one
after a bad one and without an absolute one in between. -/
def ContextRule (ids : List KsString) : Prop :=
  ∃ results, KsPath.resolvePaths ids = some results ∧ results.length = ids.length ∧
    ∀ n id p path res, ids[n]? = some id → Relative id p → results[n]? = some (path, res) →
      (res = KsResultCode.ok → ∃ pieces, Resolved ids (n + 1) pieces ∧
        (path.components.map cString).map some = pieces.map fromPercent) ∧
      ((∃ j < n, (∀ pieces, ¬ Resolved ids (j + 1) pieces) ∧ ∀ k id' q, j < k → k ≤ n →
          ids[k]? = some id' → KsPath.ofString id' = some q → q.valid = true →
            q.isAbsolute = false) → res = .badPath)

/-- There is no context in front of index `n`, but a relative path that has been refused may be taken
for one. -/
inductive Astray (ids : List KsString) : ℕ → Option KsPath → Prop
  | start : Astray ids 0 none
  | malformed {n : ℕ} {id : KsString} {q : KsPath} (hid : ids[n]? = some id)
      (hq : KsPath.ofString id = some q) (hvalid : q.valid = false) : Astray ids (n + 1) none
  | tooHigh {n : ℕ} {id : KsString} {q : KsPath} {pieces : List KsString}
      (hchain : Resolved ids n pieces) (hid : ids[n]? = some id) (hq : Relative id q)
      (hup : pieces.length < q.goUp) : Astray ids (n + 1) none
  | refused {n : ℕ} {id : KsString} {p : KsPath} (hastray : Astray ids n none)
      (hid : ids[n]? = some id) (hp : Relative id p) : Astray ids (n + 1) (some p)
  | refusedToo {n : ℕ} {id : KsString} {p q : KsPath} (hastray : Astray ids n (some p))
      (hid : ids[n]? = some id) (hq : Relative id q) (hup : p.size < q.goUp) :
      Astray ids (n + 1) none

namespace KsPath
variable {context p path : KsPath} {id : KsString} {res : KsResultCode}

theorem ofString_two_slashes : ofString [slashChar, slashChar] = some (.invalid [47, 47]) := by
  decide

theorem resolveNext_malformed (hp : ofString id = some p) (hvalid : p.valid = false) :
    context.resolveNext id = some (p, .badPath) := by
  simp [resolveNext, hp, hvalid]

theorem resolveNext_absolute (hp : ofString id = some p) (hvalid : p.valid = true)
    (habsolute : p.isAbsolute = true) : context.resolveNext id = some (p, .ok) := by
  simp [resolveNext, hp, hvalid, resolve, habsolute]

theorem resolveNext_refused (hp : Relative id p) (hcontext : context.valid = false) :
    context.resolveNext id = some (p, .badPath) := by
  obtain ⟨hp, hvalid, hrelative⟩ := hp
  simp [resolveNext, hp, hvalid, hcontext, hrelative]

theorem resolveNext_tooHigh (hp : Relative id p) (hcontext : context.valid = true)
    (hup : context.size < p.goUp) :
    context.resolveNext id = some (.invalid [47, 47], .badPath) := by
  obtain ⟨hp, hvalid, hrelative⟩ := hp
  simp [resolveNext, hp, hvalid, hcontext, resolve, hrelative, Nat.not_le.mpr hup,
    ofString_two_slashes, invalid]

theorem append_valid (ha : context.append p = some path) : path.valid = true := by
  obtain ⟨slashes, -, hpath⟩ := Option.bind_eq_some_iff.mp ha
  rw [← Option.some.inj hpath]

theorem resolveNext_relative (hp : Relative id p) (hcontext : context.valid = true)
    (hup : p.goUp ≤ context.size) :
    context.resolveNext id = (context.append p).map fun path => (path, .ok) := by
  obtain ⟨hp, hvalid, hrelative⟩ := hp
  cases happend : context.append p with
  | none => simp [resolveNext, hp, hvalid, hcontext, resolve, hrelative, hup, happend]
  | some path =>
    have hpath := append_valid happend
    simp [resolveNext, hp, hvalid, hcontext, resolve, hrelative, hup, happend, hpath]

/-- The contexts of the paths, and what would be the next one. -/
def contexts (context : KsPath) (results : List (KsPath × KsResultCode)) : List KsPath :=
  context :: results.map Prod.fst

theorem contexts_succ {results : List (KsPath × KsResultCode)} {n : ℕ}
    (hn : results[n]? = some (path, res)) : (context.contexts results)[n + 1]? = some path := by
  simp [contexts, hn]

/-- Each path is resolved against what has become of the one before. -/
theorem resolveEach_step {ids : List KsString} {results : List (KsPath × KsResultCode)}
    (hr : resolveEach context ids = some results) : results.length = ids.length ∧
      ∀ (n : ℕ) (id : KsString), ids[n]? = some id → ∃ (c path : KsPath) (res : KsResultCode),
        (context.contexts results)[n]? = some c ∧ results[n]? = some (path, res) ∧
          c.resolveNext id = some (path, res) := by
  induction ids generalizing context results with
  | nil =>
    rw [← Option.some.inj hr]
    exact ⟨rfl, fun n id hid => absurd hid (by simp)⟩
  | cons id ids ih =>
    obtain ⟨⟨path, res⟩, hnext, hr⟩ := Option.bind_eq_some_iff.mp hr
    obtain ⟨rest, hrest, hr⟩ := Option.bind_eq_some_iff.mp hr
    obtain ⟨hlength, hsteps⟩ := ih hrest
    rw [← Option.some.inj hr]
    refine ⟨by simp [hlength], fun n id' hid' => ?_⟩
    cases n with
    | zero =>
      obtain rfl : id = id' := by simpa using hid'
      exact ⟨context, path, res, rfl, rfl, hnext⟩
    | succ n =>
      obtain ⟨c, path', res', hc, hresult, hnext'⟩ := hsteps n id' (by simpa using hid')
      exact ⟨c, path', res', by simpa [contexts] using hc, by simpa using hresult, hnext'⟩

theorem contexts_next {ids : List KsString} {results : List (KsPath × KsResultCode)}
    (hr : resolveEach context ids = some results) {n : ℕ} (hid : ids[n]? = some id) {c' : KsPath}
    (hc' : (context.contexts results)[n + 1]? = some c') :
    ∃ c res, (context.contexts results)[n]? = some c ∧ c.resolveNext id = some (c', res) := by
  obtain ⟨c, path, res, hc, hn, hnext⟩ := (resolveEach_step hr).2 n id hid
  obtain rfl := Option.some.inj ((contexts_succ hn).symm.trans hc')
  exact ⟨c, res, hc, hnext⟩

/-- At the end of a chain, the context is the path with its components. -/
theorem chain_context {ids : List KsString} {results : List (KsPath × KsResultCode)}
    (hr : resolveEach context ids = some results) {n : ℕ} {pieces : List KsString}
    (hchain : Resolved ids n pieces) {c : KsPath} (hc : (context.contexts results)[n]? = some c) :
    c.goUp = 0 ∧ ∃ skipped, c.Splits skipped pieces := by
  induction hchain generalizing c with
  | absolute hid hp hvalid habsolute =>
    obtain ⟨c', res, -, hnext⟩ := contexts_next hr hid hc
    rw [resolveNext_absolute hp hvalid habsolute] at hnext
    obtain ⟨rfl, -⟩ := Prod.mk.inj (Option.some.inj hnext)
    obtain rfl | ⟨skipped, pieces, hsplits⟩ := invalid_or_splits hp
    · exact absurd hvalid (by simp [invalid])
    · rw [hsplits.components]
      exact ⟨by simpa [isAbsolute] using habsolute, skipped, hsplits⟩
  | relative hchain hid hp hup ih =>
    obtain ⟨c', res, hc', hnext⟩ := contexts_next hr hid hc
    obtain ⟨-, skipped, hsplits⟩ := ih hc'
    obtain ⟨hp', hvalid, hrelative⟩ := hp
    obtain rfl | ⟨skipped', pieces', hsplits'⟩ := invalid_or_splits hp'
    · exact absurd hvalid (by simp [invalid])
    · have hpos : 1 ≤ _ := Nat.pos_of_ne_zero (by simpa [isAbsolute] using hrelative)
      obtain ⟨path, happend, hpath, hzero, -⟩ := hsplits.append hsplits' hpos hup
      rw [resolveNext_relative ⟨hp', hvalid, hrelative⟩ hsplits.valid (by rwa [hsplits.size]),
        happend] at hnext
      obtain ⟨rfl, -⟩ := Prod.mk.inj (Option.some.inj hnext)
      rw [hsplits'.components]
      exact ⟨hzero, skipped, hpath⟩

/-- Off the chains, the context is not valid, or it is a relative path. -/
theorem astray_context {ids : List KsString} {results : List (KsPath × KsResultCode)}
    (hr : resolveEach context ids = some results) (hcontext : context.valid = false) {n : ℕ}
    {o : Option KsPath} (hastray : Astray ids n o) {c : KsPath}
    (hc : (context.contexts results)[n]? = some c) :
    (o = none → c.valid = false) ∧
      ∀ p ∈ o, c = p ∧ p.valid = true ∧ p.isAbsolute = false := by
  induction hastray generalizing c with
  | start =>
    obtain rfl : context = c := by simpa [contexts] using hc
    exact ⟨fun _ => hcontext, by simp⟩
  | malformed hid hq hvalid =>
    obtain ⟨c', res, -, hnext⟩ := contexts_next hr hid hc
    rw [resolveNext_malformed hq hvalid] at hnext
    obtain ⟨rfl, -⟩ := Prod.mk.inj (Option.some.inj hnext)
    exact ⟨fun _ => hvalid, by simp⟩
  | tooHigh hchain hid hq hup =>
    obtain ⟨c', res, hc', hnext⟩ := contexts_next hr hid hc
    obtain ⟨-, skipped, hsplits⟩ := chain_context hr hchain hc'
    rw [resolveNext_tooHigh hq hsplits.valid (by rwa [hsplits.size])] at hnext
    obtain ⟨rfl, -⟩ := Prod.mk.inj (Option.some.inj hnext)
    exact ⟨fun _ => rfl, by simp⟩
  | refused hastray hid hp ih =>
    obtain ⟨c', res, hc', hnext⟩ := contexts_next hr hid hc
    rw [resolveNext_refused hp ((ih hc').1 rfl)] at hnext
    obtain ⟨rfl, -⟩ := Prod.mk.inj (Option.some.inj hnext)
    refine ⟨by simp, fun p hp' => ?_⟩
    obtain rfl := Option.some.inj hp'
    exact ⟨rfl, hp.2⟩
  | refusedToo hastray hid hq hup ih =>
    obtain ⟨c', res, hc', hnext⟩ := contexts_next hr hid hc
    obtain ⟨rfl, hvalid, -⟩ := (ih hc').2 _ rfl
    rw [resolveNext_tooHigh hq hvalid hup] at hnext
    obtain ⟨rfl, -⟩ := Prod.mk.inj (Option.some.inj hnext)
    exact ⟨fun _ => rfl, by simp⟩

/-- Without an overrun, everything is resolved one way or the other. -/
theorem resolveNext_total (hid : ¬ Overruns id)
    (hcontext : context.valid = true → ∃ skipped pieces, context.Splits skipped pieces) :
    ∃ path res, context.resolveNext id = some (path, res) ∧
      (path.valid = true → ∃ skipped pieces, path.Splits skipped pieces) := by
  obtain ⟨hover, -⟩ | hp | ⟨p, skipped, pieces, hp, hsplits, -⟩ := ofString_cases id
  · exact absurd hover hid
  · exact ⟨_, _, resolveNext_malformed hp rfl, fun h => absurd h (by simp [invalid])⟩
  · by_cases habsolute : p.isAbsolute = true
    · exact ⟨_, _, resolveNext_absolute hp hsplits.valid habsolute, fun _ => ⟨_, _, hsplits⟩⟩
    · have hrel : Relative id p := ⟨hp, hsplits.valid, by simpa using habsolute⟩
      by_cases hvalid : context.valid = true
      · obtain ⟨skipped', pieces', hsplits'⟩ := hcontext hvalid
        by_cases hup : p.goUp ≤ context.size
        · have hpos : 1 ≤ p.goUp := Nat.pos_of_ne_zero (by simpa [isAbsolute] using habsolute)
          obtain ⟨path, happend, hpath, -, -⟩ :=
            hsplits'.append hsplits hpos (by rwa [← hsplits'.size])
          refine ⟨path, .ok, ?_, fun _ => ⟨_, _, hpath⟩⟩
          rw [resolveNext_relative hrel hvalid hup, happend]
          rfl
        · exact ⟨_, _, resolveNext_tooHigh hrel hvalid (Nat.not_le.mp hup),
            fun h => absurd h (by simp [invalid])⟩
      · exact ⟨_, _, resolveNext_refused hrel (by simpa using hvalid), fun _ => ⟨_, _, hsplits⟩⟩

theorem resolveEach_total {ids : List KsString} (hids : ∀ id ∈ ids, ¬ Overruns id)
    (hcontext : context.valid = true → ∃ skipped pieces, context.Splits skipped pieces) :
    ∃ results, resolveEach context ids = some results := by
  induction ids generalizing context with
  | nil => exact ⟨[], rfl⟩
  | cons id ids ih =>
    obtain ⟨path, res, hnext, hpath⟩ := resolveNext_total (hids id List.mem_cons_self) hcontext
    obtain ⟨rest, hrest⟩ := ih (fun id' hid' => hids id' (List.mem_cons_of_mem id hid')) hpath
    exact ⟨(path, res) :: rest, by simp [resolveEach, hnext, hrest]⟩

theorem not_overruns_of_resolveEach {ids : List KsString}
    {results : List (KsPath × KsResultCode)} (hr : resolveEach context ids = some results) :
    ∀ id ∈ ids, ¬ Overruns id := by
  intro id hmem hover
  obtain ⟨n, hn⟩ := List.mem_iff_getElem?.mp hmem
  obtain ⟨c, path, res, -, -, hnext⟩ := (resolveEach_step hr).2 n id hn
  rw [resolveNext, ofString_eq_none_iff.mpr hover] at hnext
  exact absurd hnext (by simp)

theorem resolvePaths_eq_some {ids : List KsString} {results : List (KsPath × KsResultCode)} :
    resolvePaths ids = some results ↔ ∃ raw,
      resolveEach (.invalid [47, 47]) ids = some raw ∧ results = raw.map decodeResolved := by
  have hunfold : resolvePaths ids =
      (resolveEach (.invalid [47, 47]) ids).map (List.map decodeResolved) := by
    rw [resolvePaths, ofString_two_slashes]
    change (resolveEach (.invalid [47, 47]) ids).bind _ = _
    cases resolveEach (.invalid [47, 47]) ids <;> rfl
  rw [hunfold, Option.map_eq_some_iff]
  simp only [eq_comm]

theorem decodePercents_fst (p : KsPath) :
    p.decodePercents.1 = KsResultCode.ok ∨ p.decodePercents.1 = KsResultCode.badName := by
  rw [decodePercents, ksStringFromPercent]
  cases fromPercent p.str with
  | none => exact Or.inr rfl
  | some str => exact Or.inl rfl

end KsPath

/-- No relative path is resolved against another one that has been refused. -/
def NoFalseContext (ids : List KsString) : Prop :=
  ∀ n p id q, Astray ids n (some p) → ids[n]? = some id → Relative id q → p.size < q.goUp

theorem Resolved.back {ids : List KsString} {j n : ℕ} {pieces : List KsString}
    (hchain : Resolved ids (n + 1) pieces) (hj : j ≤ n)
    (hrelative : ∀ k id q, j < k → k ≤ n → ids[k]? = some id → KsPath.ofString id = some q →
      q.valid = true → q.isAbsolute = false) : ∃ pieces', Resolved ids (j + 1) pieces' := by
  induction n generalizing pieces with
  | zero =>
    obtain rfl : j = 0 := by omega
    exact ⟨pieces, hchain⟩
  | succ n ih =>
    obtain rfl | hlt := Nat.eq_or_lt_of_le hj
    · exact ⟨pieces, hchain⟩
    · cases hchain with
      | absolute hid hp hvalid habsolute =>
        have hfalse := hrelative (n + 1) _ _ hlt (le_refl _) hid hp hvalid
        exact absurd (habsolute.symm.trans hfalse) (by simp)
      | relative hchain hid hp hup =>
        exact ih hchain (by omega) fun k id q hk hk' => hrelative k id q hk (by omega)

/-- Either a chain ends in front of a path, or there is no context. -/
theorem chain_or_astray {ids : List KsString} (hids : ∀ id ∈ ids, ¬ Overruns id)
    (hfalse : NoFalseContext ids) {n : ℕ} (hn : n ≤ ids.length) :
    (∃ pieces, Resolved ids n pieces) ∨ ∃ o, Astray ids n o := by
  induction n with
  | zero => exact Or.inr ⟨none, .start⟩
  | succ n ih =>
    have hid : ids[n]? = some ids[n] := List.getElem?_eq_getElem hn
    obtain ⟨hover, -⟩ | hp | ⟨p, skipped, pieces, hp, hsplits, -⟩ := ofString_cases ids[n]
    · exact absurd hover (hids _ (List.getElem_mem hn))
    · exact Or.inr ⟨none, .malformed hid hp rfl⟩
    · by_cases habsolute : p.isAbsolute = true
      · exact Or.inl ⟨_, .absolute hid hp hsplits.valid habsolute⟩
      · have hrel : Relative ids[n] p := ⟨hp, hsplits.valid, by simpa using habsolute⟩
        obtain ⟨pieces', hchain⟩ | ⟨_ | q, hastray⟩ := ih (by omega)
        · by_cases hup : p.goUp ≤ pieces'.length
          · exact Or.inl ⟨_, .relative hchain hid hrel hup⟩
          · exact Or.inr ⟨none, .tooHigh hchain hid hrel (Nat.not_le.mp hup)⟩
        · exact Or.inr ⟨some p, .refused hastray hid hrel⟩
        · exact Or.inr ⟨none, .refusedToo hastray hid hrel (hfalse n q _ p hastray hid hrel)⟩

/-- The context rule holds for exactly the lists in which nothing overruns its string and nothing is
resolved against a relative path that has been refused. -/
theorem contextRule_iff (ids : List KsString) :
    ContextRule ids ↔ (∀ id ∈ ids, ¬ Overruns id) ∧ NoFalseContext ids := by
  constructor
  · rintro ⟨results, hresults, -, hrule⟩
    obtain ⟨raw, hraw, rfl⟩ := KsPath.resolvePaths_eq_some.mp hresults
    refine ⟨KsPath.not_overruns_of_resolveEach hraw, fun n p id q hastray hid hq => ?_⟩
    by_contra hup
    obtain ⟨c, path, res, hc, hn, hnext⟩ := (KsPath.resolveEach_step hraw).2 n id hid
    obtain ⟨rfl, hvalid, hrelative⟩ := (KsPath.astray_context hraw rfl hastray hc).2 p rfl
    rw [KsPath.resolveNext_relative hq hvalid (Nat.not_lt.mp hup)] at hnext
    obtain ⟨path', -, heq⟩ := Option.map_eq_some_iff.mp hnext
    obtain ⟨rfl, rfl⟩ := Prod.mk.inj heq
    have hresult : (raw.map KsPath.decodeResolved)[n]? =
        some (path'.decodePercents.2, path'.decodePercents.1) := by
      rw [List.getElem?_map, hn]
      rfl
    have hbad : path'.decodePercents.1 = KsResultCode.badPath := by
      refine (hrule n id q _ _ hid hq hresult).2 ?_
      cases hastray with
      | refused hastray hid' hp =>
        rename_i m _
        refine ⟨m, by omega, fun pieces hchain => ?_, fun k id' q' hk hk' hid'' hq' _ => ?_⟩
        · have hzero := (KsPath.chain_context hraw hchain hc).1
          exact absurd hrelative (by simp [KsPath.isAbsolute, hzero])
        · obtain rfl : k = m + 1 := by omega
          obtain rfl := Option.some.inj (hid.symm.trans hid'')
          obtain rfl := Option.some.inj (hq.1.symm.trans hq')
          exact hq.2.2
    obtain hok | hname := KsPath.decodePercents_fst path'
    · exact absurd (hok.symm.trans hbad) (by decide)
    · exact absurd (hname.symm.trans hbad) (by decide)
  · rintro ⟨hids, hfalse⟩
    obtain ⟨raw, hraw⟩ := KsPath.resolveEach_total hids
      (fun h : (KsPath.invalid [47, 47]).valid = true => absurd h (by simp [KsPath.invalid]))
    refine ⟨_, KsPath.resolvePaths_eq_some.mpr ⟨raw, hraw, rfl⟩, ?_, ?_⟩
    · rw [List.length_map, (KsPath.resolveEach_step hraw).1]
    · intro n id p path res hid hp hresult
      have hn : n < ids.length := (List.getElem?_eq_some_iff.mp hid).1
      obtain ⟨c, path₀, res₀, hc, hraw', hnext⟩ := (KsPath.resolveEach_step hraw).2 n id hid
      rw [List.getElem?_map, hraw', Option.map_some, Option.some.injEq] at hresult
      -- a path that is refused is not decoded
      have hrefused : (∀ r, c.resolveNext id = some r → r.2 = KsResultCode.badPath) →
          res = KsResultCode.badPath := by
        intro hbad
        have hres₀ : res₀ = KsResultCode.badPath := hbad _ hnext
        rw [hres₀, KsPath.decodeResolved, if_neg (by decide)] at hresult
        exact (Prod.mk.inj hresult).2.symm
      have hno : res = KsResultCode.badPath →
          (res = KsResultCode.ok → ∃ pieces, Resolved ids (n + 1) pieces ∧
            (path.components.map cString).map some = pieces.map fromPercent) :=
        fun hbad hok => absurd (hok.symm.trans hbad) (by decide)
      obtain ⟨pieces, hchain⟩ | ⟨o, hastray⟩ := chain_or_astray hids hfalse hn.le
      · obtain ⟨-, skipped, hsplits⟩ := KsPath.chain_context hraw hchain hc
        by_cases hup : p.goUp ≤ pieces.length
        · have hchain' := Resolved.relative hchain hid hp hup
          refine ⟨fun hok => ⟨_, hchain', ?_⟩, fun ⟨j, hj, hnot, hrelative⟩ => ?_⟩
          · obtain ⟨-, skipped', hsplits'⟩ :=
              KsPath.chain_context hraw hchain' (KsPath.contexts_succ hraw')
            rw [KsPath.resolveNext_relative hp hsplits.valid (by rwa [hsplits.size])] at hnext
            obtain ⟨path', -, heq⟩ := Option.map_eq_some_iff.mp hnext
            obtain ⟨rfl, rfl⟩ := Prod.mk.inj heq
            rw [KsPath.decodeResolved, if_pos rfl] at hresult
            obtain ⟨rfl, rfl⟩ := Prod.mk.inj hresult
            have hdecode : path'.decodePercents = (KsResultCode.ok, path'.decodePercents.2) :=
              Prod.ext hok rfl
            obtain ⟨pieces', hpieces, hparses, -⟩ := hsplits'.decodePercents hdecode
            rw [hparses.components, hpieces]
          · obtain ⟨pieces', hback⟩ := hchain'.back hj.le hrelative
            exact absurd hback (hnot pieces')
        · have hbad := hrefused fun r hr => by
            rw [KsPath.resolveNext_tooHigh hp hsplits.valid
              (by rw [hsplits.size]; exact Nat.not_le.mp hup)] at hr
            rw [← Option.some.inj hr]
          exact ⟨hno hbad, fun _ => hbad⟩
      · obtain ⟨hnone, hsome⟩ := KsPath.astray_context hraw rfl hastray hc
        have hbad := hrefused fun r hr => by
          cases o with
          | none =>
            rw [KsPath.resolveNext_refused hp (hnone rfl)] at hr
            rw [← Option.some.inj hr]
          | some q =>
            obtain ⟨rfl, hvalid, -⟩ := hsome q rfl
            rw [KsPath.resolveNext_tooHigh hp hvalid (hfalse n c id p hastray hid hp)] at hr
            rw [← Option.some.inj hr]
        exact ⟨hno hbad, fun _ => hbad⟩

/-- The paths `a` and `b`: there is no context for the first one, but the second one is resolved
against it. -/
theorem not_contextRule_twoRelative : ¬ ContextRule [[97], [98]] := by
  rintro ⟨results, hresults, -, hrule⟩
  have hconcrete : KsPath.resolvePaths [[97], [98]] =
      some [(⟨[97], true, [some 0, none], 0, 0, 1⟩, .badPath),
        (⟨[98], true, [some 0, none], 0, 0, 0⟩, .ok)] := by decide
  obtain rfl := Option.some.inj (hconcrete.symm.trans hresults)
  have hrelative : ∀ c : UInt8, ∀ p, KsPath.ofString [c] = some p → c ∈ [97, 98] →
      p.isAbsolute = false := by
    intro c p hp hc
    have hpath : KsPath.ofString [c] = some ⟨[c], true, [some 0, none], 0, 0, 1⟩ := by
      rcases List.mem_cons.mp hc with rfl | hc
      · decide
      · obtain rfl := List.mem_singleton.mp hc
        decide
    rw [← Option.some.inj (hpath.symm.trans hp)]
    rfl
  obtain ⟨pieces, hchain, -⟩ := (hrule 1 [98] ⟨[98], true, [some 0, none], 0, 0, 1⟩ _ _ rfl
    (by unfold Relative; decide) rfl).1 rfl
  cases hchain with
  | absolute hid hp hvalid habsolute =>
    obtain rfl := Option.some.inj hid
    exact absurd (habsolute.symm.trans (hrelative 98 _ hp (by simp))) (by simp)
  | relative hchain hid hp hup =>
    cases hchain with
    | absolute hid hp hvalid habsolute =>
      obtain rfl := Option.some.inj hid
      exact absurd (habsolute.symm.trans (hrelative 97 _ hp (by simp))) (by simp)
    | relative hchain hid hp hup => cases hchain

end AcpltKs
