import AcpltKs.Path.Decoding
import AcpltKs.Path.Resolution

/-! Decoding a path that is made in any way decodes each of its components. -/
namespace AcpltKs
open DelimitedText

namespace KsPath

/-- The default constructor. -/
def root : KsPath := ⟨[slashChar], true, [some 1, some 1], 0, 0, 0⟩

/-- The constructor that takes a range of the components. -/
def part (path : KsPath) (first last : ℕ) : KsPath :=
  { path with first := first + path.first, last := last + path.first, goUp := 1 }

/-- The paths that the public functions of the class make. -/
inductive Made : KsPath → Prop
  | root : Made root
  | ofString {str : KsString} {p : KsPath} (hp : KsPath.ofString str = some p) : Made p
  | part {p : KsPath} {first last : ℕ} (hp : Made p) (hvalid : p.valid = true)
      (hfirst : first ≤ last) (hlast : last < p.size) : Made (p.part first last)
  | resolve {context rel p : KsPath} (hcontext : Made context) (hrel : Made rel)
      (hvalid : context.valid = true) (habsolute : context.isAbsolute = true)
      (hvalid' : rel.valid = true) (hp : context.resolve rel = some p) : Made p
  | decodePercents {p : KsPath} (hp : Made p) (hvalid : p.valid = true) : Made p.decodePercents.2

/-- The components are some of the pieces between the slashes. -/
structure Formed (p : KsPath) (skipped : KsString) (pieces : List KsString) : Prop
    extends laid : p.Laid skipped pieces where
  noPercent : percentChar ∉ skipped
  first_le : p.first ≤ p.last
  last_lt : p.last < pieces.length

/-- The path of the default constructor or what is left of it. -/
def IsRoot (p : KsPath) : Prop :=
  p.str = [slashChar] ∧ p.slash = [some 1, some 1] ∧ p.first = 0 ∧ p.last = 0

end KsPath

/-- The slashes that are found lie between pieces of the string. -/
theorem nextSlashes_pieces {s : KsString} {si n : ℕ} {slashes : List ℕ}
    (hnext : nextSlashes (s ++ [0]) si n = some slashes) :
    ∃ piece pieces, s = join slashChar (piece :: pieces) ∧
      slashes = (starts si (piece :: pieces)).tail := by
  induction s generalizing si n slashes with
  | nil =>
    cases n with
    | zero => exact ⟨[], [], by simp [join], by simpa [nextSlashes, starts] using hnext.symm⟩
    | succ n =>
      rw [List.nil_append, nextSlashes, if_neg (by decide), nextSlashes] at hnext
      exact absurd hnext (by simp)
  | cons c s ih =>
    cases n with
    | zero =>
      exact ⟨c :: s, [], by simp [join], by simpa [nextSlashes, starts] using hnext.symm⟩
    | succ n =>
      rw [List.cons_append, nextSlashes] at hnext
      by_cases hc : c = slashChar
      · rw [if_pos hc] at hnext
        obtain ⟨slashes', hnext', rfl⟩ := Option.map_eq_some_iff.mp hnext
        obtain ⟨piece, pieces, rfl, rfl⟩ := ih hnext'
        refine ⟨[], piece :: pieces, ?_, by simp [starts]⟩
        rw [join_cons (List.cons_ne_nil piece pieces), hc, List.nil_append]
      · rw [if_neg hc] at hnext
        obtain ⟨piece, pieces, rfl, rfl⟩ := ih hnext
        refine ⟨c :: piece, pieces, join_cons_cons.symm, ?_⟩
        simp [starts, show si + 1 + piece.length = si + (piece.length + 1) by omega]

namespace KsPath
variable {p : KsPath} {skipped : KsString} {pieces : List KsString} {i : ℕ}

theorem findSlashes_formed {str : KsString} {goUp size : ℕ}
    (hp : findSlashes str goUp size = some p) : ∃ skipped pieces, p.Formed skipped pieces := by
  obtain ⟨slashes, hnext, heq⟩ := Option.bind_eq_some_iff.mp hp
  obtain rfl := Option.some.inj heq
  have hsi : skipSlashesAndDots str = ((cString str).takeWhile isSlashOrDot).length := by
    rw [← skipSlashesAndDots_cString]
    rfl
  have hstr : cString str = (cString str).takeWhile isSlashOrDot ++
      (cString str).dropWhile isSlashOrDot := List.takeWhile_append_dropWhile.symm
  have hdropWhile := @List.drop_left _ ((cString str).takeWhile isSlashOrDot)
    ((cString str).dropWhile isSlashOrDot)
  rw [← hstr] at hdropWhile
  have hdrop : (cString str ++ [0]).drop (skipSlashesAndDots str) =
      (cString str).dropWhile isSlashOrDot ++ [0] := by
    rw [hsi, List.drop_append_of_le_length (List.takeWhile_sublist _).length_le, hdropWhile]
  rw [hdrop, hsi] at hnext
  obtain ⟨piece, pieces, hrest, hslashes⟩ := nextSlashes_pieces hnext
  refine ⟨(cString str).takeWhile isSlashOrDot, piece :: pieces,
    ⟨⟨by rw [← hrest, ← hstr], ?_⟩, fun hmem => ?_, Nat.zero_le _, ?_⟩⟩
  · simp only [hsi, hslashes, starts, List.tail_cons]
  · exact absurd (List.mem_takeWhile_imp hmem) (by decide)
  · simp [hslashes, starts]

theorem Formed.ne_nil (h : p.Formed skipped pieces) : pieces ≠ [] :=
  List.ne_nil_of_length_pos (Nat.zero_lt_of_lt h.last_lt)

theorem Formed.part (h : p.Formed skipped pieces) (hvalid : p.valid = true) {first last : ℕ}
    (hfirst : first ≤ last) (hlast : last < p.size) : (p.part first last).Formed skipped pieces := by
  rw [size, if_pos hvalid] at hlast
  refine ⟨⟨h.str, h.slash⟩, h.noPercent, Nat.add_le_add_right hfirst _, ?_⟩
  have hle := h.first_le
  have hlt := h.last_lt
  simp only [KsPath.part]
  omega

theorem decodePercents_error (h : p.decodePercents.1 ≠ KsResultCode.ok) :
    p.decodePercents.2 = p := by
  unfold decodePercents at h ⊢
  split
  · rfl
  · next hstr =>
    rw [hstr] at h
    exact absurd rfl h

theorem Formed.decodePercents (h : p.Formed skipped pieces) :
    ∃ pieces', p.decodePercents.2.Formed skipped pieces' := by
  by_cases hres : p.decodePercents.1 = KsResultCode.ok
  · have hd : p.decodePercents = (KsResultCode.ok, p.decodePercents.2) := Prod.ext hres rfl
    obtain ⟨pieces', hpieces, hlaid, str, slash, -, hpath⟩ :=
      h.laid.decodePercents h.ne_nil h.noPercent hd
    have hlength : pieces.length = pieces'.length := by simpa using congrArg List.length hpieces
    rw [hpath] at hlaid ⊢
    exact ⟨pieces', hlaid, h.noPercent, h.first_le, by rw [← hlength]; exact h.last_lt⟩
  · rw [decodePercents_error hres]
    exact ⟨pieces, h⟩

theorem IsRoot.decodePercents (h : p.IsRoot) : p.decodePercents.2.IsRoot := by
  obtain ⟨str, valid, slash, first, last, goUp⟩ := p
  obtain ⟨rfl, rfl, rfl, rfl⟩ := h
  exact ⟨rfl, rfl, rfl, rfl⟩

theorem IsRoot.part (h : p.IsRoot) (hvalid : p.valid = true) {first last : ℕ}
    (hfirst : first ≤ last) (hlast : last < p.size) : (p.part first last).IsRoot := by
  obtain ⟨hstr, hslash, hfirst', hlast'⟩ := h
  rw [size, if_pos hvalid] at hlast
  refine ⟨hstr, hslash, ?_, ?_⟩
  · simp only [KsPath.part]
    omega
  · simp only [KsPath.part]
    omega

theorem Made.formed (h : p.Made) (hvalid : p.valid = true) :
    p.IsRoot ∨ ∃ skipped pieces, p.Formed skipped pieces := by
  induction h with
  | root => exact Or.inl ⟨rfl, rfl, rfl, rfl⟩
  | @ofString str p hp =>
    rw [KsPath.ofString] at hp
    split at hp
    · obtain rfl := Option.some.inj hp
      exact absurd hvalid (by simp [invalid])
    · exact Or.inr (findSlashes_formed hp)
  | part hp hvalid' hfirst hlast ih =>
    obtain h | ⟨skipped, pieces, h⟩ := ih hvalid'
    · exact Or.inl (h.part hvalid' hfirst hlast)
    · exact Or.inr ⟨skipped, pieces, h.part hvalid' hfirst hlast⟩
  | resolve hcontext hrel hvalid' habsolute hrvalid hp ihcontext ihrel =>
    rw [KsPath.resolve] at hp
    split_ifs at hp
    · obtain rfl := Option.some.inj hp
      exact ihrel hrvalid
    · exact Or.inr (findSlashes_formed hp)
    · rw [ofString_two_slashes] at hp
      obtain rfl := Option.some.inj hp
      exact absurd hvalid (by simp [invalid])
  | decodePercents hp hvalid' ih =>
    obtain h | ⟨skipped, pieces, h⟩ := ih hvalid'
    · exact Or.inl h.decodePercents
    · obtain ⟨pieces', h'⟩ := h.decodePercents
      exact Or.inr ⟨skipped, pieces', h'⟩

/-- The only component is the whole string, if nothing is skipped. -/
theorem Laid.slice_eq (h : p.Laid skipped pieces) (hi : i < pieces.length) :
    p.slice i (i + 1) 1 = if skipped = [] ∧ pieces.length = 1 then p.str else pieces[i] := by
  have hpiece := h.slice hi
  rw [KsPath.slice, h.slashAt hi] at hpiece ⊢
  simp only at hpiece ⊢
  obtain ⟨⟨hstart, hlen⟩, hwhole⟩ | ⟨hpart, hcstring⟩ := substr_whole_or p.str
    (getElem (starts skipped.length pieces) i (by simpa using hi))
    ((p.slashAt (i + 1)).map fun stop =>
      stop - getElem (starts skipped.length pieces) i (by simpa using hi) - 1)
  · obtain rfl : i = 0 := by
      cases i with
      | zero => rfl
      | succ i =>
        rw [starts_succ hi] at hstart
        exact absurd hstart (by omega)
    obtain ⟨piece, others, rfl⟩ := List.exists_cons_of_ne_nil (List.ne_nil_of_length_pos hi)
    have hskipped : skipped = [] := List.eq_nil_of_length_eq_zero hstart
    rw [hwhole, if_pos]
    refine ⟨hskipped, ?_⟩
    -- The first piece of several ones is shorter than the string.
    by_contra hone
    have hnext : 0 + 1 < (piece :: others).length := by
      simp only [List.length_cons] at hone ⊢
      omega
    have hle := starts_le hnext skipped slashChar
    have hlength := cString_length_le p.str
    rw [← h.str, starts_succ hnext] at hle
    rw [h.slashAt hnext, starts_succ hnext] at hlen
    have hshort := hlen _ rfl
    simp only at hshort
    omega
  · rw [← hcstring, hpiece, if_neg]
    rintro ⟨rfl, hone⟩
    obtain ⟨piece, rfl⟩ := List.length_eq_one_iff.mp hone
    obtain rfl : i = 0 := by simpa using hi
    exact hpart ⟨rfl, by simp [show p.slashAt (0 + 1) = none from h.slashAt_length]⟩

/-- A path that is made in any way is decoded component by component, or not at all. -/
theorem decodePercents_components (hp : p.Made) (hvalid : p.valid = true) :
    (p.decodePercents.1 = KsResultCode.ok →
      p.decodePercents.2.size = p.size ∧ ∀ i < p.size,
        ksStringFromPercent (p.component i) = .ok (p.decodePercents.2.component i)) ∧
      (p.decodePercents.1 ≠ KsResultCode.ok → p.decodePercents.2 = p) := by
  refine ⟨fun hres => ?_, decodePercents_error⟩
  obtain hroot | ⟨skipped, pieces, h⟩ := hp.formed hvalid
  · have hpath : p.decodePercents.2 = p := by
      obtain ⟨str, valid, slash, first, last, goUp⟩ := p
      obtain ⟨rfl, rfl, rfl, rfl⟩ := hroot
      rfl
    obtain ⟨hstr, hslash, hfirst, hlast⟩ := hroot
    rw [hpath]
    refine ⟨rfl, fun i hi => ?_⟩
    obtain rfl : i = 0 := by
      rw [size, if_pos hvalid] at hi
      omega
    have hempty : p.component 0 = [] := by
      rw [KsPath.component, slice, slashAt, slashAt, hstr, hslash, hfirst]
      decide
    rw [hempty]
    rfl
  · have hd : p.decodePercents = (KsResultCode.ok, p.decodePercents.2) := Prod.ext hres rfl
    obtain ⟨pieces', hpieces, hlaid, str, slash, hstr, hpath⟩ :=
      h.laid.decodePercents h.ne_nil h.noPercent hd
    have hlength : pieces.length = pieces'.length := by simpa using congrArg List.length hpieces
    rw [hpath] at hlaid ⊢
    refine ⟨rfl, fun i hi => ?_⟩
    have hi' : p.first + i < pieces.length := by
      have hle := h.first_le
      have hlt := h.last_lt
      rw [size, if_pos hvalid] at hi
      omega
    rw [ksStringFromPercent_eq_ok, KsPath.component, KsPath.component, h.laid.slice_eq hi',
      hlaid.slice_eq (by rw [← hlength]; exact hi')]
    by_cases hwhole : skipped = [] ∧ pieces.length = 1
    · rw [if_pos hwhole, if_pos (by rwa [← hlength])]
      exact hstr
    · rw [if_neg hwhole, if_neg (by rwa [← hlength])]
      have hdecoded := congrArg (·[p.first + i]?) hpieces
      simpa [hi', ← hlength] using hdecoded

/-- The second component of `"/a/%2F"` is decoded to a slash. -/
theorem decodePercents_components_slash :
    let p : KsPath := ⟨[47, 97, 47, 37, 50, 70], true, [some 1, some 3, none], 0, 1, 0⟩
    KsPath.ofString [47, 97, 47, 37, 50, 70] = some p ∧ p.decodePercents.2.size = 2 ∧
      ksStringFromPercent (p.component 1) = .ok (p.decodePercents.2.component 1) := by
  intro p
  have hp : KsPath.ofString [47, 97, 47, 37, 50, 70] = some p := by decide
  obtain ⟨hsize, hcomponents⟩ := (decodePercents_components (.ofString hp) rfl).1 (by decide)
  exact ⟨hp, hsize, hcomponents 1 (by decide)⟩

end KsPath

end AcpltKs
