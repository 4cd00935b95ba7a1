import AcpltKs.Path.Parsing
import AcpltKs.Percent.Decoding

/-! Percent signs in a path are decoded in each of its components. -/
namespace AcpltKs
open DelimitedText

/-- Each piece is decoded. -/
theorem fromPercent_join {pieces : List KsString} {decoded : KsString}
    (hne : pieces ≠ []) (hd : fromPercent (join slashChar pieces) = some decoded) :
    ∃ pieces', pieces.map fromPercent = pieces'.map some ∧ decoded = join slashChar pieces' := by
  induction pieces generalizing decoded with
  | nil => exact absurd rfl hne
  | cons piece pieces ih =>
    by_cases hnil : pieces = []
    · subst hnil
      rw [join, List.intercalate_singleton] at hd
      exact ⟨[decoded], by simp [hd], by simp [join]⟩
    · rw [join_cons hnil] at hd
      obtain ⟨left, right, hleft, hright, rfl⟩ :=
        fromPercent_append_cons (by decide) (by decide) hd
      obtain ⟨pieces', hpieces', rfl⟩ := ih hnil hright
      have hne' : pieces' ≠ [] := by
        rintro rfl
        exact hnil (by simpa using hpieces')
      exact ⟨left :: pieces', by simp [hleft, hpieces'], by rw [join_cons hne']⟩

theorem fromPercent_cString {s decoded : KsString} (hd : fromPercent s = some decoded) :
    fromPercent (cString s) = some (cString decoded) := by
  obtain ⟨rest, hrest⟩ := cString_append_rest s
  have hdrop : rest = [] ∨ ∃ tail, rest = 0 :: tail := by
    cases rest with
    | nil => exact Or.inl rfl
    | cons c tail =>
      refine Or.inr ⟨tail, ?_⟩
      by_contra hc
      have hc0 : c ≠ 0 := fun h => hc (by rw [h])
      have happend := cString_append (not_mem_cString s) (c :: tail)
      rw [← hrest, cString_cons tail hc0] at happend
      exact absurd (congrArg List.length happend) (by simp)
  rw [hrest] at hd
  obtain rfl | ⟨tail, rfl⟩ := hdrop
  · rw [List.append_nil] at hd
    rw [hd, cString_eq_self (not_mem_fromPercent (not_mem_cString s) hd)]
  · obtain ⟨left, right, hleft, -, rfl⟩ :=
      fromPercent_append_cons (by decide) (by decide) hd
    rw [hleft, cString_append (not_mem_fromPercent (not_mem_cString s) hleft)]
    simp [cString]

namespace KsPath

theorem moveSlashes_cons (str : KsString) (count slashIndex next : ℕ) {slash : List (Option ℕ)}
    (hne : slash ≠ []) :
    moveSlashes str count slashIndex (some next :: slash) =
      some (next - 2 * (count +
          ((str.drop slashIndex).take (next - slashIndex)).count percentChar)) ::
        moveSlashes str (count +
          ((str.drop slashIndex).take (next - slashIndex)).count percentChar) next slash := by
  obtain ⟨entry, slash, rfl⟩ := List.exists_cons_of_ne_nil hne
  rw [moveSlashes]

/-- The slashes stay in front of the pieces. The text in front of the current piece has been decoded,
and `count` is the number of percent signs in it. -/
theorem moveSlashes_starts {str piece : KsString} {pieces decoded : List KsString} {k : ℕ}
    (before : KsString) (count : ℕ)
    (hstr : ∃ rest, str = before ++ join slashChar (piece :: pieces) ++ rest)
    (hpieces : (piece :: pieces).map fromPercent = decoded.map some)
    (hk : k + 2 * count = before.length) :
    moveSlashes str count before.length ((starts before.length (piece :: pieces)).tail.map some ++
        [none]) = (starts k decoded).tail.map some ++ [none] := by
  induction pieces generalizing before piece decoded k count with
  | nil =>
    obtain ⟨first, others, rfl, -, hothers⟩ := List.map_eq_cons_iff.mp hpieces.symm
    rw [List.map_nil, List.map_eq_nil_iff] at hothers
    rw [hothers]
    rfl
  | cons piece' pieces ih =>
    obtain ⟨first, others, rfl, hfirst, hothers⟩ := List.map_eq_cons_iff.mp hpieces.symm
    obtain ⟨rest, rfl⟩ := hstr
    have hlength := fromPercent_length hfirst.symm
    have hcount : (((before ++ join slashChar (piece :: piece' :: pieces) ++ rest).drop
        before.length).take (before.length + piece.length + 1 - before.length)).count percentChar =
          piece.count percentChar := by
      rw [join_cons (by simp), List.append_assoc, List.drop_left,
        show before.length + piece.length + 1 - before.length = piece.length + 1 by omega,
        List.append_assoc, List.take_length_add_append, List.count_append]
      simp [List.count_cons_of_ne (show slashChar ≠ percentChar by decide)]
    have hnext := ih (k := k + first.length + 1) (before ++ piece ++ [slashChar])
      (count + piece.count percentChar) ⟨rest, by rw [join_cons (by simp)]; simp⟩
      hothers.symm (by simp only [List.length_append, List.length_singleton]; omega)
    simp only [List.length_append, List.length_singleton] at hnext
    simp only [starts, List.tail_cons, List.map_cons, List.cons_append] at hnext ⊢
    rw [moveSlashes_cons _ _ _ _ (by simp), hcount, hnext]
    have hstart : before.length + piece.length + 1 - 2 * (count + piece.count percentChar) =
        k + first.length + 1 := by omega
    obtain ⟨second, others', rfl, -, -⟩ := List.map_eq_cons_iff.mp hothers
    simp [starts, hstart]

/-- The pieces of a path that can be decoded are decoded. -/
theorem Laid.decodePercents {p : KsPath} {skipped : KsString} {pieces : List KsString}
    (h : p.Laid skipped pieces) (hne : pieces ≠ []) (hskipped : percentChar ∉ skipped)
    {path : KsPath} (hd : p.decodePercents = (KsResultCode.ok, path)) :
    ∃ pieces', pieces.map fromPercent = pieces'.map some ∧ path.Laid skipped pieces' ∧
      ∃ str slash, fromPercent p.str = some str ∧ path = { p with str, slash } := by
  rw [KsPath.decodePercents, ksStringFromPercent] at hd
  cases hstr : fromPercent p.str with
  | none =>
    rw [hstr] at hd
    exact absurd (Prod.mk.inj hd).1 (by decide)
  | some str =>
    rw [hstr] at hd
    obtain ⟨-, rfl⟩ := Prod.mk.inj hd
    have hcstring := fromPercent_cString hstr
    rw [h.str] at hcstring
    obtain ⟨right, hright, hdecoded⟩ := fromPercent_append hskipped hcstring
    obtain ⟨pieces', hpieces, rfl⟩ := fromPercent_join hne hright
    refine ⟨pieces', hpieces, ⟨hdecoded, ?_⟩, _, _, rfl, rfl⟩
    obtain ⟨piece, pieces, rfl⟩ := List.exists_cons_of_ne_nil hne
    obtain ⟨first, others, rfl, -, -⟩ := List.map_eq_cons_iff.mp hpieces.symm
    obtain ⟨rest, hrest⟩ := cString_append_rest p.str
    have hmoved := moveSlashes_starts skipped 0 ⟨rest, by rw [← h.str, ← hrest]⟩ hpieces
      (k := skipped.length) (by omega)
    have hzero : p.slashAt 0 = some skipped.length := h.slashAt (by simp)
    have htail : p.slash.tail =
        (starts skipped.length (piece :: pieces)).tail.map some ++ [none] := by
      rw [h.slash]
      rfl
    simp only [hzero, Option.getD_some, htail, hmoved]
    rw [h.slash]
    rfl

/-- A path that can be decoded has the decoded components. -/
theorem Splits.decodePercents {p : KsPath} {skipped : KsString} {pieces : List KsString}
    (h : p.Splits skipped pieces) {path : KsPath}
    (hd : p.decodePercents = (KsResultCode.ok, path)) :
    ∃ pieces', pieces.map fromPercent = pieces'.map some ∧ path.Parses skipped pieces' ∧
      path.goUp = p.goUp := by
  have hne : pieces ≠ [] := by
    rintro rfl
    exact absurd h.last (by simp)
  have hskipped : percentChar ∉ skipped := fun hmem =>
    absurd (List.all_eq_true.mp h.skipped_all _ hmem) (by decide)
  obtain ⟨pieces', hpieces, hlaid, str, slash, -, rfl⟩ := h.laid.decodePercents hne hskipped hd
  refine ⟨pieces', hpieces, ⟨h.valid, hlaid.str, hlaid.slash, h.first, ?_⟩, rfl⟩
  rw [h.last]
  simpa using congrArg List.length hpieces

end KsPath

end AcpltKs
