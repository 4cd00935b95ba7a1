import Mathlib.Data.List.Basic

/-! Texts that consist of pieces with a delimiter between them, and where the pieces start. -/
namespace DelimitedText

variable {α : Type*} {d : α} {piece : List α} {pieces others : List (List α)} {i k : ℕ}

/-- The text of the pieces. -/
abbrev join (d : α) (pieces : List (List α)) : List α := [d].intercalate pieces

/-- Where the pieces start if the first one starts at `k`. -/
def starts : ℕ → List (List α) → List ℕ
  | _, [] => []
  | k, piece :: pieces => k :: starts (k + piece.length + 1) pieces

@[simp] theorem starts_length : (starts k pieces).length = pieces.length := by
  induction pieces generalizing k with
  | nil => rfl
  | cons piece pieces ih => simp [starts, ih]

theorem join_cons (h : pieces ≠ []) : join d (piece :: pieces) = piece ++ d :: join d pieces := by
  rw [join, List.intercalate_cons_of_ne_nil h, List.append_assoc]
  rfl

theorem join_cons_cons {a : α} :
    join d ((a :: piece) :: pieces) = a :: join d (piece :: pieces) := by
  by_cases h : pieces = []
  · subst h
    simp [join]
  · rw [join_cons h, join_cons h, List.cons_append]

theorem join_append (h : others ≠ []) :
    join d (pieces ++ others) = pieces.flatMap (· ++ [d]) ++ join d others := by
  induction pieces with
  | nil => rfl
  | cons piece pieces ih =>
    rw [List.cons_append, join_cons (by simp [h]), ih]
    simp

theorem mem_join {a : α} (h : a ∈ join d pieces) : a = d ∨ ∃ piece ∈ pieces, a ∈ piece := by
  induction pieces with
  | nil => exact absurd h List.not_mem_nil
  | cons piece pieces ih =>
    by_cases hnil : pieces = []
    · subst hnil
      rw [join, List.intercalate_singleton] at h
      exact Or.inr ⟨piece, List.mem_cons_self, h⟩
    · rw [join_cons hnil] at h
      obtain h | h := List.mem_append.mp h
      · exact Or.inr ⟨piece, List.mem_cons_self, h⟩
      · obtain rfl | h := List.mem_cons.mp h
        · exact Or.inl rfl
        · exact (ih h).imp_right fun ⟨other, hother, ha⟩ =>
            ⟨other, List.mem_cons_of_mem piece hother, ha⟩

theorem mem_join_of_mem {a : α} (hpiece : piece ∈ pieces) (h : a ∈ piece) : a ∈ join d pieces := by
  induction pieces with
  | nil => exact absurd hpiece List.not_mem_nil
  | cons other pieces ih =>
    by_cases hnil : pieces = []
    · subst hnil
      rw [join, List.intercalate_singleton, ← List.mem_singleton.mp hpiece]
      exact h
    · rw [join_cons hnil]
      obtain rfl | hpiece := List.mem_cons.mp hpiece
      · exact List.mem_append_left _ h
      · exact List.mem_append_right _ (List.mem_cons_of_mem d (ih hpiece))

/-- The text from the start of a piece on. -/
theorem drop_starts (h : i < pieces.length) (before : List α) :
    (before ++ join d pieces).drop (getElem (starts before.length pieces) i (by simpa using h)) =
      join d (pieces.drop i) := by
  induction pieces generalizing before i with
  | nil => exact absurd h (by simp)
  | cons piece pieces ih =>
    cases i with
    | zero => simp [starts]
    | succ i =>
      have hlt : i < pieces.length := by simpa using h
      have hne : pieces ≠ [] := List.ne_nil_of_length_pos (by omega)
      have hshift := ih hlt (before ++ piece ++ [d])
      simp only [List.length_append, List.length_singleton] at hshift
      simp only [starts, List.getElem_cons_succ, List.drop_succ_cons]
      rw [← hshift, join_cons hne]
      simp

theorem starts_succ (h : i + 1 < pieces.length) :
    getElem (starts k pieces) (i + 1) (by simpa using h) =
      getElem (starts k pieces) i (by simp; omega) + (getElem pieces i (by omega)).length + 1 := by
  induction pieces generalizing k i with
  | nil => exact absurd h (by simp)
  | cons piece pieces ih =>
    cases i with
    | zero =>
      cases pieces with
      | nil => exact absurd h (by simp)
      | cons piece' pieces => simp [starts]
    | succ i => simpa [starts] using ih (by simpa using h)

/-- The text in front of a piece. -/
theorem take_starts (h : i < pieces.length) (before : List α) :
    (before ++ join d pieces).take (getElem (starts before.length pieces) i (by simpa using h)) =
      before ++ (pieces.take i).flatMap (· ++ [d]) := by
  induction pieces generalizing before i with
  | nil => exact absurd h (by simp)
  | cons piece pieces ih =>
    cases i with
    | zero => simp [starts]
    | succ i =>
      have hlt : i < pieces.length := by simpa using h
      have hne : pieces ≠ [] := List.ne_nil_of_length_pos (by omega)
      have hshift := ih hlt (before ++ piece ++ [d])
      simp only [List.length_append, List.length_singleton] at hshift
      simp only [starts, List.getElem_cons_succ, List.take_succ_cons, List.flatMap_cons]
      rw [join_cons hne]
      simpa using hshift

theorem starts_le (h : i < pieces.length) (before : List α) (d : α) :
    getElem (starts before.length pieces) i (by simpa using h) ≤
      (before ++ join d pieces).length := by
  induction pieces generalizing before i with
  | nil => exact absurd h (by simp)
  | cons piece pieces ih =>
    cases i with
    | zero => simp [starts]
    | succ i =>
      have hlt : i < pieces.length := by simpa using h
      have hne : pieces ≠ [] := List.ne_nil_of_length_pos (by omega)
      have hshift := ih hlt (before ++ piece ++ [d])
      simp only [List.length_append, List.length_singleton] at hshift
      simp only [starts, List.getElem_cons_succ]
      rw [join_cons hne]
      simp only [List.length_append, List.length_cons]
      omega

/-- A piece without the delimiter ends where the next one starts. -/
theorem take_join (h : i < pieces.length) :
    (join d (pieces.drop i)).take (pieces[i]).length = pieces[i] := by
  rw [List.drop_eq_getElem_cons h]
  by_cases hne : pieces.drop (i + 1) = []
  · rw [hne, join, List.intercalate_singleton, List.take_length]
  · rw [join_cons hne, List.take_left]

theorem not_mem_of_mem_splitOn [BEq α] [LawfulBEq α] {l : List α}
    (h : piece ∈ List.splitOn d l) : d ∉ piece := by
  induction l generalizing piece with
  | nil => simp_all
  | cons a l ih =>
    rw [List.splitOn_cons_eq_if_modifyHead] at h
    split_ifs at h with ha
    · rcases List.mem_cons.mp h with rfl | h
      · exact List.not_mem_nil
      · exact ih h
    · obtain ⟨first, pieces, hl⟩ := List.exists_cons_of_ne_nil (List.splitOn_ne_nil d l)
      rw [hl] at h ih
      rcases List.mem_cons.mp h with rfl | h
      · intro hd
        rcases List.mem_cons.mp hd with rfl | hd
        · exact ha BEq.rfl
        · exact ih List.mem_cons_self hd
      · exact ih (List.mem_cons_of_mem first h)

theorem length_splitOn [BEq α] [LawfulBEq α] (l : List α) :
    (List.splitOn d l).length = l.count d + 1 := by
  induction l with
  | nil => simp
  | cons a l ih =>
    rw [List.splitOn_cons_eq_if_modifyHead, List.count_cons]
    split_ifs <;> simp [ih]

section Marks
variable [BEq α]

/-- Of the delimiters in the text, which ones belong to a piece. -/
def marks (d : α) (pieces : List (List α)) : List Bool :=
  join false (pieces.map fun piece => List.replicate (piece.count d) true)

theorem marks_singleton (d : α) (piece : List α) :
    marks d [piece] = List.replicate (piece.count d) true := by
  simp [marks, join]

theorem marks_cons (d : α) (piece : List α) (h : pieces ≠ []) :
    marks d (piece :: pieces) = List.replicate (piece.count d) true ++ false :: marks d pieces := by
  rw [marks, List.map_cons, join_cons (by simpa using h), marks]

variable [LawfulBEq α]

/-- Pieces with as many delimiters end at the same place of a text. -/
theorem append_cons_inj_of_count {l l' rest rest' : List α} (hcount : l.count d = l'.count d)
    (h : l ++ d :: rest = l' ++ d :: rest') : l = l' ∧ rest = rest' := by
  induction l generalizing l' with
  | nil =>
    cases l' with
    | nil => exact ⟨rfl, by simpa using h⟩
    | cons a l' =>
      obtain rfl : d = a := (List.cons.inj h).1
      exact absurd hcount (by simp)
  | cons a l ih =>
    cases l' with
    | nil =>
      obtain rfl : a = d := (List.cons.inj h).1
      exact absurd hcount (by simp)
    | cons b l' =>
      obtain ⟨rfl, htail⟩ := List.cons.inj h
      have hcount' : l.count d = l'.count d := by
        simpa [List.count_cons] using hcount
      obtain ⟨rfl, rfl⟩ := ih hcount' htail
      exact ⟨rfl, rfl⟩

/-- The text and the marks tell what the pieces are. -/
theorem eq_of_join_of_marks {pieces' : List (List α)} (hne : pieces ≠ []) (hne' : pieces' ≠ [])
    (hjoin : join d pieces = join d pieces') (hmarks : marks d pieces = marks d pieces') :
    pieces = pieces' := by
  have hmore : ∀ {piece piece' : List α} {others : List (List α)}, others ≠ [] →
      marks d [piece] ≠ marks d (piece' :: others) := by
    intro piece piece' others hothers heq
    rw [marks_singleton, marks_cons d piece' hothers] at heq
    have hfalse : false ∈ List.replicate (piece.count d) true := by
      rw [heq]
      exact List.mem_append_right _ List.mem_cons_self
    exact absurd (List.eq_of_mem_replicate hfalse) (by decide)
  induction pieces generalizing pieces' with
  | nil => exact absurd rfl hne
  | cons piece pieces ih =>
    obtain ⟨piece', pieces', rfl⟩ := List.exists_cons_of_ne_nil hne'
    by_cases hnil : pieces = []
    · subst hnil
      by_cases hnil' : pieces' = []
      · subst hnil'
        simpa [join] using hjoin
      · exact absurd hmarks (hmore hnil')
    · by_cases hnil' : pieces' = []
      · subst hnil'
        exact absurd hmarks.symm (hmore hnil)
      · rw [join_cons hnil, join_cons hnil'] at hjoin
        rw [marks_cons d piece hnil, marks_cons d piece' hnil'] at hmarks
        have hcount : (List.replicate (piece.count d) true).count false =
            (List.replicate (piece'.count d) true).count false := by
          simp [List.count_replicate]
        obtain ⟨hreplicate, hrestMarks⟩ := append_cons_inj_of_count hcount hmarks
        have hlength := congrArg List.length hreplicate
        rw [List.length_replicate, List.length_replicate] at hlength
        obtain ⟨rfl, hrest⟩ := append_cons_inj_of_count hlength hjoin
        rw [ih hnil hnil' hrest hrestMarks]

end Marks

end DelimitedText
