import AcpltKs.Percent.Decoding

/-! Which strings come back when they are converted to percent signs and back again. -/
namespace AcpltKs

/-- Valid characters of identifiers, and percent signs with two hexadecimal digits behind them. -/
inductive Escaped : KsString → Prop
  | nil : Escaped []
  | char {c : UInt8} {s : KsString} (hc : ksIsValidChar c = true) (hs : Escaped s) : Escaped (c :: s)
  | escape {c₁ c₂ : UInt8} {s : KsString} (h₁ : isxdigit c₁ = true) (h₂ : isxdigit c₂ = true)
      (hs : Escaped s) : Escaped (percentChar :: c₁ :: c₂ :: s)

/-- What is made of a string is well formed, and is converted back to the string. -/
def ComesBack (s : KsString) : Prop :=
  Escaped (ksStringToPercent s) ∧ ksStringFromPercent (ksStringToPercent s) = .ok s

/-- What holds of every character is a matter of 256 cases. -/
theorem forall_char {P : UInt8 → Prop} (h : ∀ n : Fin 256, P ⟨⟨n⟩⟩) (c : UInt8) : P c :=
  h c.toBitVec.toFin

/-- The sign is no part of the digits of an ASCII character. -/
theorem ksToPercent_ascii (c : UInt8) : c < 128 →
    ∃ c₁ c₂, ksToPercent c = [percentChar, c₁, c₂] ∧ isxdigit c₁ = true ∧ isxdigit c₂ = true ∧
      ksFromPercent [c₁, c₂] = c := by
  refine fun hc => ⟨_, _, rfl, ?_⟩
  revert hc c
  refine forall_char ?_
  decide +kernel

/-- With the sign, no digits stand for the character. -/
theorem ksToPercent_signed (c : UInt8) : 128 ≤ c →
    ∃ c₁ c₂, ksToPercent c = [percentChar, c₁, c₂] ∧ ksFromPercent [c₁, c₂] ≠ c := by
  refine fun hc => ⟨_, _, rfl, ?_⟩
  revert hc c
  refine forall_char ?_
  decide +kernel

theorem not_ksIsValidChar_signed (c : UInt8) : 128 ≤ c → ksIsValidChar c = false := by
  revert c
  refine forall_char ?_
  decide +kernel

theorem ksStringToPercent_cons (c : UInt8) (s : KsString) :
    ksStringToPercent (c :: s) =
      (if ksIsValidChar c then [c] else ksToPercent c) ++ ksStringToPercent s :=
  List.flatMap_cons

theorem ComesBack.cons {c : UInt8} {s : KsString} (hc : c < 128) (hc0 : c ≠ 0)
    (h : ComesBack s) : ComesBack (c :: s) := by
  obtain ⟨hescaped, hd⟩ := h
  rw [ksStringFromPercent_eq_ok] at hd
  unfold ComesBack
  rw [ksStringFromPercent_eq_ok, ksStringToPercent_cons]
  by_cases hvalid : ksIsValidChar c = true
  · have hpercent : c ≠ percentChar := by
      rintro rfl
      exact absurd hvalid (by decide)
    rw [if_pos hvalid, List.singleton_append, fromPercent_cons hpercent, hd]
    exact ⟨.char hvalid hescaped, rfl⟩
  · obtain ⟨c₁, c₂, hto, h₁, h₂, hfrom⟩ := ksToPercent_ascii c hc
    rw [if_neg hvalid, hto]
    simp only [List.cons_append, List.nil_append]
    rw [fromPercent_escape, hfrom, if_pos hc0, hd]
    exact ⟨.escape h₁ h₂ hescaped, rfl⟩

/-- What comes back begins with the first character, so the digits written for it stand for it. -/
theorem decoded_cons {c : UInt8} {s : KsString}
    (hd : fromPercent (ksStringToPercent (c :: s)) = some (c :: s)) :
    c < 128 ∧ fromPercent (ksStringToPercent s) = some s := by
  rw [ksStringToPercent_cons] at hd
  generalize ksStringToPercent s = converted at hd ⊢
  by_cases hvalid : ksIsValidChar c = true
  · have hpercent : c ≠ percentChar := by
      rintro rfl
      exact absurd hvalid (by decide)
    have hc : c < 128 := by
      by_contra hc
      exact absurd (not_ksIsValidChar_signed c (UInt8.not_lt.mp hc)) (by simp [hvalid])
    rw [if_pos hvalid, List.singleton_append, fromPercent_cons hpercent] at hd
    obtain ⟨decoded, hd, hs⟩ := Option.map_eq_some_iff.mp hd
    exact ⟨hc, by rw [hd, (List.cons.inj hs).2]⟩
  · obtain ⟨c₁, c₂, hto⟩ : ∃ c₁ c₂, ksToPercent c = [percentChar, c₁, c₂] := ⟨_, _, rfl⟩
    rw [if_neg hvalid, hto] at hd
    obtain ⟨d₁, d₂, rest, decoded, happend, -, -, -, hrest, hs⟩ := fromPercent_eq_some hd
    obtain ⟨rfl, rfl, rfl⟩ : c₁ = d₁ ∧ c₂ = d₂ ∧ converted = rest := by simpa using happend
    refine ⟨?_, by rw [hrest, (List.cons.inj hs).2]⟩
    by_contra hc
    obtain ⟨d₁, d₂, hto', hfrom⟩ := ksToPercent_signed c (UInt8.not_lt.mp hc)
    obtain ⟨rfl, rfl⟩ : c₁ = d₁ ∧ c₂ = d₂ := by simpa [hto] using hto'
    exact hfrom (List.cons.inj hs).1.symm

/-- A string comes back exactly if all its characters are ASCII characters. -/
theorem comesBack_iff {s : KsString} (hs : 0 ∉ s) : ComesBack s ↔ ∀ c ∈ s, c < 128 := by
  constructor
  · rintro ⟨-, hd⟩
    rw [ksStringFromPercent_eq_ok] at hd
    induction s with
    | nil => simp
    | cons c s ih =>
      obtain ⟨hc, htail⟩ := decoded_cons hd
      simpa using ⟨hc, ih (fun hmem => hs (List.mem_cons_of_mem c hmem)) htail⟩
  · intro h
    induction s with
    | nil => exact ⟨.nil, rfl⟩
    | cons c s ih =>
      have hc0 : c ≠ 0 := fun hc => hs (hc ▸ List.mem_cons_self)
      exact .cons (h c List.mem_cons_self) hc0 (ih (fun hmem => hs (List.mem_cons_of_mem c hmem))
        fun c' hc' => h c' (List.mem_cons_of_mem c hc'))

/-- `"a/"` comes back. -/
theorem comesBack_slash : ComesBack [97, 47] :=
  (comesBack_iff (by decide)).mpr
    (List.forall_mem_cons.mpr ⟨by decide, List.forall_mem_singleton.mpr (by decide)⟩)

/-- An umlaut of Latin-1 becomes the escape of a `T`. -/
theorem not_comesBack_umlaut : ¬ ComesBack [228] := by
  rintro ⟨-, h⟩
  exact absurd h (by decide)

end AcpltKs
