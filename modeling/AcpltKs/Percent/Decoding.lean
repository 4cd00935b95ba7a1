import AcpltKs.Conversions
import Mathlib.Data.List.Count

/-! What the conversion of percent signs makes of a string. -/
namespace AcpltKs

theorem ksStringFromPercent_eq_ok {org s : KsString} :
    ksStringFromPercent org = .ok s ↔ fromPercent org = some s := by
  unfold ksStringFromPercent
  cases fromPercent org with
  | none => simp
  | some retval => simp

theorem fromPercent_cons {c : UInt8} (hc : c ≠ percentChar) (s : KsString) :
    fromPercent (c :: s) = (fromPercent s).map (c :: ·) := by
  rw [fromPercent.eq_def]
  simp [hc]

theorem fromPercent_escape (c₁ c₂ : UInt8) (s : KsString) :
    fromPercent (percentChar :: c₁ :: c₂ :: s) =
      if ksFromPercent [c₁, c₂] ≠ 0 then (fromPercent s).map (ksFromPercent [c₁, c₂] :: ·)
      else none := by
  rw [fromPercent, if_pos rfl]

theorem isxdigit_of_ksFromPercent {c₁ c₂ : UInt8} (h : ksFromPercent [c₁, c₂] ≠ 0) :
    isxdigit c₁ = true ∧ isxdigit c₂ = true := by
  rw [ksFromPercent] at h
  split_ifs at h with hdigits
  · simpa using hdigits
  · exact absurd rfl h

/-- An escape that is decoded consists of three characters. -/
theorem fromPercent_eq_some {s decoded : KsString}
    (hd : fromPercent (percentChar :: s) = some decoded) :
    ∃ c₁ c₂ s' decoded', s = c₁ :: c₂ :: s' ∧ isxdigit c₁ = true ∧ isxdigit c₂ = true ∧
      ksFromPercent [c₁, c₂] ≠ 0 ∧ fromPercent s' = some decoded' ∧
      decoded = ksFromPercent [c₁, c₂] :: decoded' := by
  match s with
  | [] | [_] => exact absurd hd (by simp [fromPercent])
  | c₁ :: c₂ :: s' =>
    rw [fromPercent_escape] at hd
    split_ifs at hd with hne
    obtain ⟨decoded', hd', rfl⟩ := Option.map_eq_some_iff.mp hd
    obtain ⟨h₁, h₂⟩ := isxdigit_of_ksFromPercent hne
    exact ⟨c₁, c₂, s', decoded', rfl, h₁, h₂, hne, hd', rfl⟩

/-- No escape goes beyond a character that is not a hexadecimal digit. -/
theorem fromPercent_append_cons {c : UInt8} (hc : c ≠ percentChar) (hdigit : isxdigit c = false)
    {s rest decoded : KsString} (hd : fromPercent (s ++ c :: rest) = some decoded) :
    ∃ left right, fromPercent s = some left ∧ fromPercent rest = some right ∧
      decoded = left ++ c :: right := by
  fun_induction fromPercent s generalizing decoded with
  | case1 =>
    rw [List.nil_append, fromPercent_cons hc] at hd
    obtain ⟨right, hright, rfl⟩ := Option.map_eq_some_iff.mp hd
    exact ⟨[], right, rfl, hright, rfl⟩
  | case2 c₁ c₂ s hne ih =>
    rw [List.cons_append, List.cons_append, List.cons_append, fromPercent_escape, if_pos hne] at hd
    obtain ⟨decoded', hd', rfl⟩ := Option.map_eq_some_iff.mp hd
    obtain ⟨left, right, hleft, hright, rfl⟩ := ih hd'
    exact ⟨_ :: left, right, by rw [hleft]; rfl, hright, rfl⟩
  | case3 c₁ c₂ s hne =>
    rw [List.cons_append, List.cons_append, List.cons_append, fromPercent_escape, if_neg hne] at hd
    exact absurd hd (by simp)
  | case4 s hshort =>
    obtain ⟨c₁, c₂, s', -, happend, h₁, h₂, -⟩ := fromPercent_eq_some hd
    have hdigits : isxdigit c ≠ true := by simp [hdigit]
    match s with
    | [] => exact absurd ((List.cons.inj happend).1 ▸ h₁) hdigits
    | [_] => exact absurd ((List.cons.inj (List.cons.inj happend).2).1 ▸ h₂) hdigits
    | c₁ :: c₂ :: s => exact absurd rfl (hshort c₁ c₂ s)
  | case5 c' s hc' ih =>
    rw [List.cons_append, fromPercent_cons hc'] at hd
    obtain ⟨decoded', hd', rfl⟩ := Option.map_eq_some_iff.mp hd
    obtain ⟨left, right, hleft, hright, rfl⟩ := ih hd'
    exact ⟨c' :: left, right, by rw [hleft]; rfl, hright, rfl⟩

theorem fromPercent_append {s rest decoded : KsString} (hs : percentChar ∉ s)
    (hd : fromPercent (s ++ rest) = some decoded) :
    ∃ right, fromPercent rest = some right ∧ decoded = s ++ right := by
  induction s generalizing decoded with
  | nil => exact ⟨decoded, hd, rfl⟩
  | cons c s ih =>
    have hc : c ≠ percentChar := fun h => hs (h ▸ List.mem_cons_self)
    rw [List.cons_append, fromPercent_cons hc] at hd
    obtain ⟨decoded', hd', rfl⟩ := Option.map_eq_some_iff.mp hd
    obtain ⟨right, hright, rfl⟩ := ih (fun h => hs (List.mem_cons_of_mem c h)) hd'
    exact ⟨right, hright, rfl⟩

theorem fromPercent_eq_self {s : KsString} (hs : percentChar ∉ s) : fromPercent s = some s := by
  induction s with
  | nil => rfl
  | cons c s ih =>
    have hc : c ≠ percentChar := fun h => hs (h ▸ List.mem_cons_self)
    rw [fromPercent_cons hc, ih fun h => hs (List.mem_cons_of_mem c h)]
    rfl

/-- Every percent sign belongs to an escape of its own. -/
theorem fromPercent_length {s decoded : KsString} (hd : fromPercent s = some decoded) :
    decoded.length + 2 * s.count percentChar = s.length := by
  fun_induction fromPercent s generalizing decoded with
  | case1 =>
    rw [← Option.some.inj hd]
    rfl
  | case2 c₁ c₂ s hne ih =>
    obtain ⟨decoded', hd', rfl⟩ := Option.map_eq_some_iff.mp hd
    obtain ⟨h₁, h₂⟩ := isxdigit_of_ksFromPercent hne
    have hnot : ∀ c, isxdigit c = true → c ≠ percentChar := by
      rintro c hdigit rfl
      exact absurd hdigit (by decide)
    have hlength := ih hd'
    rw [List.count_cons_self, List.count_cons_of_ne (hnot c₁ h₁), List.count_cons_of_ne (hnot c₂ h₂)]
    simp only [List.length_cons]
    omega
  | case3 => exact absurd hd (by simp)
  | case4 => exact absurd hd (by simp)
  | case5 c s hc ih =>
    obtain ⟨decoded', hd', rfl⟩ := Option.map_eq_some_iff.mp hd
    have hlength := ih hd'
    rw [List.count_cons_of_ne hc]
    simp only [List.length_cons]
    omega

/-- Decoding makes no null characters. -/
theorem not_mem_fromPercent {s decoded : KsString} (hs : 0 ∉ s)
    (hd : fromPercent s = some decoded) : 0 ∉ decoded := by
  fun_induction fromPercent s generalizing decoded with
  | case1 =>
    rw [← Option.some.inj hd]
    exact List.not_mem_nil
  | case2 c₁ c₂ s hne ih =>
    obtain ⟨decoded', hd', rfl⟩ := Option.map_eq_some_iff.mp hd
    have hnot := ih (fun h => hs (by simp [h])) hd'
    simpa [hnot] using fun h : 0 = _ => hne h.symm
  | case3 => exact absurd hd (by simp)
  | case4 => exact absurd hd (by simp)
  | case5 c s hc ih =>
    obtain ⟨decoded', hd', rfl⟩ := Option.map_eq_some_iff.mp hd
    simp only [List.mem_cons, not_or] at hs ⊢
    exact ⟨hs.1, ih hs.2 hd'⟩

end AcpltKs
