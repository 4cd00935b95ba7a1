import Mathlib.Algebra.Order.Ring.Nat
import AcpltKs.Percent.Decoding

/-! Where the conversions of percent signs read and write: the characters of a string are followed by
a null character, and nothing is the outcome of an access to other memory. -/
namespace AcpltKs

abbrev backslashChar : UInt8 := 92

def ksIsDelim (c : UInt8) : Bool := c == 47 || c == 46

/-- Write into a buffer. -/
def store (buf : List UInt8) (i : ℕ) (c : UInt8) : Option (List UInt8) :=
  if i < buf.length then some (buf.set i c) else none

/-- `ksFromPercent` on what is left of a string. The second digit is only looked at behind a first
one. -/
def fromPercentAt : List UInt8 → Option UInt8
  | [] => none
  | c₁ :: p =>
      if isxdigit c₁ then
        match p with
        | [] => none
        | c₂ :: _ => some (if isxdigit c₂ then (xdigitValue c₁ <<< 4) + xdigitValue c₂ else 0)
      else some 0

/-- Count the characters to be converted, two characters being skipped behind each of them. -/
def countEscapes : KsString → ℕ
  | [] => 0
  | c :: s =>
      if c = percentChar then
        match s with
        | _ :: _ :: s => countEscapes s + 1
        | _ => 1
      else countEscapes s

/-- Copy the converted characters from index `j` of the buffer on, until one cannot be converted. -/
def fillPercents : KsString → List UInt8 → ℕ → Option (List UInt8 × Bool)
  | [], res, _ => some (res, true)
  | c :: s, res, j =>
      if c = percentChar then do
        let c' ← fromPercentAt (s ++ [0])
        let res ← store res j c'
        if c' ≠ 0 then
          match s with
          | _ :: _ :: s => fillPercents s res (j + 1)
          | _ => some (res, true)
        else some (res, false)
      else do
        let res ← store res j c
        fillPercents s res (j + 1)

/-- Convert and copy into a new buffer. -/
def convertInto (res : List UInt8) (szres : ℕ) (org : KsString) :
    Option (Except KsResultCode KsString) := do
  let (res, ok) ← fillPercents org res 0
  let res ← store res szres 0
  some (if ok then .ok (res.take szres) else .error .badName)

/-- `ksStringFromPercent` in memory. The lengths are of the type `size_t`. -/
def stringFromPercent (org : KsString) : Option (Except KsResultCode KsString) :=
  let convert := countEscapes org
  if convert ≠ 0 then
    let szres := (org.length + 2 ^ 64 - 2 * convert) % 2 ^ 64
    convertInto (List.replicate ((szres + 1) % 2 ^ 64) 63) szres org
  else some (.ok org)

/-- The loop of `ksDecodeString` from the character at `p` on. -/
def decodeLoop (useBackslash : Bool) : List UInt8 → List UInt8 → ℕ → Option (List UInt8 × ℕ × Bool)
  | [], _, _ => none
  | c :: p, buf, j =>
      if c = 0 then some (buf, j, true)
      else if c = percentChar then do
        let c' ← fromPercentAt p
        if c' = 0 then do
          -- The loop condition looks at the next character before the flag.
          let _ ← (p.drop 2).head?
          some (buf, j, false)
        else do
          let (buf, j) ←
            if useBackslash && (c' == backslashChar || ksIsDelim c' || c' == percentChar) then do
              let buf ← store buf j backslashChar
              let buf ← store buf (j + 1) c'
              some (buf, j + 2)
            else do
              let buf ← store buf j c'
              some (buf, j + 1)
          match p with
          | _ :: _ :: p => decodeLoop useBackslash p buf j
          | _ => none
      else do
        let buf ← store buf j c
        decodeLoop useBackslash p buf (j + 1)

def ksDecodeString (org : KsString) (useBackslash : Bool) :
    Option (Except KsResultCode KsString) := do
  let (buf, j, ok) ← decodeLoop useBackslash (org ++ [0]) (List.replicate (org.length + 1) 0) 0
  let buf ← store buf j 0
  some (if ok then .ok (cString buf) else .error .badName)

/-- Neither function leaves the string or the buffer. -/
def StaysInside (org : KsString) : Prop :=
  stringFromPercent org ≠ none ∧ ∀ useBackslash, ksDecodeString org useBackslash ≠ none

/-- The conversion comes to a percent sign with these characters behind it. -/
def Reached (org rest : KsString) : Prop :=
  ∃ before decoded, org = before ++ percentChar :: rest ∧ fromPercent before = some decoded

/-- The conversion comes to a percent sign with fewer than two characters behind it. -/
def CutOff (org : KsString) : Prop := ∃ rest, Reached org rest ∧ rest.length < 2

theorem store_of_lt {buf : List UInt8} {i : ℕ} (c : UInt8) (h : i < buf.length) :
    store buf i c = some (buf.set i c) := if_pos h

theorem store_of_le {buf : List UInt8} {i : ℕ} (c : UInt8) (h : buf.length ≤ i) :
    store buf i c = none := if_neg (Nat.not_lt.mpr h)

theorem fromPercentAt_digits (c₁ c₂ : UInt8) (p : List UInt8) :
    fromPercentAt (c₁ :: c₂ :: p) = some (ksFromPercent [c₁, c₂]) := by
  simp only [fromPercentAt, ksFromPercent]
  cases isxdigit c₁ <;> cases isxdigit c₂ <;> rfl

/-- An escape that is cut off is no character, and nothing behind the null character is read. -/
theorem fromPercentAt_short {s : KsString} (h : s.length < 2) :
    fromPercentAt (s ++ [0]) = some 0 := by
  match s with
  | [] => rfl
  | [c] =>
    simp only [List.cons_append, List.nil_append, fromPercentAt]
    cases isxdigit c <;> rfl

theorem not_reached_nil (rest : KsString) : ¬ Reached [] rest := by
  rintro ⟨before, decoded, happend, -⟩
  exact absurd happend (by simp)

theorem reached_cons {c : UInt8} (hc : c ≠ percentChar) (s rest : KsString) :
    Reached (c :: s) rest ↔ Reached s rest := by
  constructor
  · rintro ⟨before, decoded, happend, hd⟩
    cases before with
    | nil => exact absurd (List.cons.inj happend).1 hc
    | cons c' before =>
      obtain ⟨rfl, rfl⟩ := List.cons.inj happend
      rw [fromPercent_cons hc] at hd
      obtain ⟨decoded', hd', -⟩ := Option.map_eq_some_iff.mp hd
      exact ⟨before, decoded', rfl, hd'⟩
  · rintro ⟨before, decoded, rfl, hd⟩
    exact ⟨c :: before, c :: decoded, rfl, by rw [fromPercent_cons hc, hd]; rfl⟩

theorem reached_percent (s rest : KsString) :
    Reached (percentChar :: s) rest ↔ rest = s ∨
      ∃ c₁ c₂ s', s = c₁ :: c₂ :: s' ∧ ksFromPercent [c₁, c₂] ≠ 0 ∧ Reached s' rest := by
  constructor
  · rintro ⟨before, decoded, happend, hd⟩
    cases before with
    | nil => exact Or.inl (List.cons.inj happend).2.symm
    | cons c before =>
      obtain ⟨rfl, hs⟩ : percentChar = c ∧ s = before ++ percentChar :: rest := by
        simpa using happend
      obtain ⟨c₁, c₂, s', decoded', rfl, -, -, hne, hd', -⟩ := fromPercent_eq_some hd
      exact Or.inr ⟨c₁, c₂, _, hs, hne, s', decoded', rfl, hd'⟩
  · rintro (rfl | ⟨c₁, c₂, s', rfl, hne, before, decoded, rfl, hd⟩)
    · exact ⟨[], [], rfl, rfl⟩
    · exact ⟨percentChar :: c₁ :: c₂ :: before, ksFromPercent [c₁, c₂] :: decoded, rfl,
        by rw [fromPercent_escape, if_pos hne, hd]; rfl⟩

theorem countEscapes_le (s : KsString) : 3 * countEscapes s ≤ s.length + 2 := by
  fun_induction countEscapes s with
  | case1 => simp
  | case2 c₁ c₂ s ih =>
    simp only [List.length_cons]
    omega
  | case3 s hs => simp only [List.length_cons]; omega
  | case4 c s hc ih =>
    simp only [List.length_cons]
    omega

theorem not_mem_of_countEscapes {s : KsString} (h : countEscapes s = 0) : percentChar ∉ s := by
  fun_induction countEscapes s with
  | case1 => simp
  | case2 => exact absurd h (by simp)
  | case3 => exact absurd h (by simp)
  | case4 c s hc ih => simpa using ⟨Ne.symm hc, ih h⟩

/-- Behind an escape that stands for a character the conversion goes on. -/
theorem reached_escape {c₁ c₂ : UInt8} {s rest : KsString} (hrest : rest.length < 2) :
    Reached (percentChar :: c₁ :: c₂ :: s) rest ↔
      ksFromPercent [c₁, c₂] ≠ 0 ∧ Reached s rest := by
  rw [reached_percent]
  constructor
  · rintro (rfl | ⟨_, _, _, h, hne, hs⟩)
    · exact absurd hrest (by simp)
    · obtain ⟨rfl, rfl, rfl⟩ : c₁ = _ ∧ c₂ = _ ∧ s = _ := by simpa using h
      exact ⟨hne, hs⟩
  · exact fun ⟨hne, hs⟩ => Or.inr ⟨c₁, c₂, s, rfl, hne, hs⟩

theorem not_cutOff_nil : ¬ CutOff [] := fun ⟨rest, h, _⟩ => not_reached_nil rest h

theorem cutOff_cons {c : UInt8} (hc : c ≠ percentChar) (s : KsString) :
    CutOff (c :: s) ↔ CutOff s := by
  simp only [CutOff, reached_cons hc]

theorem cutOff_escape {c₁ c₂ : UInt8} (s : KsString) :
    CutOff (percentChar :: c₁ :: c₂ :: s) ↔ ksFromPercent [c₁, c₂] ≠ 0 ∧ CutOff s := by
  constructor
  · rintro ⟨rest, h, hrest⟩
    obtain ⟨hne, hs⟩ := (reached_escape hrest).mp h
    exact ⟨hne, rest, hs, hrest⟩
  · rintro ⟨hne, rest, hs, hrest⟩
    exact ⟨rest, (reached_escape hrest).mpr ⟨hne, hs⟩, hrest⟩

/-- An escape at the end of the string that is cut off. -/
theorem fillPercents_short {s : KsString} (h : s.length < 2) (res : List UInt8) (j : ℕ) :
    fillPercents (percentChar :: s) res j = (store res j 0).map fun res => (res, false) := by
  rw [fillPercents.eq_def]
  simp only [if_true, fromPercentAt_short h, Option.bind_eq_bind, Option.bind_some]
  cases store res j 0 <;> rfl

theorem fillPercents_escape (c₁ c₂ : UInt8) (s : KsString) (res : List UInt8) (j : ℕ) :
    fillPercents (percentChar :: c₁ :: c₂ :: s) res j =
      (store res j (ksFromPercent [c₁, c₂])).bind fun res =>
        if ksFromPercent [c₁, c₂] ≠ 0 then fillPercents s res (j + 1) else some (res, false) := by
  rw [fillPercents.eq_def]
  simp only [if_true, List.cons_append, fromPercentAt_digits]
  rfl

theorem fillPercents_cons {c : UInt8} (hc : c ≠ percentChar) (s : KsString) (res : List UInt8)
    (j : ℕ) : fillPercents (c :: s) res j =
      (store res j c).bind fun res => fillPercents s res (j + 1) := by
  rw [fillPercents.eq_def]
  simp only [if_neg hc]
  rfl

/-- From index `j` on the buffer is filled up to its last character, or the conversion stops. -/
def Filled (converted : Option KsString) (res : List UInt8) (j : ℕ)
    (outcome : Option (List UInt8 × Bool)) : Prop :=
  j < res.length ∧ ∃ res', outcome = some (res', converted.isSome) ∧ res'.length = res.length ∧
    ∀ decoded, converted = some decoded → j + decoded.length + 1 = res.length ∧
      res'.take (j + decoded.length) = res.take j ++ decoded

theorem Filled.cons {converted : Option KsString} {res : List UInt8} {j : ℕ} {c : UInt8}
    {outcome : Option (List UInt8 × Bool)} (h : Filled converted (res.set j c) (j + 1) outcome) :
    Filled (converted.map (c :: ·)) res j outcome := by
  obtain ⟨hj, res', houtcome, hlength, hfilled⟩ := h
  rw [List.length_set] at hj hlength
  refine ⟨by omega, res', by rw [houtcome, Option.isSome_map], hlength, fun decoded hd => ?_⟩
  obtain ⟨decoded', hd', rfl⟩ := Option.map_eq_some_iff.mp hd
  obtain ⟨hroom, htake⟩ := hfilled decoded' hd'
  rw [List.length_set] at hroom
  rw [List.length_cons]
  refine ⟨by omega, ?_⟩
  rw [show j + (decoded'.length + 1) = j + 1 + decoded'.length by omega, htake,
    List.take_succ_eq_append_getElem (by rw [List.length_set]; omega)]
  simp [List.take_set_of_le]

/-- With room for the converted characters and a null character the buffer is filled, unless there
is nothing behind a percent sign: then the conversion goes one character too far. -/
theorem fillPercents_spec {s : KsString} {res : List UInt8} {j : ℕ}
    (hroom : res.length + 2 * countEscapes s = j + s.length + 1) :
    (Reached s [] ∧ fillPercents s res j = none) ∨
      ¬ Reached s [] ∧ Filled (fromPercent s) res j (fillPercents s res j) := by
  fun_induction countEscapes s generalizing res j with
  | case1 =>
    have hlength : res.length = j + 1 := by simpa using hroom
    refine Or.inr ⟨not_reached_nil _, by omega, res, rfl, rfl, ?_⟩
    rintro decoded hd
    obtain rfl := Option.some.inj hd
    simp [hlength]
  | case2 c₁ c₂ s ih =>
    have hcount := countEscapes_le s
    simp only [List.length_cons] at hroom
    have hj : j < res.length := by omega
    rw [fillPercents_escape, store_of_lt _ hj, Option.bind_some, reached_escape (by simp),
      fromPercent_escape]
    by_cases hne : ksFromPercent [c₁, c₂] ≠ 0
    · rw [if_pos hne, if_pos hne]
      simp only [hne, not_false_eq_true, true_and, ne_eq]
      exact (ih (by rw [List.length_set]; omega)).imp_right fun h => ⟨h.1, h.2.cons⟩
    · rw [if_neg hne, if_neg hne]
      exact Or.inr ⟨fun h => hne h.1, hj, _, rfl, by simp, by simp⟩
  | case3 s hs =>
    rcases s with _ | ⟨c, _ | ⟨c₂, s⟩⟩
    · refine Or.inl ⟨(reached_percent _ _).mpr (Or.inl rfl), ?_⟩
      rw [fillPercents_short (by simp), store_of_le _ (by simp at hroom; omega)]
      rfl
    · have hj : j < res.length := by simp at hroom; omega
      rw [fillPercents_short (by simp), store_of_lt _ hj]
      refine Or.inr ⟨?_, hj, _, rfl, by simp, fun decoded hd => ?_⟩
      · rw [reached_percent]
        simp
      · exact absurd hd (by simp [fromPercent])
    · exact absurd rfl (hs c c₂ s)
  | case4 c s hc ih =>
    have hcount := countEscapes_le s
    simp only [List.length_cons] at hroom
    rw [fillPercents_cons hc, store_of_lt _ (by omega), Option.bind_some, reached_cons hc,
      fromPercent_cons hc]
    exact (ih (by rw [List.length_set]; omega)).imp_right fun h => ⟨h.1, h.2.cons⟩

theorem convertInto_spec {org : KsString} {res : List UInt8} {szres : ℕ}
    (hroom : res.length + 2 * countEscapes org = 0 + org.length + 1)
    (hszres : 0 < res.length → res.length = szres + 1) :
    (Reached org [] ∧ convertInto res szres org = none) ∨
      ¬ Reached org [] ∧ convertInto res szres org = some (ksStringFromPercent org) := by
  unfold convertInto
  obtain ⟨hreached, hnone⟩ | ⟨hreached, hpos, res', hsome, hlength, hfilled⟩ :=
    fillPercents_spec hroom
  · exact Or.inl ⟨hreached, by rw [hnone]; rfl⟩
  · refine Or.inr ⟨hreached, ?_⟩
    have hlt := hszres hpos
    rw [hsome]
    simp only [Option.bind_eq_bind, Option.bind_some,
      store_of_lt (0 : UInt8) (show szres < res'.length by omega)]
    unfold ksStringFromPercent
    cases hd : fromPercent org with
    | none => rfl
    | some decoded =>
      obtain ⟨hdecoded, htake⟩ := hfilled decoded hd
      obtain rfl : szres = decoded.length := by omega
      rw [Nat.zero_add, List.take_zero, List.nil_append] at htake
      simp [List.take_set_of_le, htake]

/-- `ksStringFromPercent` leaves the buffer exactly if it comes to a percent sign at the end of the
string, and else does what the conversion does. -/
theorem stringFromPercent_spec {org : KsString} (hlength : org.length + 1 < 2 ^ 64) :
    (Reached org [] ∧ stringFromPercent org = none) ∨
      ¬ Reached org [] ∧ stringFromPercent org = some (ksStringFromPercent org) := by
  have hcount := countEscapes_le org
  unfold stringFromPercent
  by_cases hconvert : countEscapes org ≠ 0
  · simp only [if_pos hconvert]
    apply convertInto_spec
    · rw [List.length_replicate]
      omega
    · rw [List.length_replicate]
      omega
  · have hpercent := not_mem_of_countEscapes (not_not.mp hconvert)
    simp only [if_neg hconvert]
    refine Or.inr ⟨?_, by rw [ksStringFromPercent, fromPercent_eq_self hpercent]⟩
    rintro ⟨before, decoded, rfl, -⟩
    exact hpercent (by simp)

theorem decodeLoop_cons {c : UInt8} (hc0 : c ≠ 0) (hc : c ≠ percentChar) (useBackslash : Bool)
    (p buf : List UInt8) (j : ℕ) :
    decodeLoop useBackslash (c :: p) buf j =
      (store buf j c).bind fun buf => decodeLoop useBackslash p buf (j + 1) := by
  rw [decodeLoop.eq_def]
  simp only [if_neg hc0, if_neg hc]
  rfl

/-- After an escape that stands for no character, the next character is looked at nevertheless. -/
theorem decodeLoop_zero (useBackslash : Bool) {p : List UInt8} (hp : fromPercentAt p = some 0)
    (buf : List UInt8) (j : ℕ) :
    decodeLoop useBackslash (percentChar :: p) buf j =
      (p.drop 2).head?.map fun _ => (buf, j, false) := by
  rw [decodeLoop.eq_def]
  simp only [hp, show percentChar ≠ 0 by decide, if_false, if_true, Option.bind_eq_bind,
    Option.bind_some]
  cases (p.drop 2).head? <;> rfl

theorem decodeLoop_escape (useBackslash : Bool) {c₁ c₂ : UInt8} (hne : ksFromPercent [c₁, c₂] ≠ 0)
    (p : List UInt8) {buf : List UInt8} {j : ℕ} (hroom : j + 1 < buf.length) :
    ∃ buf' j', decodeLoop useBackslash (percentChar :: c₁ :: c₂ :: p) buf j =
      decodeLoop useBackslash p buf' j' ∧ buf'.length = buf.length ∧ j' ≤ j + 2 := by
  rw [decodeLoop.eq_def]
  simp only [fromPercentAt_digits, show percentChar ≠ 0 by decide, if_false, if_true,
    Option.bind_eq_bind, Option.bind_some, if_neg hne]
  split
  · rw [store_of_lt _ (by omega), Option.bind_some, store_of_lt _ (by simpa using hroom)]
    exact ⟨_, _, rfl, by simp, le_refl _⟩
  · rw [store_of_lt _ (by omega), Option.bind_some]
    exact ⟨_, _, rfl, by simp, by omega⟩

/-- The buffer is as long as the string, so only reading can go too far. -/
theorem decodeLoop_spec (useBackslash : Bool) {s buf : List UInt8} {j : ℕ} (hs : 0 ∉ s)
    (hroom : j + s.length < buf.length) :
    (CutOff s ∧ decodeLoop useBackslash (s ++ [0]) buf j = none) ∨
      ¬ CutOff s ∧ ∃ buf' j' ok, decodeLoop useBackslash (s ++ [0]) buf j = some (buf', j', ok) ∧
        j' < buf'.length := by
  fun_induction fromPercent s generalizing buf j with
  | case1 => exact Or.inr ⟨not_cutOff_nil, buf, j, true, rfl, by simpa using hroom⟩
  | case2 c₁ c₂ s hne ih =>
    simp only [List.length_cons] at hroom
    obtain ⟨buf', j', hloop, hlength, hj⟩ :=
      decodeLoop_escape useBackslash hne (s ++ [0]) (show j + 1 < buf.length by omega)
    simp only [List.cons_append, cutOff_escape, hne, ne_eq, not_false_eq_true, true_and, hloop]
    exact ih (fun h => hs (by simp [h])) (by omega)
  | case3 c₁ c₂ s hne =>
    have hzero : ksFromPercent [c₁, c₂] = 0 := not_not.mp hne
    simp only [List.cons_append]
    rw [decodeLoop_zero useBackslash (by rw [fromPercentAt_digits, hzero]), cutOff_escape]
    refine Or.inr ⟨fun h => hne h.1, buf, j, false, ?_, by omega⟩
    cases s <;> rfl
  | case4 s hshort =>
    have hlength : s.length < 2 := by
      rcases s with _ | ⟨c₁, _ | ⟨c₂, s⟩⟩
      · simp
      · simp
      · exact absurd rfl (hshort c₁ c₂ s)
    refine Or.inl ⟨⟨s, (reached_percent _ _).mpr (Or.inl rfl), hlength⟩, ?_⟩
    rw [List.cons_append, decodeLoop_zero useBackslash (fromPercentAt_short hlength),
      List.drop_of_length_le (by rw [List.length_append, List.length_singleton]; omega)]
    rfl
  | case5 c s hc ih =>
    simp only [List.mem_cons, not_or, List.length_cons] at hs hroom
    rw [List.cons_append, decodeLoop_cons (Ne.symm hs.1) hc, store_of_lt _ (by omega),
      Option.bind_some, cutOff_cons hc]
    exact ih hs.2 (by rw [List.length_set]; omega)

/-- No length and no position of the percent signs does harm but that of one that is cut off. -/
theorem staysInside_iff {org : KsString} (hnull : 0 ∉ org) (hlength : org.length + 1 < 2 ^ 64) :
    StaysInside org ↔ ¬ CutOff org := by
  have hdecode (useBackslash : Bool) : ksDecodeString org useBackslash = none ↔ CutOff org := by
    unfold ksDecodeString
    obtain ⟨hcut, hnone⟩ | ⟨hcut, buf, j, ok, hsome, hj⟩ :=
      decodeLoop_spec useBackslash hnull
        (show 0 + org.length < (List.replicate (org.length + 1) (0 : UInt8)).length by simp)
    · rw [hnone]
      exact iff_of_true rfl hcut
    · rw [hsome]
      simp only [Option.bind_eq_bind, Option.bind_some, store_of_lt _ hj]
      exact iff_of_false (by simp) hcut
  constructor
  · rintro ⟨-, h⟩ hcut
    exact h true ((hdecode true).mpr hcut)
  · intro hcut
    refine ⟨fun hnone => ?_, fun useBackslash hnone => hcut ((hdecode useBackslash).mp hnone)⟩
    obtain ⟨hreached, -⟩ | ⟨-, hsome⟩ := stringFromPercent_spec hlength
    · exact hcut ⟨[], hreached, by simp⟩
    · exact absurd (hsome.symm.trans hnone) (by simp)

/-- `"%41"` is converted without harm. -/
theorem staysInside_escape : StaysInside [37, 52, 49] := by
  refine (staysInside_iff (by decide) (by decide)).mpr ?_
  rw [cutOff_escape]
  exact fun h => not_cutOff_nil h.2

/-- For `"%"` no characters are allocated, and one is written. -/
theorem not_staysInside_percent : ¬ StaysInside [37] := by
  rintro ⟨h, -⟩
  exact h (by decide)

end AcpltKs
