import AcpltKs.Percent.Buffers
import AcpltKs.Percent.RoundTrip

/-! Paths in the form that users write, with special characters behind backslashes, and in the form
that goes over the wire. Both spell the same characters, of which some stand for themselves. -/
namespace AcpltKs

/-- Write characters one after the other. -/
def storeEach (buf : List UInt8) (i : ℕ) : KsString → Option (List UInt8)
  | [] => some buf
  | c :: s => (store buf i c).bind fun buf => storeEach buf (i + 1) s

/-- The loop of `ksEncodeString` from the character at `p` on. -/
def encodeLoop (allowBackslash allowPercent : Bool) :
    List UInt8 → List UInt8 → ℕ → Option (List UInt8 × ℕ × Bool)
  | [], _, _ => none
  | c :: p, buf, j =>
      if c = 0 then some (buf, j, true)
      else if allowBackslash && c == backslashChar then
        match p with
        | [] => none
        | c' :: p =>
            if c' = 0 then some (buf, j, false)
            else if !ksIsValidChar c' then do
              let buf ← storeEach buf j (ksToPercent c')
              encodeLoop allowBackslash allowPercent p buf (j + 3)
            else do
              let buf ← store buf j c'
              encodeLoop allowBackslash allowPercent p buf (j + 1)
      else if allowPercent && c == percentChar then do
        let buf ← store buf j c
        match p with
        | [] => none
        | c₁ :: p =>
            if isxdigit c₁ then do
              let buf ← store buf (j + 1) c₁
              match p with
              | [] => none
              | c₂ :: p =>
                  if isxdigit c₂ then do
                    let buf ← store buf (j + 2) c₂
                    encodeLoop allowBackslash allowPercent p buf (j + 3)
                  else some (buf, j + 2, false)
            else some (buf, j + 1, false)
      else if ksIsValidChar c || ksIsDelim c then do
        let buf ← store buf j c
        encodeLoop allowBackslash allowPercent p buf (j + 1)
      else do
        let buf ← storeEach buf j (ksToPercent c)
        encodeLoop allowBackslash allowPercent p buf (j + 3)

/-- The next slash in a string from an index on. -/
def strchrSlash (s : KsString) (i : ℕ) : Option ℕ := ((s.drop i).idxOf? 47).map (i + ·)

/-- The length of `//host/server/`, which is not converted; without the slashes behind, it is the
whole string. -/
def locatorLength (org : KsString) : ℕ :=
  if charAt org 0 = 47 ∧ charAt org 1 = 47 then
    match (strchrSlash (cString org) 2).bind fun i => strchrSlash (cString org) (i + 1) with
    | some i => i + 1
    | none => org.length
  else 0

/-- `strncpy` into the buffer. -/
def copyChars (buf : List UInt8) (s : KsString) (len : ℕ) : Option (List UInt8) :=
  storeEach buf 0 ((cString s).take len ++ List.replicate (len - (cString s).length) 0)

/-- The buffer is big enough to hold the encoded string in any case. -/
def ksEncodeString (org : KsString) (allowBackslash allowPercent : Bool) :
    Option (Except KsResultCode KsString) := do
  let buf ← copyChars (List.replicate (org.length * 3 + 1) 0) org (locatorLength org)
  let (buf, j, ok) ← encodeLoop allowBackslash allowPercent ((org ++ [0]).drop (locatorLength org))
    buf (locatorLength org)
  let buf ← store buf j 0
  some (if ok then .ok (cString buf) else .error .badName)

/-- Valid characters, delimiters, and percent signs with two hexadecimal digits behind them. -/
inductive WireForm : KsString → Prop
  | nil : WireForm []
  | char {c : UInt8} {s : KsString} (hc : (ksIsValidChar c || ksIsDelim c) = true)
      (hs : WireForm s) : WireForm (c :: s)
  | escape {c₁ c₂ : UInt8} {s : KsString} (h₁ : isxdigit c₁ = true) (h₂ : isxdigit c₂ = true)
      (hs : WireForm s) : WireForm (percentChar :: c₁ :: c₂ :: s)

/-- What is encoded has the form that goes over the wire, and comes back from the form for users. -/
def KeepsForm (s : KsString) : Prop :=
  ∀ e, ksEncodeString s true false = some (.ok e) →
    WireForm e ∧ e.length ≤ 3 * s.length ∧
      ∀ d, ksDecodeString e true = some (.ok d) → ksEncodeString d true false = some (.ok e)

/-- A character that stands for itself, or one that may mean something else without a mark. -/
inductive NameChar
  | plain (c : UInt8)
  | marked (c : UInt8)

namespace NameChar

def wire : NameChar → KsString
  | plain c => [c]
  | marked c => ksToPercent c

/-- Only what would mean something else stands behind a backslash. -/
def user : NameChar → KsString
  | plain c => [c]
  | marked c =>
      if c == backslashChar || ksIsDelim c || c == percentChar then [backslashChar, c] else [c]

def Legal : NameChar → Prop
  | plain c => (ksIsValidChar c || ksIsDelim c) = true
  | marked c => ksIsValidChar c = false ∧ c ≠ 0 ∧ c < 128

/-- How `ksEncodeString` understands a string in the form for users. -/
def ofUser : KsString → Option (List NameChar)
  | [] => some []
  | c :: s =>
      if c = backslashChar then
        match s with
        | [] => none
        | c' :: s => (ofUser s).map ((if ksIsValidChar c' then plain c' else marked c') :: ·)
      else (ofUser s).map ((if ksIsValidChar c || ksIsDelim c then plain c else marked c) :: ·)

end NameChar

/-- A string has been written into the buffer from index `j` on. -/
structure Wrote (buf : List UInt8) (j : ℕ) (s : KsString) (buf' : List UInt8) : Prop where
  length : buf'.length = buf.length
  take : buf'.take (j + s.length) = buf.take j ++ s

section Buffer
variable {b buf' buf'' : List UInt8} {j : ℕ} {s t : KsString} {c : UInt8}

theorem Wrote.nil (b : List UInt8) (j : ℕ) : Wrote b j [] b := ⟨rfl, by simp⟩

theorem Wrote.append (h : Wrote b j s buf') (h' : Wrote buf' (j + s.length) t buf'') :
    Wrote b j (s ++ t) buf'' := by
  refine ⟨h'.length.trans h.length, ?_⟩
  rw [List.length_append, ← Nat.add_assoc, h'.take, h.take, List.append_assoc]

theorem Wrote.set (hj : j < b.length) (c : UInt8) : Wrote b j [c] (b.set j c) := by
  refine ⟨List.length_set .., ?_⟩
  rw [List.length_singleton, List.take_succ_eq_append_getElem (by rw [List.length_set]; omega)]
  simp [List.take_set_of_le]

theorem storeEach_wrote (hroom : j + s.length ≤ b.length) :
    ∃ buf', storeEach b j s = some buf' ∧ Wrote b j s buf' := by
  induction s generalizing b j with
  | nil => exact ⟨b, rfl, .nil b j⟩
  | cons c s ih =>
    rw [List.length_cons] at hroom
    have hj : j < b.length := by omega
    obtain ⟨buf', hstore, hwrote⟩ := ih (b := b.set j c) (j := j + 1)
      (by rw [List.length_set]; omega)
    refine ⟨buf', ?_, (Wrote.set hj c).append hwrote⟩
    rw [storeEach, store_of_lt c hj, Option.bind_some, hstore]

/-- The string ends where the null character is written. -/
theorem Wrote.cString (h : Wrote b 0 s buf') (hs : 0 ∉ s) (hroom : s.length < buf'.length) :
    store buf' s.length 0 = some (buf'.set s.length 0) ∧
      AcpltKs.cString (buf'.set s.length 0) = s := by
  have htake := h.take
  rw [Nat.zero_add, List.take_zero, List.nil_append] at htake
  refine ⟨store_of_lt 0 hroom, ?_⟩
  rw [List.set_eq_take_append_cons_drop, if_pos hroom, htake, cString_append hs]
  simp [AcpltKs.cString]

end Buffer

namespace NameChar
variable {b : List UInt8} {j : ℕ} {s : KsString} {ts : List NameChar}

theorem not_legal_percent {c : UInt8} (hc : (ksIsValidChar c || ksIsDelim c) = true) :
    c ≠ percentChar ∧ c ≠ backslashChar ∧ c ≠ 0 := by
  refine ⟨?_, ?_, ?_⟩ <;> (rintro rfl; exact absurd hc (by decide))

/-- The characters that have been understood are written as they go over the wire. -/
def Encodes (b : List UInt8) (j : ℕ) (outcome : Option (List UInt8 × ℕ × Bool))
    (result : Option (List NameChar)) : Prop :=
  ∃ buf' j', outcome = some (buf', j', result.isSome) ∧ j' < buf'.length ∧
    ∀ ts, result = some ts →
      j' = j + (ts.flatMap wire).length ∧ Wrote b j (ts.flatMap wire) buf'

theorem Encodes.cons {buf₁ : List UInt8} {t : NameChar} {result : Option (List NameChar)}
    {outcome : Option (List UInt8 × ℕ × Bool)} (hwrote : Wrote b j t.wire buf₁)
    (h : Encodes buf₁ (j + t.wire.length) outcome result) :
    Encodes b j outcome (result.map (t :: ·)) := by
  obtain ⟨buf', j', houtcome, hj, hresult⟩ := h
  refine ⟨buf', j', by rw [houtcome, Option.isSome_map], hj, fun ts hts => ?_⟩
  obtain ⟨ts', hts', rfl⟩ := Option.map_eq_some_iff.mp hts
  obtain ⟨hlength, hwrote'⟩ := hresult ts' hts'
  rw [List.flatMap_cons, List.length_append]
  exact ⟨by omega, hwrote.append hwrote'⟩

theorem encodeLoop_backslash {c : UInt8} (hc : c ≠ 0) (p : List UInt8) :
    encodeLoop true false (backslashChar :: c :: p) b j =
      if ksIsValidChar c then
        (store b j c).bind fun b => encodeLoop true false p b (j + 1)
      else (storeEach b j (ksToPercent c)).bind fun b =>
        encodeLoop true false p b (j + 3) := by
  rw [encodeLoop.eq_def]
  simp only [show backslashChar ≠ 0 by decide, if_false, beq_self_eq_true, Bool.and_self, if_true,
    if_neg hc]
  cases ksIsValidChar c <;> rfl

theorem encodeLoop_char {c : UInt8} (hzero : c ≠ 0) (hc : c ≠ backslashChar) (p : List UInt8) :
    encodeLoop true false (c :: p) b j =
      if ksIsValidChar c || ksIsDelim c then
        (store b j c).bind fun b => encodeLoop true false p b (j + 1)
      else (storeEach b j (ksToPercent c)).bind fun b =>
        encodeLoop true false p b (j + 3) := by
  rw [encodeLoop.eq_def]
  simp only [if_neg hzero, beq_eq_false_iff_ne.mpr hc, Bool.true_and, Bool.false_and,
    Bool.false_eq_true, if_false]
  rfl

/-- A character is written, and the loop goes on. -/
theorem Encodes.char {c : UInt8} {p : Bool} {loop : List UInt8 → ℕ → Option (List UInt8 × ℕ × Bool)}
    {result : Option (List NameChar)} {n : ℕ} (hroom : j + 3 * (n + 1) < b.length)
    (hloop : ∀ {b j}, j + 3 * n < b.length → Encodes b j (loop b j) result) :
    Encodes b j
      (if p then (store b j c).bind fun b => loop b (j + 1)
        else (storeEach b j (ksToPercent c)).bind fun b => loop b (j + 3))
      (result.map ((if p then plain c else marked c) :: ·)) := by
  cases p with
  | true =>
    have hj : j < b.length := by omega
    simp only [if_true, store_of_lt c hj, Option.bind_some]
    refine Encodes.cons (t := plain c) (Wrote.set hj c) (hloop ?_)
    rw [List.length_set]
    show j + 1 + 3 * n < b.length
    omega
  | false =>
    have hlength : (ksToPercent c).length = 3 := rfl
    obtain ⟨buf₁, hstore, hwrote⟩ := storeEach_wrote (b := b) (j := j) (s := ksToPercent c)
      (by omega)
    simp only [Bool.false_eq_true, if_false, hstore, Option.bind_some]
    refine Encodes.cons (t := marked c) hwrote (hloop ?_)
    rw [hwrote.length]
    show j + 3 + 3 * n < b.length
    omega

theorem encodeLoop_encodes (hs : 0 ∉ s) (hroom : j + 3 * s.length < b.length) :
    Encodes b j (encodeLoop true false (s ++ [0]) b j) (ofUser s) := by
  fun_induction ofUser s generalizing b j with
  | case1 =>
    refine ⟨b, j, rfl, by simpa using hroom, fun ts hts => ?_⟩
    obtain rfl := Option.some.inj hts
    exact ⟨rfl, .nil b j⟩
  | case2 => exact ⟨b, j, rfl, by simp at hroom; omega, fun ts hts => (nomatch hts)⟩
  | case3 c' s ih =>
    simp only [List.mem_cons, not_or, List.length_cons] at hs hroom
    rw [List.cons_append, List.cons_append, encodeLoop_backslash (Ne.symm hs.2.1)]
    exact Encodes.char (n := s.length) (by omega) fun h => ih hs.2.2 h
  | case4 c s hc ih =>
    simp only [List.mem_cons, not_or, List.length_cons] at hs hroom
    rw [List.cons_append, encodeLoop_char (Ne.symm hs.1) hc]
    exact Encodes.char (n := s.length) (by omega) fun h => ih hs.2 h

theorem ofUser_legal (hs : 0 ∉ s) (hascii : ∀ c ∈ s, c < 128) (hts : ofUser s = some ts) :
    (∀ t ∈ ts, t.Legal) ∧ ts.length ≤ s.length := by
  fun_induction ofUser s generalizing ts with
  | case1 =>
    obtain rfl := Option.some.inj hts
    exact ⟨fun t ht => (nomatch ht), le_refl _⟩
  | case2 => exact absurd hts (by simp)
  | case3 c' s ih =>
    obtain ⟨ts, hts', rfl⟩ := Option.map_eq_some_iff.mp hts
    simp only [List.mem_cons, not_or, forall_eq_or_imp] at hs hascii
    obtain ⟨hlegal, hlength⟩ := ih hs.2.2 hascii.2.2 hts'
    refine ⟨List.forall_mem_cons.mpr ⟨?_, hlegal⟩, by simp only [List.length_cons]; omega⟩
    cases hvalid : ksIsValidChar c' with
    | true =>
      rw [if_pos rfl, Legal, hvalid]
      rfl
    | false =>
      rw [if_neg Bool.false_ne_true]
      exact ⟨hvalid, Ne.symm hs.2.1, hascii.2.1⟩
  | case4 c s hc ih =>
    obtain ⟨ts, hts', rfl⟩ := Option.map_eq_some_iff.mp hts
    simp only [List.mem_cons, not_or, forall_eq_or_imp] at hs hascii
    obtain ⟨hlegal, hlength⟩ := ih hs.2 hascii.2 hts'
    refine ⟨List.forall_mem_cons.mpr ⟨?_, hlegal⟩, by simp only [List.length_cons]; omega⟩
    split
    · next hplain => exact hplain
    · next hplain =>
      rw [Bool.not_eq_true, Bool.or_eq_false_iff] at hplain
      exact ⟨hplain.1, Ne.symm hs.1, hascii.1⟩

theorem Legal.wire_spec {t : NameChar} (ht : t.Legal) :
    t.wire.length ≤ 3 ∧ 0 ∉ t.wire ∧ ∀ s, WireForm s → WireForm (t.wire ++ s) := by
  cases t with
  | plain c =>
    refine ⟨by simp [wire], ?_, fun s hs => .char ht hs⟩
    rw [wire, List.mem_singleton]
    exact Ne.symm (not_legal_percent ht).2.2
  | marked c =>
    obtain ⟨c₁, c₂, hto, h₁, h₂, -⟩ := ksToPercent_ascii c ht.2.2
    have hdigit : ∀ {d : UInt8}, isxdigit d = true → 0 ≠ d := by
      rintro d hd rfl
      exact absurd hd (by decide)
    rw [wire, hto]
    refine ⟨le_refl _, ?_, fun s hs => .escape h₁ h₂ hs⟩
    simp only [List.mem_cons, List.not_mem_nil, or_false, not_or]
    exact ⟨by decide, hdigit h₁, hdigit h₂⟩

theorem wire_spec (hts : ∀ t ∈ ts, t.Legal) :
    (ts.flatMap wire).length ≤ 3 * ts.length ∧ 0 ∉ ts.flatMap wire ∧
      WireForm (ts.flatMap wire) := by
  induction ts with
  | nil => exact ⟨by simp, by simp, .nil⟩
  | cons t ts ih =>
    obtain ⟨ht, hts⟩ := List.forall_mem_cons.mp hts
    obtain ⟨hlength, hzero, hform⟩ := ih hts
    obtain ⟨htlength, htzero, htform⟩ := ht.wire_spec
    rw [List.flatMap_cons, List.length_append, List.length_cons, List.mem_append, not_or]
    exact ⟨by omega, ⟨htzero, hzero⟩, htform _ hform⟩

/-- Whoever reads the form for users finds the characters that have been written. -/
theorem ofUser_user (hts : ∀ t ∈ ts, t.Legal) : ofUser (ts.flatMap user) = some ts := by
  induction ts with
  | nil => rfl
  | cons t ts ih =>
    obtain ⟨ht, hrest⟩ := List.forall_mem_cons.mp hts
    rw [List.flatMap_cons]
    cases t with
    | plain c =>
      have hplain : (ksIsValidChar c || ksIsDelim c) = true := ht
      rw [user, List.singleton_append, ofUser.eq_def]
      simp only [if_neg (not_legal_percent ht).2.1, ih hrest, Option.map_some, if_pos hplain]
    | marked c =>
      rw [user]
      split
      · rw [List.cons_append, List.singleton_append, ofUser.eq_def]
        simp only [if_true, ih hrest, Option.map_some, ht.1, Bool.false_eq_true, if_false]
      · next hplain =>
        simp only [Bool.or_eq_true, beq_iff_eq, not_or, Bool.not_eq_true] at hplain
        rw [List.singleton_append, ofUser.eq_def]
        simp only [if_neg hplain.1.1, ih hrest, Option.map_some, ht.1, hplain.1.2, Bool.or_false,
          Bool.false_eq_true, if_false]

theorem decodeLoop_marked {c₁ c₂ : UInt8} (hne : ksFromPercent [c₁, c₂] ≠ 0) (p : List UInt8) :
    decodeLoop true (percentChar :: c₁ :: c₂ :: p) b j =
      (storeEach b j (marked (ksFromPercent [c₁, c₂])).user).bind fun b =>
        decodeLoop true p b (j + (marked (ksFromPercent [c₁, c₂])).user.length) := by
  rw [decodeLoop.eq_def]
  simp only [fromPercentAt_digits, show percentChar ≠ 0 by decide, if_false, if_true,
    Option.bind_eq_bind, Option.bind_some, if_neg hne, Bool.true_and, user]
  split
  · simp only [storeEach, Option.bind_assoc]
    rfl
  · simp only [storeEach, Option.bind_assoc]
    rfl

theorem user_spec {t : NameChar} (ht : t.Legal) :
    t.user.length ≤ t.wire.length ∧ 0 ∉ t.user := by
  cases t with
  | plain c =>
    rw [user, List.mem_singleton]
    exact ⟨le_refl _, Ne.symm (not_legal_percent ht).2.2⟩
  | marked c =>
    have hlength : (wire (marked c)).length = 3 := rfl
    rw [hlength, user]
    have hzero : (0 : UInt8) ≠ backslashChar := by decide
    split
    · simpa [hzero] using Ne.symm ht.2.1
    · simpa using Ne.symm ht.2.1

/-- The characters are written in the form for users. -/
theorem decodeLoop_wrote (hts : ∀ t ∈ ts, t.Legal)
    (hroom : j + (ts.flatMap wire).length < b.length) :
    ∃ buf', decodeLoop true (ts.flatMap wire ++ [0]) b j =
        some (buf', j + (ts.flatMap user).length, true) ∧
      Wrote b j (ts.flatMap user) buf' ∧
        (ts.flatMap user).length ≤ (ts.flatMap wire).length ∧ 0 ∉ ts.flatMap user := by
  induction ts generalizing b j with
  | nil => exact ⟨b, rfl, .nil b j, le_refl _, by simp⟩
  | cons t ts ih =>
    obtain ⟨ht, hrest⟩ := List.forall_mem_cons.mp hts
    obtain ⟨hlength, hzero⟩ := user_spec ht
    simp only [List.flatMap_cons, List.length_append, List.mem_append, not_or] at hroom ⊢
    obtain ⟨buf₁, hstore, hwrote⟩ := storeEach_wrote (b := b) (j := j) (s := t.user) (by omega)
    obtain ⟨buf', hloop, hwrote', hlength', hzero'⟩ := ih (b := buf₁) (j := j + t.user.length)
      hrest (by rw [hwrote.length]; omega)
    refine ⟨buf', ?_, hwrote.append hwrote', by omega, hzero, hzero'⟩
    rw [← Nat.add_assoc, ← hloop]
    cases t with
    | plain c =>
      obtain ⟨hpercent, -, hc⟩ := not_legal_percent ht
      rw [wire, List.singleton_append, List.cons_append, decodeLoop_cons hc hpercent]
      rw [user, storeEach] at hstore
      obtain ⟨buf₂, hbuf₂, heq⟩ := Option.bind_eq_some_iff.mp hstore
      obtain rfl := Option.some.inj heq
      rw [hbuf₂]
      rfl
    | marked c =>
      obtain ⟨c₁, c₂, hto, -, -, hfrom⟩ := ksToPercent_ascii c ht.2.2
      simp only [wire, hto, List.cons_append, List.nil_append]
      rw [decodeLoop_marked (hfrom.symm ▸ ht.2.1), hfrom, hstore]
      rfl

end NameChar

open NameChar
variable {s : KsString} {ts : List NameChar}

/-- Nothing is copied of a string that does not begin with two slashes. -/
theorem locatorLength_eq_zero (hslash : ¬ [47, 47] <+: s) : locatorLength s = 0 := by
  refine if_neg fun h => hslash ?_
  rcases s with _ | ⟨a, _ | ⟨b, s⟩⟩
  · exact absurd h.1 (by decide)
  · exact absurd h.2 (show (0 : UInt8) ≠ 47 by decide)
  · obtain ⟨rfl, rfl⟩ := h
    exact List.prefix_append [47, 47] s

/-- A string in the form for users is encoded if its characters can be understood. -/
theorem ksEncodeString_eq (hs : 0 ∉ s) (hslash : ¬ [47, 47] <+: s) :
    (ofUser s = none ∧ ksEncodeString s true false = some (.error .badName)) ∨
      ∃ ts, ofUser s = some ts ∧
        (0 ∉ ts.flatMap wire → ksEncodeString s true false = some (.ok (ts.flatMap wire))) := by
  obtain ⟨b, j, hloop, hj, hresult⟩ := encodeLoop_encodes (s := s) (j := 0)
    (b := List.replicate (s.length * 3 + 1) 0) hs (by rw [List.length_replicate]; omega)
  have hencode : ksEncodeString s true false = (store b j 0).bind fun b =>
      some (if (ofUser s).isSome then .ok (cString b) else .error .badName) := by
    rw [ksEncodeString, locatorLength_eq_zero hslash, List.drop_zero, copyChars, List.take_zero,
      Nat.zero_sub, List.replicate_zero, List.append_nil, storeEach, Option.bind_eq_bind,
      Option.bind_some, hloop]
    rfl
  rw [hencode]
  cases hts : ofUser s with
  | none =>
    rw [store_of_lt 0 hj]
    exact Or.inl ⟨rfl, rfl⟩
  | some ts =>
    refine Or.inr ⟨ts, rfl, fun hzero => ?_⟩
    obtain ⟨rfl, hwrote⟩ := hresult ts hts
    rw [Nat.zero_add] at hj ⊢
    obtain ⟨hstore, hstring⟩ := hwrote.cString hzero hj
    rw [hstore, Option.bind_some, hstring]
    rfl

theorem ksDecodeString_wire (hts : ∀ t ∈ ts, t.Legal) :
    ksDecodeString (ts.flatMap wire) true = some (.ok (ts.flatMap user)) := by
  obtain ⟨b, hloop, hwrote, hlength, hzero⟩ := decodeLoop_wrote (j := 0)
    (b := List.replicate ((ts.flatMap wire).length + 1) 0) hts
    (by rw [List.length_replicate]; omega)
  obtain ⟨hstore, hstring⟩ := hwrote.cString hzero
    (by rw [hwrote.length, List.length_replicate]; omega)
  rw [ksDecodeString, hloop, Nat.zero_add]
  simp only [Option.bind_eq_bind, Option.bind_some, hstore, hstring, if_true]

/-- A slash at the beginning is one in the string that has been encoded. -/
theorem ofUser_slash (hts : ofUser s = some ts) {u : KsString} (huser : ts.flatMap user = 47 :: u) :
    ∃ s' ts', s = 47 :: s' ∧ ofUser s' = some ts' ∧ ts'.flatMap user = u := by
  have hmarked : ∀ c v, (marked c).user ++ v ≠ 47 :: u := by
    intro c v heq
    rw [user] at heq
    split at heq
    · exact absurd (List.cons.inj heq).1 (by decide)
    · next hplain =>
      obtain rfl := (List.cons.inj heq).1
      exact hplain rfl
  rw [ofUser.eq_def] at hts
  rcases s with _ | ⟨c, s⟩
  · obtain rfl := Option.some.inj hts
    exact absurd huser (by simp)
  dsimp only at hts
  split at hts
  · rcases s with _ | ⟨c', s⟩
    · exact absurd hts (by simp)
    obtain ⟨ts', -, rfl⟩ := Option.map_eq_some_iff.mp hts
    rw [List.flatMap_cons] at huser
    cases hvalid : ksIsValidChar c' with
    | true =>
      rw [hvalid, if_pos rfl, user, List.singleton_append] at huser
      obtain rfl := (List.cons.inj huser).1
      exact absurd hvalid (by decide)
    | false =>
      rw [hvalid, if_neg Bool.false_ne_true] at huser
      exact absurd huser (hmarked _ _)
  · obtain ⟨ts', hts', rfl⟩ := Option.map_eq_some_iff.mp hts
    rw [List.flatMap_cons] at huser
    split at huser
    · obtain ⟨rfl, rfl⟩ := List.cons.inj huser
      exact ⟨s, ts', rfl, hts', rfl⟩
    · exact absurd huser (hmarked _ _)

/-- What users see begins with two slashes only if what they have written does. -/
theorem ofUser_slashes (hts : ofUser s = some ts) (huser : [47, 47] <+: ts.flatMap user) :
    [47, 47] <+: s := by
  obtain ⟨u, hu⟩ := huser
  obtain ⟨s₁, ts₁, rfl, hts₁, hu₁⟩ := ofUser_slash hts hu.symm
  obtain ⟨s₂, ts₂, rfl, -, -⟩ := ofUser_slash hts₁ hu₁
  exact List.prefix_append [47, 47] s₂

/-- Encoding keeps to the form of names, and gives the same again after decoding. -/
theorem ksEncodeString_keepsForm (hs : 0 ∉ s) (hascii : ∀ c ∈ s, c < 128)
    (hslash : ¬ [47, 47] <+: s) : KeepsForm s := by
  intro e he
  obtain ⟨-, herror⟩ | ⟨ts, hts, hencode⟩ := ksEncodeString_eq hs hslash
  · exact absurd (herror.symm.trans he) (by simp)
  obtain ⟨hlegal, hlength⟩ := ofUser_legal hs hascii hts
  obtain ⟨hwire, hzero, hform⟩ := wire_spec hlegal
  obtain rfl := Except.ok.inj (Option.some.inj ((hencode hzero).symm.trans he))
  refine ⟨hform, by omega, fun d hd => ?_⟩
  obtain rfl := Except.ok.inj (Option.some.inj ((ksDecodeString_wire hlegal).symm.trans hd))
  obtain ⟨-, -, -, -, hzero'⟩ := decodeLoop_wrote (j := 0)
    (b := List.replicate ((ts.flatMap wire).length + 1) 0) hlegal
    (by rw [List.length_replicate]; omega)
  obtain ⟨hnone, -⟩ | ⟨ts', hts', hencode'⟩ :=
    ksEncodeString_eq hzero' fun huser => hslash (ofUser_slashes hts huser)
  · exact absurd (hnone.symm.trans (ofUser_user hlegal)) (by simp)
  · obtain rfl := Option.some.inj (hts'.symm.trans (ofUser_user hlegal))
    exact hencode' hzero

/-- `/a\.b%` goes over the wire as `/a%2Eb%25`. -/
theorem ksEncodeString_keepsForm_quotedPoint : KeepsForm [47, 97, 92, 46, 98, 37] :=
  ksEncodeString_keepsForm (by decide) (by simp) (by decide)

end AcpltKs
