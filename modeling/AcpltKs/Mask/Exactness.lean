import AcpltKs.Mask.Correctness
import AcpltKs.Mask.Termination

/-! The masks whose language is what matches them are the safe ones. -/
namespace AcpltKs.KsMask
open MaskToken

variable {before rest : KsString} {name : KsString} {n m : ℕ} {token : MaskToken}
  {tokens rest' : List MaskToken}

/-- No star with its run of jokers is followed by an escaped `[`. -/
def NoBracket : List MaskToken → Prop
  | [] => True
  | .star :: tokens =>
      (tokens.dropWhile isJoker).head? ≠ some (.escaped openChar) ∧ NoBracket tokens
  | _ :: tokens => NoBracket tokens

/-- The mask cut off behind its first star whose run of jokers is followed by an escaped `[`; the
whole mask where there is none. -/
def cutAtBracket : List MaskToken → List MaskToken
  | [] => []
  | .star :: tokens =>
      if (tokens.dropWhile isJoker).head? = some (.escaped openChar) then [.star]
      else .star :: cutAtBracket tokens
  | token :: tokens => token :: cutAtBracket tokens

theorem cutAtBracket_cons (hstar : token ≠ .star) (tokens : List MaskToken) :
    cutAtBracket (token :: tokens) = token :: cutAtBracket tokens := by
  cases token with
  | star => exact absurd rfl hstar
  | any | literal | escaped | items | range => rfl

theorem NoBracket.cutAtBracket_eq (h : NoBracket tokens) : cutAtBracket tokens = tokens := by
  induction tokens with
  | nil => rfl
  | cons token tokens ih =>
    cases token with
    | star => rw [cutAtBracket, if_neg h.1, ih h.2]
    | any | literal | escaped | items | range => exact congrArg (List.cons _) (ih h)

/-- A run of jokers without an escaped `[` behind it is not cut. -/
theorem cutAtBracket_run
    (h : (tokens.dropWhile isJoker).head? ≠ some (.escaped openChar)) :
    cutAtBracket tokens =
      tokens.takeWhile isJoker ++ cutAtBracket (tokens.dropWhile isJoker) := by
  induction tokens with
  | nil => rfl
  | cons token tokens ih =>
    cases token with
    | star => exact (if_neg h).trans (congrArg (List.cons _) (ih h))
    | any => exact congrArg (List.cons _) (ih h)
    | literal | escaped | items | range => rfl

/-- Cutting a mask off takes no name out of its language. -/
theorem denotes_cutAtBracket {s : KsString} (h : Denotes tokens s) :
    Denotes (cutAtBracket tokens) s := by
  induction tokens generalizing s with
  | nil => exact h
  | cons token tokens ih =>
    by_cases hstar : token = .star
    · subst hstar
      obtain ⟨skipped, rest, rfl, hrest⟩ := h
      rw [cutAtBracket]
      by_cases hbracket : (tokens.dropWhile isJoker).head? = some (.escaped openChar)
      · rw [if_pos hbracket]
        exact ⟨skipped ++ rest, [], (List.append_nil _).symm, rfl⟩
      · rw [if_neg hbracket]
        exact ⟨skipped, rest, rfl, ih hrest⟩
    · obtain ⟨c, rest, rfl, haccepts, hrest⟩ := (denotes_cons hstar tokens s).mp h
      rw [cutAtBracket_cons hstar]
      exact (denotes_cons hstar _ _).mpr ⟨c, rest, rfl, haccepts, ih hrest⟩

/-- A complement ends the match or stays where it is. -/
theorem set_caret {mask : KsString} (h : charAt mask (m + 1) = caretChar) (name : KsString)
    (n : ℕ) : (∃ p, set mask name n m = (0, p)) ∨ ∃ r, r ≠ 0 ∧ set mask name n m = (r, n, m) := by
  have herror : -((m : ℤ) + 1) ≠ 0 := by omega
  rw [set, if_neg (not_not.mpr h)]
  by_cases hshort : mask.length ≤ m + 2
  · exact Or.inr ⟨_, herror, if_pos hshort⟩
  · rw [if_neg hshort]
    cases hset : setContains mask (m + 2) (charAt name n) with
    | none => exact Or.inr ⟨_, herror, rfl⟩
    | some found =>
      obtain ⟨b, next⟩ := found
      cases b with
      | false => exact Or.inr ⟨1, by decide, rfl⟩
      | true => exact Or.inl ⟨_, rfl⟩

theorem text_complement (h : token.isComplement = true) :
    ∃ body, token.text = openChar :: caretChar :: body := by
  cases token with
  | star | any | literal | escaped => exact absurd h (by simp [isComplement])
  | items complement cs =>
    obtain rfl : complement = true := h
    exact ⟨_, rfl⟩
  | range complement lo hi =>
    obtain rfl : complement = true := h
    exact ⟨_, rfl⟩

theorem charAt_complement (h : token.isComplement = true) (before rest : KsString) :
    charAt (before ++ (token.text ++ rest)) before.length = openChar ∧
      charAt (before ++ (token.text ++ rest)) (before.length + 1) = caretChar := by
  obtain ⟨body, htext⟩ := text_complement h
  rw [htext, charAt_append_zero, charAt_append]
  exact ⟨rfl, rfl⟩

theorem turn_complement (h : token.isComplement = true) (hn : n < name.length)
    (before rest : KsString) :
    turn (before ++ (token.text ++ rest)) name n before.length = .done 0 ∨
      turn (before ++ (token.text ++ rest)) name n before.length = .goOn n before.length := by
  obtain ⟨hopen, hcaret⟩ := charAt_complement h before rest
  rw [turn, if_pos ⟨hn, lt_length_of_ne_nil before token rest⟩, if_pos hopen]
  obtain ⟨p, hset⟩ | ⟨r, hr, hset⟩ := set_caret hcaret name n
  · exact Or.inl (by rw [hset]; rfl)
  · refine Or.inr ?_
    rw [hset]
    exact if_neg hr

theorem attempt_complement (h : token.isComplement = true) (before rest name : KsString) (i : ℕ) :
    (∃ r, r ≠ 1 ∧ attempt (before ++ (token.text ++ rest)) name before.length i = .settled r) ∨
      attempt (before ++ (token.text ++ rest)) name before.length i = .goOn i before.length := by
  obtain ⟨hopen, hcaret⟩ := charAt_complement h before rest
  rw [attempt, if_neg (not_not.mpr hopen)]
  obtain ⟨p, hset⟩ | ⟨r, hr, hset⟩ := set_caret hcaret name i
  · exact Or.inl ⟨0, by decide, by rw [hset]; rfl⟩
  · rw [hset]
    by_cases hone : r = 1
    · exact Or.inr (if_pos hone)
    · by_cases hneg : r < 0
      · exact Or.inl ⟨r, hone, (if_neg hone).trans (if_pos hneg)⟩
      · exact Or.inl ⟨0, by decide, (if_neg hone).trans (if_neg hneg)⟩

/-- A joker matches with one of its candidates. -/
theorem firstHit_eq_one {loop : ℕ → ℕ → Option ℤ} {as : List Attempt}
    (h : firstHit loop as = some 1) :
    ∃ a ∈ as, a = .settled 1 ∨ ∃ n m, a = .goOn n m ∧ loop n m = some 1 := by
  induction as with
  | nil => exact absurd h (by simp [firstHit])
  | cons a as ih =>
    have hlater : firstHit loop as = some 1 → ∃ b ∈ a :: as,
        b = .settled 1 ∨ ∃ n m, b = .goOn n m ∧ loop n m = some 1 := fun h => by
      obtain ⟨b, hmem, hb⟩ := ih h
      exact ⟨b, List.mem_cons_of_mem _ hmem, hb⟩
    cases a with
    | settled r =>
      rw [firstHit] at h
      split_ifs at h
      · exact ⟨_, List.mem_cons_self, Or.inl (congrArg Attempt.settled (Option.some.inj h))⟩
      · exact hlater h
    | goOn n m =>
      obtain ⟨r, hloop, h⟩ := Option.bind_eq_some_iff.mp h
      split_ifs at h
      · obtain rfl := Option.some.inj h
        exact ⟨_, List.mem_cons_self, Or.inr ⟨n, m, rfl, hloop⟩⟩
      · exact hlater h

theorem minLength_run (tokens : List MaskToken) : minLength tokens =
    wildcards (tokens.takeWhile isJoker) + minLength (tokens.dropWhile isJoker) := by
  induction tokens with
  | nil => rfl
  | cons token tokens ih =>
    cases token with
    | star =>
      rw [minLength_star, ih]
      simp [wildcards, show (MaskToken.star :: tokens).takeWhile isJoker =
        .star :: tokens.takeWhile isJoker from rfl, show (MaskToken.star :: tokens).dropWhile isJoker =
        tokens.dropWhile isJoker from rfl]
    | any =>
      rw [minLength_cons (by decide), ih, Nat.add_right_comm]
      simp [wildcards, show (MaskToken.any :: tokens).takeWhile isJoker =
        .any :: tokens.takeWhile isJoker from rfl, show (MaskToken.any :: tokens).dropWhile isJoker =
        tokens.dropWhile isJoker from rfl]
    | literal | escaped | items | range => exact (Nat.zero_add _).symm

theorem Safe.of_rest (hrest : RestSafe (tokens.dropWhile isJoker))
    (hsafe : Safe (tokens.dropWhile isJoker)) : Safe tokens := by
  induction tokens with
  | nil => trivial
  | cons token tokens ih =>
    cases token with
    | star => exact ⟨hrest, ih hrest hsafe⟩
    | any => exact ⟨rfl, ih hrest hsafe⟩
    | literal | escaped | items | range => exact hsafe

/-- What is true of a mask behind the index in the name, once it has been matched. -/
def Matched (name : KsString) (n : ℕ) (tokens : List MaskToken) : Prop :=
  Denotes (cutAtBracket tokens) (name.drop n) ∧
    (NoBracket tokens → name.length ≤ n + minLength tokens → Safe tokens)

theorem Matched.cons (hstar : token ≠ .star) (hn : n < name.length)
    (hcomplement : token.isComplement = false) (haccepts : token.Accepts (charAt name n))
    (h : Matched name (n + 1) tokens) : Matched name n (token :: tokens) := by
  refine ⟨?_, fun hbracket hle => ?_⟩
  · rw [cutAtBracket_cons hstar]
    exact (denotes_drop _ hstar hn).mpr ⟨haccepts, h.1⟩
  · rw [minLength_cons hstar] at hle
    cases token with
    | star => exact absurd rfl hstar
    | any | literal | escaped | items | range => exact ⟨hcomplement, h.2 hbracket (by omega)⟩

theorem matched_nil (h : mLoop (before ++ text []) name (m + 1) n before.length = some 1) :
    Matched name n [] := by
  have hturn : turn (before ++ text []) name n before.length =
      if n = name.length then .done 1 else .done 0 := by
    simp [turn, text]
  rw [mLoop, hturn] at h
  by_cases hlast : n = name.length
  · exact ⟨List.drop_eq_nil_of_le hlast.ge, fun _ _ => trivial⟩
  · rw [if_neg hlast] at h
    exact absurd (Option.some.inj h) (by decide)

/-- A part that stands for a single character. -/
theorem matched_token {fuel : ℕ} (hwf : token.WellFormed) (hstar : token ≠ .star)
    (hn : n ≤ name.length)
    (ih : ∀ {tokens' : List MaskToken} {n : ℕ} (before : KsString), tokens' = token :: tokens ∨
      tokens' = tokens → n ≤ name.length →
      mLoop (before ++ text tokens') name fuel n before.length = some 1 → Matched name n tokens')
    (h : mLoop (before ++ text (token :: tokens)) name (fuel + 1) n before.length = some 1) :
    Matched name n (token :: tokens) := by
  rw [mLoop, text_cons] at h
  by_cases hlast : n = name.length
  · subst hlast
    rw [turn_atEnd hwf hstar] at h
    exact absurd (Option.some.inj h) (by decide)
  have hlt : n < name.length := Nat.lt_of_le_of_ne hn hlast
  by_cases hcomplement : token.isComplement = true
  · obtain hturn | hturn := turn_complement hcomplement hlt before (text tokens)
    · rw [hturn] at h
      exact absurd (Option.some.inj h) (by decide)
    · rw [hturn, ← text_cons] at h
      exact ih before (Or.inl rfl) hn h
  · obtain ⟨haccepts, hturn⟩ | ⟨-, hturn⟩ := turn_token hwf hstar
      (Bool.eq_false_iff.mpr hcomplement) hlt before (text tokens)
    · rw [hturn, ← List.append_assoc, ← List.length_append] at h
      exact (ih _ (Or.inr rfl) hlt h).cons hstar hlt (Bool.eq_false_iff.mpr hcomplement) haccepts
    · rw [hturn] at h
      exact absurd (Option.some.inj h) (by decide)

/-- A part behind a run of jokers. -/
theorem matched_attempt {fuel i : ℕ} (hwf : token.WellFormed) (hjoker : token.isJoker = false)
    (hescaped : token ≠ .escaped openChar) (hi : i < name.length)
    (ih : ∀ {tokens' : List MaskToken} {n : ℕ} (before : KsString), tokens' = token :: rest' ∨
      tokens' = rest' → n ≤ name.length →
      mLoop (before ++ text tokens') name fuel n before.length = some 1 → Matched name n tokens')
    (before : KsString) :
    let mask := before ++ text (token :: rest')
    let m := if charAt mask before.length = escapeChar then before.length + 1 else before.length
    (attempt mask name m i = .settled 1 ∨ ∃ n' m', attempt mask name m i = .goOn n' m' ∧
      mLoop mask name fuel n' m' = some 1) → Matched name i (token :: rest') := by
  intro mask m h
  have hstar : token ≠ .star := by
    rintro rfl
    exact absurd hjoker (by decide)
  by_cases hcomplement : token.isComplement = true
  · have hm : m = before.length := if_neg (by
      rw [show charAt mask before.length = openChar from
        (charAt_complement hcomplement before (text rest')).1]
      decide)
    rw [hm] at h
    obtain ⟨r, hr, hattempt⟩ | hattempt :=
      attempt_complement hcomplement before (text rest') name i
    · obtain hsettled | ⟨n', m', hgoOn, -⟩ := h
      · exact absurd (Attempt.settled.inj (hattempt.symm.trans hsettled)) hr
      · exact absurd (hattempt.symm.trans hgoOn) (by simp)
    · obtain hsettled | ⟨n', m', hgoOn, hloop⟩ := h
      · exact absurd (hattempt.symm.trans hsettled) (by simp)
      · obtain ⟨rfl, rfl⟩ := Attempt.goOn.inj (hattempt.symm.trans hgoOn)
        exact ih before (Or.inl rfl) hi.le hloop
  · obtain ⟨haccepts, hattempt⟩ | ⟨-, hattempt⟩ := attempt_token hwf hjoker
      (Bool.eq_false_iff.mpr hcomplement) hescaped before (text rest') name i
    · obtain hsettled | ⟨n', m', hgoOn, hloop⟩ := h
      · exact absurd (hattempt.symm.trans hsettled) (by simp)
      · obtain ⟨rfl, rfl⟩ := Attempt.goOn.inj (hattempt.symm.trans hgoOn)
        refine (ih (before ++ token.text) (Or.inr rfl) hi ?_).cons hstar hi
          (Bool.eq_false_iff.mpr hcomplement) haccepts
        rw [List.append_assoc, List.length_append]
        exact hloop
    · obtain hsettled | ⟨n', m', hgoOn, -⟩ := h
      · exact absurd (Attempt.settled.inj (hattempt.symm.trans hsettled)) (by decide)
      · exact absurd (hattempt.symm.trans hgoOn) (by simp)

theorem NoBracket.of_dropWhile (h : NoBracket tokens) : NoBracket (tokens.dropWhile isJoker) := by
  induction tokens with
  | nil => exact h
  | cons token tokens ih =>
    cases token with
    | star => exact ih h.2
    | any => exact ih h
    | literal | escaped | items | range => exact h

/-- A star with its run of jokers. -/
theorem matched_star {fuel : ℕ} (hwf : ∀ token ∈ tokens, token.WellFormed)
    (hn : n ≤ name.length)
    (ih : ∀ {tokens' : List MaskToken} {n : ℕ} (before : KsString),
      (tokens' = tokens.dropWhile isJoker ∨ tokens' = (tokens.dropWhile isJoker).tail) →
      n ≤ name.length → mLoop (before ++ text tokens') name fuel n before.length = some 1 →
      Matched name n tokens')
    (h : mLoop (before ++ text (.star :: tokens)) name (fuel + 1) n before.length = some 1) :
    Matched name n (.star :: tokens) := by
  by_cases hbracket : (tokens.dropWhile isJoker).head? = some (.escaped openChar)
  · refine ⟨?_, fun hno => absurd hbracket hno.1⟩
    rw [cutAtBracket, if_pos hbracket]
    exact ⟨name.drop n, [], (List.append_nil _).symm, rfl⟩
  obtain ⟨hmask, hturn⟩ := turn_run name hwf hn before
  have hcut : cutAtBracket (.star :: tokens) =
      .star :: (tokens.takeWhile isJoker ++ cutAtBracket (tokens.dropWhile isJoker)) := by
    rw [cutAtBracket, if_neg hbracket, cutAtBracket_run hbracket]
  have hdenotes := denotes_star_run (cutAtBracket (tokens.dropWhile isJoker))
    (takeWhile_isJoker tokens) (name.drop n)
  simp only [List.length_drop, List.drop_drop] at hdenotes
  rw [mLoop, hturn] at h
  by_cases hlong : name.length < n + wildcards (tokens.takeWhile isJoker)
  · rw [if_pos hlong] at h
    exact absurd (Option.some.inj h) (by decide)
  rw [if_neg hlong] at h
  have hlength := minLength_run tokens
  cases hdropped : tokens.dropWhile isJoker with
  | nil =>
    refine ⟨?_, fun _ _ => ?_⟩
    · rw [hcut, hdenotes, hdropped]
      exact ⟨name.length - n, by omega, le_rfl, List.drop_eq_nil_of_le (by omega)⟩
    · have hrest : RestSafe (tokens.dropWhile isJoker) := Or.inl hdropped
      exact ⟨hrest, Safe.of_rest hrest (by rw [hdropped]; trivial)⟩
  | cons token rest' =>
    rw [hdropped] at h hdenotes hmask hlength hbracket
    obtain ⟨hjoker, hmem, -⟩ := dropWhile_isJoker hdropped
    rw [if_neg (List.cons_ne_nil _ _)] at h
    by_cases hend : n + wildcards (tokens.takeWhile isJoker) = name.length
    · rw [if_pos hend] at h
      exact absurd (Option.some.inj h) (by decide)
    rw [if_neg hend] at h
    by_cases hzero : estimate (token :: rest') = 0
    · rw [if_pos hzero] at h
      have hone := Option.some.inj h
      omega
    rw [if_neg hzero] at h
    obtain ⟨a, ha, hhit⟩ := firstHit_eq_one h
    obtain ⟨i, hi, rfl⟩ := List.mem_map.mp ha
    obtain ⟨hstart, hle⟩ := mem_candidates.mp hi
    rw [hmask] at hhit
    obtain ⟨hrest, hsafe⟩ := matched_attempt (hwf token hmem) hjoker
      (fun h => hbracket (congrArg some h)) (by omega)
      (fun before h => ih before (by rw [hdropped]; exact h)) _ hhit
    refine ⟨?_, fun hno hshort => ?_⟩
    · rw [hcut, hdropped, hdenotes]
      refine ⟨i - n, by omega, by omega, ?_⟩
      rwa [Nat.add_sub_cancel' (by omega)]
    · rw [minLength_star] at hshort
      have hno' := hno.2.of_dropWhile
      rw [hdropped] at hno'
      have hsafe' := hsafe hno' (by omega)
      have hrestSafe : RestSafe (token :: rest') :=
        Or.inr ⟨hbracket, Nat.pos_of_ne_zero hzero, by omega⟩
      rw [← hdropped] at hrestSafe hsafe'
      exact ⟨hrestSafe, Safe.of_rest hrestSafe hsafe'⟩

/-- Only the names in the language of the mask as it is cut off match, and without an escaped `[`
behind a star the shortest of them only if the mask is safe. -/
theorem matched_of_mLoop (before : KsString) {fuel : ℕ} (hwf : ∀ token ∈ tokens, token.WellFormed)
    (hn : n ≤ name.length)
    (h : mLoop (before ++ text tokens) name fuel n before.length = some 1) :
    Matched name n tokens := by
  induction fuel generalizing tokens n before with
  | zero => exact absurd h (by simp [mLoop])
  | succ fuel ih =>
    cases tokens with
    | nil => exact matched_nil h
    | cons token tokens =>
      have hwf' : ∀ t ∈ tokens, t.WellFormed := fun t ht => hwf t (List.mem_cons_of_mem _ ht)
      by_cases hstar : token = .star
      · subst hstar
        have hsub : ∀ t ∈ tokens.dropWhile isJoker, t ∈ tokens := fun t ht =>
          (List.dropWhile_sublist _).subset ht
        refine matched_star hwf' hn (fun {tokens' n} before htokens hn hnext => ?_) h
        obtain rfl | rfl := htokens
        · exact ih before (fun t ht => hwf' t (hsub t ht)) hn hnext
        · exact ih before (fun t ht => hwf' t (hsub t (List.mem_of_mem_tail ht))) hn hnext
      · refine matched_token (hwf token List.mem_cons_self) hstar hn
          (fun {tokens' n} before htokens hn hnext => ?_) h
        obtain rfl | rfl := htokens
        · exact ih before hwf hn hnext
        · exact ih before hwf' hn hnext

/-- A name of the language has a shortest one in it. -/
theorem Denotes.shortest {s : KsString} (h : Denotes tokens s) :
    ∃ s', Denotes tokens s' ∧ s'.length = minLength tokens ∧ ∀ c ∈ s', c ∈ s := by
  induction tokens generalizing s with
  | nil => exact ⟨[], rfl, rfl, fun c hc => absurd hc List.not_mem_nil⟩
  | cons token tokens ih =>
    by_cases hstar : token = .star
    · subst hstar
      obtain ⟨skipped, rest, rfl, hrest⟩ := h
      obtain ⟨s', hs', hlength, hsub⟩ := ih hrest
      refine ⟨s', ⟨[], s', rfl, hs'⟩, ?_, fun c hc => List.mem_append_right _ (hsub c hc)⟩
      rw [hlength, minLength_star]
    · obtain ⟨c, rest, rfl, haccepts, hrest⟩ := (denotes_cons hstar tokens s).mp h
      obtain ⟨s', hs', hlength, hsub⟩ := ih hrest
      refine ⟨c :: s', (denotes_cons hstar tokens _).mpr ⟨c, s', rfl, haccepts, hs'⟩, ?_,
        fun d hd => ?_⟩
      · rw [List.length_cons, hlength, minLength_cons hstar]
      · obtain rfl | hd := List.mem_cons.mp hd
        · exact List.mem_cons_self
        · exact List.mem_cons_of_mem _ (hsub d hd)

/-- The names that match a mask are those of its language. -/
def Faithful (tokens : List MaskToken) : Prop :=
  ∀ name : KsString, (∃ fuel, doesMatch (text tokens) name fuel = some 1) ↔
    Denotes tokens (cString name)

/-- The condition on a mask: it is safe, or no name is in the language of the mask as it is cut
off. -/
def Matchable (tokens : List MaskToken) : Prop :=
  Safe tokens ∨ ∀ name, ¬ Denotes (cutAtBracket tokens) (cString name)

theorem faithful_of_safe (hwf : ∀ token ∈ tokens, token.WellFormed) (hsafe : Safe tokens) :
    Faithful tokens := by
  intro name
  have hdecides := mLoop_decides (cString name) hwf hsafe (Nat.lt_succ_self _)
    (Nat.zero_le _) []
  obtain ⟨hone, hdenotes⟩ | ⟨hzero, hnot⟩ := hdecides
  · exact ⟨fun _ => hdenotes, fun _ => ⟨_, hone⟩⟩
  · refine ⟨fun ⟨fuel, hone⟩ => ?_, fun h => absurd h hnot⟩
    have hsame := (mLoop_mono (Nat.le_max_left fuel _) hone).symm.trans
      (mLoop_mono (Nat.le_max_right fuel _) hzero)
    exact absurd (Option.some.inj hsame) (by decide)

theorem safe_of_faithful (hwf : ∀ token ∈ tokens, token.WellFormed) (hbracket : NoBracket tokens)
    (h : Faithful tokens) {name : KsString} (hname : Denotes tokens (cString name)) :
    Safe tokens := by
  obtain ⟨s, hs, hlength, hsub⟩ := hname.shortest
  have hzero : cString s = s := cString_eq_self fun h0 => not_mem_cString name (hsub 0 h0)
  obtain ⟨fuel, hone⟩ := (h s).mpr (by rwa [hzero])
  rw [doesMatch, hzero] at hone
  refine (matched_of_mLoop [] hwf (Nat.zero_le _) hone).2 hbracket ?_
  rw [hlength, Nat.zero_add]

/-- No name matches a mask that is empty as it is cut off. -/
theorem faithful_of_empty (hwf : ∀ token ∈ tokens, token.WellFormed)
    (hempty : ∀ name, ¬ Denotes (cutAtBracket tokens) (cString name)) : Faithful tokens := by
  intro name
  refine ⟨fun ⟨fuel, hone⟩ => ?_, fun h => absurd (denotes_cutAtBracket h) (hempty name)⟩
  exact absurd (matched_of_mLoop [] hwf (Nat.zero_le _) hone).1 (hempty name)

/-- Under the condition a mask is matched by the names of its language and by no others. Without an
escaped `[` behind a star it is so under no other condition. -/
theorem faithful_iff (hwf : ∀ token ∈ tokens, token.WellFormed) :
    (Matchable tokens → Faithful tokens) ∧
      (NoBracket tokens → (Faithful tokens ↔ Matchable tokens)) := by
  have henough : Matchable tokens → Faithful tokens := by
    rintro (hsafe | hempty)
    · exact faithful_of_safe hwf hsafe
    · exact faithful_of_empty hwf hempty
  refine ⟨henough, fun hbracket => ⟨fun h => ?_, henough⟩⟩
  by_cases hname : ∃ name, Denotes tokens (cString name)
  · obtain ⟨name, hname⟩ := hname
    exact Or.inl (safe_of_faithful hwf hbracket h hname)
  · refine Or.inr fun name hdenotes => hname ⟨name, ?_⟩
    rwa [hbracket.cutAtBracket_eq] at hdenotes

/-- The mask `*.c`. -/
theorem faithful_iff_suffix : Faithful [.star, .literal 46, .literal 99] :=
  (faithful_iff (by simp [WellFormed, starChar, questionChar, openChar, escapeChar])).1
    (Or.inl ⟨Or.inr ⟨by decide, by decide, by decide⟩, rfl, rfl, trivial⟩)

/-- The mask `[^a]` and the name `b`. -/
theorem not_faithful_complement :
    ¬ ∀ tokens : List MaskToken, (∀ token ∈ tokens, token.WellFormed) → Faithful tokens := by
  intro h
  have hwf : ∀ token ∈ [MaskToken.items true [97]], token.WellFormed := by
    simp [WellFormed, closeChar]
  have hdenotes : Denotes [.items true [97]] (cString [98]) :=
    ⟨98, [], by decide, show (98 : UInt8) ∉ [97] by decide, rfl⟩
  obtain ⟨fuel, hone⟩ := (h _ hwf [98]).mpr hdenotes
  have hset : setContains [91, 94, 97, 93] 2 98 = some (false, 4) := by decide
  have hstuck : NoProgress [91, 94, 97, 93] [98] 0 0 :=
    ⟨by decide, by decide, by decide, Or.inr (Or.inr ⟨by decide, fun next hnext =>
      absurd (hset.symm.trans hnext) (by simp)⟩)⟩
  exact absurd (hone.symm.trans (noProgress_diverges hstuck fuel)) (by simp)

end AcpltKs.KsMask
