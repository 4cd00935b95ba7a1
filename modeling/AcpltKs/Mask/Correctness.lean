import AcpltKs.Mask.Language

/-! Safe masks are matched by the names of their language, and by no others. -/
namespace AcpltKs.KsMask
open MaskToken

variable {before rest : KsString} {name : KsString} {n m k : ℕ} {token : MaskToken}
  {tokens rest' : List MaskToken}

theorem charAt_append (before s : KsString) (j : ℕ) :
    charAt (before ++ s) (before.length + j) = charAt s j := by
  simp [charAt, List.getElem?_append_right]

theorem charAt_append_zero (before s : KsString) :
    charAt (before ++ s) before.length = charAt s 0 :=
  charAt_append before s 0

theorem rangeContains_eq {lo hi c : UInt8} (h : (MaskToken.range false lo hi).WellFormed) :
    ∃ b, rangeContains lo hi c = some b ∧ (b = true ↔ InRange lo hi c) := by
  simp only [WellFormed, InRange, rangeContains, isdigit, isupper, islower, Bool.and_eq_true,
    Bool.or_eq_true, decide_eq_true_eq, UInt8.le_iff_toNat_le] at h ⊢
  split_ifs with hsame hupper hlower
  · refine ⟨_, rfl, ?_⟩
    simp only [Bool.and_eq_true, decide_eq_true_eq]
    simp only [UInt8.reduceToNat] at *
    omega
  · refine ⟨_, rfl, ?_⟩
    simp only [Bool.and_eq_true, Bool.or_eq_true, decide_eq_true_eq]
    simp only [UInt8.reduceToNat] at *
    omega
  · refine ⟨_, rfl, ?_⟩
    simp only [Bool.and_eq_true, Bool.or_eq_true, decide_eq_true_eq]
    simp only [UInt8.reduceToNat] at *
    omega
  · simp only [UInt8.reduceToNat] at *
    omega

theorem setContains_range {lo hi : UInt8} (c : UInt8) (h : (MaskToken.range false lo hi).WellFormed)
    (before rest : KsString) :
    ∃ b, setContains (before ++ lo :: dashChar :: hi :: closeChar :: rest) before.length c =
      some (b, before.length + 4) ∧ (b = true ↔ InRange lo hi c) := by
  obtain ⟨b, hb, hrange⟩ := rangeContains_eq (c := c) h
  refine ⟨b, ?_, hrange⟩
  rw [setContains, if_pos ⟨by simp, charAt_append _ _ 1⟩, charAt_append, charAt_append_zero,
    charAt_append]
  refine (if_pos (show charAt _ 3 = closeChar from rfl)).trans ?_
  exact congrArg (Option.map (·, before.length + 4)) hb

theorem setContains_items {cs : KsString} {c : UInt8} (hne : cs ≠ []) (hclose : closeChar ∉ cs)
    (hdash : cs[1]? ≠ some dashChar) (before rest : KsString) :
    setContains (before ++ (cs ++ closeChar :: rest)) before.length c =
      some (cs.contains c, before.length + cs.length + 1) := by
  have hitems : (cs ++ closeChar :: rest).takeWhile (· ≠ closeChar) = cs := by
    rw [List.takeWhile_append_of_pos]
    · simp
    · intro d hd
      simpa using fun h : d = closeChar => hclose (h ▸ hd)
  have hsecond : charAt (cs ++ closeChar :: rest) 1 ≠ dashChar := by
    match cs, hne with
    | [a], _ => exact fun h => absurd h (show closeChar ≠ dashChar by decide)
    | a :: b :: cs, _ => exact fun h => hdash (congrArg some h)
  rw [setContains, charAt_append, if_neg fun h => hsecond h.2, List.drop_left, hitems, if_pos]
  simp

/-- The parts that are written as a set and stand for its items. -/
def IsSet : MaskToken → Prop
  | .items complement _ | .range complement _ _ => complement = false
  | _ => False

/-- A set accepts the items it is written with. -/
theorem setContains_token (hwf : token.WellFormed) (hset : IsSet token) (before rest : KsString)
    (c : UInt8) : ∃ b body, token.text = openChar :: body ∧ 2 ≤ body.length ∧
      charAt (body ++ rest) 0 ≠ caretChar ∧
      setContains (before ++ (token.text ++ rest)) (before.length + 1) c =
        some (b, before.length + token.text.length) ∧ (b = true ↔ token.Accepts c) := by
  cases token with
  | star | any | literal | escaped => exact absurd hset not_false
  | items complement cs =>
    obtain rfl : complement = false := hset
    obtain ⟨hne, hclose, hdash, hcaret⟩ := hwf
    have hcontains := setContains_items (c := c) hne hclose hdash (before ++ [openChar]) rest
    refine ⟨cs.contains c, cs ++ [closeChar], rfl, ?_, ?_, ?_, by simp [Accepts]⟩
    · have hpos := List.length_pos_iff.mpr hne
      rw [List.length_append, List.length_singleton]
      omega
    · obtain ⟨a, cs, rfl⟩ := List.exists_cons_of_ne_nil hne
      exact fun h => hcaret rfl (congrArg some h)
    · simpa [MaskToken.text, Nat.add_assoc, Nat.add_comm, Nat.add_left_comm] using hcontains
  | range complement lo hi =>
    obtain rfl : complement = false := hset
    obtain ⟨b, hcontains, hrange⟩ :=
      setContains_range c hwf (before ++ [openChar]) rest
    refine ⟨b, [lo, dashChar, hi, closeChar], rfl, by simp, ?_, ?_, by simpa [Accepts] using hrange⟩
    · rintro rfl
      have hnone : isdigit caretChar = false ∧ isupper caretChar = false ∧
          islower caretChar = false := by decide
      exact absurd hwf (by simp [WellFormed, hnone])
    · simpa [MaskToken.text, Nat.add_assoc] using hcontains

theorem set_token (hwf : token.WellFormed) (hset : IsSet token) (before rest : KsString)
    (name : KsString) (n : ℕ) :
    (token.Accepts (charAt name n) ∧ set (before ++ (token.text ++ rest)) name n before.length =
        (1, n + 1, before.length + token.text.length)) ∨
      (¬ token.Accepts (charAt name n) ∧
        set (before ++ (token.text ++ rest)) name n before.length = (0, n, before.length)) := by
  obtain ⟨b, body, htext, hlen, hcaret, hcontains, hb⟩ :=
    setContains_token hwf hset before rest (charAt name n)
  have hroom : ¬ (before ++ (token.text ++ rest)).length ≤ before.length + 2 := by
    rw [htext, List.length_append, List.length_append, List.length_cons]
    omega
  have hfirst : charAt (before ++ (token.text ++ rest)) (before.length + 1) ≠ caretChar := by
    rw [charAt_append, htext]
    exact hcaret
  rw [set, if_neg hroom, if_pos hfirst, hcontains]
  cases b with
  | true => exact Or.inl ⟨hb.mp rfl, rfl⟩
  | false => exact Or.inr ⟨fun h => absurd (hb.mpr h) (by decide), rfl⟩

/-- A part that stands for a single character is gone past, or the mask does not match. -/
theorem turn_token (hwf : token.WellFormed) (hstar : token ≠ .star)
    (hcomplement : token.isComplement = false) (hn : n < name.length) (before rest : KsString) :
    (token.Accepts (charAt name n) ∧ turn (before ++ (token.text ++ rest)) name n before.length =
        .goOn (n + 1) (before.length + token.text.length)) ∨
      (¬ token.Accepts (charAt name n) ∧
        turn (before ++ (token.text ++ rest)) name n before.length = .done 0) := by
  have hfirst := charAt_append_zero before (token.text ++ rest)
  have hin : n < name.length ∧ before.length < (before ++ (token.text ++ rest)).length := by
    refine ⟨hn, ?_⟩
    cases token <;> simp [MaskToken.text]
  cases token with
  | star => exact absurd rfl hstar
  | any =>
    refine Or.inl ⟨trivial, ?_⟩
    rw [turn, if_pos hin, hfirst]
    rfl
  | literal c =>
    obtain ⟨hs, hq, ho, he⟩ := hwf
    have hc : charAt (before ++ (MaskToken.text (.literal c) ++ rest)) before.length = c := hfirst
    rw [turn, if_pos hin]
    simp only [hc, hs, hq, ho, he, if_false, not_le.mpr hin.2, false_or]
    by_cases heq : c = charAt name n
    · exact Or.inl ⟨heq.symm, if_neg (not_not.mpr heq)⟩
    · exact Or.inr ⟨fun h => heq h.symm, if_pos heq⟩
  | escaped c =>
    have hc : charAt (before ++ (MaskToken.text (.escaped c) ++ rest)) before.length =
        escapeChar := hfirst
    have hc' : charAt (before ++ (MaskToken.text (.escaped c) ++ rest)) (before.length + 1) = c :=
      charAt_append before _ 1
    have hin' : ¬ (before ++ (MaskToken.text (.escaped c) ++ rest)).length ≤ before.length + 1 := by
      simp [MaskToken.text]
    rw [turn, if_pos hin]
    simp only [hc, if_true, hc', hin', false_or, show ¬ escapeChar = openChar by decide,
      show ¬ escapeChar = starChar by decide, show ¬ escapeChar = questionChar by decide, if_false]
    by_cases heq : c = charAt name n
    · exact Or.inl ⟨heq.symm, if_neg (not_not.mpr heq)⟩
    · exact Or.inr ⟨fun h => heq h.symm, if_pos heq⟩
  | items complement cs =>
    have hopen : charAt (before ++ (MaskToken.text (.items complement cs) ++ rest)) before.length =
        openChar := hfirst
    rw [turn, if_pos hin, if_pos hopen]
    obtain ⟨haccepts, hset⟩ | ⟨hnot, hset⟩ := set_token hwf hcomplement before rest name n
    · exact Or.inl ⟨haccepts, by rw [hset]; rfl⟩
    · exact Or.inr ⟨hnot, by rw [hset]; rfl⟩
  | range complement lo hi =>
    have hopen : charAt (before ++ (MaskToken.text (.range complement lo hi) ++ rest))
        before.length = openChar := hfirst
    rw [turn, if_pos hin, if_pos hopen]
    obtain ⟨haccepts, hset⟩ | ⟨hnot, hset⟩ := set_token hwf hcomplement before rest name n
    · exact Or.inl ⟨haccepts, by rw [hset]; rfl⟩
    · exact Or.inr ⟨hnot, by rw [hset]; rfl⟩

/-- How a part that is no joker begins; what is tried behind a joker starts behind a backslash. -/
theorem attempt_token (hwf : token.WellFormed) (hjoker : token.isJoker = false)
    (hcomplement : token.isComplement = false) (hescaped : token ≠ .escaped openChar)
    (before rest : KsString) (name : KsString) (i : ℕ) :
    let mask := before ++ (token.text ++ rest)
    let m := if charAt mask before.length = escapeChar then before.length + 1 else before.length
    (token.Accepts (charAt name i) ∧
        attempt mask name m i = .goOn (i + 1) (before.length + token.text.length)) ∨
      (¬ token.Accepts (charAt name i) ∧ attempt mask name m i = .settled 0) := by
  have hfirst := charAt_append_zero before (token.text ++ rest)
  intro mask m
  cases token with
  | star | any => exact absurd hjoker (by decide)
  | literal c =>
    obtain ⟨-, -, ho, he⟩ := hwf
    have hc : charAt mask before.length = c := hfirst
    have hm : m = before.length := if_neg (by rw [hc]; exact he)
    rw [hm, attempt, hc, if_pos ho]
    by_cases heq : c = charAt name i
    · exact Or.inl ⟨heq.symm, if_pos heq⟩
    · exact Or.inr ⟨fun h => heq h.symm, if_neg heq⟩
  | escaped c =>
    have hc : charAt mask before.length = escapeChar := hfirst
    have hc' : charAt mask (before.length + 1) = c := charAt_append before _ 1
    have hm : m = before.length + 1 := if_pos hc
    have hopen : c ≠ openChar := fun h => hescaped (by rw [h])
    rw [hm, attempt, hc', if_pos hopen]
    by_cases heq : c = charAt name i
    · exact Or.inl ⟨heq.symm, if_pos heq⟩
    · exact Or.inr ⟨fun h => heq h.symm, if_neg heq⟩
  | items complement cs =>
    have hopen : charAt mask before.length = openChar := hfirst
    have hm : m = before.length := if_neg (by rw [hopen]; decide)
    rw [hm, attempt, if_neg (not_not.mpr hopen)]
    obtain ⟨haccepts, hset⟩ | ⟨hnot, hset⟩ := set_token hwf hcomplement before rest name i
    · exact Or.inl ⟨haccepts, by rw [hset]; rfl⟩
    · exact Or.inr ⟨hnot, by rw [hset]; rfl⟩
  | range complement lo hi =>
    have hopen : charAt mask before.length = openChar := hfirst
    have hm : m = before.length := if_neg (by rw [hopen]; decide)
    rw [hm, attempt, if_neg (not_not.mpr hopen)]
    obtain ⟨haccepts, hset⟩ | ⟨hnot, hset⟩ := set_token hwf hcomplement before rest name i
    · exact Or.inl ⟨haccepts, by rw [hset]; rfl⟩
    · exact Or.inr ⟨hnot, by rw [hset]; rfl⟩

/-- The text of a run of jokers. -/
theorem text_run_mem {run : List MaskToken} (hrun : ∀ token ∈ run, token.isJoker = true) :
    (text run).length = run.length ∧ ∀ c ∈ text run, c = starChar ∨ c = questionChar := by
  induction run with
  | nil => exact ⟨rfl, fun c hc => absurd hc List.not_mem_nil⟩
  | cons token run ih =>
    obtain ⟨hlength, hmem⟩ := ih fun t ht => hrun t (List.mem_cons_of_mem _ ht)
    have hjoker := hrun token List.mem_cons_self
    cases token with
    | star | any =>
      simp only [text, List.flatMap_cons, List.length_append, MaskToken.text] at hlength hmem ⊢
      refine ⟨by simp [hlength, Nat.add_comm], fun c hc => ?_⟩
      obtain rfl | hc := List.mem_cons.mp hc
      · simp
      · exact hmem c hc
    | literal | escaped | items | range => exact absurd hjoker (by simp [isJoker])

theorem text_append (run rest : List MaskToken) : text (run ++ rest) = text run ++ text rest :=
  List.flatMap_append

/-- Where the jokers end. -/
theorem skipJokers_run {run rest : List MaskToken} (hrun : ∀ token ∈ run, token.isJoker = true)
    (hrest : ∀ c ∈ (text rest).head?, c ≠ starChar ∧ c ≠ questionChar) (hn : n ≤ k) :
    skipJokers k (text (run ++ rest)) n m =
      if n + wildcards run ≤ k then some (n + wildcards run, m + run.length) else none := by
  induction run generalizing n m with
  | nil =>
    rw [if_pos (by simpa [wildcards] using hn), List.nil_append]
    cases htext : text rest with
    | nil => rfl
    | cons c s =>
      obtain ⟨hs, hq⟩ := hrest c (by rw [htext]; rfl)
      rw [skipJokers, if_neg hq, if_neg hs]
      rfl
  | cons token run ih =>
    have hrun' : ∀ token ∈ run, token.isJoker = true := fun t ht =>
      hrun t (List.mem_cons_of_mem _ ht)
    have hjoker := hrun token List.mem_cons_self
    cases token with
    | star =>
      have hsame : wildcards (.star :: run) = wildcards run := by simp [wildcards]
      rw [hsame, show text (.star :: run ++ rest) = starChar :: text (run ++ rest) from rfl,
        skipJokers, if_neg (by decide), if_pos rfl, ih hrun' hn, List.length_cons,
        Nat.add_right_comm, Nat.add_assoc]
    | any =>
      have hmore : wildcards (.any :: run) = wildcards run + 1 := by simp [wildcards]
      rw [hmore, show text (.any :: run ++ rest) = questionChar :: text (run ++ rest) from rfl,
        skipJokers, if_pos rfl]
      by_cases hlt : n < k
      · have hn' : n + 1 + wildcards run = n + (wildcards run + 1) := by omega
        have hm' : m + 1 + run.length = m + (.any :: run).length := by
          rw [List.length_cons]
          omega
        rw [if_pos hlt, ih hrun' (show n + 1 ≤ k from hlt), hn', hm']
      · rw [if_neg hlt, if_neg (by omega)]
    | literal | escaped | items | range => exact absurd hjoker (by simp [isJoker])

theorem restLength_prev {prev prev' : UInt8} (h : prev ≠ escapeChar) (h' : prev' ≠ escapeChar)
    (inSet : Bool) (s : KsString) : restLength prev inSet s = restLength prev' inSet s := by
  cases s with
  | nil => rfl
  | cons c s => simp [restLength, h, h']

/-- What a joker tries behind a run of jokers. -/
theorem joker_run {run rest : List MaskToken} (hrun : ∀ token ∈ run, token.isJoker = true)
    (hrest : ∀ c ∈ (text rest).head?, c ≠ starChar ∧ c ≠ questionChar)
    (hne : rest ≠ [] → text rest ≠ []) (before name : KsString) (hn : n ≤ name.length) :
    let mask := before ++ text (.star :: run) ++ text rest
    let m := (before ++ text (.star :: run)).length
    joker mask name n before.length =
      if name.length < n + wildcards run then .done 0
      else if rest = [] then .done 1
      else if n + wildcards run = name.length then .done 0
      else if estimate rest = 0 then .done (-m)
      else .attempts ((candidates name.length (estimate rest) (n + wildcards run)).map
        (attempt mask name (if charAt mask m = escapeChar then m + 1 else m))) := by
  intro mask m
  obtain ⟨hlength, hmem⟩ := text_run_mem hrun
  have hstar : text (.star :: run) = starChar :: text run := rfl
  have hm : before.length + run.length + 1 = m := by
    simp only [m, List.length_append, hstar, List.length_cons, hlength]
    omega
  have hdrop : mask.drop (before.length + 1) = text (run ++ rest) := by
    simp only [mask, hstar, List.append_assoc, text_append]
    rw [← List.drop_drop, List.drop_left]
    rfl
  have hdrop' : mask.drop m = text rest := List.drop_left
  have hmask : mask.length = m + (text rest).length := List.length_append
  have hprev : charAt mask (before.length + run.length) ≠ escapeChar := by
    have hchar : charAt mask (before.length + run.length) ∈ text (.star :: run) := by
      have hlt : run.length < (text (.star :: run)).length := by
        rw [hstar, List.length_cons, hlength]
        exact Nat.lt_succ_self _
      rw [show mask = before ++ (text (.star :: run) ++ text rest) from List.append_assoc _ _ _,
        charAt_append, charAt, List.getD_eq_getElem?_getD, List.getElem?_append_left hlt,
        List.getElem?_eq_getElem hlt]
      exact List.getElem_mem hlt
    rw [hstar, List.mem_cons] at hchar
    rintro heq
    rw [heq] at hchar
    obtain h | h := hchar
    · exact absurd h (by decide)
    · exact absurd (hmem _ h) (by decide)
  rw [joker]
  simp only [hdrop, skipJokers_run hrun hrest hn]
  by_cases hlong : name.length < n + wildcards run
  · rw [if_pos hlong, if_neg (Nat.not_le.mpr hlong)]
  · rw [if_neg hlong, if_pos (Nat.not_lt.mp hlong)]
    simp only [hm, hdrop']
    by_cases hnil : rest = []
    · have hempty : text rest = [] := by rw [hnil]; rfl
      rw [hempty, List.length_nil, Nat.add_zero] at hmask
      rw [if_pos hnil, if_neg (by simp [hmask]), if_pos hmask.le]
    · have hpos : 0 < (text rest).length := List.length_pos_iff.mpr (hne hnil)
      have hbehind : m ≠ mask.length := by omega
      rw [if_neg hnil]
      by_cases hend : n + wildcards run = name.length
      · rw [if_pos hend, if_pos ⟨hend, hbehind⟩]
      · rw [if_neg hend, if_neg fun h => hend h.1, if_neg (by omega),
          restLength_prev hprev (show starChar ≠ escapeChar by decide)]
        have hescape : (if charAt mask m = escapeChar then m else before.length + run.length) + 1 =
            if charAt mask m = escapeChar then m + 1 else m := by
          split_ifs <;> omega
        rw [hescape]
        have herror : (-(((before.length + run.length : ℕ) : ℤ) + 1)) = -(m : ℤ) := by omega
        by_cases hzero : estimate rest = 0
        · rw [if_pos hzero, ← herror]
          exact if_pos hzero
        · rw [if_neg hzero]
          exact if_neg hzero

/-- The result says whether something is so. -/
def Decides (result : Option ℤ) (p : Prop) : Prop :=
  (result = some 1 ∧ p) ∨ (result = some 0 ∧ ¬ p)

theorem Decides.congr {result : Option ℤ} {p q : Prop} (h : Decides result p) (hpq : p ↔ q) :
    Decides result q :=
  h.imp (fun h => ⟨h.1, hpq.mp h.2⟩) fun h => ⟨h.1, fun hq => h.2 (hpq.mpr hq)⟩

/-- The candidates of a joker: it matches if one of them does. -/
theorem firstHit_decides {loop : ℕ → ℕ → Option ℤ} {candidate : ℕ → Attempt} {p : ℕ → Prop}
    {is : List ℕ} (h : ∀ i ∈ is, (candidate i = .settled 0 ∧ ¬ p i) ∨
      ∃ n m, candidate i = .goOn n m ∧ Decides (loop n m) (p i)) :
    Decides (firstHit loop (is.map candidate)) (∃ i ∈ is, p i) := by
  induction is with
  | nil => exact Or.inr ⟨rfl, by simp⟩
  | cons i is ih =>
    have hrest := ih fun j hj => h j (List.mem_cons_of_mem _ hj)
    have hskip : ¬ p i → ((∃ j ∈ is, p j) ↔ ∃ j ∈ i :: is, p j) := fun hnot => by simp [hnot]
    rw [List.map_cons]
    obtain ⟨hcandidate, hnot⟩ | ⟨n, m, hcandidate, ⟨hloop, hp⟩ | ⟨hloop, hnot⟩⟩ :=
      h i List.mem_cons_self
    · rw [hcandidate]
      exact hrest.congr (hskip hnot)
    · refine Or.inl ⟨?_, i, List.mem_cons_self, hp⟩
      simp [hcandidate, firstHit, hloop]
    · have hnext : firstHit loop (candidate i :: is.map candidate) =
          firstHit loop (is.map candidate) := by
        simp [hcandidate, firstHit, hloop]
      rw [hnext]
      exact hrest.congr (hskip hnot)

theorem mem_candidates {lRest i : ℕ} : i ∈ candidates k lRest n ↔ n ≤ i ∧ i + lRest ≤ k := by
  rw [candidates, List.mem_reverse, List.mem_range'_1]
  omega

theorem text_cons (token : MaskToken) (tokens : List MaskToken) :
    text (token :: tokens) = token.text ++ text tokens :=
  rfl

theorem text_ne_nil (token : MaskToken) : token.text ≠ [] := by
  cases token <;> simp [MaskToken.text]

/-- How a part that is no joker begins. -/
theorem head_token (hwf : token.WellFormed) (hjoker : token.isJoker = false) (s : KsString) :
    ∃ c rest, token.text ++ s = c :: rest ∧ c ≠ starChar ∧ c ≠ questionChar := by
  cases token with
  | star | any => exact absurd hjoker (by decide)
  | literal c => exact ⟨c, s, rfl, hwf.1, hwf.2.1⟩
  | escaped | items | range => exact ⟨_, _, rfl, by decide, by decide⟩

theorem denotes_drop {i : ℕ} (tokens : List MaskToken) (hstar : token ≠ .star) (hi : i < name.length) :
    Denotes (token :: tokens) (name.drop i) ↔
      token.Accepts (charAt name i) ∧ Denotes tokens (name.drop (i + 1)) := by
  have hchar : charAt name i = name[i] := by simp [charAt, hi]
  rw [denotes_cons hstar, List.drop_eq_getElem_cons hi, hchar]
  constructor
  · rintro ⟨c, rest, heq, haccepts, hrest⟩
    obtain ⟨rfl, rfl⟩ := List.cons_eq_cons.mp heq
    exact ⟨haccepts, hrest⟩
  · rintro ⟨haccepts, hrest⟩
    exact ⟨_, _, rfl, haccepts, hrest⟩

theorem takeWhile_isJoker (tokens : List MaskToken) :
    ∀ token ∈ tokens.takeWhile isJoker, token.isJoker = true := fun _ h =>
  List.mem_takeWhile_imp h

/-- Behind a run of jokers there is a part that is none. -/
theorem dropWhile_isJoker (h : tokens.dropWhile isJoker = token :: rest') :
    token.isJoker = false ∧ token ∈ tokens ∧ ∀ t ∈ rest', t ∈ tokens := by
  have hsub : ∀ t ∈ token :: rest', t ∈ tokens := fun t ht =>
    (List.dropWhile_sublist _).subset (h ▸ ht)
  refine ⟨?_, hsub _ List.mem_cons_self, fun t ht => hsub t (List.mem_cons_of_mem _ ht)⟩
  have hhead := List.head?_dropWhile_not isJoker tokens
  simpa [h] using hhead

/-- A mask with a part is not at its end. -/
theorem lt_length_of_ne_nil (before : KsString) (token : MaskToken) (s : KsString) :
    before.length < (before ++ (token.text ++ s)).length := by
  have hpos := List.length_pos_iff.mpr (text_ne_nil token)
  rw [List.length_append, List.length_append]
  omega

/-- Where the name is at its end the mask must be, or have nothing but jokers left. -/
theorem turn_atEnd (hwf : token.WellFormed) (hstar : token ≠ .star) (before rest name : KsString) :
    turn (before ++ (token.text ++ rest)) name name.length before.length = .done 0 := by
  have hlt := lt_length_of_ne_nil before token rest
  have hfirst : charAt (before ++ (token.text ++ rest)) before.length ≠ starChar := by
    rw [charAt_append_zero]
    cases token with
    | star => exact absurd rfl hstar
    | literal c => exact hwf.1
    | any => exact show questionChar ≠ starChar by decide
    | escaped => exact show escapeChar ≠ starChar by decide
    | items | range => exact show openChar ≠ starChar by decide
  rw [turn, if_neg (fun h => Nat.lt_irrefl _ h.1), if_neg fun h => hlt.ne h.2,
    if_neg fun h => hfirst h.2]

theorem turn_star (before rest : KsString) :
    turn (before ++ (MaskToken.text .star ++ rest)) name n before.length =
      joker (before ++ (MaskToken.text .star ++ rest)) name n before.length := by
  have hlt := lt_length_of_ne_nil before .star rest
  have hfirst : charAt (before ++ (MaskToken.text .star ++ rest)) before.length = starChar :=
    charAt_append_zero before _
  rw [turn]
  by_cases hin : n < name.length
  · rw [if_pos ⟨hin, hlt⟩, hfirst]
    rfl
  · rw [if_neg fun h => hin h.1, if_neg fun h => hlt.ne h.2, if_pos ⟨hlt, hfirst⟩]

/-- What the loop does at a star, with the run of jokers behind it. -/
theorem turn_run (name : KsString) (hwf : ∀ token ∈ tokens, token.WellFormed) (hn : n ≤ name.length)
    (before : KsString) :
    let run := tokens.takeWhile isJoker
    let rest := tokens.dropWhile isJoker
    let mask := before ++ text (.star :: tokens)
    let m := (before ++ text (.star :: run)).length
    mask = before ++ text (.star :: run) ++ text rest ∧
    turn mask name n before.length =
      if name.length < n + wildcards run then .done 0
      else if rest = [] then .done 1
      else if n + wildcards run = name.length then .done 0
      else if estimate rest = 0 then .done (-m)
      else .attempts ((candidates name.length (estimate rest) (n + wildcards run)).map
        (attempt mask name (if charAt mask m = escapeChar then m + 1 else m))) := by
  intro run rest mask m
  have htokens : tokens = run ++ rest := List.takeWhile_append_dropWhile.symm
  have hmask : mask = before ++ text (.star :: run) ++ text rest := by
    rw [List.append_assoc, ← text_append, List.cons_append, ← htokens]
  have hrest : ∀ c ∈ (text rest).head?, c ≠ starChar ∧ c ≠ questionChar := by
    intro c hc
    cases hrest : rest with
    | nil => exact absurd hc (by simp [hrest, text])
    | cons token rest' =>
      obtain ⟨hjoker, hmem, -⟩ := dropWhile_isJoker hrest
      obtain ⟨d, s, htext, hs, hq⟩ := head_token (hwf token hmem) hjoker (text rest')
      rw [hrest, text_cons, htext] at hc
      obtain rfl := Option.some.inj hc
      exact ⟨hs, hq⟩
  have hne : rest ≠ [] → text rest ≠ [] := by
    intro hrest
    obtain ⟨token, rest', heq⟩ := List.exists_cons_of_ne_nil hrest
    rw [heq, text_cons]
    exact fun h => text_ne_nil token (List.append_eq_nil_iff.mp h).1
  refine ⟨hmask, (turn_star before (text tokens)).trans ?_⟩
  have hjoker := joker_run (takeWhile_isJoker tokens) hrest hne before name hn
  rw [← hmask] at hjoker
  exact hjoker

/-- The candidates behind a run of jokers, if the rest of the mask is matched as it should be. -/
theorem attempts_decide (name : KsString) (loop : ℕ → ℕ → Option ℤ) (hwf : token.WellFormed)
    (hjoker : token.isJoker = false) (hcomplement : token.isComplement = false)
    (hsafe : RestSafe (token :: rest')) (before : KsString)
    (hloop : ∀ i < name.length, Decides (loop (i + 1) (before.length + token.text.length))
      (Denotes rest' (name.drop (i + 1)))) (start : ℕ) :
    let mask := before ++ text (token :: rest')
    let m := if charAt mask before.length = escapeChar then before.length + 1 else before.length
    Decides (firstHit loop ((candidates name.length (estimate (token :: rest')) start).map
        (attempt mask name m)))
      (∃ i, start ≤ i ∧ i ≤ name.length ∧ Denotes (token :: rest') (name.drop i)) := by
  intro mask m
  obtain hnil | ⟨hescaped, hpos, hestimate⟩ := hsafe
  · exact absurd hnil (by simp)
  have hstar : token ≠ .star := by
    rintro rfl
    exact absurd hjoker (by decide)
  have hdecides : Decides (firstHit loop ((candidates name.length (estimate (token :: rest'))
      start).map (attempt mask name m)))
      (∃ i ∈ candidates name.length (estimate (token :: rest')) start,
        Denotes (token :: rest') (name.drop i)) := by
    refine firstHit_decides fun i hi => ?_
    have hlt : i < name.length := by
      have hle := (mem_candidates.mp hi).2
      omega
    have hdrop := denotes_drop rest' hstar hlt
    obtain ⟨haccepts, hattempt⟩ | ⟨hnot, hattempt⟩ := attempt_token hwf hjoker hcomplement
      (fun h => hescaped (congrArg some h)) before (text rest') name i
    · refine Or.inr ⟨_, _, hattempt, (hloop i hlt).congr ?_⟩
      rw [hdrop]
      exact (and_iff_right haccepts).symm
    · exact Or.inl ⟨hattempt, fun h => hnot (hdrop.mp h).1⟩
  refine hdecides.congr ⟨?_, ?_⟩
  · rintro ⟨i, hi, h⟩
    have hbounds := mem_candidates.mp hi
    exact ⟨i, hbounds.1, by omega, h⟩
  · rintro ⟨i, hstart, hi, h⟩
    have hlength := h.minLength_le
    rw [List.length_drop] at hlength
    exact ⟨i, mem_candidates.mpr ⟨hstart, by omega⟩, h⟩

theorem Safe.of_dropWhile (h : Safe tokens) (hdropped : tokens.dropWhile isJoker = token :: rest') :
    token.isComplement = false ∧ Safe rest' := by
  induction tokens with
  | nil => exact absurd hdropped (by simp)
  | cons t tokens ih =>
    cases t with
    | star => exact ih h.2 hdropped
    | any => exact ih h.2 hdropped
    | literal | escaped | items | range =>
      obtain ⟨rfl, rfl⟩ := List.cons_eq_cons.mp hdropped
      exact h

theorem text_star_dropWhile (hdropped : tokens.dropWhile isJoker = token :: rest') :
    text (.star :: tokens) =
      text (.star :: tokens.takeWhile isJoker) ++ token.text ++ text rest' := by
  rw [List.append_assoc, ← text_cons, ← hdropped, ← text_append, List.cons_append,
    List.takeWhile_append_dropWhile]

/-- A star, if what is behind its run of jokers is matched as it should be. -/
theorem star_decides {loop : ℕ → ℕ → Option ℤ} (hwf : ∀ token ∈ tokens, token.WellFormed)
    (hrest : RestSafe (tokens.dropWhile isJoker)) (hsafe : Safe tokens) (hn : n ≤ name.length)
    (before : KsString)
    (hloop : ∀ token rest', tokens.dropWhile isJoker = token :: rest' → ∀ i < name.length,
      Decides (loop (i + 1) (before.length +
          ((text (.star :: tokens.takeWhile isJoker)).length + token.text.length)))
        (Denotes rest' (name.drop (i + 1)))) :
    Decides (match turn (before ++ text (.star :: tokens)) name n before.length with
      | .done r => some r
      | .goOn n m => loop n m
      | .attempts as => firstHit loop as) (Denotes (.star :: tokens) (name.drop n)) := by
  obtain ⟨hmask, hturn⟩ := turn_run name hwf hn before
  have htokens : tokens.takeWhile isJoker ++ tokens.dropWhile isJoker = tokens :=
    List.takeWhile_append_dropWhile
  have hdenotes := denotes_star_run (tokens.dropWhile isJoker) (takeWhile_isJoker tokens)
    (name.drop n)
  simp only [htokens, List.length_drop, List.drop_drop] at hdenotes
  rw [hturn]
  by_cases hlong : name.length < n + wildcards (tokens.takeWhile isJoker)
  · rw [if_pos hlong]
    refine Or.inr ⟨rfl, fun h => ?_⟩
    obtain ⟨i, hwild, hi, -⟩ := hdenotes.mp h
    omega
  rw [if_neg hlong]
  cases hdropped : tokens.dropWhile isJoker with
  | nil =>
    rw [if_pos rfl]
    refine Or.inl ⟨rfl, hdenotes.mpr ⟨name.length - n, by omega, le_rfl, ?_⟩⟩
    rw [hdropped]
    exact List.drop_eq_nil_of_le (by omega)
  | cons token rest' =>
    rw [hdropped] at hrest hdenotes hmask
    obtain ⟨hjoker, hmem, -⟩ := dropWhile_isJoker hdropped
    obtain hnil | ⟨-, hpos, hestimate⟩ := id hrest
    · exact absurd hnil (List.cons_ne_nil _ _)
    rw [if_neg (List.cons_ne_nil _ _)]
    by_cases hend : n + wildcards (tokens.takeWhile isJoker) = name.length
    · rw [if_pos hend]
      refine Or.inr ⟨rfl, fun h => ?_⟩
      obtain ⟨i, hwild, -, h⟩ := hdenotes.mp h
      have hlength := h.minLength_le
      rw [List.length_drop] at hlength
      omega
    rw [if_neg hend, if_neg hpos.ne']
    have hattempts := attempts_decide name loop (hwf token hmem) hjoker
      (hsafe.of_dropWhile hdropped).1 hrest (before ++ text (.star :: tokens.takeWhile isJoker))
      (fun i hi => by
        rw [List.length_append, Nat.add_assoc]
        exact hloop token rest' hdropped i hi) (n + wildcards (tokens.takeWhile isJoker))
    rw [← hmask] at hattempts
    refine hattempts.congr ⟨?_, ?_⟩
    · rintro ⟨i, hstart, hi, h⟩
      refine hdenotes.mpr ⟨i - n, by omega, by omega, ?_⟩
      rwa [Nat.add_sub_cancel' (by omega)]
    · intro h
      obtain ⟨i, hwild, hi, h⟩ := hdenotes.mp h
      exact ⟨n + i, by omega, by omega, h⟩

/-- A safe mask is matched by what it stands for, wherever the loop has come to. -/
theorem mLoop_decides (name : KsString) {fuel : ℕ} (hwf : ∀ token ∈ tokens, token.WellFormed)
    (hsafe : Safe tokens) (hfuel : (text tokens).length < fuel) (hn : n ≤ name.length) (before : KsString) :
    Decides (mLoop (before ++ text tokens) name fuel n before.length)
      (Denotes tokens (name.drop n)) := by
  induction fuel generalizing tokens n before with
  | zero => exact absurd hfuel (Nat.not_lt_zero _)
  | succ fuel ih =>
    cases tokens with
    | nil =>
      have hend : turn (before ++ text []) name n before.length =
          if n = name.length then .done 1 else .done 0 := by
        simp [turn, text]
      rw [mLoop, hend]
      by_cases hlast : n = name.length
      · rw [if_pos hlast]
        exact Or.inl ⟨rfl, List.drop_eq_nil_of_le hlast.ge⟩
      · rw [if_neg hlast]
        refine Or.inr ⟨rfl, fun h => hlast (Nat.le_antisymm hn ?_)⟩
        exact List.drop_eq_nil_iff.mp h
    | cons token tokens =>
      have hwf' : ∀ t ∈ tokens, t.WellFormed := fun t ht => hwf t (List.mem_cons_of_mem _ ht)
      by_cases hstar : token = .star
      · subst hstar
        rw [mLoop]
        refine star_decides hwf' hsafe.1 hsafe.2 hn before fun token rest' hdropped i hi => ?_
        obtain ⟨hjoker, -, hmem⟩ := dropWhile_isJoker hdropped
        have htext := congrArg List.length (text_star_dropWhile hdropped)
        have hpos := List.length_pos_iff.mpr (text_ne_nil token)
        simp only [List.length_append] at htext
        have hnext := ih (fun t ht => hwf' t (hmem t ht)) (hsafe.2.of_dropWhile hdropped).2
          (by omega) hi (before ++ text (.star :: tokens.takeWhile isJoker) ++ token.text)
        rwa [List.append_assoc, List.append_assoc, ← List.append_assoc (text _),
          ← text_star_dropWhile hdropped, List.length_append, List.length_append,
          Nat.add_assoc] at hnext
      · have hsafe' : token.isComplement = false ∧ Safe tokens := by
          cases token with
          | star => exact absurd rfl hstar
          | any | literal | escaped | items | range => exact hsafe
        have hfuel' : (text tokens).length < fuel := by
          have hpos := List.length_pos_iff.mpr (text_ne_nil token)
          rw [text_cons, List.length_append] at hfuel
          omega
        rw [mLoop, text_cons]
        by_cases hlast : n = name.length
        · subst hlast
          rw [turn_atEnd (hwf token List.mem_cons_self) hstar]
          refine Or.inr ⟨rfl, fun h => ?_⟩
          obtain ⟨c, rest, hnil, -⟩ := (denotes_cons hstar tokens _).mp h
          rw [List.drop_length] at hnil
          exact absurd hnil (by simp)
        · have hlt : n < name.length := Nat.lt_of_le_of_ne hn hlast
          have hdrop := denotes_drop tokens hstar hlt
          obtain ⟨haccepts, hturn⟩ | ⟨hnot, hturn⟩ := turn_token
            (hwf token List.mem_cons_self) hstar hsafe'.1 hlt before (text tokens)
          · have hnext := ih hwf' hsafe'.2 hfuel' hlt (before ++ token.text)
            rw [List.append_assoc, List.length_append] at hnext
            rw [hturn]
            exact hnext.congr (by rw [hdrop]; exact (and_iff_right haccepts).symm)
          · rw [hturn]
            exact Or.inr ⟨rfl, fun h => hnot (hdrop.mp h).1⟩

end AcpltKs.KsMask
