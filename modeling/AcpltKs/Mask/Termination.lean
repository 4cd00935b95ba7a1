import AcpltKs.Mask.Basic
import Mathlib.Logic.Relation

/-! Matching comes to an end unless it comes to a set that makes no progress. -/
namespace AcpltKs.KsMask

variable {mask name : KsString} {n m n' m' : ℕ}

/-- At this `[` the loop makes no progress: the set is malformed, or it is a complement and the
character is none of its items. -/
def NoProgress (mask name : KsString) (n m : ℕ) : Prop :=
  n < name.length ∧ m < mask.length ∧ charAt mask m = openChar ∧
    (mask.length ≤ m + 2 ∨
      (charAt mask (m + 1) ≠ caretChar ∧ setContains mask (m + 1) (charAt name n) = none) ∨
      (charAt mask (m + 1) = caretChar ∧
        ∀ next, setContains mask (m + 2) (charAt name n) ≠ some (true, next)))

theorem setContains_lt {start next : ℕ} {c : UInt8} {b : Bool}
    (h : setContains mask start c = some (b, next)) : start < next := by
  simp only [setContains] at h
  split_ifs at h
  · obtain ⟨_, -, heq⟩ := Option.map_eq_some_iff.mp h
    have hnext := (Prod.mk.inj heq).2
    omega
  · have hnext := (Prod.mk.inj (Option.some.inj h)).2
    omega

/-- A set that lets the loop go on ends behind where it begins, unless it makes no progress. -/
theorem set_cases (hn : n < name.length) (hm : m < mask.length) (hopen : charAt mask m = openChar) :
    (NoProgress mask name n m ∧ ∃ r, r ≠ 0 ∧ set mask name n m = (r, n, m)) ∨
      (¬ NoProgress mask name n m ∧
        ((set mask name n m).1 = 0 ∨ m < (set mask name n m).2.2)) := by
  have hneg : (-((m : ℤ) + 1)) ≠ 0 := by omega
  by_cases hshort : mask.length ≤ m + 2
  · exact Or.inl ⟨⟨hn, hm, hopen, Or.inl hshort⟩, _, hneg, if_pos hshort⟩
  · by_cases hcaret : charAt mask (m + 1) = caretChar
    · cases hset : setContains mask (m + 2) (charAt name n) with
      | none =>
        refine Or.inl ⟨⟨hn, hm, hopen, Or.inr (Or.inr ⟨hcaret, by simp [hset]⟩)⟩, _, hneg, ?_⟩
        simp [set, hshort, hcaret, hset]
      | some found =>
        obtain ⟨b, next⟩ := found
        cases b with
        | false =>
          refine Or.inl ⟨⟨hn, hm, hopen, Or.inr (Or.inr ⟨hcaret, by simp [hset]⟩)⟩, 1, by decide, ?_⟩
          simp [set, hshort, hcaret, hset]
        | true =>
          refine Or.inr ⟨?_, Or.inl (by simp [set, hshort, hcaret, hset])⟩
          rintro ⟨-, -, -, hlen | ⟨hne, -⟩ | ⟨-, hnone⟩⟩
          · exact hshort hlen
          · exact hne hcaret
          · exact hnone next hset
    · cases hset : setContains mask (m + 1) (charAt name n) with
      | none =>
        refine Or.inl ⟨⟨hn, hm, hopen, Or.inr (Or.inl ⟨hcaret, hset⟩)⟩, _, hneg, ?_⟩
        simp [set, hshort, hcaret, hset]
      | some found =>
        have hnot : ¬ NoProgress mask name n m := by
          rintro ⟨-, -, -, hlen | ⟨-, hnone⟩ | ⟨heq, -⟩⟩
          · exact hshort hlen
          · exact absurd (hset.symm.trans hnone) (by simp)
          · exact hcaret heq
        obtain ⟨b, next⟩ := found
        have hlt := setContains_lt hset
        cases b with
        | false => exact Or.inr ⟨hnot, Or.inl (by simp [set, hshort, hcaret, hset])⟩
        | true =>
          refine Or.inr ⟨hnot, Or.inr ?_⟩
          simp only [set, hshort, if_false, ne_eq, hcaret, not_false_eq_true, if_true, hset]
          omega

theorem skipJokers_le {k : ℕ} {rest : KsString} (h : skipJokers k rest n m = some (n', m')) :
    m ≤ m' := by
  fun_induction skipJokers k rest n m with
  | case1 => exact (Prod.mk.inj (Option.some.inj h)).2.le
  | case2 rest n m hn ih => exact (Nat.le_succ m).trans (ih h)
  | case3 => exact absurd h (by simp)
  | case4 rest n m hne ih => exact (Nat.le_succ m).trans (ih h)
  | case5 => exact (Prod.mk.inj (Option.some.inj h)).2.le

theorem set_le (name : KsString) (n : ℕ) : m ≤ (set mask name n m).2.2 := by
  simp only [set]
  split_ifs
  · exact le_rfl
  · split
    · exact le_rfl
    · rename_i hset
      have hlt := setContains_lt hset
      simp only
      omega
    · exact le_rfl
  · split
    · exact le_rfl
    · rename_i hset
      have hlt := setContains_lt hset
      simp only
      omega
    · exact le_rfl

theorem attempt_le {i : ℕ} (h : attempt mask name m i = .goOn n' m') : m ≤ m' := by
  simp only [attempt] at h
  split_ifs at h
  · obtain ⟨-, rfl⟩ := Attempt.goOn.inj h
    exact Nat.le_succ m
  · obtain ⟨-, rfl⟩ := Attempt.goOn.inj h
    exact set_le name i

/-- A joker goes on behind itself. -/
theorem joker_lt {as : List Attempt} (h : joker mask name n m = .attempts as)
    (hmem : Attempt.goOn n' m' ∈ as) : m < m' := by
  simp only [joker] at h
  split at h
  · exact absurd h (by simp)
  · rename_i n₁ m₁ hskip
    have hle := skipJokers_le hskip
    split_ifs at h <;>
    · obtain rfl := Turn.attempts.inj h
      obtain ⟨i, -, hi⟩ := List.mem_map.mp hmem
      have hlt := attempt_le hi
      omega

theorem joker_ne_goOn : joker mask name n m ≠ .goOn n' m' := by
  simp only [joker]
  split
  · simp
  · split_ifs <;> simp

/-- A turn goes on further behind in the mask, unless it makes no progress. -/
theorem turn_goOn (h : turn mask name n m = .goOn n' m') :
    m < m' ∨ (NoProgress mask name n m ∧ n' = n ∧ m' = m) := by
  simp only [turn] at h
  split_ifs at h with hin hopen hzero <;> try exact absurd h joker_ne_goOn
  · obtain ⟨hstuck, r, -, hset⟩ | ⟨-, hnone | hlt⟩ := set_cases hin.1 hin.2 hopen
    · rw [hset] at h
      obtain ⟨rfl, rfl⟩ := Turn.goOn.inj h
      exact Or.inr ⟨hstuck, rfl, rfl⟩
    · exact absurd hnone hzero
    · obtain ⟨-, rfl⟩ := Turn.goOn.inj h
      exact Or.inl hlt
  all_goals
    obtain ⟨-, rfl⟩ := Turn.goOn.inj h
    exact Or.inl (by omega)

theorem turn_attempts {as : List Attempt} (h : turn mask name n m = .attempts as)
    (hmem : Attempt.goOn n' m' ∈ as) : m < m' := by
  simp only [turn] at h
  split_ifs at h <;> exact joker_lt h hmem

/-- A turn that makes no progress is followed by the same turn. -/
theorem turn_noProgress (h : NoProgress mask name n m) : turn mask name n m = .goOn n m := by
  obtain ⟨-, r, hr, hset⟩ | ⟨hnot, -⟩ := set_cases h.1 h.2.1 h.2.2.1
  · simp [turn, h.1, h.2.1, h.2.2.1, hset, hr]
  · exact absurd h hnot

/-- With more fuel the result stays the same. -/
theorem firstHit_mono {loop loop' : ℕ → ℕ → Option ℤ}
    (hloop : ∀ n m r, loop n m = some r → loop' n m = some r) {as : List Attempt} {r : ℤ}
    (h : firstHit loop as = some r) : firstHit loop' as = some r := by
  induction as with
  | nil => exact h
  | cons a as ih =>
    cases a with
    | settled r' =>
      simp only [firstHit] at h ⊢
      split_ifs at h ⊢ with hr
      · exact h
      · exact ih h
    | goOn n m =>
      obtain ⟨r', hr', h⟩ := Option.bind_eq_some_iff.mp h
      simp only [firstHit, hloop n m r' hr', Option.bind_eq_bind, Option.bind_some]
      split_ifs at h ⊢ with hr
      · exact h
      · exact ih h

theorem mLoop_mono {fuel fuel' : ℕ} (hle : fuel ≤ fuel') {r : ℤ}
    (h : mLoop mask name fuel n m = some r) : mLoop mask name fuel' n m = some r := by
  induction fuel generalizing fuel' n m r with
  | zero => exact absurd h (by simp [mLoop])
  | succ fuel ih =>
    obtain ⟨fuel', rfl⟩ := Nat.exists_eq_add_of_le' (Nat.succ_le_of_lt (Nat.lt_of_lt_of_le
      (Nat.succ_pos fuel) hle))
    have hle' : fuel ≤ fuel' := Nat.le_of_succ_le_succ hle
    rw [mLoop] at h ⊢
    cases hturn : turn mask name n m with
    | done r' => simpa [hturn] using h
    | goOn n' m' =>
      rw [hturn] at h
      exact ih hle' h
    | attempts as =>
      rw [hturn] at h
      exact firstHit_mono (fun n m r hr => ih hle' hr) h

/-- A candidate that has been tried without success. -/
def Fails (mask name : KsString) : Attempt → Prop
  | .settled r => r = 0
  | .goOn n m => ∃ fuel, mLoop mask name fuel n m = some 0

/-- The loop comes from the first pair of indices to the second one: with its next turn, or when it
is entered again for a candidate of a joker after those before have failed. -/
inductive GoesOn (mask name : KsString) : ℕ × ℕ → ℕ × ℕ → Prop
  | turn {n m n' m' : ℕ} (h : turn mask name n m = .goOn n' m') : GoesOn mask name (n, m) (n', m')
  | attempt {n m n' m' : ℕ} {before after : List Attempt}
      (h : KsMask.turn mask name n m = .attempts (before ++ .goOn n' m' :: after))
      (hbefore : ∀ a ∈ before, Fails mask name a) : GoesOn mask name (n, m) (n', m')

/-- The indices the loop comes to. -/
def ComesTo (mask name : KsString) : ℕ × ℕ → ℕ × ℕ → Prop :=
  Relation.ReflTransGen (GoesOn mask name)

theorem firstHit_fails (fuel : ℕ) {before : List Attempt} (as : List Attempt)
    (hbefore : ∀ a ∈ before, Fails mask name a) :
    firstHit (mLoop mask name fuel) (before ++ as) = none ∨
      firstHit (mLoop mask name fuel) (before ++ as) = firstHit (mLoop mask name fuel) as := by
  induction before with
  | nil => exact Or.inr rfl
  | cons a before ih =>
    have hrest := ih fun a ha => hbefore a (List.mem_cons_of_mem _ ha)
    have hfirst := hbefore a List.mem_cons_self
    cases a with
    | settled r =>
      obtain rfl : r = 0 := hfirst
      simpa [firstHit] using hrest
    | goOn n m =>
      obtain ⟨fuel', hzero⟩ := hfirst
      rw [List.cons_append, firstHit]
      cases hloop : mLoop mask name fuel n m with
      | none => exact Or.inl rfl
      | some r =>
        have hr := (mLoop_mono (Nat.le_max_left fuel fuel') hloop).symm.trans
          (mLoop_mono (Nat.le_max_right fuel fuel') hzero)
        obtain rfl := Option.some.inj hr
        simpa using hrest

/-- No result comes from where the loop goes on without an end. -/
theorem GoesOn.diverges {p q : ℕ × ℕ} (h : GoesOn mask name p q)
    (hq : ∀ fuel, mLoop mask name fuel q.1 q.2 = none) (fuel : ℕ) :
    mLoop mask name fuel p.1 p.2 = none := by
  cases fuel with
  | zero => rfl
  | succ fuel =>
    cases h with
    | turn h =>
      rw [mLoop, h]
      exact hq fuel
    | attempt h hbefore =>
      rw [mLoop, h]
      obtain hnone | hrest := firstHit_fails fuel _ hbefore
      · exact hnone
      · refine hrest.trans ?_
        simp [firstHit, hq fuel]

theorem ComesTo.diverges {p q : ℕ × ℕ} (h : ComesTo mask name p q)
    (hq : ∀ fuel, mLoop mask name fuel q.1 q.2 = none) (fuel : ℕ) :
    mLoop mask name fuel p.1 p.2 = none := by
  induction h using Relation.ReflTransGen.head_induction_on generalizing fuel with
  | refl => exact hq fuel
  | head hstep _ ih => exact hstep.diverges ih fuel

theorem noProgress_diverges (h : NoProgress mask name n m) (fuel : ℕ) :
    mLoop mask name fuel n m = none := by
  induction fuel with
  | zero => rfl
  | succ fuel ih =>
    rw [mLoop, turn_noProgress h]
    exact ih

/-- A list of candidates is worked off if each of those that are tried comes to an end. -/
theorem firstHit_returns {fuel : ℕ} {as : List Attempt}
    (h : ∀ before n m after, as = before ++ .goOn n m :: after →
      (∀ a ∈ before, Fails mask name a) → ∃ r, mLoop mask name fuel n m = some r) :
    ∃ r, firstHit (mLoop mask name fuel) as = some r := by
  induction as with
  | nil => exact ⟨0, rfl⟩
  | cons a as ih =>
    cases a with
    | settled r =>
      by_cases hr : r = 0
      · subst hr
        refine ih (fun before n m after has hbefore => h (.settled 0 :: before) n m after
          (by rw [has]; rfl) fun a ha => ?_)
        obtain rfl | ha := List.mem_cons.mp ha
        · rfl
        · exact hbefore a ha
      · exact ⟨r, by simp [firstHit, hr]⟩
    | goOn n m =>
      obtain ⟨r, hloop⟩ := h [] n m as rfl fun a ha => absurd ha List.not_mem_nil
      by_cases hr : r = 0
      · subst hr
        obtain ⟨r, hrest⟩ := ih fun before n' m' after has hbefore => h (.goOn n m :: before) n' m'
          after (by rw [has]; rfl) fun a ha => by
            obtain rfl | ha := List.mem_cons.mp ha
            · exact ⟨fuel, hloop⟩
            · exact hbefore a ha
        exact ⟨r, by simpa [firstHit, hloop] using hrest⟩
      · exact ⟨r, by simp [firstHit, hloop, hr]⟩

/-- Behind the mask the loop ends. -/
theorem turn_behind (name : KsString) (n : ℕ) (h : mask.length ≤ m) :
    ∃ r, turn mask name n m = .done r := by
  simp only [turn, Nat.not_lt.mpr h, and_false, false_and, if_false]
  split_ifs
  · exact ⟨1, rfl⟩
  · exact ⟨0, rfl⟩

/-- As many turns as there are characters left in the mask suffice if all of them make progress. -/
theorem mLoop_returns {fuel : ℕ} (hpos : 0 < fuel) (hfuel : mask.length < fuel + m)
    (h : ∀ q, ComesTo mask name (n, m) q → ¬ NoProgress mask name q.1 q.2) :
    ∃ r, mLoop mask name fuel n m = some r := by
  induction fuel generalizing n m with
  | zero => exact absurd hpos (Nat.lt_irrefl 0)
  | succ fuel ih =>
    have hnext : ∀ n' m', m < m' → m < mask.length → GoesOn mask name (n, m) (n', m') →
        ∃ r, mLoop mask name fuel n' m' = some r := fun n' m' hlt hm hstep =>
      ih (by omega) (by omega) fun q hq => h q (hq.head hstep)
    by_cases hm : mask.length ≤ m
    · obtain ⟨r, hdone⟩ := turn_behind name n hm
      exact ⟨r, by rw [mLoop, hdone]⟩
    · rw [mLoop]
      cases hturn : turn mask name n m with
      | done r => exact ⟨r, rfl⟩
      | goOn n' m' =>
        obtain hlt | ⟨hstuck, -⟩ := turn_goOn hturn
        · exact hnext n' m' hlt (Nat.not_le.mp hm) (.turn hturn)
        · exact absurd hstuck (h (n, m) .refl)
      | attempts as =>
        refine firstHit_returns fun before n' m' after has hbefore => ?_
        have hmem : Attempt.goOn n' m' ∈ as := by simp [has]
        have hlt := turn_attempts hturn hmem
        rw [has] at hturn
        exact hnext n' m' hlt (Nat.not_le.mp hm) (.attempt hturn hbefore)

/-- Matching returns exactly if it comes to no set that makes no progress. -/
theorem doesMatch_returns_iff : (∃ fuel r, doesMatch mask name fuel = some r) ↔
    ∀ n m, ComesTo mask (cString name) (0, 0) (n, m) → ¬ NoProgress mask (cString name) n m := by
  constructor
  · rintro ⟨fuel, r, hr⟩ n m hcomes hstuck
    have hnone := hcomes.diverges (noProgress_diverges hstuck) fuel
    exact absurd (hr.symm.trans hnone) (by simp)
  · intro h
    have hreturns : ∃ r, mLoop mask (cString name) (mask.length + 1) 0 0 = some r :=
      mLoop_returns (Nat.succ_pos _) (by omega) fun q hq => h q.1 q.2 hq
    exact ⟨mask.length + 1, hreturns⟩

/-- The mask `[` and the name `a`. -/
theorem not_returns_openBracket :
    ¬ ∀ mask name : KsString, ∃ fuel r, doesMatch mask name fuel = some r := by
  intro h
  obtain ⟨fuel, r, hr⟩ := h [91] [97]
  have hstuck : NoProgress [91] [97] 0 0 :=
    ⟨by decide, by decide, by decide, Or.inl (by decide)⟩
  exact absurd (hr.symm.trans (noProgress_diverges hstuck fuel)) (by simp)

end AcpltKs.KsMask
