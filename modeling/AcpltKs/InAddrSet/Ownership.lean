import AcpltKs.InAddrSet.Basic

/-! The array of an address set belongs to it for as long as the set is not emptied: what holds of
it then, and what an emptied set comes to. -/
namespace AcpltKs
open MemoryBlocks

/-- The inclusion flag of the first item that matches -/
def firstMatch (xs : List InAddrItem) (addr : UInt32) : Bool :=
  ((xs.find? (·.matches addr)).map (·.incl)).getD false

theorem firstMatch_cons (x : InAddrItem) (xs : List InAddrItem) (addr : UInt32) :
    firstMatch (x :: xs) addr = if x.matches addr then x.incl else firstMatch xs addr := by
  unfold firstMatch
  rw [List.find?_cons]
  cases x.matches addr <;> rfl

namespace KsInAddrSetBase

/-- The array has the number of entries it is thought to have, and the `xs` are the first of them;
beside it everything is as in `m₀`. -/
structure Keeps (m₀ : Memory InAddrItem) (s : KsInAddrSetBase) (xs : List InAddrItem) : Prop where
  owns : m₀.Owns s.memory s.items xs s.itemsAllocated.toInt.toNat
  used : s.itemsUsed.toInt = xs.length
  fits : (xs.length : ℤ) ≤ s.itemsAllocated.toInt
  null_iff : s.items = none ↔ s.itemsAllocated = 0

/-- The pointer is to an array that was given back. -/
def Dangling (s : KsInAddrSetBase) : Prop := ∃ p, s.items = some p ∧ s.memory.block p = none

variable {m₀ : Memory InAddrItem} {s : KsInAddrSetBase} {xs : List InAddrItem}

/-- Twice as many entries, or more than any memory has -/
theorem arraySize_double {a : Int32} (ha : 0 < a.toInt) :
    sizeLimit < arraySize (a * 2) ∨
      (a * 2).toInt = 2 * a.toInt ∧ arraySize (a * 2) / itemSize = (a * 2).toInt.toNat := by
  have hlt := Int32.toInt_lt a
  have hmul : (a * 2).toInt = if a.toInt * 2 % 4294967296 < 2147483648
      then a.toInt * 2 % 4294967296 else a.toInt * 2 % 4294967296 - 4294967296 := by
    rw [Int32.toInt_mul, Int.bmod_def]
    rfl
  have hitem : itemSize = 12 := rfl
  have hlimit : sizeLimit = 9223372036854775807 := rfl
  have hsize : arraySize (a * 2) = (12 * (a * 2).toInt % 18446744073709551616).toNat := rfl
  rcases Int.lt_or_le a.toInt 1073741824 with hsmall | hlarge
  · right
    have hdouble : (a * 2).toInt = 2 * a.toInt := by
      rw [hmul]
      split <;> omega
    rw [hsize, hdouble, hitem, Int.emod_eq_of_lt (by omega) (by omega)]
    omega
  · left
    have hwrapped : (a * 2).toInt = 2 * a.toInt - 4294967296 := by
      rw [hmul]
      split <;> omega
    rw [hsize, hwrapped, hlimit, Int.emod_eq_add_self_emod,
      Int.emod_eq_of_lt (by omega) (by omega)]
    omega

theorem create_keeps (m₀ : Memory InAddrItem) : (create m₀).Keeps m₀ [] where
  owns := .init m₀
  used := rfl
  fits := Int.le_refl 0
  null_iff := ⟨fun _ => rfl, fun _ => rfl⟩

theorem Keeps.fillIn (h : s.Keeps m₀ xs) (hlt : (xs.length : ℤ) < s.itemsAllocated.toInt)
    (x : InAddrItem) :
    ∃ s', s.fillIn x = some (true, s') ∧ s'.Keeps m₀ (xs ++ [x]) ∧ s'.items ≠ none := by
  cases hitems : s.items with
  | none =>
    rw [h.null_iff.mp hitems] at hlt
    exact absurd hlt (by simp)
  | some p =>
    have howns := h.owns
    rw [hitems] at howns
    obtain ⟨m', hstore, howns'⟩ := howns.store (by omega) x
    refine ⟨{ s with memory := m', itemsUsed := s.itemsUsed + 1 }, ?_, ?_, ?_⟩
    · unfold KsInAddrSetBase.fillIn
      rw [hitems, h.used, Option.bind_some]
      change Option.map _ (s.memory.store p xs.length x) = _
      rw [hstore]
      rfl
    · constructor
      · change m₀.Owns m' s.items _ _
        rw [hitems]
        exact howns'
      · change (s.itemsUsed + 1).toInt = _
        have hbound := Int32.toInt_lt s.itemsAllocated
        rw [Int32.toInt_add, h.used, List.length_append]
        apply Int.bmod_eq_of_le_mul_two <;> simp <;> omega
      · change ((xs ++ [x]).length : ℤ) ≤ s.itemsAllocated.toInt
        rw [List.length_append, List.length_singleton]
        omega
      · exact h.null_iff
    · change s.items ≠ none
      rw [hitems]
      exact Option.some_ne_none p

/-- The number of entries there are to be when there is no free one -/
def grown (a : Int32) : Int32 := if a = 0 then 1 else a * 2

/-- Where the larger array can be had at all it has the entries it is thought to have. -/
theorem grown_spec {a : Int32} (ha : 0 ≤ a.toInt) (hsize : arraySize (grown a) ≤ sizeLimit) :
    a.toInt < (grown a).toInt ∧ arraySize (grown a) / itemSize = (grown a).toInt.toNat := by
  unfold grown at *
  by_cases hzero : a = 0
  · rw [hzero, if_pos rfl]
    decide
  · rw [if_neg hzero] at *
    have hpos : 0 < a.toInt := by
      have hne : a.toInt ≠ 0 := fun h => hzero (Int32.toInt_inj.mp h)
      omega
    rcases arraySize_double hpos with hlimit | ⟨hdouble, hcells⟩
    · omega
    · exact ⟨by omega, hcells⟩

/-- The larger array has been got, and there is room in it. -/
theorem Keeps.grow (h : s.Keeps m₀ xs) (hsize : arraySize (grown s.itemsAllocated) ≤ sizeLimit) :
    ∃ q m', s.memory.realloc s.items (arraySize (grown s.itemsAllocated) / itemSize) true =
        some (some q, m') ∧
      Keeps m₀ { s with memory := m', items := some q, itemsAllocated := grown s.itemsAllocated }
        xs ∧ (xs.length : ℤ) < (grown s.itemsAllocated).toInt := by
  have hfits := h.fits
  obtain ⟨hlt, hcells⟩ := grown_spec (by omega) hsize
  rw [hcells]
  obtain ⟨q, m', hrealloc, howns⟩ := h.owns.realloc (Int.toNat_le_toNat (Int.le_of_lt hlt))
  refine ⟨q, m', hrealloc, ?_, by omega⟩
  constructor
  · exact howns
  · exact h.used
  · change (xs.length : ℤ) ≤ (grown s.itemsAllocated).toInt
    omega
  · refine ⟨fun hnull => absurd hnull (Option.some_ne_none q), fun hzero => ?_⟩
    change grown s.itemsAllocated = 0 at hzero
    rw [hzero] at hlt
    change _ < (0 : ℤ) at hlt
    omega

/-- An item is added, or the set is left as it was; the first one is added whenever it is
proper and memory is granted. -/
theorem Keeps.addItem_cases (h : s.Keeps m₀ xs) (addr mask : UInt32) (incl granted : Bool) :
    s.addItem addr mask incl granted = some (false, s) ∧
        (s.items = none → ¬ (addr &&& ~~~mask = 0 ∧ granted = true)) ∨
      ∃ s', s.addItem addr mask incl granted = some (true, s') ∧
        s'.Keeps m₀ (xs ++ [⟨addr, mask, incl⟩]) ∧ s'.items ≠ none ∧
        (s.items = none → addr &&& ~~~mask = 0 ∧ granted = true) := by
  unfold addItem
  by_cases hproper : addr &&& ~~~mask = 0
  swap
  · left
    rw [if_pos hproper]
    exact ⟨rfl, fun _ hstored => hproper hstored.1⟩
  rw [if_neg (not_not_intro hproper)]
  by_cases hfull : s.itemsUsed ≥ s.itemsAllocated
  swap
  · right
    rw [if_neg hfull]
    have hlt := Int32.not_le.mp hfull
    rw [Int32.lt_iff_toInt_lt, h.used] at hlt
    obtain ⟨s', hs', hkeeps, hitems⟩ := h.fillIn hlt ⟨addr, mask, incl⟩
    refine ⟨s', hs', hkeeps, hitems, ?_⟩
    intro hnull
    rw [h.null_iff.mp hnull] at hlt
    exact absurd hlt (by simp)
  rw [if_pos hfull]
  cases hgranted : granted && decide (arraySize (grown s.itemsAllocated) ≤ sizeLimit) with
  | false =>
    left
    constructor
    · change (s.memory.realloc s.items (arraySize (grown s.itemsAllocated) / itemSize)
        (granted && decide (arraySize (grown s.itemsAllocated) ≤ sizeLimit))).bind _ = _
      rw [hgranted, h.owns.realloc_refused]
      rfl
    · rintro hnull ⟨-, rfl⟩
      rw [h.null_iff.mp hnull] at hgranted
      exact absurd hgranted (by decide)
  | true =>
    right
    obtain ⟨rfl, hsize⟩ : granted = true ∧ arraySize (grown s.itemsAllocated) ≤ sizeLimit := by
      simpa using hgranted
    obtain ⟨q, m', hrealloc, hgrown, hlt⟩ := h.grow hsize
    obtain ⟨s', hs', hkeeps, hitems⟩ := hgrown.fillIn hlt ⟨addr, mask, incl⟩
    refine ⟨s', ?_, hkeeps, hitems, fun _ => ⟨hproper, rfl⟩⟩
    change (s.memory.realloc s.items (arraySize (grown s.itemsAllocated) / itemSize)
      (true && decide (arraySize (grown s.itemsAllocated) ≤ sizeLimit))).bind _ = _
    rw [hgranted, hrealloc]
    exact hs'

theorem fillIn_added {x : InAddrItem} {r : Bool × KsInAddrSetBase} (h : s.fillIn x = some r) :
    r.1 = true := by
  unfold fillIn at h
  obtain ⟨p, -, h⟩ := Option.bind_eq_some_iff.mp h
  obtain ⟨i, -, h⟩ := Option.bind_eq_some_iff.mp h
  obtain ⟨m', -, rfl⟩ := Option.map_eq_some_iff.mp h
  rfl

/-- An item that cannot be added changes nothing. -/
theorem addItem_failed {addr mask : UInt32} {incl granted : Bool} {s' : KsInAddrSetBase}
    (h : s.addItem addr mask incl granted = some (false, s')) : s' = s := by
  unfold addItem at h
  split at h
  · exact (Prod.mk.inj (Option.some.inj h)).2.symm
  · split at h
    · obtain ⟨⟨newItems, memory⟩, -, hrest⟩ := Option.bind_eq_some_iff.mp h
      cases newItems with
      | none => exact (Prod.mk.inj (Option.some.inj hrest)).2.symm
      | some q => exact absurd (fillIn_added hrest) Bool.false_ne_true
    · exact absurd (fillIn_added h) Bool.false_ne_true

theorem Keeps.isMemberFrom (h : s.Keeps m₀ xs) (addr : UInt32) {n idx : ℕ}
    (hn : idx + n = xs.length) :
    s.isMemberFrom addr n idx = some (firstMatch (xs.drop idx) addr) := by
  induction n generalizing idx with
  | zero =>
    rw [List.drop_eq_nil_of_le (by omega)]
    rfl
  | succ n ih =>
    have hlt : idx < xs.length := by omega
    have hload : (s.items.bind fun p => s.memory.load p idx) = some xs[idx] := by
      have howns := h.owns
      cases hitems : s.items with
      | none =>
        have hfits := h.fits
        rw [h.null_iff.mp hitems] at hfits
        change (xs.length : ℤ) ≤ 0 at hfits
        omega
      | some p =>
        rw [hitems] at howns
        rw [Option.bind_some, howns.load hlt, List.getElem?_eq_getElem hlt]
    unfold KsInAddrSetBase.isMemberFrom
    rw [hload, Option.bind_some, List.drop_eq_getElem_cons hlt, firstMatch_cons]
    split
    · rfl
    · exact ih (by omega)

/-- The first item that matches decides. -/
theorem Keeps.isMember (h : s.Keeps m₀ xs) (addr : UInt32) :
    s.isMember addr = some (firstMatch xs addr) := by
  unfold KsInAddrSetBase.isMember
  rw [h.used]
  exact h.isMemberFrom addr (Nat.zero_add _)

/-- Without an array there is nothing to be given back. -/
theorem Keeps.removeAll_null (h : s.Keeps m₀ xs) (hnull : s.items = none) :
    s.removeAll = some s ∧ xs = [] := by
  unfold removeAll
  have howns := h.owns
  rw [hnull] at howns ⊢
  exact ⟨rfl, howns.of_null.2⟩

/-- The array is given back, and the pointer to it is kept. -/
theorem Keeps.removeAll_array (h : s.Keeps m₀ xs) (harray : s.items ≠ none) :
    ∃ s', s.removeAll = some s' ∧ s'.memory.block = m₀.block ∧ s'.Dangling := by
  unfold removeAll
  cases hitems : s.items with
  | none => exact absurd hitems harray
  | some p =>
    have howns := h.owns
    rw [hitems] at howns
    obtain ⟨m', hfree, hnew, hblock⟩ := howns.free
    refine ⟨⟨m', some p, 0, 0⟩, ?_, hblock, p, rfl, ?_⟩
    · change (s.memory.free p).map _ = _
      rw [hfree]
      rfl
    · exact (congrFun hblock p).trans (m₀.fresh p hnew)

/-- A set that is destroyed leaves the memory as it was before there was the set. -/
theorem Keeps.destroy (h : s.Keeps m₀ xs) :
    ∃ m', s.destroy = some m' ∧ m'.block = m₀.block := by
  unfold KsInAddrSetBase.destroy
  by_cases hnull : s.items = none
  · have howns := h.owns
    rw [hnull] at howns
    rw [(h.removeAll_null hnull).1]
    exact ⟨s.memory, rfl, howns.of_null.1⟩
  · obtain ⟨s', hs', hblock, -⟩ := h.removeAll_array hnull
    rw [hs']
    exact ⟨s'.memory, rfl, hblock⟩

/-- An array that was given back cannot be added to. -/
theorem Dangling.addItem (h : s.Dangling) {addr mask : UInt32} {incl granted : Bool}
    {r : Bool × KsInAddrSetBase} (hr : s.addItem addr mask incl granted = some r) :
    r = (false, s) := by
  obtain ⟨p, hitems, hblock⟩ := h
  have hfillIn (x : InAddrItem) : s.fillIn x = none := by
    unfold fillIn Memory.store
    rw [hitems, Option.bind_some, hblock]
    simp
  unfold KsInAddrSetBase.addItem at hr
  split at hr
  · exact (Option.some.inj hr).symm
  · split at hr
    · obtain ⟨a, hrealloc, -⟩ := Option.bind_eq_some_iff.mp hr
      rw [hitems, Memory.realloc_dangling hblock] at hrealloc
      cases hrealloc
    · rw [hfillIn] at hr
      cases hr

/-- The array would be given back a second time. -/
theorem Dangling.destroy (h : s.Dangling) : s.destroy = none := by
  obtain ⟨p, hitems, hblock⟩ := h
  unfold KsInAddrSetBase.destroy removeAll
  rw [hitems]
  change Option.map _ ((s.memory.free p).map _) = _
  rw [Memory.free_dangling hblock]
  rfl

end KsInAddrSetBase

/-- Does the call get an array for an empty set? -/
def InAddrCall.Stores : InAddrCall → Prop
  | .addItem addr mask _ granted => addr &&& ~~~mask = 0 ∧ granted = true
  | .removeAll => False

namespace InAddrRun
open GuardedRun

/-- What is expected of a set at any time, its destruction included. -/
structure Behaves (r : InAddrRun) : Prop where
  null_iff : r.set.items = none ↔ r.set.itemsAllocated = 0
  failed : ∀ addr mask incl granted s,
    r.set.addItem addr mask incl granted = some (false, s) → s = r.set
  answers : ∀ addr, r.set.isMember addr = some (firstMatch r.added addr)
  destroyed : r.set.destroy.isSome

/-- No memory is used or given back that was given back before, and all is as expected. -/
def Safe (r : Option InAddrRun) : Prop := ∃ r', r = some r' ∧ r'.Behaves

/-- No array is given back but in the end. -/
def Guard (r : Option InAddrRun) (c : InAddrCall) : Prop :=
  ∀ r' ∈ r, c = .removeAll → r'.set.items = none

variable {m₀ : Memory InAddrItem} {r : InAddrRun}

theorem behaves_of_keeps (h : r.set.Keeps m₀ r.added) : r.Behaves where
  null_iff := h.null_iff
  failed _ _ _ _ _ := KsInAddrSetBase.addItem_failed
  answers := h.isMember
  destroyed := by
    obtain ⟨m', hm', -⟩ := h.destroy
    rw [hm']
    rfl

/-- Whether there is an array after a call depends on whether there was one, and on the call. -/
theorem perform_keeps (h : r.set.Keeps m₀ r.added) {c : InAddrCall}
    (hguard : Guard (some r) c) :
    ∃ r', r.perform c = some r' ∧ r'.set.Keeps m₀ r'.added ∧
      (r'.set.items = none ↔ r.set.items = none ∧ ¬ c.Stores) := by
  cases c with
  | addItem addr mask incl granted =>
    rcases h.addItem_cases addr mask incl granted with
      ⟨hfailed, hstores⟩ | ⟨s', hadded, hkeeps, harray, hstores⟩
    · rw [perform, hfailed]
      exact ⟨⟨r.set, r.added⟩, rfl, h, fun hnull => ⟨hnull, hstores hnull⟩, fun hnull => hnull.1⟩
    · rw [perform, hadded]
      refine ⟨⟨s', r.added ++ [⟨addr, mask, incl⟩]⟩, rfl, hkeeps, ?_⟩
      exact ⟨fun hnull => absurd hnull harray, fun hnull => absurd (hstores hnull.1) hnull.2⟩
  | removeAll =>
    have hnull := hguard r rfl rfl
    obtain ⟨hremoved, hadded⟩ := h.removeAll_null hnull
    rw [perform, hremoved]
    refine ⟨⟨r.set, []⟩, rfl, ?_, fun hnull => ⟨hnull, id⟩, fun hnull => hnull.1⟩
    rw [← hadded]
    exact h

/-- After an array was given back, the set cannot even be destroyed. -/
theorem not_safe_of_removeAll (h : r.set.Keeps m₀ r.added) (harray : r.set.items ≠ none) :
    ¬ Safe (step (some r) .removeAll) := by
  obtain ⟨s', hs', -, hdangling⟩ := h.removeAll_array harray
  rintro ⟨r', hr', hbehaves⟩
  unfold step at hr'
  change r.set.removeAll.map _ = _ at hr'
  rw [hs'] at hr'
  obtain rfl : _ = r' := Option.some.inj hr'
  have hdestroyed := hbehaves.destroyed
  change s'.destroy.isSome = true at hdestroyed
  rw [hdangling.destroy] at hdestroyed
  cases hdestroyed

/-- Everything had an outcome, and the array is still the set's. -/
def Kept (m₀ : Memory InAddrItem) (r : Option InAddrRun) : Prop :=
  ∃ r', r = some r' ∧ r'.set.Keeps m₀ r'.added

theorem safe_of_kept (r : Option InAddrRun) (h : Kept m₀ r) : Safe r := by
  obtain ⟨r', rfl, hkeeps⟩ := h
  exact ⟨r', rfl, behaves_of_keeps hkeeps⟩

theorem kept_step (r : Option InAddrRun) (c : InAddrCall) (h : Kept m₀ r) (hguard : Guard r c) :
    Kept m₀ (step r c) := by
  obtain ⟨r', rfl, hkeeps⟩ := h
  obtain ⟨r'', hr'', hkeeps', -⟩ := perform_keeps hkeeps hguard
  exact ⟨r'', hr'', hkeeps'⟩

theorem not_safe_step (r : Option InAddrRun) (c : InAddrCall) (h : Kept m₀ r)
    (hguard : ¬ Guard r c) : ¬ Safe (step r c) := by
  obtain ⟨r', rfl, hkeeps⟩ := h
  obtain ⟨rfl, harray⟩ : c = .removeAll ∧ r'.set.items ≠ none := by
    by_contra hnot
    apply hguard
    rintro r'' hr'' rfl
    obtain rfl : r' = r'' := Option.some.inj hr''
    by_contra harray
    exact hnot ⟨rfl, harray⟩
  exact not_safe_of_removeAll hkeeps harray

/-- No array is given back as long as no set is emptied that an item was added to. -/
theorem along_guard_iff (h : r.set.Keeps m₀ r.added) (calls : List InAddrCall) :
    Along step Guard (some r) calls ↔
      (r.set.items ≠ none → .removeAll ∉ calls) ∧
        calls.Pairwise fun c c' => c.Stores → c' ≠ .removeAll := by
  induction calls generalizing r with
  | nil => simp [Along]
  | cons c calls ih =>
    rw [Along, List.pairwise_cons, List.mem_cons]
    constructor
    · rintro ⟨hguard, hrest⟩
      obtain ⟨r', hr', hkeeps, hnull⟩ := perform_keeps h hguard
      rw [show step (some r) c = some r' from hr', ih hkeeps] at hrest
      obtain ⟨hkept, hpairs⟩ := hrest
      refine ⟨?_, ?_, hpairs⟩
      · rintro harray (rfl | hmem)
        · exact harray (hguard r rfl rfl)
        · exact hkept (fun hempty => harray (hnull.mp hempty).1) hmem
      · rintro c' hc' hstores rfl
        exact hkept (fun hempty => (hnull.mp hempty).2 hstores) hc'
    · rintro ⟨hkept, hstored, hpairs⟩
      have hguard : Guard (some r) c := by
        rintro r' hr' rfl
        obtain rfl : r = r' := Option.some.inj hr'
        by_contra harray
        exact hkept harray (.inl rfl)
      obtain ⟨r', hr', hkeeps, hnull⟩ := perform_keeps h hguard
      refine ⟨hguard, ?_⟩
      rw [show step (some r) c = some r' from hr', ih hkeeps]
      refine ⟨fun harray hmem => ?_, hpairs⟩
      by_cases hempty : r.set.items = none
      · by_cases hstores : c.Stores
        · exact hstored _ hmem hstores rfl
        · exact harray (hnull.mpr ⟨hempty, hstores⟩)
      · exact hkept hempty (.inr hmem)

/-- An address set works, and can be destroyed, at any time of exactly those runs in which it is
never emptied after an item was added. -/
theorem addressSet_safe_iff (m₀ : Memory InAddrItem) (calls : List InAddrCall) :
    (∀ cs, cs <+: calls → Safe (run step (some (create m₀)) cs)) ↔
      calls.Pairwise fun c c' => c.Stores → c' ≠ .removeAll := by
  have hcreate : (create m₀).set.Keeps m₀ (create m₀).added := KsInAddrSetBase.create_keeps m₀
  have halong : (∀ cs, cs <+: calls → Safe (run step (some (create m₀)) cs)) ↔
      Along step Guard (some (create m₀)) calls :=
    along_iff safe_of_kept kept_step not_safe_step ⟨create m₀, rfl, hcreate⟩
  rw [halong, along_guard_iff hcreate]
  exact ⟨fun h => h.2, fun h => ⟨fun hne => absurd rfl hne, h⟩⟩

/-- A set is emptied that an item was added to. -/
theorem not_safe_emptied : ¬ ∀ cs,
    cs <+: [InAddrCall.addItem 0x100007F 0xFFFFFFFF true true, .removeAll] →
      Safe (run step (some (create .empty)) cs) := by
  intro hsafe
  obtain ⟨r, hr, hbehaves⟩ := hsafe _ (List.prefix_refl _)
  have hdestroyed : (run step (some (create .empty))
      [InAddrCall.addItem 0x100007F 0xFFFFFFFF true true, .removeAll]).map
        (fun r => r.set.destroy.isSome) = some false := by decide
  rw [hr, Option.map_some, hbehaves.destroyed] at hdestroyed
  cases hdestroyed

end InAddrRun

/-- What is rejected is nevertheless a member where everything is accepted by default. -/
theorem KsSimpleInAddrSet.isMember_eq {m₀ : Memory InAddrItem} {s : KsSimpleInAddrSet}
    {xs : List InAddrItem} (h : s.base.Keeps m₀ xs) (addr : UInt32) :
    s.isMember addr = some (s.defaultIsAccept || firstMatch xs addr) := by
  unfold isMember
  rw [h.isMember, Option.map_some]
  cases firstMatch xs addr <;> cases s.defaultIsAccept <;> rfl

namespace KsHostInAddrSet

/-- The item of one address -/
def localItem (addr : UInt32) : InAddrItem := ⟨addr, 0xFFFFFFFF, true⟩

theorem localItem_matches (addr addr' : UInt32) :
    (localItem addr).matches addr' = (addr' == addr) := by
  change (addr' &&& -1 == addr) = _
  rw [UInt32.and_neg_one]

theorem firstMatch_local (addrs : List UInt32) (addr : UInt32) :
    firstMatch (addrs.map localItem) addr = decide (addr ∈ addrs) := by
  induction addrs with
  | nil => rfl
  | cons addr' addrs ih =>
    rw [List.map_cons, firstMatch_cons, localItem_matches, ih]
    by_cases heq : addr = addr'
    · simp [heq, localItem]
    · simp [heq]

variable {m₀ : Memory InAddrItem} {s : KsInAddrSetBase} {xs : List InAddrItem}

/-- Addresses are added until one cannot be. -/
theorem addLocalAddresses_keeps (h : s.Keeps m₀ xs) (interfaces : List (UInt32 × Bool)) :
    ∃ s' addrs, addLocalAddresses s interfaces = some s' ∧
      s'.Keeps m₀ (xs ++ addrs.map localItem) ∧ addrs <+: interfaces.map (·.1) := by
  induction interfaces generalizing s xs with
  | nil => exact ⟨s, [], rfl, by simpa using h, List.prefix_refl _⟩
  | cons interface interfaces ih =>
    obtain ⟨addr, granted⟩ := interface
    unfold addLocalAddresses
    rcases h.addItem_cases addr 0xFFFFFFFF true granted with
      ⟨hfailed, -⟩ | ⟨s', hadded, hkeeps, -, -⟩
    · rw [hfailed]
      exact ⟨s, [], rfl, by simpa using h, List.nil_prefix⟩
    · obtain ⟨s'', addrs, hrest, hkeeps', hprefix⟩ := ih hkeeps
      rw [hadded]
      refine ⟨s'', addr :: addrs, hrest, ?_, ?_⟩
      · simpa [localItem] using hkeeps'
      · exact List.cons_prefix_cons.mpr ⟨rfl, hprefix⟩

/-- The addresses that were found are members, and no others. -/
theorem create_isMember (m₀ : Memory InAddrItem) (interfaces : Option (List (UInt32 × Bool))) :
    ∃ s addrs, create m₀ interfaces = some s ∧
      s.Keeps m₀ (addrs.map localItem) ∧ addrs <+: (interfaces.getD []).map (·.1) ∧
        ∀ addr, s.isMember addr = some (decide (addr ∈ addrs)) := by
  have hcreate := KsInAddrSetBase.create_keeps m₀
  cases interfaces with
  | none =>
    refine ⟨.create m₀, [], rfl, hcreate, List.prefix_refl _, fun addr => ?_⟩
    exact hcreate.isMember addr
  | some interfaces =>
    obtain ⟨s, addrs, hs, hkeeps, hprefix⟩ := addLocalAddresses_keeps hcreate interfaces
    refine ⟨s, addrs, ?_, hkeeps, hprefix, fun addr => ?_⟩
    · rw [create, findLocalAddresses, hs]
      rfl
    · rw [hkeeps.isMember]
      exact congrArg some (firstMatch_local addrs addr)

theorem addLocalAddresses_dangling (h : s.Dangling) {interfaces : List (UInt32 × Bool)}
    {s' : KsInAddrSetBase} (hs' : addLocalAddresses s interfaces = some s') : s' = s := by
  cases interfaces with
  | nil => exact (Option.some.inj hs').symm
  | cons interface interfaces =>
    unfold addLocalAddresses at hs'
    obtain ⟨r, hr, hrest⟩ := Option.bind_eq_some_iff.mp hs'
    obtain rfl := h.addItem hr
    exact (Option.some.inj hrest).symm

/-- The update of a set that knows an address is the end of it: at the latest when it is destroyed
the old addresses are given back again. -/
theorem update_destroy (h : s.Keeps m₀ xs) (hknows : xs ≠ [])
    (interfaces : Option (List (UInt32 × Bool))) :
    ((update s interfaces).bind fun r => r.2.destroy) = none := by
  have harray : s.items ≠ none := fun hnull => hknows (h.removeAll_null hnull).2
  obtain ⟨s', hs', -, hdangling⟩ := h.removeAll_array harray
  unfold update findLocalAddresses
  rw [hs', Option.bind_some]
  cases interfaces with
  | none => exact hdangling.destroy
  | some interfaces =>
    cases hadded : addLocalAddresses s' interfaces with
    | none => simp [hadded]
    | some s'' =>
      obtain rfl := addLocalAddresses_dangling hdangling hadded
      simpa [hadded] using hdangling.destroy

end KsHostInAddrSet
end AcpltKs
