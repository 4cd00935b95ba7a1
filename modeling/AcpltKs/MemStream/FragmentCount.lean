import AcpltKs.MemStream.Inline

/-! How many fragments a memory stream and the pool have between them, and what each operation does
to the count. -/
namespace AcpltKs

/-- How many of the free fragments are to be freed; the product is one of 32-bit numbers. -/
def Pool.toFree (pool : Pool) : ℕ :=
  let toFree :=
    (pool.freeFragmentCount - pool.fragmentWatermark) * pool.freePercentage % 2 ^ 32 / 100
  if toFree = 0 then pool.freeFragmentCount - pool.fragmentWatermark else toFree

/-- The loop of `xdrmemstreamFreegarbage`; where the list is at its end, it takes the successor of a
null pointer. -/
def freeLoop : ℕ → Pool → Option Pool
  | 0, pool => some pool
  | toFree + 1, pool =>
      match pool.freeList with
      | [] => none
      | _ :: fs =>
          freeLoop toFree { pool with
            freeList := fs
            freeFragmentCount := subU32 pool.freeFragmentCount 1
            fragmentCount := subU32 pool.fragmentCount 1 }

/-- Free fragments go back to the heap. -/
def xdrmemstreamFreegarbage (pool : Pool) : Option Pool :=
  if pool.fragmentWatermark < pool.freeFragmentCount then freeLoop pool.toFree pool else some pool

/-- All fragments of a stream are freed. -/
def memStreamDestroy (m : Mem) : Pool :=
  let (first, rest) := m.2.chain.fragments
  (first :: rest).foldl Pool.freeMemoryStreamFragment m.1

/-- The number of fragments that are linked together. -/
def Chain.count (c : Chain) : ℕ := c.fragments.2.length + 1

/-- The current fragment is the last one. -/
def Chain.AtLast (c : Chain) : Prop := ∃ before current, c = .on before current []

/-- There is a free fragment, or one may be allocated. -/
def Pool.HasMore (pool : Pool) : Prop :=
  pool.freeList ≠ [] ∨ pool.fragmentCount < pool.fragmentQuota

/-- The next fragment is asked for from a heap that has no memory. -/
def Pool.MallocFails (pool : Pool) : Prop :=
  pool.freeList = [] ∧ pool.fragmentCount < pool.fragmentQuota ∧ pool.malloc 0 = none

section Taking
variable {pool pool' : Pool} {f : Fragment}

/-- Where a fragment comes from. -/
theorem Pool.takeFragment_cases (pool : Pool) :
    (∃ f fs, pool.freeList = f :: fs ∧ pool.takeFragment =
      (some { f with used := pool.memStreamBufferSize },
        { pool with freeList := fs, freeFragmentCount := subU32 pool.freeFragmentCount 1 })) ∨
    (pool.freeList = [] ∧ pool.fragmentQuota ≤ pool.fragmentCount ∧
      pool.takeFragment = (none, pool)) ∨
    (pool.freeList = [] ∧ pool.fragmentCount < pool.fragmentQuota ∧
      pool.takeFragment =
        ((pool.malloc 0).map fun data => { used := pool.memStreamBufferSize, data },
          { pool with
            fragmentCount := (pool.fragmentCount + 1) % 2 ^ 32
            malloc := fun n => pool.malloc (n + 1) })) := by
  unfold takeFragment
  cases hfree : pool.freeList with
  | cons f fs => exact Or.inl ⟨f, fs, rfl, rfl⟩
  | nil =>
    by_cases hquota : pool.fragmentQuota ≤ pool.fragmentCount
    · exact Or.inr (Or.inl ⟨rfl, hquota, if_pos hquota⟩)
    · exact Or.inr (Or.inr ⟨rfl, Nat.lt_of_not_le hquota, if_neg hquota⟩)

theorem Chain.count_on (before : List Fragment) (current : Fragment) (after : List Fragment) :
    (Chain.on before current after).count = before.length + after.length + 1 := by
  cases before with
  | nil => simp [count, fragments]
  | cons first before =>
    simp only [count, fragments, List.length_append, List.length_cons]
    omega

theorem Chain.count_link (c : Chain) (f : Fragment) :
    (c.AtLast → (c.link f).count = c.count + 1) ∧
      (¬ c.AtLast → (c.link f).count < c.count + 1) := by
  cases c with
  | on before current after =>
    unfold link
    rw [count_on, count_on]
    cases after with
    | nil =>
      refine ⟨fun _ => by simp, fun hnot => absurd ⟨before, current, rfl⟩ hnot⟩
    | cons next after =>
      constructor
      · rintro ⟨before', current', heq⟩
        cases heq
      · intro _
        simp only [List.length_append, List.length_cons, List.length_nil]
        omega
  | null first rest =>
    constructor
    · rintro ⟨before', current', heq⟩
      cases heq
    · intro _
      exact Nat.lt_succ_self _
  | stray first rest current =>
    constructor
    · rintro ⟨before', current', heq⟩
      cases heq
    · intro _
      exact Nat.lt_succ_self _

theorem Chain.atLast_link {c : Chain} (hc : c.AtLast) (f : Fragment) : (c.link f).AtLast := by
  obtain ⟨before, current, rfl⟩ := hc
  exact ⟨before ++ [current], f, rfl⟩

/-- The pool is set up as before, and fragments have been allocated up to the quota. -/
structure Pool.Grown (pool pool' : Pool) : Prop where
  quota : pool'.fragmentQuota = pool.fragmentQuota
  size : pool'.memStreamBufferSize = pool.memStreamBufferSize
  le : pool.fragmentCount ≤ pool'.fragmentCount
  bound : pool'.fragmentCount ≤ max pool.fragmentCount pool.fragmentQuota

theorem Pool.Grown.refl (pool : Pool) : pool.Grown pool :=
  ⟨rfl, rfl, le_rfl, le_max_left _ _⟩

theorem Pool.Grown.trans {pool'' : Pool} (h : pool.Grown pool') (h' : pool'.Grown pool'') :
    pool.Grown pool'' := by
  have hbound := h.bound
  have hbound' := h'.bound
  rw [h.quota] at hbound'
  refine ⟨h'.quota.trans h.quota, h'.size.trans h.size, h.le.trans h'.le, ?_⟩
  omega

theorem Pool.takeFragment_grown (hquota : pool.fragmentQuota < 2 ^ 32) :
    pool.Grown pool.takeFragment.2 := by
  obtain ⟨f, fs, -, htake⟩ | ⟨-, -, htake⟩ | ⟨-, hlt, htake⟩ := pool.takeFragment_cases
  · rw [htake]
    exact ⟨rfl, rfl, le_rfl, le_max_left _ _⟩
  · rw [htake]
    exact .refl pool
  · rw [htake]
    have hcount : (pool.fragmentCount + 1) % 2 ^ 32 = pool.fragmentCount + 1 :=
      Nat.mod_eq_of_lt (by omega)
    refine ⟨rfl, rfl, ?_, ?_⟩
    · dsimp only
      omega
    · dsimp only
      omega

/-- A stream and the pool have, with `c` fragments elsewhere, all that are counted. -/
structure Accounts (c : ℕ) (m : Mem) : Prop where
  free : m.1.freeFragmentCount = m.1.freeList.length
  count : m.1.fragmentCount = m.1.freeList.length + m.2.chain.count + c

/-- More fragments are counted than there are. -/
def Excess (c : ℕ) (m : Mem) : Prop :=
  m.1.freeList.length + m.2.chain.count + c < m.1.fragmentCount

/-- The heap has memory for all of the next `n` fragments that it is asked for, and a stream takes
them only at its end. -/
structure TakesSoundly (n : ℕ) (m : Mem) : Prop where
  malloc : ∀ k, m.1.freeList.length + k < n → m.1.fragmentCount + k < m.1.fragmentQuota →
    m.1.malloc k ≠ none
  last : n ≠ 0 → m.1.HasMore → m.2.chain.AtLast

variable {m m' : Mem} {c n : ℕ}

theorem Pool.MallocFails.take (h : pool.MallocFails) : pool.takeFragment.1 = none := by
  obtain ⟨hfree, hquota, hmalloc⟩ := h
  unfold takeFragment
  rw [hfree]
  dsimp only
  rw [if_neg (Nat.not_le.mpr hquota), hmalloc]
  rfl

theorem Pool.not_mallocFails (h : ¬ pool.HasMore) : ¬ pool.MallocFails := by
  rintro ⟨-, hlt, -⟩
  exact h (Or.inr hlt)

/-- A fragment is taken from those there are or from the heap, or there is none, in which case it
is counted only if the heap has no memory. -/
theorem Pool.takeFragment_outcome (hquota : pool.fragmentQuota < 2 ^ 32) :
    (pool.HasMore ∧ ∃ f pool', pool.takeFragment = (some f, pool') ∧
      pool'.fragmentCount + pool.freeList.length =
        pool.fragmentCount + pool'.freeList.length + 1 ∧
      (pool.freeFragmentCount = pool.freeList.length →
        pool'.freeFragmentCount = pool'.freeList.length)) ∨
    (¬ pool.HasMore ∧ pool.takeFragment = (none, pool)) ∨
    (pool.MallocFails ∧ ∃ pool', pool.takeFragment = (none, pool') ∧
      pool'.freeList = pool.freeList ∧ pool'.fragmentCount = pool.fragmentCount + 1) := by
  obtain ⟨f, fs, hlist, htake⟩ | ⟨hlist, hle, htake⟩ | ⟨hlist, hlt, htake⟩ :=
    pool.takeFragment_cases
  · have hmore : pool.HasMore := Or.inl (hlist ▸ List.cons_ne_nil f fs)
    refine Or.inl ⟨hmore, _, _, htake, ?_, ?_⟩
    · rw [hlist, List.length_cons]
      dsimp only
      omega
    · intro hfree
      rw [hlist, List.length_cons] at hfree
      dsimp only
      rw [hfree, subU32_of_le (Nat.le_add_left _ _), Nat.add_sub_cancel]
  · refine Or.inr (Or.inl ⟨?_, htake⟩)
    rintro (hne | hlt)
    · exact hne hlist
    · omega
  · have hwrap : (pool.fragmentCount + 1) % 2 ^ 32 = pool.fragmentCount + 1 :=
      Nat.mod_eq_of_lt (by omega)
    cases hdata : pool.malloc 0 with
    | none =>
      rw [hdata, Option.map_none] at htake
      exact Or.inr (Or.inr ⟨⟨hlist, hlt, hdata⟩, _, htake, rfl, hwrap⟩)
    | some data =>
      rw [hdata, Option.map_some] at htake
      refine Or.inl ⟨Or.inr hlt, _, _, htake, ?_, id⟩
      dsimp only
      omega

/-- A fragment moves from the pool or from the heap to the end of the stream. -/
theorem Accounts.takes (h : Accounts c m) (hquota : m.1.fragmentQuota < 2 ^ 32)
    (h0 : m.2.handy = 0) (hmalloc : ¬ m.1.MallocFails)
    (hlast : m.1.HasMore → m.2.chain.AtLast) : Accounts c (allocateIfUsedUp m).2 := by
  obtain ⟨hfree, hcount⟩ := h
  obtain ⟨hmore, f, pool', htake, hpool', hfree'⟩ | ⟨-, htake⟩ | ⟨hfails, -⟩ :=
    Pool.takeFragment_outcome hquota
  · have hlink := (m.2.chain.count_link f).1 (hlast hmore)
    rw [allocateIfUsedUp_of_some h0 htake]
    refine ⟨hfree' hfree, ?_⟩
    dsimp only
    omega
  · rw [allocateIfUsedUp_of_none h0 (by rw [htake]), htake]
    exact ⟨hfree, hcount⟩
  · exact absurd hfails hmalloc

/-- Memory that is not there is counted, and so are fragments behind the current one, which are
lost. -/
theorem Accounts.excess (h : Accounts c m) (hquota : m.1.fragmentQuota < 2 ^ 32)
    (h0 : m.2.handy = 0)
    (hbad : m.1.MallocFails ∨ m.1.HasMore ∧ ¬ m.2.chain.AtLast) :
    Excess c (allocateIfUsedUp m).2 := by
  obtain ⟨-, hcount⟩ := h
  unfold Excess
  obtain ⟨-, f, pool', htake, hpool', -⟩ | ⟨hnot, -⟩ | ⟨-, pool', htake, hlist, hpool'⟩ :=
    Pool.takeFragment_outcome hquota
  · have hnot : ¬ m.2.chain.AtLast := by
      obtain hfails | ⟨-, hnot⟩ := hbad
      · have hnone := hfails.take
        rw [htake] at hnone
        cases hnone
      · exact hnot
    have hlink := (m.2.chain.count_link f).2 hnot
    rw [allocateIfUsedUp_of_some h0 htake]
    dsimp only
    omega
  · obtain hfails | ⟨hmore, -⟩ := hbad
    · exact absurd hfails (Pool.not_mallocFails hnot)
    · exact absurd hmore hnot
  · rw [allocateIfUsedUp_of_none h0 (by rw [htake]), htake]
    dsimp only
    rw [hlist]
    omega

theorem Excess.allocate (h : Excess c m) (hquota : m.1.fragmentQuota < 2 ^ 32) :
    Excess c (allocateIfUsedUp m).2 := by
  unfold Excess at h ⊢
  by_cases h0 : m.2.handy = 0
  · obtain ⟨-, f, pool', htake, hpool', -⟩ | ⟨-, htake⟩ | ⟨-, pool', htake, hlist, hpool'⟩ :=
      Pool.takeFragment_outcome hquota
    · have hlink : (m.2.chain.link f).count ≤ m.2.chain.count + 1 := by
        by_cases hlast : m.2.chain.AtLast
        · exact ((m.2.chain.count_link f).1 hlast).le
        · exact ((m.2.chain.count_link f).2 hlast).le
      rw [allocateIfUsedUp_of_some h0 htake]
      dsimp only
      omega
    · rw [allocateIfUsedUp_of_none h0 (by rw [htake]), htake]
      exact h
    · rw [allocateIfUsedUp_of_none h0 (by rw [htake]), htake]
      dsimp only
      rw [hlist]
      omega
  · rw [allocateIfUsedUp_of_handy h0]
    exact h

theorem allocateIfUsedUp_grown (hquota : m.1.fragmentQuota < 2 ^ 32) :
    m.1.Grown (allocateIfUsedUp m).2.1 := by
  by_cases h0 : m.2.handy = 0
  · have hgrown := Pool.takeFragment_grown hquota
    rcases htake : m.1.takeFragment with ⟨_ | f, pool'⟩
    · rw [allocateIfUsedUp_of_none h0 (by rw [htake])]
      exact hgrown
    · rw [allocateIfUsedUp_of_some h0 htake]
      rw [htake] at hgrown
      exact hgrown
  · rw [allocateIfUsedUp_of_handy h0]
    exact .refl _

end Taking

section Putting
variable {pool pool' : Pool} {s : MemStream} {m : Mem} {c n : ℕ} {bs : List UInt8}

theorem Chain.count_modify (c : Chain) (g : Fragment → Fragment) : (c.modify g).count = c.count := by
  cases c with
  | on before current after =>
    unfold modify
    rw [count_on, count_on]
  | null first rest => rfl
  | stray first rest current => rfl

theorem Chain.atLast_modify (c : Chain) (g : Fragment → Fragment) :
    (c.modify g).AtLast ↔ c.AtLast := by
  cases c with
  | on before current after =>
    constructor
    · rintro ⟨before', current', heq⟩
      cases heq
      exact ⟨before, current, rfl⟩
    · rintro ⟨before', current', heq⟩
      cases heq
      exact ⟨before, g current, rfl⟩
  | null first rest => exact Iff.rfl
  | stray first rest current =>
    constructor
    · rintro ⟨before', current', heq⟩
      cases heq
    · rintro ⟨before', current', heq⟩
      cases heq

/-- The number of fragments that are needed for `len` bytes besides the one with room for `handy`. -/
def fragmentsNeeded (size handy len : ℕ) : ℕ := (len - handy + (size - 1)) / size

variable {size handy len : ℕ}

theorem fragmentsNeeded_nothing (hsize : 0 < size) : fragmentsNeeded size handy 0 = 0 := by
  unfold fragmentsNeeded
  rw [Nat.zero_sub, Nat.zero_add]
  exact Nat.div_eq_of_lt (Nat.sub_lt hsize Nat.one_pos)

theorem fragmentsNeeded_succ (hsize : 0 < size) (hlen : len ≠ 0) :
    fragmentsNeeded size 0 len = fragmentsNeeded size size len + 1 := by
  unfold fragmentsNeeded
  rw [← Nat.add_div_right _ hsize, Nat.sub_zero]
  by_cases hle : size ≤ len
  · congr 1
    omega
  · have hlt : len < size := Nat.lt_of_not_le hle
    rw [Nat.sub_eq_zero_of_le hlt.le, Nat.zero_add, Nat.add_div_right _ hsize,
      Nat.div_eq_of_lt (Nat.sub_lt hsize Nat.one_pos)]
    apply Nat.div_eq_of_lt_le
    · omega
    · omega

theorem fragmentsNeeded_round : fragmentsNeeded size (handy - min handy len) (len - min handy len) =
    fragmentsNeeded size handy len := by
  unfold fragmentsNeeded
  congr 2
  omega

theorem TakesSoundly.nothing (m : Mem) : TakesSoundly 0 m :=
  ⟨fun _ hk => absurd hk (Nat.not_lt_zero _), fun hne => absurd rfl hne⟩

theorem takesSoundly_store (bs : List UInt8) :
    TakesSoundly n (pool, s.store bs) ↔ TakesSoundly n (pool, s) := by
  have hlast : (s.store bs).chain.AtLast ↔ s.chain.AtLast := s.chain.atLast_modify _
  constructor
  · rintro ⟨hmalloc, h⟩
    exact ⟨hmalloc, fun hne hsome => hlast.mp (h hne hsome)⟩
  · rintro ⟨hmalloc, h⟩
    exact ⟨hmalloc, fun hne hsome => hlast.mpr (h hne hsome)⟩

/-- Where no more fragments may be allocated, none is. -/
theorem takesSoundly_of_none (hmore : ¬ m.1.HasMore) : TakesSoundly n m := by
  constructor
  · intro k _ hlt
    exact absurd (Or.inr (Nat.lt_of_le_of_lt (Nat.le_add_right _ _) hlt)) hmore
  · exact fun _ hmore' => absurd hmore' hmore

/-- One fragment after the other. -/
theorem takesSoundly_succ {f : Fragment} (hquota : m.1.fragmentQuota < 2 ^ 32)
    (h0 : m.2.handy = 0) (htake : m.1.takeFragment = (some f, pool')) :
    TakesSoundly (n + 1) m ↔ m.2.chain.AtLast ∧ TakesSoundly n (allocateIfUsedUp m).2 := by
  rw [allocateIfUsedUp_of_some h0 htake]
  obtain ⟨f, fs, hlist, htake'⟩ | ⟨-, -, htake'⟩ | ⟨hlist, hlt, htake'⟩ :=
    m.1.takeFragment_cases
  · obtain ⟨-, hpool'⟩ := Prod.mk.inj (htake.symm.trans htake')
    rw [hpool']
    constructor
    · rintro ⟨hmalloc, hlast⟩
      have hat := hlast (Nat.succ_ne_zero n) (Or.inl (hlist ▸ List.cons_ne_nil _ _))
      refine ⟨hat, ?_, fun _ _ => Chain.atLast_link hat _⟩
      intro k hk hcount
      apply hmalloc k _ hcount
      rw [hlist, List.length_cons]
      dsimp only at hk
      omega
    · rintro ⟨hat, hmalloc, -⟩
      refine ⟨?_, fun _ _ => hat⟩
      intro k hk hcount
      apply hmalloc k _ hcount
      rw [hlist, List.length_cons] at hk
      dsimp only
      omega
  · cases htake.symm.trans htake'
  · obtain ⟨hdata, hpool'⟩ := Prod.mk.inj (htake.symm.trans htake')
    have hwrap : (m.1.fragmentCount + 1) % 2 ^ 32 = m.1.fragmentCount + 1 :=
      Nat.mod_eq_of_lt (by omega)
    have hfirst : m.1.malloc 0 ≠ none := by
      intro hnone
      rw [hnone] at hdata
      cases hdata
    rw [hpool']
    constructor
    · rintro ⟨hmalloc, hlast⟩
      have hat := hlast (Nat.succ_ne_zero n) (Or.inr hlt)
      refine ⟨hat, ?_, fun _ _ => Chain.atLast_link hat _⟩
      intro k hk hcount
      dsimp only at hk hcount
      rw [hwrap] at hcount
      apply hmalloc (k + 1)
      · omega
      · omega
    · rintro ⟨hat, hmalloc, -⟩
      refine ⟨?_, fun _ _ => hat⟩
      intro k hk hcount
      cases k with
      | zero => exact hfirst
      | succ k =>
        rw [hlist, List.length_nil, Nat.zero_add] at hk
        apply hmalloc k
        · dsimp only
          rw [hlist, List.length_nil]
          omega
        · dsimp only
          rw [hwrap]
          omega

/-- Where the heap has no memory for the very next fragment. -/
theorem not_takesSoundly (hfails : m.1.MallocFails) : ¬ TakesSoundly (n + 1) m := by
  obtain ⟨hlist, hlt, hnone⟩ := hfails
  rintro ⟨hmalloc, -⟩
  apply hmalloc 0 _ hlt hnone
  rw [hlist]
  exact Nat.succ_pos n

theorem Accounts.congr {m' : Mem} (h : Accounts c m) (hpool : m'.1 = m.1)
    (hcount : m'.2.chain.count = m.2.chain.count) : Accounts c m' := by
  obtain ⟨hfree, htotal⟩ := h
  constructor
  · rw [hpool]
    exact hfree
  · rw [hpool, hcount]
    exact htotal

theorem Excess.congr {m' : Mem} (h : Excess c m) (hpool : m'.1 = m.1)
    (hcount : m'.2.chain.count = m.2.chain.count) : Excess c m' := by
  unfold Excess at h ⊢
  rw [hpool, hcount]
  exact h

theorem putBytesLoop_excess (fuel : ℕ) (h : Excess c m) (hquota : m.1.fragmentQuota < 2 ^ 32)
    (bs : List UInt8) : Excess c (putBytesLoop fuel m bs).2 := by
  induction fuel generalizing m bs with
  | zero => exact h
  | succ fuel ih =>
    rw [putBytesLoop]
    split_ifs
    · exact h
    · have hallocated := h.allocate hquota
      have hgrown := allocateIfUsedUp_grown hquota
      rcases ha : allocateIfUsedUp m with ⟨_ | _, pool, s⟩
      · rw [ha] at hallocated
        exact hallocated
      · rw [ha] at hallocated hgrown
        apply ih
        · exact hallocated.congr rfl (s.chain.count_modify _)
        · exact hgrown.quota ▸ hquota

theorem putBytesLoop_grown (fuel : ℕ) (hquota : m.1.fragmentQuota < 2 ^ 32) (bs : List UInt8) :
    m.1.Grown (putBytesLoop fuel m bs).2.1 := by
  induction fuel generalizing m bs with
  | zero => exact .refl _
  | succ fuel ih =>
    rw [putBytesLoop]
    split_ifs
    · exact .refl _
    · have hgrown := allocateIfUsedUp_grown hquota
      rcases ha : allocateIfUsedUp m with ⟨_ | _, pool, s⟩
      · rw [ha] at hgrown
        exact hgrown
      · rw [ha] at hgrown
        exact hgrown.trans (ih (m := (pool, s.store _)) (hgrown.quota ▸ hquota) _)

/-- The fragments of a stream that bytes are put into are all counted as long as they are taken
soundly, and not otherwise. -/
theorem Accounts.putBytesLoop {fuel : ℕ} (h : Accounts c m) (hquota : m.1.fragmentQuota < 2 ^ 32)
    (hsize : 0 < m.1.memStreamBufferSize) (hfuel : bs.length ≤ fuel) :
    (TakesSoundly (fragmentsNeeded m.1.memStreamBufferSize m.2.handy bs.length) m →
      Accounts c (putBytesLoop fuel m bs).2) ∧
    (¬ TakesSoundly (fragmentsNeeded m.1.memStreamBufferSize m.2.handy bs.length) m →
      Excess c (putBytesLoop fuel m bs).2) := by
  induction fuel generalizing m bs with
  | zero =>
    obtain rfl := List.length_eq_zero_iff.mp (Nat.le_zero.mp hfuel)
    rw [List.length_nil, fragmentsNeeded_nothing hsize]
    exact ⟨fun _ => h, fun hnot => absurd (TakesSoundly.nothing m) hnot⟩
  | succ fuel ih =>
    rw [AcpltKs.putBytesLoop]
    by_cases hnil : bs.isEmpty = true
    · rw [if_pos hnil, List.isEmpty_iff.mp hnil, List.length_nil, fragmentsNeeded_nothing hsize]
      exact ⟨fun _ => h, fun hnot => absurd (TakesSoundly.nothing m) hnot⟩
    rw [if_neg hnil]
    have hbs : bs.length ≠ 0 := by
      intro hzero
      exact hnil (List.isEmpty_iff.mpr (List.length_eq_zero_iff.mp hzero))
    -- the rest of the loop, once there is room
    have hround : ∀ pool s, Accounts c (pool, s) → pool.fragmentQuota < 2 ^ 32 →
        0 < pool.memStreamBufferSize → s.handy ≠ 0 →
        (TakesSoundly (fragmentsNeeded pool.memStreamBufferSize s.handy bs.length) (pool, s) →
          Accounts c (AcpltKs.putBytesLoop fuel (pool, s.store (bs.take (min s.handy bs.length)))
            (bs.drop (min s.handy bs.length))).2) ∧
        (¬ TakesSoundly (fragmentsNeeded pool.memStreamBufferSize s.handy bs.length) (pool, s) →
          Excess c (AcpltKs.putBytesLoop fuel (pool, s.store (bs.take (min s.handy bs.length)))
            (bs.drop (min s.handy bs.length))).2) := by
      intro pool s hs hquota' hsize' hroom
      have hcount : (bs.take (min s.handy bs.length)).length = min s.handy bs.length := by
        rw [List.length_take]
        omega
      have hhandy : (s.store (bs.take (min s.handy bs.length))).handy =
          s.handy - min s.handy bs.length := by
        change subU32 s.handy (bs.take (min s.handy bs.length)).length = _
        rw [hcount]
        exact subU32_of_le (Nat.min_le_left _ _)
      have hlength : (bs.drop (min s.handy bs.length)).length ≤ fuel := by
        rw [List.length_drop]
        omega
      have hstored : Accounts c (pool, s.store (bs.take (min s.handy bs.length))) :=
        hs.congr rfl (s.chain.count_modify _)
      have hrest := ih hstored hquota' hsize' hlength
      rw [takesSoundly_store, hhandy, List.length_drop, fragmentsNeeded_round] at hrest
      exact hrest
    by_cases h0 : m.2.handy = 0
    · rw [h0, fragmentsNeeded_succ hsize hbs]
      obtain ⟨hmore, f, pool', htake, -, -⟩ | ⟨hmore, htake⟩ | ⟨hfails, pool', htake, -, -⟩ :=
        Pool.takeFragment_outcome hquota
      · have ha := allocateIfUsedUp_of_some h0 htake
        have hgrown := allocateIfUsedUp_grown hquota
        have hmalloc : ¬ m.1.MallocFails := by
          intro hfails
          have hnone := hfails.take
          rw [htake] at hnone
          cases hnone
        rw [takesSoundly_succ hquota h0 htake]
        rcases hm' : allocateIfUsedUp m with ⟨ok, pool, s⟩
        rw [hm'] at ha hgrown
        obtain ⟨rfl, hsnd⟩ := Prod.mk.inj ha
        obtain ⟨rfl, hs⟩ := Prod.mk.inj hsnd
        have hhandy : s.handy = m.1.memStreamBufferSize :=
          (congrArg MemStream.handy hs).trans hgrown.size
        by_cases hat : m.2.chain.AtLast
        · have htaken := h.takes hquota h0 hmalloc fun _ => hat
          rw [hm'] at htaken
          have hrest := hround pool s htaken (hgrown.quota ▸ hquota) (hgrown.size ▸ hsize)
            (hhandy ▸ hsize.ne')
          rw [hgrown.size, hhandy] at hrest
          dsimp only
          rw [hhandy]
          exact ⟨fun hsound => hrest.1 hsound.2, fun hnot => hrest.2 fun hs => hnot ⟨hat, hs⟩⟩
        · have hexcess := h.excess hquota h0 (Or.inr ⟨hmore, hat⟩)
          rw [hm'] at hexcess
          refine ⟨fun hsound => absurd hsound.1 hat, fun _ => ?_⟩
          apply putBytesLoop_excess
          · exact hexcess.congr rfl (s.chain.count_modify _)
          · exact hgrown.quota ▸ hquota
      · rw [allocateIfUsedUp_of_none h0 (by rw [htake]), htake]
        exact ⟨fun _ => h, fun hnot => absurd (takesSoundly_of_none hmore) hnot⟩
      · have hexcess := h.excess hquota h0 (Or.inl hfails)
        rw [allocateIfUsedUp_of_none h0 (by rw [htake])] at hexcess ⊢
        exact ⟨fun hsound => absurd hsound (not_takesSoundly hfails), fun _ => hexcess⟩
    · have hrest := hround m.1 m.2 h hquota hsize h0
      rw [allocateIfUsedUp_of_handy h0]
      exact hrest

/-- The number of fragments that a word needs. -/
def wordNeeds (s : MemStream) : ℕ := if s.handy = 0 then 1 else 0

/-- Room for a word is taken soundly, or more fragments are counted than there are. -/
theorem Accounts.allocate (h : Accounts c m) (hquota : m.1.fragmentQuota < 2 ^ 32) :
    (TakesSoundly (wordNeeds m.2) m → Accounts c (allocateIfUsedUp m).2) ∧
      (¬ TakesSoundly (wordNeeds m.2) m → Excess c (allocateIfUsedUp m).2) := by
  unfold wordNeeds
  split_ifs with h0
  · constructor
    · intro hsound
      have hmalloc : ¬ m.1.MallocFails := fun hfails => not_takesSoundly hfails hsound
      exact h.takes hquota h0 hmalloc (hsound.last Nat.one_ne_zero)
    · intro hnot
      apply h.excess hquota h0
      by_contra hgood
      rw [not_or, not_and, not_not] at hgood
      obtain ⟨hmalloc, hlast⟩ := hgood
      apply hnot
      refine ⟨?_, fun _ => hlast⟩
      intro k hk hlt hnone
      obtain ⟨hlist, rfl⟩ := Nat.add_eq_zero_iff.mp (Nat.lt_one_iff.mp hk)
      exact hmalloc ⟨List.length_eq_zero_iff.mp hlist, hlt, hnone⟩
  · refine ⟨fun _ => ?_, fun hnot => absurd (TakesSoundly.nothing m) hnot⟩
    rw [allocateIfUsedUp_of_handy h0]
    exact h

theorem memStreamPutLong_pool (m : Mem) (w : UInt32) :
    (memStreamPutLong m w).2.1 = (allocateIfUsedUp m).2.1 := by
  unfold memStreamPutLong
  rcases ha : allocateIfUsedUp m with ⟨_ | _, pool, s⟩
  · rfl
  · rfl

theorem memStreamPutLong_count (m : Mem) (w : UInt32) :
    (memStreamPutLong m w).2.2.chain.count = (allocateIfUsedUp m).2.2.chain.count := by
  unfold memStreamPutLong
  rcases ha : allocateIfUsedUp m with ⟨_ | _, pool, s⟩
  · rfl
  · exact s.chain.count_modify _

theorem memStreamInlineInt_pool (m : Mem) (len : ℕ) :
    (memStreamInlineInt m len).2.1 = (allocateIfUsedUp m).2.1 := by
  unfold memStreamInlineInt
  rcases ha : allocateIfUsedUp m with ⟨_ | _, pool, s⟩
  · rfl
  · dsimp only
    split_ifs
    · rfl
    · rfl

theorem memStreamInlineInt_chain (m : Mem) (len : ℕ) :
    (memStreamInlineInt m len).2.2.chain = (allocateIfUsedUp m).2.2.chain := by
  unfold memStreamInlineInt
  rcases ha : allocateIfUsedUp m with ⟨_ | _, pool, s⟩
  · rfl
  · dsimp only
    split_ifs
    · rfl
    · rfl

theorem Accounts.putLong (h : Accounts c m) (hquota : m.1.fragmentQuota < 2 ^ 32) (w : UInt32) :
    (TakesSoundly (wordNeeds m.2) m → Accounts c (memStreamPutLong m w).2) ∧
      (¬ TakesSoundly (wordNeeds m.2) m → Excess c (memStreamPutLong m w).2) := by
  have hpool := memStreamPutLong_pool m w
  have hcount := memStreamPutLong_count m w
  obtain ⟨hsound, hnot⟩ := h.allocate hquota
  exact ⟨fun hs => (hsound hs).congr hpool hcount, fun hs => (hnot hs).congr hpool hcount⟩

theorem Accounts.inline (h : Accounts c m) (hquota : m.1.fragmentQuota < 2 ^ 32) (len : ℕ) :
    (TakesSoundly (wordNeeds m.2) m → Accounts c (memStreamInlineInt m len).2) ∧
      (¬ TakesSoundly (wordNeeds m.2) m → Excess c (memStreamInlineInt m len).2) := by
  have hpool := memStreamInlineInt_pool m len
  have hcount := congrArg Chain.count (memStreamInlineInt_chain m len)
  obtain ⟨hsound, hnot⟩ := h.allocate hquota
  exact ⟨fun hs => (hsound hs).congr hpool hcount, fun hs => (hnot hs).congr hpool hcount⟩

theorem memStreamPutLong_grown (hquota : m.1.fragmentQuota < 2 ^ 32) (w : UInt32) :
    m.1.Grown (memStreamPutLong m w).2.1 := by
  rw [memStreamPutLong_pool]
  exact allocateIfUsedUp_grown hquota

theorem memStreamInlineInt_grown (hquota : m.1.fragmentQuota < 2 ^ 32) (len : ℕ) :
    m.1.Grown (memStreamInlineInt m len).2.1 := by
  rw [memStreamInlineInt_pool]
  exact allocateIfUsedUp_grown hquota

end Putting

section Freeing
variable {pool pool' : Pool} {m : Mem} {c : ℕ}

/-- Fragments that are freed are on the list, and they are still counted. -/
theorem foldl_free (fs : List Fragment) (hfree : pool.freeFragmentCount = pool.freeList.length)
    (hwidth : pool.freeList.length + fs.length < 2 ^ 32) :
    (fs.foldl Pool.freeMemoryStreamFragment pool).freeFragmentCount =
        (fs.foldl Pool.freeMemoryStreamFragment pool).freeList.length ∧
      (fs.foldl Pool.freeMemoryStreamFragment pool).freeList.length =
        pool.freeList.length + fs.length ∧
      (fs.foldl Pool.freeMemoryStreamFragment pool).fragmentCount = pool.fragmentCount ∧
      (fs.foldl Pool.freeMemoryStreamFragment pool).fragmentQuota = pool.fragmentQuota := by
  induction fs generalizing pool with
  | nil => exact ⟨hfree, rfl, rfl, rfl⟩
  | cons f fs ih =>
    rw [List.length_cons] at hwidth
    have hnext : (pool.freeMemoryStreamFragment f).freeFragmentCount =
        (pool.freeMemoryStreamFragment f).freeList.length := by
      change (pool.freeFragmentCount + 1) % 2 ^ 32 = pool.freeList.length + 1
      rw [hfree]
      exact Nat.mod_eq_of_lt (by omega)
    have hlength : (pool.freeMemoryStreamFragment f).freeList.length = pool.freeList.length + 1 := rfl
    obtain ⟨hcount, hlist, hsame⟩ := ih hnext (by omega)
    refine ⟨hcount, ?_, hsame⟩
    rw [List.foldl_cons, hlist, List.length_cons]
    omega

theorem foldl_free_grown (pool : Pool) (fs : List Fragment) :
    pool.Grown (fs.foldl Pool.freeMemoryStreamFragment pool) := by
  induction fs generalizing pool with
  | nil => exact .refl pool
  | cons f fs ih =>
    have hfirst : pool.Grown (pool.freeMemoryStreamFragment f) :=
      ⟨rfl, rfl, le_rfl, le_max_left _ _⟩
    exact hfirst.trans (ih _)

theorem Accounts.clear (h : Accounts c m) (hwidth : m.1.fragmentCount < 2 ^ 32) :
    Accounts c (xdrmemstreamClear m) ∧ m.1.Grown (xdrmemstreamClear m).1 := by
  obtain ⟨pool, s⟩ := m
  obtain ⟨hfree, hcount⟩ := h
  dsimp only at hfree hcount hwidth
  have hchain : s.chain.count = s.chain.fragments.2.length + 1 := rfl
  obtain ⟨hfree', hlist, hsame, -⟩ :=
    foldl_free s.chain.fragments.2 hfree (by omega)
  refine ⟨⟨hfree', ?_⟩, foldl_free_grown pool s.chain.fragments.2⟩
  have hone : (xdrmemstreamClear (pool, s)).2.chain.count = 1 := rfl
  rw [hone]
  change (s.chain.fragments.2.foldl Pool.freeMemoryStreamFragment pool).fragmentCount =
    (s.chain.fragments.2.foldl Pool.freeMemoryStreamFragment pool).freeList.length + 1 + c
  omega

theorem Accounts.destroy (h : Accounts c m) (hwidth : m.1.fragmentCount < 2 ^ 32) :
    (memStreamDestroy m).freeFragmentCount = (memStreamDestroy m).freeList.length ∧
      (memStreamDestroy m).fragmentCount = (memStreamDestroy m).freeList.length + c := by
  obtain ⟨pool, s⟩ := m
  obtain ⟨hfree, hcount⟩ := h
  dsimp only at hfree hcount hwidth
  have hchain : s.chain.count = s.chain.fragments.2.length + 1 := rfl
  have hlength : (s.chain.fragments.1 :: s.chain.fragments.2).length = s.chain.count := rfl
  obtain ⟨hfree', hlist, hsame, -⟩ :=
    foldl_free (s.chain.fragments.1 :: s.chain.fragments.2) hfree (by omega)
  refine ⟨hfree', ?_⟩
  change (List.foldl Pool.freeMemoryStreamFragment pool
    (s.chain.fragments.1 :: s.chain.fragments.2)).fragmentCount = _
  rw [hsame]
  change _ = (List.foldl Pool.freeMemoryStreamFragment pool
    (s.chain.fragments.1 :: s.chain.fragments.2)).freeList.length + c
  omega

theorem Chain.count_fragments (c : Chain) :
    (Chain.on [] c.fragments.1 c.fragments.2).count = c.count := by
  rw [count_on]
  simp [count]

theorem rewind_pool (pool : Pool) (s : MemStream) {op : XdrOp} (hop : op ≠ .encode) :
    (xdrmemstreamRewind (pool, s) op).1 = pool := by
  simp only [xdrmemstreamRewind, if_neg hop]

theorem rewind_count (pool : Pool) (s : MemStream) {op : XdrOp} (hop : op ≠ .encode) :
    (xdrmemstreamRewind (pool, s) op).2.chain.count = s.chain.count := by
  by_cases hencode : s.op = .encode
  · simp only [xdrmemstreamRewind, if_neg hop, if_pos hencode]
    rw [Chain.count_fragments, Chain.count_modify]
  · simp only [xdrmemstreamRewind, if_neg hop, if_neg hencode]
    exact s.chain.count_fragments

/-- As many fragments are freed as there are on the list. -/
theorem freeLoop_some {n : ℕ} (hn : n ≤ pool.freeList.length)
    (hfree : pool.freeFragmentCount = pool.freeList.length)
    (hcount : pool.freeList.length ≤ pool.fragmentCount) :
    ∃ pool', freeLoop n pool = some pool' ∧
      pool'.freeFragmentCount = pool'.freeList.length ∧
      pool'.fragmentCount + pool.freeList.length = pool.fragmentCount + pool'.freeList.length ∧
      pool'.fragmentCount ≤ pool.fragmentCount ∧
      pool'.fragmentQuota = pool.fragmentQuota ∧
      pool'.memStreamBufferSize = pool.memStreamBufferSize := by
  induction n generalizing pool with
  | zero => exact ⟨pool, rfl, hfree, rfl, le_rfl, rfl, rfl⟩
  | succ n ih =>
    cases hlist : pool.freeList with
    | nil =>
      rw [hlist] at hn
      exact absurd hn (Nat.not_succ_le_zero n)
    | cons f fs =>
      rw [hlist, List.length_cons] at hn hfree hcount
      have hloop : freeLoop (n + 1) pool = freeLoop n { pool with
          freeList := fs
          freeFragmentCount := subU32 pool.freeFragmentCount 1
          fragmentCount := subU32 pool.fragmentCount 1 } := by
        rw [freeLoop, hlist]
      have hcount' : subU32 pool.fragmentCount 1 = pool.fragmentCount - 1 :=
        subU32_of_le (by omega)
      have hfree' : subU32 pool.freeFragmentCount 1 = fs.length := by
        rw [hfree, subU32_of_le (Nat.le_add_left _ _), Nat.add_sub_cancel]
      rw [hloop]
      obtain ⟨pool', hpool', hfree'', hbalance, hle, hquota, hsize⟩ := @ih { pool with
          freeList := fs
          freeFragmentCount := subU32 pool.freeFragmentCount 1
          fragmentCount := subU32 pool.fragmentCount 1 } (Nat.le_of_succ_le_succ hn) hfree' (by
        dsimp only
        omega)
      dsimp only at hbalance hle
      refine ⟨pool', hpool', hfree'', ?_, by omega, hquota, hsize⟩
      rw [List.length_cons]
      omega

theorem freeLoop_none {n : ℕ} (hn : pool.freeList.length < n) : freeLoop n pool = none := by
  induction n generalizing pool with
  | zero => exact absurd hn (Nat.not_lt_zero _)
  | succ n ih =>
    rw [freeLoop]
    cases hlist : pool.freeList with
    | nil => rfl
    | cons f fs =>
      rw [hlist, List.length_cons] at hn
      exact @ih { pool with
          freeList := fs
          freeFragmentCount := subU32 pool.freeFragmentCount 1
          fragmentCount := subU32 pool.fragmentCount 1 } (Nat.lt_of_succ_lt_succ hn)

/-- Only the percentage can ask for too many fragments. -/
theorem toFree_le : pool.toFree ≤ pool.freeFragmentCount ↔
    (pool.freeFragmentCount - pool.fragmentWatermark) * pool.freePercentage % 2 ^ 32 / 100 ≤
      pool.freeFragmentCount := by
  unfold Pool.toFree
  dsimp only
  split_ifs with hzero
  · rw [hzero]
    exact iff_of_true (Nat.sub_le _ _) (Nat.zero_le _)
  · exact Iff.rfl

end Freeing

end AcpltKs
