import AcpltKs.MemStream.Exhaustion

/-! The fragments of a memory stream as they are described to those who access them directly. -/
namespace AcpltKs
open ByteMemory Function

/-- The data area is named by the place of its fragment in the chain. -/
structure FragmentDescription where
  fragment : ℕ
  length : ℕ
  deriving DecidableEq

/-- The loop of `xdrmemstreamGetFragments`; the description that is filled in stays the first one. -/
def getFragmentsLoop : ℕ → ℕ → List Fragment → (ℕ → FragmentDescription) → ℕ → FragmentDescription
  | 0, _, _, desc => desc
  | _ + 1, _, [], desc => desc
  | avail + 1, place, f :: rest, desc =>
      if f.used = 0 then desc
      else getFragmentsLoop avail (place + 1) rest (update desc 0 ⟨place, f.used⟩)

/-- The descriptions, if there is an array for them, the number of fragments in use, and the length
of the stream. -/
def xdrmemstreamGetFragments (s : MemStream) (desc : Option (ℕ → FragmentDescription))
    (fragmentCount : ℕ) : Option (ℕ → FragmentDescription) × ℕ × ℕ :=
  let (first, rest) := s.chain.fragments
  let count := if first.used = 0 then (s.fragmentCount + 2 ^ 64 - 1) % 2 ^ 64 else s.fragmentCount
  (desc.map (getFragmentsLoop fragmentCount 0 (first :: rest)), count, s.length)

/-- A stream that is being written, with fragments of one size. Words, bytes and data from a socket
are stored by these steps, between which other streams use the pool. -/
inductive Storing (size : ℕ) : Mem → Prop where
  | create {pool pool' : Pool} {info : Option ℕ} {s : MemStream}
      (hsize : pool.memStreamBufferSize = size)
      (hcreate : xdrmemstreamCreate pool info = (some s, pool')) : Storing size (pool', s)
  | clear {m : Mem} (hsize : m.1.memStreamBufferSize = size) : Storing size (xdrmemstreamClear m)
  | share {pool pool' : Pool} {s : MemStream} (h : Storing size (pool, s))
      (hsize : pool'.memStreamBufferSize = size) : Storing size (pool', s)
  | allocate {m : Mem} (h : Storing size m) : Storing size (allocateIfUsedUp m).2
  | skip {pool : Pool} {s : MemStream} (h : Storing size (pool, s)) (n : ℕ) :
      Storing size (pool, s.skip n)
  | poke {pool : Pool} {s : MemStream} (h : Storing size (pool, s)) (off : ℕ) (bs : List UInt8) :
      Storing size (pool, s.poke off bs)

/-- A stream that has been rewound for reading. -/
inductive Rewound (size : ℕ) : MemStream → Prop where
  | rewind {m : Mem} (h : Storing size m) : Rewound size (xdrmemstreamRewind m .decode).2
  | again {s : MemStream} (h : Rewound size s) (ops : List ReadOp) (pool : Pool) :
      Rewound size (xdrmemstreamRewind (pool, ops.foldl (fun s op => (op.perform s).2.2) s)
        .decode).2

/-- The bytes of a range. -/
def FragmentDescription.bytes (frags : List Fragment) (d : FragmentDescription) : List UInt8 :=
  (frags[d.fragment]?).elim [] fun f => read f.data 0 d.length

/-- Whatever array there is with room for as many descriptions as were reported, they describe the
fragments one after the other, the ranges make up the contents and the total length, and nothing
else is written. -/
def DescribesAll (s : MemStream) : Prop :=
  let frags := s.chain.fragments.1 :: s.chain.fragments.2
  let count := (xdrmemstreamGetFragments s none 0).2.1
  ∀ desc n, count ≤ n → ∃ desc', xdrmemstreamGetFragments s (some desc) n =
      (some desc', count, s.length) ∧
    (∀ i < count, (desc' i).fragment = i ∧ (frags[i]?).map Fragment.used = some (desc' i).length) ∧
    (List.range count).flatMap (fun i => (desc' i).bytes frags) = s.contents ∧
    ((List.range count).map fun i => (desc' i).length).sum = s.length ∧
    ∀ i, count ≤ i → desc' i = desc i

section Filling
variable {size : ℕ} {m m' : Mem} {pool : Pool} {s : MemStream}

theorem Storing.store (h : Storing size (pool, s)) (bs : List UInt8) :
    Storing size (pool, s.store bs) := (h.poke s.offset bs).skip bs.length

theorem Storing.allocated (h : Storing size m) {ok : Bool} (ha : allocateIfUsedUp m = (ok, m')) :
    Storing size m' := by
  have hallocate := h.allocate
  rwa [ha] at hallocate

theorem allocateIfUsedUp_handy (h : allocateIfUsedUp m = (false, m')) : m'.2.handy = 0 := by
  unfold allocateIfUsedUp at h
  split_ifs at h with h0
  · unfold allocateMemoryStreamFragment at h
    rcases m with ⟨pool, s⟩
    rcases htake : pool.takeFragment with ⟨_ | f, pool'⟩
    · simp only [htake, Prod.mk.injEq] at h
      rw [← h.2]
      exact h0
    · simp [htake] at h
  · cases h

theorem Storing.putLong (h : Storing size m) (w : UInt32) :
    Storing size (memStreamPutLong m w).2 := by
  unfold memStreamPutLong
  rcases ha : allocateIfUsedUp m with ⟨_ | _, pool, s⟩
  · have h0 := allocateIfUsedUp_handy ha
    dsimp only at h0 ⊢
    rw [← h0]
    exact h.allocated ha
  · exact (h.allocated ha).store _

theorem Storing.putBytesLoop (fuel : ℕ) (h : Storing size m) (bs : List UInt8) :
    Storing size (putBytesLoop fuel m bs).2 := by
  induction fuel generalizing m bs with
  | zero => exact h
  | succ fuel ih =>
    rw [AcpltKs.putBytesLoop]
    split_ifs
    · exact h
    · rcases ha : allocateIfUsedUp m with ⟨_ | _, pool, s⟩
      · exact h.allocated ha
      · exact ih ((h.allocated ha).store _) _

theorem Storing.putBytes (h : Storing size m) (bs : List UInt8) :
    Storing size (memStreamPutBytes m bs).2 := h.putBytesLoop bs.length bs

theorem Storing.inline (h : Storing size m) (len : ℕ) : Storing size (memStreamInline m len).2 := by
  unfold memStreamInline
  rcases ha : allocateIfUsedUp m with ⟨_ | _, pool, s⟩
  · exact h.allocated ha
  · dsimp only
    split_ifs
    · exact (h.allocated ha).skip len
    · exact h.allocated ha

theorem Storing.readFromFdLoop (h : Storing size m) (ios : List IoOutcome) (sock : Socket)
    (max : ℕ) : Storing size (readFromFdLoop ios m sock max).mem := by
  induction ios generalizing m sock max with
  | nil =>
    rw [AcpltKs.readFromFdLoop]
    split_ifs
    · exact h
    · rcases ha : allocateIfUsedUp m with ⟨_ | _, m'⟩
      · exact h.allocated ha
      · exact h.allocated ha
  | cons io ios ih =>
    rw [AcpltKs.readFromFdLoop]
    split_ifs
    · exact h
    rcases ha : allocateIfUsedUp m with ⟨_ | _, pool, s⟩
    · exact h.allocated ha
    have hallocated := h.allocated ha
    dsimp only
    split
    · exact hallocated
    · split_ifs
      · exact hallocated
      · exact hallocated.store _
      · exact ih (hallocated.store _) _ _

theorem Storing.readFromFd (h : Storing size m) (ios : List IoOutcome) (sock : Socket) (max : ℕ) :
    Storing size (xdrmemstreamReadFromFd ios m sock max).mem := by
  unfold xdrmemstreamReadFromFd
  split_ifs
  · exact h
  · exact h.readFromFdLoop ios sock max

/-- All fragments are expected to be full, and they are counted. -/
structure Uniform (size : ℕ) (m : Mem) : Prop where
  op : m.2.op = .encode
  pool : m.1.memStreamBufferSize = size
  chain : ∃ before current, m.2.chain = .on before current [] ∧
    (∀ f ∈ before ++ [current], f.used = size) ∧
    m.2.fragmentCount = (before.length + 1) % 2 ^ 32

theorem Uniform.allocate (h : Uniform size m) : Uniform size (allocateIfUsedUp m).2 := by
  obtain ⟨before, current, hchain, hused, hcount⟩ := h.chain
  unfold allocateIfUsedUp
  split_ifs
  · rcases m with ⟨pool, s⟩
    have hsize := pool.takeFragment_bufferSize
    have hpool : pool.memStreamBufferSize = size := h.pool
    unfold allocateMemoryStreamFragment
    rcases htake : pool.takeFragment with ⟨_ | f, pool'⟩
    · rw [htake] at hsize
      simp only [htake]
      exact ⟨h.op, hsize.trans hpool, h.chain⟩
    · rw [htake] at hsize
      simp only [htake]
      refine ⟨h.op, hsize.trans hpool, before ++ [current], f, ?_, ?_, ?_⟩
      · exact congrArg (Chain.link f) hchain
      · intro g hg
        obtain hg | hg := List.mem_append.mp hg
        · exact hused g hg
        · rw [List.mem_singleton.mp hg, Pool.takeFragment_used htake, hpool]
      · dsimp only at hcount ⊢
        rw [hcount, List.length_append, List.length_singleton, Nat.mod_add_mod]
  · exact h

theorem Storing.uniform (h : Storing size m) : Uniform size m := by
  induction h with
  | @create pool pool' info s hsize hcreate =>
    cases info with
    | none => exact absurd hcreate (by simp [xdrmemstreamCreate])
    | some garbage =>
      have hsame := pool.takeFragment_bufferSize
      rcases htake : pool.takeFragment with ⟨_ | f, pool''⟩
      · exact absurd hcreate (by simp [xdrmemstreamCreate, htake])
      · rw [htake] at hsame
        simp only [xdrmemstreamCreate, htake, Prod.mk.injEq, Option.some.injEq] at hcreate
        obtain ⟨rfl, rfl⟩ := hcreate
        refine ⟨rfl, hsame.trans hsize, [], f, rfl, ?_, rfl⟩
        intro g hg
        rw [List.mem_singleton.mp hg, Pool.takeFragment_used htake, hsize]
  | @clear m hsize =>
    refine ⟨rfl, ?_, [], _, rfl, ?_, rfl⟩
    · rw [xdrmemstreamClear, Pool.foldl_free_bufferSize]
      exact hsize
    · intro g hg
      rw [List.mem_singleton.mp hg]
      exact hsize
  | share _ hsize ih => exact ⟨ih.op, hsize, ih.chain⟩
  | allocate _ ih => exact ih.allocate
  | skip _ n ih => exact ⟨ih.op, ih.pool, ih.chain⟩
  | @poke pool s _ off bs ih =>
    obtain ⟨before, current, hchain, hused, hcount⟩ := ih.chain
    refine ⟨ih.op, ih.pool, before, { current with data := write current.data off bs }, ?_, ?_,
      hcount⟩
    · dsimp only at hchain
      unfold MemStream.poke
      rw [hchain]
      rfl
    · intro g hg
      obtain hg | hg := List.mem_append.mp hg
      · exact hused g (List.mem_append_left _ hg)
      · rw [List.mem_singleton.mp hg]
        exact hused current (List.mem_append_right _ (List.mem_singleton_self current))

end Filling

section Reading
variable {size : ℕ} {s : MemStream}

/-- The fragments are counted, and a single one has the length of the stream. -/
structure MemStream.Tallied (s : MemStream) : Prop where
  op : s.op = .decode
  count : s.fragmentCount = (s.chain.fragments.2.length + 1) % 2 ^ 32
  single : s.chain.fragments.2 = [] → s.length = s.chain.fragments.1.used
  kept : OnlyLastEmpty (s.chain.fragments.1 :: s.chain.fragments.2)

theorem Storing.tallied {m : Mem} (h : Storing size m) (hsize : 0 < size) (hwidth : size < 2 ^ 32) :
    (xdrmemstreamRewind m .decode).2.Tallied := by
  obtain ⟨hop, hpool, before, current, hchain, hused, hcount⟩ := h.uniform
  obtain ⟨pool, s⟩ := m
  dsimp only at hop hpool hchain hcount
  have hcurrent := hused current (List.mem_append_right _ (List.mem_singleton_self current))
  have hlen : (Chain.on before { current with used := subU32 current.used s.handy } []).fragments =
      (xdrmemstreamRewind (pool, s) .decode).2.chain.fragments := by
    simp [xdrmemstreamRewind, hop, hchain, Chain.modify, Chain.fragments]
  have hfrags := Chain.fragments_on before
    { current with used := subU32 current.used s.handy } []
  rw [hlen] at hfrags
  have hlength : (xdrmemstreamRewind (pool, s) .decode).2.length =
      subU32 (s.fragmentCount * size % 2 ^ 32) s.handy := by
    simp [xdrmemstreamRewind, hop, hpool]
  have hfc : (xdrmemstreamRewind (pool, s) .decode).2.fragmentCount = s.fragmentCount := by
    simp [xdrmemstreamRewind, hop]
  have hcons := congrArg List.length hfrags
  rw [List.length_cons, List.length_append, List.length_singleton] at hcons
  constructor
  · rfl
  · rw [hfc, hcount, hcons]
  · intro hnil
    rw [hnil] at hfrags hcons
    have hbefore : before = [] := List.length_eq_zero_iff.mp (by simpa using hcons.symm)
    subst hbefore
    rw [hlength, hcount]
    have hfirst : (xdrmemstreamRewind (pool, s) .decode).2.chain.fragments.1 =
        { current with used := subU32 current.used s.handy } := by
      simpa using hfrags
    have hone : (1 : ℕ) % 2 ^ 32 = 1 := rfl
    rw [hfirst, hcurrent, List.length_nil, Nat.zero_add, hone, Nat.one_mul,
      Nat.mod_eq_of_lt hwidth]
  · rw [hfrags]
    unfold OnlyLastEmpty
    rw [List.dropLast_concat]
    intro f hf
    rw [hused f (List.mem_append_left _ hf)]
    exact hsize.ne'

theorem MemStream.Tallied.keeps {s' : MemStream} (h : s.Tallied) (hkeeps : s.Keeps s') :
    s'.Tallied := by
  obtain ⟨hop, hcount, hsingle, hkept⟩ := h
  constructor
  · exact hkeeps.op.trans hop
  · rw [hkeeps.fragmentCount, hkeeps.fragments, hcount]
  · rw [hkeeps.length, hkeeps.fragments]
    exact hsingle
  · rw [hkeeps.fragments]
    exact hkept

theorem MemStream.Tallied.rewind (h : s.Tallied) (pool : Pool) :
    (xdrmemstreamRewind (pool, s) .decode).2.Tallied := by
  apply h.keeps
  constructor
  · rw [h.op]
    rfl
  · simp [xdrmemstreamRewind, h.op, Chain.fragments]
  · simp [xdrmemstreamRewind, h.op]
  · simp [xdrmemstreamRewind, h.op]

theorem keeps_reads (ops : List ReadOp) (s : MemStream) :
    s.Keeps (ops.foldl (fun s op => (op.perform s).2.2) s) := by
  induction ops generalizing s with
  | nil => exact ⟨rfl, rfl, rfl, rfl⟩
  | cons op ops ih => exact (op.perform_keeps s).trans (ih _)

theorem Rewound.tallied (h : Rewound size s) (hsize : 0 < size) (hwidth : size < 2 ^ 32) :
    s.Tallied := by
  induction h with
  | rewind h => exact h.tallied hsize hwidth
  | @again s _ ops pool ih => exact (ih.keeps (keeps_reads ops s)).rewind pool

/-- Only the first description is ever written. -/
theorem getFragmentsLoop_rest (avail place : ℕ) (frags : List Fragment)
    (desc : ℕ → FragmentDescription) {i : ℕ} (hi : i ≠ 0) :
    getFragmentsLoop avail place frags desc i = desc i := by
  induction avail generalizing place frags desc with
  | zero => rfl
  | succ avail ih =>
    cases frags with
    | nil => rfl
    | cons f rest =>
      rw [getFragmentsLoop]
      split_ifs
      · rfl
      · rw [ih, update_of_ne hi]

theorem getFragmentsLoop_single {avail : ℕ} (havail : avail ≠ 0) {f : Fragment} (hf : f.used ≠ 0)
    (desc : ℕ → FragmentDescription) :
    getFragmentsLoop avail 0 [f] desc = update desc 0 ⟨0, f.used⟩ := by
  obtain ⟨k, rfl⟩ := Nat.exists_eq_succ_of_ne_zero havail
  rw [getFragmentsLoop, if_neg hf]
  cases k <;> rfl

theorem MemStream.contents_eq (s : MemStream) :
    s.contents = (s.chain.fragments.1 :: s.chain.fragments.2).flatMap Fragment.bytes := rfl

theorem MemStream.Tallied.describesAll (h : s.Tallied) (hnil : s.chain.fragments.2 = []) :
    DescribesAll s := by
  have hlength := h.single hnil
  have hcount : s.fragmentCount = 1 := by
    rw [h.count, hnil]
    rfl
  have hcontents : s.contents = s.chain.fragments.1.bytes := by
    rw [MemStream.contents_eq, hnil, List.flatMap_singleton]
  unfold DescribesAll xdrmemstreamGetFragments
  dsimp only
  rw [hcount, hnil, hlength, hcontents]
  intro desc n hn
  by_cases hused : s.chain.fragments.1.used = 0
  · rw [if_pos hused] at hn ⊢
    refine ⟨desc, ?_, ?_, ?_, ?_, ?_⟩
    · have hdesc : getFragmentsLoop n 0 [s.chain.fragments.1] desc = desc := by
        cases n with
        | zero => rfl
        | succ n => rw [getFragmentsLoop, if_pos hused]
      rw [Option.map_some, hdesc]
    · intro i hi
      exact absurd hi (Nat.not_lt_zero i)
    · unfold Fragment.bytes
      rw [hused]
      rfl
    · rw [hused]
      rfl
    · intro i _
      rfl
  · rw [if_neg hused] at hn ⊢
    refine ⟨update desc 0 ⟨0, s.chain.fragments.1.used⟩, ?_, ?_, ?_, ?_, ?_⟩
    · rw [Option.map_some, getFragmentsLoop_single (Nat.one_le_iff_ne_zero.mp hn) hused]
    · intro i hi
      obtain rfl := Nat.lt_one_iff.mp hi
      rw [update_self]
      exact ⟨rfl, rfl⟩
    · rw [List.range_one, List.flatMap_singleton, update_self]
      rfl
    · rw [List.range_one, List.map_singleton, List.sum_singleton, update_self]
    · intro i hi
      exact update_of_ne (Nat.one_le_iff_ne_zero.mp hi) ..

/-- With a second fragment, its description is missing. -/
theorem MemStream.Tallied.not_describesAll (h : s.Tallied) (hne : s.chain.fragments.2 ≠ []) :
    ¬ DescribesAll s := by
  obtain ⟨next, rest, hrest⟩ := List.exists_cons_of_ne_nil hne
  have hkept := h.kept
  have hcount := h.count
  rw [hrest] at hkept hcount
  have hfirst : s.chain.fragments.1.used ≠ 0 := hkept _ List.mem_cons_self
  have hcontents : s.contents = s.chain.fragments.1.bytes ++ (next :: rest).flatMap Fragment.bytes := by
    rw [MemStream.contents_eq, hrest, List.flatMap_cons]
  unfold DescribesAll xdrmemstreamGetFragments
  dsimp only
  rw [if_neg hfirst]
  intro hall
  obtain ⟨desc', hdesc, hplace, hbytes, -, -⟩ := hall (fun _ => ⟨0, 1⟩) s.fragmentCount le_rfl
  have hloop := Option.some_inj.mp (Prod.mk.inj hdesc).1
  rw [hcontents] at hbytes
  obtain hzero | hone | htwo :
      s.fragmentCount = 0 ∨ s.fragmentCount = 1 ∨ 1 < s.fragmentCount := by
    omega
  · rw [hzero, List.range_zero, List.flatMap_nil] at hbytes
    have hnil := (List.append_eq_nil_iff.mp hbytes.symm).1
    exact hfirst (read_eq_nil.mp hnil)
  · obtain ⟨hfragment, hlength⟩ := hplace 0 (by omega)
    rw [List.getElem?_cons_zero, Option.map_some, Option.some_inj] at hlength
    have hdescribed : (desc' 0).bytes (s.chain.fragments.1 :: s.chain.fragments.2) =
        s.chain.fragments.1.bytes := by
      unfold FragmentDescription.bytes Fragment.bytes
      rw [hfragment, List.getElem?_cons_zero, ← hlength]
      rfl
    rw [hone, List.range_one, List.flatMap_singleton, hdescribed] at hbytes
    have hnil := (List.self_eq_append_right.mp hbytes)
    rw [List.flatMap_cons] at hnil
    have hnext := read_eq_nil.mp (List.append_eq_nil_iff.mp hnil).1
    have hlast : rest = [] := by
      by_contra hmore
      refine hkept next ?_ hnext
      rw [List.dropLast_cons_of_ne_nil (List.cons_ne_nil _ _), List.dropLast_cons_of_ne_nil hmore]
      exact List.mem_cons_of_mem _ List.mem_cons_self
    rw [hlast, hone, List.length_singleton] at hcount
    exact absurd hcount (by decide)
  · obtain ⟨hfragment, -⟩ := hplace 1 htwo
    rw [← hloop, getFragmentsLoop_rest _ _ _ _ Nat.one_ne_zero] at hfragment
    exact absurd hfragment (by decide)

/-- The descriptions are right exactly for a stream of a single fragment. -/
theorem describesAll_iff (h : Rewound size s) (hsize : 0 < size) (hwidth : size < 2 ^ 32) :
    DescribesAll s ↔ s.chain.fragments.2 = [] := by
  have htallied := h.tallied hsize hwidth
  constructor
  · intro hall
    by_contra hne
    exact htallied.not_describesAll hne hall
  · exact htallied.describesAll

end Reading

/-- A stream of as many zero bytes, in fragments of 256 bytes. -/
def zeroBytes (n : ℕ) : Mem :=
  let pool := (xdrmemstreamControlusage (.initial fun _ => some fun _ => 0) 256 8 0 50).2
  let s : MemStream :=
    { op := .decode, chain := .on [] ⟨0, fun _ => 0⟩ [], offset := 0, handy := 0
      fragmentCount := 1, length := 0, fault := false }
  (memStreamPutBytes (xdrmemstreamClear (pool, s)) (List.replicate n 0)).2

theorem zeroBytes_storing (n : ℕ) : Storing 256 (zeroBytes n) := by
  unfold zeroBytes
  apply Storing.putBytes
  exact Storing.clear rfl

/-- Of two fragments, only one is described. -/
theorem not_describesAll_two :
    Rewound 256 (xdrmemstreamRewind (zeroBytes 260) .decode).2 ∧
      ¬ DescribesAll (xdrmemstreamRewind (zeroBytes 260) .decode).2 := by
  have hrewound := Rewound.rewind (zeroBytes_storing 260)
  refine ⟨hrewound, ?_⟩
  apply (hrewound.tallied (by decide) (by decide)).not_describesAll
  have hlen : (xdrmemstreamRewind (zeroBytes 260) .decode).2.chain.fragments.2.length = 1 := by
    decide +kernel
  intro hnil
  rw [hnil] at hlen
  cases hlen

theorem describesAll_one :
    DescribesAll (xdrmemstreamRewind (zeroBytes 12) .decode).2 ↔
      (xdrmemstreamRewind (zeroBytes 12) .decode).2.chain.fragments.2 = [] :=
  describesAll_iff (.rewind (zeroBytes_storing 12)) (by decide) (by decide)

end AcpltKs
