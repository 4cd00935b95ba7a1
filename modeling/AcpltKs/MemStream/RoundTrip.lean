import AcpltKs.MemStream.Delivery

/-! What is put into a memory stream comes out of it again: any sequence of words and byte blocks,
however it falls onto the fragments. -/
namespace AcpltKs
open ByteMemory

/-- Something that is put into a stream. -/
inductive PutOp where
  | putLong (w : UInt32)
  | putBytes (bs : List UInt8)
  deriving DecidableEq

namespace PutOp

def bytes : PutOp → List UInt8
  | putLong w => BigEndian.encode w
  | putBytes bs => bs

def perform (m : Mem) : PutOp → Bool × Mem
  | putLong w => memStreamPutLong m w
  | putBytes bs => memStreamPutBytes m bs

/-- The read that goes with it: does it succeed and bring the same word or bytes? -/
def readBack (s : MemStream) : PutOp → Bool × MemStream
  | putLong w =>
      let (v, s) := memStreamGetLong s
      (decide (v = some w), s)
  | putBytes bs =>
      let (ok, cs, s) := memStreamGetBytes s bs.length
      (ok && decide (cs = bs), s)

end PutOp

/-- Put everything into the stream, up to the first failure. -/
def putAll : Mem → List PutOp → Bool × Mem
  | m, [] => (true, m)
  | m, op :: ops =>
      match op.perform m with
      | (true, m) => putAll m ops
      | (false, m) => (false, m)

/-- Read everything back; does every read bring what was put there? -/
def readAllBack : MemStream → List PutOp → Bool × MemStream
  | s, [] => (true, s)
  | s, op :: ops =>
      match op.readBack s with
      | (true, s) => readAllBack s ops
      | (false, s) => (false, s)

/-- Blocks of bytes are padded: where a word begins there is a multiple of four bytes before it. -/
def Padded : ℕ → List PutOp → Prop
  | _, [] => True
  | pos, op :: ops =>
      ((∃ w, op = .putLong w) → 4 ∣ pos) ∧ Padded (pos + op.bytes.length) ops

/-- The `int` that `xdrmemstreamGetLength` hands out. -/
def reportedLength (s : MemStream) : ℤ := (xdrmemstreamGetLength s : ℤ).bmod (2 ^ 32)

/-- There are `n` more fragments to be had, free ones or new ones within the quota. -/
structure Pool.Supplies (pool : Pool) (n : ℕ) : Prop where
  enough : n ≤ pool.freeList.length + (pool.fragmentQuota - pool.fragmentCount)
  width : pool.fragmentQuota < 2 ^ 32
  malloc : ∀ k, (pool.malloc k).isSome = true

variable {size pos : ℕ} {pool : Pool} {frags : List Fragment} {body bs : List UInt8}
  {s : MemStream}

theorem Pool.Supplies.take {n : ℕ} (h : pool.Supplies (n + 1)) :
    ∃ f pool', pool.takeFragment = (some f, pool') ∧ pool'.Supplies n := by
  have henough := h.enough
  cases hfree : pool.freeList with
  | nil =>
    simp only [hfree, List.length_nil, Nat.zero_add] at henough
    have hwidth := h.width
    obtain ⟨data, hdata⟩ := Option.isSome_iff_exists.mp (h.malloc 0)
    have hquota : ¬ pool.fragmentQuota ≤ pool.fragmentCount := by omega
    have htake : pool.takeFragment = (some { used := pool.memStreamBufferSize, data },
        { pool with
          fragmentCount := (pool.fragmentCount + 1) % 2 ^ 32
          malloc := fun n => pool.malloc (n + 1) }) := by
      simp only [takeFragment, hfree, hquota, ↓reduceIte, hdata, Option.map_some]
    refine ⟨_, _, htake, ?_, h.width, fun k => h.malloc (k + 1)⟩
    simp only [hfree, List.length_nil, Nat.zero_add]
    rw [Nat.mod_eq_of_lt (by omega)]
    omega
  | cons f fs =>
    simp only [hfree, List.length_cons] at henough
    have htake : pool.takeFragment = (some { f with used := pool.memStreamBufferSize },
        { pool with
          freeList := fs, freeFragmentCount := subU32 pool.freeFragmentCount 1 }) := by
      simp only [takeFragment, hfree]
    exact ⟨_, _, htake, by simp only; omega, h.width, h.malloc⟩

/-- With enough fragments for `n` more bytes, there is room to go on. -/
theorem allocateIfUsedUp_supplies {n k : ℕ} (hpool : pool.memStreamBufferSize = size)
    (hsup : pool.Supplies k) (hn : 0 < n) (hroom : n ≤ s.handy + k * size) :
    ∃ pool' s' k', allocateIfUsedUp (pool, s) = (true, pool', s') ∧ pool'.Supplies k' ∧
      n ≤ s'.handy + k' * size := by
  by_cases h0 : s.handy = 0
  · obtain ⟨k, rfl⟩ : ∃ k', k = k' + 1 := Nat.exists_eq_succ_of_ne_zero fun hk => by
      simp [h0, hk] at hroom
      omega
    obtain ⟨f, pool', htake, hsup'⟩ := hsup.take
    have hsize := pool.takeFragment_bufferSize
    rw [htake] at hsize
    have ha : allocateIfUsedUp (pool, s) = (true, pool', { s with
        chain := s.chain.link f
        offset := 0
        handy := pool'.memStreamBufferSize
        fragmentCount := (s.fragmentCount + 1) % 2 ^ 32 }) := by
      simp only [allocateIfUsedUp, h0, ↓reduceIte, allocateMemoryStreamFragment, htake]
    refine ⟨pool', _, k, ha, hsup', ?_⟩
    simp only [h0, Nat.zero_add, Nat.add_mul, Nat.one_mul] at hroom
    simp only at hsize ⊢
    omega
  · exact ⟨pool, s, k, by simp only [allocateIfUsedUp, h0, ↓reduceIte], hsup, hroom⟩

/-- Bytes that fit into the fragments to be had are all stored. -/
theorem putBytesLoop_supplies {fuel n k : ℕ} {cs : List UInt8} (h : s.Encoding size bs)
    (hpool : pool.memStreamBufferSize = size) (hsize : LegalSize size) (hfuel : cs.length ≤ fuel)
    (hsup : pool.Supplies k) (hroom : cs.length + n ≤ s.handy + k * size) :
    ∃ pool' s' k', putBytesLoop fuel (pool, s) cs = (true, pool', s') ∧ pool'.Supplies k' ∧
      n ≤ s'.handy + k' * size := by
  induction fuel generalizing pool s bs cs k with
  | zero =>
    obtain rfl := List.length_eq_zero_iff.mp (Nat.le_zero.mp hfuel)
    exact ⟨pool, s, k, rfl, hsup, by simpa using hroom⟩
  | succ fuel ih =>
    by_cases hcs : cs = []
    · subst hcs
      exact ⟨pool, s, k, rfl, hsup, by simpa using hroom⟩
    · have hlen := List.length_pos_iff.mpr hcs
      have hne : cs.isEmpty = false := by simpa using hcs
      obtain ⟨pool₁, s₁, k₁, ha, hsup₁, hroom₁⟩ :=
        allocateIfUsedUp_supplies hpool hsup (by omega) hroom
      obtain ⟨henc, hsz, hpos, -⟩ := allocateIfUsedUp_encoding h hpool hsize ha
      have hhandy := hpos rfl
      have hcount : (cs.take (min s₁.handy cs.length)).length = min s₁.handy cs.length := by simp
      have hstore := MemStream.store_encoding henc (cs.take (min s₁.handy cs.length)) (by simp)
      have hleft : (s₁.store (cs.take (min s₁.handy cs.length))).handy =
          s₁.handy - min s₁.handy cs.length := by
        simp only [MemStream.store, MemStream.skip, MemStream.poke, hcount]
        exact subU32_of_le (Nat.min_le_left _ _)
      simp only [putBytesLoop, hne, Bool.false_eq_true, ↓reduceIte, ha]
      refine ih hstore hsz ?_ hsup₁ ?_ <;> simp only [List.length_drop, hleft] <;> omega

/-- With enough fragments for it and for `n` more bytes, what is put is stored. -/
theorem PutOp.perform_supplies {n k : ℕ} (op : PutOp) (h : s.Encoding size bs)
    (hpool : pool.memStreamBufferSize = size) (hsize : LegalSize size)
    (hpad : (∃ w, op = .putLong w) → 4 ∣ bs.length) (hsup : pool.Supplies k)
    (hroom : op.bytes.length + n ≤ s.handy + k * size) :
    ∃ pool' s' k', op.perform (pool, s) = (true, pool', s') ∧ pool'.Supplies k' ∧
      n ≤ s'.handy + k' * size ∧ s'.Encoding size (bs ++ op.bytes) ∧
      pool'.memStreamBufferSize = size := by
  cases op with
  | putLong w =>
    have hroom : 4 + n ≤ s.handy + k * size := hroom
    obtain ⟨pool₁, s₁, k₁, ha, hsup₁, hroom₁⟩ :=
      allocateIfUsedUp_supplies hpool hsup (by omega) hroom
    obtain ⟨henc, hsz, hpos, -⟩ := allocateIfUsedUp_encoding h hpool hsize ha
    have haligned := henc.handy_aligned hsize (hpad ⟨w, rfl⟩)
    have hhandy := hpos rfl
    have h4 : 4 ≤ s₁.handy := by omega
    have hput : memStreamPutLong (pool, s) w = (true, pool₁, s₁.store (BigEndian.encode w)) := by
      simp only [memStreamPutLong, ha]
    have hleft : (s₁.store (BigEndian.encode w)).handy = s₁.handy - 4 := by
      simp only [MemStream.store, MemStream.skip, MemStream.poke, BigEndian.encode_length]
      exact subU32_of_le h4
    obtain ⟨henc', hsz'⟩ := memStreamPutLong_encoding h hpool hsize (hpad ⟨w, rfl⟩) w hput
    exact ⟨pool₁, _, k₁, hput, hsup₁, by omega, henc', hsz'⟩
  | putBytes cs =>
    obtain ⟨pool', s', k', hput, hsup', hroom'⟩ :=
      putBytesLoop_supplies h hpool hsize le_rfl hsup hroom
    obtain ⟨⟨j, henc, hall⟩, hsz⟩ := memStreamPutBytes_encoding h hpool hsize hput
    rw [List.take_of_length_le (hall rfl)] at henc
    exact ⟨pool', s', k', hput, hsup', hroom', henc, hsz⟩

theorem putAll_supplies {k : ℕ} {ops : List PutOp} (h : s.Encoding size bs)
    (hpool : pool.memStreamBufferSize = size) (hsize : LegalSize size)
    (hpad : Padded bs.length ops) (hsup : pool.Supplies k)
    (hroom : (ops.flatMap PutOp.bytes).length ≤ s.handy + k * size) :
    ∃ pool' s', putAll (pool, s) ops = (true, pool', s') ∧
      s'.Encoding size (bs ++ ops.flatMap PutOp.bytes) ∧ pool'.memStreamBufferSize = size := by
  induction ops generalizing pool s bs k with
  | nil => exact ⟨pool, s, rfl, by simpa using h, hpool⟩
  | cons op ops ih =>
    rw [List.flatMap_cons, List.length_append] at hroom
    obtain ⟨pool₁, s₁, k₁, hput, hsup₁, hroom₁, henc, hsz⟩ :=
      op.perform_supplies h hpool hsize hpad.1 hsup hroom
    obtain ⟨pool', s', hall, henc', hsz'⟩ :=
      ih henc hsz (by simpa using hpad.2) hsup₁ hroom₁
    refine ⟨pool', s', by simp only [putAll, hput, hall], ?_, hsz'⟩
    rw [List.flatMap_cons, ← List.append_assoc]
    exact henc'

/-- A read of what comes next in the body brings it. -/
theorem PutOp.readBack_decoding {rest : List UInt8} (op : PutOp) (hl : Laid size frags body)
    (h : s.Decoding size frags pos) (hsize : LegalSize size)
    (hpad : (∃ w, op = .putLong w) → 4 ∣ pos) (hpos : pos ≤ body.length)
    (hbody : body.drop pos = op.bytes ++ rest) :
    ∃ s', op.readBack s = (true, s') ∧ s'.Decoding size frags (pos + op.bytes.length) := by
  have hlen := congrArg List.length hbody
  rw [List.length_drop, List.length_append] at hlen
  cases op with
  | putLong w =>
    have h4 : (PutOp.putLong w).bytes.length = 4 := rfl
    have hfit : inFragment size body.length pos ∉ [1, 2, 3] := by
      have hmod : 4 ∣ pos % size := (Nat.dvd_mod_iff hsize.aligned).mpr (hpad ⟨w, rfl⟩)
      have hlt := Nat.mod_lt pos (by have := hsize.large; omega : 0 < size)
      have haligned := hsize.aligned
      simp only [inFragment, List.mem_cons, List.not_mem_nil, or_false]
      omega
    rcases hg : memStreamGetLong s with ⟨v, s'⟩
    rcases memStreamGetLong_decoding hl h hsize hfit hg with ⟨-, rfl, hdec⟩ | ⟨hend, -, -⟩
    · refine ⟨s', ?_, hdec⟩
      simp [readBack, hg, hbody, bytes]
    · omega
  | putBytes cs =>
    rcases hg : memStreamGetBytes s cs.length with ⟨ok, ds, s'⟩
    rcases memStreamGetBytes_decoding hl h hsize hg with ⟨rfl, rfl, -, hdec⟩ | ⟨-, hend, -⟩
    · refine ⟨s', ?_, hdec⟩
      simp [readBack, hg, hbody, bytes]
    · simp only [bytes] at hlen
      omega

theorem readAllBack_decoding {ops : List PutOp} (hl : Laid size frags body)
    (h : s.Decoding size frags pos) (hsize : LegalSize size) (hpad : Padded pos ops)
    (hpos : pos ≤ body.length) (hbody : body.drop pos = ops.flatMap PutOp.bytes) :
    ∃ s', readAllBack s ops = (true, s') ∧ s'.Decoding size frags body.length := by
  induction ops generalizing s pos with
  | nil =>
    have hend : body.length ≤ pos := by simpa using hbody
    exact ⟨s, rfl, le_antisymm hend hpos ▸ h⟩
  | cons op ops ih =>
    rw [List.flatMap_cons] at hbody
    have hlen := congrArg List.length hbody
    rw [List.length_drop, List.length_append] at hlen
    obtain ⟨s₁, hread, hdec⟩ := op.readBack_decoding hl h hsize hpad.1 hpos hbody
    obtain ⟨s', hall, hdec'⟩ := ih hdec hpad.2 (by omega) (by
      rw [← List.drop_drop, hbody, List.drop_left])
    exact ⟨s', by simp only [readAllBack, hread, hall], hdec'⟩

/-- At the end of the body, a read that asks for anything fails. -/
theorem ReadOp.perform_end (hl : Laid size frags body) (h : s.Decoding size frags body.length)
    (hsize : LegalSize size) (op : ReadOp) (hop : op.len ≠ 0) : (op.perform s).1 = false := by
  have hfit : op = .getLong → inFragment size body.length body.length ∉ [1, 2, 3] := by
    simp [inFragment]
  rcases hp : op.perform s with ⟨ok, bs, s'⟩
  rcases ReadOp.perform_decoding hl h hsize op hfit hp with ⟨-, -, hle, -⟩ | ⟨rfl, -⟩
  · omega
  · rfl

theorem reportedLength_of_length {n : ℕ} (h : s.length = n % 2 ^ 32) :
    reportedLength s = (n : ℤ).bmod (2 ^ 32) := by
  have hmod : ∀ m : ℕ, ((n % m : ℕ) : ℤ).bmod m = (n : ℤ).bmod m := fun m => by
    rw [Int.natCast_mod, Int.emod_bmod]
  unfold reportedLength xdrmemstreamGetLength
  rw [h]
  exact hmod (2 ^ 32)

/-- An empty stream into which everything has been put, and which has been rewound. -/
theorem putAll_rewind {m : Mem} {ops : List PutOp} (hsize : LegalSize size)
    (hm : StartsEmpty size m) (hpad : Padded 0 ops)
    (hquota : m.1.Supplies ((ops.flatMap PutOp.bytes).length / size)) :
    ∃ m' frags, putAll m ops = (true, m') ∧
      reportedLength (xdrmemstreamRewind m' .decode).2 =
        ((ops.flatMap PutOp.bytes).length : ℤ).bmod (2 ^ 32) ∧
      Laid size frags (ops.flatMap PutOp.bytes) ∧
      (xdrmemstreamRewind m' .decode).2.Decoding size frags 0 := by
  obtain ⟨pool, s⟩ := m
  obtain ⟨henc, hpool⟩ := hm.encoding
  dsimp only at henc hpool hquota
  have hhandy : s.handy = size := by
    obtain ⟨k, hk, -⟩ := henc.length_eq
    have hroom := henc.room
    rw [List.length_nil] at hk
    omega
  have hroom : (ops.flatMap PutOp.bytes).length ≤
      s.handy + (ops.flatMap PutOp.bytes).length / size * size := by
    have hlarge := hsize.large
    have hlt := Nat.mod_lt (ops.flatMap PutOp.bytes).length (by omega : 0 < size)
    have hdiv := Nat.div_add_mod' (ops.flatMap PutOp.bytes).length size
    omega
  obtain ⟨pool', s', hput, henc', hpool'⟩ := putAll_supplies henc hpool hsize hpad hquota hroom
  obtain ⟨-, hlength, frags, hlaid, hdec⟩ := xdrmemstreamRewind_encoding henc' hpool' hsize
  refine ⟨_, frags, hput, ?_, hlaid, hdec⟩
  exact reportedLength_of_length hlength

/-- What has been put into an empty stream is read back, the length reported is that of all the
bytes as far as an `int` holds it, and behind them there is nothing. -/
theorem putAll_readAllBack {m : Mem} {ops : List PutOp} (hsize : LegalSize size)
    (hm : StartsEmpty size m) (hpad : Padded 0 ops)
    (hquota : m.1.Supplies ((ops.flatMap PutOp.bytes).length / size)) :
    ∃ m', putAll m ops = (true, m') ∧
      reportedLength (xdrmemstreamRewind m' .decode).2 =
        ((ops.flatMap PutOp.bytes).length : ℤ).bmod (2 ^ 32) ∧
      ∃ s', readAllBack (xdrmemstreamRewind m' .decode).2 ops = (true, s') ∧
        ∀ op : ReadOp, op.len ≠ 0 → (op.perform s').1 = false := by
  obtain ⟨m', frags, hput, hlength, hlaid, hdec⟩ := putAll_rewind hsize hm hpad hquota
  obtain ⟨s', hread, hdec'⟩ :=
    readAllBack_decoding hlaid hdec hsize hpad (Nat.zero_le _) (List.drop_zero)
  exact ⟨m', hput, hlength, s', hread, fun op hop => op.perform_end hlaid hdec' hsize hop⟩

/-- A pool that has fragments of 256 bytes. -/
def smallFragments : Pool :=
  (xdrmemstreamControlusage (.initial fun _ => some fun _ => 7) 256 (2 ^ 32 - 1) 0 50).2

theorem smallFragments_supplies {s : MemStream} {n : ℕ}
    (h : xdrmemstreamCreate smallFragments (some 0) = (some s, pool)) (hn : n < 2 ^ 31) :
    pool.Supplies n := by
  have hpool : (xdrmemstreamCreate smallFragments (some 0)).2 = pool := by rw [h]
  have hfree : (xdrmemstreamCreate smallFragments (some 0)).2.freeList = [] := rfl
  have hquota : (xdrmemstreamCreate smallFragments (some 0)).2.fragmentQuota = 2 ^ 32 - 1 := rfl
  have hcount : (xdrmemstreamCreate smallFragments (some 0)).2.fragmentCount = 1 := rfl
  subst hpool
  refine ⟨?_, ?_, fun _ => rfl⟩ <;> omega

/-- Three bytes with their padding, and a word behind them. -/
theorem putAll_readAllBack_padded :
    let ops : List PutOp := [.putBytes [1, 2, 3], .putBytes [0], .putLong 5]
    ∃ s pool m', xdrmemstreamCreate smallFragments (some 0) = (some s, pool) ∧
      putAll (pool, s) ops = (true, m') ∧
        reportedLength (xdrmemstreamRewind m' .decode).2 = 8 ∧
        ∃ s', readAllBack (xdrmemstreamRewind m' .decode).2 ops = (true, s') ∧
          ∀ op : ReadOp, op.len ≠ 0 → (op.perform s').1 = false := by
  intro ops
  obtain ⟨s, pool, hcreate⟩ :
      ∃ s pool, xdrmemstreamCreate smallFragments (some 0) = (some s, pool) := ⟨_, _, rfl⟩
  obtain ⟨m', hput, hlength, hread⟩ :=
    @putAll_readAllBack 256 (pool, s) ops ⟨by decide, by decide, by decide⟩
    (.created hcreate rfl) ⟨by simp, by simp, fun _ => by decide, trivial⟩
    (smallFragments_supplies hcreate (by decide))
  exact ⟨s, pool, m', hcreate, hput, hlength.trans (by decide), hread⟩

/-- With 2^31 bytes, the length reported is negative. -/
theorem not_reportedLength_total :
    ¬ ∀ size m ops, LegalSize size → StartsEmpty size m → Padded 0 ops →
      m.1.Supplies ((ops.flatMap PutOp.bytes).length / size) →
      ∃ m', putAll m ops = (true, m') ∧
        reportedLength (xdrmemstreamRewind m' .decode).2 = (ops.flatMap PutOp.bytes).length := by
  intro h
  obtain ⟨block, hblock⟩ : ∃ block : List UInt8, block.length = 2 ^ 30 :=
    ⟨List.replicate (2 ^ 30) 0, List.length_replicate⟩
  obtain ⟨s, pool, hcreate⟩ :
      ∃ s pool, xdrmemstreamCreate smallFragments (some 0) = (some s, pool) := ⟨_, _, rfl⟩
  have hlen : ([PutOp.putBytes block, .putBytes block].flatMap PutOp.bytes).length = 2 ^ 31 := by
    simp only [List.flatMap_cons, List.flatMap_nil, List.append_nil, PutOp.bytes,
      List.length_append, hblock]
    norm_num
  have hsize : LegalSize 256 := ⟨by decide, by decide, by decide⟩
  have hpad : Padded 0 [.putBytes block, .putBytes block] := ⟨by simp, by simp, trivial⟩
  have hquota := smallFragments_supplies hcreate (n := 2 ^ 31 / 256) (by norm_num)
  rw [← hlen] at hquota
  obtain ⟨m₁, hput₁, hlength₁⟩ := h 256 (pool, s) _ hsize (.created hcreate rfl) hpad hquota
  obtain ⟨m₂, -, hput₂, hlength₂, -⟩ := putAll_rewind hsize (.created hcreate rfl) hpad hquota
  obtain rfl : m₁ = m₂ := by simpa using hput₁.symm.trans hput₂
  rw [hlength₂, hlen] at hlength₁
  exact absurd hlength₁ (by decide)

end AcpltKs
