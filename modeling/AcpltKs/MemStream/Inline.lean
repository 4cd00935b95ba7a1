import AcpltKs.MemStream.Exhaustion

/-! Bytes of a memory stream that are accessed in place, compared with what the calls that copy bytes
do. -/
namespace AcpltKs
open ByteMemory

/-- A `u_int` cast to an `int` -/
def asInt (n : ℕ) : ℤ := (n : ℤ).bmod (2 ^ 32)

/-- `MemStreamInline` for fragments of any size: the room left is taken for an `int`, which is
negative from 2^31 bytes on. -/
def memStreamInlineInt (m : Mem) (len : ℕ) : Option ℕ × Mem :=
  match allocateIfUsedUp m with
  | (false, m) => (none, m)
  | (true, pool, s) =>
      if len ≤ asInt s.handy then (some s.offset, pool, s.skip len) else (none, pool, s)

/-- A stream that is being written, or read after it was rewound. -/
inductive Accessible : Mem → Prop where
  | written {m : Mem} (h : Written m) : Accessible m
  | share {pool pool' : Pool} {s : MemStream} (h : Accessible (pool, s))
      (hsize : 0 < pool'.memStreamBufferSize) : Accessible (pool', s)
  | rewind {m : Mem} (h : Accessible m) : Accessible (xdrmemstreamRewind m .decode)
  | read {pool : Pool} {s : MemStream} (h : Accessible (pool, s)) (hop : s.op = .decode)
      (op : ReadOp) : Accessible (pool, (op.perform s).2.2)
  | inline {m : Mem} (h : Accessible m) (len : ℕ) : Accessible (memStreamInlineInt m len).2

/-- What has been written, as a reader finds it. -/
def MemStream.written (pool : Pool) (s : MemStream) : List UInt8 :=
  (xdrmemstreamRewind (pool, s) .decode).2.contents

/-- A stream that is being written keeps its bytes and is behind them, and one that is being read
stays as it is. -/
def Untouched (m m' : Mem) : Prop :=
  if m.2.op = .encode then m'.2.op = .encode ∧ m'.2.written m'.1 = m.2.written m.1
  else m'.2 = m.2

/-- The bytes from `off` on are the next ones to be written or read, and the stream is behind
them. -/
def Designates (m : Mem) (off len : ℕ) (m' : Mem) : Prop :=
  if m.2.op = .encode then
    ∀ bs : List UInt8, bs.length = len →
      memStreamPutBytes m bs = (true, m'.1, m'.2.poke off bs)
  else
    memStreamGetBytes m.2 len = (true, read m'.2.chain.memory off len, m'.2) ∧ m'.1 = m.1

/-- Access in place agrees with the calls that copy bytes. -/
def InlineAgrees (m : Mem) (len : ℕ) : Prop :=
  match memStreamInlineInt m len with
  | (none, m') => Untouched m m'
  | (some off, m') => Designates m off len m'

variable {m m' : Mem} {pool pool' : Pool} {s s' : MemStream} {len : ℕ}

theorem asInt_le (n : ℕ) : asInt n ≤ n := by
  unfold asInt
  rw [Int.bmod_def]
  split_ifs <;> omega

theorem asInt_of_lt {n : ℕ} (h : n < 2 ^ 31) : asInt n = n := by
  unfold asInt
  rw [Int.bmod_def]
  split_ifs <;> omega

theorem le_of_le_asInt {n : ℕ} (h : (len : ℤ) ≤ asInt n) : len ≤ n := by
  exact_mod_cast h.trans (asInt_le n)

/-- With less than 2^31 bytes left, the cast does not matter. -/
theorem memStreamInlineInt_eq (h : (allocateIfUsedUp m).2.2.handy < 2 ^ 31) :
    memStreamInlineInt m len = memStreamInline m len := by
  unfold memStreamInlineInt memStreamInline
  rcases ha : allocateIfUsedUp m with ⟨_ | _, pool, s⟩
  · rfl
  · rw [ha] at h
    dsimp only
    rw [asInt_of_lt h]
    simp only [Nat.cast_le]

/-- What the cast refuses could have been asked for in excess. -/
theorem exists_memStreamInline (m : Mem) (len : ℕ) :
    ∃ len', (memStreamInlineInt m len).2 = (memStreamInline m len').2 := by
  unfold memStreamInlineInt memStreamInline
  rcases allocateIfUsedUp m with ⟨_ | _, pool, s⟩
  · exact ⟨len, rfl⟩
  · dsimp only
    split_ifs with hlen
    · refine ⟨len, ?_⟩
      rw [if_pos (le_of_le_asInt hlen)]
    · refine ⟨s.handy + 1, ?_⟩
      rw [if_neg (by omega)]

/-- In place of what is used up there is a new fragment or nothing. -/
theorem allocateIfUsedUp_of_handy (h0 : m.2.handy ≠ 0) : allocateIfUsedUp m = (true, m) := by
  unfold allocateIfUsedUp
  rw [if_neg h0]

theorem allocateIfUsedUp_of_none (h0 : m.2.handy = 0) (htake : m.1.takeFragment.1 = none) :
    allocateIfUsedUp m = (false, m.1.takeFragment.2, m.2) := by
  obtain ⟨pool, s⟩ := m
  rcases hp : pool.takeFragment with ⟨f, pool'⟩
  obtain rfl : f = none := by
    rw [← htake, hp]
  unfold allocateIfUsedUp allocateMemoryStreamFragment
  rw [if_pos h0]
  dsimp only
  rw [hp]

theorem allocateIfUsedUp_of_some {f : Fragment} (h0 : m.2.handy = 0)
    (htake : m.1.takeFragment = (some f, pool')) :
    allocateIfUsedUp m = (true, pool', { m.2 with
      chain := m.2.chain.link f
      offset := 0
      handy := pool'.memStreamBufferSize
      fragmentCount := (m.2.fragmentCount + 1) % 2 ^ 32 }) := by
  obtain ⟨pool, s⟩ := m
  unfold allocateIfUsedUp allocateMemoryStreamFragment
  rw [if_pos h0]
  dsimp only
  rw [htake]

theorem memStreamInline_op (m : Mem) (len : ℕ) : (memStreamInline m len).2.2.op = m.2.op := by
  have hop : (allocateIfUsedUp m).2.2.op = m.2.op := by
    by_cases h0 : m.2.handy = 0
    · rcases htake : m.1.takeFragment with ⟨_ | f, pool'⟩
      · rw [allocateIfUsedUp_of_none h0 (by rw [htake])]
      · rw [allocateIfUsedUp_of_some h0 htake]
    · rw [allocateIfUsedUp_of_handy h0]
  unfold memStreamInline
  rcases ha : allocateIfUsedUp m with ⟨_ | _, pool, s⟩
  · rw [ha] at hop
    exact hop
  · rw [ha] at hop
    dsimp only
    split_ifs
    · exact hop
    · exact hop

theorem Accessible.written_or (h : Accessible m) :
    m.2.op = .encode ∧ Written m ∨ m.2.op = .decode := by
  induction h with
  | written h => exact Or.inl ⟨h.filling.2.op, h⟩
  | share _ hsize ih =>
    obtain ⟨hop, hw⟩ | hop := ih
    · exact Or.inl ⟨hop, hw.share hsize⟩
    · exact Or.inr hop
  | rewind _ _ => exact Or.inr rfl
  | @read pool s _ hop op _ => exact Or.inr ((op.perform_keeps s).op.trans hop)
  | @inline m _ len ih =>
    obtain ⟨len', hlen'⟩ := exists_memStreamInline m len
    rw [hlen']
    obtain ⟨-, hw⟩ | hop := ih
    · have hinline := hw.inline len'
      exact Or.inl ⟨hinline.filling.2.op, hinline⟩
    · exact Or.inr ((memStreamInline_op m len').trans hop)

theorem MemStream.skip_zero (s : MemStream) : s.skip 0 = s := by
  unfold skip
  rw [subU32_of_le (Nat.zero_le s.handy), Nat.sub_zero, Nat.add_zero]

theorem MemStream.poke_nil (s : MemStream) (off : ℕ) : s.poke off [] = s := by
  have hwrite : ∀ data : ℕ → UInt8, write data off [] = data := by
    intro data
    funext i
    unfold write
    split_ifs
    · rfl
    · rfl
  have hmodify : s.chain.modify (fun f => { f with data := write f.data off [] }) = s.chain := by
    simp only [hwrite]
    cases s.chain <;> rfl
  unfold poke
  rw [hmodify]

theorem getBytesLoop_nothing (fuel : ℕ) (s : MemStream) : getBytesLoop fuel s 0 = (true, [], s) := by
  cases fuel with
  | zero => rfl
  | succ fuel => rw [getBytesLoop, if_pos rfl]

/-- Bytes of one fragment are copied in one round. -/
theorem memStreamGetBytes_within (h0 : s.handy ≠ 0) (hlen : len ≤ s.handy) :
    memStreamGetBytes s len = (true, s.peek len, s.skip len) := by
  unfold memStreamGetBytes
  cases len with
  | zero =>
    rw [getBytesLoop_nothing, MemStream.skip_zero]
    rfl
  | succ n =>
    have ha : advanceIfUsedUp s = (true, s) := by
      unfold advanceIfUsedUp
      rw [if_neg h0]
    rw [getBytesLoop, if_neg (Nat.succ_ne_zero n), ha]
    dsimp only
    rw [Nat.min_eq_right hlen, Nat.sub_self, getBytesLoop_nothing]
    dsimp only
    rw [List.append_nil]

theorem putBytesLoop_nothing (fuel : ℕ) (m : Mem) : putBytesLoop fuel m [] = (true, m) := by
  cases fuel with
  | zero => rfl
  | succ fuel => rw [putBytesLoop, if_pos List.isEmpty_nil]

theorem memStreamPutBytes_within {bs : List UInt8} (ha : allocateIfUsedUp m = (true, pool, s))
    (hne : bs.length ≠ 0) (hlen : bs.length ≤ s.handy) :
    memStreamPutBytes m bs = (true, pool, s.store bs) := by
  obtain ⟨n, hn⟩ := Nat.exists_eq_succ_of_ne_zero hne
  have hempty : ¬ bs.isEmpty = true := by
    intro hnil
    rw [List.isEmpty_iff.mp hnil] at hne
    exact hne rfl
  unfold memStreamPutBytes
  rw [hn, putBytesLoop, if_neg hempty, ha]
  dsimp only
  rw [Nat.min_eq_right hlen, List.take_length, List.drop_length, putBytesLoop_nothing]

/-- Rewinding a stream that has been written leaves the bytes up to the pointer. -/
theorem MemStream.written_eq (pool : Pool) {before : List Fragment} {current : Fragment}
    (hop : s.op = .encode) (hchain : s.chain = .on before current []) :
    s.written pool =
      (before ++ [{ current with used := subU32 current.used s.handy }]).flatMap Fragment.bytes := by
  rw [← Chain.fragments_on]
  unfold written xdrmemstreamRewind contents
  simp [hop, hchain, Chain.modify, Chain.fragments]

/-- An empty fragment more does not change what has been written. -/
theorem Untouched.link {f : Fragment} (h : Written m) (h0 : m.2.handy = 0)
    (htake : m.1.takeFragment = (some f, pool')) (hs : allocateIfUsedUp m = (true, pool', s')) :
    Untouched m (pool', s') := by
  obtain ⟨-, hop, -, before, current, hchain, -⟩ := h.filling
  have hnew : s'.op = .encode ∧ s'.chain = .on (before ++ [current]) f [] ∧
      s'.handy = pool'.memStreamBufferSize := by
    rw [allocateIfUsedUp_of_some h0 htake, Prod.mk.injEq, Prod.mk.injEq] at hs
    obtain ⟨-, -, rfl⟩ := hs
    exact ⟨hop, congrArg (Chain.link f) hchain, rfl⟩
  obtain ⟨hop', hchain', hhandy⟩ := hnew
  have hsize := m.1.takeFragment_bufferSize
  rw [htake] at hsize
  unfold Untouched
  rw [if_pos hop]
  refine ⟨hop', ?_⟩
  rw [MemStream.written_eq m.1 hop hchain, MemStream.written_eq pool' hop' hchain', hhandy, hsize,
    Pool.takeFragment_used htake, h0, subU32_of_le le_rfl, subU32_of_le (Nat.zero_le _)]
  simp [Fragment.bytes]

theorem MemStream.written_pool (pool pool' : Pool) (s : MemStream) :
    s.written pool' = s.written pool := by
  unfold written xdrmemstreamRewind contents
  by_cases hop : s.op = .encode
  · simp [hop]
  · simp [hop]

theorem Untouched.refl (pool pool' : Pool) (s : MemStream) : Untouched (pool, s) (pool', s) := by
  unfold Untouched
  split_ifs with hop
  · exact ⟨hop, MemStream.written_pool pool pool' s⟩
  · rfl

/-- The space that is handed out, once there is some. -/
theorem memStreamInlineInt_some (ha : allocateIfUsedUp m = (true, pool, s))
    (hlen : len ≤ asInt s.handy) :
    memStreamInlineInt m len = (some s.offset, pool, s.skip len) := by
  unfold memStreamInlineInt
  rw [ha]
  exact if_pos hlen

theorem memStreamInlineInt_none (ha : allocateIfUsedUp m = (true, pool, s))
    (hlen : ¬ len ≤ asInt s.handy) : memStreamInlineInt m len = (none, pool, s) := by
  unfold memStreamInlineInt
  rw [ha]
  exact if_neg hlen

/-- As long as the current fragment is not used up, access in place is right. -/
theorem inlineAgrees_of_handy (h0 : m.2.handy ≠ 0) (len : ℕ) : InlineAgrees m len := by
  have ha := allocateIfUsedUp_of_handy h0
  unfold InlineAgrees
  by_cases hlen : len ≤ asInt m.2.handy
  · have hle := le_of_le_asInt hlen
    rw [memStreamInlineInt_some ha hlen]
    dsimp only
    unfold Designates
    split_ifs
    · intro bs hbs
      subst hbs
      by_cases hne : bs.length = 0
      · obtain rfl := List.length_eq_zero_iff.mp hne
        rw [List.length_nil, MemStream.skip_zero, MemStream.poke_nil]
        exact putBytesLoop_nothing 0 m
      · rw [memStreamPutBytes_within ha hne hle]
        rfl
    · exact ⟨memStreamGetBytes_within h0 hle, rfl⟩
  · rw [memStreamInlineInt_none ha hlen]
    exact Untouched.refl m.1 m.1 m.2

/-- At the end of a fragment, it is right for bytes that are written, and as long as no new fragment
can be had. -/
theorem inlineAgrees_of_used_up (h : Accessible m) (h0 : m.2.handy = 0) (len : ℕ) :
    InlineAgrees m len ↔ m.1.takeFragment.1 = none ∨
      m.2.op = .encode ∧ (len ≠ 0 ∨ asInt m.1.memStreamBufferSize < 0) := by
  rcases htake : m.1.takeFragment with ⟨_ | f, pool⟩
  · refine iff_of_true ?_ (Or.inl rfl)
    unfold InlineAgrees memStreamInlineInt
    rw [allocateIfUsedUp_of_none h0 (by rw [htake])]
    exact Untouched.refl m.1 m.1.takeFragment.2 m.2
  have ha := allocateIfUsedUp_of_some h0 htake
  have hsize := m.1.takeFragment_bufferSize
  rw [htake] at hsize
  dsimp only at hsize
  generalize hs : ({ m.2 with
    chain := m.2.chain.link f
    offset := 0
    handy := pool.memStreamBufferSize
    fragmentCount := (m.2.fragmentCount + 1) % 2 ^ 32 } : MemStream) = s at ha
  have hhandy : s.handy = m.1.memStreamBufferSize := by rw [← hs, ← hsize]
  have hcount : s.fragmentCount ≠ m.2.fragmentCount := by
    rw [← hs]
    dsimp only
    omega
  unfold InlineAgrees
  obtain ⟨hop, hw⟩ | hop := h.written_or
  · by_cases hlen : len ≤ asInt s.handy
    · rw [memStreamInlineInt_some ha hlen]
      dsimp only
      unfold Designates
      rw [if_pos hop]
      by_cases hne : len = 0
      · subst hne
        have hnonneg : (0 : ℤ) ≤ asInt m.1.memStreamBufferSize := hhandy ▸ hlen
        refine iff_of_false ?_ ?_
        · intro hput
          have hnothing := (hput [] rfl).symm.trans (putBytesLoop_nothing 0 m)
          have hsame := congrArg (fun r : Bool × Mem => r.2.2.fragmentCount) hnothing
          exact hcount hsame
        · rintro (hnone | ⟨-, habsurd | hneg⟩)
          · cases hnone
          · exact habsurd rfl
          · exact absurd hneg (not_lt.mpr hnonneg)
      · refine iff_of_true ?_ (Or.inr ⟨hop, Or.inl hne⟩)
        intro bs hbs
        subst hbs
        rw [memStreamPutBytes_within ha hne (le_of_le_asInt hlen)]
        rfl
    · rw [memStreamInlineInt_none ha hlen]
      refine iff_of_true (Untouched.link hw h0 htake ha) (Or.inr ⟨hop, ?_⟩)
      by_contra hnot
      rw [not_or, not_not, not_lt] at hnot
      obtain ⟨rfl, hnonneg⟩ := hnot
      exact hlen (hhandy ▸ hnonneg)
  · have hnot : m.2.op ≠ .encode := by
      rw [hop]
      decide
    refine iff_of_false ?_ (by simp [hop])
    by_cases hlen : len ≤ asInt s.handy
    · rw [memStreamInlineInt_some ha hlen]
      dsimp only
      unfold Designates
      rw [if_neg hnot]
      rintro ⟨hget, -⟩
      have hkeeps := (getBytesLoop_keeps len m.2 len).fragmentCount
      unfold memStreamGetBytes at hget
      rw [hget] at hkeeps
      exact hcount hkeeps
    · rw [memStreamInlineInt_none ha hlen]
      dsimp only
      unfold Untouched
      rw [if_neg hnot]
      intro hsame
      exact hcount (congrArg MemStream.fragmentCount hsame)

/-- Access in place agrees with copying exactly where no new fragment comes into it, or a new
fragment is what bytes are written to. -/
theorem inlineAgrees_iff (h : Accessible m) (len : ℕ) :
    InlineAgrees m len ↔ m.2.handy ≠ 0 ∨ m.1.takeFragment.1 = none ∨
      m.2.op = .encode ∧ (len ≠ 0 ∨ asInt m.1.memStreamBufferSize < 0) := by
  by_cases h0 : m.2.handy = 0
  · rw [inlineAgrees_of_used_up h h0, or_iff_right (not_not.mpr h0)]
  · exact iff_of_true (inlineAgrees_of_handy h0 len) (Or.inl h0)

/-- A stream that holds one word, and memory for further fragments. -/
def wordWritten : Mem :=
  let s : MemStream :=
    { op := .decode, chain := .on [] ⟨0, fun _ => 0⟩ [], offset := 0, handy := 0
      fragmentCount := 1, length := 0, fault := false }
  (memStreamPutLong (xdrmemstreamClear (.initial fun _ => some fun _ => 0, s)) 7).2

def wordToRead : Mem := xdrmemstreamRewind wordWritten .decode

theorem wordWritten_written : Written wordWritten := .putLong (.clear (by decide) rfl) 7

theorem wordToRead_accessible : Accessible wordToRead := .rewind (.written wordWritten_written)

/-- Behind the only word, where no more bytes can be read, space in a new fragment is handed out. -/
theorem not_inlineAgrees_end :
    let m := (wordToRead.1, (ReadOp.getLong.perform wordToRead.2).2.2)
    Accessible m ∧ 4 ∣ m.2.handy ∧ ¬ InlineAgrees m 4 := by
  intro m
  have hstart : Accessible (wordToRead.1, wordToRead.2) := wordToRead_accessible
  have haccessible : Accessible m := hstart.read rfl .getLong
  have h0 : m.2.handy = 0 := rfl
  refine ⟨haccessible, by rw [h0]; exact dvd_zero 4, ?_⟩
  rw [inlineAgrees_of_used_up haccessible h0]
  rintro (hnone | ⟨hop, -⟩)
  · cases hnone
  · cases hop

/-- The word itself is found in place. -/
theorem inlineAgrees_word : InlineAgrees wordToRead 4 :=
  (inlineAgrees_iff wordToRead_accessible 4).mpr (Or.inl (by decide))

end AcpltKs
