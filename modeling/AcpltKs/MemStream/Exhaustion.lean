import AcpltKs.Library.GuardedRun
import AcpltKs.MemStream.Delivery

/-! A memory stream whose data are exhausted: the read that fails first, and those that follow. -/
namespace AcpltKs
open GuardedRun

/-- A stream into which anything has been written. Between the calls other streams use the pool. -/
inductive Written : Mem → Prop where
  | create {pool pool' : Pool} {info : Option ℕ} {s : MemStream}
      (hsize : 0 < pool.memStreamBufferSize)
      (hcreate : xdrmemstreamCreate pool info = (some s, pool')) : Written (pool', s)
  | clear {m : Mem} (hsize : 0 < m.1.memStreamBufferSize) (hfault : m.2.fault = false) :
      Written (xdrmemstreamClear m)
  | share {pool pool' : Pool} {s : MemStream} (h : Written (pool, s))
      (hsize : 0 < pool'.memStreamBufferSize) : Written (pool', s)
  | putLong {m : Mem} (h : Written m) (w : UInt32) : Written (memStreamPutLong m w).2
  | putBytes {m : Mem} (h : Written m) (bs : List UInt8) : Written (memStreamPutBytes m bs).2
  | inline {m : Mem} (h : Written m) (len : ℕ) : Written (memStreamInline m len).2
  | poke {pool : Pool} {s : MemStream} (h : Written (pool, s)) (off : ℕ) (bs : List UInt8) :
      Written (pool, s.poke off bs)
  | readFromFd {m : Mem} (h : Written m) (ios : List IoOutcome) (sock : Socket) (max : ℕ) :
      Written (xdrmemstreamReadFromFd ios m sock max).mem

/-- The calls while a stream is being read. -/
inductive DecodeCall where
  | read (op : ReadOp)
  | rewind (pool : Pool)

/-- A stream that is being read. Has a read failed since the stream was rewound, and has one
succeeded after that? -/
structure DecodeRun where
  stream : MemStream
  failed : Bool := false
  revived : Bool := false

namespace DecodeRun

def step (r : DecodeRun) : DecodeCall → DecodeRun
  | .read op =>
      let (ok, _, stream) := op.perform r.stream
      { stream
        failed := r.failed || !ok
        revived := r.revived || r.failed && ok && op.len ≠ 0 }
  | .rewind pool =>
      { r with
        stream := (xdrmemstreamRewind (pool, r.stream) .decode).2
        failed := false }

/-- No null pointer has been dereferenced, and no read of a byte has succeeded after a failure. -/
structure Sound (r : DecodeRun) : Prop where
  fault : r.stream.fault = false
  revived : r.revived = false

end DecodeRun

/-- In every state that the calls lead to, failures are for good. -/
def FailsForGood (s : MemStream) (calls : List DecodeCall) : Prop :=
  ∀ made, made <+: calls → (run DecodeRun.step { stream := s } made).Sound

/-- There is no current fragment any more. -/
def Chain.isNull : Chain → Bool
  | .null _ _ => true
  | _ => false

/-- A call reads nothing if there is no current fragment. -/
def DecodeCall.StopsAtNull (r : DecodeRun) : DecodeCall → Prop
  | .read op => op.len ≠ 0 → r.stream.chain.isNull = false
  | .rewind _ => True

/-- All fragments but the last one hold something. -/
def OnlyLastEmpty (frags : List Fragment) : Prop := ∀ f ∈ frags.dropLast, f.used ≠ 0

/-- A stream that is being written: the last fragment is the current one. -/
structure MemStream.Filling (s : MemStream) : Prop where
  op : s.op = .encode
  fault : s.fault = false
  chain : ∃ before current, s.chain = .on before current [] ∧
    ∀ f ∈ before ++ [current], f.used ≠ 0

/-- A stream that is being read, with a current fragment. -/
structure MemStream.Positioned (s : MemStream) : Prop where
  op : s.op = .decode
  fault : s.fault = false
  chain : ∃ before current after, s.chain = .on before current after ∧
    OnlyLastEmpty (before ++ current :: after)

/-- A stream that is being read, at the end of its last fragment or without a current fragment. -/
structure MemStream.Exhausted (s : MemStream) : Prop where
  op : s.op = .decode
  fault : s.fault = false
  ended : s.Ended
  kept : OnlyLastEmpty (s.chain.fragments.1 :: s.chain.fragments.2)

section Writing
variable {m m' : Mem} {pool pool' : Pool} {s s' : MemStream}

theorem MemStream.Filling.skip (h : s.Filling) (n : ℕ) : (s.skip n).Filling :=
  ⟨h.op, h.fault, h.chain⟩

theorem MemStream.Filling.poke (h : s.Filling) (off : ℕ) (bs : List UInt8) :
    (s.poke off bs).Filling := by
  obtain ⟨before, current, hchain, hused⟩ := h.chain
  refine ⟨h.op, h.fault, before, { current with data := ByteMemory.write current.data off bs },
    ?_, ?_⟩
  · rw [MemStream.poke, hchain]
    rfl
  · intro f hf
    obtain hf | hf := List.mem_append.mp hf
    · exact hused f (List.mem_append_left _ hf)
    · rw [List.mem_singleton.mp hf]
      exact hused current (List.mem_append_right _ (List.mem_singleton_self current))

theorem MemStream.Filling.store (h : s.Filling) (bs : List UInt8) : (s.store bs).Filling :=
  (h.poke s.offset bs).skip bs.length

/-- A new fragment is not empty, as far as one knows. -/
theorem allocateIfUsedUp_filling (hsize : 0 < m.1.memStreamBufferSize) (h : m.2.Filling)
    {ok : Bool} (ha : allocateIfUsedUp m = (ok, m')) :
    0 < m'.1.memStreamBufferSize ∧ m'.2.Filling := by
  obtain ⟨pool, s⟩ := m
  rw [allocateIfUsedUp] at ha
  split_ifs at ha
  · rw [allocateMemoryStreamFragment] at ha
    rcases htake : pool.takeFragment with ⟨_ | f, pool'⟩
    · simp only [htake, Prod.mk.injEq] at ha
      obtain ⟨-, rfl⟩ := ha
      have hsame := pool.takeFragment_bufferSize
      rw [htake] at hsame
      exact ⟨hsame ▸ hsize, h⟩
    · have hsame := pool.takeFragment_bufferSize
      rw [htake] at hsame
      simp only [htake, Prod.mk.injEq] at ha
      obtain ⟨-, rfl⟩ := ha
      obtain ⟨before, current, hchain, hused⟩ := h.chain
      refine ⟨hsame ▸ hsize, h.op, h.fault, before ++ [current], f, ?_, ?_⟩
      · exact congrArg (Chain.link f) hchain
      · intro g hg
        obtain hg | hg := List.mem_append.mp hg
        · exact hused g hg
        · rw [List.mem_singleton.mp hg, Pool.takeFragment_used htake]
          exact hsize.ne'
  · obtain ⟨-, rfl⟩ := Prod.mk.inj ha
    exact ⟨hsize, h⟩

theorem putBytesLoop_filling (fuel : ℕ) (hsize : 0 < m.1.memStreamBufferSize) (h : m.2.Filling)
    (bs : List UInt8) : 0 < (putBytesLoop fuel m bs).2.1.memStreamBufferSize ∧
      (putBytesLoop fuel m bs).2.2.Filling := by
  induction fuel generalizing m bs with
  | zero => exact ⟨hsize, h⟩
  | succ fuel ih =>
    rw [putBytesLoop]
    split_ifs
    · exact ⟨hsize, h⟩
    · rcases ha : allocateIfUsedUp m with ⟨_ | _, pool, s⟩
      · exact allocateIfUsedUp_filling hsize h ha
      · obtain ⟨hsize', h'⟩ := allocateIfUsedUp_filling hsize h ha
        exact ih (m := (pool, s.store _)) hsize' (h'.store _) _

theorem readFromFdLoop_filling (ios : List IoOutcome) (hsize : 0 < m.1.memStreamBufferSize)
    (h : m.2.Filling) (sock : Socket) (max : ℕ) :
    0 < (readFromFdLoop ios m sock max).mem.1.memStreamBufferSize ∧
      (readFromFdLoop ios m sock max).mem.2.Filling := by
  induction ios generalizing m sock max with
  | nil =>
    rw [readFromFdLoop]
    split_ifs
    · exact ⟨hsize, h⟩
    · rcases ha : allocateIfUsedUp m with ⟨_ | _, m'⟩ <;>
      exact allocateIfUsedUp_filling hsize h ha
  | cons io ios ih =>
    rw [readFromFdLoop]
    split_ifs
    · exact ⟨hsize, h⟩
    rcases ha : allocateIfUsedUp m with ⟨_ | _, pool, s⟩
    · exact allocateIfUsedUp_filling hsize h ha
    obtain ⟨hsize', h'⟩ := allocateIfUsedUp_filling hsize h ha
    dsimp only
    split
    · exact ⟨hsize', h'⟩
    · split_ifs
      · exact ⟨hsize', h'⟩
      · exact ⟨hsize', h'.store _⟩
      · exact ih (m := (pool, s.store _)) hsize' (h'.store _) _ _

/-- Whatever is written into a stream, only its last fragment may turn out to be empty. -/
theorem Written.filling (h : Written m) : 0 < m.1.memStreamBufferSize ∧ m.2.Filling := by
  induction h with
  | @create pool pool' info s hsize hcreate =>
    cases info with
    | none => exact absurd hcreate (by simp [xdrmemstreamCreate])
    | some garbage =>
      rcases htake : pool.takeFragment with ⟨_ | f, pool''⟩
      · exact absurd hcreate (by simp [xdrmemstreamCreate, htake])
      · have hsame := pool.takeFragment_bufferSize
        rw [htake] at hsame
        simp only [xdrmemstreamCreate, htake, Prod.mk.injEq, Option.some.injEq] at hcreate
        obtain ⟨rfl, rfl⟩ := hcreate
        refine ⟨hsame ▸ hsize, rfl, rfl, [], f, rfl, fun g hg => ?_⟩
        rw [List.mem_singleton.mp hg, Pool.takeFragment_used htake]
        exact hsize.ne'
  | @clear m hsize hfault =>
    obtain ⟨pool, s⟩ := m
    refine ⟨?_, rfl, hfault, [], _, rfl, fun f hf => ?_⟩
    · rw [xdrmemstreamClear, Pool.foldl_free_bufferSize]
      exact hsize
    · rw [List.mem_singleton.mp hf]
      exact hsize.ne'
  | share _ hsize ih => exact ⟨hsize, ih.2⟩
  | @putLong m _ w ih =>
    rw [memStreamPutLong]
    rcases ha : allocateIfUsedUp m with ⟨_ | _, pool, s⟩
    · obtain ⟨hsize, h⟩ := allocateIfUsedUp_filling ih.1 ih.2 ha
      exact ⟨hsize, h.op, h.fault, h.chain⟩
    · obtain ⟨hsize, h⟩ := allocateIfUsedUp_filling ih.1 ih.2 ha
      exact ⟨hsize, h.store _⟩
  | putBytes _ bs ih => exact putBytesLoop_filling _ ih.1 ih.2 bs
  | @inline m _ len ih =>
    rw [memStreamInline]
    rcases ha : allocateIfUsedUp m with ⟨_ | _, pool, s⟩
    · exact allocateIfUsedUp_filling ih.1 ih.2 ha
    · obtain ⟨hsize, h⟩ := allocateIfUsedUp_filling ih.1 ih.2 ha
      dsimp only
      split_ifs
      · exact ⟨hsize, h.skip len⟩
      · exact ⟨hsize, h⟩
  | poke _ off bs ih => exact ⟨ih.1, ih.2.poke off bs⟩
  | readFromFd _ ios sock max ih =>
    rw [xdrmemstreamReadFromFd, if_neg (not_not_intro ih.2.op)]
    exact readFromFdLoop_filling ios ih.1 ih.2 sock max

/-- A stream that is rewound is at its start. -/
theorem Written.rewind {pool : Pool} {s : MemStream} (h : Written (pool, s)) :
    (xdrmemstreamRewind (pool, s) .decode).2.Positioned := by
  obtain ⟨-, hop, hfault, before, current, hchain, hused⟩ := h.filling
  dsimp only at hop hfault hchain
  refine ⟨rfl, ?_, [], _, _, rfl, fun f hf => ?_⟩
  · simp [xdrmemstreamRewind, hop, hfault, hchain]
  · refine hused f (List.mem_append_left _ ?_)
    cases before with
    | nil => simp [hop, hchain, Chain.modify] at hf
    | cons first before =>
      have hlast : (first :: (before ++ [{ current with
          used := subU32 current.used s.handy }])).dropLast = first :: before := by
        rw [← List.cons_append, List.dropLast_concat]
      simpa [hop, hchain, Chain.modify, Chain.fragments, hlast] using hf

end Writing

section Reading
variable {s s' : MemStream} {r : DecodeRun}

theorem Chain.fragments_on (before : List Fragment) (current : Fragment) (after : List Fragment) :
    (Chain.on before current after).fragments.1 :: (Chain.on before current after).fragments.2 =
      before ++ current :: after := by
  cases before <;> rfl

/-- Rewinding a stream that is being read goes back to the start. -/
theorem rewind_positioned (pool : Pool) (hop : s.op = .decode) (hfault : s.fault = false)
    (hkept : OnlyLastEmpty (s.chain.fragments.1 :: s.chain.fragments.2)) :
    (xdrmemstreamRewind (pool, s) .decode).2.Positioned := by
  refine ⟨rfl, ?_, [], s.chain.fragments.1, s.chain.fragments.2, ?_, hkept⟩
  · simp [xdrmemstreamRewind, hop, hfault]
  · simp [xdrmemstreamRewind, hop]

theorem MemStream.Positioned.kept (h : s.Positioned) :
    OnlyLastEmpty (s.chain.fragments.1 :: s.chain.fragments.2) := by
  obtain ⟨before, current, after, hchain, hkept⟩ := h.chain
  rw [hchain, Chain.fragments_on]
  exact hkept

theorem MemStream.Positioned.skip (h : s.Positioned) (n : ℕ) : (s.skip n).Positioned :=
  ⟨h.op, h.fault, h.chain⟩

/-- Either there are bytes in front of the private pointer now, or all have been read. -/
theorem MemStream.Positioned.advance (h : s.Positioned) {ok : Bool}
    (ha : advanceIfUsedUp s = (ok, s')) :
    (ok = true ∧ s'.Positioned ∧ s'.handy ≠ 0) ∨ (ok = false ∧ s'.Exhausted) := by
  obtain ⟨before, current, after, hchain, hkept⟩ := h.chain
  rw [advanceIfUsedUp] at ha
  split_ifs at ha with h0
  · cases after with
    | nil =>
      rw [advanceToNextFragment, hchain] at ha
      obtain ⟨rfl, rfl⟩ := Prod.mk.inj ha
      refine Or.inr ⟨rfl, h.op, h.fault, ⟨rfl, Or.inl ⟨_, _, rfl⟩⟩, ?_⟩
      rw [← Chain.fragments_on] at hkept
      exact hkept
    | cons next after =>
      rw [advanceToNextFragment, hchain] at ha
      obtain ⟨rfl, rfl⟩ := Prod.mk.inj ha
      have hkept' : OnlyLastEmpty ((before ++ [current]) ++ next :: after) := by
        rwa [← List.append_cons]
      by_cases hnext : next.used = 0
      · have hnil : after = [] := by
          by_contra hne
          refine hkept' next ?_ hnext
          rw [List.dropLast_append_of_ne_nil (List.cons_ne_nil _ _),
            List.dropLast_cons_of_ne_nil hne]
          exact List.mem_append_right _ List.mem_cons_self
        subst hnil
        refine Or.inr ⟨by simp [hnext], h.op, h.fault, ⟨hnext, Or.inr ⟨_, _, rfl⟩⟩, ?_⟩
        rw [Chain.fragments_on]
        exact hkept'
      · exact Or.inl ⟨by simp [hnext], ⟨h.op, h.fault, _, _, _, rfl, hkept'⟩, hnext⟩
  · obtain ⟨rfl, rfl⟩ := Prod.mk.inj ha
    exact Or.inl ⟨rfl, h, h0⟩

theorem MemStream.Exhausted.positioned (h : s.Exhausted) (hnull : s.chain.isNull = false) :
    s.Positioned := by
  obtain ⟨-, ⟨first, rest, hchain⟩ | ⟨before, current, hchain⟩⟩ := h.ended
  · rw [hchain] at hnull
    exact absurd hnull (by simp [Chain.isNull])
  · have hkept := h.kept
    rw [hchain, Chain.fragments_on] at hkept
    exact ⟨h.op, h.fault, before, current, [], hchain, hkept⟩

theorem getBytesLoop_positioned {fuel len : ℕ} (hfuel : len ≤ fuel) (h : s.Positioned) :
    ((getBytesLoop fuel s len).1 = true ∧ (getBytesLoop fuel s len).2.2.Positioned) ∨
      ((getBytesLoop fuel s len).1 = false ∧ (getBytesLoop fuel s len).2.2.Exhausted) := by
  induction fuel generalizing s len with
  | zero =>
    obtain rfl := Nat.le_zero.mp hfuel
    exact Or.inl ⟨rfl, h⟩
  | succ fuel ih =>
    rw [getBytesLoop]
    split_ifs with hlen
    · exact Or.inl ⟨rfl, h⟩
    rcases ha : advanceIfUsedUp s with ⟨ok, t⟩
    obtain ⟨rfl, ht, h0⟩ | ⟨rfl, ht⟩ := h.advance ha
    · exact ih (by omega) (ht.skip _)
    · exact Or.inr ⟨rfl, ht⟩

/-- A read that starts with a current fragment does not dereference a null pointer. -/
theorem ReadOp.perform_positioned (h : s.Positioned) (op : ReadOp) :
    ((op.perform s).1 = true ∧ (op.perform s).2.2.Positioned) ∨
      ((op.perform s).1 = false ∧ (op.perform s).2.2.Exhausted) := by
  cases op with
  | getLong =>
    rw [perform, memStreamGetLong]
    rcases ha : advanceIfUsedUp s with ⟨ok, t⟩
    obtain ⟨rfl, ht, -⟩ | ⟨rfl, ht⟩ := h.advance ha
    · exact Or.inl ⟨rfl, ht.skip 4⟩
    · exact Or.inr ⟨rfl, ht⟩
  | getBytes len => exact getBytesLoop_positioned le_rfl h

theorem ReadOp.perform_nothing {op : ReadOp} (hlen : op.len = 0) (s : MemStream) :
    op.perform s = (true, [], s) := by
  cases op with
  | getLong => exact absurd hlen (by simp [ReadOp.len])
  | getBytes len =>
    obtain rfl : len = 0 := hlen
    rfl

/-- At the end no read of a byte succeeds. -/
theorem ReadOp.perform_fails {op : ReadOp} (hlen : op.len ≠ 0) (h : s.Ended) :
    (op.perform s).1 = false := by
  rcases ha : advanceIfUsedUp s with ⟨ok, t⟩
  obtain ⟨rfl, -⟩ := h.advance ha
  cases op with
  | getLong => rw [perform, memStreamGetLong, ha]
  | getBytes len =>
    obtain ⟨n, rfl⟩ := Nat.exists_eq_succ_of_ne_zero (show len ≠ 0 from hlen)
    rw [perform, memStreamGetBytes, getBytesLoop, if_neg (Nat.succ_ne_zero n), ha]

theorem advance_null (hnull : s.chain.isNull = true) (h0 : s.handy = 0) :
    advanceIfUsedUp s = (false, { s with fault := true }) := by
  rw [advanceIfUsedUp, if_pos h0, advanceToNextFragment]
  cases hchain : s.chain with
  | null first rest => rfl
  | on | stray =>
    rw [hchain] at hnull
    exact absurd hnull (by simp [Chain.isNull])

/-- Without a current fragment, a read of a byte dereferences a null pointer. -/
theorem ReadOp.perform_null {op : ReadOp} (hlen : op.len ≠ 0) (hnull : s.chain.isNull = true)
    (h0 : s.handy = 0) : (op.perform s).2.2.fault = true := by
  cases op with
  | getLong =>
    rw [perform, memStreamGetLong, advance_null hnull h0]
  | getBytes len =>
    obtain ⟨n, rfl⟩ := Nat.exists_eq_succ_of_ne_zero (show len ≠ 0 from hlen)
    rw [perform, memStreamGetBytes, getBytesLoop, if_neg (Nat.succ_ne_zero n),
      advance_null hnull h0]

/-- What holds as long as every call stops where there is no current fragment. -/
structure DecodeRun.Invariant (r : DecodeRun) : Prop where
  sound : r.Sound
  stream : r.stream.Positioned ∨ r.stream.Exhausted
  failed : r.failed = true → r.stream.Exhausted

theorem DecodeRun.Invariant.step (h : r.Invariant) {call : DecodeCall}
    (hcall : call.StopsAtNull r) : (r.step call).Invariant := by
  obtain ⟨⟨hfault, hrevived⟩, hstream, hfailed⟩ := h
  cases call with
  | read op =>
    by_cases hlen : op.len = 0
    · have hnothing := ReadOp.perform_nothing hlen r.stream
      refine ⟨⟨?_, ?_⟩, ?_, ?_⟩ <;> simp_all [DecodeRun.step]
    · have hpositioned : r.stream.Positioned :=
        hstream.elim id fun hend => hend.positioned (hcall hlen)
      obtain ⟨hok, hs⟩ | ⟨hok, hs⟩ := ReadOp.perform_positioned hpositioned op
      · have hnot : r.failed = false := by
          by_contra hfail
          have hend := (hfailed (by simpa using hfail)).ended
          exact absurd (hok.symm.trans (ReadOp.perform_fails hlen hend)) (by simp)
        refine ⟨⟨hs.fault, ?_⟩, Or.inl hs, ?_⟩ <;> simp [DecodeRun.step, hrevived, hnot, hok]
      · refine ⟨⟨hs.fault, ?_⟩, Or.inr hs, fun _ => hs⟩
        simp [DecodeRun.step, hrevived, hok]
  | rewind pool =>
    have hs : (xdrmemstreamRewind (pool, r.stream) .decode).2.Positioned := by
      obtain hs | hs := hstream
      · exact rewind_positioned pool hs.op hs.fault hs.kept
      · exact rewind_positioned pool hs.op hs.fault hs.kept
    exact ⟨⟨hs.fault, hrevived⟩, Or.inl hs, fun hfail => absurd hfail Bool.false_ne_true⟩

/-- A read of a byte without a current fragment is not sound. -/
theorem DecodeRun.Invariant.not_sound (h : r.Invariant) {call : DecodeCall}
    (hcall : ¬ call.StopsAtNull r) : ¬ (r.step call).Sound := by
  cases call with
  | read op =>
    obtain ⟨hlen, hnull⟩ : op.len ≠ 0 ∧ r.stream.chain.isNull = true := by
      simpa [DecodeCall.StopsAtNull] using hcall
    have h0 : r.stream.handy = 0 := by
      obtain hs | hs := h.stream
      · obtain ⟨before, current, after, hchain, -⟩ := hs.chain
        rw [hchain] at hnull
        exact absurd hnull Bool.false_ne_true
      · exact hs.ended.1
    exact fun hsound => absurd ((ReadOp.perform_null hlen hnull h0).symm.trans hsound.fault) (by simp)
  | rewind pool => exact absurd trivial hcall

/-- Failures are for good exactly if nothing is read without a current fragment. -/
theorem failsForGood_iff {pool : Pool} (h : Written (pool, s)) (calls : List DecodeCall) :
    FailsForGood (xdrmemstreamRewind (pool, s) .decode).2 calls ↔
      Along DecodeRun.step DecodeCall.StopsAtNull
        { stream := (xdrmemstreamRewind (pool, s) .decode).2 } calls := by
  have hstart := h.rewind
  exact along_iff (I := DecodeRun.Invariant) (fun r hr => hr.sound)
    (fun r call hr hcall => hr.step hcall) (fun r call hr hcall => hr.not_sound hcall)
    ⟨⟨hstart.fault, rfl⟩, Or.inl hstart, fun hfail => absurd hfail Bool.false_ne_true⟩

end Reading

/-- A stream that has been cleared, with one word in it. -/
def oneWord : Mem :=
  let s : MemStream :=
    { op := .decode, chain := .on [] ⟨0, fun _ => 0⟩ [], offset := 0, handy := 0
      fragmentCount := 1, length := 0, fault := false }
  (memStreamPutLong (xdrmemstreamClear (.initial fun _ => none, s)) 7).2

theorem oneWord_written : Written oneWord := .putLong (.clear (by decide) rfl) 7

/-- The third read dereferences the null pointer that the second one has left. -/
theorem not_failsForGood_third :
    ¬ FailsForGood (xdrmemstreamRewind oneWord .decode).2
      [.read .getLong, .read .getLong, .read (.getBytes 4)] := by
  intro h
  have hfault := (h _ List.prefix_rfl).fault
  exact absurd hfault (by decide)

theorem failsForGood_rewound :
    FailsForGood (xdrmemstreamRewind oneWord .decode).2
      [.read .getLong, .read .getLong, .rewind (Pool.initial fun _ => none), .read .getLong] :=
  (failsForGood_iff oneWord_written _).mpr
    ⟨fun _ => rfl, fun _ => rfl, trivial, fun _ => rfl, trivial⟩

end AcpltKs
