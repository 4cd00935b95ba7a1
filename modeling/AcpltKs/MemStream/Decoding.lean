import AcpltKs.MemStream.Encoding

/-! A memory stream that is being read: the position in the bytes it was filled with, and what a read
returns there. -/
namespace AcpltKs
open ByteMemory

/-- The fragments hold the bytes `body`, all of them but the last one full. -/
structure Laid (size : ℕ) (frags : List Fragment) (body : List UInt8) : Prop where
  full : ∀ f ∈ frags.dropLast, f.used = size
  bounded : ∀ f ∈ frags, f.used ≤ size
  bytes : frags.flatMap Fragment.bytes = body

/-- The stream is in decode mode, `pos` bytes behind the start of the chain `frags`. -/
structure MemStream.Decoding (size : ℕ) (frags : List Fragment) (s : MemStream) (pos : ℕ) :
    Prop where
  op : s.op = .decode
  fault : s.fault = false
  chain : ∃ before current after, s.chain = .on before current after ∧
    frags = before ++ current :: after ∧ pos = before.length * size + s.offset ∧
    s.offset + s.handy = current.used

/-- A read has run off the end of the chain. -/
def MemStream.Ended (s : MemStream) : Prop :=
  s.handy = 0 ∧ ((∃ first rest, s.chain = .null first rest) ∨
    ∃ before current, s.chain = .on before current [])

/-- How many bytes are left from position `pos` on before the fragment or the body ends. -/
def inFragment (size len pos : ℕ) : ℕ := min (size - pos % size) (len - pos)

variable {size pos : ℕ} {frags : List Fragment} {body : List UInt8} {s s' : MemStream}

theorem Laid.before_full (hl : Laid size frags body) {before after : List Fragment}
    {current : Fragment} (hf : frags = before ++ current :: after) :
    (∀ f ∈ before, f.used = size) ∧ (after ≠ [] → current.used = size) := by
  subst hf
  refine ⟨fun f hmem => hl.full f ?_, fun hne => hl.full current ?_⟩
  · rw [List.dropLast_append_of_ne_nil (List.cons_ne_nil _ _)]
    exact List.mem_append_left _ hmem
  · obtain ⟨next, after, rfl⟩ := List.exists_cons_of_ne_nil hne
    rw [List.dropLast_append_of_ne_nil (List.cons_ne_nil _ _)]
    simp

/-- The unread bytes, split where the current fragment ends. -/
theorem MemStream.Decoding.unread (hl : Laid size frags body) (h : s.Decoding size frags pos) :
    ∃ before current after, s.chain = .on before current after ∧
      frags = before ++ current :: after ∧ pos = before.length * size + s.offset ∧
      s.offset + s.handy = current.used ∧
      body.drop pos = s.peek s.handy ++ after.flatMap Fragment.bytes := by
  obtain ⟨before, current, after, hchain, hf, hpos, hused⟩ := h.chain
  refine ⟨before, current, after, hchain, hf, hpos, hused, ?_⟩
  have hlen := length_flatMap_bytes (hl.before_full hf).1
  have hdrop : current.bytes.drop s.offset = s.peek s.handy := by
    rw [Fragment.bytes, ← hused, read_drop _ _ (Nat.le_add_right _ _), Nat.zero_add,
      Nat.add_sub_cancel_left]
    simp [peek, hchain, Chain.memory]
  have hcur : current.bytes.length = s.offset + s.handy := by simp [Fragment.bytes, hused]
  rw [← hl.bytes, hf, List.flatMap_append, List.flatMap_cons, hpos, ← hlen, ← List.drop_drop,
    List.drop_left, List.drop_append_of_le_length (by omega), hdrop]

/-- What lies in front of the private pointer are the next bytes of the body. -/
theorem MemStream.Decoding.peek_eq (hl : Laid size frags body) (h : s.Decoding size frags pos)
    {n : ℕ} (hn : n ≤ s.handy) : s.peek n = (body.drop pos).take n := by
  obtain ⟨before, current, after, hchain, hf, hpos, hused, hdrop⟩ := h.unread hl
  rw [hdrop, List.take_append_of_le_length (by simpa [peek] using hn)]
  exact (read_take _ _ hn).symm

theorem MemStream.Decoding.handy_add_le (hl : Laid size frags body)
    (h : s.Decoding size frags pos) (h0 : s.handy ≠ 0) : pos + s.handy ≤ body.length := by
  obtain ⟨before, current, after, hchain, hf, hpos, hused, hdrop⟩ := h.unread hl
  have := congrArg List.length hdrop
  simp only [List.length_drop, List.length_append, peek, read_length] at this
  omega

/-- What is left of a fragment that is not used up depends on the position alone. -/
theorem MemStream.Decoding.handy_eq (hl : Laid size frags body) (h : s.Decoding size frags pos)
    (h0 : s.handy ≠ 0) : s.handy = inFragment size body.length pos := by
  obtain ⟨before, current, after, hchain, hf, hpos, hused, hdrop⟩ := h.unread hl
  have hle := h.handy_add_le hl h0
  have hbound := hl.bounded current (by simp [hf])
  have hmod : pos % size = s.offset := by
    rw [hpos, Nat.mul_comm, Nat.mul_add_mod]
    exact Nat.mod_eq_of_lt (by omega)
  have hlen := congrArg List.length hdrop
  simp only [List.length_drop, List.length_append, peek, read_length] at hlen
  rw [inFragment, hmod]
  rcases after.eq_nil_or_concat with rfl | ⟨_, _, rfl⟩
  · simp only [List.flatMap_nil, List.length_nil] at hlen
    omega
  · have := (hl.before_full hf).2 (by simp)
    omega

/-- Moving within the current fragment. -/
theorem MemStream.Decoding.skip (h : s.Decoding size frags pos) {n : ℕ} (hn : n ≤ s.handy) :
    (s.skip n).Decoding size frags (pos + n) := by
  obtain ⟨before, current, after, hchain, hf, hpos, hused⟩ := h.chain
  refine ⟨h.op, h.fault, before, current, after, hchain, hf, ?_, ?_⟩
  · simp only [MemStream.skip]
    omega
  · simp only [MemStream.skip, subU32_of_le hn]
    omega

/-- Go on with the next fragment where the current one is used up: either there are bytes now, or
the body has been read. -/
theorem advanceIfUsedUp_decoding (hl : Laid size frags body) (h : s.Decoding size frags pos)
    (hsize : LegalSize size) {ok : Bool} (ha : advanceIfUsedUp s = (ok, s')) :
    (ok = true → s'.Decoding size frags pos ∧ s'.handy ≠ 0) ∧
      (ok = false → pos = body.length ∧ s'.Ended) := by
  by_cases h0 : s.handy = 0
  · obtain ⟨before, current, after, hchain, hf, hpos, hused, hdrop⟩ := h.unread hl
    have hlen := congrArg List.length hdrop
    simp only [List.length_drop, List.length_append, MemStream.peek, read_length, h0,
      Nat.zero_add] at hlen
    have hposle : pos ≤ body.length := by
      have hb := (hl.before_full hf).1
      rw [← hl.bytes, hf, List.flatMap_append, List.length_append, length_flatMap_bytes hb, hpos]
      simp only [List.flatMap_cons, List.length_append, Fragment.bytes, read_length]
      omega
    cases after with
    | nil =>
      simp only [advanceIfUsedUp, h0, ↓reduceIte, advanceToNextFragment, hchain,
        Prod.mk.injEq] at ha
      obtain ⟨rfl, rfl⟩ := ha
      simp only [List.flatMap_nil, List.length_nil] at hlen
      exact ⟨by simp, fun _ => ⟨by omega, rfl, Or.inl ⟨_, _, rfl⟩⟩⟩
    | cons next after =>
      have hcur : current.used = size := (hl.before_full hf).2 (by simp)
      simp only [advanceIfUsedUp, h0, ↓reduceIte, advanceToNextFragment, hchain,
        Prod.mk.injEq] at ha
      obtain ⟨rfl, rfl⟩ := ha
      refine ⟨fun hok => ⟨⟨h.op, h.fault, before ++ [current], next, after, rfl, ?_, ?_, ?_⟩,
        by simpa using hok⟩, fun hok => ?_⟩
      · simp [hf]
      · have hoff : s.offset = size := by omega
        simp only [hpos, List.length_append, List.length_singleton, hoff]
        ring
      · simp
      · -- an empty fragment can only be the last one
        have hnext : next.used = 0 := by simpa using hok
        have hnil : after = [] := by
          by_contra hne
          have hf' : frags = (before ++ [current]) ++ next :: after := by simp [hf]
          have := (hl.before_full hf').2 hne
          have := hsize.large
          omega
        subst hnil
        simp only [List.flatMap_cons, List.flatMap_nil, List.append_nil, Fragment.bytes,
          read_length, hnext] at hlen
        exact ⟨by omega, by simp [hnext], Or.inr ⟨_, _, rfl⟩⟩
  · simp only [advanceIfUsedUp, h0, ↓reduceIte, Prod.mk.injEq] at ha
    obtain ⟨rfl, rfl⟩ := ha
    exact ⟨fun _ => ⟨h, h0⟩, by simp⟩

/-- Behind the end, nothing is left to go on with. -/
theorem MemStream.Ended.advance (h : s.Ended) {ok : Bool} (ha : advanceIfUsedUp s = (ok, s')) :
    ok = false ∧ s'.Ended := by
  obtain ⟨h0, ⟨first, rest, hchain⟩ | ⟨before, current, hchain⟩⟩ := h
  · simp only [advanceIfUsedUp, h0, ↓reduceIte, advanceToNextFragment, hchain,
      Prod.mk.injEq] at ha
    obtain ⟨rfl, rfl⟩ := ha
    exact ⟨rfl, rfl, Or.inl ⟨_, _, rfl⟩⟩
  · simp only [advanceIfUsedUp, h0, ↓reduceIte, advanceToNextFragment, hchain,
      Prod.mk.injEq] at ha
    obtain ⟨rfl, rfl⟩ := ha
    exact ⟨rfl, rfl, Or.inl ⟨_, _, rfl⟩⟩

/-- With a whole word left, `memStreamGetLong` returns it; at the end it fails. -/
theorem memStreamGetLong_decoding (hl : Laid size frags body) (h : s.Decoding size frags pos)
    (hsize : LegalSize size) (hfit : inFragment size body.length pos ∉ [1, 2, 3])
    {w : Option UInt32} (hg : memStreamGetLong s = (w, s')) :
    (pos + 4 ≤ body.length ∧ w = some (BigEndian.decode (body.drop pos)) ∧
        s'.Decoding size frags (pos + 4)) ∨
      (pos = body.length ∧ w = none ∧ s'.Ended) := by
  rcases ha : advanceIfUsedUp s with ⟨_ | _, t⟩ <;>
    simp only [memStreamGetLong, ha, Prod.mk.injEq] at hg <;> obtain ⟨rfl, rfl⟩ := hg
  · obtain ⟨hpos, hend⟩ := (advanceIfUsedUp_decoding hl h hsize ha).2 rfl
    exact Or.inr ⟨hpos, rfl, hend⟩
  · obtain ⟨ht, h0⟩ := (advanceIfUsedUp_decoding hl h hsize ha).1 rfl
    have hhandy := ht.handy_eq hl h0
    have h4 : 4 ≤ t.handy := by
      rw [← hhandy] at hfit
      simp only [List.mem_cons, List.not_mem_nil, or_false, not_or] at hfit
      omega
    have hle := ht.handy_add_le hl h0
    refine Or.inl ⟨by omega, ?_, ht.skip h4⟩
    rw [ht.peek_eq hl h4, BigEndian.decode_take le_rfl]

/-- `memStreamGetBytes` returns the next bytes, or fails because there are not enough. -/
theorem getBytesLoop_decoding (hl : Laid size frags body) (h : s.Decoding size frags pos)
    (hsize : LegalSize size) {fuel len : ℕ} (hfuel : len ≤ fuel) {ok : Bool} {bs : List UInt8}
    (hg : getBytesLoop fuel s len = (ok, bs, s')) :
    (ok = true ∧ bs = (body.drop pos).take len ∧ bs.length = len ∧
        s'.Decoding size frags (pos + len)) ∨
      (ok = false ∧ body.length < pos + len ∧ s'.Ended) := by
  induction fuel generalizing s pos len bs ok s' with
  | zero =>
    obtain rfl : len = 0 := by omega
    simp only [getBytesLoop, decide_true, Prod.mk.injEq] at hg
    obtain ⟨rfl, rfl, rfl⟩ := hg
    exact Or.inl ⟨rfl, by simp, rfl, h⟩
  | succ fuel ih =>
    by_cases hlen : len = 0
    · subst hlen
      simp only [getBytesLoop, ↓reduceIte, Prod.mk.injEq] at hg
      obtain ⟨rfl, rfl, rfl⟩ := hg
      exact Or.inl ⟨rfl, by simp, rfl, h⟩
    · rcases ha : advanceIfUsedUp s with ⟨_ | _, t⟩
      · simp only [getBytesLoop, hlen, ↓reduceIte, ha, Prod.mk.injEq] at hg
        obtain ⟨rfl, rfl, rfl⟩ := hg
        obtain ⟨hpos, hend⟩ := (advanceIfUsedUp_decoding hl h hsize ha).2 rfl
        exact Or.inr ⟨rfl, by omega, hend⟩
      · obtain ⟨ht, h0⟩ := (advanceIfUsedUp_decoding hl h hsize ha).1 rfl
        have hcount : min t.handy len ≤ t.handy := Nat.min_le_left _ _
        have hrestfuel : len - min t.handy len ≤ fuel := by omega
        rcases hrest : getBytesLoop fuel (t.skip (min t.handy len)) (len - min t.handy len) with
          ⟨ok', cs, s''⟩
        simp only [getBytesLoop, hlen, ↓reduceIte, ha, hrest, Prod.mk.injEq] at hg
        obtain ⟨rfl, rfl, rfl⟩ := hg
        rcases ih (ht.skip hcount) hrestfuel hrest with
          ⟨rfl, rfl, hbs, hdec⟩ | ⟨rfl, hlt, hend⟩
        · refine Or.inl ⟨rfl, ?_, ?_, ?_⟩
          · rw [ht.peek_eq hl hcount, ← List.drop_drop, ← List.take_add,
              Nat.add_sub_cancel' (Nat.min_le_right _ _)]
          · simp only [List.length_append, MemStream.peek, read_length, hbs]
            omega
          · have : pos + min t.handy len + (len - min t.handy len) = pos + len := by omega
            rwa [this] at hdec
        · exact Or.inr ⟨rfl, by omega, hend⟩

theorem memStreamGetBytes_decoding (hl : Laid size frags body) (h : s.Decoding size frags pos)
    (hsize : LegalSize size) {len : ℕ} {ok : Bool} {bs : List UInt8}
    (hg : memStreamGetBytes s len = (ok, bs, s')) :
    (ok = true ∧ bs = (body.drop pos).take len ∧ bs.length = len ∧
        s'.Decoding size frags (pos + len)) ∨
      (ok = false ∧ body.length < pos + len ∧ s'.Ended) :=
  getBytesLoop_decoding hl h hsize le_rfl hg

/-- Rewinding a stream that has been filled. -/
theorem xdrmemstreamRewind_encoding {pool : Pool} {bs : List UInt8} (h : s.Encoding size bs)
    (hpool : pool.memStreamBufferSize = size) (hsize : LegalSize size) :
    let m := xdrmemstreamRewind (pool, s) .decode
    m.1 = pool ∧ m.2.length = bs.length % 2 ^ 32 ∧
      ∃ frags, Laid size frags bs ∧ m.2.Decoding size frags 0 := by
  obtain ⟨before, current, hchain, hfull, hused, hcount, hbs⟩ := h.chain
  have hroom := h.room
  have hlt := hsize.small
  have hsub : subU32 current.used s.handy = s.offset := by
    rw [subU32_of_le (by omega)]
    omega
  have hlength : subU32 (s.fragmentCount * size % 2 ^ 32) s.handy = bs.length % 2 ^ 32 := by
    obtain ⟨k, hk, hcount'⟩ := h.length_eq
    have hmul : s.fragmentCount * size % 2 ^ 32 = (k * size + size) % 2 ^ 32 := by
      rw [hcount', Nat.mod_mul_mod]
      ring_nf
    rw [hmul, hk, subU32]
    split <;> omega
  have hlaid : Laid size (before ++ [{ current with used := s.offset }]) bs := by
    refine ⟨by simpa using hfull, ?_, ?_⟩
    · intro f hf
      rcases List.mem_append.mp hf with hf | hf
      · exact (hfull f hf).le
      · rw [List.mem_singleton.mp hf]
        simp only
        omega
    · simp [hbs, Fragment.bytes]
  refine ⟨?_, ?_, _, hlaid, ?_⟩
  · cases before <;> simp [xdrmemstreamRewind, h.op]
  · cases before <;> simpa [xdrmemstreamRewind, h.op, hpool] using hlength
  · cases before with
    | nil =>
      refine ⟨by simp [xdrmemstreamRewind, h.op], ?_, [], { current with used := s.offset }, [],
        ?_, rfl, ?_, ?_⟩ <;>
      simp [xdrmemstreamRewind, h.op, h.fault, hchain, Chain.modify, Chain.fragments, hsub]
    | cons first before =>
      refine ⟨by simp [xdrmemstreamRewind, h.op], ?_, [], first,
        before ++ [{ current with used := s.offset }], ?_, rfl, ?_, ?_⟩ <;>
      simp [xdrmemstreamRewind, h.op, h.fault, hchain, Chain.modify, Chain.fragments, hsub]

/-- Rewinding once more goes back to the start. -/
theorem xdrmemstreamRewind_decoding (pool : Pool) (h : s.Decoding size frags pos) :
    let m := xdrmemstreamRewind (pool, s) .decode
    m.1 = pool ∧ m.2.length = s.length ∧ m.2.Decoding size frags 0 := by
  obtain ⟨before, current, after, hchain, hf, hpos, hused⟩ := h.chain
  cases before with
  | nil =>
    refine ⟨by simp [xdrmemstreamRewind, h.op], by simp [xdrmemstreamRewind, h.op],
      ⟨by simp [xdrmemstreamRewind, h.op], ?_, [], current, after, ?_, hf, ?_, ?_⟩⟩ <;>
    simp [xdrmemstreamRewind, h.op, h.fault, hchain, Chain.fragments]
  | cons first before =>
    refine ⟨by simp [xdrmemstreamRewind, h.op], by simp [xdrmemstreamRewind, h.op],
      ⟨by simp [xdrmemstreamRewind, h.op], ?_, [], first, before ++ current :: after, ?_, hf, ?_,
        ?_⟩⟩ <;>
    simp [xdrmemstreamRewind, h.op, h.fault, hchain, Chain.fragments]

end AcpltKs
