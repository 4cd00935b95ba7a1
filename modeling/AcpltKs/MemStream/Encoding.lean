import AcpltKs.MemStream.Basic

/-! A memory stream that is being filled: what its bytes are, and that the storing operations append
to them. -/
namespace AcpltKs
open ByteMemory

/-- A fragment size the streams can work with: words never straddle the end of a fragment. -/
structure LegalSize (size : ℕ) : Prop where
  large : 256 ≤ size
  small : size < 2 ^ 32
  aligned : 4 ∣ size

/-- The size that the statics start with. -/
theorem legalSize_default : LegalSize 8192 := ⟨by decide, by decide, by decide⟩

/-- The stream is in encode mode and holds the bytes `bs`: the fragments before the current one are
full, and nothing is linked behind it. -/
structure MemStream.Encoding (size : ℕ) (s : MemStream) (bs : List UInt8) : Prop where
  op : s.op = .encode
  fault : s.fault = false
  room : s.offset + s.handy = size
  chain : ∃ before current, s.chain = .on before current [] ∧ (∀ f ∈ before, f.used = size) ∧
    current.used = size ∧ s.fragmentCount = (before.length + 1) % 2 ^ 32 ∧
    bs = before.flatMap Fragment.bytes ++ read current.data 0 s.offset

variable {size : ℕ} {pool : Pool} {s : MemStream} {bs : List UInt8}

theorem length_flatMap_bytes {fs : List Fragment} (h : ∀ f ∈ fs, f.used = size) :
    (fs.flatMap Fragment.bytes).length = fs.length * size := by
  induction fs with
  | nil => simp
  | cons f fs ih =>
    rw [List.flatMap_cons, List.length_append, ih fun g hg => h g (List.mem_cons_of_mem _ hg)]
    simp only [Fragment.bytes, read_length, h f List.mem_cons_self, List.length_cons]
    ring

/-- Position and length agree up to full fragments. -/
theorem MemStream.Encoding.length_eq (h : s.Encoding size bs) :
    ∃ k, bs.length = k * size + s.offset ∧ s.fragmentCount = (k + 1) % 2 ^ 32 := by
  obtain ⟨before, current, -, hfull, -, hcount, hbs⟩ := h.chain
  refine ⟨before.length, ?_, hcount⟩
  rw [hbs, List.length_append, length_flatMap_bytes hfull, read_length]

/-- Behind a multiple of four bytes there is room for a word or none at all. -/
theorem MemStream.Encoding.handy_aligned (h : s.Encoding size bs) (hsize : LegalSize size)
    (hbs : 4 ∣ bs.length) : 4 ∣ s.handy := by
  obtain ⟨k, hk, -⟩ := h.length_eq
  have hks : 4 ∣ k * size := hsize.aligned.mul_left k
  have hoff : 4 ∣ s.offset := (Nat.dvd_add_right hks).mp (hk ▸ hbs)
  exact (Nat.dvd_add_right hoff).mp (h.room ▸ hsize.aligned)

theorem xdrmemstreamClear_encoding (m : Mem) (hfault : m.2.fault = false) :
    (xdrmemstreamClear m).2.Encoding m.1.memStreamBufferSize [] := by
  refine ⟨rfl, hfault, Nat.zero_add _, [], _, rfl, by simp, rfl, ?_, by simp [xdrmemstreamClear]⟩
  simp [xdrmemstreamClear]

@[simp] theorem xdrmemstreamClear_bufferSize (m : Mem) :
    (xdrmemstreamClear m).1.memStreamBufferSize = m.1.memStreamBufferSize := by
  simp [xdrmemstreamClear]

theorem xdrmemstreamCreate_encoding {info : Option ℕ} {pool' : Pool}
    (h : xdrmemstreamCreate pool info = (some s, pool')) :
    s.Encoding pool.memStreamBufferSize [] ∧
      pool'.memStreamBufferSize = pool.memStreamBufferSize := by
  cases info with
  | none => simp [xdrmemstreamCreate] at h
  | some garbage =>
    simp only [xdrmemstreamCreate] at h
    have hsize := pool.takeFragment_bufferSize
    rcases htake : pool.takeFragment with ⟨_ | f, q⟩
    · simp [htake] at h
    · rw [htake] at h hsize
      simp only [Prod.mk.injEq, Option.some.injEq] at h
      obtain ⟨rfl, rfl⟩ := h
      refine ⟨⟨rfl, rfl, ?_, [], f, rfl, by simp, Pool.takeFragment_used htake, rfl, by simp⟩,
        hsize⟩
      simpa using hsize

/-- A new fragment does not change what is stored. -/
theorem allocateIfUsedUp_encoding (h : s.Encoding size bs) (hpool : pool.memStreamBufferSize = size)
    (hsize : LegalSize size) {ok : Bool} {pool' : Pool} {s' : MemStream}
    (ha : allocateIfUsedUp (pool, s) = (ok, pool', s')) :
    s'.Encoding size bs ∧ pool'.memStreamBufferSize = size ∧ (ok = true → s'.handy ≠ 0) ∧
      (ok = false → s' = s) := by
  by_cases h0 : s.handy = 0
  · obtain ⟨before, current, hchain, hfull, hused, hcount, hbs⟩ := h.chain
    have hroom := h.room
    have hps := pool.takeFragment_bufferSize
    simp only [allocateIfUsedUp, h0, ↓reduceIte, allocateMemoryStreamFragment] at ha
    rcases htake : pool.takeFragment with ⟨_ | f, q⟩
    · simp only [htake, Prod.mk.injEq] at ha
      obtain ⟨rfl, rfl, rfl⟩ := ha
      rw [htake] at hps
      exact ⟨h, hps.trans hpool, by simp, fun _ => rfl⟩
    · simp only [htake, Prod.mk.injEq] at ha
      obtain ⟨rfl, rfl, rfl⟩ := ha
      rw [htake] at hps
      have hq : q.memStreamBufferSize = size := hps.trans hpool
      have hcur : current.bytes = read current.data 0 s.offset := by
        rw [Fragment.bytes, hused, ← hroom, h0, Nat.add_zero]
      refine ⟨⟨h.op, h.fault, by simp [hq], before ++ [current], f, by simp [hchain, Chain.link],
        ?_, ?_, ?_, ?_⟩, hq, fun _ => ?_, by simp⟩
      · intro g hg
        rcases List.mem_append.mp hg with hg | hg
        · exact hfull g hg
        · rw [List.mem_singleton.mp hg, hused]
      · rw [Pool.takeFragment_used htake, hpool]
      · simp [hcount]
      · simp [hbs, hcur]
      · have := hsize.large
        simp only [hq]
        omega
  · simp only [allocateIfUsedUp, h0, ↓reduceIte, Prod.mk.injEq] at ha
    obtain ⟨rfl, rfl, rfl⟩ := ha
    exact ⟨h, hpool, fun _ => h0, fun _ => rfl⟩

/-- Bytes that fit into the current fragment are appended. -/
theorem MemStream.store_encoding (h : s.Encoding size bs) (cs : List UInt8)
    (hcs : cs.length ≤ s.handy) : (s.store cs).Encoding size (bs ++ cs) := by
  obtain ⟨before, current, hchain, hfull, hused, hcount, hbs⟩ := h.chain
  have hroom := h.room
  have hhandy : subU32 s.handy cs.length = s.handy - cs.length := subU32_of_le hcs
  refine ⟨h.op, h.fault, ?_, before, { current with data := write current.data s.offset cs },
    by simp [store, poke, skip, hchain, Chain.modify], hfull, hused, hcount, ?_⟩
  · simp only [store, poke, skip, hhandy]
    omega
  · simp only [store, poke, skip, read_write_append, hbs, List.append_assoc]

theorem memStreamPutLong_encoding (h : s.Encoding size bs) (hpool : pool.memStreamBufferSize = size)
    (hsize : LegalSize size) (hbs : 4 ∣ bs.length) (w : UInt32) {ok : Bool} {pool' : Pool}
    {s' : MemStream} (hp : memStreamPutLong (pool, s) w = (ok, pool', s')) :
    s'.Encoding size (if ok then bs ++ BigEndian.encode w else bs) ∧
      pool'.memStreamBufferSize = size := by
  rcases ha : allocateIfUsedUp (pool, s) with ⟨ok₁, pool₁, s₁⟩
  obtain ⟨henc, hsz, hroom, hsame⟩ := allocateIfUsedUp_encoding h hpool hsize ha
  simp only [memStreamPutLong, ha] at hp
  cases ok₁ with
  | false =>
    simp only [Prod.mk.injEq] at hp
    obtain ⟨rfl, rfl, rfl⟩ := hp
    have h0 : s.handy = 0 := by
      by_contra h0
      simp [allocateIfUsedUp, h0] at ha
    have hs : ({ s₁ with handy := 0 } : MemStream) = s₁ := by rw [hsame rfl, ← h0]
    rw [hs]
    exact ⟨henc, hsz⟩
  | true =>
    simp only [Prod.mk.injEq] at hp
    obtain ⟨rfl, rfl, rfl⟩ := hp
    have haligned := henc.handy_aligned hsize hbs
    have hne := hroom rfl
    exact ⟨MemStream.store_encoding henc _ (by simp; omega), hsz⟩

/-- Bytes are appended one fragment after the other, all of them or up to where the fragments ran
out. -/
theorem putBytesLoop_encoding (h : s.Encoding size bs) (hpool : pool.memStreamBufferSize = size)
    (hsize : LegalSize size) {fuel : ℕ} {cs : List UInt8} (hfuel : cs.length ≤ fuel) {ok : Bool}
    {pool' : Pool} {s' : MemStream} (hp : putBytesLoop fuel (pool, s) cs = (ok, pool', s')) :
    (∃ k, s'.Encoding size (bs ++ cs.take k) ∧ (ok = true → cs.length ≤ k)) ∧
      pool'.memStreamBufferSize = size := by
  induction fuel generalizing pool s bs cs with
  | zero =>
    simp only [putBytesLoop, Prod.mk.injEq] at hp
    obtain ⟨rfl, rfl, rfl⟩ := hp
    exact ⟨⟨0, by simpa using h, fun _ => by omega⟩, hpool⟩
  | succ fuel ih =>
    by_cases hcs : cs = []
    · simp only [putBytesLoop, hcs, List.isEmpty_nil, ↓reduceIte, Prod.mk.injEq] at hp
      obtain ⟨rfl, rfl, rfl⟩ := hp
      exact ⟨⟨0, by simpa [hcs] using h, by simp [hcs]⟩, hpool⟩
    · rcases ha : allocateIfUsedUp (pool, s) with ⟨ok₁, pool₁, s₁⟩
      obtain ⟨henc, hsz, hroom, -⟩ := allocateIfUsedUp_encoding h hpool hsize ha
      have hne : cs.isEmpty = false := by simpa using hcs
      simp only [putBytesLoop, hne, Bool.false_eq_true, ↓reduceIte, ha] at hp
      cases ok₁ with
      | false =>
        simp only [Prod.mk.injEq] at hp
        obtain ⟨rfl, rfl, rfl⟩ := hp
        exact ⟨⟨0, by simpa using henc, by simp⟩, hsz⟩
      | true =>
        have hpos := hroom rfl
        have hlen := List.length_pos_iff.mpr hcs
        have hstore := MemStream.store_encoding henc
          (cs.take (min s₁.handy cs.length)) (by simp)
        obtain ⟨⟨k, hk, hall⟩, hsz'⟩ := ih hstore hsz (by simp; omega) hp
        refine ⟨⟨min s₁.handy cs.length + k, ?_, fun hok => ?_⟩, hsz'⟩
        · rw [List.take_add, ← List.append_assoc]
          exact hk
        · have := hall hok
          simp only [List.length_drop] at this
          omega

theorem memStreamPutBytes_encoding (h : s.Encoding size bs)
    (hpool : pool.memStreamBufferSize = size) (hsize : LegalSize size) {cs : List UInt8}
    {ok : Bool} {pool' : Pool} {s' : MemStream}
    (hp : memStreamPutBytes (pool, s) cs = (ok, pool', s')) :
    (∃ k, s'.Encoding size (bs ++ cs.take k) ∧ (ok = true → cs.length ≤ k)) ∧
      pool'.memStreamBufferSize = size :=
  putBytesLoop_encoding h hpool hsize le_rfl hp

/-- What the transfer reads it takes off the socket, and the rest of `max` is still to come. -/
theorem readFromFdLoop_accounting (ios : List IoOutcome) (m : Mem) (sock : Socket) (max : ℕ) :
    let r := readFromFdLoop ios m sock max
    ∃ cs, sock.Reads r.socket cs ∧ r.max + cs.length = max := by
  induction ios generalizing m sock max with
  | nil =>
    refine ⟨[], ?_⟩
    by_cases h0 : max = 0
    · simp [readFromFdLoop, h0, Socket.Reads.refl]
    · rcases ha : allocateIfUsedUp m with ⟨_ | _, pool, s⟩ <;>
        simp [readFromFdLoop, h0, ha, Socket.Reads.refl]
  | cons io ios ih =>
    by_cases h0 : max = 0
    · exact ⟨[], by simp [readFromFdLoop, h0, Socket.Reads.refl]⟩
    · rcases ha : allocateIfUsedUp m with ⟨_ | _, pool, s⟩
      · exact ⟨[], by simp [readFromFdLoop, h0, ha, Socket.Reads.refl]⟩
      · rcases hr : sock.read (min s.handy max) io with ⟨e | bs, sock'⟩
        · simp only [readFromFdLoop, h0, ↓reduceIte, ha, hr, Socket.read_error hr]
          exact ⟨[], .refl sock, by simp⟩
        · obtain ⟨hreads, hlen⟩ := Socket.read_ok hr
          simp only [readFromFdLoop, h0, ↓reduceIte, ha, hr]
          split_ifs with hz hcount
          · obtain rfl := List.length_eq_zero_iff.mp hz
            exact ⟨[], hreads, by simp⟩
          · exact ⟨bs, hreads, by simp only; omega⟩
          · obtain ⟨cs, hreads', hmax'⟩ := ih (pool, s.store bs) sock' (max - bs.length)
            refine ⟨bs ++ cs, hreads.trans hreads', ?_⟩
            rw [List.length_append]
            omega

/-- What the transfer reads it appends to the stream. -/
theorem readFromFdLoop_encoding (h : s.Encoding size bs) (hpool : pool.memStreamBufferSize = size)
    (hsize : LegalSize size) (ios : List IoOutcome) (sock : Socket) (max : ℕ) :
    let r := readFromFdLoop ios (pool, s) sock max
    ∃ cs, r.socket.consumed = sock.consumed ++ cs ∧ r.mem.2.Encoding size (bs ++ cs) ∧
      r.mem.1.memStreamBufferSize = size := by
  induction ios generalizing pool s bs sock max with
  | nil =>
    by_cases h0 : max = 0
    · simpa [readFromFdLoop, h0] using ⟨h, hpool⟩
    · rcases ha : allocateIfUsedUp (pool, s) with ⟨ok, pool', s'⟩
      obtain ⟨henc, hsz, -, -⟩ := allocateIfUsedUp_encoding h hpool hsize ha
      cases ok <;> simpa [readFromFdLoop, h0, ha] using ⟨henc, hsz⟩
  | cons io ios ih =>
    by_cases h0 : max = 0
    · simpa [readFromFdLoop, h0] using ⟨h, hpool⟩
    · rcases ha : allocateIfUsedUp (pool, s) with ⟨ok, pool', s'⟩
      obtain ⟨henc, hsz, -, -⟩ := allocateIfUsedUp_encoding h hpool hsize ha
      cases ok with
      | false => simpa [readFromFdLoop, h0, ha] using ⟨henc, hsz⟩
      | true =>
        rcases hr : sock.read (min s'.handy max) io with ⟨e | cs, sock'⟩
        · simpa [readFromFdLoop, h0, ha, hr, Socket.read_error hr] using ⟨henc, hsz⟩
        · obtain ⟨hreads, hlen⟩ := Socket.read_ok hr
          have hstore := MemStream.store_encoding henc cs (by omega)
          simp only [readFromFdLoop, h0, ↓reduceIte, ha, hr]
          split_ifs with hz hcount
          · have hnil : cs = [] := List.length_eq_zero_iff.mp hz
            subst hnil
            exact ⟨[], hreads.consumed, by simpa using henc, hsz⟩
          · exact ⟨cs, hreads.consumed, hstore, hsz⟩
          · obtain ⟨ds, hcon', henc', hsz'⟩ := ih hstore hsz sock' (max - cs.length)
            refine ⟨cs ++ ds, ?_, ?_, hsz'⟩
            · rw [hcon', hreads.consumed, List.append_assoc]
            · rw [← List.append_assoc]
              exact henc'

/-- As long as the socket is quiet, only a lack of fragments makes the transfer fail. -/
theorem readFromFdLoop_quiet (h : s.Encoding size bs) (hpool : pool.memStreamBufferSize = size)
    (hsize : LegalSize size) {ios : List IoOutcome} (hios : ∀ io ∈ ios, io.isQuiet = true)
    (sock : Socket) (max : ℕ) :
    let r := readFromFdLoop ios (pool, s) sock max
    r.failure = none ∨ r.failure = some .enomem := by
  induction ios generalizing pool s bs sock max with
  | nil =>
    by_cases h0 : max = 0
    · simp [readFromFdLoop, h0]
    · rcases ha : allocateIfUsedUp (pool, s) with ⟨_ | _, m⟩ <;> simp [readFromFdLoop, h0, ha]
  | cons io ios ih =>
    by_cases h0 : max = 0
    · simp [readFromFdLoop, h0]
    · rcases ha : allocateIfUsedUp (pool, s) with ⟨ok, pool', s'⟩
      obtain ⟨henc, hsz, hroom, -⟩ := allocateIfUsedUp_encoding h hpool hsize ha
      cases ok with
      | false => simp [readFromFdLoop, h0, ha]
      | true =>
        have hcount : min s'.handy max ≠ 0 := by
          have := hroom rfl
          omega
        rcases hr : sock.read (min s'.handy max) io with ⟨e | cs, sock'⟩
        · obtain ⟨-, herr⟩ := Socket.read_quiet (hios io List.mem_cons_self) hcount
          have he : e.isTransient = true := by
            rcases herr e hr with rfl | rfl <;> rfl
          simp [readFromFdLoop, h0, ha, hr, he]
        · obtain ⟨hne, -⟩ := Socket.read_quiet (hios io List.mem_cons_self) hcount
          obtain ⟨-, hlen⟩ := Socket.read_ok hr
          have hcs : cs.length ≠ 0 := fun hz => hne cs hr (List.length_eq_zero_iff.mp hz)
          have hstore := MemStream.store_encoding henc cs (by omega)
          simp only [readFromFdLoop, h0, ↓reduceIte, ha, hr, hcs]
          split_ifs
          · exact Or.inl rfl
          · exact ih hstore hsz (fun io hio => hios io (List.mem_cons_of_mem _ hio)) sock' _

theorem xdrmemstreamReadFromFd_accounting (ios : List IoOutcome) (m : Mem) (sock : Socket)
    (max : ℕ) :
    let r := xdrmemstreamReadFromFd ios m sock max
    ∃ cs, sock.Reads r.socket cs ∧ r.max + cs.length = max := by
  by_cases hop : m.2.op = .encode
  · simpa only [xdrmemstreamReadFromFd, hop, ne_eq, not_true_eq_false, ↓reduceIte] using
      readFromFdLoop_accounting ios m sock max
  · simp only [xdrmemstreamReadFromFd, hop, ne_eq, not_false_eq_true, ↓reduceIte]
    exact ⟨[], .refl sock, by simp⟩

theorem xdrmemstreamReadFromFd_encoding (h : s.Encoding size bs)
    (hpool : pool.memStreamBufferSize = size) (hsize : LegalSize size) (ios : List IoOutcome)
    (sock : Socket) (max : ℕ) :
    let r := xdrmemstreamReadFromFd ios (pool, s) sock max
    ∃ cs, r.socket.consumed = sock.consumed ++ cs ∧ r.mem.2.Encoding size (bs ++ cs) ∧
      r.mem.1.memStreamBufferSize = size := by
  simpa only [xdrmemstreamReadFromFd, h.op, ne_eq, not_true_eq_false, ↓reduceIte] using
    readFromFdLoop_encoding h hpool hsize ios sock max

/-- The pool has no fragment to go on with where the current one is used up. -/
def Pool.isExhausted (pool : Pool) (handy : ℕ) : Bool :=
  handy = 0 && pool.takeFragment.1.isNone

/-- Does a transfer with these outcomes meet `ENOMEM`? There are `handy` bytes left of the current
fragment, `incoming` bytes to be read, and `max` bytes asked for. -/
def readMeetsEnomem : List IoOutcome → Pool → ℕ → ℕ → ℕ → Bool
  | [], pool, handy, _, max => max ≠ 0 && pool.isExhausted handy
  | io :: ios, pool, handy, incoming, max =>
      if max = 0 then false
      else if pool.isExhausted handy then true
      else
        let room := if handy = 0 then pool.memStreamBufferSize else handy
        let pool := if handy = 0 then pool.takeFragment.2 else pool
        let count := min room max
        match io with
        | .closed => false
        | .fails e => e = .enomem
        | .transfers n =>
            count ≤ min n incoming &&
              readMeetsEnomem ios pool (room - count) (incoming - count) (max - count)

theorem allocateIfUsedUp_false (h : pool.isExhausted s.handy = true) :
    ∃ m, allocateIfUsedUp (pool, s) = (false, m) := by
  simp only [Pool.isExhausted, Bool.and_eq_true, decide_eq_true_eq] at h
  obtain ⟨h0, hnone⟩ := h
  rcases htake : pool.takeFragment with ⟨_ | f, q⟩
  · exact ⟨(q, s), by simp [allocateIfUsedUp, h0, allocateMemoryStreamFragment, htake]⟩
  · simp [htake] at hnone

theorem allocateIfUsedUp_true (h : pool.isExhausted s.handy = false) :
    ∃ s', allocateIfUsedUp (pool, s) =
        (true, if s.handy = 0 then pool.takeFragment.2 else pool, s') ∧
      s'.handy = if s.handy = 0 then pool.memStreamBufferSize else s.handy := by
  by_cases h0 : s.handy = 0
  · have hsize := pool.takeFragment_bufferSize
    rcases htake : pool.takeFragment with ⟨_ | f, q⟩
    · simp [Pool.isExhausted, htake, h0] at h
    · rw [htake] at hsize
      simpa [allocateIfUsedUp, h0, allocateMemoryStreamFragment, htake] using hsize
  · simp [allocateIfUsedUp, h0]

/-- The transfer fails with `ENOMEM` exactly where it meets it. -/
theorem readFromFdLoop_enomem (hpool : 0 < pool.memStreamBufferSize) (ios : List IoOutcome)
    (sock : Socket) (max : ℕ) :
    (readFromFdLoop ios (pool, s) sock max).failure = some .enomem ↔
      readMeetsEnomem ios pool s.handy sock.incoming.length max = true := by
  induction ios generalizing pool s sock max with
  | nil =>
    by_cases h0 : max = 0
    · simp [readFromFdLoop, readMeetsEnomem, h0]
    · cases hno : pool.isExhausted s.handy with
      | true =>
        obtain ⟨m, ha⟩ := allocateIfUsedUp_false hno
        simp [readFromFdLoop, readMeetsEnomem, h0, ha, hno]
      | false =>
        obtain ⟨s', ha, -⟩ := allocateIfUsedUp_true hno
        simp only [readFromFdLoop, readMeetsEnomem, h0, ha, hno, ↓reduceIte, reduceCtorEq,
          Bool.and_false, Bool.false_eq_true]
  | cons io ios ih =>
    by_cases h0 : max = 0
    · simp [readFromFdLoop, readMeetsEnomem, h0]
    · cases hno : pool.isExhausted s.handy with
      | true =>
        obtain ⟨m, ha⟩ := allocateIfUsedUp_false hno
        simp only [readFromFdLoop, readMeetsEnomem, h0, ha, hno, ↓reduceIte]
      | false =>
        obtain ⟨s', ha, hhandy⟩ := allocateIfUsedUp_true hno
        have hroom : s'.handy ≠ 0 := by
          rw [hhandy]
          split <;> omega
        have hpool' : 0 < (if s.handy = 0 then pool.takeFragment.2
            else pool).memStreamBufferSize := by
          split
          · rwa [pool.takeFragment_bufferSize]
          · exact hpool
        simp only [readMeetsEnomem, h0, hno, ↓reduceIte, ← hhandy, Bool.false_eq_true]
        simp only [readFromFdLoop, h0, ha, ↓reduceIte]
        generalize (if s.handy = 0 then pool.takeFragment.2 else pool) = pool' at hpool' ⊢
        have hcount : min s'.handy max ≠ 0 := by omega
        cases io with
        | closed => simp [Socket.read]
        | fails e =>
          cases e <;> simp [Socket.read, Errno.isTransient]
        | transfers n =>
          by_cases hmin : min n sock.incoming.length = 0
          · simp [Socket.read, hcount, hmin, Errno.isTransient]
          · have hlen : (sock.incoming.take (min n (min s'.handy max))).length =
                min (min n (min s'.handy max)) sock.incoming.length := List.length_take
            simp only [Socket.read, hcount, hmin, ↓reduceIte, hlen]
            by_cases hfull : min s'.handy max ≤ min n sock.incoming.length
            · have hall : min n (min s'.handy max) = min s'.handy max := by omega
              have hsame : min (min s'.handy max) sock.incoming.length = min s'.handy max := by
                omega
              have hhandy' : (s'.store (sock.incoming.take (min s'.handy max))).handy =
                  s'.handy - min s'.handy max := by
                rw [hall, hsame] at hlen
                simp only [MemStream.store, MemStream.skip, MemStream.poke, hlen]
                exact subU32_of_le (by omega)
              simp only [hall, hsame, hcount, ↓reduceIte, hfull, decide_true, Bool.true_and,
                ne_eq, not_true_eq_false, ih hpool', hhandy', List.length_drop]
            · have hpart : min s'.handy max ≠
                  min (min n (min s'.handy max)) sock.incoming.length := by omega
              have hsome : min (min n (min s'.handy max)) sock.incoming.length ≠ 0 := by omega
              simp only [hsome, ↓reduceIte, ne_eq, hpart, not_false_eq_true, hfull, decide_false,
                Bool.false_and, Bool.false_eq_true, reduceCtorEq]

end AcpltKs
