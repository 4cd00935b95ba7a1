import AcpltKs.MemStream.Decoding

/-! What the reads of a received body deliver: the stream is filled from a socket, rewound, and read
by any sequence of calls. -/
namespace AcpltKs
open ByteMemory

/-- A read from a stream. -/
inductive ReadOp where
  | getLong
  | getBytes (len : ℕ)
  deriving DecidableEq

/-- The number of bytes asked for. -/
def ReadOp.len : ReadOp → ℕ
  | .getLong => 4
  | .getBytes len => len

/-- Did the call succeed, and which bytes did it hand out? -/
def ReadOp.perform (s : MemStream) : ReadOp → Bool × List UInt8 × MemStream
  | .getLong =>
      match memStreamGetLong s with
      | (some w, s) => (true, BigEndian.encode w, s)
      | (none, s) => (false, [], s)
  | .getBytes len => memStreamGetBytes s len

/-- What reads leave alone. -/
structure MemStream.Keeps (s s' : MemStream) : Prop where
  op : s'.op = s.op
  fragments : s'.chain.fragments = s.chain.fragments
  fragmentCount : s'.fragmentCount = s.fragmentCount
  length : s'.length = s.length

theorem MemStream.Keeps.trans {s s' s'' : MemStream} (h : s.Keeps s') (h' : s'.Keeps s'') :
    s.Keeps s'' :=
  ⟨h'.op.trans h.op, h'.fragments.trans h.fragments, h'.fragmentCount.trans h.fragmentCount,
    h'.length.trans h.length⟩

theorem advanceIfUsedUp_keeps (s : MemStream) : s.Keeps (advanceIfUsedUp s).2 := by
  unfold advanceIfUsedUp
  split_ifs
  · unfold advanceToNextFragment
    cases hchain : s.chain with
    | on before current after =>
      cases after with
      | nil =>
        refine ⟨rfl, ?_, rfl, rfl⟩
        rw [hchain]
        rfl
      | cons next after =>
        refine ⟨rfl, ?_, rfl, rfl⟩
        rw [hchain]
        cases before with
        | nil => rfl
        | cons first before => exact congrArg (Prod.mk first) (List.append_assoc ..)
    | null first rest => exact ⟨rfl, by rw [hchain], rfl, rfl⟩
    | stray first rest current => exact ⟨rfl, by rw [hchain]; rfl, rfl, rfl⟩
  · exact ⟨rfl, rfl, rfl, rfl⟩

theorem getBytesLoop_keeps (fuel : ℕ) (s : MemStream) (len : ℕ) :
    s.Keeps (getBytesLoop fuel s len).2.2 := by
  induction fuel generalizing s len with
  | zero => exact ⟨rfl, rfl, rfl, rfl⟩
  | succ fuel ih =>
    rw [getBytesLoop]
    split_ifs
    · exact ⟨rfl, rfl, rfl, rfl⟩
    · have hkeeps := advanceIfUsedUp_keeps s
      rcases ha : advanceIfUsedUp s with ⟨_ | _, t⟩
      · rw [ha] at hkeeps
        exact hkeeps
      · rw [ha] at hkeeps
        have hskip : t.Keeps (t.skip (min t.handy len)) := ⟨rfl, rfl, rfl, rfl⟩
        exact (hkeeps.trans hskip).trans (ih _ _)

theorem ReadOp.perform_keeps (op : ReadOp) (s : MemStream) : s.Keeps (op.perform s).2.2 := by
  cases op with
  | getLong =>
    have hkeeps := advanceIfUsedUp_keeps s
    unfold perform memStreamGetLong
    rcases ha : advanceIfUsedUp s with ⟨_ | _, t⟩
    · rw [ha] at hkeeps
      exact hkeeps
    · rw [ha] at hkeeps
      exact hkeeps.trans ⟨rfl, rfl, rfl, rfl⟩
  | getBytes len => exact getBytesLoop_keeps len s len

/-- All bytes that the successful calls hand out. -/
def delivered : MemStream → List ReadOp → List UInt8
  | _, [] => []
  | s, op :: ops =>
      let (ok, bs, s') := op.perform s
      (if ok then bs else []) ++ delivered s' ops

/-- Fill the stream by calls of `xdrmemstreamReadFromFd`, each with its outcomes and its limit. -/
def fill : Mem → Socket → List (List IoOutcome × ℕ) → Mem × Socket
  | m, sock, [] => (m, sock)
  | m, sock, (ios, max) :: calls =>
      let r := xdrmemstreamReadFromFd ios m sock max
      fill r.mem r.socket calls

/-- An empty stream: just created, or cleared. -/
inductive StartsEmpty (size : ℕ) : Mem → Prop
  | created {pool pool' : Pool} {info : Option ℕ} {s : MemStream} :
      xdrmemstreamCreate pool info = (some s, pool') → pool.memStreamBufferSize = size →
      StartsEmpty size (pool', s)
  | cleared {m : Mem} : m.2.fault = false → m.1.memStreamBufferSize = size →
      StartsEmpty size (xdrmemstreamClear m)

/-- However the body got into a stream, the calls hand out consecutive bytes of it, from its start
on, and nothing else. -/
def DeliversBody (size : ℕ) (body : List UInt8) (ops : List ReadOp) : Prop :=
  ∀ m sock calls, StartsEmpty size m →
    (fill m sock calls).2.consumed = sock.consumed ++ body →
    delivered (xdrmemstreamRewind (fill m sock calls).1 .decode).2 ops <+: body

/-- No word is asked for where one, two or three bytes are left of the fragment or the body. -/
def WordsFit (size len : ℕ) : ℕ → List ReadOp → Prop
  | _, [] => True
  | pos, op :: ops =>
      (op = .getLong → inFragment size len pos ∉ [1, 2, 3]) ∧
        WordsFit size len (pos + op.len) ops

instance (size len : ℕ) : ∀ pos ops, Decidable (WordsFit size len pos ops)
  | _, [] => isTrue trivial
  | pos, op :: ops =>
      have := instDecidableWordsFit size len (pos + op.len) ops
      inferInstanceAs (Decidable (_ ∧ _))

variable {size pos : ℕ} {frags : List Fragment} {body : List UInt8} {s s' : MemStream}

/-- A read either hands out the next bytes or finds too few of them. -/
theorem ReadOp.perform_decoding (hl : Laid size frags body) (h : s.Decoding size frags pos)
    (hsize : LegalSize size) (op : ReadOp)
    (hfit : op = .getLong → inFragment size body.length pos ∉ [1, 2, 3]) {ok : Bool}
    {bs : List UInt8} (hp : op.perform s = (ok, bs, s')) :
    (ok = true ∧ bs = (body.drop pos).take op.len ∧ pos + op.len ≤ max pos body.length ∧
        s'.Decoding size frags (pos + op.len)) ∨
      (ok = false ∧ body.length < pos + op.len ∧ s'.Ended) := by
  cases op with
  | getLong =>
    rcases hg : memStreamGetLong s with ⟨w, t⟩
    rcases memStreamGetLong_decoding hl h hsize (hfit rfl) hg with
      ⟨hle, rfl, hdec⟩ | ⟨hpos, rfl, hend⟩ <;>
    simp only [perform, hg, Prod.mk.injEq] at hp <;>
    obtain ⟨rfl, rfl, rfl⟩ := hp
    · refine Or.inl ⟨rfl, ?_, by simp only [len]; omega, hdec⟩
      have hword := BigEndian.eq_encode_append (body.drop pos) (by simp; omega)
      simpa only [len, BigEndian.encode_length] using
        (congrArg (List.take 4) hword).trans (List.take_left' rfl) |>.symm
    · exact Or.inr ⟨rfl, by simp only [len]; omega, hend⟩
  | getBytes len =>
    rcases memStreamGetBytes_decoding hl h hsize hp with ⟨rfl, hbs, hlen, hdec⟩ | hend
    · refine Or.inl ⟨rfl, hbs, ?_, hdec⟩
      simp only [hbs, List.length_take, List.length_drop] at hlen
      simp only [ReadOp.len]
      omega
    · exact Or.inr hend

/-- Behind the end, reads hand out nothing. -/
theorem ReadOp.perform_ended (h : s.Ended) (op : ReadOp) {ok : Bool} {bs : List UInt8}
    (hp : op.perform s = (ok, bs, s')) : (ok = true → bs = []) ∧ s'.Ended := by
  rcases ha : advanceIfUsedUp s with ⟨ok₁, t⟩
  obtain ⟨rfl, hend⟩ := h.advance ha
  cases op with
  | getLong =>
    simp only [perform, memStreamGetLong, ha, Prod.mk.injEq] at hp
    obtain ⟨rfl, rfl, rfl⟩ := hp
    exact ⟨by simp, hend⟩
  | getBytes len =>
    cases len with
    | zero =>
      simp only [perform, memStreamGetBytes, getBytesLoop, Prod.mk.injEq] at hp
      obtain ⟨-, rfl, rfl⟩ := hp
      exact ⟨by simp, h⟩
    | succ len =>
      simp only [perform, memStreamGetBytes, getBytesLoop, Nat.succ_ne_zero, ↓reduceIte, ha,
        Prod.mk.injEq] at hp
      obtain ⟨rfl, rfl, rfl⟩ := hp
      exact ⟨by simp, hend⟩

theorem delivered_ended (h : s.Ended) (ops : List ReadOp) : delivered s ops = [] := by
  induction ops generalizing s with
  | nil => rfl
  | cons op ops ih =>
    rcases hp : op.perform s with ⟨ok, bs, s'⟩
    obtain ⟨hbs, hend⟩ := ReadOp.perform_ended h op hp
    simp only [delivered, hp, ih hend, List.append_nil, ite_eq_right_iff]
    exact hbs

/-- As long as the words fit, the reads continue what was handed out before. -/
theorem delivered_prefix (hl : Laid size frags body) (hsize : LegalSize size)
    (h : s.Decoding size frags pos) {ops : List ReadOp}
    (hfit : WordsFit size body.length pos ops) : body.take pos ++ delivered s ops <+: body := by
  induction ops generalizing s pos with
  | nil => simpa [delivered] using List.take_prefix pos body
  | cons op ops ih =>
    rcases hp : op.perform s with ⟨ok, bs, s'⟩
    rcases ReadOp.perform_decoding hl h hsize op hfit.1 hp with
      ⟨rfl, hbs, -, hdec⟩ | ⟨rfl, -, hend⟩
    · simp only [delivered, hp, ↓reduceIte, hbs, ← List.append_assoc, ← List.take_add]
      exact ih hdec hfit.2
    · simp only [delivered, hp, delivered_ended hend]
      simpa using List.take_prefix pos body

/-- Behind the end of the body every word fits, because none is handed out. -/
theorem wordsFit_of_le {len : ℕ} (h : len ≤ pos) (ops : List ReadOp) :
    WordsFit size len pos ops := by
  induction ops generalizing pos with
  | nil => trivial
  | cons op ops ih =>
    refine ⟨fun _ => ?_, ih (by omega)⟩
    have h0 : inFragment size len pos = 0 := by
      simp only [inFragment]
      omega
    simp [h0]

/-- All memory behind the bytes in use holds `c`. -/
def Stale (c : UInt8) (frags : List Fragment) : Prop := ∀ f ∈ frags, ∀ i, f.used ≤ i → f.data i = c

/-- A word that does not fit is completed by what lies behind. -/
theorem memStreamGetLong_stale (hl : Laid size frags body) (h : s.Decoding size frags pos)
    (hsize : LegalSize size) {c : UInt8} (hstale : Stale c frags)
    (hbad : inFragment size body.length pos ∈ [1, 2, 3]) :
    ∃ bs s', ReadOp.perform s .getLong = (true, bs, s') ∧
      bs[inFragment size body.length pos]? = some c := by
  rcases ha : advanceIfUsedUp s with ⟨_ | _, t⟩
  · obtain ⟨hpos, -⟩ := (advanceIfUsedUp_decoding hl h hsize ha).2 rfl
    simp [inFragment, hpos] at hbad
  · obtain ⟨ht, h0⟩ := (advanceIfUsedUp_decoding hl h hsize ha).1 rfl
    rw [← ht.handy_eq hl h0] at hbad ⊢
    obtain ⟨before, current, after, hchain, hf, -, hused⟩ := ht.chain
    refine ⟨t.peek 4, t.skip 4, ?_, ?_⟩
    · have hpeek : BigEndian.encode (BigEndian.decode (t.peek 4)) = t.peek 4 :=
        BigEndian.encode_decode (by simp [MemStream.peek])
      simp only [ReadOp.perform, memStreamGetLong, ha, hpeek]
    · have h4 : t.handy < (t.peek 4).length := by
        simp only [MemStream.peek, read_length]
        simp only [List.mem_cons, List.not_mem_nil, or_false] at hbad
        omega
      rw [List.getElem?_eq_getElem h4]
      simp only [MemStream.peek, read_getElem, hchain, Chain.memory, Option.some.injEq]
      exact hstale current (by simp [hf]) _ (by omega)

/-- If a word does not fit, then some memory contents show in what is handed out. -/
theorem exists_stale_not_prefix (hsize : LegalSize size) {ops : List ReadOp}
    (hpos : pos ≤ body.length) (hfit : ¬ WordsFit size body.length pos ops) :
    ∃ c, ∀ frags s, Laid size frags body → Stale c frags → s.Decoding size frags pos →
      ¬ body.take pos ++ delivered s ops <+: body := by
  induction ops generalizing pos with
  | nil => exact absurd trivial hfit
  | cons op ops ih =>
    by_cases hbad : op = .getLong ∧ inFragment size body.length pos ∈ [1, 2, 3]
    · obtain ⟨rfl, hbad⟩ := hbad
      refine ⟨body.getD (pos + inFragment size body.length pos) 0 + 1,
        fun frags s hl hstale h hprefix => ?_⟩
      obtain ⟨bs, s', hp, hc⟩ := memStreamGetLong_stale hl h hsize hstale hbad
      simp only [delivered, hp, ↓reduceIte] at hprefix
      have hget : (body.take pos ++ (bs ++ delivered s' ops))[pos +
          inFragment size body.length pos]? =
          some (body.getD (pos + inFragment size body.length pos) 0 + 1) := by
        have hlen : inFragment size body.length pos < bs.length :=
          (List.getElem?_eq_some_iff.mp hc).1
        rw [List.getElem?_append_right (by simp), List.length_take, Nat.min_eq_left hpos,
          Nat.add_sub_cancel_left, List.getElem?_append_left hlen, hc]
      obtain ⟨hi, hval⟩ := List.getElem?_eq_some_iff.mp hget
      have hbody := List.prefix_iff_getElem?.mp hprefix _ hi
      rw [hval] at hbody
      generalize hb : body.getD (pos + inFragment size body.length pos) 0 = b at hbody
      rw [List.getD_eq_getElem?_getD, hbody, Option.getD_some] at hb
      have := congrArg UInt8.toNat hb
      rw [UInt8.toNat_add, UInt8.toNat_one] at this
      have := b.toNat_lt
      omega
    · have hfit' : ¬ WordsFit size body.length (pos + op.len) ops := fun h' =>
        hfit ⟨fun hop hmem => hbad ⟨hop, hmem⟩, h'⟩
      have hpos' : pos + op.len ≤ body.length := by
        by_contra hlt
        exact hfit' (wordsFit_of_le (by omega) ops)
      obtain ⟨c, hc⟩ := ih hpos' hfit'
      refine ⟨c, fun frags s hl hstale h hprefix => ?_⟩
      rcases hp : op.perform s with ⟨ok, bs, s'⟩
      rcases ReadOp.perform_decoding hl h hsize op (fun hop hmem => hbad ⟨hop, hmem⟩) hp with
        ⟨rfl, hbs, -, hdec⟩ | ⟨-, hlt, -⟩
      · simp only [delivered, hp, ↓reduceIte, hbs, ← List.append_assoc,
          ← List.take_add] at hprefix
        exact hc frags s' hl hstale hdec hprefix
      · omega

theorem StartsEmpty.encoding {m : Mem} (h : StartsEmpty size m) :
    m.2.Encoding size [] ∧ m.1.memStreamBufferSize = size := by
  cases h with
  | created hcreate hsize =>
    obtain ⟨henc, hpool⟩ := xdrmemstreamCreate_encoding hcreate
    exact ⟨hsize ▸ henc, hpool.trans hsize⟩
  | cleared hfault hsize =>
    exact ⟨hsize ▸ xdrmemstreamClear_encoding _ hfault, by simpa using hsize⟩

/-- A filled stream holds what was read from the socket. -/
theorem fill_encoding (hsize : LegalSize size) {m : Mem} {bs : List UInt8}
    (h : m.2.Encoding size bs) (hpool : m.1.memStreamBufferSize = size) (sock : Socket)
    (calls : List (List IoOutcome × ℕ)) :
    ∃ cs, (fill m sock calls).2.consumed = sock.consumed ++ cs ∧
      (fill m sock calls).1.2.Encoding size (bs ++ cs) ∧
      (fill m sock calls).1.1.memStreamBufferSize = size := by
  induction calls generalizing m sock bs with
  | nil => exact ⟨[], by simpa [fill] using ⟨h, hpool⟩⟩
  | cons call calls ih =>
    obtain ⟨ios, max⟩ := call
    obtain ⟨cs, hcon, henc, hsz⟩ := xdrmemstreamReadFromFd_encoding h hpool hsize ios sock max
    obtain ⟨ds, hcon', henc', hsz'⟩ := ih henc hsz (xdrmemstreamReadFromFd ios m sock max).socket
    refine ⟨cs ++ ds, ?_, ?_, hsz'⟩
    · rw [fill, hcon', hcon, List.append_assoc]
    · rw [fill, ← List.append_assoc]
      exact henc'

/-- The pool has `n` free fragments, and all memory in them holds `c`. -/
def Pool.Stocked (c : UInt8) (n : ℕ) (pool : Pool) : Prop :=
  n ≤ pool.freeList.length ∧ ∀ f ∈ pool.freeList, ∀ i, f.data i = c

/-- All memory that has not been filled holds `c`. -/
def MemStream.Blank (c : UInt8) (s : MemStream) : Prop :=
  ∃ before current, s.chain = .on before current [] ∧ Stale c before ∧
    ∀ i, s.offset ≤ i → current.data i = c

theorem allocateIfUsedUp_stocked {c : UInt8} {n : ℕ} {pool : Pool}
    (h : s.Encoding size body) (hpool : pool.Stocked c (n + 1)) (hs : s.Blank c) :
    ∃ pool' s', allocateIfUsedUp (pool, s) = (true, pool', s') ∧ pool'.Stocked c n ∧
      s'.Blank c := by
  by_cases h0 : s.handy = 0
  · obtain ⟨hn, hfree⟩ := hpool
    obtain ⟨before, current, hchain, hbefore, hcurrent⟩ := hs
    obtain ⟨before', current', hchain', -, hused, -⟩ := h.chain
    obtain ⟨rfl, rfl⟩ : before' = before ∧ current' = current := by
      simpa [hchain'] using hchain
    have hroom := h.room
    rcases hlist : pool.freeList with - | ⟨f, fs⟩
    · simp [hlist] at hn
    · have ha : allocateIfUsedUp (pool, s) =
          (true, { pool with
              freeList := fs, freeFragmentCount := subU32 pool.freeFragmentCount 1 },
            { s with
              chain := .on (before' ++ [current'])
                { f with used := pool.memStreamBufferSize } []
              offset := 0
              handy := pool.memStreamBufferSize
              fragmentCount := (s.fragmentCount + 1) % 2 ^ 32 }) := by
        simp only [allocateIfUsedUp, h0, ↓reduceIte, allocateMemoryStreamFragment,
          Pool.takeFragment, hlist, hchain', Chain.link]
      refine ⟨_, _, ha, ⟨?_, ?_⟩, _, _, rfl, ?_, ?_⟩
      · simp only [hlist, List.length_cons] at hn
        simpa using hn
      · intro g hg
        exact hfree g (by simp [hlist, hg])
      · intro g hg i hi
        rcases List.mem_append.mp hg with hg | hg
        · exact hbefore g hg i hi
        · obtain rfl := List.mem_singleton.mp hg
          exact hcurrent i (by omega)
      · intro i hi
        exact hfree f (by simp [hlist]) i
  · exact ⟨pool, s, by simp [allocateIfUsedUp, h0], ⟨by have := hpool.1; omega, hpool.2⟩, hs⟩

theorem MemStream.Blank.store {c : UInt8} (hs : s.Blank c) (cs : List UInt8) :
    (s.store cs).Blank c := by
  obtain ⟨before, current, hchain, hbefore, hcurrent⟩ := hs
  refine ⟨before, { current with data := write current.data s.offset cs },
    by simp only [MemStream.store, poke, skip, hchain, Chain.modify], hbefore, fun i hi => ?_⟩
  simp only [MemStream.store, poke, skip] at hi
  have h1 : ¬ i < s.offset := by omega
  have h2 : cs[i - s.offset]? = none := List.getElem?_eq_none (by omega)
  simp only [write, h1, ↓reduceIte, List.getD_eq_getElem?_getD, h2, Option.getD_none]
  exact hcurrent i (by omega)

/-- With fragments in stock, one byte at a time gets into the stream. -/
theorem fill_stocked (hsize : LegalSize size) {c : UInt8} {bs : List UInt8} {pool : Pool}
    (h : s.Encoding size bs) (hpool : pool.memStreamBufferSize = size) (cs : List UInt8)
    (hstock : pool.Stocked c cs.length) (hs : s.Blank c) (sock : Socket)
    (hin : sock.incoming = cs) :
    let r := fill (pool, s) sock (List.replicate cs.length ([.transfers 1], 1))
    r.2.consumed = sock.consumed ++ cs ∧ r.1.2.Blank c := by
  induction cs generalizing pool s bs sock with
  | nil => simpa [fill] using hs
  | cons b cs ih =>
    obtain ⟨pool', s', ha, hstock', hs'⟩ := allocateIfUsedUp_stocked h hstock hs
    obtain ⟨henc, hpool', hroom, -⟩ := allocateIfUsedUp_encoding h hpool hsize ha
    have h0 := hroom rfl
    have hmin : min s'.handy 1 = 1 := by omega
    have hread : sock.read 1 (.transfers 1) = (.ok [b], { sock with
        incoming := cs, consumed := sock.consumed ++ [b] }) := by
      simp [Socket.read, hin]
    have hcall : xdrmemstreamReadFromFd [.transfers 1] (pool, s) sock 1 =
        ⟨none, (pool', s'.store [b]), { sock with
          incoming := cs, consumed := sock.consumed ++ [b] }, 0⟩ := by
      simp [xdrmemstreamReadFromFd, h.op, readFromFdLoop, ha, hmin, hread]
    obtain ⟨hcon, hblank⟩ := ih (MemStream.store_encoding henc [b] (by simp; omega)) hpool'
      hstock' (hs'.store [b]) { sock with incoming := cs, consumed := sock.consumed ++ [b] } rfl
    simp only [List.length_cons, List.replicate_succ, fill, hcall]
    refine ⟨?_, hblank⟩
    rw [hcon, List.append_assoc, List.singleton_append]

/-- After rewinding, whatever was not filled is behind the bytes in use. -/
theorem MemStream.Blank.rewind {c : UInt8} {pool : Pool} {bs : List UInt8}
    (h : s.Encoding size bs) (hsize : LegalSize size) (hs : s.Blank c)
    (hdec : (xdrmemstreamRewind (pool, s) .decode).2.Decoding size frags pos) : Stale c frags := by
  obtain ⟨before, current, hchain, hbefore, hcurrent⟩ := hs
  obtain ⟨before', current', hchain', -, hused, -⟩ := h.chain
  obtain ⟨rfl, rfl⟩ : before' = before ∧ current' = current := by simpa [hchain'] using hchain
  have hroom := h.room
  have hlt := hsize.small
  have hsub : subU32 current'.used s.handy = s.offset := by
    rw [subU32_of_le (by omega)]
    omega
  have hfrags : frags = before' ++ [{ current' with used := s.offset }] := by
    obtain ⟨b, cur, a, hc, hf, -, -⟩ := hdec.chain
    cases before' with
    | nil =>
      simp only [xdrmemstreamRewind, reduceCtorEq, ↓reduceIte, h.op, hchain', Chain.modify,
        Chain.fragments, hsub, Chain.on.injEq] at hc
      obtain ⟨rfl, rfl, rfl⟩ := hc
      simpa using hf
    | cons first before =>
      simp only [xdrmemstreamRewind, reduceCtorEq, ↓reduceIte, h.op, hchain', Chain.modify,
        Chain.fragments, hsub, Chain.on.injEq] at hc
      obtain ⟨rfl, rfl, rfl⟩ := hc
      simpa using hf
  intro f hf i hi
  rw [hfrags] at hf
  rcases List.mem_append.mp hf with hf | hf
  · exact hbefore f hf i hi
  · obtain rfl := List.mem_singleton.mp hf
    exact hcurrent i hi

/-- There is a run that stores the body in memory holding `c`. -/
theorem exists_fill_stale (hsize : LegalSize size) (body : List UInt8) (c : UInt8) :
    ∃ m sock calls frags, StartsEmpty size m ∧
      (fill m sock calls).2.consumed = sock.consumed ++ body ∧ Laid size frags body ∧
      Stale c frags ∧
      (xdrmemstreamRewind (fill m sock calls).1 .decode).2.Decoding size frags 0 := by
  let stock := List.replicate (body.length + 1) (Fragment.mk 0 fun _ => c)
  let sock : Socket := ⟨body, [], []⟩
  obtain ⟨p, pool, s, hcreate, hp, hstock, hs⟩ : ∃ p pool s,
      xdrmemstreamCreate p (some 0) = (some s, pool) ∧ p.memStreamBufferSize = size ∧
        pool.Stocked c body.length ∧ s.Blank c := by
    refine ⟨⟨size, stock, body.length + 1, body.length + 1, 0, 0, 0, fun _ => none⟩, _, _, rfl, rfl,
      ⟨by simp, ?_⟩, [], _, rfl, by simp [Stale], by simp⟩
    intro f hf i
    rw [List.eq_of_mem_replicate hf]
  have hempty := StartsEmpty.created hcreate hp
  obtain ⟨henc, hpool⟩ := hempty.encoding
  obtain ⟨hcon, hblank⟩ := fill_stocked hsize henc hpool body hstock hs sock rfl
  obtain ⟨cs, hcon', henc', hpool'⟩ := fill_encoding hsize henc hpool sock
    (List.replicate body.length ([.transfers 1], 1))
  obtain rfl : cs = body := List.append_cancel_left (hcon'.symm.trans hcon)
  obtain ⟨-, -, frags, hlaid, hdec⟩ := xdrmemstreamRewind_encoding henc' hpool' hsize
  exact ⟨_, sock, _, frags, hempty, hcon, hlaid, hblank.rewind henc' hsize hdec, hdec⟩

/-- The reads deliver the body and nothing else exactly if no word is asked for where fewer than
four bytes of the fragment or the body are left. -/
theorem deliversBody_iff_wordsFit (hsize : LegalSize size) (body : List UInt8)
    (ops : List ReadOp) : DeliversBody size body ops ↔ WordsFit size body.length 0 ops := by
  constructor
  · intro h
    by_contra hfit
    obtain ⟨c, hc⟩ := exists_stale_not_prefix hsize (Nat.zero_le _) hfit
    obtain ⟨m, sock, calls, frags, hempty, hcon, hlaid, hstale, hdec⟩ :=
      exists_fill_stale hsize body c
    exact hc frags _ hlaid hstale hdec (by simpa using h m sock calls hempty hcon)
  · intro hfit m sock calls hempty hcon
    obtain ⟨henc, hpool⟩ := hempty.encoding
    obtain ⟨cs, hcon', henc', hpool'⟩ := fill_encoding hsize henc hpool sock calls
    obtain rfl : cs = body := List.append_cancel_left (hcon'.symm.trans hcon)
    obtain ⟨-, -, frags, hlaid, hdec⟩ := xdrmemstreamRewind_encoding henc' hpool' hsize
    simpa using delivered_prefix hlaid hsize hdec hfit

theorem deliversBody_two_words :
    DeliversBody 8192 [0, 0, 0, 1, 0, 0, 0, 2] [.getLong, .getLong, .getLong] :=
  (deliversBody_iff_wordsFit legalSize_default _ _).mpr (by decide)

/-- A word read from the last byte of the body takes three bytes from behind it. -/
theorem not_deliversBody_second_word :
    ¬ ∀ size body ops, LegalSize size → DeliversBody size body ops := by
  intro h
  have hrun := h 8192 [0, 0, 0, 1, 5] [.getLong, .getLong] legalSize_default
    _ ⟨[0, 0, 0, 1, 5], [], []⟩ [([.transfers 5], 5)]
    (.created (rfl : xdrmemstreamCreate (.initial fun _ => some fun _ => 7) (some 0) = _) rfl) rfl
  revert hrun
  decide

end AcpltKs
