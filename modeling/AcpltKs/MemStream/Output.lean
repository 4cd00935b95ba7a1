import AcpltKs.MemStream.Decoding

/-! A memory stream that is being sent: its first word is patched in place, and it is written to a
socket piece by piece. -/
namespace AcpltKs
open ByteMemory

variable {size pos : ℕ} {frags : List Fragment} {body : List UInt8} {s : MemStream}

theorem MemStream.Decoding.contents_eq (hl : Laid size frags body)
    (h : s.Decoding size frags pos) : s.contents = body := by
  obtain ⟨before, current, after, hchain, hf, -, -⟩ := h.chain
  rw [← hl.bytes, hf]
  cases before <;> simp [MemStream.contents, hchain, Chain.fragments]

theorem MemStream.Decoding.at_start (hsize : LegalSize size) (h : s.Decoding size frags 0) :
    ∃ first rest, s.chain = .on [] first rest ∧ frags = first :: rest ∧ s.offset = 0 ∧
      s.handy = first.used := by
  obtain ⟨before, current, after, hchain, hf, hpos, hused⟩ := h.chain
  have hsize' := hsize.large
  have hnil : before = [] := by
    cases before with
    | nil => rfl
    | cons f fs =>
      simp only [List.length_cons, Nat.add_mul] at hpos
      omega
  subst hnil
  simp only [List.length_nil, Nat.zero_mul, Nat.zero_add] at hpos
  exact ⟨current, after, hchain, hf, by omega, by omega⟩

/-- Overwriting the first word of the bytes. -/
theorem Laid.patch {first : Fragment} {rest : List Fragment} {word : List UInt8}
    (hl : Laid size (first :: rest) body) (hword : word.length = 4) (hused : 4 ≤ first.used) :
    Laid size ({ first with data := write first.data 0 word } :: rest) (word ++ body.drop 4) := by
  have hfirst : first.bytes.drop 4 = read first.data 4 (first.used - 4) := by
    rw [Fragment.bytes, read_drop _ _ hused, Nat.zero_add]
  have hpatched : Fragment.bytes { first with data := write first.data 0 word } =
      word ++ first.bytes.drop 4 := by
    obtain ⟨k, hk⟩ := Nat.exists_eq_add_of_le hused
    have hself := read_write_self first.data 0 word
    rw [hword] at hself
    rw [hfirst, Fragment.bytes, hk, read_add, hself, Nat.zero_add, Nat.add_sub_cancel_left,
      read_write_above _ _ (by omega)]
  refine ⟨?_, ?_, ?_⟩
  · intro f hf
    cases rest with
    | nil => simp at hf
    | cons next rest =>
      simp only [List.dropLast_cons_cons, List.mem_cons] at hf
      rcases hf with rfl | hf
      · exact hl.full first (by simp)
      · exact hl.full f (by simp [hf])
  · intro f hf
    rcases List.mem_cons.mp hf with rfl | hf
    · exact hl.bounded first (by simp)
    · exact hl.bounded f (by simp [hf])
  · have hlen : first.bytes.length = first.used := by simp [Fragment.bytes]
    rw [List.flatMap_cons, hpatched, ← hl.bytes, List.flatMap_cons,
      List.drop_append_of_le_length (by omega), List.append_assoc]

/-- At the start of a stream, `memStreamInline` hands out the first word, and overwriting it
there overwrites the first word of the bytes. -/
theorem memStreamInline_patch (pool : Pool) {word : List UInt8} (hl : Laid size frags body)
    (h : s.Decoding size frags 0) (hsize : LegalSize size) (hlen : 4 ≤ body.length)
    (hword : word.length = 4) :
    memStreamInline (pool, s) 4 = (some 0, pool, s.skip 4) ∧
      ∃ frags', Laid size frags' (word ++ body.drop 4) ∧
        ((s.skip 4).poke 0 word).Decoding size frags' 4 := by
  obtain ⟨first, rest, hchain, hf, hoff, hhandy⟩ := h.at_start hsize
  have hused : 4 ≤ first.used := by
    cases rest with
    | nil =>
      have hbody := congrArg List.length hl.bytes
      simp [hf, Fragment.bytes] at hbody
      omega
    | cons next rest =>
      have := (hl.before_full (show frags = [] ++ first :: next :: rest from hf)).2 (by simp)
      have := hsize.large
      omega
  subst hf
  have h0 : s.handy ≠ 0 := by omega
  refine ⟨?_, _, hl.patch hword hused, ?_⟩
  · simp [memStreamInline, allocateIfUsedUp, h0, hoff, show 4 ≤ s.handy by omega]
  · refine ⟨h.op, h.fault, [], { first with data := write first.data 0 word }, rest, ?_, rfl, ?_,
      ?_⟩
    · simp [MemStream.poke, MemStream.skip, hchain, Chain.modify]
    · simp [MemStream.poke, MemStream.skip, hoff]
    · simp only [MemStream.poke, MemStream.skip, subU32_of_le (show 4 ≤ s.handy by omega)]
      omega

/-- What the transfer writes are the next bytes, and the rest of `max` is still to be written. -/
theorem writeToFdLoop_decoding (hl : Laid size frags body) (h : s.Decoding size frags pos)
    (hsize : LegalSize size) (ios : List IoOutcome) (pool : Pool) (sock : Socket) {max : ℕ}
    (hmax : pos + max ≤ body.length) :
    let r := writeToFdLoop ios (pool, s) sock max
    ∃ n, r.max + n = max ∧ r.socket.written = sock.written ++ (body.drop pos).take n ∧
      r.socket.incoming = sock.incoming ∧ r.socket.consumed = sock.consumed ∧
      r.mem.1 = pool ∧ r.mem.2.Decoding size frags (pos + n) := by
  induction ios generalizing s pos sock max with
  | nil =>
    refine ⟨0, ?_⟩
    by_cases h0 : max = 0
    · simpa [writeToFdLoop, h0] using h
    · rcases ha : advanceIfUsedUp s with ⟨_ | _, s'⟩
      · have hend := ((advanceIfUsedUp_decoding hl h hsize ha).2 rfl).1
        omega
      · have hdec := ((advanceIfUsedUp_decoding hl h hsize ha).1 rfl).1
        simpa [writeToFdLoop, h0, ha] using hdec
  | cons io ios ih =>
    by_cases h0 : max = 0
    · exact ⟨0, by simpa [writeToFdLoop, h0] using h⟩
    · rcases ha : advanceIfUsedUp s with ⟨_ | _, s'⟩
      · have hend := ((advanceIfUsedUp_decoding hl h hsize ha).2 rfl).1
        omega
      · obtain ⟨hdec, hroom⟩ := (advanceIfUsedUp_decoding hl h hsize ha).1 rfl
        rcases hw : sock.write (s'.peek (min s'.handy max)) io with ⟨e | n, sock'⟩
        · refine ⟨0, ?_⟩
          simpa [writeToFdLoop, h0, ha, hw, Socket.write_error hw] using hdec
        · obtain ⟨hwritten, hinc, hcons, hn⟩ := Socket.write_ok hw
          simp only [MemStream.peek, read_length] at hn
          have hpeek : (s'.peek (min s'.handy max)).take n = (body.drop pos).take n := by
            rw [hdec.peek_eq hl (by omega), List.take_take, min_eq_left hn]
          rw [hpeek] at hwritten
          simp only [writeToFdLoop, h0, ↓reduceIte, ha, hw]
          split_ifs with hz hcount
          · subst hz
            exact ⟨0, by simp, by simpa using hwritten, hinc, hcons, rfl, hdec⟩
          · exact ⟨n, by simp only; omega, hwritten, hinc, hcons, rfl, hdec.skip (by omega)⟩
          · have hle : pos + n + (max - n) ≤ body.length := by omega
            obtain ⟨k, hk, hwritten', hinc', hcons', hpool, hdec'⟩ :=
              ih (hdec.skip (n := n) (by omega)) sock' hle
            refine ⟨n + k, by omega, ?_, hinc'.trans hinc, hcons'.trans hcons, hpool, ?_⟩
            · rw [hwritten', hwritten, List.append_assoc, ← List.drop_drop, ← List.take_add]
            · rwa [← Nat.add_assoc]

/-- Bytes are taken, or the caller is asked to try again. -/
def IoOutcome.isSteady : IoOutcome → Bool
  | .transfers n => n ≠ 0
  | .fails e => e.isTransient
  | .closed => false

/-- As long as the socket is steady, the transfer does not fail. -/
theorem writeToFdLoop_steady (hl : Laid size frags body) (h : s.Decoding size frags pos)
    (hsize : LegalSize size) {ios : List IoOutcome} (hios : ∀ io ∈ ios, io.isSteady = true)
    (pool : Pool) (sock : Socket) {max : ℕ} (hmax : pos + max ≤ body.length) :
    (writeToFdLoop ios (pool, s) sock max).failure = none := by
  induction ios generalizing s pos sock max with
  | nil =>
    by_cases h0 : max = 0
    · simp [writeToFdLoop, h0]
    · rcases ha : advanceIfUsedUp s with ⟨_ | _, s'⟩
      · have hend := ((advanceIfUsedUp_decoding hl h hsize ha).2 rfl).1
        omega
      · simp [writeToFdLoop, h0, ha]
  | cons io ios ih =>
    by_cases h0 : max = 0
    · simp [writeToFdLoop, h0]
    · rcases ha : advanceIfUsedUp s with ⟨_ | _, s'⟩
      · have hend := ((advanceIfUsedUp_decoding hl h hsize ha).2 rfl).1
        omega
      · obtain ⟨hdec, hroom⟩ := (advanceIfUsedUp_decoding hl h hsize ha).1 rfl
        have hio := hios io List.mem_cons_self
        cases io with
        | closed => simp [IoOutcome.isSteady] at hio
        | fails e =>
          have he : e.isTransient = true := hio
          simp [writeToFdLoop, h0, ha, Socket.write, he]
        | transfers n =>
          have hn : n ≠ 0 := by simpa [IoOutcome.isSteady] using hio
          simp only [writeToFdLoop, h0, ↓reduceIte, ha, Socket.write, MemStream.peek, read_length]
          split_ifs with hz hcount
          · omega
          · rfl
          · have hle : pos + min n (min s'.handy max) + (max - min n (min s'.handy max)) ≤
                body.length := by omega
            exact ih (hdec.skip (by omega)) (fun io hmem => hios io (List.mem_cons_of_mem _ hmem)) _
              hle

/-- A socket that takes everything gets everything. -/
theorem writeToFdLoop_greedy (hl : Laid size frags body) (h : s.Decoding size frags pos)
    (hsize : LegalSize size) {ios : List IoOutcome} {max : ℕ} (hmany : max ≤ ios.length)
    (hios : ∀ io ∈ ios, ∃ n, io = .transfers n ∧ max ≤ n) (pool : Pool) (sock : Socket)
    (hmax : pos + max ≤ body.length) : (writeToFdLoop ios (pool, s) sock max).max = 0 := by
  induction ios generalizing s pos sock max with
  | nil =>
    obtain rfl := Nat.le_zero.mp hmany
    simp [writeToFdLoop]
  | cons io ios ih =>
    by_cases h0 : max = 0
    · simp [writeToFdLoop, h0]
    · rcases ha : advanceIfUsedUp s with ⟨_ | _, s'⟩
      · have hend := ((advanceIfUsedUp_decoding hl h hsize ha).2 rfl).1
        omega
      · obtain ⟨hdec, hroom⟩ := (advanceIfUsedUp_decoding hl h hsize ha).1 rfl
        obtain ⟨⟨n, rfl, hn⟩, hrest⟩ := List.forall_mem_cons.mp hios
        have hcount : min n (min s'.handy max) = min s'.handy max := by omega
        have hlength : max ≤ ios.length + 1 := hmany
        simp only [writeToFdLoop, h0, ↓reduceIte, ha, Socket.write, MemStream.peek, read_length,
          hcount, ne_eq, not_true_eq_false]
        rw [if_neg (by omega)]
        refine ih (hdec.skip (by omega)) (by omega) (fun io hio => ?_) _ (by omega)
        obtain ⟨k, rfl, hk⟩ := hrest io hio
        exact ⟨k, rfl, by omega⟩

end AcpltKs
