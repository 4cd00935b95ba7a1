import Mathlib.Data.List.Basic

/-! A connected byte-stream socket as its owner sees it. What a system call does is given by an
outcome; a call of a member function gets a list of outcomes, one for each system call it makes,
and finds nothing to transfer once the list is used up. -/
namespace AcpltKs

/-- The error codes that the code tells apart, and all others. -/
inductive Errno where
  | eintr
  | ewouldblock
  | eagain
  | econnreset
  | einval
  | enomem
  | eio
  | epipe
  | other (code : ℕ)
  deriving DecidableEq

/-- What one `read` or `write` does: it moves at most so many bytes, fails, or finds the
connection closed. -/
inductive IoOutcome where
  | transfers (n : ℕ)
  | fails (e : Errno)
  | closed
  deriving DecidableEq

/-- Bytes, an interruption, or nothing to transfer for now. -/
def IoOutcome.isQuiet : IoOutcome → Bool
  | .transfers _ => true
  | .fails e => e = .eintr || e = .ewouldblock
  | .closed => false

/-- Everything the peer has sent or will send and that has not been read, what has been read, and
what has been written. -/
structure Socket where
  incoming : List UInt8
  consumed : List UInt8
  written : List UInt8
  deriving DecidableEq

/-- What the peer sends altogether. -/
def Socket.peer (s : Socket) : List UInt8 := s.consumed ++ s.incoming

/-- Between the two states of the socket, the bytes `bs` have been read and nothing else has
happened. -/
structure Socket.Reads (s s' : Socket) (bs : List UInt8) : Prop where
  incoming : s.incoming = bs ++ s'.incoming
  consumed : s'.consumed = s.consumed ++ bs
  written : s'.written = s.written

theorem Socket.Reads.refl (s : Socket) : s.Reads s [] := ⟨rfl, by simp, rfl⟩

theorem Socket.Reads.trans {s t u : Socket} {bs cs : List UInt8} (h : s.Reads t bs)
    (h' : t.Reads u cs) : s.Reads u (bs ++ cs) :=
  ⟨by rw [h.incoming, h'.incoming, List.append_assoc],
    by rw [h'.consumed, h.consumed, List.append_assoc], h'.written.trans h.written⟩

/-- Reading does not change what the peer sends. -/
theorem Socket.Reads.peer {s s' : Socket} {bs : List UInt8} (h : s.Reads s' bs) :
    s'.peer = s.peer := by
  rw [Socket.peer, Socket.peer, h.consumed, h.incoming, List.append_assoc]

/-- `read` returns the bytes read, none of them for a return value of zero, or sets `errno`. -/
def Socket.read (s : Socket) (count : ℕ) : IoOutcome → Except Errno (List UInt8) × Socket
  | .fails e => (.error e, s)
  | .closed => (.ok [], s)
  | .transfers n =>
      if count = 0 then (.ok [], s)
      else if min n s.incoming.length = 0 then (.error .ewouldblock, s)
      else
        let bs := s.incoming.take (min n count)
        (.ok bs, { s with incoming := s.incoming.drop (min n count),
                          consumed := s.consumed ++ bs })

/-- `write` returns the number of bytes written or sets `errno`. -/
def Socket.write (s : Socket) (bs : List UInt8) : IoOutcome → Except Errno ℕ × Socket
  | .fails e => (.error e, s)
  | .closed => (.ok 0, s)
  | .transfers n =>
      (.ok (min n bs.length), { s with written := s.written ++ bs.take n })

/-- What a successful `read` did. -/
theorem Socket.read_ok {s s' : Socket} {count : ℕ} {io : IoOutcome} {bs : List UInt8}
    (h : s.read count io = (.ok bs, s')) :
    s.Reads s' bs ∧ bs.length ≤ count := by
  cases io with
  | fails e => simp [read] at h
  | closed =>
    simp only [read, Prod.mk.injEq, Except.ok.injEq] at h
    obtain ⟨rfl, rfl⟩ := h
    exact ⟨.refl s, by simp⟩
  | transfers n =>
    simp only [read] at h
    split_ifs at h
    · simp only [Prod.mk.injEq, Except.ok.injEq] at h
      obtain ⟨rfl, rfl⟩ := h
      exact ⟨.refl s, by simp⟩
    · simp at h
    · simp only [Prod.mk.injEq, Except.ok.injEq] at h
      obtain ⟨rfl, rfl⟩ := h
      refine ⟨⟨(List.take_append_drop _ _).symm, rfl, rfl⟩, ?_⟩
      simp only [List.length_take]
      omega

/-- A `read` that fails leaves the socket as it was. -/
theorem Socket.read_error {s s' : Socket} {count : ℕ} {io : IoOutcome} {e : Errno}
    (h : s.read count io = (.error e, s')) : s' = s := by
  cases io with
  | fails e => simp only [read, Prod.mk.injEq] at h; exact h.2.symm
  | closed => simp [read] at h
  | transfers n =>
    simp only [read] at h
    split_ifs at h <;> simp only [Prod.mk.injEq, reduceCtorEq, false_and] at h
    exact h.2.symm

/-- Where the outcome moves bytes at all, a successful `read` moves some. -/
theorem Socket.read_transfers_ne_nil {s s' : Socket} {count n : ℕ} {bs : List UInt8}
    (h : s.read count (.transfers n) = (.ok bs, s')) (hc : count ≠ 0) : bs ≠ [] := by
  simp only [read, hc, ↓reduceIte] at h
  split_ifs at h with h0
  · simp at h
  · simp only [Prod.mk.injEq, Except.ok.injEq] at h
    obtain ⟨rfl, -⟩ := h
    intro hnil
    have := congrArg List.length hnil
    simp only [List.length_take, List.length_nil] at this
    omega

/-- A quiet outcome brings bytes where some are asked for, or a reason to try again. -/
theorem Socket.read_quiet {s s' : Socket} {count : ℕ} {io : IoOutcome} (hio : io.isQuiet = true)
    (hc : count ≠ 0) :
    (∀ bs, s.read count io = (.ok bs, s') → bs ≠ []) ∧
      ∀ e, s.read count io = (.error e, s') → e = .eintr ∨ e = .ewouldblock := by
  cases io with
  | transfers n =>
    refine ⟨fun bs h => read_transfers_ne_nil h hc, fun e h => ?_⟩
    simp only [read, hc, ↓reduceIte] at h
    split_ifs at h
    · simp only [Prod.mk.injEq, Except.error.injEq] at h
      exact Or.inr h.1.symm
    · simp at h
  | fails e' =>
    refine ⟨fun bs h => by simp [read] at h, fun e h => ?_⟩
    simp only [read, Prod.mk.injEq, Except.error.injEq] at h
    rw [← h.1]
    simpa [IoOutcome.isQuiet] using hio
  | closed => simp [IoOutcome.isQuiet] at hio

/-- What a successful `write` did. -/
theorem Socket.write_ok {s s' : Socket} {bs : List UInt8} {io : IoOutcome} {n : ℕ}
    (h : s.write bs io = (.ok n, s')) :
    s'.written = s.written ++ bs.take n ∧ s'.incoming = s.incoming ∧
      s'.consumed = s.consumed ∧ n ≤ bs.length := by
  cases io with
  | fails e => simp [write] at h
  | closed =>
    simp only [write, Prod.mk.injEq, Except.ok.injEq] at h
    obtain ⟨rfl, rfl⟩ := h
    simp
  | transfers k =>
    simp only [write, Prod.mk.injEq, Except.ok.injEq] at h
    obtain ⟨rfl, rfl⟩ := h
    refine ⟨?_, rfl, rfl, by omega⟩
    rw [List.take_eq_take_iff.mpr]
    omega

theorem Socket.write_error {s s' : Socket} {bs : List UInt8} {io : IoOutcome} {e : Errno}
    (h : s.write bs io = (.error e, s')) : s' = s := by
  cases io with
  | fails e => simp only [write, Prod.mk.injEq] at h; exact h.2.symm
  | closed => simp [write] at h
  | transfers k => simp [write] at h

end AcpltKs
