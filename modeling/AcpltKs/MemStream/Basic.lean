import AcpltKs.Library.BigEndian
import AcpltKs.Library.ByteMemory
import AcpltKs.Socket

/-! The dynamic XDR memory stream. Its bytes are stored in a chain of fragments of one common size;
all streams of a program share the pool from which the fragments come and to which they return. The
stream's private pointer is kept as an offset into the fragment it points to. -/
namespace AcpltKs
open ByteMemory

/-- `a - b` in a 32-bit unsigned. -/
def subU32 (a b : ℕ) : ℕ := if b ≤ a then a - b else a + 2 ^ 32 - b

theorem subU32_of_le {a b : ℕ} (h : b ≤ a) : subU32 a b = a - b := if_pos h

/-- One fragment: the number of bytes in use, and the memory from its first data byte on. What that
memory holds behind the bytes in use, and behind the end of the fragment, is anybody's guess. -/
structure Fragment where
  used : ℕ
  data : ℕ → UInt8

/-- The bytes in use. -/
def Fragment.bytes (f : Fragment) : List UInt8 := read f.data 0 f.used

/-- The module's statics, and what the next calls of `malloc` for a fragment bring: the memory of a
block, or nothing. -/
structure Pool where
  memStreamBufferSize : ℕ
  freeList : List Fragment
  fragmentCount : ℕ
  freeFragmentCount : ℕ
  fragmentQuota : ℕ
  fragmentWatermark : ℕ
  freePercentage : ℕ
  malloc : ℕ → Option (ℕ → UInt8)

/-- The statics before anything is allocated. -/
def Pool.initial (malloc : ℕ → Option (ℕ → UInt8)) : Pool where
  memStreamBufferSize := 8192
  freeList := []
  fragmentCount := 0
  freeFragmentCount := 0
  fragmentQuota := 2 ^ 32 - 1
  fragmentWatermark := 0
  freePercentage := 50
  malloc

/-- Set up the pool; the fragment size is fixed as soon as there are fragments. -/
def xdrmemstreamControlusage (pool : Pool)
    (fragmentsize quota watermark freepercentage : ℕ) : Bool × Pool :=
  if fragmentsize ≠ pool.memStreamBufferSize ∧ pool.fragmentCount ≠ 0 then (false, pool)
  else
    (true, { pool with
      memStreamBufferSize := max fragmentsize 256
      fragmentQuota := quota
      fragmentWatermark := watermark
      freePercentage := freepercentage })

/-- While there are fragments, their size cannot change. -/
theorem xdrmemstreamControlusage_bufferSize (pool : Pool)
    (fragmentsize quota watermark freepercentage : ℕ) (hcount : pool.fragmentCount ≠ 0)
    (hsize : 256 ≤ pool.memStreamBufferSize) :
    (xdrmemstreamControlusage pool fragmentsize quota watermark
      freepercentage).2.memStreamBufferSize = pool.memStreamBufferSize := by
  by_cases h : fragmentsize = pool.memStreamBufferSize
  · simp [xdrmemstreamControlusage, h, hsize]
  · simp [xdrmemstreamControlusage, h, hcount]

/-- Take a fragment from the free list or, within the quota, from the heap. Its length is only a
forecast. -/
def Pool.takeFragment (pool : Pool) : Option Fragment × Pool :=
  match pool.freeList with
  | f :: fs =>
      (some { f with used := pool.memStreamBufferSize },
        { pool with freeList := fs, freeFragmentCount := subU32 pool.freeFragmentCount 1 })
  | [] =>
      if pool.fragmentQuota ≤ pool.fragmentCount then (none, pool)
      else
        ((pool.malloc 0).map fun data => { used := pool.memStreamBufferSize, data },
          { pool with
            fragmentCount := (pool.fragmentCount + 1) % 2 ^ 32
            malloc := fun n => pool.malloc (n + 1) })

/-- Free fragments are put at the head of the free list. -/
def Pool.freeMemoryStreamFragment (pool : Pool) (f : Fragment) : Pool :=
  { pool with
    freeList := f :: pool.freeList
    freeFragmentCount := (pool.freeFragmentCount + 1) % 2 ^ 32 }

@[simp] theorem Pool.takeFragment_bufferSize (pool : Pool) :
    pool.takeFragment.2.memStreamBufferSize = pool.memStreamBufferSize := by
  simp only [takeFragment]
  split
  · rfl
  · split <;> rfl

/-- A fresh fragment is as long as the buffer size says. -/
theorem Pool.takeFragment_used {pool pool' : Pool} {f : Fragment}
    (h : pool.takeFragment = (some f, pool')) : f.used = pool.memStreamBufferSize := by
  simp only [takeFragment] at h
  split at h
  · simp only [Prod.mk.injEq, Option.some.injEq] at h
    rw [← h.1]
  · split at h
    · simp at h
    · simp only [Prod.mk.injEq, Option.map_eq_some_iff] at h
      obtain ⟨⟨data, -, rfl⟩, -⟩ := h
      rfl

@[simp] theorem Pool.foldl_free_bufferSize (pool : Pool) (fs : List Fragment) :
    (fs.foldl Pool.freeMemoryStreamFragment pool).memStreamBufferSize =
      pool.memStreamBufferSize := by
  induction fs generalizing pool with
  | nil => rfl
  | cons f fs ih => rw [List.foldl_cons, ih]; rfl

/-- The chain of a stream with its current fragment: one of the chain, none once a read ran off the
end, or one that was allocated after that and hangs on nothing. -/
inductive Chain where
  | on (before : List Fragment) (current : Fragment) (after : List Fragment)
  | null (first : Fragment) (rest : List Fragment)
  | stray (first : Fragment) (rest : List Fragment) (current : Fragment)

/-- The first fragment and those linked behind it. -/
def Chain.fragments : Chain → Fragment × List Fragment
  | .on [] current after => (current, after)
  | .on (first :: before) current after => (first, before ++ current :: after)
  | .null first rest | .stray first rest _ => (first, rest)

/-- The memory that the private pointer points into. -/
def Chain.memory : Chain → ℕ → UInt8
  | .on _ current _ | .stray _ _ current => current.data
  | .null _ _ => fun _ => 0

/-- Change the current fragment. -/
def Chain.modify (g : Fragment → Fragment) : Chain → Chain
  | .on before current after => .on before (g current) after
  | .null first rest => .null first rest
  | .stray first rest current => .stray first rest (g current)

/-- Hang a new fragment on the current one and make it the current one. -/
def Chain.link (f : Fragment) : Chain → Chain
  | .on before current _ => .on (before ++ [current]) f []
  | .null first rest | .stray first rest _ => .stray first rest f

inductive XdrOp where
  | encode
  | decode
  | free
  deriving DecidableEq

/-- The `XDR` object and the info block of a memory stream. `fault` records that the code has
dereferenced a null pointer. -/
structure MemStream where
  op : XdrOp
  chain : Chain
  offset : ℕ
  handy : ℕ
  fragmentCount : ℕ
  length : ℕ
  fault : Bool

/-- A stream together with the pool, for the operations that use both. -/
abbrev Mem := Pool × MemStream

/-- Move the private pointer and what is left. -/
def MemStream.skip (s : MemStream) (n : ℕ) : MemStream :=
  { s with offset := s.offset + n, handy := subU32 s.handy n }

/-- The next `n` bytes at the private pointer. -/
def MemStream.peek (s : MemStream) (n : ℕ) : List UInt8 := read s.chain.memory s.offset n

/-- Overwrite memory of the current fragment. -/
def MemStream.poke (s : MemStream) (off : ℕ) (bs : List UInt8) : MemStream :=
  { s with chain := s.chain.modify fun f => { f with data := write f.data off bs } }

/-- Store bytes at the private pointer and move behind them. -/
def MemStream.store (s : MemStream) (bs : List UInt8) : MemStream :=
  (s.poke s.offset bs).skip bs.length

/-- Add a fragment at the end of the chain and move to its start. -/
def allocateMemoryStreamFragment : Mem → Bool × Mem
  | (pool, s) =>
    match pool.takeFragment with
    | (none, pool) => (false, pool, s)
    | (some f, pool) =>
        (true, pool, { s with
          chain := s.chain.link f
          offset := 0
          handy := pool.memStreamBufferSize
          fragmentCount := (s.fragmentCount + 1) % 2 ^ 32 })

/-- Move to the start of the next fragment; there must be one, and it must not be empty. -/
def advanceToNextFragment (s : MemStream) : Bool × MemStream :=
  match s.chain with
  | .on before current (next :: after) =>
      (decide (next.used ≠ 0), { s with
        chain := .on (before ++ [current]) next after
        offset := 0
        handy := next.used })
  | .on before current [] =>
      let (first, rest) := (Chain.on before current []).fragments
      (false, { s with chain := .null first rest, handy := 0 })
  | .stray first rest _ => (false, { s with chain := .null first rest, handy := 0 })
  | .null _ _ => (false, { s with fault := true })

/-- Create an empty stream. The info block comes from `malloc` with whatever its length field
holds, or not at all. -/
def xdrmemstreamCreate (pool : Pool) (info : Option ℕ) : Option MemStream × Pool :=
  match info with
  | none => (none, pool)
  | some garbage =>
    match pool.takeFragment with
    | (none, pool) => (none, pool)
    | (some f, pool) =>
        (some { op := .encode, chain := .on [] f [], offset := 0,
                handy := pool.memStreamBufferSize, fragmentCount := 1, length := garbage,
                fault := false }, pool)

/-- Free all fragments but the first one and start encoding. -/
def xdrmemstreamClear : Mem → Mem
  | (pool, s) =>
    let (first, rest) := s.chain.fragments
    (rest.foldl Pool.freeMemoryStreamFragment pool, { s with
      op := .encode
      chain := .on [] { first with used := pool.memStreamBufferSize } []
      offset := 0
      handy := pool.memStreamBufferSize
      fragmentCount := 1 })

/-- Go back to the start in another mode. The first time after encoding, this fixes the length of
the last fragment and of the stream. -/
def xdrmemstreamRewind (m : Mem) (op : XdrOp) : Mem :=
  let (pool, s) := m
  if op = .encode then xdrmemstreamClear m
  else
    let s :=
      if s.op = .encode then
        { s with
          chain := s.chain.modify fun f => { f with used := subU32 f.used s.handy }
          length := subU32 (s.fragmentCount * pool.memStreamBufferSize % 2 ^ 32) s.handy
          fault := s.fault || match s.chain with | .null _ _ => true | _ => false }
      else s
    let (first, rest) := s.chain.fragments
    (pool, { s with op, chain := .on [] first rest, offset := 0, handy := first.used })

def xdrmemstreamGetLength (s : MemStream) : ℕ := s.length

/-- All bytes of a stream that is being read. -/
def MemStream.contents (s : MemStream) : List UInt8 :=
  let (first, rest) := s.chain.fragments
  (first :: rest).flatMap Fragment.bytes

/-- Where the fragment is used up, go on with a new one. -/
def allocateIfUsedUp (m : Mem) : Bool × Mem :=
  if m.2.handy = 0 then allocateMemoryStreamFragment m else (true, m)

/-- Where the fragment is used up, go on with the next one. -/
def advanceIfUsedUp (s : MemStream) : Bool × MemStream :=
  if s.handy = 0 then advanceToNextFragment s else (true, s)

/-- Reserve `len` bytes; the result is where they begin in what is then the current fragment. -/
def memStreamInline (m : Mem) (len : ℕ) : Option ℕ × Mem :=
  match allocateIfUsedUp m with
  | (false, m) => (none, m)
  | (true, pool, s) =>
      if len ≤ s.handy then (some s.offset, pool, s.skip len) else (none, pool, s)

def memStreamGetLong (s : MemStream) : Option UInt32 × MemStream :=
  match advanceIfUsedUp s with
  | (false, s) => (none, s)
  | (true, s) => (some (BigEndian.decode (s.peek 4)), s.skip 4)

def memStreamPutLong (m : Mem) (w : UInt32) : Bool × Mem :=
  match allocateIfUsedUp m with
  | (false, pool, s) => (false, pool, { s with handy := 0 })
  | (true, pool, s) => (true, pool, s.store (BigEndian.encode w))

/-- The loop of `memStreamGetBytes`. Every round copies a byte at least. -/
def getBytesLoop : ℕ → MemStream → ℕ → Bool × List UInt8 × MemStream
  | 0, s, len => (decide (len = 0), [], s)
  | fuel + 1, s, len =>
      if len = 0 then (true, [], s)
      else
        match advanceIfUsedUp s with
        | (false, s) => (false, [], s)
        | (true, s) =>
            let count := min s.handy len
            let (ok, bs, s') := getBytesLoop fuel (s.skip count) (len - count)
            (ok, s.peek count ++ bs, s')

/-- The bytes copied, also when there were not enough of them. -/
def memStreamGetBytes (s : MemStream) (len : ℕ) : Bool × List UInt8 × MemStream :=
  getBytesLoop len s len

/-- The loop of `memStreamPutBytes`. -/
def putBytesLoop : ℕ → Mem → List UInt8 → Bool × Mem
  | 0, m, bs => (bs.isEmpty, m)
  | fuel + 1, m, bs =>
      if bs.isEmpty then (true, m)
      else
        match allocateIfUsedUp m with
        | (false, m) => (false, m)
        | (true, pool, s) =>
            let count := min s.handy bs.length
            putBytesLoop fuel (pool, s.store (bs.take count)) (bs.drop count)

def memStreamPutBytes (m : Mem) (bs : List UInt8) : Bool × Mem := putBytesLoop bs.length m bs

/-- What a transfer between a stream and a socket returns: the error code in case of failure, and
how much has still to be transferred. -/
structure FdResult where
  failure : Option Errno
  mem : Mem
  socket : Socket
  max : ℕ

/-- The error codes that only ask for another try later. -/
def Errno.isTransient (e : Errno) : Bool :=
  e = .eintr || e = .eagain || e = .ewouldblock

/-- The loop of `xdrmemstreamReadFromFd`. -/
def readFromFdLoop : List IoOutcome → Mem → Socket → ℕ → FdResult
  | [], m, sock, max =>
      if max = 0 then ⟨none, m, sock, max⟩
      else
        match allocateIfUsedUp m with
        | (false, m) => ⟨some .enomem, m, sock, max⟩
        | (true, m) => ⟨none, m, sock, max⟩
  | io :: ios, m, sock, max =>
      if max = 0 then ⟨none, m, sock, max⟩
      else
        match allocateIfUsedUp m with
        | (false, m) => ⟨some .enomem, m, sock, max⟩
        | (true, pool, s) =>
          let count := min s.handy max
          match sock.read count io with
          | (.error e, sock) =>
              ⟨if e.isTransient then none else some e, (pool, s), sock, max⟩
          | (.ok bs, sock) =>
              if bs.length = 0 then ⟨some .eio, (pool, s), sock, max⟩
              else if count ≠ bs.length then
                ⟨none, (pool, s.store bs), sock, max - bs.length⟩
              else readFromFdLoop ios (pool, s.store bs) sock (max - bs.length)

/-- Read at most `max` bytes from the socket into the stream. -/
def xdrmemstreamReadFromFd (ios : List IoOutcome) (m : Mem) (sock : Socket) (max : ℕ) : FdResult :=
  if m.2.op ≠ .encode then ⟨some .einval, m, sock, max⟩ else readFromFdLoop ios m sock max

/-- The loop of `xdrmemstreamWriteToFd`. -/
def writeToFdLoop : List IoOutcome → Mem → Socket → ℕ → FdResult
  | [], (pool, s), sock, max =>
      if max = 0 then ⟨none, (pool, s), sock, max⟩
      else
        match advanceIfUsedUp s with
        | (false, s) => ⟨some .enomem, (pool, s), sock, max⟩
        | (true, s) => ⟨none, (pool, s), sock, max⟩
  | io :: ios, (pool, s), sock, max =>
      if max = 0 then ⟨none, (pool, s), sock, max⟩
      else
        match advanceIfUsedUp s with
        | (false, s) => ⟨some .enomem, (pool, s), sock, max⟩
        | (true, s) =>
          let count := min s.handy max
          match sock.write (s.peek count) io with
          | (.error e, sock) =>
              ⟨if e.isTransient then none else some e, (pool, s), sock, max⟩
          | (.ok n, sock) =>
              if n = 0 then ⟨some .epipe, (pool, s), sock, max⟩
              else if count ≠ n then ⟨none, (pool, s.skip n), sock, max - n⟩
              else writeToFdLoop ios (pool, s.skip n) sock (max - n)

/-- Write at most `max` bytes of the stream to the socket. -/
def xdrmemstreamWriteToFd (ios : List IoOutcome) (m : Mem) (sock : Socket) (max : ℕ) : FdResult :=
  if m.2.op ≠ .decode then ⟨some .einval, m, sock, max⟩ else writeToFdLoop ios m sock max

end AcpltKs
