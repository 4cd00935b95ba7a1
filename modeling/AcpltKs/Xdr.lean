import AcpltKs.MemStream.Decoding

/-! What encoders and decoders use of an XDR stream, the streams they are used with, and the fixed
memory stream of the RPC library. -/
namespace AcpltKs
open ByteMemory

/-- A stream that 32-bit words and blocks of bytes can be read from. -/
class XdrSource (σ : Type*) where
  getLong : σ → Option UInt32 × σ
  getBytes : σ → ℕ → Option (List UInt8) × σ

/-- A stream that words and bytes can be stored in. -/
class XdrSink (σ : Type*) where
  putLong : σ → UInt32 → Bool × σ
  putBytes : σ → List UInt8 → Bool × σ

instance : XdrSource MemStream where
  getLong := memStreamGetLong
  getBytes s len :=
    match memStreamGetBytes s len with
    | (false, _, s) => (none, s)
    | (true, bs, s) => (some bs, s)

instance : XdrSink Mem where
  putLong := memStreamPutLong
  putBytes := memStreamPutBytes

/-- The library's stream over a fixed buffer: where the next byte is and how many bytes are left of
the buffer. -/
structure XdrMem where
  op : XdrOp
  buffer : ℕ → UInt8
  pos : ℕ
  handy : ℕ

/-- `xdrmem_create`. -/
def xdrmemCreate (buffer : ℕ → UInt8) (size : ℕ) (op : XdrOp) : XdrMem := ⟨op, buffer, 0, size⟩

/-- `XDR_SETPOS`; positions behind the end are refused. -/
def XdrMem.setpos (x : XdrMem) (pos : ℕ) : Bool × XdrMem :=
  if x.pos + x.handy < pos then (false, x)
  else (true, { x with pos, handy := x.pos + x.handy - pos })

def XdrMem.getLong (x : XdrMem) : Option UInt32 × XdrMem :=
  if x.handy < 4 then (none, x)
  else
    (some (BigEndian.decode (read x.buffer x.pos 4)),
      { x with pos := x.pos + 4, handy := x.handy - 4 })

def XdrMem.getBytes (x : XdrMem) (len : ℕ) : Option (List UInt8) × XdrMem :=
  if x.handy < len then (none, x)
  else (some (read x.buffer x.pos len), { x with pos := x.pos + len, handy := x.handy - len })

def XdrMem.putBytes (x : XdrMem) (bs : List UInt8) : Bool × XdrMem :=
  if x.handy < bs.length then (false, x)
  else
    (true, { x with
      buffer := write x.buffer x.pos bs
      pos := x.pos + bs.length
      handy := x.handy - bs.length })

def XdrMem.putLong (x : XdrMem) (w : UInt32) : Bool × XdrMem := x.putBytes (BigEndian.encode w)

instance : XdrSource XdrMem where
  getLong := XdrMem.getLong
  getBytes := XdrMem.getBytes

instance : XdrSink XdrMem where
  putLong := XdrMem.putLong
  putBytes := XdrMem.putBytes

/-- One call of a basic filter by an encoder. -/
inductive XdrItem where
  | long (w : UInt32)
  | octets (bs : List UInt8)
  deriving DecidableEq

/-- The zeroes that fill up opaque data to a multiple of four bytes. -/
def padding (n : ℕ) : List UInt8 := List.replicate ((4 - n % 4) % 4) 0

/-- The bytes of an item on the wire. -/
def XdrItem.bytes : XdrItem → List UInt8
  | .long w => BigEndian.encode w
  | .octets bs => bs ++ padding bs.length

/-- What an encoder sends down the stream, and whether it is then content with itself. -/
structure Payload where
  items : List XdrItem
  ok : Bool
  deriving DecidableEq

def Payload.bytes (p : Payload) : List UInt8 := p.items.flatMap XdrItem.bytes

section Sink
variable {σ : Type*} [XdrSink σ]

/-- `xdr_u_long` or `xdr_opaque` in encode mode. -/
def XdrItem.xdrEncode (s : σ) : XdrItem → Bool × σ
  | .long w => XdrSink.putLong s w
  | .octets bs =>
      if bs.length = 0 then (true, s)
      else
        match XdrSink.putBytes s bs with
        | (false, s) => (false, s)
        | (true, s) =>
            if (padding bs.length).length = 0 then (true, s)
            else XdrSink.putBytes s (padding bs.length)

/-- Items one after the other, up to the first failure. -/
def xdrEncodeItems : σ → List XdrItem → Bool × σ
  | s, [] => (true, s)
  | s, item :: items =>
      match item.xdrEncode s with
      | (false, s) => (false, s)
      | (true, s) => xdrEncodeItems s items

def Payload.xdrEncode (p : Payload) (s : σ) : Bool × σ :=
  match xdrEncodeItems s p.items with
  | (false, s) => (false, s)
  | (true, s) => (p.ok, s)

end Sink

theorem padding_length (n : ℕ) : (n + (padding n).length) % 4 = 0 := by
  simp only [padding, List.length_replicate]
  omega

theorem XdrItem.four_dvd_bytes (item : XdrItem) : 4 ∣ item.bytes.length := by
  cases item with
  | long w => exact ⟨1, rfl⟩
  | octets bs =>
    rw [bytes, List.length_append]
    exact Nat.dvd_of_mod_eq_zero (padding_length bs.length)

theorem XdrItem.four_dvd_flatMap_bytes (items : List XdrItem) :
    4 ∣ (items.flatMap XdrItem.bytes).length := by
  induction items with
  | nil => simp
  | cons item items ih =>
    rw [List.flatMap_cons, List.length_append]
    exact dvd_add item.four_dvd_bytes ih

/-- A decoder: it asks for a word or for bytes, is told whether the stream had them, and goes on
from there. -/
inductive XdrReader (α : Type*) where
  | done (a : α)
  | long (next : Option UInt32 → XdrReader α)
  | octets (len : ℕ) (next : Option (List UInt8) → XdrReader α)

section Source
variable {σ : Type*} [XdrSource σ] {α : Type*}

/-- Run a decoder on a stream. -/
def XdrReader.run : XdrReader α → σ → α × σ
  | .done a, s => (a, s)
  | .long next, s => (next (XdrSource.getLong s).1).run (XdrSource.getLong s).2
  | .octets len next, s => (next (XdrSource.getBytes s len).1).run (XdrSource.getBytes s len).2

/-- Everything the decoder is told along its run. -/
def XdrReader.transcript : XdrReader α → σ → List (Option (List UInt8))
  | .done _, _ => []
  | .long next, s =>
      (XdrSource.getLong s).1.map BigEndian.encode ::
        (next (XdrSource.getLong s).1).transcript (XdrSource.getLong s).2
  | .octets len next, s =>
      (XdrSource.getBytes s len).1 ::
        (next (XdrSource.getBytes s len).1).transcript (XdrSource.getBytes s len).2

/-- The stream hands out the words `ws` and goes on as `s'`. -/
def Yields : σ → List UInt32 → σ → Prop
  | s, [], s' => s = s'
  | s, w :: ws, s' => ∃ s₁, XdrSource.getLong s = (some w, s₁) ∧ Yields s₁ ws s'

end Source

/-- The bytes of words on the wire. -/
def wireBytes (ws : List UInt32) : List UInt8 := ws.flatMap BigEndian.encode

@[simp] theorem wireBytes_length (ws : List UInt32) : (wireBytes ws).length = 4 * ws.length := by
  induction ws with
  | nil => rfl
  | cons w ws ih =>
    simp only [wireBytes, List.flatMap_cons, List.length_append, BigEndian.encode_length,
      List.length_cons] at ih ⊢
    omega

/-- The decoder gives up as soon as the stream has nothing for it. -/
def XdrReader.GivesUp {α : Type*} : XdrReader α → Prop
  | .done _ => True
  | .long next => (∃ a, next none = .done a) ∧ ∀ w, (next (some w)).GivesUp
  | .octets _ next => (∃ a, next none = .done a) ∧ ∀ bs, (next (some bs)).GivesUp

/-- The private pointer points somewhere. -/
def MemStream.Pointing (s : MemStream) : Prop :=
  s.fault = false ∧ ∀ first rest, s.chain ≠ .null first rest

theorem advanceIfUsedUp_op (s : MemStream) : (advanceIfUsedUp s).2.op = s.op := by
  rcases hc : s.chain with ⟨before, current, _ | ⟨next, after⟩⟩ | ⟨first, rest⟩ |
    ⟨first, rest, current⟩ <;>
  · simp only [advanceIfUsedUp, advanceToNextFragment, hc]
    split <;> rfl

theorem advanceIfUsedUp_pointing {s s' : MemStream} {ok : Bool} (h : s.Pointing)
    (ha : advanceIfUsedUp s = (ok, s')) : s'.fault = false ∧ (ok = true → s'.Pointing) := by
  obtain ⟨hfault, hchain⟩ := h
  by_cases h0 : s.handy = 0
  · rcases hc : s.chain with ⟨before, current, _ | ⟨next, after⟩⟩ | ⟨first, rest⟩ |
      ⟨first, rest, current⟩
    case null => exact absurd hc (hchain _ _)
    all_goals
      simp only [advanceIfUsedUp, h0, ↓reduceIte, advanceToNextFragment, hc, Prod.mk.injEq] at ha
      obtain ⟨rfl, rfl⟩ := ha
      simp [hfault, MemStream.Pointing]
  · simp only [advanceIfUsedUp, h0, ↓reduceIte, Prod.mk.injEq] at ha
    obtain ⟨rfl, rfl⟩ := ha
    exact ⟨hfault, fun _ => ⟨hfault, hchain⟩⟩

theorem memStreamGetLong_op (s : MemStream) : (memStreamGetLong s).2.op = s.op := by
  have hop := advanceIfUsedUp_op s
  rcases ha : advanceIfUsedUp s with ⟨_ | _, s'⟩ <;>
    simpa [memStreamGetLong, ha, MemStream.skip] using hop

theorem getBytesLoop_op (fuel : ℕ) (s : MemStream) (len : ℕ) :
    (getBytesLoop fuel s len).2.2.op = s.op := by
  induction fuel generalizing s len with
  | zero => rfl
  | succ fuel ih =>
    have hop := advanceIfUsedUp_op s
    by_cases h0 : len = 0
    · simp [getBytesLoop, h0]
    · rcases ha : advanceIfUsedUp s with ⟨_ | _, s'⟩
      · simpa [getBytesLoop, h0, ha] using hop
      · rw [ha] at hop
        simp only [getBytesLoop, h0, ↓reduceIte, ha]
        exact (ih (s'.skip (min s'.handy len)) _).trans hop

/-- Decoders do not change the mode of a stream. -/
theorem XdrReader.run_op {α : Type*} (r : XdrReader α) (s : MemStream) :
    (r.run s).2.op = s.op := by
  induction r generalizing s with
  | done a => rfl
  | long next ih => exact (ih _ _).trans (memStreamGetLong_op s)
  | octets len next ih =>
    refine (ih _ _).trans ?_
    have hop := getBytesLoop_op len s len
    rcases hg : getBytesLoop len s len with ⟨_ | _, bs, s'⟩ <;>
      simpa [XdrSource.getBytes, memStreamGetBytes, hg] using hop

theorem memStreamGetLong_pointing {s s' : MemStream} {w : Option UInt32} (h : s.Pointing)
    (hg : memStreamGetLong s = (w, s')) :
    s'.fault = false ∧ (w.isSome = true → s'.Pointing) := by
  rcases ha : advanceIfUsedUp s with ⟨_ | _, t⟩
  · obtain ⟨rfl, rfl⟩ := Prod.mk.inj (show (none, t) = (w, s') by
      simpa [memStreamGetLong, ha] using hg)
    exact ⟨(advanceIfUsedUp_pointing h ha).1, by simp⟩
  · obtain ⟨rfl, rfl⟩ := Prod.mk.inj (show (some _, t.skip 4) = (w, s') by
      simpa [memStreamGetLong, ha] using hg)
    obtain ⟨hfault, hchain⟩ := (advanceIfUsedUp_pointing h ha).2 rfl
    exact ⟨hfault, fun _ => ⟨hfault, hchain⟩⟩

theorem getBytesLoop_pointing {fuel len : ℕ} {s s' : MemStream} {ok : Bool} {bs : List UInt8}
    (h : s.Pointing) (hg : getBytesLoop fuel s len = (ok, bs, s')) :
    s'.fault = false ∧ (ok = true → s'.Pointing) := by
  induction fuel generalizing s len bs with
  | zero =>
    simp only [getBytesLoop, Prod.mk.injEq] at hg
    obtain ⟨-, -, rfl⟩ := hg
    exact ⟨h.1, fun _ => h⟩
  | succ fuel ih =>
    by_cases h0 : len = 0
    · simp only [getBytesLoop, h0, ↓reduceIte, Prod.mk.injEq] at hg
      obtain ⟨-, -, rfl⟩ := hg
      exact ⟨h.1, fun _ => h⟩
    · rcases ha : advanceIfUsedUp s with ⟨_ | _, t⟩
      · simp only [getBytesLoop, h0, ↓reduceIte, ha, Prod.mk.injEq] at hg
        obtain ⟨rfl, -, rfl⟩ := hg
        exact ⟨(advanceIfUsedUp_pointing h ha).1, by simp⟩
      · simp only [getBytesLoop, h0, ↓reduceIte, ha] at hg
        rcases hrest : getBytesLoop fuel (t.skip (min t.handy len)) (len - min t.handy len) with
          ⟨ok', cs, s''⟩
        simp only [hrest, Prod.mk.injEq] at hg
        obtain ⟨rfl, -, rfl⟩ := hg
        have ht : (t.skip (min t.handy len)).Pointing := (advanceIfUsedUp_pointing h ha).2 rfl
        exact ih ht hrest

/-- A decoder that gives up in time dereferences no null pointer. -/
theorem XdrReader.GivesUp.run_fault {α : Type*} {r : XdrReader α} (hr : r.GivesUp)
    {s : MemStream} (h : s.Pointing) : (r.run s).2.fault = false := by
  induction r generalizing s with
  | done a => exact h.1
  | long next ih =>
    obtain ⟨⟨a, hnone⟩, hsome⟩ := hr
    rcases hg : memStreamGetLong s with ⟨_ | w, s'⟩
    · simpa [run, XdrSource.getLong, hg, hnone] using (memStreamGetLong_pointing h hg).1
    · simpa [run, XdrSource.getLong, hg] using
        ih (some w) (hsome w) ((memStreamGetLong_pointing h hg).2 rfl)
  | octets len next ih =>
    obtain ⟨⟨a, hnone⟩, hsome⟩ := hr
    rcases hg : memStreamGetBytes s len with ⟨_ | _, bs, s'⟩
    · simpa [run, XdrSource.getBytes, hg, hnone] using (getBytesLoop_pointing h hg).1
    · simpa [run, XdrSource.getBytes, hg] using
        ih (some bs) (hsome bs) ((getBytesLoop_pointing h hg).2 rfl)

section MemStream
variable {size : ℕ} {pool : Pool} {s : MemStream} {bs : List UInt8}

/-- An item of an encoder is appended to the stream, as a whole or up to where the fragments ran
out. -/
theorem XdrItem.xdrEncode_encoding (h : s.Encoding size bs)
    (hpool : pool.memStreamBufferSize = size) (hsize : LegalSize size) (hbs : 4 ∣ bs.length)
    (item : XdrItem) {ok : Bool} {m : Mem} (hp : item.xdrEncode (pool, s) = (ok, m)) :
    m.1.memStreamBufferSize = size ∧ (∃ cs, m.2.Encoding size cs) ∧
      (ok = true → m.2.Encoding size (bs ++ item.bytes)) := by
  obtain ⟨pool', s'⟩ := m
  cases item with
  | long w =>
    obtain ⟨henc, hsz⟩ := memStreamPutLong_encoding h hpool hsize hbs w hp
    exact ⟨hsz, ⟨_, henc⟩, fun hok => by simpa only [hok, ↓reduceIte, bytes] using henc⟩
  | octets ds =>
    by_cases h0 : ds.length = 0
    · simp only [xdrEncode, h0, ↓reduceIte, Prod.mk.injEq] at hp
      obtain ⟨rfl, rfl, rfl⟩ := hp
      obtain rfl := List.length_eq_zero_iff.mp h0
      exact ⟨hpool, ⟨_, h⟩, fun _ => by simpa [bytes, padding] using h⟩
    · rcases hput : memStreamPutBytes (pool, s) ds with ⟨ok₁, pool₁, s₁⟩
      obtain ⟨⟨k, henc, hk⟩, hsz⟩ := memStreamPutBytes_encoding h hpool hsize hput
      cases ok₁ with
      | false =>
        simp only [xdrEncode, h0, ↓reduceIte, XdrSink.putBytes, hput, Prod.mk.injEq] at hp
        obtain ⟨rfl, rfl, rfl⟩ := hp
        exact ⟨hsz, ⟨_, henc⟩, by simp⟩
      | true =>
        rw [List.take_of_length_le (hk rfl)] at henc
        by_cases hpad : (padding ds.length).length = 0
        · simp only [xdrEncode, h0, ↓reduceIte, XdrSink.putBytes, hput, hpad,
            Prod.mk.injEq] at hp
          obtain ⟨rfl, rfl, rfl⟩ := hp
          refine ⟨hsz, ⟨_, henc⟩, fun _ => ?_⟩
          rwa [bytes, List.length_eq_zero_iff.mp hpad, List.append_nil]
        · simp only [xdrEncode, h0, ↓reduceIte, XdrSink.putBytes, hput, hpad] at hp
          obtain ⟨⟨k', henc', hk'⟩, hsz'⟩ := memStreamPutBytes_encoding henc hsz hsize hp
          refine ⟨hsz', ⟨_, henc'⟩, fun hok => ?_⟩
          rwa [List.take_of_length_le (hk' hok), List.append_assoc] at henc'

/-- Items are appended to the stream. -/
theorem xdrEncodeItems_encoding (h : s.Encoding size bs) (hpool : pool.memStreamBufferSize = size)
    (hsize : LegalSize size) (hbs : 4 ∣ bs.length) {items : List XdrItem} {ok : Bool} {m : Mem}
    (hp : xdrEncodeItems (pool, s) items = (ok, m)) :
    m.1.memStreamBufferSize = size ∧ (∃ cs, m.2.Encoding size cs) ∧
      (ok = true → m.2.Encoding size (bs ++ items.flatMap XdrItem.bytes)) := by
  induction items generalizing pool s bs with
  | nil =>
    simp only [xdrEncodeItems, Prod.mk.injEq] at hp
    obtain ⟨rfl, rfl⟩ := hp
    exact ⟨hpool, ⟨_, h⟩, fun _ => by simpa using h⟩
  | cons item items ih =>
    rcases hitem : item.xdrEncode (pool, s) with ⟨ok₁, pool₁, s₁⟩
    obtain ⟨hsz, ⟨cs, henc⟩, hok₁⟩ := item.xdrEncode_encoding h hpool hsize hbs hitem
    cases ok₁ with
    | false =>
      simp only [xdrEncodeItems, hitem, Prod.mk.injEq] at hp
      obtain ⟨rfl, rfl⟩ := hp
      exact ⟨hsz, ⟨_, henc⟩, by simp⟩
    | true =>
      simp only [xdrEncodeItems, hitem] at hp
      have hbs' : 4 ∣ (bs ++ item.bytes).length := by
        rw [List.length_append]
        exact dvd_add hbs item.four_dvd_bytes
      obtain ⟨hsz', henc', hall⟩ := ih (hok₁ rfl) hsz hbs' hp
      refine ⟨hsz', henc', fun hok => ?_⟩
      rw [List.flatMap_cons, ← List.append_assoc]
      exact hall hok

theorem Payload.xdrEncode_encoding (h : s.Encoding size bs)
    (hpool : pool.memStreamBufferSize = size) (hsize : LegalSize size) (hbs : 4 ∣ bs.length)
    (p : Payload) {ok : Bool} {m : Mem} (hp : p.xdrEncode (pool, s) = (ok, m)) :
    m.1.memStreamBufferSize = size ∧ (∃ cs, m.2.Encoding size cs) ∧
      (ok = true → m.2.Encoding size (bs ++ p.bytes)) := by
  rcases hitems : xdrEncodeItems (pool, s) p.items with ⟨_ | _, m'⟩
  · simp only [xdrEncode, hitems, Prod.mk.injEq] at hp
    obtain ⟨rfl, rfl⟩ := hp
    exact xdrEncodeItems_encoding h hpool hsize hbs hitems
  · simp only [xdrEncode, hitems, Prod.mk.injEq] at hp
    obtain ⟨-, rfl⟩ := hp
    obtain ⟨hsz, henc, hall⟩ := xdrEncodeItems_encoding h hpool hsize hbs hitems
    exact ⟨hsz, henc, fun _ => hall rfl⟩

/-- Words that fit into the current fragment are stored for sure. -/
theorem xdrEncodeItems_longs_ok (m : Mem) (ws : List UInt32) (hroom : 4 * ws.length ≤ m.2.handy) :
    (xdrEncodeItems m (ws.map .long)).1 = true := by
  induction ws generalizing m with
  | nil => rfl
  | cons w ws ih =>
    obtain ⟨pool, s⟩ := m
    simp only [List.length_cons] at hroom
    have h0 : s.handy ≠ 0 := by omega
    have hsub : subU32 s.handy 4 = s.handy - 4 := subU32_of_le (by omega)
    have hput : XdrItem.xdrEncode (pool, s) (.long w) =
        (true, pool, s.store (BigEndian.encode w)) := by
      simp only [XdrItem.xdrEncode, XdrSink.putLong, memStreamPutLong, allocateIfUsedUp, h0,
        ↓reduceIte]
    have hhandy : (s.store (BigEndian.encode w)).handy = s.handy - 4 := by
      simp only [MemStream.store, MemStream.skip, MemStream.poke, BigEndian.encode_length, hsub]
    simp only [List.map_cons, xdrEncodeItems, hput]
    exact ih _ (by simp only [hhandy]; omega)

end MemStream

end AcpltKs
