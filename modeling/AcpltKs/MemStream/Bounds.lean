import AcpltKs.MemStream.Exhaustion
import AcpltKs.Xdr

/-! The bounds of the fragments of a memory stream: words, and bytes that are padded to whole words,
must not cross them. -/
namespace AcpltKs
open GuardedRun

/-- `xdr_opaque` in decode mode; bytes that are not there to be read have no effect. -/
def MemStream.getOpaque (s : MemStream) (len : ℕ) : MemStream :=
  match memStreamGetBytes s len with
  | (false, _, s) => s
  | (true, _, s) => (memStreamGetBytes s (padding len).length).2.2

/-- A call with words or padded bytes, where it concerns the pool with the state in which other
streams have left it. -/
inductive WordCall where
  | put (pool : Pool) (item : XdrItem)
  | getLong
  | getOpaque (len : ℕ)
  | rewind (pool : Pool)
  | clear (pool : Pool)

namespace WordCall

def perform (s : MemStream) : WordCall → MemStream
  | put pool item => (item.xdrEncode (pool, s)).2.2
  | getLong => (memStreamGetLong s).2
  | getOpaque len => s.getOpaque len
  | rewind pool => (xdrmemstreamRewind (pool, s) .decode).2
  | clear pool => (xdrmemstreamClear (pool, s)).2

/-- Streams are written in one mode and read in the other, and the fragments keep their size. -/
def Admits (size : ℕ) (s : MemStream) : WordCall → Prop
  | put pool _ => s.op = .encode ∧ pool.memStreamBufferSize = size
  | getLong | getOpaque _ => s.op = .decode
  | rewind pool | clear pool => pool.memStreamBufferSize = size

/-- What is left of the fragment lies in the fragment, and a word is within what is left of the
fragment it is put into or taken from. -/
def InBounds (size : ℕ) (s : MemStream) (call : WordCall) : Prop :=
  s.offset + s.handy ≤ size ∧
    match call with
    | put pool (.long _) => ∀ m, allocateIfUsedUp (pool, s) = (true, m) →
        4 ≤ m.2.handy ∧ m.2.offset + 4 ≤ size
    | getLong => ∀ s', advanceIfUsedUp s = (true, s') → 4 ≤ s'.handy ∧ s'.offset + 4 ≤ size
    | _ => True

end WordCall

/-- The stream is within its fragments, `r` bytes behind a whole number of words. -/
structure MemStream.Within (size r : ℕ) (s : MemStream) : Prop where
  room : s.offset + s.handy ≤ size
  handy : 4 ∣ s.handy + r
  used : ∀ f ∈ s.chain.fragments.1 :: s.chain.fragments.2, f.used ≤ size ∧ 4 ∣ f.used
  last : s.op = .encode → ∃ before current, s.chain = .on before current [] ∧ current.used = size

section
variable {size r : ℕ} {pool pool' : Pool} {s s' : MemStream} {m : Mem} {bs : List UInt8}

namespace MemStream.Within

theorem of_dvd {r' : ℕ} (h : s.Within size r) (hr : 4 ∣ r) (hr' : 4 ∣ r') : s.Within size r' :=
  ⟨h.room, (Nat.dvd_add_right ((Nat.dvd_add_left hr).mp h.handy)).mpr hr', h.used, h.last⟩

/-- Moving within the fragment. -/
theorem skip (h : s.Within size r) {n : ℕ} (hn : n ≤ s.handy) :
    (s.skip n).Within size (r + n) := by
  have hhandy : (s.skip n).handy = s.handy - n := subU32_of_le hn
  have hroom := h.room
  refine ⟨?_, ?_, h.used, h.last⟩
  · rw [hhandy]
    change s.offset + n + (s.handy - n) ≤ size
    omega
  · have hsame : (s.skip n).handy + (r + n) = s.handy + r := by
      rw [hhandy]
      omega
    rw [hsame]
    exact h.handy

theorem poke (h : s.Within size r) (hop : s.op = .encode) (off : ℕ) (bs : List UInt8) :
    (s.poke off bs).Within size r := by
  obtain ⟨before, current, hchain, hcurrent⟩ := h.last hop
  have hpoked : (s.poke off bs).chain =
      .on before { current with data := ByteMemory.write current.data off bs } [] := by
    unfold MemStream.poke
    rw [hchain]
    rfl
  refine ⟨h.room, h.handy, ?_, fun _ => ⟨_, _, hpoked, hcurrent⟩⟩
  have hused := h.used
  rw [hchain, Chain.fragments_on] at hused
  rw [hpoked, Chain.fragments_on]
  intro f hf
  obtain hf | hf := List.mem_append.mp hf
  · exact hused f (List.mem_append_left _ hf)
  · rw [List.mem_singleton.mp hf]
    exact hused current (List.mem_append_right _ (List.mem_singleton_self current))

theorem store (h : s.Within size r) (hop : s.op = .encode) (bs : List UInt8)
    (hbs : bs.length ≤ s.handy) :
    (s.store bs).Within size (r + bs.length) := (h.poke hop s.offset bs).skip hbs

end MemStream.Within

/-- What a call that stores bytes leaves behind: if it fails, the fragment is used up. -/
structure Stored (size r : ℕ) (n : ℕ) (result : Bool × Mem) : Prop where
  within : result.2.2.Within size (if result.1 then r + n else 0)
  op : result.2.2.op = .encode
  pool : result.2.1.memStreamBufferSize = size

theorem MemStream.Within.allocate (h : s.Within size r) (hop : s.op = .encode)
    (hpool : pool.memStreamBufferSize = size) (hsize : 4 ∣ size) {ok : Bool}
    (ha : allocateIfUsedUp (pool, s) = (ok, m)) :
    Stored size r 0 (ok, m) ∧ (ok = true → 0 < size → m.2.handy ≠ 0) := by
  have hsame := pool.takeFragment_bufferSize
  unfold allocateIfUsedUp at ha
  split_ifs at ha with h0
  · dsimp only at h0
    have hr : 4 ∣ r := by
      have hhandy := h.handy
      rwa [h0, Nat.zero_add] at hhandy
    unfold allocateMemoryStreamFragment at ha
    rcases htake : pool.takeFragment with ⟨_ | f, pool'⟩
    · simp only [htake, Prod.mk.injEq] at ha
      obtain ⟨rfl, rfl⟩ := ha
      rw [htake] at hsame
      refine ⟨⟨h.of_dvd hr (dvd_zero 4), hop, hsame.trans hpool⟩, ?_⟩
      intro hok
      cases hok
    · simp only [htake, Prod.mk.injEq] at ha
      obtain ⟨rfl, rfl⟩ := ha
      rw [htake] at hsame
      have hpool' : pool'.memStreamBufferSize = size := hsame.trans hpool
      obtain ⟨before, current, hchain, hcurrent⟩ := h.last hop
      have hf : f.used = size := (Pool.takeFragment_used htake).trans hpool
      refine ⟨⟨⟨?_, ?_, ?_, fun _ => ⟨before ++ [current], f, ?_, hf⟩⟩, hop, hpool'⟩, ?_⟩
      · change 0 + pool'.memStreamBufferSize ≤ size
        rw [hpool', Nat.zero_add]
      · change 4 ∣ pool'.memStreamBufferSize + (r + 0)
        rw [hpool']
        exact (Nat.dvd_add_right hsize).mpr hr
      · have hused := h.used
        dsimp only
        rw [hchain, Chain.fragments_on] at hused
        rw [hchain]
        unfold Chain.link
        rw [Chain.fragments_on]
        intro g hg
        obtain hg | hg := List.mem_append.mp hg
        · exact hused g hg
        · rw [List.mem_singleton.mp hg, hf]
          exact ⟨le_rfl, hsize⟩
      · exact congrArg (Chain.link f) hchain
      · intro _ hpos
        change pool'.memStreamBufferSize ≠ 0
        rw [hpool']
        exact hpos.ne'
  · obtain ⟨rfl, rfl⟩ := Prod.mk.inj ha
    exact ⟨⟨h, hop, hpool⟩, fun _ _ => h0⟩

theorem MemStream.Within.putLong (h : s.Within size 0) (hop : s.op = .encode)
    (hpool : pool.memStreamBufferSize = size) (hsize : 4 ∣ size) (hpos : 0 < size) (w : UInt32) :
    (memStreamPutLong (pool, s) w).2.2.Within size 0 := by
  unfold memStreamPutLong
  rcases ha : allocateIfUsedUp (pool, s) with ⟨_ | _, pool', s'⟩
  · obtain ⟨⟨hwithin, -, -⟩, -⟩ := h.allocate hop hpool hsize ha
    have hroom := hwithin.room
    refine ⟨?_, ?_, hwithin.used, hwithin.last⟩
    · dsimp only at hroom ⊢
      omega
    · exact dvd_zero 4
  · obtain ⟨⟨hwithin, hop', -⟩, hne⟩ := h.allocate hop hpool hsize ha
    have hhandy : 4 ∣ s'.handy := hwithin.handy
    have h0 : s'.handy ≠ 0 := hne rfl hpos
    have hstore := hwithin.store hop' (BigEndian.encode w) (by
      rw [BigEndian.encode_length]
      dsimp only
      omega)
    exact hstore.of_dvd ⟨1, rfl⟩ (dvd_zero 4)

theorem MemStream.Within.putBytesLoop {fuel : ℕ} (h : s.Within size r) (hop : s.op = .encode)
    (hpool : pool.memStreamBufferSize = size) (hsize : 4 ∣ size) (hpos : 0 < size)
    (hfuel : bs.length ≤ fuel) : Stored size r bs.length (putBytesLoop fuel (pool, s) bs) := by
  induction fuel generalizing pool s r bs with
  | zero =>
    obtain rfl := List.length_eq_zero_iff.mp (Nat.le_zero.mp hfuel)
    exact ⟨h, hop, hpool⟩
  | succ fuel ih =>
    rw [AcpltKs.putBytesLoop]
    split_ifs with hnil
    · rw [List.isEmpty_iff.mp hnil]
      exact ⟨h, hop, hpool⟩
    · rcases ha : allocateIfUsedUp (pool, s) with ⟨_ | _, pool', s'⟩
      · obtain ⟨⟨hwithin, hop', hpool'⟩, -⟩ := h.allocate hop hpool hsize ha
        exact ⟨hwithin, hop', hpool'⟩
      · obtain ⟨⟨hwithin, hop', hpool'⟩, hne⟩ := h.allocate hop hpool hsize ha
        have h0 : s'.handy ≠ 0 := hne rfl hpos
        have hbs : bs.length ≠ 0 := by
          intro hzero
          exact hnil (List.isEmpty_iff.mpr (List.length_eq_zero_iff.mp hzero))
        have hcount : (bs.take (min s'.handy bs.length)).length = min s'.handy bs.length := by
          rw [List.length_take]
          omega
        have hstore := hwithin.store hop' (bs.take (min s'.handy bs.length)) (by
          rw [hcount]
          exact Nat.min_le_left _ _)
        have hdrop : (bs.drop (min s'.handy bs.length)).length ≤ fuel := by
          rw [List.length_drop]
          omega
        obtain ⟨hrest, hop'', hpool''⟩ := ih hstore hop' hpool' hdrop
        refine ⟨?_, hop'', hpool''⟩
        have htotal : (if true = true then r + 0 else 0) + (bs.take (min s'.handy bs.length)).length +
            (bs.drop (min s'.handy bs.length)).length = r + bs.length := by
          rw [hcount, List.length_drop]
          simp only [↓reduceIte]
          omega
        rw [htotal] at hrest
        exact hrest

/-- What is put, with its padding, is a whole number of words. -/
theorem MemStream.Within.put (h : s.Within size 0) (hop : s.op = .encode)
    (hpool : pool.memStreamBufferSize = size) (hsize : 4 ∣ size) (hpos : 0 < size)
    (item : XdrItem) : (item.xdrEncode (pool, s)).2.2.Within size 0 := by
  cases item with
  | long w => exact h.putLong hop hpool hsize hpos w
  | octets bs =>
    unfold XdrItem.xdrEncode
    dsimp only
    by_cases hbs : bs.length = 0
    · rw [if_pos hbs]
      exact h
    rw [if_neg hbs]
    obtain ⟨hwithin, hop', hpool'⟩ :=
      h.putBytesLoop hop hpool hsize hpos (le_refl bs.length)
    rcases hput : XdrSink.putBytes (pool, s) bs with ⟨_ | _, pool', s'⟩
    · rw [show AcpltKs.putBytesLoop bs.length (pool, s) bs = _ from hput] at hwithin
      exact hwithin
    · rw [show AcpltKs.putBytesLoop bs.length (pool, s) bs = _ from hput] at hwithin hop' hpool'
      have hpadded : 4 ∣ 0 + bs.length + (padding bs.length).length := by
        rw [Nat.zero_add]
        exact Nat.dvd_of_mod_eq_zero (padding_length bs.length)
      have hfull : s'.Within size (0 + bs.length) := hwithin
      dsimp only
      split_ifs with hnone
      · rw [hnone, Nat.add_zero] at hpadded
        exact hfull.of_dvd hpadded (dvd_zero 4)
      · obtain ⟨hfilled, -, -⟩ := hfull.putBytesLoop hop' hpool' hsize hpos
          (le_refl (padding bs.length).length)
        change (AcpltKs.putBytesLoop _ (pool', s') (padding bs.length)).2.2.Within size 0
        split_ifs at hfilled
        · exact hfilled.of_dvd hpadded (dvd_zero 4)
        · exact hfilled

theorem MemStream.Within.advance (h : s.Within size r) (hop : s.op = .decode) {ok : Bool}
    (ha : advanceIfUsedUp s = (ok, s')) :
    s'.Within size (if ok then r else 0) ∧ s'.op = .decode ∧ (ok = true → s'.handy ≠ 0) := by
  have hkeeps := advanceIfUsedUp_keeps s
  rw [ha] at hkeeps
  have hop' : s'.op = .decode := hkeeps.op.trans hop
  have hroom := h.room
  have hused := h.used
  rw [← hkeeps.fragments] at hused
  have hlast : s'.op = .encode → ∃ before current,
      s'.chain = .on before current [] ∧ current.used = size := by
    intro hencode
    rw [hop'] at hencode
    cases hencode
  unfold advanceIfUsedUp at ha
  split_ifs at ha with h0
  · have hr : 4 ∣ r := by
      have hhandy := h.handy
      rwa [h0, Nat.zero_add] at hhandy
    unfold advanceToNextFragment at ha
    split at ha
    · next before current next after hchain =>
      obtain ⟨rfl, rfl⟩ := Prod.mk.inj ha
      have hnext := h.used next (by
        rw [hchain, Chain.fragments_on]
        simp)
      have hmod : ∀ b : Bool, 4 ∣ next.used + if b then r else 0 := by
        intro b
        cases b
        · exact hnext.2
        · exact (Nat.dvd_add_right hnext.2).mpr hr
      refine ⟨⟨?_, hmod _, hused, hlast⟩, hop', ?_⟩
      · change 0 + next.used ≤ size
        rw [Nat.zero_add]
        exact hnext.1
      · exact of_decide_eq_true
    · obtain ⟨rfl, rfl⟩ := Prod.mk.inj ha
      exact ⟨⟨by dsimp only; omega, dvd_zero 4, hused, hlast⟩, hop', fun hok => by cases hok⟩
    · obtain ⟨rfl, rfl⟩ := Prod.mk.inj ha
      exact ⟨⟨by dsimp only; omega, dvd_zero 4, hused, hlast⟩, hop', fun hok => by cases hok⟩
    · obtain ⟨rfl, rfl⟩ := Prod.mk.inj ha
      exact ⟨⟨hroom, by rw [h0]; exact dvd_zero 4, hused, hlast⟩, hop', fun hok => by cases hok⟩
  · obtain ⟨rfl, rfl⟩ := Prod.mk.inj ha
    exact ⟨h, hop', fun _ => h0⟩

theorem MemStream.Within.getLong (h : s.Within size 0) (hop : s.op = .decode) :
    (memStreamGetLong s).2.Within size 0 := by
  unfold memStreamGetLong
  rcases ha : advanceIfUsedUp s with ⟨_ | _, s'⟩
  · exact (h.advance hop ha).1
  · obtain ⟨hwithin, -, hne⟩ := h.advance hop ha
    have hhandy : 4 ∣ s'.handy := hwithin.handy
    have h0 : s'.handy ≠ 0 := hne rfl
    have hskip := hwithin.skip (n := 4) (by omega)
    exact hskip.of_dvd ⟨1, rfl⟩ (dvd_zero 4)

theorem MemStream.Within.getBytesLoop {fuel len : ℕ} (h : s.Within size r) (hop : s.op = .decode)
    (hfuel : len ≤ fuel) : (getBytesLoop fuel s len).2.2.Within size
      (if (getBytesLoop fuel s len).1 then r + len else 0) := by
  induction fuel generalizing s r len with
  | zero =>
    obtain rfl := Nat.le_zero.mp hfuel
    exact h
  | succ fuel ih =>
    rw [AcpltKs.getBytesLoop]
    by_cases hlen : len = 0
    · subst hlen
      exact h
    rw [if_neg hlen]
    rcases ha : advanceIfUsedUp s with ⟨_ | _, s'⟩
    · exact (h.advance hop ha).1
    · obtain ⟨hwithin, hop', hne⟩ := h.advance hop ha
      have hwithin' : s'.Within size r := hwithin
      have h0 : s'.handy ≠ 0 := hne rfl
      have hskip := hwithin'.skip (Nat.min_le_left s'.handy len)
      have hfuel' : len - min s'.handy len ≤ fuel := by omega
      have hrest := ih hskip hop' hfuel'
      have htotal : r + min s'.handy len + (len - min s'.handy len) = r + len := by omega
      rw [htotal] at hrest
      exact hrest

theorem MemStream.Within.getOpaque (h : s.Within size 0) (hop : s.op = .decode) (len : ℕ) :
    (s.getOpaque len).Within size 0 := by
  have hget := h.getBytesLoop hop (le_refl len)
  have hkeeps := getBytesLoop_keeps len s len
  unfold MemStream.getOpaque memStreamGetBytes
  rcases hg : AcpltKs.getBytesLoop len s len with ⟨_ | _, cs, s'⟩
  · rw [hg] at hget
    exact hget
  · rw [hg] at hget hkeeps
    have hread : s'.Within size (0 + len) := hget
    have hpadded : 4 ∣ 0 + len + (padding len).length := by
      rw [Nat.zero_add]
      exact Nat.dvd_of_mod_eq_zero (padding_length len)
    have hrest := hread.getBytesLoop (hkeeps.op.trans hop) (le_refl (padding len).length)
    dsimp only
    split_ifs at hrest
    · exact hrest.of_dvd hpadded (dvd_zero 4)
    · exact hrest

/-- At the start of the first fragment. -/
theorem MemStream.Within.start (first : Fragment) (rest : List Fragment)
    (hchain : s.chain = .on [] first rest) (hoffset : s.offset = 0) (hhandy : s.handy = first.used)
    (hused : ∀ f ∈ first :: rest, f.used ≤ size ∧ 4 ∣ f.used)
    (hlast : s.op = .encode → rest = [] ∧ first.used = size) : s.Within size 0 := by
  have hfirst := hused first List.mem_cons_self
  refine ⟨?_, ?_, ?_, ?_⟩
  · rw [hoffset, hhandy, Nat.zero_add]
    exact hfirst.1
  · rw [hhandy]
    exact hfirst.2
  · rw [hchain]
    exact hused
  · intro hop
    obtain ⟨rfl, hsize⟩ := hlast hop
    exact ⟨[], first, hchain, hsize⟩

theorem MemStream.Within.rewind (h : s.Within size 0) (pool : Pool) :
    (xdrmemstreamRewind (pool, s) .decode).2.Within size 0 := by
  have hused := h.used
  by_cases hop : s.op = .encode
  · obtain ⟨before, current, hchain, hcurrent⟩ := h.last hop
    have hroom := h.room
    have hhandy := h.handy
    have hsub : subU32 current.used s.handy = size - s.handy := by
      rw [subU32_of_le (by omega), hcurrent]
    have hfrags := Chain.fragments_on before
      { current with used := subU32 current.used s.handy } []
    rw [hchain, Chain.fragments_on] at hused
    apply MemStream.Within.start
      (Chain.on before { current with used := subU32 current.used s.handy } []).fragments.1
      (Chain.on before { current with used := subU32 current.used s.handy } []).fragments.2
    · simp [xdrmemstreamRewind, hop, hchain, Chain.modify]
    · simp [xdrmemstreamRewind]
    · simp [xdrmemstreamRewind, hop, hchain, Chain.modify]
    · rw [hfrags]
      intro f hf
      obtain hf | hf := List.mem_append.mp hf
      · exact hused f (List.mem_append_left _ hf)
      · have hdvd := (hused current (List.mem_append_right _ (List.mem_singleton_self _))).2
        rw [hcurrent] at hdvd
        rw [List.mem_singleton.mp hf]
        dsimp only
        rw [hsub]
        omega
    · intro hencode
      cases hencode
  · apply MemStream.Within.start s.chain.fragments.1 s.chain.fragments.2
    · simp [xdrmemstreamRewind, hop]
    · simp [xdrmemstreamRewind]
    · simp [xdrmemstreamRewind, hop]
    · exact hused
    · intro hencode
      cases hencode

theorem MemStream.Within.clear (hsize : 4 ∣ size) (hpool : pool.memStreamBufferSize = size)
    (s : MemStream) : (xdrmemstreamClear (pool, s)).2.Within size 0 := by
  apply MemStream.Within.start { s.chain.fragments.1 with used := pool.memStreamBufferSize } []
  · rfl
  · rfl
  · rfl
  · intro f hf
    rw [List.mem_singleton.mp hf]
    dsimp only
    rw [hpool]
    exact ⟨le_rfl, hsize⟩
  · intro _
    exact ⟨rfl, hpool⟩

theorem MemStream.Within.perform (h : s.Within size 0) (hsize : 4 ∣ size) (hpos : 0 < size)
    {call : WordCall} (hcall : call.Admits size s) : (call.perform s).Within size 0 := by
  cases call with
  | put pool item => exact h.put hcall.1 hcall.2 hsize hpos item
  | getLong => exact h.getLong hcall
  | getOpaque len => exact h.getOpaque hcall len
  | rewind pool => exact h.rewind pool
  | clear pool => exact MemStream.Within.clear hsize hcall s

theorem MemStream.Within.inBounds (h : s.Within size 0) (hsize : 4 ∣ size) (hpos : 0 < size)
    {call : WordCall} (hcall : call.Admits size s) : call.InBounds size s := by
  refine ⟨h.room, ?_⟩
  cases call with
  | put pool item =>
    cases item with
    | octets bs => trivial
    | long w =>
      intro m ha
      obtain ⟨⟨hwithin, -, -⟩, hne⟩ := h.allocate hcall.1 hcall.2 hsize ha
      have hroom := hwithin.room
      have hhandy : 4 ∣ m.2.handy := hwithin.handy
      have h0 := hne rfl hpos
      dsimp only at hroom
      omega
  | getLong =>
    intro s' ha
    obtain ⟨hwithin, -, hne⟩ := h.advance hcall ha
    have hroom := hwithin.room
    have hhandy : 4 ∣ s'.handy := hwithin.handy
    have h0 := hne rfl
    omega
  | getOpaque len => trivial
  | rewind pool => trivial
  | clear pool => trivial

theorem MemStream.Within.along (h : s.Within size 0) (hsize : 4 ∣ size) (hpos : 0 < size)
    {calls : List WordCall} (hcalls : Along WordCall.perform (WordCall.Admits size) s calls) :
    Along WordCall.perform (WordCall.InBounds size) s calls := by
  induction calls generalizing s with
  | nil => trivial
  | cons call calls ih =>
    exact ⟨h.inBounds hsize hpos hcalls.1, ih (h.perform hsize hpos hcalls.1) hcalls.2⟩

/-- A new stream is at the start of a whole fragment. -/
theorem xdrmemstreamCreate_start {info : Option ℕ}
    (hcreate : xdrmemstreamCreate pool info = (some s, pool')) :
    s.offset = 0 ∧ s.handy = pool.memStreamBufferSize := by
  obtain ⟨⟨-, -, hroom, before, current, -, -, -, -, hbs⟩, -⟩ := xdrmemstreamCreate_encoding hcreate
  have hoffset : s.offset = 0 := ByteMemory.read_eq_nil.mp (List.append_eq_nil_iff.mp hbs.symm).2
  rw [hoffset, Nat.zero_add] at hroom
  exact ⟨hoffset, hroom⟩

theorem xdrmemstreamCreate_within {info : Option ℕ} (hsize : 4 ∣ pool.memStreamBufferSize)
    (hcreate : xdrmemstreamCreate pool info = (some s, pool')) :
    s.Within pool.memStreamBufferSize 0 := by
  obtain ⟨⟨-, -, -, before, current, hchain, hfull, hcurrent, -, -⟩, -⟩ :=
    xdrmemstreamCreate_encoding hcreate
  obtain ⟨hoffset, hroom⟩ := xdrmemstreamCreate_start hcreate
  refine ⟨?_, ?_, ?_, fun _ => ⟨before, current, hchain, hcurrent⟩⟩
  · rw [hoffset, hroom, Nat.zero_add]
  · rw [hroom]
    exact hsize
  · rw [hchain, Chain.fragments_on]
    intro f hf
    have hf : f.used = pool.memStreamBufferSize := by
      obtain hf | hf := List.mem_append.mp hf
      · exact hfull f hf
      · rw [List.mem_singleton.mp hf, hcurrent]
    rw [hf]
    exact ⟨le_rfl, hsize⟩

theorem memStreamPutLong_op (m : Mem) (w : UInt32) : (memStreamPutLong m w).2.2.op = m.2.op := by
  have hop : (allocateIfUsedUp m).2.2.op = m.2.op := by
    unfold allocateIfUsedUp
    split_ifs
    · rcases m with ⟨pool, s⟩
      unfold allocateMemoryStreamFragment
      rcases htake : pool.takeFragment with ⟨_ | f, pool'⟩
      · simp only [htake]
      · simp only [htake]
    · rfl
  unfold memStreamPutLong
  rcases ha : allocateIfUsedUp m with ⟨_ | _, pool, s⟩
  · rw [ha] at hop
    exact hop
  · rw [ha] at hop
    exact hop

/-- Word after word is put into a stream. -/
def putWords (pool : Pool) (k : ℕ) : List WordCall := List.replicate k (.put pool (.long 0))

theorem putWords_admitted (hop : s.op = .encode) (hpool : pool.memStreamBufferSize = size) (k : ℕ) :
    Along WordCall.perform (WordCall.Admits size) s (putWords pool k) := by
  unfold putWords
  induction k generalizing s with
  | zero => trivial
  | succ k ih =>
    rw [List.replicate_succ]
    exact ⟨⟨hop, hpool⟩, ih ((memStreamPutLong_op (pool, s) 0).trans hop)⟩

/-- Words cross the end of a fragment that they do not divide. -/
theorem putWords_cross {k : ℕ} (hk : s.handy < 4 * k) (hrest : ¬ 4 ∣ s.handy) :
    ¬ Along WordCall.perform (WordCall.InBounds size) s (putWords pool k) := by
  unfold putWords
  induction k generalizing s with
  | zero => omega
  | succ k ih =>
    rw [List.replicate_succ]
    rintro ⟨⟨-, hbounds⟩, hcalls⟩
    have h0 : s.handy ≠ 0 := by
      intro h0
      exact hrest (h0 ▸ dvd_zero 4)
    have ha : allocateIfUsedUp (pool, s) = (true, pool, s) := by
      unfold allocateIfUsedUp
      rw [if_neg h0]
    obtain ⟨h4, -⟩ := hbounds (pool, s) ha
    dsimp only at h4
    have hhandy : (WordCall.perform s (.put pool (.long 0))).handy = s.handy - 4 := by
      unfold WordCall.perform XdrItem.xdrEncode
      change (memStreamPutLong (pool, s) 0).2.2.handy = s.handy - 4
      unfold memStreamPutLong
      rw [ha]
      exact subU32_of_le h4
    apply ih _ _ hcalls
    · rw [hhandy]
      omega
    · rw [hhandy]
      omega

/-- Before there are fragments, every size is accepted. -/
theorem xdrmemstreamControlusage_first (hcount : pool.fragmentCount = 0)
    (fragmentsize quota watermark percentage : ℕ) :
    xdrmemstreamControlusage pool fragmentsize quota watermark percentage =
      (true, { pool with
        memStreamBufferSize := max fragmentsize 256
        fragmentQuota := quota
        fragmentWatermark := watermark
        freePercentage := percentage }) := by
  unfold xdrmemstreamControlusage
  rw [if_neg (by simp [hcount])]

/-- Whatever is put into streams and read from them, fragments of the size that is configured keep
words within their bounds exactly if words divide them. -/
theorem inBounds_iff (fragmentsize : ℕ) :
    (∀ pool₀ quota watermark percentage pool info s pool', pool₀.fragmentCount = 0 →
      xdrmemstreamControlusage pool₀ fragmentsize quota watermark percentage = (true, pool) →
      xdrmemstreamCreate pool info = (some s, pool') →
      ∀ calls, Along WordCall.perform (WordCall.Admits pool.memStreamBufferSize) s calls →
        Along WordCall.perform (WordCall.InBounds pool.memStreamBufferSize) s calls) ↔
      4 ∣ max fragmentsize 256 := by
  constructor
  · intro hall
    by_contra hrest
    let pool₀ := Pool.initial fun _ => some fun _ => 0
    have hcontrol :=
      xdrmemstreamControlusage_first (show pool₀.fragmentCount = 0 from rfl) fragmentsize 1 0 0
    obtain ⟨s, pool', hcreate⟩ : ∃ s pool', xdrmemstreamCreate { pool₀ with
        memStreamBufferSize := max fragmentsize 256
        fragmentQuota := 1
        fragmentWatermark := 0
        freePercentage := 0 } (some 0) = (some s, pool') := ⟨_, _, rfl⟩
    have hop := (xdrmemstreamCreate_encoding hcreate).1.op
    have hhandy : s.handy = max fragmentsize 256 := (xdrmemstreamCreate_start hcreate).2
    apply putWords_cross (k := s.handy + 1) (by omega) (hhandy ▸ hrest)
    exact hall _ _ _ _ _ _ _ _ rfl hcontrol hcreate _ (putWords_admitted hop rfl _)
  · intro hdvd pool₀ quota watermark percentage pool info s pool' hcount hcontrol hcreate calls hcalls
    have hsize : pool.memStreamBufferSize = max fragmentsize 256 := by
      rw [xdrmemstreamControlusage_first hcount] at hcontrol
      obtain ⟨-, rfl⟩ := Prod.mk.inj hcontrol
      rfl
    have hpos : 0 < pool.memStreamBufferSize := by
      rw [hsize]
      exact lt_of_lt_of_le (by decide) (le_max_right _ _)
    have hdvd' : 4 ∣ pool.memStreamBufferSize := hsize ▸ hdvd
    exact (xdrmemstreamCreate_within hdvd' hcreate).along hdvd' hpos hcalls

/-- The last of 65 words crosses the end of a fragment of 257 bytes. -/
theorem not_inBounds_odd :
    let control := xdrmemstreamControlusage (.initial fun _ => some fun _ => 0) 257 1 0 50
    ∃ s pool', control.1 = true ∧ xdrmemstreamCreate control.2 (some 0) = (some s, pool') ∧
      Along WordCall.perform (WordCall.Admits 257) s (putWords control.2 65) ∧
      ¬ Along WordCall.perform (WordCall.InBounds 257) s (putWords control.2 65) := by
  refine ⟨_, _, rfl, rfl, putWords_admitted rfl rfl 65, putWords_cross ?_ ?_⟩
  · decide
  · decide

end

end AcpltKs
