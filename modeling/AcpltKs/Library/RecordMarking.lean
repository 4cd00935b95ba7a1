import AcpltKs.Library.BigEndian

/-! Record marking on a byte stream. A record is cut into fragments; each fragment is a four-byte
header, whose top bit marks the last fragment of the record and whose other 31 bits count the bytes
of the body, followed by the body. The reader takes one byte at a time, so its state after a stream
does not depend on how the stream was cut. -/
namespace RecordMarking

/-- Does the header word announce the last fragment of its record? -/
def isLast (w : UInt32) : Bool := 2 ^ 31 ≤ w.toNat

/-- The number of body bytes the header word announces. -/
def bodyLength (w : UInt32) : ℕ := w.toNat % 2 ^ 31

theorem bodyLength_lt (w : UInt32) : bodyLength w < 2 ^ 31 := Nat.mod_lt _ (by norm_num)

/-- The header word of a fragment with a body of `n` bytes. -/
def headerWord (last : Bool) (n : ℕ) : UInt32 := UInt32.ofNat (n + if last then 2 ^ 31 else 0)

theorem isLast_headerWord {last : Bool} {n : ℕ} (hn : n < 2 ^ 31) :
    isLast (headerWord last n) = last := by
  cases last <;> simp [isLast, headerWord] <;> omega

theorem bodyLength_headerWord {last : Bool} {n : ℕ} (hn : n < 2 ^ 31) :
    bodyLength (headerWord last n) = n := by
  cases last <;> simp [bodyLength, headerWord] <;> omega

/-- Setting the top bit of a word marks a last fragment. -/
theorem mark_word (n : ℕ) : UInt32.ofNat n ||| 0x80000000 = headerWord true (n % 2 ^ 31) := by
  apply UInt32.toNat_inj.mp
  have hlow : n % 2 ^ 31 < 2 ^ 31 := Nat.mod_lt _ (by norm_num)
  have hor : 2 ^ 31 + n % 2 ^ 31 = 2 ^ 31 ||| n % 2 ^ 31 := by
    simpa using Nat.two_pow_add_eq_or_of_lt hlow 1
  have hword : n % 2 ^ 32 ||| 2 ^ 31 = 2 ^ 31 + n % 2 ^ 31 := by
    by_cases hbit : n % 2 ^ 32 < 2 ^ 31
    · rw [hor, Nat.or_comm, show n % 2 ^ 32 = n % 2 ^ 31 by omega]
    · rw [show n % 2 ^ 32 = 2 ^ 31 + n % 2 ^ 31 by omega, hor, Nat.or_comm, ← Nat.or_assoc,
        Nat.or_self]
  simp only [UInt32.toNat_or, UInt32.toNat_ofNat', headerWord, ↓reduceIte]
  rw [show UInt32.toNat 0x80000000 = 2 ^ 31 from rfl, hword]
  omega
/-- The bytes of one fragment. -/
def fragment (last : Bool) (body : List UInt8) : List UInt8 :=
  BigEndian.encode (headerWord last body.length) ++ body

/-- The bytes of the record with these fragment bodies; only the last one is marked. -/
def record : List (List UInt8) → List UInt8
  | [] => []
  | [body] => fragment true body
  | body :: bodies => fragment false body ++ record bodies

theorem record_cons {body : List UInt8} {bodies : List (List UInt8)} (h : bodies ≠ []) :
    record (body :: bodies) = fragment false body ++ record bodies := by
  cases bodies with
  | nil => exact absurd rfl h
  | cons b bs => rfl

/-- Where a fragment of the stream begins: at its start, and behind every complete header as far
as that header says. -/
inductive Boundary (stream : List UInt8) : ℕ → Prop
  | start : Boundary stream 0
  | next {p : ℕ} : Boundary stream p → p + 4 ≤ stream.length →
      Boundary stream (p + 4 + bodyLength (BigEndian.decode (stream.drop p)))

/-- What the reader is in the middle of: the header bytes it has got so far, or the number of body
bytes that are left and the mark of that fragment. -/
inductive Phase where
  | header (got : List UInt8)
  | body (left : ℕ) (last : Bool)
  deriving DecidableEq

/-- The phase behind a complete header, and whether the record ends there. -/
def openFragment (w : UInt32) : Phase × Bool :=
  if bodyLength w = 0 then (.header [], isLast w) else (.body (bodyLength w) (isLast w), false)

/-- Take one byte; the flag tells whether it was the last one of a record. -/
def Phase.feed : Phase → UInt8 → Phase × Bool
  | .header got, b =>
      if got.length < 3 then (.header (got ++ [b]), false)
      else openFragment (BigEndian.decode (got ++ [b]))
  | .body left last, _ =>
      if left ≤ 1 then (.header [], last) else (.body (left - 1) last, false)

/-- The phase after a list of bytes. -/
def Phase.feedAll (p : Phase) (bs : List UInt8) : Phase := bs.foldl (fun p b => (p.feed b).1) p

@[simp] theorem Phase.feedAll_nil (p : Phase) : p.feedAll [] = p := rfl

@[simp] theorem Phase.feedAll_cons (p : Phase) (b : UInt8) (bs : List UInt8) :
    p.feedAll (b :: bs) = (p.feed b).1.feedAll bs := rfl

theorem Phase.feedAll_append (p : Phase) (bs cs : List UInt8) :
    p.feedAll (bs ++ cs) = (p.feedAll bs).feedAll cs := List.foldl_append ..

/-- Header bytes that do not complete the header are kept. -/
theorem Phase.feedAll_header {got bs : List UInt8} (h : got.length + bs.length < 4) :
    (Phase.header got).feedAll bs = .header (got ++ bs) := by
  induction bs generalizing got with
  | nil => simp
  | cons b bs ih =>
    simp only [List.length_cons] at h
    have hf : (Phase.header got).feed b = (.header (got ++ [b]), false) := by
      simp [Phase.feed, show got.length < 3 by omega]
    rw [Phase.feedAll_cons, hf, ih (by simp; omega)]
    simp

/-- The byte that completes the header opens the fragment. -/
theorem Phase.feedAll_header_full {got bs : List UInt8} (hb : bs ≠ [])
    (h : got.length + bs.length = 4) :
    (Phase.header got).feedAll bs = (openFragment (BigEndian.decode (got ++ bs))).1 := by
  obtain ⟨cs, b, rfl⟩ := List.eq_nil_or_concat bs |>.resolve_left hb
  simp only [List.concat_eq_append, List.length_append, List.length_singleton] at h
  rw [List.concat_eq_append, Phase.feedAll_append, Phase.feedAll_header (by omega)]
  simp [Phase.feed, show ¬ got.length + cs.length < 3 by omega]

/-- Body bytes count the fragment down. -/
theorem Phase.feedAll_body {left : ℕ} {last : Bool} {bs : List UInt8} (h : bs.length < left) :
    (Phase.body left last).feedAll bs = .body (left - bs.length) last := by
  induction bs generalizing left with
  | nil => simp
  | cons b bs ih =>
    simp only [List.length_cons] at h
    have hf : (Phase.body left last).feed b = (.body (left - 1) last, false) := by
      simp [Phase.feed, show ¬ left ≤ 1 by omega]
    rw [Phase.feedAll_cons, hf, ih (by omega)]
    simp only [List.length_cons, Phase.body.injEq, and_true]
    omega

/-- The byte that completes the body ends the fragment. -/
theorem Phase.feedAll_body_full {left : ℕ} {last : Bool} {bs : List UInt8} (hb : bs ≠ [])
    (h : bs.length = left) : (Phase.body left last).feedAll bs = .header [] := by
  obtain ⟨cs, b, rfl⟩ := List.eq_nil_or_concat bs |>.resolve_left hb
  simp only [List.concat_eq_append, List.length_append, List.length_singleton] at h
  rw [List.concat_eq_append, Phase.feedAll_append, Phase.feedAll_body (by omega)]
  simp [Phase.feed, show left - cs.length ≤ 1 by omega]

/-- What a phase says about the position `n` in the stream: a header begins at a boundary and
holds the bytes found there, and a body ends at a boundary. -/
def Phase.At (stream : List UInt8) (n : ℕ) : Phase → Prop
  | .header got => ∃ p, Boundary stream p ∧ n = p + got.length ∧ got.length < 4 ∧
      got = (stream.drop p).take got.length
  | .body left _ => 0 < left ∧ Boundary stream (n + left)

theorem Phase.at_feed {stream : List UInt8} {n : ℕ} {p : Phase} {b : UInt8}
    (h : p.At stream n) (hb : stream[n]? = some b) : (p.feed b).1.At stream (n + 1) := by
  obtain ⟨hn, hget⟩ := List.getElem?_eq_some_iff.mp hb
  cases p with
  | header got =>
    obtain ⟨q, hq, rfl, hlen, hgot⟩ := h
    have hgot' : got ++ [b] = (stream.drop q).take (got.length + 1) := by
      rw [List.take_add_one, ← hgot]
      simp [hb]
    by_cases h3 : got.length < 3
    · simp only [Phase.feed, h3, ↓reduceIte, Phase.At, List.length_append, List.length_singleton]
      exact ⟨q, hq, by omega, by omega, hgot'⟩
    · have h4 : got.length = 3 := by omega
      have hdec : BigEndian.decode (got ++ [b]) = BigEndian.decode (stream.drop q) := by
        rw [hgot', h4, BigEndian.decode_take le_rfl]
      have hnext := Boundary.next hq (by omega)
      simp only [Phase.feed, h3, ↓reduceIte, hdec, openFragment]
      split
      next h0 =>
        refine ⟨_, hnext, ?_, by simp, by simp⟩
        simp [h0, h4]
      next h0 =>
        refine ⟨Nat.pos_of_ne_zero h0, ?_⟩
        rw [h4]
        exact hnext
  | body left last =>
    obtain ⟨hpos, hbound⟩ := h
    by_cases h1 : left ≤ 1
    · have : left = 1 := by omega
      subst this
      simp only [Phase.feed, le_refl, ↓reduceIte, Phase.At]
      exact ⟨n + 1, hbound, by simp, by simp, by simp⟩
    · simp only [Phase.feed, h1, ↓reduceIte, Phase.At]
      refine ⟨by omega, ?_⟩
      rw [show n + 1 + (left - 1) = n + left by omega]
      exact hbound

theorem Phase.at_start (stream : List UInt8) : (Phase.header []).At stream 0 :=
  ⟨0, .start, rfl, by simp, by simp⟩

/-- A phase that is right about its position stays so along the stream. -/
theorem Phase.at_feedAll {stream bs rest : List UInt8} {n : ℕ} {p : Phase} (h : p.At stream n)
    (hbs : stream.drop n = bs ++ rest) : (p.feedAll bs).At stream (n + bs.length) := by
  induction bs generalizing n p with
  | nil => simpa using h
  | cons b bs ih =>
    have hb : stream[n]? = some b := by
      rw [← List.head?_drop, hbs]
      rfl
    have hdrop : stream.drop (n + 1) = bs ++ rest := by
      rw [← List.drop_drop, hbs]
      rfl
    rw [Phase.feedAll_cons, List.length_cons, ← Nat.add_assoc, Nat.add_right_comm]
    exact ih (Phase.at_feed h hb) hdrop

/-- No fragment begins within the first one. -/
theorem Boundary.first {stream : List UInt8} {n : ℕ} (h : Boundary stream n) :
    n = 0 ∨ 4 + bodyLength (BigEndian.decode stream) ≤ n := by
  induction h with
  | start => exact Or.inl rfl
  | @next p hp hlen ih =>
    rcases ih with rfl | ih
    · simp
    · omega

/-- The byte-wise reader: its phase, the bytes it has taken of the record under way, the body
bytes among them, and the bodies of the records that are complete. -/
structure Reader where
  phase : Phase := .header []
  taken : ℕ := 0
  acc : List UInt8 := []
  done : List (List UInt8) := []
  deriving DecidableEq

/-- The body of the record under way once `bs` is taken, within one header or one body. -/
def Reader.accWith (r : Reader) (bs : List UInt8) : List UInt8 :=
  match r.phase with
  | .header _ => r.acc
  | .body _ _ => r.acc ++ bs

def Reader.feed (r : Reader) (b : UInt8) : Reader :=
  if (r.phase.feed b).2 then { phase := (r.phase.feed b).1, done := r.done ++ [r.accWith [b]] }
  else { r with phase := (r.phase.feed b).1, taken := r.taken + 1, acc := r.accWith [b] }

def Reader.feedAll (r : Reader) (bs : List UInt8) : Reader := bs.foldl Reader.feed r

@[simp] theorem Reader.feedAll_nil (r : Reader) : r.feedAll [] = r := rfl

@[simp] theorem Reader.feedAll_cons (r : Reader) (b : UInt8) (bs : List UInt8) :
    r.feedAll (b :: bs) = (r.feed b).feedAll bs := rfl

/-- Chunking does not matter. -/
theorem Reader.feedAll_append (r : Reader) (bs cs : List UInt8) :
    r.feedAll (bs ++ cs) = (r.feedAll bs).feedAll cs := List.foldl_append ..

theorem Reader.feedAll_phase (r : Reader) (bs : List UInt8) :
    (r.feedAll bs).phase = r.phase.feedAll bs := by
  induction bs generalizing r with
  | nil => rfl
  | cons b bs ih =>
    rw [feedAll_cons, ih, Phase.feedAll_cons]
    unfold feed
    split <;> rfl

/-- The reader takes bytes of a header. -/
theorem Reader.feedAll_header {r : Reader} {got bs : List UInt8} (hr : r.phase = .header got)
    (h : got.length + bs.length < 4) :
    r.feedAll bs = { r with phase := .header (got ++ bs), taken := r.taken + bs.length } := by
  induction bs generalizing r got with
  | nil => simp [← hr]
  | cons b bs ih =>
    simp only [List.length_cons] at h
    have hf : r.feed b = { r with phase := .header (got ++ [b]), taken := r.taken + 1 } := by
      simp [feed, hr, Phase.feed, accWith, show got.length < 3 by omega]
    rw [feedAll_cons, hf, ih rfl (by simp; omega)]
    simp only [List.append_assoc, List.singleton_append, List.length_cons]
    congr 1
    omega

/-- The reader takes the bytes that complete a header. -/
theorem Reader.feedAll_header_full {r : Reader} {got bs : List UInt8} (hr : r.phase = .header got)
    (hb : bs ≠ []) (h : got.length + bs.length = 4) :
    r.feedAll bs =
      let o := openFragment (BigEndian.decode (got ++ bs))
      if o.2 then { phase := o.1, done := r.done ++ [r.acc] }
      else { r with phase := o.1, taken := r.taken + bs.length } := by
  obtain ⟨cs, b, rfl⟩ := List.eq_nil_or_concat bs |>.resolve_left hb
  simp only [List.concat_eq_append, List.length_append, List.length_singleton] at h
  rw [List.concat_eq_append, feedAll_append, feedAll_header hr (by omega)]
  simp [feed, Phase.feed, accWith, show ¬ got.length + cs.length < 3 by omega, Nat.add_assoc]

/-- The reader takes bytes of a body. -/
theorem Reader.feedAll_body {r : Reader} {left : ℕ} {last : Bool} {bs : List UInt8}
    (hr : r.phase = .body left last) (h : bs.length < left) :
    r.feedAll bs = { r with
      phase := .body (left - bs.length) last, taken := r.taken + bs.length,
      acc := r.acc ++ bs } := by
  induction bs generalizing r left with
  | nil => simp [← hr]
  | cons b bs ih =>
    simp only [List.length_cons] at h
    have hf : r.feed b = { r with
        phase := .body (left - 1) last, taken := r.taken + 1, acc := r.acc ++ [b] } := by
      simp [feed, hr, Phase.feed, accWith, show ¬ left ≤ 1 by omega]
    rw [feedAll_cons, hf, ih rfl (by omega)]
    simp only [List.append_assoc, List.singleton_append, List.length_cons]
    congr 1
    · congr 1
      omega
    · omega

/-- The reader takes the bytes that complete a body. -/
theorem Reader.feedAll_body_full {r : Reader} {left : ℕ} {last : Bool} {bs : List UInt8}
    (hr : r.phase = .body left last) (hb : bs ≠ []) (h : bs.length = left) :
    r.feedAll bs =
      if last then { done := r.done ++ [r.acc ++ bs] }
      else { r with phase := .header [], taken := r.taken + bs.length, acc := r.acc ++ bs } := by
  obtain ⟨cs, b, rfl⟩ := List.eq_nil_or_concat bs |>.resolve_left hb
  simp only [List.concat_eq_append, List.length_append, List.length_singleton] at h
  rw [List.concat_eq_append, feedAll_append, feedAll_body hr (by omega)]
  cases last <;> simp [feed, Phase.feed, accWith, show left - cs.length ≤ 1 by omega, Nat.add_assoc]

/-- As long as no record is completed, the reader counts the bytes it takes. -/
theorem Reader.feedAll_taken (r : Reader) (bs : List UInt8) :
    r.done.length ≤ (r.feedAll bs).done.length ∧
      ((r.feedAll bs).done.length = r.done.length →
        (r.feedAll bs).taken = r.taken + bs.length ∧ (r.feedAll bs).done = r.done) := by
  induction bs generalizing r with
  | nil => simp
  | cons b bs ih =>
    obtain ⟨hle, heq⟩ := ih (r.feed b)
    rw [feedAll_cons]
    by_cases hf : (r.phase.feed b).2 = true
    · have hdone : (r.feed b).done.length = r.done.length + 1 := by simp [feed, hf]
      exact ⟨by omega, by omega⟩
    · have hdone : (r.feed b).done = r.done := by simp [feed, hf]
      have htaken : (r.feed b).taken = r.taken + 1 := by simp [feed, hf]
      rw [hdone] at hle heq
      refine ⟨hle, fun h => ?_⟩
      obtain ⟨ht, hd⟩ := heq h
      refine ⟨?_, hd⟩
      rw [ht, htaken, List.length_cons]
      omega

/-- A whole fragment is taken. -/
theorem Reader.feedAll_fragment {r : Reader} (hr : r.phase = .header []) {last : Bool}
    {body : List UInt8} (hbody : body.length < 2 ^ 31) :
    r.feedAll (fragment last body) =
      if last then { done := r.done ++ [r.acc ++ body] }
      else { r with
        phase := .header [], taken := r.taken + (fragment last body).length,
        acc := r.acc ++ body } := by
  have hword := feedAll_header_full hr (BigEndian.encode_ne_nil (headerWord last body.length)) rfl
  simp only [List.nil_append, BigEndian.decode_encode, openFragment, bodyLength_headerWord hbody,
    isLast_headerWord hbody] at hword
  rw [fragment, feedAll_append, hword]
  by_cases h0 : body.length = 0
  · obtain rfl := List.length_eq_zero_iff.mp h0
    cases last <;> simp
  · have hne : body ≠ [] := fun h => h0 (by simp [h])
    simp only [h0, ↓reduceIte, Bool.false_eq_true]
    rw [feedAll_body_full rfl hne rfl]
    cases last <;> simp [Nat.add_assoc]

/-- A whole record is taken and completed. -/
theorem Reader.feedAll_record {r : Reader} (hr : r.phase = .header []) {bodies : List (List UInt8)}
    (hne : bodies ≠ []) (hlen : ∀ body ∈ bodies, body.length < 2 ^ 31) :
    r.feedAll (record bodies) = { done := r.done ++ [r.acc ++ bodies.flatten] } := by
  induction bodies generalizing r with
  | nil => exact absurd rfl hne
  | cons body bodies ih =>
    have hbody := hlen body List.mem_cons_self
    by_cases hnil : bodies = []
    · subst hnil
      simp [record, feedAll_fragment hr hbody]
    · rw [record_cons hnil, feedAll_append, feedAll_fragment hr hbody]
      simp only [Bool.false_eq_true, ↓reduceIte]
      rw [ih rfl hnil fun b hb => hlen b (List.mem_cons_of_mem _ hb)]
      simp

/-- Somewhere in a stream of records, the complete ones have been delivered, and the bytes behind
them belong to the next one. -/
theorem Reader.feedAll_records {ds : List (List UInt8)} {records : List (List (List UInt8))}
    (hrecords : ∀ bodies ∈ records, bodies ≠ [] ∧ ∀ body ∈ bodies, body.length < 2 ^ 31)
    {bs rest : List UInt8} (h : records.flatMap record = bs ++ rest) :
    ∃ k ≤ records.length,
      (Reader.feedAll { done := ds } bs).done = ds ++ (records.take k).map List.flatten ∧
        bs.length = ((records.take k).flatMap record).length +
          (Reader.feedAll { done := ds } bs).taken := by
  induction records generalizing ds bs with
  | nil =>
    obtain ⟨rfl, -⟩ : bs = [] ∧ rest = [] := by simpa using h.symm
    exact ⟨0, by simp⟩
  | cons bodies records ih =>
    obtain ⟨hne, hlen⟩ := hrecords bodies List.mem_cons_self
    have hfull : Reader.feedAll { done := ds } (record bodies) =
        { done := ds ++ [bodies.flatten] } := by
      rw [feedAll_record rfl hne hlen]
      simp
    rw [List.flatMap_cons] at h
    rcases List.append_eq_append_iff.mp h with ⟨bs', rfl, hrest⟩ | ⟨suffix, hrecord, -⟩
    · obtain ⟨k, hk, hdone, hcount⟩ :=
        ih (fun b hb => hrecords b (List.mem_cons_of_mem _ hb)) hrest
      refine ⟨k + 1, by simp; omega, ?_, ?_⟩
      · rw [feedAll_append, hfull, hdone]
        simp
      · rw [feedAll_append, hfull, List.length_append, hcount]
        simp [Nat.add_assoc]
    · by_cases hs : suffix = []
      · subst hs
        rw [List.append_nil] at hrecord
        refine ⟨1, by simp, ?_, ?_⟩ <;> simp [← hrecord, hfull]
      · -- a proper part of a record completes nothing
        have hsplit : (Reader.feedAll { done := ds } bs).feedAll suffix =
            { done := ds ++ [bodies.flatten] } := by
          rw [← feedAll_append, ← hrecord, hfull]
        obtain ⟨hle, heq⟩ := feedAll_taken { done := ds } bs
        obtain ⟨hle', heq'⟩ := feedAll_taken (Reader.feedAll { done := ds } bs) suffix
        rw [hsplit] at hle' heq'
        simp only [List.length_append, List.length_singleton] at hle hle' heq heq'
        have hpos := List.length_pos_iff.mpr hs
        have hsame : (Reader.feedAll { done := ds } bs).done.length = ds.length := by
          by_contra hdiff
          have := (heq' (by omega)).1
          omega
        obtain ⟨ht, hd⟩ := heq hsame
        exact ⟨0, by simp, by simpa using hd, by simpa using ht.symm⟩

end RecordMarking
