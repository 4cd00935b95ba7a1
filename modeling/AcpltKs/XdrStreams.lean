import AcpltKs.XdrCodec

/-! Streams that are filled with what a decoder takes. A memory stream hands out words only where
they do not lie across two fragments, so decoders have to keep to multiples of four bytes. -/
namespace AcpltKs
open ByteMemory

variable {α β σ : Type*}

namespace XdrReader

theorem run_bind [XdrSource σ] (r : XdrReader α) (f : α → XdrReader β) (s : σ) :
    (r.bind f).run s = (f (r.run s).1).run (r.run s).2 := by
  induction r generalizing s with
  | done a => rfl
  | long next ih => exact ih _ _
  | octets len next ih => exact ih _ _

/-- From this position on, all words lie at multiples of four bytes, and so does the end. -/
def AlignedAt : XdrReader α → ℕ → Prop
  | .done _, pos => 4 ∣ pos
  | .long next, pos => 4 ∣ pos ∧ ∀ w, (next (some w)).AlignedAt (pos + 4)
  | .octets len next, pos => ∀ bs, (next (some bs)).AlignedAt (pos + len)

theorem AlignedAt.add {r : XdrReader α} {pos n : ℕ} (h : r.AlignedAt pos) (hn : 4 ∣ n) :
    r.AlignedAt (pos + n) := by
  induction r generalizing pos with
  | done a => exact dvd_add h hn
  | long next ih =>
    refine ⟨dvd_add h.1 hn, fun w => ?_⟩
    rw [Nat.add_right_comm]
    exact ih _ (h.2 w)
  | octets len next ih =>
    intro bs
    rw [Nat.add_right_comm]
    exact ih _ (h bs)

/-- A decoder that is aligned starts anew at every multiple of four. -/
theorem AlignedAt.of_dvd {r : XdrReader α} {pos : ℕ} (h : r.AlignedAt 0) (hpos : 4 ∣ pos) :
    r.AlignedAt pos := by
  simpa using h.add hpos

theorem AlignedAt.bind {r : XdrReader α} {f : α → XdrReader β} {pos : ℕ} (hr : r.AlignedAt pos)
    (hf : ∀ a, (f a).AlignedAt 0) : (r.bind f).AlignedAt pos := by
  induction r generalizing pos with
  | done a => exact (hf a).of_dvd hr
  | long next ih => exact ⟨hr.1, fun w => ih _ (hr.2 w)⟩
  | octets len next ih => exact fun bs => ih _ (hr bs)

theorem alignedAt_done (a : α) : (done a).AlignedAt 0 := dvd_zero 4

theorem alignedAt_opaque {next : Option (List UInt8) → XdrReader α}
    (h : ∀ bs, (next (some bs)).AlignedAt 0) (len : ℕ) : (xdrdOpaque len next).AlignedAt 0 := by
  have hpadded : 4 ∣ len + (padding len).length := Nat.dvd_of_mod_eq_zero (padding_length len)
  unfold xdrdOpaque
  by_cases hempty : len = 0
  · rw [if_pos hempty]
    exact h []
  · rw [if_neg hempty]
    intro bs
    rw [Nat.zero_add]
    by_cases hpad : (padding len).length = 0
    · simp only [hpad, if_true]
      exact (h bs).of_dvd (by rwa [hpad] at hpadded)
    · simp only [hpad, if_false]
      exact fun _ => (h bs).of_dvd hpadded

theorem Takes.aligned {r : XdrReader α} {bs : List UInt8} {a : α} {pos : ℕ} (h : r.Takes bs a)
    (haligned : r.AlignedAt pos) : 4 ∣ pos + bs.length := by
  induction r generalizing bs pos with
  | done a' =>
    obtain ⟨rfl, -⟩ := h
    exact haligned
  | long next ih =>
    obtain ⟨w, cs, rfl, h⟩ := h
    rw [List.length_append, BigEndian.encode_length, ← Nat.add_assoc]
    exact ih _ h (haligned.2 w)
  | octets len next ih =>
    obtain ⟨ds, cs, rfl, rfl, h⟩ := h
    rw [List.length_append, ← Nat.add_assoc]
    exact ih _ h (haligned ds)

end XdrReader

namespace XdrDecoder

def Aligned (d : XdrDecoder α) : Prop := ∀ a, (d a).AlignedAt 0

theorem aligned_nothing : (nothing : XdrDecoder α).Aligned := XdrReader.alignedAt_done

theorem Aligned.andThen {d e : XdrDecoder α} (hd : d.Aligned) (he : e.Aligned) :
    (d.andThen e).Aligned := by
  refine fun a => (hd a).bind ?_
  rintro ⟨_ | _, a⟩
  · exact XdrReader.alignedAt_done _
  · exact he a

theorem Aligned.field {d : XdrDecoder β} (hd : d.Aligned) (get : α → β) (set : β → α → α) :
    (field get set d).Aligned :=
  fun a => (hd (get a)).bind fun _ => XdrReader.alignedAt_done _

theorem Aligned.pair {d : XdrDecoder α} {e : XdrDecoder β} (hd : d.Aligned) (he : e.Aligned) :
    (d.pair e).Aligned :=
  (hd.field _ _).andThen (he.field _ _)

theorem Aligned.content {d : XdrDecoder β} (hd : d.Aligned) (wrap : β → α) (b : β) :
    (content wrap d b).AlignedAt 0 :=
  (hd b).bind fun _ => XdrReader.alignedAt_done _

theorem Aligned.new {d : XdrDecoder α} (hd : d.Aligned) (blank : α) :
    (xdrNew blank d).AlignedAt 0 :=
  (hd blank).bind fun _ => XdrReader.alignedAt_done _

theorem aligned_handle {new : XdrReader (Option α)} (hnew : new.AlignedAt 0) :
    (handleDecode new).Aligned := by
  refine fun old => hnew.bind ?_
  rintro (_ | a) <;> exact XdrReader.alignedAt_done _

theorem aligned_elements {d : XdrDecoder α} (hd : d.Aligned) : (elementsDecode d).Aligned := by
  intro l
  induction l with
  | nil => exact XdrReader.alignedAt_done _
  | cons a l ih =>
    refine (hd a).bind ?_
    rintro ⟨_ | _, a⟩
    · exact XdrReader.alignedAt_done _
    · exact ih.bind fun _ => XdrReader.alignedAt_done _

theorem aligned_array {d : XdrDecoder α} (hd : d.Aligned) (blank : α) :
    (arrayDecode blank d).Aligned :=
  fun _ => ⟨dvd_zero 4, fun _ => (aligned_elements hd _).of_dvd (dvd_refl 4)⟩

theorem aligned_listElements {new : XdrReader (Option α)} (hnew : new.AlignedAt 0) (n : ℕ)
    (l : List α) : (listDecodeElements new n l).AlignedAt 0 := by
  induction n generalizing l with
  | zero => exact XdrReader.alignedAt_done _
  | succ n ih =>
    refine hnew.bind ?_
    rintro (_ | a)
    · exact XdrReader.alignedAt_done _
    · exact ih _

theorem aligned_list {new : XdrReader (Option α)} (hnew : new.AlignedAt 0) :
    (listDecode new).Aligned :=
  fun _ => ⟨dvd_zero 4, fun _ => (aligned_listElements hnew _ _).of_dvd (dvd_refl 4)⟩

theorem aligned_uLong : xdrdULong.Aligned := fun _ => ⟨dvd_zero 4, fun _ => dvd_refl 4⟩

theorem aligned_long : xdrdLong.Aligned := fun _ => ⟨dvd_zero 4, fun _ => dvd_refl 4⟩

theorem aligned_bool : xdrdBool.Aligned := fun _ => ⟨dvd_zero 4, fun _ => dvd_refl 4⟩

theorem aligned_double : xdrdDouble.Aligned :=
  fun _ => ⟨dvd_zero 4, fun _ => ⟨dvd_refl 4, fun _ => dvd_add (dvd_refl 4) (dvd_refl 4)⟩⟩

variable {u : XdrUnion α}

theorem aligned_unionNew (hparts : u.decodeParts.Aligned) : u.new.AlignedAt 0 := by
  refine ⟨dvd_zero 4, fun w => ?_⟩
  dsimp only
  cases u.blank w with
  | none => exact dvd_refl 4
  | some a => exact (hparts.new a).of_dvd (dvd_refl 4)

end XdrDecoder

/-- A kind of streams that hold bytes, and what is left of them after a read: streams like this one
hand out their bytes from the front, words only where a multiple of four bytes follows. -/
structure Feeding [XdrSource σ] (P : σ → List UInt8 → Prop) : Prop where
  long : ∀ {s w rest}, P s (BigEndian.encode w ++ rest) → 4 ∣ rest.length →
    ∃ s', XdrSource.getLong s = (some w, s') ∧ P s' rest
  bytes : ∀ {s bs rest}, P s (bs ++ rest) →
    ∃ s', XdrSource.getBytes s bs.length = (some bs, s') ∧ P s' rest

/-- An aligned decoder gets what it takes. -/
theorem Feeding.run [XdrSource σ] {P : σ → List UInt8 → Prop} (h : Feeding P) {r : XdrReader α}
    {bs rest : List UInt8} {a : α} {pos : ℕ} {s : σ} (htakes : r.Takes bs a)
    (haligned : r.AlignedAt pos) (hrest : 4 ∣ rest.length) (hs : P s (bs ++ rest)) :
    ∃ s', r.run s = (a, s') ∧ P s' rest := by
  induction r generalizing bs s pos with
  | done a' =>
    obtain ⟨rfl, rfl⟩ := htakes
    exact ⟨s, rfl, hs⟩
  | long next ih =>
    have hend := htakes.aligned haligned
    obtain ⟨w, cs, rfl, htakes⟩ := htakes
    rw [List.append_assoc] at hs
    rw [List.length_append, BigEndian.encode_length, Nat.dvd_add_right haligned.1,
      Nat.dvd_add_right (dvd_refl 4)] at hend
    obtain ⟨s₁, hlong, hs₁⟩ := h.long hs (by rw [List.length_append]; exact dvd_add hend hrest)
    obtain ⟨s', hrun, hs'⟩ := ih _ htakes (haligned.2 w) hs₁
    exact ⟨s', by rw [XdrReader.run, hlong, hrun], hs'⟩
  | octets len next ih =>
    obtain ⟨ds, cs, rfl, rfl, htakes⟩ := htakes
    rw [List.append_assoc] at hs
    obtain ⟨s₁, hbytes, hs₁⟩ := h.bytes hs
    obtain ⟨s', hrun, hs'⟩ := ih _ htakes (haligned ds) hs₁
    exact ⟨s', by rw [XdrReader.run, hbytes, hrun], hs'⟩

/-- What is left of the library's stream begins with these bytes. -/
def XdrMem.Holds (x : XdrMem) (bs : List UInt8) : Prop :=
  bs.length ≤ x.handy ∧ read x.buffer x.pos bs.length = bs

theorem feeding_xdrMem : Feeding XdrMem.Holds where
  long := by
    rintro x w rest ⟨hroom, hread⟩ -
    rw [List.length_append, BigEndian.encode_length] at hroom hread
    rw [read_add] at hread
    obtain ⟨hw, hrest⟩ := List.append_inj hread (by simp)
    have hshort : ¬ x.handy < 4 := by omega
    refine ⟨x.skip 4, ?_, ⟨by simp only [XdrMem.skip]; omega, hrest⟩⟩
    simp only [XdrSource.getLong, XdrMem.getLong, hshort, if_false, hw, BigEndian.decode_encode,
      XdrMem.skip]
  bytes := by
    rintro x bs rest ⟨hroom, hread⟩
    rw [List.length_append] at hroom hread
    rw [read_add] at hread
    obtain ⟨hbs, hrest⟩ := List.append_inj hread (by simp)
    have hshort : ¬ x.handy < bs.length := by omega
    refine ⟨x.skip bs.length, ?_, ⟨by simp only [XdrMem.skip]; omega, hrest⟩⟩
    simp only [XdrSource.getBytes, XdrMem.getBytes, hshort, if_false, hbs, XdrMem.skip]

/-- The library's stream over a buffer with these bytes. -/
def XdrMem.ofBytes (bs : List UInt8) : XdrMem :=
  xdrmemCreate (fun i => bs.getD i 0) bs.length .decode

theorem XdrMem.holds_ofBytes (bs : List UInt8) : (ofBytes bs).Holds bs := by
  refine ⟨le_refl _, List.ext_getElem (by simp) fun i h h' => ?_⟩
  rw [read_getElem]
  simp [ofBytes, xdrmemCreate, h']

/-- These bytes are left of what a memory stream has been filled with. -/
def MemStream.Holds (s : MemStream) (bs : List UInt8) : Prop :=
  ∃ size frags body pos, LegalSize size ∧ Laid size frags body ∧ s.Decoding size frags pos ∧
    4 ∣ body.length ∧ pos ≤ body.length ∧ body.drop pos = bs

theorem feeding_memStream : Feeding MemStream.Holds where
  long := by
    rintro s w rest ⟨size, frags, body, pos, hsize, hlaid, hdec, hbody, hpos, hdrop⟩ hrest
    have hlength := congrArg List.length hdrop
    rw [List.length_drop, List.length_append, BigEndian.encode_length] at hlength
    have hfour : 4 ∣ pos := by omega
    have hmod : 4 ∣ pos % size := (Nat.dvd_mod_iff hsize.aligned).mpr hfour
    have hlt : pos % size < size := Nat.mod_lt _ (by have := hsize.large; omega)
    have hfit : inFragment size body.length pos ∉ [1, 2, 3] := by
      have hdvd := hsize.aligned
      simp only [inFragment, List.mem_cons, List.not_mem_nil, or_false]
      omega
    rcases hg : memStreamGetLong s with ⟨got, s'⟩
    obtain ⟨-, rfl, hdec'⟩ | ⟨hend, -⟩ := memStreamGetLong_decoding hlaid hdec hsize hfit hg
    · refine ⟨s', ?_, size, frags, body, pos + 4, hsize, hlaid, hdec', hbody, by omega, ?_⟩
      · rw [hdrop, BigEndian.decode_encode_append] at hg
        exact hg
      · rw [← List.drop_drop, hdrop]
        exact List.drop_left' (BigEndian.encode_length w)
    · omega
  bytes := by
    rintro s bs rest ⟨size, frags, body, pos, hsize, hlaid, hdec, hbody, hpos, hdrop⟩
    have hlength := congrArg List.length hdrop
    rw [List.length_drop, List.length_append] at hlength
    rcases hg : memStreamGetBytes s bs.length with ⟨ok, got, s'⟩
    obtain ⟨rfl, rfl, -, hdec'⟩ | ⟨-, hend, -⟩ := memStreamGetBytes_decoding hlaid hdec hsize hg
    · refine ⟨s', ?_, size, frags, body, pos + bs.length, hsize, hlaid, hdec', hbody, by omega, ?_⟩
      · simp [XdrSource.getBytes, hg, hdrop]
      · rw [← List.drop_drop, hdrop]
        simp
    · omega

end AcpltKs
