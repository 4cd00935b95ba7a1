import AcpltKs.Xdr

/-! Encoding into and decoding from the fixed memory stream of the RPC library. -/
namespace AcpltKs
open ByteMemory

namespace XdrMem

/-- The stream after `bs` has been stored in it. -/
def stored (x : XdrMem) (bs : List UInt8) : XdrMem :=
  { x with
    buffer := write x.buffer x.pos bs
    pos := x.pos + bs.length
    handy := x.handy - bs.length }

@[simp] theorem stored_pos (x : XdrMem) (bs : List UInt8) :
    (x.stored bs).pos = x.pos + bs.length := rfl

@[simp] theorem stored_handy (x : XdrMem) (bs : List UInt8) :
    (x.stored bs).handy = x.handy - bs.length := rfl

@[simp] theorem stored_nil (x : XdrMem) : x.stored [] = x := by
  have hbuffer : write x.buffer x.pos [] = x.buffer := by
    funext i
    simp [write]
  simp [stored, hbuffer]

theorem stored_append (x : XdrMem) (bs cs : List UInt8) :
    (x.stored bs).stored cs = x.stored (bs ++ cs) := by
  have hbuffer : write (write x.buffer x.pos bs) (x.pos + bs.length) cs =
      write x.buffer x.pos (bs ++ cs) := by
    funext i
    simp only [write, List.getD_eq_getElem?_getD, List.getElem?_append]
    split_ifs with h₁ h₂ h₃ h₄ <;> first | rfl | omega | skip
    · rw [show i - (x.pos + bs.length) = i - x.pos - bs.length by omega,
        List.getElem?_eq_none (show bs.length ≤ i - x.pos by omega), Option.getD_none]
  simp only [stored, hbuffer, List.length_append]
  congr 1 <;> omega

/-- What has been stored can be read back. -/
theorem read_stored (x : XdrMem) (bs : List UInt8) :
    read (x.stored bs).buffer x.pos bs.length = bs :=
  read_write_self x.buffer x.pos bs

/-- The stream after `n` bytes of it have been read. -/
def skip (x : XdrMem) (n : ℕ) : XdrMem := { x with pos := x.pos + n, handy := x.handy - n }

end XdrMem

/-- An item for which there is room is stored. -/
theorem XdrItem.xdrEncode_stored (item : XdrItem) {x : XdrMem}
    (hroom : item.bytes.length ≤ x.handy) : item.xdrEncode x = (true, x.stored item.bytes) := by
  have hput : ∀ (x : XdrMem) (bs : List UInt8), bs.length ≤ x.handy →
      XdrSink.putBytes x bs = (true, x.stored bs) := fun x bs h => if_neg (by omega)
  cases item with
  | long w => exact hput x (BigEndian.encode w) hroom
  | octets bs =>
    simp only [bytes, List.length_append] at hroom
    simp only [xdrEncode, bytes]
    split_ifs with hempty hpad
    · obtain rfl := List.length_eq_zero_iff.mp hempty
      simp [padding]
    · rw [hput x bs (by omega), List.length_eq_zero_iff.mp hpad, List.append_nil]
    · rw [hput x bs (by omega)]
      simp only
      rw [hput _ _ (by rw [XdrMem.stored_handy]; omega), XdrMem.stored_append]

/-- Items for which there is room are stored one behind the other. -/
theorem xdrEncodeItems_stored (items : List XdrItem) {x : XdrMem}
    (hroom : (items.flatMap XdrItem.bytes).length ≤ x.handy) :
    xdrEncodeItems x items = (true, x.stored (items.flatMap XdrItem.bytes)) := by
  induction items generalizing x with
  | nil => simp [xdrEncodeItems]
  | cons item items ih =>
    rw [List.flatMap_cons, List.length_append] at hroom
    rw [xdrEncodeItems, item.xdrEncode_stored (by omega)]
    simp only
    rw [ih (by rw [XdrMem.stored_handy]; omega), XdrMem.stored_append, List.flatMap_cons]

theorem XdrMem.putBytes_true {x x' : XdrMem} {bs : List UInt8} (h : x.putBytes bs = (true, x')) :
    bs.length ≤ x.handy ∧ x' = x.stored bs := by
  unfold putBytes at h
  split_ifs at h with hroom
  · cases h
  · exact ⟨by omega, (Prod.mk.inj h).2.symm⟩

/-- Only an item for which there is room is written out. -/
theorem XdrItem.xdrEncode_true {item : XdrItem} {x x' : XdrMem}
    (h : item.xdrEncode x = (true, x')) : item.bytes.length ≤ x.handy ∧ x' = x.stored item.bytes := by
  have hroom : item.bytes.length ≤ x.handy := by
    cases item with
    | long w => exact (XdrMem.putBytes_true h).1
    | octets bs =>
      unfold xdrEncode at h
      rcases hput : XdrSink.putBytes x bs with ⟨ok, x₁⟩
      dsimp only at h
      rw [hput] at h
      rw [bytes, List.length_append]
      cases ok with
      | false =>
        split_ifs at h with hempty hpad
        · obtain rfl := List.length_eq_zero_iff.mp hempty
          simp [padding]
        · cases h
        · cases h
      | true =>
        obtain ⟨hlen, rfl⟩ := XdrMem.putBytes_true hput
        split_ifs at h with hempty hpad
        · obtain rfl := List.length_eq_zero_iff.mp hempty
          simp [padding]
        · omega
        · have hpadding := (XdrMem.putBytes_true h).1
          rw [XdrMem.stored_handy] at hpadding
          omega
  have hstored := h.symm.trans (item.xdrEncode_stored hroom)
  exact ⟨hroom, (Prod.mk.inj hstored).2⟩

theorem xdrEncodeItems_true {items : List XdrItem} {x x' : XdrMem}
    (h : xdrEncodeItems x items = (true, x')) :
    (items.flatMap XdrItem.bytes).length ≤ x.handy ∧
      x' = x.stored (items.flatMap XdrItem.bytes) := by
  induction items generalizing x with
  | nil =>
    cases h
    simp
  | cons item items ih =>
    unfold xdrEncodeItems at h
    split at h
    · cases h
    · rename_i hitem
      obtain ⟨hroom, rfl⟩ := XdrItem.xdrEncode_true hitem
      obtain ⟨hrest, rfl⟩ := ih h
      rw [XdrMem.stored_handy] at hrest
      rw [XdrMem.stored_append, List.flatMap_cons, List.length_append]
      exact ⟨by omega, rfl⟩

theorem Payload.xdrEncode_true {p : Payload} {x x' : XdrMem} (h : p.xdrEncode x = (true, x')) :
    p.bytes.length ≤ x.handy ∧ x' = x.stored p.bytes := by
  unfold xdrEncode at h
  split at h
  · cases h
  · rename_i hitems
    obtain ⟨-, rfl⟩ := Prod.mk.inj h
    exact xdrEncodeItems_true hitems

/-- A memory stream hands out the words that are stored in it. -/
theorem XdrMem.yields_iff {x x' : XdrMem} {ws : List UInt32} :
    Yields x ws x' ↔ 4 * ws.length ≤ x.handy ∧
      read x.buffer x.pos (4 * ws.length) = wireBytes ws ∧ x' = x.skip (4 * ws.length) := by
  induction ws generalizing x with
  | nil => simp [Yields, wireBytes, skip, eq_comm]
  | cons w ws ih =>
    have hread : read x.buffer x.pos (4 * (w :: ws).length) =
        read x.buffer x.pos 4 ++ read x.buffer (x.pos + 4) (4 * ws.length) := by
      rw [← read_add, List.length_cons]
      congr 1
      omega
    have hskip : (x.skip 4).skip (4 * ws.length) = x.skip (4 * (w :: ws).length) := by
      simp only [skip, List.length_cons]
      congr 1 <;> omega
    have hlong : ∀ s₁, XdrSource.getLong x = (some w, s₁) ↔
        4 ≤ x.handy ∧ read x.buffer x.pos 4 = BigEndian.encode w ∧ s₁ = x.skip 4 := by
      intro s₁
      by_cases hshort : x.handy < 4
      · simp [XdrSource.getLong, getLong, hshort]
      · simp only [XdrSource.getLong, getLong, hshort, if_false, Prod.mk.injEq, Option.some.injEq,
          skip, eq_comm (a := s₁)]
        have hword : BigEndian.decode (read x.buffer x.pos 4) = w ↔
            read x.buffer x.pos 4 = BigEndian.encode w := by
          constructor
          · rintro rfl
            exact (BigEndian.encode_decode (read_length _ _ _)).symm
          · intro h
            rw [h, BigEndian.decode_encode]
        rw [hword]
        simp [not_lt.mp hshort]
    simp only [Yields, hlong, ih, hread, wireBytes, List.flatMap_cons]
    constructor
    · rintro ⟨_, ⟨hroom, hw, rfl⟩, hrest, hws, rfl⟩
      refine ⟨?_, by rw [hw, show x.pos + 4 = (x.skip 4).pos from rfl, ← hws]; rfl, hskip⟩
      simp only [skip, List.length_cons] at hrest ⊢
      omega
    · rintro ⟨hroom, hbytes, rfl⟩
      obtain ⟨hw, hws⟩ := List.append_inj hbytes (by simp)
      rw [List.length_cons] at hroom
      refine ⟨_, ⟨by omega, hw, rfl⟩, ?_, hws, hskip.symm⟩
      simp only [skip]
      omega

end AcpltKs
