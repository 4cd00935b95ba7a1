import Mathlib.Data.List.Basic
import Mathlib.Tactic

/-! Big-endian 32-bit words over lists of bytes. -/
namespace BigEndian

/-- The four bytes of a word, most significant byte first. -/
def encode (w : UInt32) : List UInt8 :=
  [UInt8.ofNat (w.toNat / 2 ^ 24), UInt8.ofNat (w.toNat / 2 ^ 16),
    UInt8.ofNat (w.toNat / 2 ^ 8), UInt8.ofNat w.toNat]

/-- The word held by the first four bytes; shorter lists hold no word. -/
def decode : List UInt8 → UInt32
  | a :: b :: c :: d :: _ =>
      UInt32.ofNat (a.toNat * 2 ^ 24 + b.toNat * 2 ^ 16 + c.toNat * 2 ^ 8 + d.toNat)
  | _ => 0

@[simp] theorem encode_length (w : UInt32) : (encode w).length = 4 := rfl

@[simp] theorem encode_ne_nil (w : UInt32) : encode w ≠ [] := by simp [encode]

@[simp] theorem decode_encode_append (w : UInt32) (rest : List UInt8) :
    decode (encode w ++ rest) = w := by
  apply UInt32.toNat_inj.mp
  have h := w.toNat_lt
  simp only [encode, decode, List.cons_append, UInt32.toNat_ofNat', UInt8.toNat_ofNat']
  omega

@[simp] theorem decode_encode (w : UInt32) : decode (encode w) = w := by
  simpa using decode_encode_append w []

/-- Only the first four bytes matter. -/
theorem decode_take {bs : List UInt8} {n : ℕ} (hn : 4 ≤ n) : decode (bs.take n) = decode bs := by
  obtain ⟨k, rfl⟩ : ∃ k, n = k + 4 := ⟨n - 4, by omega⟩
  match bs with
  | [] | [_] | [_, _] | [_, _, _] => rfl
  | a :: b :: c :: d :: rest => rfl

theorem encode_decode {bs : List UInt8} (h : bs.length = 4) : encode (decode bs) = bs := by
  match bs, h with
  | [a, b, c, d], _ =>
    have ha := a.toNat_lt
    have hb := b.toNat_lt
    have hc := c.toNat_lt
    have hd := d.toNat_lt
    simp only [encode, decode, UInt32.toNat_ofNat', List.cons.injEq, and_true]
    refine ⟨?_, ?_, ?_, ?_⟩ <;> apply UInt8.toNat_inj.mp <;>
      simp only [UInt8.toNat_ofNat'] <;> omega

/-- A list that holds a word is that word's bytes followed by the rest. -/
theorem eq_encode_append (bs : List UInt8) (h : 4 ≤ bs.length) :
    bs = encode (decode bs) ++ bs.drop 4 := by
  have hd : decode (bs.take 4) = decode bs := decode_take le_rfl
  rw [← hd, encode_decode (by simp [h]), List.take_append_drop]

theorem encode_injective : Function.Injective encode := by
  intro v w h
  simpa using congrArg decode h

end BigEndian
