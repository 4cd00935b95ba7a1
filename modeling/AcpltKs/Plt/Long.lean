import Mathlib.Algebra.Order.Ring.Int

/-! The types `long` and `unsigned long`. -/
namespace AcpltKs

/-- The type `long`, which has at least 32 bits in two's complement. -/
structure Long where
  max : ℤ
  max_ge : 2147483647 ≤ max

namespace Long

def Fits (L : Long) (x : ℤ) : Prop := -L.max - 1 ≤ x ∧ x ≤ L.max

instance (L : Long) (x : ℤ) : Decidable (L.Fits x) := inferInstanceAs (Decidable (_ ∧ _))

/-- Signed arithmetic has no defined outcome beyond the range of the type. -/
def checked (L : Long) (x : ℤ) : Option ℤ := if L.Fits x then some x else none

theorem checked_of_fits {L : Long} {x : ℤ} (h : L.Fits x) : L.checked x = some x := if_pos h

/-- A `long` of 64 bits. -/
def lp64 : Long := ⟨9223372036854775807, by decide⟩

end Long

/-- The type `unsigned long`, as wide as `Long.lp64`. -/
abbrev ULong := UInt64

end AcpltKs
