import Calculator.Number.Binary64

/-!
# The interchange format of a floating point number

Sixty-four bits: the sign, eleven bits of exponent and fifty-two bits of fraction. A magnitude in
units is the fraction shifted by the exponent, so `Binary64.toBits` writes the shift and the digits
that are kept, and `Binary64.ofBits` shifts them back. Every undefined number is written alike.

* `Binary64.representable_magnitude`: what the bits say is representable.
-/

namespace Calculator

namespace Binary64

/-- The magnitude, in units, that an exponent below 2047 and a fraction write. -/
def magnitude (exponent fraction : Nat) : Nat :=
  if exponent = 0 then fraction else (2 ^ 52 + fraction) * 2 ^ (exponent - 1)

theorem representable_magnitude {exponent fraction : Nat} (he : exponent < 2047)
    (hf : fraction < 2 ^ 52) : Representable (magnitude exponent fraction) := by
  have key : ∀ {m s : Nat}, m < 2 ^ 53 → s ≤ 2045 → Representable (m * 2 ^ s) := by
    intro m s hm hs
    refine representable_mul_two_pow (Nat.le_of_lt hm) ?_
    have hw : 53 + s ≤ width := by simp only [width, places]; omega
    refine Nat.lt_of_lt_of_le ?_ (Nat.pow_le_pow_right (by omega) hw)
    rw [Nat.pow_add]
    exact Nat.mul_lt_mul_of_pos_right hm (Nat.two_pow_pos s)
  unfold magnitude
  split
  · simpa using key (m := fraction) (s := 0) (by omega) (by omega)
  · exact key (by omega) (by omega)

/-- The number that sixty-four bits write. -/
def ofBits (bits : UInt64) : Binary64 :=
  let negative := bits.toNat / 2 ^ 63 == 1
  let exponent := bits.toNat / 2 ^ 52 % 2 ^ 11
  let fraction := bits.toNat % 2 ^ 52
  if he : exponent < 2047 then
    finite negative (magnitude exponent fraction)
      (representable_magnitude he (Nat.mod_lt _ (Nat.two_pow_pos 52)))
  else if fraction = 0 then infinity negative
  else nan

/-- The bit of a sign, in its place. -/
def signBit (negative : Bool) : Nat := if negative then 2 ^ 63 else 0

/-- The sixty-four bits that write a number. -/
def toBits : Binary64 → UInt64
  | nan => 0x7ff8000000000000
  | infinity negative => UInt64.ofNat (signBit negative + 2047 * 2 ^ 52)
  | finite negative units _ =>
    let shift := units.log2 - 52
    UInt64.ofNat (signBit negative + shift * 2 ^ 52 + units / 2 ^ shift)

/-- The number as the machine holds it. -/
def toFloat (x : Binary64) : Float := Float.ofBits x.toBits

/-- The number that the machine holds. -/
def ofFloat (x : Float) : Binary64 := ofBits x.toBits

end Binary64

end Calculator
