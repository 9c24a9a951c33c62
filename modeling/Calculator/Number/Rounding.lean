/-!
# Rounding a quotient

`roundHalfEven num den` is the whole number nearest to `num / den`; where two are equally near,
it is the even one. Every rounding of the library, binary or decimal, is an instance of it.

* `roundHalfEven_le`, `le_roundHalfEven`: it lies between the quotient and its successor;
* `roundHalfEven_eq_div`: an exact quotient is kept.
-/

namespace Calculator

/-- The whole number nearest to `num / den`; a tie goes to the even one. -/
def roundHalfEven (num den : Nat) : Nat :=
  let below := num / den
  let left := num % den
  if 2 * left < den then below
  else if den < 2 * left then below + 1
  else below + below % 2

theorem roundHalfEven_le (num den : Nat) : roundHalfEven num den ≤ num / den + 1 := by
  unfold roundHalfEven
  dsimp only
  split
  · omega
  · split <;> omega

theorem le_roundHalfEven (num den : Nat) : num / den ≤ roundHalfEven num den := by
  unfold roundHalfEven
  dsimp only
  split
  · omega
  · split <;> omega

theorem roundHalfEven_eq_div {num den : Nat} (hden : 0 < den) (h : den ∣ num) :
    roundHalfEven num den = num / den := by
  simp [roundHalfEven, Nat.mod_eq_zero_of_dvd h, hden]

end Calculator
