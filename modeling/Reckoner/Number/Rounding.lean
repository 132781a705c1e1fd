/-!
# Rounding a quotient

A quotient of naturals is rounded to the nearest natural, and a half goes to the even neighbour.

* `Number.roundDiv` -- the rounded quotient;
* `roundDiv_le`, `le_roundDiv` -- twice the error is at most the divisor, on either side.
-/

namespace Reckoner

namespace Number

/-- The natural nearest to `n / d`; a half goes to the even neighbour. -/
def roundDiv (n d : Nat) : Nat :=
  let q := n / d
  let r := n % d
  if 2 * r < d then q
  else if 2 * r = d && q % 2 = 0 then q
  else q + 1

/-- The rounded quotient is at most half a unit too large. -/
theorem roundDiv_le (n d : Nat) : 2 * (d * roundDiv n d) ≤ 2 * n + d := by
  have h := Nat.div_add_mod n d
  unfold roundDiv
  dsimp only
  split
  · omega
  · split
    · omega
    · rw [Nat.mul_add, Nat.mul_one]
      omega

/-- The rounded quotient is at most half a unit too small. -/
theorem le_roundDiv (n d : Nat) (hd : 0 < d) : 2 * n ≤ 2 * (d * roundDiv n d) + d := by
  have h := Nat.div_add_mod n d
  have hr := Nat.mod_lt n hd
  unfold roundDiv
  dsimp only
  split
  · omega
  · split
    · rename_i h2
      simp only [Bool.and_eq_true, decide_eq_true_eq] at h2
      omega
    · rw [Nat.mul_add, Nat.mul_one]
      omega

end Number

end Reckoner
