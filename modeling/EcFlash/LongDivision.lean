import Mathlib.Algebra.Order.Ring.Nat
import Mathlib.Tactic.Linarith
import Mathlib.Tactic.Ring

/-!
# Division by shifting and subtracting

The divisor is taken away at one shift after the other, from the highest to none, and
each shift gives one bit of the quotient.
-/

namespace LongDivision

/-- One shift, on the rest of the dividend and the bits of the quotient so far. -/
def divideStep (d k : Nat) (s : Nat × Nat) : Nat × Nat :=
  if d * 2 ^ k ≤ s.1 then (s.1 - d * 2 ^ k, 2 * s.2 + 1) else (s.1, 2 * s.2)

/-- The shifts from `k` down to none. -/
def divide (d : Nat) : Nat → Nat × Nat → Nat × Nat
  | 0, s => divideStep d 0 s
  | k + 1, s => divide d k (divideStep d (k + 1) s)

/-- A step leaves the dividend as it is, of which the rest is below the shifted
divisor. -/
theorem divideStep_spec {d k : Nat} {s : Nat × Nat} (h : s.1 < d * 2 ^ (k + 1)) :
    (divideStep d k s).1 < d * 2 ^ k ∧
      (divideStep d k s).2 * (d * 2 ^ k) + (divideStep d k s).1 =
        s.2 * (d * 2 ^ (k + 1)) + s.1 := by
  have hdouble : d * 2 ^ (k + 1) = 2 * (d * 2 ^ k) := by ring
  unfold divideStep
  split
  · rename_i hle
    refine ⟨by rw [hdouble] at h; show s.1 - d * 2 ^ k < _; omega, ?_⟩
    show (2 * s.2 + 1) * (d * 2 ^ k) + (s.1 - d * 2 ^ k) = _
    rw [hdouble, Nat.add_mul, Nat.one_mul, Nat.mul_assoc, Nat.mul_left_comm]
    omega
  · rename_i hlt
    refine ⟨Nat.lt_of_not_le hlt, ?_⟩
    show 2 * s.2 * (d * 2 ^ k) + s.1 = _
    rw [hdouble, Nat.mul_assoc, Nat.mul_left_comm]

theorem divide_spec {d k : Nat} {s : Nat × Nat} (h : s.1 < d * 2 ^ (k + 1)) :
    (divide d k s).1 < d ∧
      (divide d k s).2 * d + (divide d k s).1 = s.2 * (d * 2 ^ (k + 1)) + s.1 := by
  induction k generalizing s with
  | zero =>
      have hstep := divideStep_spec h
      rwa [Nat.pow_zero, Nat.mul_one] at hstep
  | succ k ih =>
      obtain ⟨hlt, hkept⟩ := divideStep_spec h
      obtain ⟨hrest, hall⟩ := ih hlt
      exact ⟨hrest, hall.trans hkept⟩

/-- Behind the last shift the remainder and the quotient are left. -/
theorem divide_eq {d k : Nat} {s : Nat × Nat} (h : s.1 < d * 2 ^ (k + 1)) :
    divide d k s = (s.1 % d, s.2 * 2 ^ (k + 1) + s.1 / d) := by
  obtain ⟨hlt, hkept⟩ := divide_spec h
  have hpos : 0 < d := Nat.zero_lt_of_lt hlt
  have hsum : (divide d k s).1 + d * (divide d k s).2 = s.1 + s.2 * 2 ^ (k + 1) * d := by
    linarith
  obtain ⟨hquotient, hremainder⟩ := (Nat.div_mod_unique hpos).mpr ⟨hsum, hlt⟩
  rw [Nat.add_mul_div_right _ _ hpos] at hquotient
  rw [Nat.add_mul_mod_self_right] at hremainder
  exact Prod.ext hremainder.symm (hquotient.symm.trans (Nat.add_comm _ _))

end LongDivision
