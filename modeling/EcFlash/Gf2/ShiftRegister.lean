import Mathlib.Algebra.CharP.Two
import Mathlib.Algebra.Polynomial.Monic
import Mathlib.Algebra.Polynomial.RingDivision
import Mathlib.Tactic.LinearCombination
import EcFlash.Gf2.Polynomial

/-!
# Division by shift register

A register of `w` bits that shifts in one bit at a time, and is reduced by `p`
whenever a one falls out at the top, divides by `X ^ w + p`: behind any string of
bits it holds the remainder of its first contents, shifted by the length of the
string, plus the string.  The register is linear, and with an odd `p` it stays
empty behind no burst of at most `w` bits.
-/

namespace Gf2

open Polynomial

variable {w : Nat}

/-- The polynomial that a register with the feedback `p` divides by. -/
noncomputable def generator (p : BitVec w) : (ZMod 2)[X] :=
  X ^ w + toPoly p

theorem monic_generator (p : BitVec w) : (generator p).Monic :=
  monic_X_pow_add (degree_toPoly_lt p)

theorem degree_generator (p : BitVec w) : (generator p).degree = w := by
  unfold generator
  rw [degree_add_eq_left_of_degree_lt, degree_X_pow]
  rw [degree_X_pow]
  exact degree_toPoly_lt p

/-- Shift in one bit. -/
def shiftIn (p r : BitVec w) (b : Bool) : BitVec w :=
  if r.msb then ((BitVec.ofBool b).setWidth w ||| r <<< 1) ^^^ p
  else (BitVec.ofBool b).setWidth w ||| r <<< 1

/-- Shift in a string of bits. -/
def shiftAll (p r : BitVec w) (bs : List Bool) : BitVec w :=
  bs.foldl (shiftIn p) r

@[simp] theorem shiftAll_nil (p r : BitVec w) : shiftAll p r [] = r := rfl

@[simp] theorem shiftAll_cons (p r : BitVec w) (b : Bool) (bs : List Bool) :
    shiftAll p r (b :: bs) = shiftAll p (shiftIn p r b) bs := rfl

theorem shiftAll_append (p r : BitVec w) (as bs : List Bool) :
    shiftAll p r (as ++ bs) = shiftAll p (shiftAll p r as) bs := by
  simp [shiftAll]

/-- Without the reduction the top bit falls out. -/
theorem toPoly_shift (hw : 0 < w) (r : BitVec w) (b : Bool) :
    toPoly ((BitVec.ofBool b).setWidth w ||| r <<< 1) + C (coefficient r.msb) * X ^ w =
      toPoly r * X + C (coefficient b) := by
  ext n
  rw [coeff_add, coeff_add, coeff_C_mul, coeff_X_pow, coeff_toPoly]
  cases n with
  | zero =>
      have hne : ¬ 0 = w := by omega
      simp [hne, hw]
  | succ n =>
      rw [coeff_mul_X, coeff_toPoly, coeff_C_succ, add_zero, BitVec.getLsbD_or,
        BitVec.getLsbD_setWidth, BitVec.getLsbD_ofBool, BitVec.getLsbD_shiftLeft]
      rcases Nat.lt_trichotomy (n + 1) w with hlt | heq | hgt
      · simp [hlt, hlt.ne]
      -- The bit that falls out is counted twice.
      · have hmsb : r.msb = r.getLsbD n := by
          have hlast : w - 1 = n := by omega
          rw [BitVec.msb_eq_getLsbD_last, hlast]
        simp [heq, hmsb]
      · have hout : r.getLsbD n = false := BitVec.getLsbD_of_ge _ _ (by omega)
        simp [hout, hgt.ne', Nat.not_lt.mpr hgt.le]

/-- One step of the register is one step of the division. -/
theorem toPoly_shiftIn (hw : 0 < w) (p r : BitVec w) (b : Bool) :
    toPoly (shiftIn p r b) = (toPoly r * X + C (coefficient b)) %ₘ generator p := by
  refine (div_modByMonic_unique (C (coefficient r.msb)) _ (monic_generator p) ⟨?_, ?_⟩).2.symm
  · rw [← toPoly_shift hw r b]
    unfold shiftIn generator
    split
    · rename_i hmsb
      rw [toPoly_xor, hmsb, coefficient_true, C_1, mul_one, one_mul]
      have htwo : toPoly p + toPoly p = 0 := CharTwo.add_self_eq_zero _
      linear_combination htwo
    · rename_i hmsb
      simp only [Bool.not_eq_true] at hmsb
      simp [hmsb]
  · rw [degree_generator]
    exact degree_toPoly_lt _

/-- A remainder may be taken before shifting. -/
theorem modByMonic_mul_X_add {g : (ZMod 2)[X]} (hg : g.Monic) (f c : (ZMod 2)[X]) :
    (f %ₘ g * X + c) %ₘ g = (f * X + c) %ₘ g := by
  apply modByMonic_eq_of_dvd_sub hg
  refine ⟨-(f /ₘ g * X), ?_⟩
  have hdiv := modByMonic_add_div f g
  linear_combination X * hdiv

/-- Behind a string of bits the register holds the remainder. -/
theorem toPoly_shiftAll (hw : 0 < w) (p r : BitVec w) (bs : List Bool) :
    toPoly (shiftAll p r bs) =
      (toPoly r * X ^ bs.length + ofBits bs) %ₘ generator p := by
  induction bs using List.reverseRecOn with
  | nil =>
      have hlt : (toPoly r).degree < (generator p).degree := by
        rw [degree_generator]
        exact degree_toPoly_lt r
      simp [(modByMonic_eq_self_iff (monic_generator p)).mpr hlt]
  | append_singleton bs b ih =>
      rw [shiftAll_append, shiftAll_cons, shiftAll_nil, toPoly_shiftIn hw, ih,
        modByMonic_mul_X_add (monic_generator p), ofBits_concat, List.length_append,
        List.length_singleton]
      congr 1
      ring

/-- The register is linear in its first contents and the string together. -/
theorem shiftAll_xor (hw : 0 < w) (p r s : BitVec w) {as bs : List Bool}
    (h : as.length = bs.length) :
    shiftAll p (r ^^^ s) (List.zipWith xor as bs) = shiftAll p r as ^^^ shiftAll p s bs := by
  apply toPoly_injective
  rw [toPoly_xor, toPoly_shiftAll hw, toPoly_shiftAll hw, toPoly_shiftAll hw, ← add_modByMonic,
    toPoly_xor, ofBits_zipWith_xor h, List.length_zipWith, h, Nat.min_self]
  congr 1
  ring

section Bursts

variable {p : BitVec w}

/-- Zeros leave an empty register empty. -/
theorem shiftAll_zero_replicate (p : BitVec w) (n : Nat) :
    shiftAll p 0#w (List.replicate n false) = 0#w := by
  induction n with
  | zero => rfl
  | succ n ih =>
      have hstep : shiftIn p 0#w false = 0#w := by
        simp [shiftIn]
      rw [List.replicate_succ, shiftAll_cons, hstep, ih]

/-- With an odd feedback a zero empties no register that is not empty. -/
theorem shiftIn_false_eq_zero_iff (hp : p.getLsbD 0 = true) (r : BitVec w) :
    shiftIn p r false = 0#w ↔ r = 0#w := by
  constructor
  · intro h
    unfold shiftIn at h
    split at h
    · -- The lowest bit comes from the feedback.
      have hlow := congrArg (fun x => x.getLsbD 0) h
      simp [hp] at hlow
    · rename_i hmsb
      apply BitVec.eq_of_getLsbD_eq
      intro n hn
      by_cases hlast : n + 1 < w
      · have hbit := congrArg (fun x => x.getLsbD (n + 1)) h
        simpa [hlast, BitVec.getLsbD_eq_getElem hn] using hbit
      · have hn' : n = w - 1 := by omega
        rw [hn', ← BitVec.msb_eq_getLsbD_last]
        simpa using hmsb
  · rintro rfl
    simp [shiftIn]

/-- Zeros behind a string hide nothing. -/
theorem shiftAll_append_replicate_eq_zero_iff (hp : p.getLsbD 0 = true) (r : BitVec w)
    (bs : List Bool) (n : Nat) :
    shiftAll p r (bs ++ List.replicate n false) = 0#w ↔ shiftAll p r bs = 0#w := by
  induction n with
  | zero => simp
  | succ n ih =>
      rw [List.replicate_succ', ← List.append_assoc, shiftAll_append, shiftAll_cons, shiftAll_nil,
        shiftIn_false_eq_zero_iff hp, ih]

/-- A word is shifted into an empty register as it is. -/
theorem shiftAll_zero_bits (hw : 0 < w) (p x : BitVec w) : shiftAll p 0#w (bits x) = x := by
  have hdegree : (toPoly x).degree < (generator p).degree := by
    rw [degree_generator]
    exact degree_toPoly_lt x
  apply toPoly_injective
  rw [toPoly_shiftAll hw, toPoly_zero, zero_mul, zero_add]
  exact (modByMonic_eq_self_iff (monic_generator p)).mpr hdegree

/-- Only zeros that fit into an empty register leave it empty. -/
theorem shiftAll_zero_eq_zero_iff (hw : 0 < w) (p : BitVec w) {bs : List Bool}
    (h : bs.length ≤ w) :
    shiftAll p 0#w bs = 0#w ↔ bs = List.replicate bs.length false := by
  constructor
  · intro heq
    have hdegree : (ofBits bs).degree < (generator p).degree := by
      rw [degree_generator]
      exact (degree_ofBits_lt bs).trans_le (by exact_mod_cast h)
    have hpoly := congrArg toPoly heq
    rw [toPoly_shiftAll hw, toPoly_zero, zero_mul, zero_add,
      (modByMonic_eq_self_iff (monic_generator p)).mpr hdegree] at hpoly
    exact eq_replicate_of_ofBits_eq_zero hpoly
  · intro heq
    rw [heq]
    exact shiftAll_zero_replicate p _

/-- A burst of at most `w` bits leaves something in an empty register, wherever it
stands. -/
theorem shiftAll_burst_eq_zero_iff (hw : 0 < w) (hp : p.getLsbD 0 = true) (m n : Nat)
    {bs : List Bool} (h : bs.length ≤ w) :
    shiftAll p 0#w (List.replicate m false ++ bs ++ List.replicate n false) = 0#w ↔
      bs = List.replicate bs.length false := by
  rw [shiftAll_append_replicate_eq_zero_iff hp, shiftAll_append, shiftAll_zero_replicate,
    shiftAll_zero_eq_zero_iff hw p h]

end Bursts

end Gf2
