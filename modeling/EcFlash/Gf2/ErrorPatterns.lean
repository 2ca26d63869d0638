import Mathlib.Dynamics.PeriodicPts.Defs
import EcFlash.Gf2.ShiftRegister

/-!
# What a shift register misses

Two kinds of strings behind which a register may be empty again.  A generator with the
root `1` keeps the parity of what is shifted in, so an odd number of set bits is never
missed.  Two set bits are missed exactly when their distance is a multiple of the
period of the register on zeros.
-/

namespace Gf2

open Polynomial

variable {w : Nat}

/-! ## Parity -/

/-- At `1` a string has the parity of its set bits. -/
theorem eval_one_ofBits (bs : List Bool) : (ofBits bs).eval 1 = (bs.count true : ZMod 2) := by
  induction bs using List.reverseRecOn with
  | nil => simp
  | append_singleton bs b ih =>
      rw [ofBits_concat, eval_add, eval_mul, eval_X, eval_C, mul_one, ih, List.count_append,
        Nat.cast_add]
      cases b <;> simp

/-- A register whose generator vanishes at `1` keeps the parity. -/
theorem eval_one_shiftAll (hw : 0 < w) {p : BitVec w} (hp : (generator p).eval 1 = 0)
    (r : BitVec w) (bs : List Bool) :
    (toPoly (shiftAll p r bs)).eval 1 = (toPoly r).eval 1 + (ofBits bs).eval 1 := by
  have hroot : (generator p).eval₂ (RingHom.id (ZMod 2)) 1 = 0 := hp
  rw [toPoly_shiftAll hw]
  refine (eval₂_modByMonic_eq_self_of_root hroot).trans ?_
  show ((toPoly r * X ^ bs.length + ofBits bs).eval 1) = _
  simp

/-! ## Two set bits -/

/-- Shifting in a zero. -/
def shiftZero (p r : BitVec w) : BitVec w :=
  shiftIn p r false

theorem shiftAll_replicate_false (p r : BitVec w) (n : Nat) :
    shiftAll p r (List.replicate n false) = (shiftZero p)^[n] r := by
  induction n generalizing r with
  | zero => rfl
  | succ n ih =>
      rw [List.replicate_succ, shiftAll_cons, ih, Function.iterate_succ_apply]
      rfl

/-- Shifting in a one flips the lowest bit. -/
theorem shiftIn_true (hw : 0 < w) (p r : BitVec w) :
    shiftIn p r true = shiftZero p r ^^^ shiftIn p 0#w true := by
  have hlinear : shiftAll p (r ^^^ 0#w) (List.zipWith xor [false] [true]) =
      shiftAll p r [false] ^^^ shiftAll p 0#w [true] := shiftAll_xor hw p r 0#w rfl
  simpa [shiftZero] using hlinear

/-- Behind two set bits `n` apart the register is empty exactly when `n` zeros take it
from the first one back to it. -/
theorem shiftAll_pair_eq_zero_iff (hw : 0 < w) (p : BitVec w) {n : Nat} (hn : 0 < n) :
    shiftAll p 0#w (true :: List.replicate (n - 1) false ++ [true]) = 0#w ↔
      Function.IsPeriodicPt (shiftZero p) n (shiftIn p 0#w true) := by
  obtain ⟨k, rfl⟩ : ∃ k, n = k + 1 := ⟨n - 1, by omega⟩
  have hfront : shiftAll p 0#w (true :: List.replicate k false) =
      (shiftZero p)^[k] (shiftIn p 0#w true) := by
    rw [shiftAll_cons, shiftAll_replicate_false]
  rw [Nat.add_sub_cancel, shiftAll_append, hfront, shiftAll_cons, shiftAll_nil, shiftIn_true hw,
    BitVec.xor_eq_zero_iff, ← Function.iterate_succ_apply' (shiftZero p)]
  rfl

/-- Two set bits are missed exactly at the multiples of the period. -/
theorem shiftAll_two_bits_eq_zero_iff (hw : 0 < w) {p : BitVec w} (hp : p.getLsbD 0 = true)
    (m k : Nat) {n : Nat} (hn : 0 < n) :
    shiftAll p 0#w (List.replicate m false ++ (true :: List.replicate (n - 1) false ++ [true]) ++
        List.replicate k false) = 0#w ↔
      Function.minimalPeriod (shiftZero p) (shiftIn p 0#w true) ∣ n := by
  rw [shiftAll_append_replicate_eq_zero_iff hp, shiftAll_append, shiftAll_zero_replicate,
    shiftAll_pair_eq_zero_iff hw p hn, Function.isPeriodicPt_iff_minimalPeriod_dvd]

end Gf2
