import Mathlib.Dynamics.PeriodicPts.Lemmas
import Mathlib.Tactic.NormNum.Prime
import EcFlash.Checksum.Burst
import EcFlash.Gf2.ErrorPatterns

/-!
# Scattered errors

Errors that are no bursts.  The generator has the root `1`, and the first byte enters
twice, so the checksums of two buffers differ in as many bits as the buffers do behind
their first byte, up to an even number.  The register has the period 127 on zeros, so
two single errors are missed when they lie a multiple of 127 bits apart, and a block
of 32 bytes is long enough for that.
-/

namespace EcFlash

open Gf2 Polynomial

/-- The number of places in which two strings differ. -/
def differences (as bs : List Bool) : Nat :=
  (List.zipWith xor as bs).count true

section Parity

variable {as bs : List Byte}

theorem eval_one_generator_crc8Feedback : (generator crc8Feedback).eval 1 = 0 := by
  rw [generator_crc8Feedback]
  simp only [eval_add, eval_pow, eval_X, one_pow, eval_one]
  decide

/-- The register has the parity of the bits behind the first byte. -/
theorem eval_one_register (d : List Byte) :
    (toPoly (shiftAll crc8Feedback (d.headD 0#8) (stream d))).eval 1 =
      ((stream d.tail).count true : ZMod 2) := by
  rw [eval_one_shiftAll (by decide) eval_one_generator_crc8Feedback]
  cases d with
  | nil => simp
  | cons x d =>
      -- The first byte counts twice.
      have htwice : (toPoly x).eval 1 + (toPoly x).eval 1 = 0 := CharTwo.add_self_eq_zero _
      have hhead : (toPoly x).eval 1 = ((bits x).count true : ZMod 2) := eval_one_ofBits (bits x)
      rw [List.headD_cons, List.tail_cons, stream_cons, eval_one_ofBits, List.count_append,
        Nat.cast_add, ← hhead, ← add_assoc, htwice, zero_add]

/-- The checksums differ by what the difference of the buffers leaves in the register. -/
theorem xor_crc8Calculator (hlen : as.length = bs.length) :
    crc8Calculator as as.length ^^^ crc8Calculator bs bs.length =
      shiftAll crc8Feedback ((List.zipWith (· ^^^ ·) as bs).headD 0#8)
        (stream (List.zipWith (· ^^^ ·) as bs)) := by
  have hstream : (stream as).length = (stream bs).length := by simp [hlen]
  rw [headD_zipWith_xor hlen, stream_zipWith_xor hlen, shiftAll_xor (by decide) _ _ _ hstream,
    crc8Calculator_eq_shiftAll, crc8Calculator_eq_shiftAll, List.take_length, List.take_length]
  -- The two flips of the top bit cancel.
  generalize shiftAll crc8Feedback (as.headD 0#8) _ = x
  generalize shiftAll crc8Feedback (bs.headD 0#8) _ = y
  have hflip : x ^^^ 0x80#8 ^^^ (y ^^^ 0x80#8) = x ^^^ y ^^^ (0x80#8 ^^^ 0x80#8) := by
    ac_rfl
  rw [hflip, BitVec.xor_self, BitVec.xor_zero]

/-- The parity of the differences behind the first byte is the parity of the differences
of the checksums; so an odd number of errors behind the first byte is always caught.  The
code has a byte for the length, so its buffers end at 255 bytes. -/
theorem crc8_parity (hlen : as.length = bs.length) :
    differences (bits (crc8Calculator as as.length)) (bits (crc8Calculator bs bs.length)) % 2 =
      differences (stream as.tail) (stream bs.tail) % 2 := by
  have htails : as.tail.length = bs.tail.length := by simp [hlen]
  have hregister := eval_one_register (List.zipWith (· ^^^ ·) as bs)
  rw [← xor_crc8Calculator hlen, List.tail_zipWith, stream_zipWith_xor htails] at hregister
  have hchecksums : (toPoly (crc8Calculator as as.length ^^^ crc8Calculator bs bs.length)).eval 1 =
      (differences (bits (crc8Calculator as as.length)) (bits (crc8Calculator bs bs.length)) :
        ZMod 2) := by
    rw [differences, ← bits_xor]
    exact eval_one_ofBits _
  rw [hchecksums] at hregister
  exact (ZMod.natCast_eq_natCast_iff' _ _ 2).mp hregister

end Parity

section Pairs

variable {as bs : List Byte} {i j : Nat}

theorem minimalPeriod_crc8Feedback :
    Function.minimalPeriod (shiftZero crc8Feedback) (shiftIn crc8Feedback 0#8 true) = 127 := by
  have hprime : Fact (Nat.Prime 127) := ⟨by norm_num⟩
  apply Function.minimalPeriod_eq_prime
  · show (shiftZero crc8Feedback)^[127] _ = _
    decide +kernel
  · show ¬ shiftZero crc8Feedback _ = _
    decide +kernel

/-- A string with two set bits. -/
theorem eq_two_bits {bs : List Bool} (hij : i < j) (hj : j < bs.length)
    (h : ∀ n, bs.getD n false = true ↔ n = i ∨ n = j) :
    bs = List.replicate i false ++ (true :: List.replicate (j - i - 1) false ++ [true]) ++
      List.replicate (bs.length - (j + 1)) false := by
  apply List.ext_getElem
  · simp
    omega
  intro n hn hn'
  have hbit : bs[n] = decide (n = i ∨ n = j) := by
    rw [← List.getD_eq_getElem _ false hn, Bool.eq_iff_iff, h, decide_eq_true_iff]
  rw [hbit]
  grind

/-- Behind the first byte two errors are missed at the multiples of the period. -/
theorem shiftAll_pair_of_ge {d : List Byte} (hi : 8 ≤ i) (hij : i < j)
    (hj : j < (stream d).length) (h : ∀ n, (stream d).getD n false = true ↔ n = i ∨ n = j) :
    shiftAll crc8Feedback (d.headD 0#8) (stream d) = 0#8 ↔ 127 ∣ j - i := by
  have hstream := eq_two_bits hij hj h
  have hhead : d.headD 0#8 = 0#8 := by
    cases d with
    | nil => rfl
    | cons x d =>
        have htake := congrArg (List.take 8) hstream
        rw [stream_cons, List.take_left' (length_bits x), List.append_assoc,
          List.take_append_of_le_length (by simpa using hi), List.take_replicate,
          Nat.min_eq_left hi] at htake
        exact bits_injective htake
  rw [hhead, hstream, shiftAll_two_bits_eq_zero_iff (by decide) (by decide) _ _ (by omega),
    minimalPeriod_crc8Feedback]

/-- One error in the first byte and one behind it leave an odd number of bits. -/
theorem shiftAll_pair_of_lt_of_ge {x : Byte} {d : List Byte} (hi : i < 8) (hj : 8 ≤ j)
    (hend : j < (stream (x :: d)).length)
    (h : ∀ n, (stream (x :: d)).getD n false = true ↔ n = i ∨ n = j) :
    shiftAll crc8Feedback x (stream (x :: d)) ≠ 0#8 := by
  have hone : ∀ x : Byte, ∀ i < 8, (∀ n < 8, (bits x).getD n false = true ↔ n = i) →
      (bits x).count true = 1 := by
    decide +kernel
  have hfirst : (bits x).count true = 1 := by
    refine hone x i hi fun n hn => ?_
    have hbit := h n
    rw [stream_cons, List.getD_append _ _ _ _ (by simpa using hn)] at hbit
    rw [hbit]
    omega
  have hboth : (stream (x :: d)).count true = 2 := by
    rw [eq_two_bits (by omega) hend h]
    simp [List.count_replicate]
  have hrest : (stream d).count true = 1 := by
    rw [stream_cons, List.count_append] at hboth
    omega
  intro hzero
  have hregister := eval_one_register (x :: d)
  rw [List.headD_cons, hzero, List.tail_cons, hrest] at hregister
  simp at hregister

/-- Two errors in the first byte are not missed. -/
theorem shiftAll_pair_of_lt {x : Byte} {d : List Byte} (hij : i < j) (hj : j < 8)
    (h : ∀ n, (stream (x :: d)).getD n false = true ↔ n = i ∨ n = j) :
    shiftAll crc8Feedback x (stream (x :: d)) ≠ 0#8 := by
  have htwo : ∀ x : Byte, (bits x).count true = 2 → shiftAll crc8Feedback x (bits x) ≠ 0#8 := by
    decide +kernel
  have hend : 8 ≤ (stream (x :: d)).length := by
    rw [length_stream, List.length_cons]
    omega
  obtain ⟨-, hzeros⟩ := zeros_outside (k := 0) (n := 8) (by omega) fun n hn => by
    have hcases := (h n).mp hn
    omega
  rw [stream_cons, Nat.zero_add, List.drop_left' (length_bits x)] at hzeros
  have hcount : (bits x).count true = 2 := by
    have hboth : (stream (x :: d)).count true = 2 := by
      rw [eq_two_bits hij (by omega) h]
      simp [List.count_replicate]
    rw [stream_cons, hzeros] at hboth
    simpa [List.count_replicate] using hboth
  rw [stream_cons, hzeros, Ne, shiftAll_append_replicate_eq_zero_iff (by decide)]
  exact htwo x hcount

/-- Two single errors are missed exactly behind the first byte and a multiple of 127
bits apart; in the code, in a buffer of up to 255 bytes. -/
theorem crc8_two_bits (hlen : as.length = bs.length) (hij : i < j) (hj : j < 8 * as.length)
    (hdiff : ∀ n < 8 * as.length, bitAt as n ≠ bitAt bs n ↔ n = i ∨ n = j) :
    crc8Calculator as as.length = crc8Calculator bs bs.length ↔ 8 ≤ i ∧ 127 ∣ j - i := by
  have hlength : (List.zipWith (· ^^^ ·) as bs).length = as.length := by simp [hlen]
  have hset (n : Nat) : (stream (List.zipWith (· ^^^ ·) as bs)).getD n false = true ↔
      n = i ∨ n = j := by
    have hxor := bitAt_xor hlen n
    rw [bitAt] at hxor
    by_cases hn : n < 8 * as.length
    · rw [hxor, ← hdiff n hn]
      simp
    · rw [List.getD_eq_default _ _ (by rw [length_stream, hlength]; omega)]
      simp only [Bool.false_eq_true, false_iff]
      omega
  rw [crc8Calculator_eq_iff hlen]
  generalize List.zipWith (· ^^^ ·) as bs = d at *
  have hend : j < (stream d).length := by rw [length_stream, hlength]; exact hj
  by_cases hi : 8 ≤ i
  · rw [shiftAll_pair_of_ge hi hij hend hset]
    exact (and_iff_right hi).symm
  · refine iff_of_false ?_ fun h => hi h.1
    cases d with
    | nil => simp at hend
    | cons x d =>
        rcases Nat.lt_or_ge j 8 with hj8 | hj8
        · exact shiftAll_pair_of_lt hij hj8 hset
        · exact shiftAll_pair_of_lt_of_ge (Nat.lt_of_not_le hi) hj8 hend hset

end Pairs

/-- A block of zeros, and two blocks with some bits set. -/
def noError : List Byte :=
  List.replicate 32 0#8

def singleError : List Byte :=
  List.replicate 5 0#8 ++ [0x10#8] ++ List.replicate 26 0#8

def missedPair : List Byte :=
  [0x00#8, 0x80#8] ++ List.replicate 14 0#8 ++ [0x01#8] ++ List.replicate 15 0#8

theorem crc8_parity_single :
    differences (bits (crc8Calculator singleError singleError.length))
        (bits (crc8Calculator noError noError.length)) % 2 =
      differences (stream singleError.tail) (stream noError.tail) % 2 := by
  have hlen : singleError.length = noError.length := by rfl
  exact crc8_parity hlen

/-- The first bit of the second byte, and the one 127 bits behind it. -/
theorem crc8_two_bits_missed :
    crc8Calculator missedPair missedPair.length = crc8Calculator noError noError.length ↔
      8 ≤ 8 ∧ 127 ∣ 135 - 8 := by
  refine crc8_two_bits ?_ ?_ ?_ ?_
  · rfl
  · decide
  · decide
  · decide +kernel

end EcFlash
