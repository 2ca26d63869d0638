import EcFlash.Gf2.ShiftRegister
import EcFlash.Original.Refinement
import EcFlash.Second.Agreement

/-!
# The checksum as a division

The bit loop of `crc8_calculator` is a shift register with the feedback `0x07`, so
the checksum is a remainder by `X ^ 8 + X ^ 2 + X + 1`, with the top bit flipped.
The register starts from the first byte of the buffer, which makes that byte count
twice, and no zero bits are appended.
-/

namespace EcFlash

open Gf2 Polynomial

/-- The feedback constant of the bit loop. -/
def crc8Feedback : Byte := 0x07#8

theorem generator_crc8Feedback : generator crc8Feedback = X ^ 8 + X ^ 2 + X + 1 := by
  have hpoly : toPoly crc8Feedback = X ^ 2 + X + 1 := by
    have hbits : bits crc8Feedback = [false, false, false, false, false, true, true, true] := by
      decide
    rw [toPoly, hbits]
    simp [ofBits]
    ring
  rw [generator, hpoly]
  ring

theorem crc8Bit_eq_shiftIn (crc val : Byte) :
    crc8Bit crc val = shiftIn crc8Feedback crc val.msb := by
  have hbit : val >>> 7 = (BitVec.ofBool val.msb).setWidth 8 := by
    revert val
    decide +kernel
  have hsign : crc.toInt < 0 ↔ crc.msb = true := by
    rw [BitVec.msb_eq_toInt, decide_eq_true_iff]
  unfold crc8Bit shiftIn
  simp only [hsign, hbit, crc8Feedback]

/-- The bit loop shifts in the bits of the byte from the top. -/
theorem crc8Bits_eq_shiftAll (n : Nat) (crc val : Byte) :
    crc8Bits n crc val = shiftAll crc8Feedback crc ((List.range n).map val.getMsbD) := by
  induction n generalizing crc val with
  | zero => rfl
  | succ n ih =>
      have hshift : (List.range n).map (val <<< 1).getMsbD =
          (List.range n).map (val.getMsbD ∘ Nat.succ) := by
        apply List.map_congr_left
        intro i _
        rw [BitVec.getMsbD_shiftLeft, Function.comp_apply]
      rw [crc8Bits, ih, crc8Bit_eq_shiftIn, hshift, BitVec.msb_eq_getMsbD_zero,
        List.range_succ_eq_map, List.map_cons, shiftAll_cons, List.map_map]

/-- The byte loop shifts in the bytes one after the other. -/
theorem foldl_crc8Bits (buf : List Byte) (crc : Byte) :
    buf.foldl (crc8Bits 8) crc = shiftAll crc8Feedback crc (stream buf) := by
  induction buf generalizing crc with
  | nil => rfl
  | cons b buf ih =>
      rw [List.foldl_cons, ih, stream_cons, shiftAll_append, crc8Bits_eq_shiftAll]
      rfl

theorem crc8Calculator_eq_shiftAll (buf : List Byte) (len : Nat) :
    crc8Calculator buf len =
      shiftAll crc8Feedback (buf.headD 0#8) (stream (buf.take len)) ^^^ 0x80#8 := by
  rw [crc8Calculator, foldl_crc8Bits]

/-- What a checksum function computes of the first `len` bytes of a buffer: the
remainder of the bytes as one polynomial plus the first byte in front of them, with
the top bit flipped; and so a function that is affine in the bytes. -/
structure DividesBy (g : (ZMod 2)[X]) (crc : List Byte → Nat → Byte) : Prop where
  remainder : ∀ buf len, len ≤ buf.length →
    toPoly (crc buf len ^^^ 0x80#8) =
      (toPoly (buf.headD 0#8) * X ^ (8 * len) + ofBits (stream (buf.take len))) %ₘ g
  affine : ∀ as bs len, as.length = bs.length → len ≤ as.length →
    crc (List.zipWith (· ^^^ ·) as bs) len = crc as len ^^^ crc bs len ^^^ 0x80#8

section Division

variable {as bs : List Byte} {len : Nat}

theorem headD_zipWith_xor (h : as.length = bs.length) :
    (List.zipWith (· ^^^ ·) as bs).headD 0#8 = as.headD 0#8 ^^^ bs.headD 0#8 := by
  cases as with
  | nil =>
      have hnil : bs = [] := List.eq_nil_of_length_eq_zero h.symm
      simp [hnil]
  | cons a as =>
      cases bs with
      | nil => simp at h
      | cons b bs => rfl

theorem toPoly_crc8Calculator {buf : List Byte} (h : len ≤ buf.length) :
    toPoly (crc8Calculator buf len ^^^ 0x80#8) =
      (toPoly (buf.headD 0#8) * X ^ (8 * len) + ofBits (stream (buf.take len))) %ₘ
        (X ^ 8 + X ^ 2 + X + 1) := by
  have hlen : (stream (buf.take len)).length = 8 * len := by
    rw [length_stream, List.length_take, Nat.min_eq_left h]
  rw [crc8Calculator_eq_shiftAll, BitVec.xor_assoc, BitVec.xor_self, BitVec.xor_zero,
    toPoly_shiftAll (by decide), hlen, generator_crc8Feedback]

theorem crc8Calculator_xor (h : as.length = bs.length) :
    crc8Calculator (List.zipWith (· ^^^ ·) as bs) len =
      crc8Calculator as len ^^^ crc8Calculator bs len ^^^ 0x80#8 := by
  have htake : (as.take len).length = (bs.take len).length := by
    simp [h]
  have hstream : (stream (as.take len)).length = (stream (bs.take len)).length := by
    rw [length_stream, length_stream, htake]
  simp only [crc8Calculator_eq_shiftAll]
  rw [headD_zipWith_xor h, List.take_zipWith, stream_zipWith_xor htake,
    shiftAll_xor (by decide) _ _ _ hstream]
  -- One of the three flips of the top bit is left.
  generalize shiftAll crc8Feedback (as.headD 0#8) _ = x
  generalize shiftAll crc8Feedback (bs.headD 0#8) _ = y
  have hflip : x ^^^ 0x80#8 ^^^ (y ^^^ 0x80#8) ^^^ 0x80#8 =
      x ^^^ y ^^^ (0x80#8 ^^^ 0x80#8 ^^^ 0x80#8) := by
    ac_rfl
  rw [hflip]
  rfl

theorem dividesBy_crc8Calculator :
    DividesBy (X ^ 8 + X ^ 2 + X + 1) crc8Calculator where
  remainder _ _ h := toPoly_crc8Calculator h
  affine _ _ _ h _ := crc8Calculator_xor h

/-- A version that agrees inside the buffer divides, too. -/
theorem DividesBy.congr {g : (ZMod 2)[X]} {crc crc' : List Byte → Nat → Byte}
    (h : DividesBy g crc) (heq : ∀ buf len, len ≤ buf.length → crc' buf len = crc buf len) :
    DividesBy g crc' where
  remainder buf len hlen := by
    rw [heq buf len hlen]
    exact h.remainder buf len hlen
  affine as bs len hlen hle := by
    have hzip : len ≤ (List.zipWith (· ^^^ ·) as bs).length := by
      simpa [hlen] using hle
    rw [heq _ _ hzip, heq as len hle, heq bs len (by omega)]
    exact h.affine as bs len hlen hle

/-- Both implementations and the original divide by the same polynomial. -/
theorem crc8_division :
    DividesBy (X ^ 8 + X ^ 2 + X + 1) crc8Calculator ∧
      DividesBy (X ^ 8 + X ^ 2 + X + 1) Second.crc8Calculator ∧
      DividesBy (X ^ 8 + X ^ 2 + X + 1) Original.crc8Calculator := by
  refine ⟨dividesBy_crc8Calculator, ?_, ?_⟩
  · exact dividesBy_crc8Calculator.congr fun buf len _ => Second.crc8Calculator_eq buf len
  · exact dividesBy_crc8Calculator.congr fun _ _ h => Original.crc8Calculator_eq h

end Division

end EcFlash
