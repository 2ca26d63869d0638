import EcFlash.CStdio

/-!
# The block checksum

`crc8_calculator` shifts the bits of a buffer, most significant bit first, into
an eight-bit remainder and reduces by `0x07` whenever the sign bit of the
remainder was set.  The remainder starts from the first byte, which is then
shifted in once more, and no zero bits are appended.
-/

namespace EcFlash

/-- The body of the bit loop: the remainder and the byte being shifted in. -/
def crc8Bit (crc val : Byte) : Byte :=
  if crc.toInt < 0 then ((val >>> 7) ||| (crc <<< 1)) ^^^ 0x07#8
  else (val >>> 7) ||| (crc <<< 1)

/-- `for (bit = 0; bit < 8; ++bit)`, with `n` rounds left. -/
def crc8Bits : Nat → Byte → Byte → Byte
  | 0, crc, _ => crc
  | n + 1, crc, val => crc8Bits n (crc8Bit crc val) (val <<< 1)

/-- `crc8_calculator(buf, len)` -/
def crc8Calculator (buf : List Byte) (len : Nat) : Byte :=
  (buf.take len).foldl (crc8Bits 8) (buf.headD 0#8) ^^^ 0x80#8

end EcFlash
