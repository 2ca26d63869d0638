import Mathlib.Algebra.Group.Nat.Defs
import Mathlib.Data.List.Basic

/-!
# The C library as the flash tools use it

The tools are 32-bit ARM programs: `int`, `long` and `unsigned long` are all 32
bits wide, and a file that `fopen` opens is shorter than `2 ^ 31` bytes, so that
`ftell` can report its size.  A stream is the file and a position.  `fseek` to a
negative offset fails and leaves the position as it was; `fgetc` beyond the last
byte answers `EOF` and does not move.
-/

namespace EcFlash

/-- `uint8_t` -/
abbrev Byte := BitVec 8

/-- `uint32_t`, `unsigned long`, and the machine word of the original. -/
abbrev Word := BitVec 32

/-- The contents of a file. -/
structure Image where
  size : Nat
  byte : Fin size → Byte
  /-- `ftell` reports the size as a non-negative `long`. -/
  size_lt : size < 2 ^ 31

/-- The byte at `off`, if the file is that long. -/
def Image.byte? (img : Image) (off : Nat) : Option Byte :=
  if h : off < img.size then some (img.byte ⟨off, h⟩) else none

theorem Image.byte?_of_ge {img : Image} {off : Nat} (h : img.size ≤ off) :
    img.byte? off = none := by
  simp [Image.byte?, Nat.not_lt.mpr h]

/-- An open stream. -/
structure CFile where
  image : Image
  pos : Nat

/-- `EOF` -/
def eof : Word := -1#32

/-- What `fgetc` answers at offset `off`: the byte as an `int`, or `EOF`. -/
def Image.getc (img : Image) (off : Nat) : Word :=
  match img.byte? off with
  | some b => b.setWidth 32
  | none => eof

namespace CFile

/-- `fseek(fp, (long)off, SEEK_SET)` -/
def fseek (fp : CFile) (off : Word) : CFile :=
  if off.toInt < 0 then fp else { fp with pos := off.toNat }

/-- `fgetc(fp)` -/
def fgetc (fp : CFile) : Word × CFile :=
  match fp.image.byte? fp.pos with
  | some b => (b.setWidth 32, { fp with pos := fp.pos + 1 })
  | none => (eof, fp)

/-- `for (i = 0; i < n; ++i) buf[i] = store(fgetc(fp));` -/
def fill (store : Word → Byte) : Nat → CFile → List Byte × CFile
  | 0, fp => ([], fp)
  | n + 1, fp =>
      let (c, fp) := fp.fgetc
      let (buf, fp) := fill store n fp
      (store c :: buf, fp)

@[simp] theorem fseek_image (fp : CFile) (off : Word) :
    (fp.fseek off).image = fp.image := by
  unfold fseek
  split <;> rfl

theorem fseek_pos_of_lt {fp : CFile} {off : Word} (h : off.toNat < 2 ^ 31) :
    (fp.fseek off).pos = off.toNat := by
  have hnonneg : ¬ off.toInt < 0 := by
    rw [BitVec.toInt_eq_toNat_of_lt (by omega)]
    omega
  simp [fseek, hnonneg]

theorem fseek_of_ge {fp : CFile} {off : Word} (h : 2 ^ 31 ≤ off.toNat) :
    fp.fseek off = fp := by
  have hneg : off.toInt < 0 := by
    rw [BitVec.toInt_eq_toNat_cond]
    have := off.isLt
    split <;> omega
  simp [fseek, hneg]

theorem fgetc_fst (fp : CFile) : fp.fgetc.1 = fp.image.getc fp.pos := by
  unfold fgetc Image.getc
  cases fp.image.byte? fp.pos <;> rfl

@[simp] theorem fgetc_image (fp : CFile) : fp.fgetc.2.image = fp.image := by
  unfold fgetc
  cases fp.image.byte? fp.pos <;> rfl

/-- One read moves on unless the file has ended. -/
theorem fgetc_pos (fp : CFile) :
    fp.fgetc.2.pos = if fp.pos < fp.image.size then fp.pos + 1 else fp.pos := by
  unfold fgetc Image.byte?
  by_cases h : fp.pos < fp.image.size <;> simp [h]

@[simp] theorem fill_image (store : Word → Byte) (n : Nat) (fp : CFile) :
    (fill store n fp).2.image = fp.image := by
  induction n generalizing fp with
  | zero => rfl
  | succ n ih => simp [fill, ih]

/-- The position after a block: past what was read, and never back from the end. -/
theorem fill_pos_ge (store : Word → Byte) (n : Nat) (fp : CFile) :
    min (fp.pos + n) fp.image.size ≤ (fill store n fp).2.pos := by
  induction n generalizing fp with
  | zero => exact Nat.min_le_left _ _
  | succ n ih =>
      have hnext := ih fp.fgetc.2
      rw [fgetc_image, fgetc_pos] at hnext
      simp only [fill]
      split at hnext <;> omega

end CFile

/-- The `n` bytes of the file from `off` on, as `store` keeps them. -/
def Image.block (img : Image) (store : Word → Byte) (n off : Nat) : List Byte :=
  (List.range n).map fun i => store (img.getc (off + i))

@[simp] theorem Image.length_block (img : Image) (store : Word → Byte) (n off : Nat) :
    (img.block store n off).length = n := by
  simp [Image.block]

theorem Image.getc_of_ge {img : Image} {off : Nat} (h : img.size ≤ off) :
    img.getc off = eof := by
  simp [Image.getc, Image.byte?_of_ge h]

/-- A block inside the file consists of the bytes of the file. -/
theorem Image.map_some_block {img : Image} {store : Word → Byte}
    (hstore : ∀ b : Byte, store (b.setWidth 32) = b) {n off : Nat} (h : off + n ≤ img.size) :
    (img.block store n off).map some = (List.range n).map fun i => img.byte? (off + i) := by
  unfold Image.block
  rw [List.map_map]
  apply List.map_congr_left
  intro i hi
  have hlt : off + i < img.size := by
    have := List.mem_range.mp hi
    omega
  simp [Image.getc, Image.byte?, hlt, hstore]

/-- Reading a block character by character keeps the bytes from the position on. -/
theorem CFile.fill_fst (store : Word → Byte) (n : Nat) (fp : CFile) :
    (fill store n fp).1 = fp.image.block store n fp.pos := by
  induction n generalizing fp with
  | zero => simp [fill, Image.block]
  | succ n ih =>
      have htail : fp.image.block store n fp.fgetc.2.pos =
          (List.range n).map fun i => store (fp.image.getc (fp.pos + (i + 1))) := by
        unfold Image.block
        apply List.map_congr_left
        intro i _
        rw [fgetc_pos]
        split
        · congr 2
          omega
        · rename_i hend
          rw [Image.getc_of_ge (by omega), Image.getc_of_ge (by omega)]
      have hhead : fp.image.block store (n + 1) fp.pos =
          store (fp.image.getc fp.pos) ::
            (List.range n).map fun i => store (fp.image.getc (fp.pos + (i + 1))) := by
        simp [Image.block, List.range_succ_eq_map, Function.comp_def]
      rw [hhead, ← htail]
      simp [fill, ih, fgetc_fst]

-- From here on blocks are read through the lemmas above only; unfolding the
-- read loop during unification is expensive.
attribute [irreducible] CFile.fill

/-- A block that starts at or beyond the end of the file is filler throughout. -/
theorem Image.block_of_ge {img : Image} {store : Word → Byte} {n off off' : Nat}
    (h : img.size ≤ off) (h' : img.size ≤ off') :
    img.block store n off = img.block store n off' := by
  unfold Image.block
  apply List.map_congr_left
  intro i _
  rw [Image.getc_of_ge (by omega), Image.getc_of_ge (by omega)]

end EcFlash
