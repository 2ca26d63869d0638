import Mathlib.Algebra.Group.Nat.Defs
import Mathlib.Logic.Function.Basic

/-!
# Bytes in memory

Memory as a function from addresses to bytes, with little-endian words and
NUL-terminated strings on top.  The lemmas say what a store leaves alone: a load reads
the value stored last if it reads the same bytes, and what was there before if it reads
none of them.
-/

namespace ByteMemory

/-- The byte at each address. -/
abbrev Memory := Nat → BitVec 8

/-- The word at `k`, least significant byte first. -/
def word (m : Memory) (k : Nat) : BitVec 32 :=
  BitVec.ofNat 32
    ((m k).toNat + 2 ^ 8 * (m (k + 1)).toNat + 2 ^ 16 * (m (k + 2)).toNat +
      2 ^ 24 * (m (k + 3)).toNat)

/-- Store a word at `k`. -/
def storeWord (m : Memory) (k : Nat) (w : BitVec 32) : Memory :=
  fun j => if k ≤ j ∧ j < k + 4 then (w >>> (8 * (j - k))).setWidth 8 else m j

/-- Store a string at `k`, with its NUL. -/
def storeString (m : Memory) (k : Nat) (bytes : List (BitVec 8)) : Memory :=
  fun j => if k ≤ j ∧ j ≤ k + bytes.length then bytes.getD (j - k) 0#8 else m j

section Access

variable {m m' : Memory} {k k' j : Nat} {w : BitVec 32} {bytes : List (BitVec 8)}

theorem toNat_word (m : Memory) (k : Nat) :
    (word m k).toNat = (m k).toNat + 2 ^ 8 * (m (k + 1)).toNat + 2 ^ 16 * (m (k + 2)).toNat +
      2 ^ 24 * (m (k + 3)).toNat := by
  have h0 := (m k).isLt
  have h1 := (m (k + 1)).isLt
  have h2 := (m (k + 2)).isLt
  have h3 := (m (k + 3)).isLt
  rw [word, BitVec.toNat_ofNat, Nat.mod_eq_of_lt]
  omega

/-- A word depends on its four bytes. -/
theorem word_congr (h : ∀ j, k ≤ j → j < k + 4 → m' j = m j) : word m' k = word m k := by
  unfold word
  rw [h k (by omega) (by omega), h (k + 1) (by omega) (by omega),
    h (k + 2) (by omega) (by omega), h (k + 3) (by omega) (by omega)]

theorem storeWord_of_not_mem (h : ¬ (k ≤ j ∧ j < k + 4)) : storeWord m k w j = m j :=
  if_neg h

theorem storeString_of_not_mem (h : ¬ (k ≤ j ∧ j ≤ k + bytes.length)) :
    storeString m k bytes j = m j :=
  if_neg h

/-- A stored word is read back. -/
theorem word_storeWord (m : Memory) (k : Nat) (w : BitVec 32) : word (storeWord m k w) k = w := by
  have hbyte (i : Nat) (hi : i < 4) :
      (storeWord m k w (k + i)).toNat = w.toNat / 2 ^ (8 * i) % 2 ^ 8 := by
    rw [storeWord, if_pos (by omega), show k + i - k = i by omega, BitVec.toNat_setWidth,
      BitVec.toNat_ushiftRight, Nat.shiftRight_eq_div_pow]
  have h0 := hbyte 0 (by omega)
  have h1 := hbyte 1 (by omega)
  have h2 := hbyte 2 (by omega)
  have h3 := hbyte 3 (by omega)
  have hw := w.isLt
  apply BitVec.eq_of_toNat_eq
  rw [toNat_word, h1, h2, h3]
  rw [Nat.add_zero] at h0
  rw [h0]
  omega

/-- A word apart from the stored one stays. -/
theorem word_storeWord_of_disjoint (h : k' + 4 ≤ k ∨ k + 4 ≤ k') :
    word (storeWord m k w) k' = word m k' :=
  word_congr fun _ _ _ => storeWord_of_not_mem (by omega)

theorem word_update_of_not_mem {b : BitVec 8} (h : ¬ (k ≤ j ∧ j < k + 4)) :
    word (Function.update m j b) k = word m k :=
  word_congr fun i _ _ => Function.update_of_ne (by omega) _ _

/-- A word behind the string stays. -/
theorem word_storeString (h : k + bytes.length < k') :
    word (storeString m k bytes) k' = word m k' :=
  word_congr fun _ _ _ => storeString_of_not_mem (by omega)

/-- The NUL behind the string falls on the low byte of a word. -/
theorem toNat_word_storeString_end (m : Memory) (k : Nat) (bytes : List (BitVec 8)) :
    (word (storeString m k bytes) (k + bytes.length)).toNat =
      (word m (k + bytes.length)).toNat / 2 ^ 8 * 2 ^ 8 := by
  have hnul : storeString m k bytes (k + bytes.length) = 0#8 := by
    rw [storeString, if_pos (by omega), show k + bytes.length - k = bytes.length by omega]
    simp
  have hrest (i : Nat) (hi : 0 < i) :
      storeString m k bytes (k + bytes.length + i) = m (k + bytes.length + i) :=
    storeString_of_not_mem (by omega)
  have hlow := (m (k + bytes.length)).isLt
  rw [toNat_word, toNat_word, hnul, hrest 1 (by omega), hrest 2 (by omega), hrest 3 (by omega)]
  simp only [BitVec.toNat_ofNat]
  omega

end Access

end ByteMemory
