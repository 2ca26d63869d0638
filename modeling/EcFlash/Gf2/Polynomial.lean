import Mathlib.Algebra.Field.ZMod
import Mathlib.Algebra.Polynomial.Div
import Mathlib.Algebra.Polynomial.Inductions
import Mathlib.Data.List.GetD
import Mathlib.Data.List.Induction
import Mathlib.Data.ZMod.Basic

/-!
# Bit strings as polynomials over GF(2)

A list of bits stands for the polynomial whose coefficients it lists, the highest
power first, and a machine word for the polynomial of its bits.  Concatenation
shifts and adds, and exclusive or adds.
-/

namespace Gf2

open Polynomial

/-- The coefficient that a bit stands for. -/
def coefficient (b : Bool) : ZMod 2 :=
  if b then 1 else 0

@[simp] theorem coefficient_false : coefficient false = 0 := rfl

@[simp] theorem coefficient_true : coefficient true = 1 := rfl

theorem coefficient_xor (a b : Bool) :
    coefficient (a ^^ b) = coefficient a + coefficient b := by
  cases a <;> cases b <;> decide

theorem coefficient_injective {a b : Bool} (h : coefficient a = coefficient b) : a = b := by
  cases a <;> cases b <;> first | rfl | exact absurd h (by decide)

/-- The polynomial whose coefficients are the bits, the highest power first. -/
noncomputable def ofBits (bs : List Bool) : (ZMod 2)[X] :=
  bs.foldl (fun p b => p * X + C (coefficient b)) 0

@[simp] theorem ofBits_nil : ofBits [] = 0 := rfl

theorem ofBits_concat (bs : List Bool) (b : Bool) :
    ofBits (bs ++ [b]) = ofBits bs * X + C (coefficient b) := by
  simp [ofBits]

/-- The coefficients are read from the back. -/
theorem coeff_ofBits (bs : List Bool) (n : Nat) :
    (ofBits bs).coeff n = coefficient (bs.reverse.getD n false) := by
  induction bs using List.reverseRecOn generalizing n with
  | nil => simp
  | append_singleton bs b ih =>
      rw [ofBits_concat, List.reverse_append]
      cases n with
      | zero => simp
      | succ n => simpa [coeff_C] using ih n

theorem coeff_ofBits_of_ge {bs : List Bool} {n : Nat} (h : bs.length ≤ n) :
    (ofBits bs).coeff n = 0 := by
  rw [coeff_ofBits, List.getD_eq_default _ _ (by simpa using h), coefficient_false]

/-- A string of `n` bits has a degree below `n`. -/
theorem degree_ofBits_lt (bs : List Bool) : (ofBits bs).degree < bs.length := by
  rw [degree_lt_iff_coeff_zero]
  intro n hn
  exact coeff_ofBits_of_ge hn

/-- Only zeros stand for the zero polynomial. -/
theorem eq_replicate_of_ofBits_eq_zero {bs : List Bool} (h : ofBits bs = 0) :
    bs = List.replicate bs.length false := by
  rw [List.eq_replicate_iff]
  refine ⟨rfl, fun b hb => ?_⟩
  obtain ⟨n, hn, rfl⟩ := List.getElem_of_mem (List.mem_reverse.mpr hb)
  apply coefficient_injective
  rw [coefficient_false, ← List.getD_eq_getElem _ false hn, ← coeff_ofBits, h, coeff_zero]

/-- Bitwise exclusive or of strings of one length adds their polynomials. -/
theorem ofBits_zipWith_xor {as bs : List Bool} (h : as.length = bs.length) :
    ofBits (List.zipWith xor as bs) = ofBits as + ofBits bs := by
  induction as using List.reverseRecOn generalizing bs with
  | nil =>
      have hnil : bs = [] := List.eq_nil_of_length_eq_zero (by simpa using h.symm)
      simp [hnil]
  | append_singleton as a ih =>
      rcases List.eq_nil_or_concat bs with rfl | ⟨bs, b, rfl⟩
      · simp at h
      · rw [List.concat_eq_append] at h ⊢
        have hlen : as.length = bs.length := by simpa using h
        rw [List.zipWith_append hlen, List.zipWith_cons_cons, List.zipWith_nil_left,
          ofBits_concat, ofBits_concat, ofBits_concat, ih hlen, coefficient_xor, C_add]
        ring

/-- The bits of a word, the most significant one first. -/
def bits {w : Nat} (x : BitVec w) : List Bool :=
  (List.range w).map x.getMsbD

@[simp] theorem length_bits {w : Nat} (x : BitVec w) : (bits x).length = w := by
  simp [bits]

/-- The bits of the words of a list, the first word first. -/
def stream {w : Nat} (xs : List (BitVec w)) : List Bool :=
  xs.flatMap bits

/-- The polynomial of a word. -/
noncomputable def toPoly {w : Nat} (x : BitVec w) : (ZMod 2)[X] :=
  ofBits (bits x)

theorem getD_reverse_bits {w : Nat} (x : BitVec w) (n : Nat) :
    (bits x).reverse.getD n false = x.getLsbD n := by
  by_cases hn : n < w
  · rw [List.getD_eq_getElem _ _ (by simpa using hn), List.getElem_reverse]
    simp only [bits, List.getElem_map, List.getElem_range, List.length_map, List.length_range]
    rw [BitVec.getMsbD_eq_getLsbD]
    have hindex : w - 1 - (w - 1 - n) = n := by omega
    simp only [hindex, decide_eq_true (show w - 1 - n < w by omega), Bool.true_and]
  · rw [List.getD_eq_default _ _ (by simpa using hn), BitVec.getLsbD_of_ge _ _ (by omega)]

theorem bits_xor {w : Nat} (x y : BitVec w) :
    bits (x ^^^ y) = List.zipWith xor (bits x) (bits y) := by
  simp [bits, List.zipWith_map, List.zipWith_self]

section Stream

variable {w : Nat}

@[simp] theorem stream_nil : stream ([] : List (BitVec w)) = [] := rfl

@[simp] theorem stream_cons (x : BitVec w) (xs : List (BitVec w)) :
    stream (x :: xs) = bits x ++ stream xs := rfl

@[simp] theorem stream_append (xs ys : List (BitVec w)) :
    stream (xs ++ ys) = stream xs ++ stream ys := by
  simp [stream]

@[simp] theorem length_stream (xs : List (BitVec w)) : (stream xs).length = w * xs.length := by
  induction xs with
  | nil => rfl
  | cons x xs ih =>
      rw [stream_cons, List.length_append, ih, length_bits, List.length_cons]
      ring

theorem stream_zipWith_xor {xs ys : List (BitVec w)} (h : xs.length = ys.length) :
    stream (List.zipWith (· ^^^ ·) xs ys) = List.zipWith xor (stream xs) (stream ys) := by
  induction xs generalizing ys with
  | nil => rfl
  | cons x xs ih =>
      cases ys with
      | nil => simp at h
      | cons y ys =>
          have hlen : xs.length = ys.length := by simpa using h
          rw [List.zipWith_cons_cons, stream_cons, stream_cons, stream_cons, bits_xor, ih hlen,
            List.zipWith_append (by simp)]

end Stream

section Words

variable {w : Nat} (x y : BitVec w)

theorem coeff_toPoly (n : Nat) : (toPoly x).coeff n = coefficient (x.getLsbD n) := by
  rw [toPoly, coeff_ofBits, getD_reverse_bits]

theorem degree_toPoly_lt : (toPoly x).degree < w := by
  simpa [toPoly] using degree_ofBits_lt (bits x)

@[simp] theorem toPoly_zero : toPoly (0#w) = 0 := by
  ext n
  simp [coeff_toPoly]

theorem toPoly_xor : toPoly (x ^^^ y) = toPoly x + toPoly y := by
  ext n
  simp [coeff_toPoly, coefficient_xor]

theorem toPoly_injective {x y : BitVec w} (h : toPoly x = toPoly y) : x = y := by
  apply BitVec.eq_of_getLsbD_eq
  intro n _
  apply coefficient_injective
  rw [← coeff_toPoly, ← coeff_toPoly, h]

theorem bits_injective {x y : BitVec w} (h : bits x = bits y) : x = y :=
  toPoly_injective (congrArg ofBits h)

theorem stream_injective {xs ys : List (BitVec w)} (hlen : xs.length = ys.length)
    (h : stream xs = stream ys) : xs = ys := by
  induction xs generalizing ys with
  | nil => exact (List.eq_nil_of_length_eq_zero hlen.symm).symm
  | cons x xs ih =>
      cases ys with
      | nil => simp at hlen
      | cons y ys =>
          obtain ⟨hhead, htail⟩ := List.append_inj h (by simp)
          rw [bits_injective hhead, ih (by simpa using hlen) htail]

end Words

end Gf2
