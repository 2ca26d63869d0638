import EcFlash.LongDivision
import EcFlash.Original.Main

/-!
# The division of the original

The ARM has no instruction for it, so the percentage goes through `<__udivsi3>`, `9590`
to `9778`: a table of 32 shifts, compares and subtracts that is entered at the shift
where the leading bits of the two words meet, and short ways for small quotients and
for powers of two.
-/

namespace EcFlash
namespace Original

open LongDivision (divide divideStep)

/-- Three instructions of the table, on `r0` and `r2`: the carry of `cmp r0, r1, lsl k`
goes into the quotient, and `subcs` takes the shifted divisor away. -/
def tableStep (r1 : Word) (k : Nat) (r : Word × Word) : Word × Word :=
  if r1 <<< k ≤ r.1 then (r.1 - r1 <<< k, r.2 + r.2 + 1#32) else (r.1, r.2 + r.2)

/-- `95cc` to `9748`, from the shift `k` on. -/
def table (r1 : Word) : Nat → Word × Word → Word × Word
  | 0, r => tableStep r1 0 r
  | k + 1, r => table r1 k (tableStep r1 (k + 1) r)

/-- `95ac` to `9750`; `r3` is the number of shifts that are left out. -/
def block95ac (r0 r1 : Word) : Word :=
  let r3 := 31#32 - (r1.clz - r0.clz)
  (table r1 (31 - r3.toNat) (r0, 0#32)).2

/-- `<__udivsi3>`; without a divisor `<__aeabi_idiv0>` raises `SIGFPE`. -/
def udivsi3 (r0 r1 : Word) : Option Word :=
  if r1 = 1#32 then some r0
  else if r1 = 0#32 then none
  else if r0 ≤ r1 then some (if r0 = r1 then 1#32 else 0#32)
  else if r1 &&& (r1 - 1#32) = 0#32 then some (r0 >>> (31#32 - r1.clz))
  else some (block95ac r0 r1)

/-- `<__aeabi_uidivmod>`, with the remainder in `r1`. -/
def uidivmod (r0 r1 : Word) : Option (Word × Word) :=
  if r1 = 0#32 then none
  else (udivsi3 r0 r1).map fun q => (q, r0 - r1 * q)

section Table

variable {r0 r1 : Word} {k : Nat} {r : Word × Word} {q : Nat}

/-- On words a step of the table is a step of the division, up to the width of the
quotient. -/
theorem toNat_tableStep (hfits : r1.toNat * 2 ^ k < 2 ^ 32) (hq : r.2.toNat = q % 2 ^ 32) :
    (tableStep r1 k r).1.toNat = (divideStep r1.toNat k (r.1.toNat, q)).1 ∧
      (tableStep r1 k r).2.toNat = (divideStep r1.toNat k (r.1.toNat, q)).2 % 2 ^ 32 := by
  have hshift : (r1 <<< k).toNat = r1.toNat * 2 ^ k := by
    rw [BitVec.toNat_shiftLeft, Nat.shiftLeft_eq, Nat.mod_eq_of_lt hfits]
  have hle : r1 <<< k ≤ r.1 ↔ r1.toNat * 2 ^ k ≤ r.1.toNat := by
    rw [BitVec.le_def, hshift]
  unfold tableStep divideStep
  by_cases h : r1.toNat * 2 ^ k ≤ r.1.toNat
  · rw [if_pos (hle.mpr h), if_pos h]
    refine ⟨?_, ?_⟩
    · rw [BitVec.toNat_sub_of_le (hle.mpr h), hshift]
    · rw [BitVec.toNat_add, BitVec.toNat_add, hq, BitVec.toNat_ofNat]
      omega
  · rw [if_neg (mt hle.mp h), if_neg h]
    refine ⟨rfl, ?_⟩
    rw [BitVec.toNat_add, hq]
    omega

theorem toNat_table (hfits : r1.toNat * 2 ^ k < 2 ^ 32) (hq : r.2.toNat = q % 2 ^ 32) :
    (table r1 k r).2.toNat = (divide r1.toNat k (r.1.toNat, q)).2 % 2 ^ 32 := by
  induction k generalizing r q with
  | zero => exact (toNat_tableStep hfits hq).2
  | succ k ih =>
      obtain ⟨hrest, hbits⟩ := toNat_tableStep hfits hq
      have hless : r1.toNat * 2 ^ k < 2 ^ 32 :=
        Nat.lt_of_le_of_lt
          (Nat.mul_le_mul_left _ (Nat.pow_le_pow_right (by omega) (by omega))) hfits
      rw [table, divide, ih hless hbits, hrest]

end Table

section Quotient

variable {r0 r1 : Word}

/-- The leading zeros say between which powers of two a word lies. -/
theorem clz_spec {x : Word} (hx : x ≠ 0#32) :
    x.clz.toNat ≤ 31 ∧ 2 ^ (31 - x.clz.toNat) ≤ x.toNat ∧
      x.toNat < 2 ^ (31 - x.clz.toNat) * 2 := by
  have hlow : 2 ^ (31 - x.clz.toNat) ≤ x.toNat :=
    BitVec.two_pow_sub_clz_le_toNat_of_ne_zero (by omega) hx
  have hhigh : x.toNat < 2 ^ (32 - x.clz.toNat) := BitVec.toNat_lt_two_pow_sub_clz
  have hle : x.clz.toNat ≤ 31 := by
    by_contra hgt
    rw [show 32 - x.clz.toNat = 0 by omega, Nat.pow_zero] at hhigh
    have hpos : 0 < x.toNat := Nat.lt_of_lt_of_le (Nat.two_pow_pos _) hlow
    omega
  refine ⟨hle, hlow, ?_⟩
  rwa [← Nat.pow_succ, show (31 - x.clz.toNat).succ = 32 - x.clz.toNat by omega]

/-- The table is entered at the first shift that can matter. -/
theorem block95ac_eq (hzero : r1 ≠ 0#32) (hlt : r1 < r0) : block95ac r0 r1 = r0 / r1 := by
  have hpos : r0 ≠ 0#32 := by
    rintro rfl
    exact absurd hlt BitVec.not_lt_zero
  obtain ⟨ha, hlow0, hhigh0⟩ := clz_spec hpos
  obtain ⟨hb, hlow1, hhigh1⟩ := clz_spec hzero
  have hlt : r1.toNat < r0.toNat := hlt
  have hle : r0.clz.toNat ≤ r1.clz.toNat := by
    by_contra hgt
    have hpow : 2 ^ (31 - r0.clz.toNat) * 2 ≤ 2 ^ (31 - r1.clz.toNat) := by
      rw [← Nat.pow_succ]
      exact Nat.pow_le_pow_right (by omega) (by omega)
    omega
  have hskipped : (r1.clz - r0.clz).toNat = r1.clz.toNat - r0.clz.toNat :=
    BitVec.toNat_sub_of_le hle
  obtain ⟨k, hk⟩ : ∃ k, r1.clz.toNat = r0.clz.toNat + k := ⟨_, (Nat.add_sub_of_le hle).symm⟩
  have hentry : 31 - (31#32 - (r1.clz - r0.clz)).toNat = k := by
    rw [BitVec.toNat_sub, hskipped]
    simp only [BitVec.toNat_ofNat]
    omega
  have hscale : 2 ^ (31 - r1.clz.toNat) * 2 ^ k = 2 ^ (31 - r0.clz.toNat) := by
    rw [← Nat.pow_add]
    congr 1
    omega
  -- The shifted divisor has the leading bit of the dividend.
  have hfits : r1.toNat * 2 ^ k < 2 ^ 32 := by
    have hmul := Nat.mul_lt_mul_of_pos_right hhigh1 (Nat.two_pow_pos k)
    have htop : 2 ^ (31 - r0.clz.toNat) ≤ 2 ^ 31 := Nat.pow_le_pow_right (by omega) (by omega)
    rw [Nat.mul_right_comm, hscale] at hmul
    omega
  have hbelow : r0.toNat < r1.toNat * 2 ^ (k + 1) := by
    have hmul := Nat.mul_le_mul_right (2 ^ k) hlow1
    rw [hscale] at hmul
    rw [Nat.pow_succ, ← Nat.mul_assoc]
    omega
  apply BitVec.eq_of_toNat_eq
  rw [block95ac]
  simp only [hentry]
  rw [toNat_table hfits (q := 0) rfl, LongDivision.divide_eq hbelow, Nat.zero_mul, Nat.zero_add,
    BitVec.toNat_udiv, Nat.mod_eq_of_lt]
  exact Nat.lt_of_le_of_lt (Nat.div_le_self _ _) r0.isLt

/-- A word that shares no bit with the one below it has one bit. -/
theorem toNat_of_and_eq_zero (hzero : r1 ≠ 0#32) (h : r1 &&& (r1 - 1#32) = 0#32) :
    r1.toNat = 2 ^ (31 - r1.clz.toNat) := by
  obtain ⟨hb, hlow, hhigh⟩ := clz_spec hzero
  have hpos : 1 ≤ r1.toNat := Nat.le_trans (Nat.one_le_two_pow) hlow
  have hbits : r1.toNat &&& (r1.toNat - 1) = 0 := by
    have hand := congrArg BitVec.toNat h
    rwa [BitVec.toNat_and, BitVec.toNat_sub_of_le (by rw [BitVec.le_def]; exact hpos)] at hand
  obtain ⟨n, hn⟩ := (Nat.and_sub_one_eq_zero_iff_isPowerOfTwo (by omega)).mp hbits
  rw [hn] at hlow hhigh ⊢
  rw [← Nat.pow_succ] at hhigh
  have hle := (Nat.pow_le_pow_iff_right (by omega)).mp hlow
  have hlt := (Nat.pow_lt_pow_iff_right (by omega)).mp hhigh
  congr 1
  omega

/-- Each of the ways gives the quotient. -/
theorem udivsi3_eq (r0 r1 : Word) :
    udivsi3 r0 r1 = if r1 = 0#32 then none else some (r0 / r1) := by
  unfold udivsi3
  by_cases hone : r1 = 1#32
  · rw [if_pos hone, hone, if_neg (by decide)]
    simp
  rw [if_neg hone]
  by_cases hzero : r1 = 0#32
  · rw [if_pos hzero, if_pos hzero]
  rw [if_neg hzero, if_neg hzero]
  have hpos : 0 < r1.toNat := Nat.pos_of_ne_zero fun h => hzero (BitVec.eq_of_toNat_eq h)
  by_cases hle : r0 ≤ r1
  · rw [if_pos hle]
    congr 1
    apply BitVec.eq_of_toNat_eq
    rw [BitVec.toNat_udiv]
    by_cases heq : r0 = r1
    · rw [if_pos heq, heq, Nat.div_self hpos]
      rfl
    · have hlt : r0.toNat < r1.toNat :=
        Nat.lt_of_le_of_ne hle fun h => heq (BitVec.eq_of_toNat_eq h)
      rw [if_neg heq, Nat.div_eq_of_lt hlt]
      rfl
  rw [if_neg hle]
  by_cases hpower : r1 &&& (r1 - 1#32) = 0#32
  · rw [if_pos hpower]
    obtain ⟨hb, -, -⟩ := clz_spec hzero
    have hshift : (31#32 - r1.clz).toNat = 31 - r1.clz.toNat := by
      rw [BitVec.toNat_sub_of_le hb]
      rfl
    congr 1
    apply BitVec.eq_of_toNat_eq
    rw [BitVec.ushiftRight_eq', BitVec.toNat_ushiftRight, Nat.shiftRight_eq_div_pow, hshift,
      ← toNat_of_and_eq_zero hzero hpower, BitVec.toNat_udiv]
  · rw [if_neg hpower, block95ac_eq hzero (BitVec.not_le.mp hle)]

/-- For every pair of words `<__udivsi3>` and `<__aeabi_uidivmod>` give the quotient and
the remainder, and without a divisor neither returns. -/
theorem division_correct (r0 r1 : Word) :
    udivsi3 r0 r1 = (if r1 = 0#32 then none else some (r0 / r1)) ∧
      uidivmod r0 r1 = if r1 = 0#32 then none else some (r0 / r1, r0 % r1) := by
  refine ⟨udivsi3_eq r0 r1, ?_⟩
  unfold uidivmod
  rw [udivsi3_eq]
  split
  · rfl
  · rw [Option.map_some]
    congr 2
    have hle : r1.toNat * (r0.toNat / r1.toNat) ≤ r0.toNat := Nat.mul_div_le _ _
    have hmul : (r1 * (r0 / r1)).toNat = r1.toNat * (r0.toNat / r1.toNat) := by
      rw [BitVec.toNat_mul, BitVec.toNat_udiv, Nat.mod_eq_of_lt (Nat.lt_of_le_of_lt hle r0.isLt)]
    apply BitVec.eq_of_toNat_eq
    rw [BitVec.toNat_sub_of_le (by rw [BitVec.le_def, hmul]; exact hle), hmul, BitVec.toNat_umod]
    exact (Nat.mod_def _ _).symm

end Quotient

/-- The percentage is computed with it. -/
theorem block8ff4_eq (m : Memory) :
    block8ff4 m = match udivsi3 ((m.filesize - m.fp28) * 100#32) m.filesize with
      | none => goto .sigfpe m
      | some q => emit (.printf 0x71fe4#32 [q]) (block9034 m) := by
  rw [udivsi3_eq, block8ff4]
  split <;> rfl

end Original
end EcFlash
