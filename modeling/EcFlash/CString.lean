import Mathlib.Data.List.TakeDrop
import EcFlash.CStdio

/-!
# C strings as the argument parsers use them

A C string is the bytes in front of its terminating NUL, none of which is NUL.
Copying into a buffer of bounded size truncates it, `tolower` is that of the "C"
locale, and `strncmp` stops at the first difference, at a NUL, or after its limit.
-/

namespace EcFlash

/-- The bytes of a C string, without the terminating NUL. -/
@[ext]
structure CString where
  bytes : List Byte
  noNul : 0#8 ∉ bytes
  deriving DecidableEq

/-- `'-'` -/
def dash : Byte := 0x2D#8

/-- The bytes of an ASCII literal. -/
def ascii (cs : List Char) : List Byte :=
  cs.map fun c => BitVec.ofNat 8 c.toNat

/-- `tolower` in the "C" locale. -/
def tolower (c : Byte) : Byte :=
  if 0x41#8 ≤ c ∧ c ≤ 0x5A#8 then c + 0x20#8 else c

/-- `strncmp(s, t, n)`; beyond its bytes a string reads as NUL. -/
def strncmp : List Byte → List Byte → Nat → Int
  | _, _, 0 => 0
  | s, t, n + 1 =>
      let c := s.headD 0#8
      let d := t.headD 0#8
      if c ≠ d then (c.toNat : Int) - d.toNat
      else if c = 0#8 then 0
      else strncmp s.tail t.tail n

theorem tolower_eq_zero_iff (c : Byte) : tolower c = 0#8 ↔ c = 0#8 := by
  revert c
  decide +kernel

theorem tolower_eq_dash_iff (c : Byte) : tolower c = dash ↔ c = dash := by
  revert c
  decide +kernel

@[simp] theorem tolower_tolower (c : Byte) : tolower (tolower c) = tolower c := by
  revert c
  decide +kernel

namespace CString

/-- `""` -/
def empty : CString := ⟨[], by simp⟩

/-- `s[0]` -/
def first (s : CString) : Byte :=
  s.bytes.headD 0#8

/-- What `strncpy(dst, s, n); dst[n] = '\0';` leaves in `dst`. -/
def truncate (s : CString) (n : Nat) : CString :=
  ⟨s.bytes.take n, fun h => s.noNul (List.mem_of_mem_take h)⟩

/-- `while (*s) { *s = tolower(*s); ++s; }` -/
def lower (s : CString) : CString :=
  ⟨s.bytes.map tolower, by
    intro h
    obtain ⟨c, hc, hzero⟩ := List.mem_map.mp h
    rw [tolower_eq_zero_iff] at hzero
    exact s.noNul (hzero ▸ hc)⟩

section Operations

variable (s : CString) (n : Nat)

theorem first_eq_zero_iff : s.first = 0#8 ↔ s = empty := by
  rcases s with ⟨bytes, hnul⟩
  cases bytes with
  | nil => exact iff_of_true rfl rfl
  | cons b bytes =>
      have hb : b ≠ 0#8 := by
        rintro rfl
        exact hnul (by simp)
      exact iff_of_false hb (by simp [empty])

@[simp] theorem first_lower_eq_dash_iff : s.lower.first = dash ↔ s.first = dash := by
  rcases s with ⟨bytes, hnul⟩
  cases bytes with
  | nil => exact Iff.rfl
  | cons b bytes => exact tolower_eq_dash_iff b

@[simp] theorem first_truncate (hn : 0 < n) : (s.truncate n).first = s.first := by
  rcases s with ⟨bytes, hnul⟩
  cases n with
  | zero => simp at hn
  | succ n => cases bytes <;> rfl

theorem lower_truncate : (s.truncate n).lower = s.lower.truncate n := by
  ext1
  simp [truncate, lower, List.map_take]

@[simp] theorem lower_lower : s.lower.lower = s.lower := by
  ext1
  simp [lower]

@[simp] theorem length_lower : s.lower.bytes.length = s.bytes.length := by
  simp [lower]

theorem truncate_eq_self_iff : s.truncate n = s ↔ s.bytes.length ≤ n := by
  rw [CString.ext_iff]
  exact List.take_eq_self_iff s.bytes

end Operations

end CString

section Strncmp

variable {s t : List Byte}

theorem strncmp_eq_zero_comm (s t : List Byte) (n : Nat) :
    strncmp s t n = 0 ↔ strncmp t s n = 0 := by
  induction n generalizing s t with
  | zero => exact Iff.rfl
  | succ n ih =>
      simp only [strncmp]
      by_cases h : s.headD 0#8 = t.headD 0#8
      · simp only [h, ne_eq, not_true_eq_false, if_false]
        split
        · exact Iff.rfl
        · exact ih s.tail t.tail
      · have hnat : (s.headD 0#8).toNat ≠ (t.headD 0#8).toNat := mt BitVec.eq_of_toNat_eq h
        simp only [ne_eq, h, Ne.symm h, not_false_eq_true, if_true]
        omega

/-- For a literal of `n` characters the comparison is a prefix test. -/
theorem strncmp_eq_zero_iff {n : Nat} (hlen : t.length = n) (hnul : 0#8 ∉ t) :
    strncmp s t n = 0 ↔ t <+: s := by
  induction n generalizing s t with
  | zero =>
      have hnil : t = [] := List.eq_nil_of_length_eq_zero hlen
      simp [strncmp, hnil]
  | succ n ih =>
      cases t with
      | nil => simp at hlen
      | cons d t =>
          have hd : d ≠ 0#8 := by
            rintro rfl
            exact hnul (by simp)
          have htail : 0#8 ∉ t := fun h => hnul (List.mem_cons_of_mem d h)
          have ih := ih (s := s.tail) (by simpa using hlen) htail
          cases s with
          | nil =>
              have hnat : d.toNat ≠ 0 := by
                intro h
                exact hd (BitVec.eq_of_toNat_eq h)
              simp [strncmp, hd.symm]
              omega
          | cons c s =>
              by_cases h : c = d
              · subst h
                simpa [strncmp, hd, List.cons_prefix_cons] using ih
              · have hnat : c.toNat ≠ d.toNat := mt BitVec.eq_of_toNat_eq h
                simp [strncmp, h, List.cons_prefix_cons, Ne.symm h]
                omega

end Strncmp

end EcFlash
