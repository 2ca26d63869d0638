import EcFlash.Checksum.Division

/-!
# Error bursts within a block

Two blocks of 32 bytes whose differing bits lie within 8 consecutive bits differ in
their checksum, unless they differ in one of five ways.  Behind the first byte the
checksum is an ordinary remainder, which catches every such burst.  An error in the
first byte enters twice, once through the initial contents of the register; there
five patterns cancel out, and these are missed in every block.
-/

namespace EcFlash

open Gf2

/-- Bit `i` of a buffer, the most significant bit of the first byte first. -/
def bitAt (buf : List Byte) (i : Nat) : Bool :=
  (stream buf).getD i false

/-- The bits in which two buffers differ lie within `n` consecutive bits. -/
def Burst (n : Nat) (as bs : List Byte) : Prop :=
  ∃ k, k + n ≤ 8 * as.length ∧
    ∀ i < 8 * as.length, bitAt as i ≠ bitAt bs i → k ≤ i ∧ i < k + n

/-- The differences in the first two bytes of a block that the checksum misses. -/
def missedDifferences : List (Byte × Byte) :=
  [(0xFD#8, 0x00#8), (0x01#8, 0x12#8), (0x02#8, 0x24#8), (0x04#8, 0x48#8), (0x08#8, 0x90#8)]

/-- The two blocks differ in one of these ways, and agree behind the second byte. -/
def Missed (as bs : List Byte) : Prop :=
  ∃ d ∈ missedDifferences,
    List.zipWith (· ^^^ ·) as bs = d.1 :: d.2 :: List.replicate 30 0#8

section Bits

theorem bitAt_xor {as bs : List Byte} (h : as.length = bs.length) (i : Nat) :
    bitAt (List.zipWith (· ^^^ ·) as bs) i = (bitAt as i ^^ bitAt bs i) := by
  have hstream : (stream as).length = (stream bs).length := by simp [h]
  unfold bitAt
  rw [stream_zipWith_xor h]
  by_cases hi : i < (stream as).length
  · have hi' : i < (stream bs).length := by omega
    rw [List.getD_eq_getElem _ _ (by rw [List.length_zipWith]; omega),
      List.getD_eq_getElem _ _ hi, List.getD_eq_getElem _ _ hi', List.getElem_zipWith]
  · rw [List.getD_eq_default _ _ (by rw [List.length_zipWith]; omega),
      List.getD_eq_default _ _ (by omega), List.getD_eq_default _ _ (by omega)]
    rfl

/-- A string whose set bits lie in a window is zero in front of it and behind it. -/
theorem zeros_outside {bs : List Bool} {k n : Nat} (hk : k + n ≤ bs.length)
    (h : ∀ i, bs.getD i false = true → k ≤ i ∧ i < k + n) :
    bs.take k = List.replicate k false ∧
      bs.drop (k + n) = List.replicate (bs.length - (k + n)) false := by
  have hout (i : Nat) (hi : i < bs.length) (hnot : ¬ (k ≤ i ∧ i < k + n)) : bs[i] = false := by
    rw [← List.getD_eq_getElem _ false hi]
    simpa using mt (h i) hnot
  constructor
  · refine List.eq_replicate_iff.mpr ⟨by simp; omega, fun b hb => ?_⟩
    obtain ⟨i, hi, rfl⟩ := List.getElem_of_mem hb
    simp only [List.length_take] at hi
    rw [List.getElem_take, hout i (by omega) (by omega)]
  · refine List.eq_replicate_iff.mpr ⟨by simp, fun b hb => ?_⟩
    obtain ⟨i, hi, rfl⟩ := List.getElem_of_mem hb
    simp only [List.length_drop] at hi
    rw [List.getElem_drop, hout (k + n + i) (by omega) (by omega)]

/-- A buffer without a set bit is empty. -/
theorem eq_replicate_of_stream {buf : List Byte}
    (h : stream buf = List.replicate (stream buf).length false) :
    buf = List.replicate buf.length 0#8 := by
  have hzero (n : Nat) : stream (List.replicate n 0#8) = List.replicate (8 * n) false := by
    induction n with
    | zero => rfl
    | succ n ih =>
        have hbits : bits 0#8 = List.replicate 8 false := by decide
        rw [List.replicate_succ, stream_cons, ih, hbits, ← List.replicate_add]
        congr 1
        omega
  apply stream_injective (by simp)
  rw [h, hzero, length_stream]

/-- Buffers of one length without a difference are the same. -/
theorem eq_of_zipWith_xor {as bs : List Byte} (hlen : as.length = bs.length)
    (h : List.zipWith (· ^^^ ·) as bs = List.replicate as.length 0#8) : as = bs := by
  induction as generalizing bs with
  | nil => exact (List.eq_nil_of_length_eq_zero hlen.symm).symm
  | cons a as ih =>
      cases bs with
      | nil => simp at hlen
      | cons b bs =>
          rw [List.zipWith_cons_cons, List.length_cons, List.replicate_succ] at h
          obtain ⟨hhead, htail⟩ := List.cons.inj h
          rw [BitVec.xor_eq_zero_iff.mp hhead, ih (by simpa using hlen) htail]

/-- A difference that is zero in front of a window and behind it is a burst. -/
theorem burst_of_zeros {as bs : List Byte} {k n : Nat} (hlen : as.length = bs.length)
    (hk : k + n ≤ 8 * as.length)
    (hlow : (stream (List.zipWith (· ^^^ ·) as bs)).take k = List.replicate k false)
    (hhigh : (stream (List.zipWith (· ^^^ ·) as bs)).drop (k + n) =
      List.replicate (8 * as.length - (k + n)) false) :
    Burst n as bs := by
  refine ⟨k, hk, fun i hi hne => ?_⟩
  have hset : (stream (List.zipWith (· ^^^ ·) as bs)).getD i false = true := by
    show bitAt (List.zipWith (· ^^^ ·) as bs) i = true
    rw [bitAt_xor hlen i]
    simpa using hne
  by_contra hout
  rcases Nat.lt_or_ge i k with hfront | hbehind
  · have hzero := congrArg (fun bs => bs[i]?) hlow
    simp only [List.getElem?_take, hfront, if_true, List.getElem?_replicate] at hzero
    simp [List.getD_eq_getElem?_getD, hzero] at hset
  · have hzero := congrArg (fun bs => bs[i - (k + n)]?) hhigh
    have hindex : k + n + (i - (k + n)) = i := by omega
    have hinside : i - (k + n) < 8 * as.length - (k + n) := by omega
    simp only [List.getElem?_drop, hindex, List.getElem?_replicate, hinside, if_true] at hzero
    simp [List.getD_eq_getElem?_getD, hzero] at hset

end Bits

section Register

variable {d : List Byte}

/-- Two blocks have the same checksum exactly when the register stays empty behind
their difference. -/
theorem crc8Calculator_eq_iff {as bs : List Byte} (h : as.length = bs.length) :
    crc8Calculator as as.length = crc8Calculator bs bs.length ↔
      shiftAll crc8Feedback ((List.zipWith (· ^^^ ·) as bs).headD 0#8)
        (stream (List.zipWith (· ^^^ ·) as bs)) = 0#8 := by
  have hstream : (stream as).length = (stream bs).length := by simp [h]
  rw [headD_zipWith_xor h, stream_zipWith_xor h, shiftAll_xor (by decide) _ _ _ hstream,
    crc8Calculator_eq_shiftAll, crc8Calculator_eq_shiftAll, List.take_length, List.take_length,
    BitVec.xor_left_inj, BitVec.xor_eq_zero_iff]

/-- Behind the initial contents `x` and the two bytes `x` and `y` the register is
empty for one `y` only. -/
theorem shiftAll_two_eq_zero_iff (x y : Byte) :
    shiftAll crc8Feedback x (bits x ++ bits y) = 0#8 ↔
      y = shiftAll crc8Feedback x (bits x ++ bits 0#8) := by
  have hsplit : shiftAll crc8Feedback x (bits x ++ bits y) =
      shiftAll crc8Feedback x (bits x ++ bits 0#8) ^^^ y := by
    have hlen : (bits 0#8).length = (bits y).length := by simp
    have hlinear := shiftAll_xor (by decide) crc8Feedback
      (shiftAll crc8Feedback x (bits x)) 0#8 hlen
    rw [← bits_xor, BitVec.xor_zero, BitVec.zero_xor,
      shiftAll_zero_bits (by decide)] at hlinear
    rw [shiftAll_append, shiftAll_append, hlinear]
  rw [hsplit, BitVec.xor_eq_zero_iff]
  exact eq_comm

/-- Of these pairs five lie within a window of eight bits. -/
theorem mem_missedDifferences (x : Byte) (hx : x ≠ 0#8)
    (h : ∃ k < 8, (bits x).take k = List.replicate k false ∧
      (bits (shiftAll crc8Feedback x (bits x ++ bits 0#8))).drop k = List.replicate (8 - k) false) :
    (x, shiftAll crc8Feedback x (bits x ++ bits 0#8)) ∈ missedDifferences := by
  revert x
  decide +kernel

/-- A burst behind the first byte leaves something in the register. -/
theorem shiftAll_ne_zero_of_ge {d : List Byte} {k : Nat} (hk : 8 ≤ k)
    (hd : d ≠ List.replicate d.length 0#8)
    (hlow : (stream d).take k = List.replicate k false)
    (hhigh : (stream d).drop (k + 8) = List.replicate ((stream d).length - (k + 8)) false) :
    d.headD 0#8 = 0#8 ∧ shiftAll crc8Feedback (d.headD 0#8) (stream d) ≠ 0#8 := by
  have hhead : d.headD 0#8 = 0#8 := by
    cases d with
    | nil => rfl
    | cons x d =>
        have htake := congrArg (List.take 8) hlow
        rw [List.take_take, Nat.min_eq_left hk, stream_cons, List.take_left' (length_bits x),
          List.take_replicate, Nat.min_eq_left hk] at htake
        exact bits_injective htake
  have hwindow : stream d = List.replicate k false ++ ((stream d).drop k).take 8 ++
      List.replicate ((stream d).length - (k + 8)) false := by
    rw [← hlow, ← hhigh, ← List.drop_drop, List.append_assoc, List.take_append_drop,
      List.take_append_drop]
  refine ⟨hhead, fun hzero => hd (eq_replicate_of_stream ?_)⟩
  -- An empty register means an empty window, and so no difference at all.
  have hlen : (((stream d).drop k).take 8).length ≤ 8 := by simp
  rw [hhead, hwindow, shiftAll_burst_eq_zero_iff (by decide) (by decide) _ _ hlen] at hzero
  rw [hzero, List.replicate_append_replicate, List.replicate_append_replicate] at hwindow
  have hlength := congrArg List.length hwindow
  rw [List.length_replicate] at hlength
  rwa [← hlength] at hwindow

/-- A burst that touches the first byte leaves nothing in five cases. -/
theorem shiftAll_eq_zero_iff_of_lt {x y : Byte} {d : List Byte} {k : Nat} (hk : k < 8)
    (hlow : (stream (x :: y :: d)).take k = List.replicate k false)
    (hhigh : (stream (x :: y :: d)).drop (k + 8) =
      List.replicate ((stream (x :: y :: d)).length - (k + 8)) false)
    (hd : x :: y :: d ≠ List.replicate (d.length + 2) 0#8) :
    shiftAll crc8Feedback x (stream (x :: y :: d)) = 0#8 ↔
      (x, y) ∈ missedDifferences ∧ d = List.replicate d.length 0#8 := by
  have hx : (bits x).take k = List.replicate k false := by
    rwa [stream_cons, List.take_append_of_le_length (by simp; omega)] at hlow
  -- The string ends in the rest of the second byte and the other bytes.
  have hsplit : (bits y).drop k ++ stream d =
      List.replicate (8 - k) false ++ List.replicate (stream d).length false := by
    rw [stream_cons, stream_cons, Nat.add_comm k 8, ← List.drop_drop,
      List.drop_left' (length_bits x), List.drop_append_of_le_length (by simp; omega)] at hhigh
    rw [hhigh, List.replicate_append_replicate]
    congr 1
    simp
    omega
  obtain ⟨hy, hrest⟩ := List.append_inj hsplit (by simp)
  have hzeros := eq_replicate_of_stream hrest
  rw [stream_cons, stream_cons, ← List.append_assoc, hrest,
    shiftAll_append_replicate_eq_zero_iff (by decide), shiftAll_two_eq_zero_iff]
  constructor
  · intro hyx
    rw [hyx] at hy hd ⊢
    refine ⟨mem_missedDifferences x ?_ ⟨k, hk, hx, hy⟩, hzeros⟩
    rintro rfl
    apply hd
    rw [shiftAll_append, shiftAll_zero_bits (by decide), shiftAll_zero_bits (by decide),
      List.replicate_succ, List.replicate_succ, ← hzeros]
  · rintro ⟨hmem, -⟩
    have hall : (missedDifferences.all fun m =>
        m.2 = shiftAll crc8Feedback m.1 (bits m.1 ++ bits 0#8)) = true := by decide +kernel
    simpa using List.all_eq_true.mp hall _ hmem

end Register

/-- A burst of at most 8 bits in a block of 32 bytes is missed in five cases only. -/
theorem crc8_burst {as bs : List Byte} (has : as.length = 32) (hbs : bs.length = 32)
    (hne : as ≠ bs) (h : Burst 8 as bs) :
    crc8Calculator as 32 = crc8Calculator bs 32 ↔ Missed as bs := by
  have hlen : as.length = bs.length := has.trans hbs.symm
  have hcrc := crc8Calculator_eq_iff hlen
  rw [has, hbs] at hcrc
  rw [hcrc]
  obtain ⟨k, hk, hwindow⟩ := h
  have hlength : (List.zipWith (· ^^^ ·) as bs).length = 32 := by simp [has, hbs]
  have hset (i : Nat) (hi : (stream (List.zipWith (· ^^^ ·) as bs)).getD i false = true) :
      k ≤ i ∧ i < k + 8 := by
    have hxor := bitAt_xor hlen i
    rw [bitAt, hi] at hxor
    have hinside : i < 8 * as.length := by
      by_contra hout
      rw [List.getD_eq_default _ _ (by simp; omega)] at hi
      exact Bool.false_ne_true hi
    exact hwindow i hinside (by simpa using hxor.symm)
  have hdiffer : List.zipWith (· ^^^ ·) as bs ≠ List.replicate 32 0#8 := by
    rw [← has]
    exact mt (eq_of_zipWith_xor hlen) hne
  unfold Missed
  generalize List.zipWith (· ^^^ ·) as bs = d at *
  have hstream : (stream d).length = 256 := by simp [hlength]
  obtain ⟨hlow, hhigh⟩ := zeros_outside (by omega) hset
  by_cases hk8 : 8 ≤ k
  · obtain ⟨hhead, hnonzero⟩ := shiftAll_ne_zero_of_ge hk8 (by rwa [hlength]) hlow hhigh
    refine iff_of_false hnonzero ?_
    rintro ⟨m, hm, rfl⟩
    have hall : (missedDifferences.all fun m => m.1 ≠ 0#8) = true := by decide
    exact absurd hhead (by simpa using List.all_eq_true.mp hall m hm)
  · obtain ⟨x, y, d, rfl⟩ : ∃ x y e, d = x :: y :: e := by
      match d, hlength with
      | x :: y :: e, _ => exact ⟨x, y, e, rfl⟩
    have hrest : d.length = 30 := by simpa using hlength
    rw [List.headD_cons, shiftAll_eq_zero_iff_of_lt (by omega) hlow hhigh (by rwa [hrest]), hrest]
    constructor
    · rintro ⟨hmem, heq⟩
      exact ⟨(x, y), hmem, by rw [← heq]⟩
    · rintro ⟨m, hm, heq⟩
      obtain ⟨rfl, htail⟩ := List.cons.inj heq
      obtain ⟨rfl, hzeros⟩ := List.cons.inj htail
      exact ⟨hm, hzeros⟩

/-- A burst in the middle of a block is none of the five. -/
theorem crc8_burst_caught :
    let as := List.replicate 7 0#8 ++ [0x0F#8, 0xA0#8] ++ List.replicate 23 0#8
    let bs := List.replicate 32 0#8
    Burst 8 as bs ∧ (crc8Calculator as 32 = crc8Calculator bs 32 ↔ Missed as bs) := by
  intro as bs
  have hburst : Burst 8 as bs :=
    burst_of_zeros (k := 60) (by decide) (by decide) (by decide +kernel) (by decide +kernel)
  exact ⟨hburst, crc8_burst (by decide) (by decide) (by decide) hburst⟩

/-- Not every burst is caught. -/
theorem crc8_burst_fails :
    ¬ ∀ as bs : List Byte, as.length = 32 → bs.length = 32 → as ≠ bs → Burst 8 as bs →
      crc8Calculator as 32 ≠ crc8Calculator bs 32 := by
  intro h
  apply h (0xFD#8 :: List.replicate 31 0#8) (List.replicate 32 0#8) (by decide) (by decide)
    (by decide)
  · exact burst_of_zeros (k := 0) (by decide) (by decide) (by decide +kernel) (by decide +kernel)
  · decide +kernel

end EcFlash
