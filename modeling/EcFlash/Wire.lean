import Mathlib.Data.List.Induction
import EcFlash.Crc8
import EcFlash.Transfer

/-!
# What the EC sees of a run

The exchanges of a run are the calls of `kbc_cmd_datas` with their results.
This file reads off them the poll replies, the payloads of the stream-data
commands, and the block indices which a sequence of poll replies asks for: the
reply `1` counts, every reply `0`, `1` or `2` asks for a block, and the first
`1` still asks for block `0`.  A block goes out as 16 words and a trailer.
-/

namespace EcFlash

/-- The exchanges of a run. -/
abbrev Exchanges := List (Call × Transfer)

/-- The status byte of an answered poll. -/
def pollReply? : Call × Transfer → Option Byte
  | (c, some r) => if c.cmd = cmdPollProgress then some r.1 else none
  | (_, none) => none

/-- The replies to the polls, in order. -/
def pollReplies (xs : Exchanges) : List Byte :=
  xs.filterMap pollReply?

/-- The number of polls answered `1`. -/
def ackCount (xs : Exchanges) : Nat :=
  (pollReplies xs).count 1#8

/-- The payload of a stream-data command. -/
def streamWord? (x : Call × Transfer) : Option (Byte × Byte) :=
  if x.1.cmd = cmdStreamData then some (x.1.io0, x.1.io1) else none

/-- The payloads of the stream-data commands, in order. -/
def streamed (xs : Exchanges) : List (Byte × Byte) :=
  xs.filterMap streamWord?

@[simp] theorem pollReplies_nil : pollReplies [] = [] := rfl

@[simp] theorem pollReplies_append (xs ys : Exchanges) :
    pollReplies (xs ++ ys) = pollReplies xs ++ pollReplies ys := by
  simp [pollReplies]

@[simp] theorem pollReplies_cons (x : Call × Transfer) (xs : Exchanges) :
    pollReplies (x :: xs) = (pollReply? x).toList ++ pollReplies xs := by
  cases h : pollReply? x <;> simp [pollReplies, h]

@[simp] theorem ackCount_nil : ackCount [] = 0 := rfl

@[simp] theorem ackCount_append (xs ys : Exchanges) :
    ackCount (xs ++ ys) = ackCount xs + ackCount ys := by
  simp [ackCount]

@[simp] theorem streamed_nil : streamed [] = [] := rfl

@[simp] theorem streamed_append (xs ys : Exchanges) :
    streamed (xs ++ ys) = streamed xs ++ streamed ys := by
  simp [streamed]

@[simp] theorem streamed_cons (x : Call × Transfer) (xs : Exchanges) :
    streamed (x :: xs) = (streamWord? x).toList ++ streamed xs := by
  cases h : streamWord? x <;> simp [streamed, h]

/-- The 16 data words of a block, in file order. -/
def dataWords (block : List Byte) : List (Byte × Byte) :=
  (List.range 16).map fun i => (block.getD (2 * i) 0#8, block.getD (2 * i + 1) 0#8)

/-- What streaming a block sends: its words, and the trailer of checksum and tag. -/
def blockPayload (block : List Byte) (tag : Byte) : List (Byte × Byte) :=
  dataWords block ++ [(crc8Calculator block 32, tag)]

@[simp] theorem length_dataWords (block : List Byte) : (dataWords block).length = 16 := by
  simp [dataWords]

@[simp] theorem length_blockPayload (block : List Byte) (tag : Byte) :
    (blockPayload block tag).length = 17 := by
  simp [blockPayload]

/-- The payload from word `i` on starts with the bytes `2 * i` and `2 * i + 1`. -/
theorem drop_blockPayload {i : Nat} (hi : i < 16) (block : List Byte) (tag : Byte) :
    (blockPayload block tag).drop i =
      (block.getD (2 * i) 0#8, block.getD (2 * i + 1) 0#8) ::
        (blockPayload block tag).drop (i + 1) := by
  have hlen : i < (blockPayload block tag).length := by
    simp
    omega
  rw [List.drop_eq_getElem_cons hlen]
  congr 1
  simp [blockPayload, dataWords, hi]

@[simp] theorem drop_blockPayload_trailer (block : List Byte) (tag : Byte) :
    (blockPayload block tag).drop 16 = [(crc8Calculator block 32, tag)] := by
  simp [blockPayload]

/-- A reply that asks for a block. -/
def AsksBlock (r : Byte) : Prop :=
  r = 0#8 ∨ r = 1#8 ∨ r = 2#8

instance (r : Byte) : Decidable (AsksBlock r) :=
  inferInstanceAs (Decidable (r = 0#8 ∨ r = 1#8 ∨ r = 2#8))

/-- The block indices asked for by poll replies, after `n` replies `1`. -/
def blockIndicesFrom (n : Nat) : List Byte → List Nat
  | [] => []
  | r :: rs =>
      let n' := if r = 1#8 then n + 1 else n
      if AsksBlock r then (n' - 1) :: blockIndicesFrom n' rs else blockIndicesFrom n' rs

/-- The block indices asked for by the poll replies of a run. -/
def blockIndices (rs : List Byte) : List Nat :=
  blockIndicesFrom 0 rs

theorem blockIndicesFrom_append (n : Nat) (rs ss : List Byte) :
    blockIndicesFrom n (rs ++ ss) =
      blockIndicesFrom n rs ++ blockIndicesFrom (n + rs.count 1#8) ss := by
  induction rs generalizing n with
  | nil => simp [blockIndicesFrom]
  | cons r rs ih =>
      have hcount : (if r = 1#8 then n + 1 else n) + rs.count 1#8 = n + (r :: rs).count 1#8 := by
        by_cases hr : r = 1#8
        · simp [hr]
          omega
        · simp [hr]
      simp only [List.cons_append, blockIndicesFrom]
      split <;> simp [ih, hcount]

/-- One more reply asks for at most one more block. -/
theorem blockIndices_concat (rs : List Byte) (r : Byte) :
    blockIndices (rs ++ [r]) =
      blockIndices rs ++ if AsksBlock r then [(rs ++ [r]).count 1#8 - 1] else [] := by
  unfold blockIndices
  rw [blockIndicesFrom_append]
  by_cases hr : r = 1#8
  · simp [blockIndicesFrom, hr]
  · simp [blockIndicesFrom, hr]

@[simp] theorem blockIndices_nil : blockIndices [] = [] := rfl

/-- Only blocks up to the last acknowledged one are asked for. -/
theorem le_of_mem_blockIndices {rs : List Byte} {t : Nat} (h : t ∈ blockIndices rs) :
    t ≤ rs.count 1#8 - 1 := by
  induction rs using List.reverseRecOn with
  | nil => simp at h
  | append_singleton rs r ih =>
      rw [blockIndices_concat, List.mem_append] at h
      rw [List.count_append] at h ⊢
      rcases h with h | h
      · have := ih h
        omega
      · split at h
        · exact Nat.le_of_eq (List.mem_singleton.mp h)
        · simp at h

/-- Every acknowledged block was asked for. -/
theorem mem_blockIndices_of_lt {rs : List Byte} {t : Nat} (h : t < rs.count 1#8) :
    t ∈ blockIndices rs := by
  induction rs using List.reverseRecOn with
  | nil => simp at h
  | append_singleton rs r ih =>
      rw [blockIndices_concat, List.mem_append]
      by_cases hlt : t < rs.count 1#8
      · exact .inl (ih hlt)
      · by_cases hr : r = 1#8
        · subst hr
          simp only [List.count_append, List.count_singleton_self] at h
          have ht : t = rs.count 1#8 := by omega
          exact .inr (by simp [AsksBlock, ht])
        · simp [hr] at h
          exact absurd h hlt

/-- The blocks are asked for in ascending order, each one possibly several times. -/
theorem sorted_blockIndices (rs : List Byte) : (blockIndices rs).Pairwise (· ≤ ·) := by
  induction rs using List.reverseRecOn with
  | nil => simp
  | append_singleton rs r ih =>
      rw [blockIndices_concat, List.pairwise_append]
      refine ⟨ih, by split <;> simp, ?_⟩
      intro t ht t' ht'
      have hle := le_of_mem_blockIndices ht
      split at ht'
      · rw [List.mem_singleton] at ht'
        rw [List.count_append] at ht'
        omega
      · simp at ht'

/-- No block is skipped. -/
theorem mem_blockIndices_of_le {rs : List Byte} {t t' : Nat} (h : t ∈ blockIndices rs)
    (hle : t' ≤ t) : t' ∈ blockIndices rs := by
  have ht := le_of_mem_blockIndices h
  by_cases hlt : t' < rs.count 1#8
  · exact mem_blockIndices_of_lt hlt
  · have heq : t' = t := by omega
    rwa [heq]

end EcFlash
