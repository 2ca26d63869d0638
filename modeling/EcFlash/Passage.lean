import Mathlib.Data.List.Forall2
import EcFlash.Receiver

/-!
# The EC behind the nodes

A receiver is told calls, the EC gets bytes.  A byte alone asks for the two bytes that
are read back, and a frame is a command with a 16-bit payload, its high byte first: that
is how the original lays it out.

Frames with the low byte first are heard with the payload crossed.  What a receiver
makes of them depends on the checksums: a crossed trailer has the tag of the block where
the checksum belongs.
-/

namespace EcFlash

open Reactive

/-- What an access does at a node: the bytes that are written, and those read back. -/
structure Passage where
  sent : List Byte
  delivered : List Byte

/-- The exchange that the EC takes an access for. -/
def Passage.call? : Passage → Option (Call × Transfer)
  | ⟨[cmd], [b0, b1]⟩ => some (⟨cmd, 0#8, 0#8, 0⟩, some (b0, b1))
  | ⟨[cmd, hi, lo], _⟩ => some (⟨cmd, lo, hi, 2⟩, some (0#8, 0#8))
  | _ => none

/-- What the EC hears of a sequence of accesses. -/
def understood (ps : List Passage) : Exchanges :=
  ps.filterMap Passage.call?

/-- Nothing fails in the access, and all bytes go through. -/
structure NodeAnswer.Complete (a : NodeAnswer) : Prop where
  opened : a.opened = true
  cmdWritten : a.cmdWritten = some (Fin.last 1)
  frameWritten : a.frameWritten = some (Fin.last 3)
  seeked : a.seeked = true
  delivered : ∃ b0 b1, a.delivered = .two b0 b1

/-- The calls that the programs make: an announcement and data are written, a poll and
the base offset are read. -/
def Call.Ordinary (c : Call) : Prop :=
  c.mode = 0 ∧ c.cmd ≠ cmdSetOffset ∧ c.cmd ≠ cmdStreamData ∨
    c.mode = 2 ∧ c.cmd ≠ cmdPollProgress ∧ c.cmd ≠ cmdReadBaseOff

/-- An exchange that the EC cannot tell from another one. -/
structure HeardAs (x y : Call × Transfer) : Prop where
  receive : ∀ r : Receiver, r.receive x = r.receive y
  cmd : x.1.cmd = y.1.cmd
  reply : y.1.cmd = cmdReadBaseOff ∨ y.1.cmd = cmdPollProgress → x.2 = y.2

section Heard

variable {xs ys : Exchanges} {ps : List Passage} {a : NodeAnswer} {c : Call}

theorem NodeAnswer.Complete.succeeds (h : a.Complete) : a.Succeeds := by
  obtain ⟨b0, b1, hdelivered⟩ := h.delivered
  exact ⟨h.opened, by simp [h.cmdWritten], by simp [h.frameWritten], h.seeked,
    by simp [hdelivered]⟩

/-- A complete read brings the two bytes that were delivered. -/
theorem NodeAnswer.Complete.exists_readNode (h : a.Complete) :
    ∃ b0 b1, a.delivers = [b0, b1] ∧
      ∀ cmd out, readNode cmd out a = ⟨true, (b0, b1), [cmd]⟩ := by
  obtain ⟨b0, b1, hdelivered⟩ := h.delivered
  refine ⟨b0, b1, ?_, fun cmd out => ?_⟩
  · rw [NodeAnswer.delivers, if_pos ⟨h.opened, by simp [h.cmdWritten], h.seeked⟩, hdelivered]
  · simp [readNode, h.opened, h.cmdWritten, h.seeked, hdelivered]

theorem NodeAnswer.Complete.writeNode_eq (h : a.Complete) (frame : List Byte)
    (out : Byte × Byte) : writeNode frame out a = ⟨true, out, frame⟩ := by
  simp [writeNode, h.opened, h.frameWritten]

/-- The receiver does not look at the payload of a read. -/
theorem receive_read (hset : c.cmd ≠ cmdSetOffset) (hdata : c.cmd ≠ cmdStreamData) (r : Receiver)
    (io : Byte × Byte) (mode : Int) (a : Transfer) :
    r.receive (⟨c.cmd, io.1, io.2, mode⟩, a) = r.receive (c, a) := by
  cases a with
  | none => rfl
  | some reply => simp [Receiver.receive, hset, hdata]

/-- And not at the reply to a write. -/
theorem receive_write (hpoll : c.cmd ≠ cmdPollProgress) (r : Receiver) (mode : Int)
    (reply reply' : Byte × Byte) :
    r.receive (⟨c.cmd, c.io0, c.io1, mode⟩, some reply) = r.receive (c, some reply') := by
  simp [Receiver.receive, hpoll]

/-- The bytes of a read, and the two bytes that come back. -/
theorem heardAs_read (hordinary : c.Ordinary) (hmode : c.mode < 1) (b0 b1 : Byte) :
    ∃ x, Passage.call? ⟨[c.cmd], [b0, b1]⟩ = some x ∧ HeardAs x (c, some (b0, b1)) := by
  obtain ⟨-, hset, hdata⟩ | ⟨hmode', -⟩ := hordinary
  · exact ⟨_, rfl, fun r => receive_read hset hdata r (0#8, 0#8) 0 _, rfl, fun _ => rfl⟩
  · omega

/-- The bytes of a write, its payload in the order of the original. -/
theorem heardAs_write (hordinary : c.Ordinary) (hmode : 1 ≤ c.mode) (delivered : List Byte)
    (out : Byte × Byte) :
    ∃ x, Passage.call? ⟨[c.cmd, c.io1, c.io0], delivered⟩ = some x ∧
      HeardAs x (c, some out) := by
  obtain ⟨hmode', -⟩ | ⟨-, hpoll, hbase⟩ := hordinary
  · omega
  · refine ⟨_, rfl, fun r => receive_write hpoll r 2 _ _, rfl, fun h => ?_⟩
    exact absurd h (not_or.mpr ⟨hbase, hpoll⟩)

/-- What is heard access by access. -/
theorem understood_heardAs
    (h : List.Forall₂ (fun p y => ∃ x, p.call? = some x ∧ HeardAs x y) ps ys) :
    List.Forall₂ HeardAs (understood ps) ys := by
  unfold understood
  induction h with
  | nil => exact .nil
  | cons hp _ ih =>
      obtain ⟨x, hcall, hheard⟩ := hp
      rw [List.filterMap_cons_some hcall]
      exact .cons hheard ih

theorem received_of_heardAs (h : List.Forall₂ HeardAs xs ys) : received xs = received ys := by
  unfold received
  generalize Receiver.initial = r
  induction h generalizing r with
  | nil => rfl
  | cons hxy _ ih => rw [List.foldl_cons, List.foldl_cons, hxy.receive, ih]

/-- What the EC cannot tell apart it answers alike. -/
theorem truthful_of_heardAs (h : List.Forall₂ HeardAs xs ys) (htruthful : Truthful xs) :
    Truthful ys := by
  rintro before y after rfl hpoll hone
  have hbefore := List.forall₂_take_append _ _ _ h
  cases hrest : xs.drop before.length with
  | nil =>
      have hnone := List.forall₂_drop_append _ _ _ h
      simp [hrest] at hnone
  | cons x rest =>
      have hxy := List.forall₂_drop_append _ _ _ h
      rw [hrest, List.forall₂_cons] at hxy
      have hready := htruthful (xs.take before.length) x rest
        (by rw [← hrest, List.take_append_drop]) (hxy.1.cmd.trans hpoll)
        ((congrArg (Option.map Prod.fst) (hxy.1.reply (.inr hpoll))).trans hone)
      rwa [received_of_heardAs hbefore] at hready

end Heard

/-! ## Crossed payloads -/

/-- The call with its payload bytes the other way round. -/
def Call.crossed (c : Call) : Call :=
  { c with io0 := c.io1, io1 := c.io0 }

/-- The exchanges of a run with all payloads crossed. -/
def crossed (xs : Exchanges) : Exchanges :=
  xs.map fun x => (x.1.crossed, x.2)

/-- The bytes pair by pair the other way round. -/
def swapPairs : List Byte → List Byte
  | b0 :: b1 :: bytes => b1 :: b0 :: swapPairs bytes
  | bytes => bytes

/-- The other byte of the pair. -/
def partner (n : Nat) : Nat :=
  if n % 2 = 0 then n + 1 else n - 1

/-- A 16-bit word with its bytes the other way round. -/
def swapWord (n : Nat) : Nat :=
  n / 256 + 256 * (n % 256)

section Crossed

variable {xs : Exchanges} {r w : Receiver}

@[simp] theorem crossed_concat (c : Call) (a : Transfer) :
    crossed (xs ++ [(c, a)]) = crossed xs ++ [(c.crossed, a)] := by
  simp [crossed]

theorem received_crossed_answer {Out State : Type*} (m : Machine Call Transfer Out State)
    (cfg : Config Call Transfer Out State) (c : Call) (a : Transfer) :
    received (crossed (exchanges (m.answer cfg c a).trace)) =
      (received (crossed (exchanges cfg.trace))).receive (c.crossed, a) := by
  rw [Machine.exchanges_answer, crossed_concat, received_concat]

theorem wordBytes_swap (words : List (Byte × Byte)) :
    wordBytes (words.map Prod.swap) = swapPairs (wordBytes words) := by
  induction words with
  | nil => rfl
  | cons w words ih =>
      show [w.2, w.1] ++ wordBytes (words.map Prod.swap) = _
      rw [ih]
      rfl

@[simp] theorem length_swapPairs (bytes : List Byte) :
    (swapPairs bytes).length = bytes.length := by
  fun_induction swapPairs bytes <;> simp [*]

theorem getElem?_swapPairs {bytes : List Byte} (h : bytes.length % 2 = 0) (n : Nat) :
    (swapPairs bytes)[n]? = bytes[partner n]? := by
  fun_induction swapPairs bytes generalizing n with
  | case1 b0 b1 bytes ih =>
      have hrest : bytes.length % 2 = 0 := by
        simp only [List.length_cons] at h
        omega
      match n with
      | 0 => rfl
      | 1 => rfl
      | n + 2 =>
          have hpartner : partner (n + 2) = partner n + 2 := by
            unfold partner
            split <;> split <;> omega
          rw [hpartner]
          exact ih hrest n
  | case2 bytes hshort =>
      match bytes with
      | [] => rfl
      | [b] => simp at h
      | b0 :: b1 :: bytes => exact absurd rfl (hshort b0 b1 bytes)

/-- How far a receiver has come does not depend on the payloads. -/
structure InStep (r w : Receiver) : Prop where
  fresh : w.fresh = r.fresh
  words : w.words = r.words.map Prod.swap

theorem inStep_receive (h : InStep r w) (c : Call) (a : Transfer) :
    InStep (r.receive (c, a)) (w.receive (c.crossed, a)) := by
  cases a with
  | none => exact h
  | some reply =>
      by_cases hset : c.cmd = cmdSetOffset
      · rw [receive_setOffset hset, receive_setOffset (c := c.crossed) hset]
        exact ⟨rfl, rfl⟩
      by_cases hpoll : c.cmd = cmdPollProgress
      · rw [receive_poll hpoll, receive_poll (c := c.crossed) hpoll, Receiver.poll, Receiver.poll]
        split
        · exact ⟨rfl, rfl⟩
        · exact ⟨h.fresh, rfl⟩
      by_cases hdata : c.cmd = cmdStreamData
      · rw [receive_streamData hdata, receive_streamData (c := c.crossed) hdata]
        constructor
        · rw [fresh_take, fresh_take, h.fresh]
        · rw [words_take, words_take, h.words, List.length_map]
          split
          · rw [List.map_append]
            rfl
          · rfl
      · rw [receive_other hset hpoll hdata, receive_other (c := c.crossed) hset hpoll hdata]
        exact h

theorem inStep_crossed (xs : Exchanges) : InStep (received xs) (received (crossed xs)) := by
  induction xs using List.reverseRecOn with
  | nil => exact ⟨rfl, rfl⟩
  | append_singleton xs x ih =>
      obtain ⟨c, a⟩ := x
      rw [crossed_concat, received_concat, received_concat]
      exact inStep_receive ih c a

end Crossed

end EcFlash
