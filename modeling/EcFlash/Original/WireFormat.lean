import Mathlib.Logic.Function.Basic
import EcFlash.Second.Main

/-!
# What goes over the wire

The original builds the three bytes of a frame in its stack frame, at `fp - 20`
to `fp - 18`, and the second payload byte is stored in front of the first one.
Both C implementations send the two the other way round, so a frame comes out
the same only when the swap cannot be seen.
-/

namespace EcFlash
namespace Original

/-- The bytes of a stack frame, by their distance from `fp`. -/
abbrev StackFrame := Int → Byte

/-- `strb r, [fp, #off]` -/
def strb (m : StackFrame) (off : Int) (r : Byte) : StackFrame :=
  Function.update m off r

/-- The `n` bytes from `fp + off` on. -/
def bytesFrom (m : StackFrame) (off : Int) (n : Nat) : List Byte :=
  (List.range n).map fun i => m (off + i)

/-- `<write_ec_device>` from `83bc` to `8408`, with the command in `r0`, the
bytes behind the pointer in `r1` and the length in `r2`. -/
def buildFrame (m : StackFrame) (r0 : Byte) (r1 : Byte × Byte) (r2 : Int) : StackFrame :=
  let m := strb m (-21) r0
  let m := strb m (-20) (m (-21))
  let m := strb m (-19) r1.2
  let m := strb m (-18) r1.1
  if r2 = 1 then
    let m := strb m (-19) 0#8
    strb m (-18) r1.1
  else m

/-- `<write_ec_device>`; `stack` is what its frame held before. -/
def writeEcDevice (stack : StackFrame) (r0 : Byte) (r1 : Byte × Byte) (r2 : Int)
    (out : Byte × Byte) (a : NodeAnswer) : Access :=
  writeNode (bytesFrom (buildFrame stack r0 r1 r2) (-20) 3) out a

/-- `<read_ec_device>` -/
def readEcDevice (r0 : Byte) (out : Byte × Byte) (a : NodeAnswer) : Access :=
  readNode r0 out a

/-- `<KBC_CMD_DATAS>` -/
def kbcCmdDatas (stack : StackFrame) (c : Call) (out : Byte × Byte) (a : NodeAnswer) : Access :=
  if c.mode ≤ 0 then readEcDevice c.cmd out a
  else writeEcDevice stack c.cmd (c.io0, c.io1) c.mode out a

/-- The frame of the original: the second payload byte comes first. -/
theorem bytesFrom_buildFrame (stack : StackFrame) (cmd : Byte) (data : Byte × Byte) (len : Int) :
    bytesFrom (buildFrame stack cmd data len) (-20) 3 =
      [cmd, if len = 1 then 0#8 else data.2, data.1] := by
  have hslots (m : StackFrame) : bytesFrom m (-20) 3 = [m (-20), m (-19), m (-18)] := rfl
  rw [hslots]
  -- The two stores for a single byte overwrite the slots of the pair.
  by_cases hlen : len = 1
  · simp [buildFrame, strb, hlen]
  · simp [buildFrame, strb, hlen]

/-- The payload bytes of a frame the other way round. -/
def swapPayload : List Byte → List Byte
  | [cmd, b0, b1] => [cmd, b1, b0]
  | bytes => bytes

/-- The frames of the C programs and of the original differ by the swap alone. -/
theorem bytesFrom_eq_swap (stack : StackFrame) (cmd : Byte) (data : Byte × Byte) (len : Int) :
    bytesFrom (buildFrame stack cmd data len) (-20) 3 =
      swapPayload (First.writeFrame cmd data len) := by
  rw [bytesFrom_buildFrame]
  rfl

/-- So they are the same only when it cannot be seen. -/
theorem writeFrame_eq_iff (stack : StackFrame) (cmd : Byte) (data : Byte × Byte) (len : Int) :
    First.writeFrame cmd data len = bytesFrom (buildFrame stack cmd data len) (-20) 3 ↔
      if len = 1 then data.1 = 0#8 else data.1 = data.2 := by
  rw [bytesFrom_buildFrame]
  unfold First.writeFrame
  by_cases hlen : len = 1
  · simp only [hlen, if_true, List.cons.injEq, and_true, true_and]
    exact ⟨And.left, fun h => ⟨h, h.symm⟩⟩
  · simp only [hlen, if_false, List.cons.injEq, and_true, true_and]
    exact ⟨And.left, fun h => ⟨h, h.symm⟩⟩

/-- One call with all it meets: the answers of the system, and what the stack
holds where the original builds its frame. -/
structure Invocation where
  call : Call
  answer : NodeAnswer
  stack : StackFrame

/-- What a program hands to the nodes in the calls `xs`, frame by frame.  A write
leaves the reply buffer alone, so all calls find the same one. -/
def frames (kbc : Invocation → Byte × Byte → Access) (out : Byte × Byte)
    (xs : List Invocation) : List (List Byte) :=
  xs.map fun x => (kbc x out).sent

/-- The frames of the first implementation. -/
def firstFrames (out : Byte × Byte) (xs : List Invocation) : List (List Byte) :=
  frames (fun x out => First.kbcCmdDatas x.call out x.answer) out xs

/-- The frames of the second implementation. -/
def secondFrames (out : Byte × Byte) (xs : List Invocation) : List (List Byte) :=
  frames (fun x out => Second.kbcCmdDatas x.call out x.answer) out xs

/-- The frames of the original. -/
def originalFrames (out : Byte × Byte) (xs : List Invocation) : List (List Byte) :=
  frames (fun x out => kbcCmdDatas x.stack x.call out x.answer) out xs

/-- The call whose frame hides the swap. -/
def SwapHidden (c : Call) : Prop :=
  if c.mode = 1 then c.io0 = 0#8 else c.io0 = c.io1

section Write

variable {x : Invocation} {out : Byte × Byte}

/-- Both C programs build the same frames. -/
theorem secondFrames_eq (out : Byte × Byte) (xs : List Invocation) :
    secondFrames out xs = firstFrames out xs := rfl

/-- A single call sends the same bytes unless the swap shows. -/
theorem sent_eq_iff (hmode : 1 ≤ x.call.mode) :
    (First.kbcCmdDatas x.call out x.answer).sent =
        (kbcCmdDatas x.stack x.call out x.answer).sent ↔
      (x.answer.opened = true → SwapHidden x.call) := by
  have hwrite : ¬ x.call.mode < 1 := by omega
  have hwrite' : ¬ x.call.mode ≤ 0 := by omega
  unfold First.kbcCmdDatas kbcCmdDatas
  rw [if_neg hwrite, if_neg hwrite']
  unfold First.writeEcDevice writeEcDevice
  rw [sent_writeNode, sent_writeNode]
  cases x.answer.opened with
  | false => simp
  | true =>
      simp only [if_true, forall_const]
      exact writeFrame_eq_iff x.stack x.call.cmd (x.call.io0, x.call.io1) x.call.mode

/-- The bytes of every access, read or write, are those of the C programs up to the
swap. -/
theorem sent_eq_swap (x : Invocation) (out : Byte × Byte) :
    (kbcCmdDatas x.stack x.call out x.answer).sent =
      swapPayload (First.kbcCmdDatas x.call out x.answer).sent := by
  unfold First.kbcCmdDatas kbcCmdDatas
  by_cases hread : x.call.mode < 1
  · rw [if_pos hread, if_pos (by omega)]
    -- The command of a read goes out alone, so there is nothing to swap.
    unfold readEcDevice First.readEcDevice readNode
    split <;> [skip; split <;> [skip; split <;> [skip; split]]] <;> rfl
  · rw [if_neg hread, if_neg (by omega)]
    unfold writeEcDevice First.writeEcDevice
    rw [sent_writeNode, sent_writeNode, bytesFrom_eq_swap]
    cases x.answer.opened <;> rfl

/-- The swap is all there is: the calls report the same, whatever they send. -/
theorem transfer_kbcCmdDatas (x : Invocation) (out : Byte × Byte) :
    (First.kbcCmdDatas x.call out x.answer).transfer =
      (kbcCmdDatas x.stack x.call out x.answer).transfer := by
  unfold First.kbcCmdDatas kbcCmdDatas
  by_cases hread : x.call.mode < 1
  · rw [if_pos hread, if_pos (by omega)]
    rfl
  · rw [if_neg hread, if_neg (by omega)]
    exact transfer_writeNode _ _ out x.answer

end Write

/-- A sequence of write calls goes out alike from all three programs exactly when
the swap is hidden in every frame that reaches the node. -/
theorem frames_eq_iff (out : Byte × Byte) (xs : List Invocation)
    (hmode : ∀ x ∈ xs, 1 ≤ x.call.mode) :
    (firstFrames out xs = originalFrames out xs ∧ secondFrames out xs = originalFrames out xs) ↔
      ∀ x ∈ xs, x.answer.opened = true → SwapHidden x.call := by
  rw [secondFrames_eq, and_self]
  unfold firstFrames originalFrames frames
  rw [List.map_inj_left]
  constructor
  · intro h x hx
    exact (sent_eq_iff (hmode x hx)).mp (h x hx)
  · intro h x hx
    exact (sent_eq_iff (hmode x hx)).mpr (h x hx)

/-- The system lets every access through. -/
def granted : NodeAnswer :=
  ⟨true, some 1, some 3, true, .two 0#8 0#8⟩

/-- A single call with an empty stack. -/
def invocation (c : Call) : Invocation :=
  ⟨c, granted, fun _ => 0#8⟩

/-- `CMD_SET_OFFSET` with the base offset `0x2020`. -/
theorem frames_eq_iff_offset :
    let xs := [invocation ⟨cmdSetOffset, 0x20#8, 0x20#8, 2⟩]
    (∀ x ∈ xs, 1 ≤ x.call.mode) ∧
      ((firstFrames (0#8, 0#8) xs = originalFrames (0#8, 0#8) xs ∧
          secondFrames (0#8, 0#8) xs = originalFrames (0#8, 0#8) xs) ↔
        ∀ x ∈ xs, x.answer.opened = true → SwapHidden x.call) :=
  have hmode : ∀ x ∈ [invocation ⟨cmdSetOffset, 0x20#8, 0x20#8, 2⟩], 1 ≤ x.call.mode := by
    simp [invocation]
  ⟨hmode, frames_eq_iff _ _ hmode⟩

/-- The base offset `0x0020` goes out as `B8 20 00` and not as `B8 00 20`. -/
theorem frames_differ :
    ¬ ∀ (out : Byte × Byte) (xs : List Invocation), (∀ x ∈ xs, 1 ≤ x.call.mode) →
      firstFrames out xs = originalFrames out xs ∧
        secondFrames out xs = originalFrames out xs := by
  intro h
  have hsame := (h (0#8, 0#8) [invocation ⟨cmdSetOffset, 0x20#8, 0#8, 2⟩]
    (by simp [invocation])).1
  exact absurd hsame (by decide)

end Original
end EcFlash
