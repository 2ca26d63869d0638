import EcFlash.CStdio

/-!
# Exchanges with the EC device nodes

One access to a node opens it, writes, and for a read command seeks back and
reads the two reply bytes.  `NodeAnswer` is what the system answers to those
calls, and `readNode` and `writeNode` are the accesses run against it; each
program calls them through its own `read_ec_device`, `write_ec_device` and
`kbc_cmd_datas`.

`main` looks only at what `kbc_cmd_datas` returns and at its reply buffer, which
is a `Transfer`: `none` when the call reports a failure, and the contents of the
buffer when it reports success.
-/

namespace EcFlash

/-- The commands of the EC. -/
def cmdReadIdVerA : Byte := 0x30#8
def cmdReadIdVerB : Byte := 0x31#8
def cmdReadBaseOff : Byte := 0xB1#8
def cmdReadStatus : Byte := 0xB0#8
def cmdPhaseCtrl : Byte := 0xB7#8
def cmdSetOffset : Byte := 0xB8#8
def cmdPollProgress : Byte := 0xB6#8
def cmdStreamData : Byte := 0xB9#8
def cmdFinishMode : Byte := 0xBA#8

/-- The arguments of `CMD_PHASE_CTRL`. -/
def phaseNormal : Byte := 1#8
def phaseWithBbl : Byte := 2#8
def phaseFinalize : Byte := 4#8

/-- One call `kbc_cmd_datas(cmd, io, mode, resp)`, with the two bytes of `io`. -/
structure Call where
  cmd : Byte
  io0 : Byte
  io1 : Byte
  mode : Int
  deriving DecidableEq

/-- The result of one call of `kbc_cmd_datas`, as its caller sees it. -/
abbrev Transfer := Option (Byte × Byte)

/-- The result of `read(fd, out, 2)`. -/
inductive ReadResult where
  | error
  | zero
  | one (b0 : Byte)
  | two (b0 b1 : Byte)
  deriving DecidableEq

/-- What the system answers while a node is accessed once.  A written count is
`none` for a negative result. -/
structure NodeAnswer where
  opened : Bool
  cmdWritten : Option (Fin 2)
  frameWritten : Option (Fin 4)
  seeked : Bool
  delivered : ReadResult
  deriving DecidableEq

/-- What one access to a node did. -/
structure Access where
  /-- The C function reports success. -/
  ok : Bool
  /-- The reply buffer afterwards. -/
  out : Byte × Byte
  /-- The bytes handed to `write(2)`. -/
  sent : List Byte
  deriving DecidableEq

/-- An access to `ECflashread`: the command goes out, the reply comes back. -/
def readNode (cmd : Byte) (out : Byte × Byte) (a : NodeAnswer) : Access :=
  if !a.opened then ⟨false, out, []⟩
  else if a.cmdWritten = none then ⟨false, out, [cmd]⟩
  else if !a.seeked then ⟨false, out, [cmd]⟩
  else
    match a.delivered with
    | .error => ⟨false, out, [cmd]⟩
    | .zero => ⟨true, out, [cmd]⟩
    | .one b0 => ⟨true, (b0, out.2), [cmd]⟩
    | .two b0 b1 => ⟨true, (b0, b1), [cmd]⟩

/-- An access to `ECflashwrite`: a frame goes out, the reply buffer stays. -/
def writeNode (frame : List Byte) (out : Byte × Byte) (a : NodeAnswer) : Access :=
  if !a.opened then ⟨false, out, []⟩ else ⟨a.frameWritten ≠ none, out, frame⟩

/-- What the caller sees of an access. -/
def Access.transfer (x : Access) : Transfer :=
  if x.ok then some x.out else none

/-- The reply bytes that an access delivers. -/
def NodeAnswer.delivers (a : NodeAnswer) : List Byte :=
  if a.opened = true ∧ a.cmdWritten ≠ none ∧ a.seeked = true then
    match a.delivered with
    | .error | .zero => []
    | .one b0 => [b0]
    | .two b0 b1 => [b0, b1]
  else []

/-- `read` fills the buffer from the front. -/
def overwrite (out : Byte × Byte) : List Byte → Byte × Byte
  | [] => out
  | [b0] => (b0, out.2)
  | b0 :: b1 :: _ => (b0, b1)

/-- A read succeeds when no call of it fails, whatever the counts are. -/
theorem transfer_readNode (cmd : Byte) (out : Byte × Byte) (a : NodeAnswer) :
    (readNode cmd out a).transfer =
      if a.opened = true ∧ a.cmdWritten ≠ none ∧ a.seeked = true ∧ a.delivered ≠ .error then
        some (overwrite out a.delivers)
      else none := by
  rcases a with ⟨opened, cmdWritten, frameWritten, seeked, delivered⟩
  unfold readNode NodeAnswer.delivers Access.transfer
  cases opened <;> cases seeked <;> cases delivered <;> by_cases hcmd : cmdWritten = none <;>
    simp [hcmd, overwrite]

/-- So does a write, which leaves the buffer alone. -/
theorem transfer_writeNode_eq (frame : List Byte) (out : Byte × Byte) (a : NodeAnswer) :
    (writeNode frame out a).transfer =
      if a.opened = true ∧ a.frameWritten ≠ none then some out else none := by
  unfold writeNode Access.transfer
  cases a.opened <;> by_cases hframe : a.frameWritten = none <;> simp [hframe]

/-- No call of the access fails; it may still read less than two bytes. -/
structure NodeAnswer.Succeeds (a : NodeAnswer) : Prop where
  opened : a.opened = true
  cmdWritten : a.cmdWritten ≠ none
  frameWritten : a.frameWritten ≠ none
  seeked : a.seeked = true
  delivered : a.delivered ≠ .error

theorem NodeAnswer.Succeeds.transfer_readNode {a : NodeAnswer} (h : a.Succeeds) (cmd : Byte)
    (out : Byte × Byte) : (readNode cmd out a).transfer ≠ none := by
  rw [EcFlash.transfer_readNode, if_pos ⟨h.opened, h.cmdWritten, h.seeked, h.delivered⟩]
  exact Option.some_ne_none _

theorem NodeAnswer.Succeeds.transfer_writeNode {a : NodeAnswer} (h : a.Succeeds)
    (frame : List Byte) (out : Byte × Byte) : (writeNode frame out a).transfer ≠ none := by
  rw [transfer_writeNode_eq, if_pos ⟨h.opened, h.frameWritten⟩]
  exact Option.some_ne_none _

/-- Only an opened node gets the frame. -/
theorem sent_writeNode (frame : List Byte) (out : Byte × Byte) (a : NodeAnswer) :
    (writeNode frame out a).sent = if a.opened then frame else [] := by
  unfold writeNode
  cases a.opened <;> rfl

/-- The result of a write does not depend on what is written. -/
theorem transfer_writeNode (frame frame' : List Byte) (out : Byte × Byte) (a : NodeAnswer) :
    (writeNode frame out a).transfer = (writeNode frame' out a).transfer := by
  unfold writeNode
  cases a.opened <;> rfl

/-! ## Short accesses -/

/-- All bytes went through: the command byte and both reply bytes of a read, the
frame of a write. -/
def Full (c : Call) (a : NodeAnswer) : Prop :=
  if c.mode < 1 then a.cmdWritten = some (Fin.last 1) ∧ a.delivers.length = 2
  else a.opened = true ∧ a.frameWritten = some (Fin.last 3)

/-- No call of the access fails, but one moves less than it was asked to. -/
def Short (c : Call) (a : NodeAnswer) : Prop :=
  if c.mode < 1 then
    (a.opened = true ∧ a.cmdWritten ≠ none ∧ a.seeked = true ∧ a.delivered ≠ .error) ∧
      ((∃ n, n < Fin.last 1 ∧ a.cmdWritten = some n) ∨ a.delivers.length < 2)
  else a.opened = true ∧ ∃ n, n < Fin.last 3 ∧ a.frameWritten = some n

theorem length_delivers_le (a : NodeAnswer) : a.delivers.length ≤ 2 := by
  unfold NodeAnswer.delivers
  split
  · split <;> simp
  · simp

end EcFlash
