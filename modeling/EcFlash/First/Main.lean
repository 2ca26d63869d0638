import EcFlash.Crc8
import EcFlash.Reactive.Machine
import EcFlash.Transfer

/-!
# The first implementation of the flash tool

`main` of the first half of `ec_flash.c`, cut at its calls of `kbc_cmd_datas`.
A program counter names the call the program waits on, and every definition
below is the straight-line code from one call to the next: the handshake with
the ROM guard, the choice of phase and start offset, the flash loop with its
re-jump, poll and streaming parts, and the common tail.

The options arrive as `parse_args` leaves them in `flash_ctx_t`, with a file
that opened.  Sleeping, closing and the battery-polling node change nothing the
program looks at and are left out.
-/

namespace EcFlash
namespace First

open Reactive

/-- `ROM_EXPECTED_SIZE` -/
def romExpectedSize : Word := 0x20000#32

/-- `ROM_INFO_OFFSET` -/
def romInfoOffset : Word := 0x4000#32

/-- `BLOCK_SIZE` -/
def blockSize : Word := 0x20#32

/-- `read_ec_device(cmd, out)` -/
def readEcDevice (cmd : Byte) (out : Byte × Byte) (a : NodeAnswer) : Access :=
  readNode cmd out a

/-- The frame that `write_ec_device(cmd, data, data_len)` builds. -/
def writeFrame (cmd : Byte) (data : Byte × Byte) (dataLen : Int) : List Byte :=
  [cmd, data.1, if dataLen = 1 then 0#8 else data.2]

/-- `write_ec_device(cmd, data, data_len)` -/
def writeEcDevice (cmd : Byte) (data : Byte × Byte) (dataLen : Int) (out : Byte × Byte)
    (a : NodeAnswer) : Access :=
  writeNode (writeFrame cmd data dataLen) out a

/-- `kbc_cmd_datas(cmd, io, mode, out)` -/
def kbcCmdDatas (c : Call) (out : Byte × Byte) (a : NodeAnswer) : Access :=
  if c.mode < 1 then readEcDevice c.cmd out a
  else writeEcDevice c.cmd (c.io0, c.io1) c.mode out a

/-- The fields of `flash_ctx_t` that `parse_args` sets. -/
structure Options where
  eraseMask : Byte
  includeBootloader : Bool
  ignoreNid : Bool
  otaMode : Bool
  sdMode : Bool

/-- `flash_ctx_t`, as far as `main` uses it after parsing. -/
structure FlashCtx extends Options where
  romHdr : List Byte
  ramId : Byte
  ramMver : Byte
  ramSver : Byte
  ramTver : Byte
  fileSize : Word

/-- The local variables of `main`. -/
structure Locals where
  ctx : FlashCtx
  fp : CFile
  io : Byte × Byte
  resp : Byte × Byte
  dataBlock : List Byte
  baseOffset : Word
  remaining : Word
  temp : Word
  firstTemp : Bool
  needRejump : Bool

/-- The call of `kbc_cmd_datas` that `main` waits on, or how it ended.
`streamWord i` is the call in round `i` of the word loop. -/
inductive Pc where
  | readIdVerA
  | readIdVerB
  | readBaseOff
  | readStatus
  | phaseCtrl
  | setOffset
  | rejumpPhase
  | rejumpStatus
  | rejumpOffset
  | poll
  | streamWord (i : Nat)
  | streamTrailer
  | finalize
  | finishMode
  | returned (rc : Nat)
  | sigfpe
  deriving DecidableEq

structure State where
  pc : Pc
  vars : Locals

/-- What `main` prints, and the seek that selects the block of file bytes to
stream, with the block counter it is computed from. -/
inductive Out where
  | fileVersion (major minor test : Byte)
  | currentVersion (major minor test : Byte)
  | romBroken
  | bootBlockKept
  | jumpFailed
  | progress (pct : Word)
  | fseek (temp off : Word)
  | flashComplete
  | flashFinish
  deriving DecidableEq

/-- Where the code after a call leads, with the outputs on the way. -/
abbrev Next := State × List Out

/-- Go on to the call named by `pc`. -/
def goto (pc : Pc) (l : Locals) : Next := (⟨pc, l⟩, [])

/-- Put out `o`, then go on. -/
def emit (o : Out) (n : Next) : Next := (n.1, o :: n.2)

/-! ## The common tail, lines 467-492 -/

/-- After a successful `PHASE_FINALIZE`. -/
def afterFinalize (l : Locals) : Next :=
  goto .finishMode { l with
    io := (if l.ctx.otaMode then 1#8 else if l.ctx.sdMode then 2#8 else 3#8, 0#8) }

/-- After the flash loop. -/
def afterLoop (l : Locals) : Next :=
  emit .flashComplete (goto .finalize { l with io := (phaseFinalize, 0#8) })

/-! ## The flash loop, lines 384-465 -/

/-- The loop test, and the re-jump at the top of the body. -/
def loopHead (l : Locals) : Next :=
  if l.remaining ≠ 0#32 then
    if l.needRejump then
      -- The flag goes down before the first of the three calls.
      goto .rejumpPhase { l with
        needRejump := false
        io := (phaseNormal, l.ctx.eraseMask) }
    else goto .poll l
  else afterLoop l

/-- The status check of the re-jump; the failed one breaks out of the loop. -/
def afterJump (l : Locals) : Next :=
  if l.resp.1 ≠ 0x55#8 then emit .jumpFailed (afterLoop l)
  else goto .rejumpOffset { l with
    io := (l.baseOffset.setWidth 8, (l.baseOffset >>> 8).setWidth 8) }

/-- The word loop from round `i` on, and the trailer behind it. -/
def streamFrom (i : Nat) (l : Locals) : Next :=
  if i < 32 then
    goto (.streamWord i) { l with io := (l.dataBlock.getD i 0#8, l.dataBlock.getD (i + 1) 0#8) }
  else goto .streamTrailer { l with
    io := (crc8Calculator l.dataBlock 32, l.temp.setWidth 8) }

/-- `(uint8_t)(c == EOF ? 0xFF : c)` -/
def store (c : Word) : Byte :=
  if c = eof then 0xFF#8 else c.setWidth 8

/-- The file offset of the current block. -/
def blockOffset (l : Locals) : Word :=
  if !l.ctx.includeBootloader then l.temp * blockSize + l.baseOffset
  else l.temp * blockSize

/-- Lines 435-444: seek to the current block and read it. -/
def loadBlock (l : Locals) : Locals :=
  let block := (l.fp.fseek (blockOffset l)).fill store 32
  { l with fp := block.2, dataBlock := block.1 }

/-- Read the current block and start streaming it. -/
def streamBlock (l : Locals) : Next :=
  emit (.fseek l.temp (blockOffset l)) (streamFrom 0 (loadBlock l))

/-- Lines 421-433: what the reply `1` does to the counters. -/
def advance (l : Locals) : Locals :=
  if l.resp.1 = 1#8 then
    let remaining := l.remaining - blockSize
    { l with
      -- At the base offset the cut-off is not tested.
      remaining :=
        if l.ctx.fileSize - l.baseOffset = remaining then remaining
        else if remaining < 0x4001#32 then 0#32
        else remaining
      needRejump := if l.ctx.fileSize - l.baseOffset = remaining then true else l.needRejump
      temp := if l.firstTemp then l.temp + 1#32 else l.temp
      firstTemp := true }
  else l

/-- `((ctx.file_size - remaining) * 100UL) / ctx.file_size` -/
def percentage (fileSize remaining : Word) : Word :=
  (fileSize - remaining) * 100#32 / fileSize

/-- The rest of the loop body, on the poll reply.  Dividing by an empty file's
size raises `SIGFPE`. -/
def afterPoll (l : Locals) : Next :=
  if l.resp.1 = 0#8 ∨ l.resp.1 = 1#8 ∨ l.resp.1 = 2#8 then
    if l.ctx.fileSize = 0#32 then goto .sigfpe l
    -- The percentage is printed before the block is counted.
    else emit (.progress (percentage l.ctx.fileSize l.remaining)) (streamBlock (advance l))
  else loopHead l

/-! ## Up to the loop, lines 308-382 -/

/-- Lines 377-379: announce the start offset. -/
def afterPhaseCtrl (l : Locals) : Next :=
  let off := l.ctx.fileSize - l.remaining
  goto .setOffset { l with io := (off.setWidth 8, (off >>> 8).setWidth 8) }

/-- Lines 361-370: choose the phase and what remains to be flashed. -/
def choosePhase (l : Locals) : Next :=
  if !l.ctx.includeBootloader then
    goto .phaseCtrl { l with
      io := (phaseNormal, l.ctx.eraseMask)
      remaining := l.ctx.fileSize - l.baseOffset }
  else
    goto .phaseCtrl { l with
      io := (phaseWithBbl, l.ctx.eraseMask)
      remaining := l.ctx.fileSize }

/-- Lines 356-359: an EC that reports `0x55` keeps its boot block. -/
def afterStatus (l : Locals) : Next :=
  if l.resp.1 = 0x55#8 ∧ l.ctx.includeBootloader then
    emit .bootBlockKept
      (choosePhase { l with ctx := { l.ctx with includeBootloader := false } })
  else choosePhase l

/-- Line 349. -/
def afterBaseOff (l : Locals) : Next :=
  goto .readStatus { l with
    baseOffset := (l.resp.1.setWidth 32 <<< 8) ||| l.resp.2.setWidth 32 }

/-- The ROM guard, lines 339-343. -/
def romGuard (l : Locals) : Next :=
  if (l.ctx.romHdr.getD 0 0#8 ≠ l.ctx.ramId ∨ l.ctx.fileSize ≠ romExpectedSize) ∧
      l.ctx.ignoreNid = false then
    emit .romBroken (goto (.returned 1) l)
  else goto .readBaseOff l

/-- Lines 333-343. -/
def afterIdVerB (l : Locals) : Next :=
  let ctx := { l.ctx with ramSver := l.resp.1, ramTver := l.resp.2 }
  emit (.fileVersion (ctx.romHdr.getD 1 0#8) (ctx.romHdr.getD 2 0#8) (ctx.romHdr.getD 4 0#8))
    (emit (.currentVersion ctx.ramMver ctx.ramSver ctx.ramTver)
      (romGuard { l with ctx }))

/-- Lines 324-325. -/
def afterIdVerA (l : Locals) : Next :=
  goto .readIdVerB { l with
    ctx := { l.ctx with ramId := l.resp.1, ramMver := l.resp.2 } }

/-- Lines 308-313: the ROM header and the file size.  `fread` leaves what a
short file does not fill at the zeroes of `memset`. -/
def openRom (opts : Options) (img : Image) : Locals where
  ctx :=
    { opts with
      romHdr := (List.range 5).map fun i => (img.byte? (romInfoOffset.toNat + i)).getD 0#8
      ramId := 0#8
      ramMver := 0#8
      ramSver := 0#8
      ramTver := 0#8
      fileSize := BitVec.ofNat 32 img.size }
  fp := ⟨img, 0⟩
  io := (0#8, 0#8)
  resp := (0#8, 0#8)
  dataBlock := []
  baseOffset := 0#32
  remaining := 0#32
  temp := 0#32
  firstTemp := false
  needRejump := false

/-! ## The machine -/

/-- `if (!kbc_cmd_datas(..., 0, resp)) return 1;` -/
def onRead (l : Locals) (a : Transfer) (k : Locals → Next) : Next :=
  match a with
  | none => goto (.returned 1) l
  | some resp => k { l with resp }

/-- `if (!kbc_cmd_datas(..., 2, resp)) return 1;`, which leaves `resp` alone. -/
def onWrite (l : Locals) (a : Transfer) (k : Locals → Next) : Next :=
  match a with
  | none => goto (.returned 1) l
  | some _ => k l

/-- The call the program waits on. -/
def pending (s : State) : Option Call :=
  let io0 := s.vars.io.1
  let io1 := s.vars.io.2
  match s.pc with
  | .readIdVerA => some ⟨cmdReadIdVerA, io0, io1, 0⟩
  | .readIdVerB => some ⟨cmdReadIdVerB, io0, io1, 0⟩
  | .readBaseOff => some ⟨cmdReadBaseOff, io0, io1, 0⟩
  | .readStatus => some ⟨cmdReadStatus, io0, io1, 0⟩
  | .phaseCtrl => some ⟨cmdPhaseCtrl, io0, io1, 2⟩
  | .setOffset => some ⟨cmdSetOffset, io0, io1, 2⟩
  | .rejumpPhase => some ⟨cmdPhaseCtrl, io0, io1, 2⟩
  | .rejumpStatus => some ⟨cmdReadStatus, io0, io1, 0⟩
  | .rejumpOffset => some ⟨cmdSetOffset, io0, io1, 2⟩
  | .poll => some ⟨cmdPollProgress, io0, io1, 0⟩
  | .streamWord _ => some ⟨cmdStreamData, io0, io1, 2⟩
  | .streamTrailer => some ⟨cmdStreamData, io0, io1, 2⟩
  | .finalize => some ⟨cmdPhaseCtrl, io0, io1, 2⟩
  | .finishMode => some ⟨cmdFinishMode, io0, io1, 2⟩
  | .returned _ => none
  | .sigfpe => none

/-- The code that runs when the pending call is answered. -/
def resume (s : State) (a : Transfer) : Next :=
  let l := s.vars
  match s.pc with
  | .readIdVerA => onRead l a afterIdVerA
  | .readIdVerB => onRead l a afterIdVerB
  | .readBaseOff => onRead l a afterBaseOff
  | .readStatus => onRead l a afterStatus
  | .phaseCtrl => onWrite l a afterPhaseCtrl
  | .setOffset => onWrite l a loopHead
  | .rejumpPhase => onWrite l a (goto .rejumpStatus)
  | .rejumpStatus => onRead l a afterJump
  | .rejumpOffset => onWrite l a (goto .poll)
  | .poll => onRead l a afterPoll
  | .streamWord i => onWrite l a (streamFrom (i + 2))
  | .streamTrailer => onWrite l a loopHead
  | .finalize => onWrite l a afterFinalize
  | .finishMode => onWrite l a fun l => emit .flashFinish (goto (.returned 0) l)
  | .returned _ => (s, [])
  | .sigfpe => (s, [])

/-- `main`, on the options and the opened file. -/
def main (opts : Options) (img : Image) : Machine Call Transfer Out State where
  start := goto .readIdVerA (openRom opts img)
  pending := pending
  resume := resume

end First
end EcFlash
