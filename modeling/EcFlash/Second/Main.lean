import EcFlash.First.Main

/-!
# The second implementation of the flash tool

`main` of the second half of `ec_flash.c`, cut at its calls of `kbc_cmd_datas` in
the same way as the first one.  The two loops look alike, but here the block
counter is a `uint8_t`, the flash base a `uint16_t`, bytes beyond the end of the
file read as zero, and a failed call inside the flash loop is a `break`: in the
word loop it only leaves that loop, elsewhere it leaves the flash loop for the
common tail, which looks at no result.

The options are those of the first implementation, kept in globals.
-/

namespace EcFlash
namespace Second

open Reactive

/-- `ROM_SIZE_EXPECTED` -/
def romSizeExpected : Word := 0x20000#32

/-- `BLOCK_SIZE` -/
def blockSize : Word := 0x20#32

/-- The commands of the EC, under their names in this half of the file. -/
def cmdGetIdMainVer : Byte := 0x30#8
def cmdGetSubTestVer : Byte := 0x31#8
def cmdGetFlashBase : Byte := 0xB1#8
def cmdGetBootStatus : Byte := 0xB0#8
def cmdSetPhase : Byte := 0xB7#8
def cmdSetOffset : Byte := 0xB8#8
def cmdPollProgress : Byte := 0xB6#8
def cmdWriteData : Byte := 0xB9#8
def cmdSetRebootMode : Byte := 0xBA#8

/-- `read_ec_device(cmd, out)` -/
def readEcDevice (cmd : Byte) (out : Byte × Byte) (a : NodeAnswer) : Access :=
  readNode cmd out a

/-- The frame that `write_ec_device(cmd, data, len)` builds. -/
def writeFrame (cmd : Byte) (data : Byte × Byte) (len : Int) : List Byte :=
  [cmd, data.1, if len = 1 then 0#8 else data.2]

/-- `write_ec_device(cmd, data, len)` -/
def writeEcDevice (cmd : Byte) (data : Byte × Byte) (len : Int) (out : Byte × Byte)
    (a : NodeAnswer) : Access :=
  writeNode (writeFrame cmd data len) out a

/-- `kbc_cmd_datas(cmd, data, mode, out)` -/
def kbcCmdDatas (c : Call) (out : Byte × Byte) (a : NodeAnswer) : Access :=
  if c.mode < 1 then readEcDevice c.cmd out a
  else writeEcDevice c.cmd (c.io0, c.io1) c.mode out a

/-- The body of the bit loop of `crc8_calculator`. -/
def crc8Bit (crc d : Byte) : Byte :=
  if crc.toInt < 0 then ((d >>> 7) ||| (crc <<< 1)) ^^^ 0x07#8
  else (d >>> 7) ||| (crc <<< 1)

/-- `for (i = 0; i < 8; ++i)`, with `n` rounds left. -/
def crc8Bits : Nat → Byte → Byte → Byte
  | 0, crc, _ => crc
  | n + 1, crc, d => crc8Bits n (crc8Bit crc d) (d <<< 1)

/-- `crc8_calculator(buf, len)` -/
def crc8Calculator (buf : List Byte) (len : Nat) : Byte :=
  (buf.take len).foldl (crc8Bits 8) (buf.headD 0#8) ^^^ 0x80#8

/-- The globals, as far as `main` uses them once the file is open. -/
structure Globals where
  gEraseBlock : Byte
  gBootLoader : Bool
  gNid : Bool
  gOta : Bool
  gFlashSd : Bool
  gRom : List Byte
  gRamId : Byte
  gRamMver : Byte
  gRamSver : Byte
  gRamTver : Byte
  gDataArray : List Byte
  gSendData : Byte × Byte
  gFileSize : Word

/-- The variables of `main`, with the globals. -/
structure Locals extends Globals where
  needRejump : Bool
  firstTemp : Bool
  temp : Byte
  reData : Byte × Byte
  fp : CFile
  remaining : Word
  flashBase : BitVec 16

/-- The call of `kbc_cmd_datas` that `main` waits on, or how it ended.
`writeData i` is the call behind the rounds `i` and `i + 1` of the word loop. -/
inductive Pc where
  | getIdMainVer
  | getSubTestVer
  | getFlashBase
  | getBootStatus
  | setPhase
  | setOffset
  | rejumpPhase
  | rejumpStatus
  | rejumpOffset
  | pollProgress
  | writeData (i : Nat)
  | writeTrailer
  | finalPhase
  | rebootMode
  | returned (rc : Nat)
  | sigfpe
  deriving DecidableEq

structure State where
  pc : Pc
  vars : Locals

/-- What `main` prints, and the seek to the block of file bytes to send. -/
inductive Out where
  | fileVersion (major minor test : Byte)
  | currentVersion (major minor test : Byte)
  | romBroken
  | bootBlockKept
  | jumpFailed
  | progress (pct : Word)
  | fseek (temp : Byte) (off : Word)
  | flashComplete
  | flashFinish
  deriving DecidableEq

/-- Where the code after a call leads, with the outputs on the way. -/
abbrev Next := State × List Out

/-- Go on to the call named by `pc`. -/
def goto (pc : Pc) (l : Locals) : Next := (⟨pc, l⟩, [])

/-- Put out `o`, then go on. -/
def emit (o : Out) (n : Next) : Next := (n.1, o :: n.2)

/-- `exit_pro(1, 0)` -/
def exitPro (l : Locals) : Next := goto (.returned 1) l

/-! ## The common tail, lines 958-978 -/

/-- Lines 967-974; nobody looked at the result of the call before. -/
def afterFinalPhase (l : Locals) : Next :=
  goto .rebootMode { l with
    gSendData := (if !l.gOta then (if l.gFlashSd then 2#8 else 3#8) else 1#8, 0#8) }

/-- Lines 976-979; again whatever the call before did. -/
def afterRebootMode (l : Locals) : Next :=
  emit .flashFinish (goto (.returned 0) l)

/-- Behind the flash loop. -/
def afterLoop (l : Locals) : Next :=
  emit .flashComplete (goto .finalPhase { l with gSendData := (4#8, 0#8) })

/-! ## The flash loop, lines 874-956 -/

/-- The loop test, and the re-jump at the top of the body. -/
def loopHead (l : Locals) : Next :=
  if l.remaining ≠ 0#32 then
    if l.needRejump then
      goto .rejumpPhase { l with needRejump := false, gSendData := (1#8, l.gEraseBlock) }
    else goto .pollProgress l
  else afterLoop l

/-- The status check of the re-jump. -/
def afterJump (l : Locals) : Next :=
  if l.reData.1 ≠ 0x55#8 then emit .jumpFailed (afterLoop l)
  else goto .rejumpOffset { l with
    gSendData := (l.flashBase.setWidth 8, (l.flashBase >>> 8).setWidth 8) }

/-- The trailer behind the word loop, however that was left. -/
def sendTrailer (l : Locals) : Next :=
  goto .writeTrailer { l with gSendData := (crc8Calculator l.gDataArray 32, l.temp) }

/-- The word loop from round `i` on. -/
def sendFrom (i : Nat) (l : Locals) : Next :=
  if i < 32 then
    goto (.writeData i) { l with
      gSendData := (l.gDataArray.getD i 0#8, l.gDataArray.getD (i + 1) 0#8) }
  else sendTrailer l

/-- `(c == EOF) ? 0 : (uint8_t)c` -/
def store (c : Word) : Byte :=
  if c = eof then 0#8 else c.setWidth 8

/-- The file offset of the current block; the counter is widened before it is
scaled. -/
def blockOffset (l : Locals) : Word :=
  if !l.gBootLoader then l.temp.setWidth 32 * blockSize + l.flashBase.setWidth 32
  else l.temp.setWidth 32 * blockSize

/-- Lines 925-934: seek to the current block and read it. -/
def loadBlock (l : Locals) : Locals :=
  let block := (l.fp.fseek (blockOffset l)).fill store 32
  { l with fp := block.2, gDataArray := block.1 }

/-- Read the current block and start sending it. -/
def sendBlock (l : Locals) : Next :=
  emit (.fseek l.temp (blockOffset l)) (sendFrom 0 (loadBlock l))

/-- Lines 911-923: what the reply `1` does to the counters. -/
def advance (l : Locals) : Locals :=
  if l.reData.1 = 1#8 then
    let remaining := l.remaining - blockSize
    { l with
      remaining :=
        if l.gFileSize - l.flashBase.setWidth 32 = remaining then remaining
        else if remaining < 0x4001#32 then 0#32
        else remaining
      needRejump :=
        if l.gFileSize - l.flashBase.setWidth 32 = remaining then true else l.needRejump
      temp := if l.firstTemp then l.temp + 1#8 else l.temp
      firstTemp := true }
  else l

/-- `((g_file_size - remaining) * 100U) / g_file_size` -/
def percentage (fileSize remaining : Word) : Word :=
  (fileSize - remaining) * 100#32 / fileSize

/-- The rest of the loop body, on the poll reply. -/
def afterPoll (l : Locals) : Next :=
  if l.reData.1 = 0#8 ∨ l.reData.1 = 1#8 ∨ l.reData.1 = 2#8 then
    if l.gFileSize = 0#32 then goto .sigfpe l
    else emit (.progress (percentage l.gFileSize l.remaining)) (sendBlock (advance l))
  else loopHead l

/-! ## Up to the loop, lines 813-872 -/

/-- Lines 864-868: announce the start offset. -/
def afterSetPhase (l : Locals) : Next :=
  let startOff := l.gFileSize - l.remaining
  goto .setOffset { l with gSendData := (startOff.setWidth 8, (startOff >>> 8).setWidth 8) }

/-- Lines 849-856: choose the phase and what remains to be flashed. -/
def choosePhase (l : Locals) : Next :=
  if !l.gBootLoader then
    goto .setPhase { l with
      gSendData := (1#8, l.gEraseBlock)
      remaining := l.gFileSize - l.flashBase.setWidth 32 }
  else
    goto .setPhase { l with
      gSendData := (2#8, l.gEraseBlock)
      remaining := l.gFileSize }

/-- Lines 844-847. -/
def afterBootStatus (l : Locals) : Next :=
  if l.reData.1 = 0x55#8 ∧ l.gBootLoader then
    emit .bootBlockKept (choosePhase { l with gBootLoader := false })
  else choosePhase l

/-- Line 839. -/
def afterFlashBase (l : Locals) : Next :=
  goto .getBootStatus { l with
    flashBase := (l.reData.1.setWidth 16 <<< 8) ||| l.reData.2.setWidth 16 }

/-- The ROM guard, lines 831-834. -/
def romGuard (l : Locals) : Next :=
  if (l.gRom.getD 0 0#8 ≠ l.gRamId ∨ l.gFileSize ≠ romSizeExpected) ∧ l.gNid = false then
    emit .romBroken (exitPro l)
  else goto .getFlashBase l

/-- Lines 825-834. -/
def afterSubTestVer (l : Locals) : Next :=
  let l := { l with gRamSver := l.reData.1, gRamTver := l.reData.2 }
  emit (.fileVersion (l.gRom.getD 1 0#8) (l.gRom.getD 2 0#8) (l.gRom.getD 4 0#8))
    (emit (.currentVersion l.gRamMver l.gRamSver l.gRamTver) (romGuard l))

/-- Lines 817-818. -/
def afterIdMainVer (l : Locals) : Next :=
  goto .getSubTestVer { l with gRamId := l.reData.1, gRamMver := l.reData.2 }

/-- Lines 800-806: the ROM header and the file size.  The globals start as
zeroes, and `fread` leaves what a short file does not fill. -/
def openRom (opts : First.Options) (img : Image) : Locals where
  gEraseBlock := opts.eraseMask
  gBootLoader := opts.includeBootloader
  gNid := opts.ignoreNid
  gOta := opts.otaMode
  gFlashSd := opts.sdMode
  gRom := (List.range 5).map fun i => (img.byte? (0x4000 + i)).getD 0#8
  gRamId := 0#8
  gRamMver := 0#8
  gRamSver := 0#8
  gRamTver := 0#8
  gDataArray := List.replicate 32 0#8
  gSendData := (0#8, 0#8)
  gFileSize := BitVec.ofNat 32 img.size
  needRejump := false
  firstTemp := false
  temp := 0#8
  reData := (0#8, 0#8)
  fp := ⟨img, 0⟩
  remaining := 0#32
  flashBase := 0#16

/-! ## The machine -/

/-- `if (!kbc_cmd_datas(..., 0, re_data)) ...`, with the code for a failure. -/
def onRead (l : Locals) (a : Transfer) (failed k : Locals → Next) : Next :=
  match a with
  | none => failed l
  | some reData => k { l with reData }

/-- `if (!kbc_cmd_datas(..., 2, re_data)) ...`, which leaves `re_data` alone. -/
def onWrite (l : Locals) (a : Transfer) (failed k : Locals → Next) : Next :=
  match a with
  | none => failed l
  | some _ => k l

/-- The call the program waits on. -/
def pending (s : State) : Option Call :=
  let io0 := s.vars.gSendData.1
  let io1 := s.vars.gSendData.2
  match s.pc with
  | .getIdMainVer => some ⟨cmdGetIdMainVer, io0, io1, 0⟩
  | .getSubTestVer => some ⟨cmdGetSubTestVer, io0, io1, 0⟩
  | .getFlashBase => some ⟨cmdGetFlashBase, io0, io1, 0⟩
  | .getBootStatus => some ⟨cmdGetBootStatus, io0, io1, 0⟩
  | .setPhase => some ⟨cmdSetPhase, io0, io1, 2⟩
  | .setOffset => some ⟨cmdSetOffset, io0, io1, 2⟩
  | .rejumpPhase => some ⟨cmdSetPhase, io0, io1, 2⟩
  | .rejumpStatus => some ⟨cmdGetBootStatus, io0, io1, 0⟩
  | .rejumpOffset => some ⟨cmdSetOffset, io0, io1, 2⟩
  | .pollProgress => some ⟨cmdPollProgress, io0, io1, 0⟩
  | .writeData _ => some ⟨cmdWriteData, io0, io1, 2⟩
  | .writeTrailer => some ⟨cmdWriteData, io0, io1, 2⟩
  | .finalPhase => some ⟨cmdSetPhase, io0, io1, 2⟩
  | .rebootMode => some ⟨cmdSetRebootMode, io0, io1, 2⟩
  | .returned _ => none
  | .sigfpe => none

/-- The code that runs when the pending call is answered.  A failed call of the
handshake exits; in the loop it is a `break`, out of the word loop or out of the
flash loop. -/
def resume (s : State) (a : Transfer) : Next :=
  let l := s.vars
  match s.pc with
  | .getIdMainVer => onRead l a exitPro afterIdMainVer
  | .getSubTestVer => onRead l a exitPro afterSubTestVer
  | .getFlashBase => onRead l a exitPro afterFlashBase
  | .getBootStatus => onRead l a exitPro afterBootStatus
  | .setPhase => onWrite l a exitPro afterSetPhase
  | .setOffset => onWrite l a exitPro loopHead
  | .rejumpPhase => onWrite l a afterLoop (goto .rejumpStatus)
  | .rejumpStatus => onRead l a afterLoop afterJump
  | .rejumpOffset => onWrite l a afterLoop (goto .pollProgress)
  | .pollProgress => onRead l a afterLoop afterPoll
  -- The trailer follows an interrupted word loop as it follows a finished one.
  | .writeData i => onWrite l a sendTrailer (sendFrom (i + 2))
  | .writeTrailer => onWrite l a afterLoop loopHead
  -- The last two results are thrown away.
  | .finalPhase => afterFinalPhase l
  | .rebootMode => afterRebootMode l
  | .returned _ => (s, [])
  | .sigfpe => (s, [])

/-- `main`, on the options and the opened file. -/
def main (opts : First.Options) (img : Image) : Machine Call Transfer Out State where
  start := goto .getIdMainVer (openRom opts img)
  pending := pending
  resume := resume

end Second
end EcFlash
