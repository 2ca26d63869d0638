import EcFlash.First.Main

/-!
# The original flash tool

`<main>` of `EC_flash.asm`, from the version query on, cut at its calls of
`KBC_CMD_DATAS`.  A program point is the address of the `bl`, and a block is named
by the address it starts at, so that each definition is the straight-line code at
that address up to the next call or branch.

The globals lie in `.bss`.  The frame slots are named by their distance below
`fp`; the code stores into them before it reads them, so what the frame holds at
first is a parameter.  `and #255` with `strb` and a zero-extending `ldrb` read as
operations on bytes.  No result of `KBC_CMD_DATAS` is ever looked at.
-/

namespace EcFlash
namespace Original

open Reactive

/-- One round of the bit loop of `<CRC8_Calculator>`, `87b8` to `8820`.  The
`lsl #24` and `asr #24` extend the sign of the byte. -/
def crc8Bit (crc val : Byte) : Byte :=
  if crc.toInt < 0 then
    let crc := crc <<< 1
    let crc := (val >>> 7) ||| crc
    crc ^^^ 7#8
  else
    let crc := crc <<< 1
    (val >>> 7) ||| crc

/-- The bit loop, `87b4` to `8844`, with `n` rounds left. -/
def crc8Bits : Nat → Byte → Byte → Byte
  | 0, crc, _ => crc
  | n + 1, crc, val => crc8Bits n (crc8Bit crc val) (val <<< 1)

/-- The byte loop, `879c` to `886c`, with `n` rounds left. -/
def crc8Bytes : Nat → List Byte → Byte → Byte
  | 0, _, crc => crc
  | n + 1, buf, crc => crc8Bytes n buf.tail (crc8Bits 8 crc (buf.headD 0#8))

/-- `<CRC8_Calculator>` -/
def crc8Calculator (buf : List Byte) (len : Nat) : Byte :=
  crc8Bytes len buf (buf.headD 0#8) ^^^ (~~~127#8)

/-- The globals, as far as `<main>` uses them once the file is open. -/
structure Globals where
  firstTemp : Byte
  gBootLoader : Byte
  gNid : Byte
  gOta : Byte
  gFlashSd : Byte
  temp : Word
  gEraseBlock : Byte
  /-- Its 33rd byte is never touched. -/
  dataArray : List Byte
  gRamMVer : Byte
  filesize : Word
  gRom : List Byte
  gRamId : Byte
  gRamTVer : Byte
  gRamSVer : Byte
  reData : Byte × Byte
  sendData : Byte × Byte

/-- The slots of the stack frame that are used once the file is open. -/
structure Slots where
  /-- The index of the two loops over a block. -/
  fp16 : Nat
  fp20 : Word
  fp24 : Word
  fp28 : Word
  /-- What `fopen` returned. -/
  fp32 : CFile
  fp33 : Byte
  fp34 : Byte

structure Memory extends Globals, Slots

/-- The address of the call of `KBC_CMD_DATAS` that `<main>` waits on, or how it
ended. -/
inductive Pc where
  | kbc8c4c
  | kbc8c90
  | kbc8d68
  | kbc8da0
  | kbc8e54
  | kbc8eb8
  | kbc8f10
  | kbc8f34
  | kbc8f8c
  | kbc8fc0
  | kbc91e4
  | kbc9248
  | kbc92ac
  | kbc9328
  | exited (rc : Nat)
  | sigfpe
  deriving DecidableEq

structure State where
  pc : Pc
  mem : Memory

/-- What is printed, by the addresses of the strings. -/
inductive Out where
  | puts (s : Word)
  | printf (format : Word) (args : List Word)
  deriving DecidableEq

/-- Where the code after a call leads, with the outputs on the way. -/
abbrev Next := State × List Out

/-- Go on to the call at `pc`. -/
def goto (pc : Pc) (m : Memory) : Next := (⟨pc, m⟩, [])

/-- Put out `o`, then go on. -/
def emit (o : Out) (n : Next) : Next := (n.1, o :: n.2)

/-- `and r, r, #255` and `strb` -/
def lowByte (r : Word) : Byte := (r &&& 255#32).setWidth 8

/-! ## The tail -/

/-- `932c` to `9334` -/
def block932c (m : Memory) : Next :=
  emit (.puts 0x72020#32) (goto (.exited 0) m)

/-- `92b8` to `9328` -/
def block92b8 (m : Memory) : Next :=
  goto .kbc9328 { m with
    sendData :=
      (if m.gOta ≠ 0#8 then 1#8 else if m.gFlashSd ≠ 0#8 then 2#8 else 3#8, 0#8) }

/-- `9260` to `92ac` -/
def block9260 (m : Memory) : Next :=
  emit (.printf 0x72000#32 []) (goto .kbc92ac { m with sendData := (4#8, 0#8) })

/-! ## The flash loop -/

/-- `8ec0` to `8f10`, and `8fa8` -/
def block8ec0 (m : Memory) : Next :=
  if m.fp34 = 0#8 then goto .kbc8fc0 m
  else goto .kbc8f10 { m with fp34 := 0#8, sendData := (1#8, m.gEraseBlock) }

/-- `9254` to `925c` -/
def block9254 (m : Memory) : Next :=
  if m.fp28 ≠ 0#32 then block8ec0 m else block9260 m

/-- `8f38` to `8fa4` -/
def block8f38 (m : Memory) : Next :=
  let m := { m with fp33 := m.reData.1 }
  if m.fp33 ≠ 0x55#8 then
    emit (.puts 0x71dd4#32) (emit (.puts 0x71fb4#32) (block9260 m))
  else goto .kbc8f8c { m with sendData := (lowByte m.fp24, lowByte (m.fp24 >>> 8)) }

/-- `9200` to `9248` -/
def block9200 (m : Memory) : Next :=
  goto .kbc9248 { m with sendData := (crc8Calculator m.dataArray 32, lowByte m.temp) }

/-- The word loop, `915c` to `91fc`: an even byte is only stored, an odd one sends
the pair. -/
def block91f4 (m : Memory) : Next :=
  if m.fp16 ≤ 31 then
    if m.fp16 = 0 ∨ m.fp16 % 2 = 0 then
      block91f4 { m with
        sendData := (m.dataArray.getD m.fp16 0#8, m.sendData.2)
        fp16 := m.fp16 + 1 }
    else goto .kbc91e4 { m with sendData := (m.sendData.1, m.dataArray.getD m.fp16 0#8) }
  else block9200 m
termination_by 32 - m.fp16

/-- `91e8` to `91f0` -/
def block91e8 (m : Memory) : Next :=
  block91f4 { m with fp16 := m.fp16 + 1 }

/-- The read loop, `9110` to `914c`, and `9150` -/
def block9110 (m : Memory) : Next :=
  let block := m.fp32.fill lowByte 32
  block91f4 { m with fp32 := block.2, dataArray := block.1, fp16 := 0 }

/-- `90bc` to `910c` -/
def block90bc (m : Memory) : Next :=
  if m.gBootLoader = 0#8 then
    block9110 { m with fp32 := m.fp32.fseek ((m.temp <<< 5) + m.fp24) }
  else block9110 { m with fp32 := m.fp32.fseek (m.temp <<< 5) }

/-- `908c` to `90b8` -/
def block908c (m : Memory) : Next :=
  block90bc { m with
    temp := if m.firstTemp ≠ 0#8 then m.temp + 1#32 else m.temp
    firstTemp := 1#8 }

/-- `9034` to `9088` -/
def block9034 (m : Memory) : Next :=
  if m.reData.1 = 1#8 then
    let m := { m with fp28 := m.fp28 - 32#32 }
    if m.filesize - m.fp24 = m.fp28 then block908c { m with fp34 := 1#8 }
    -- `bhi`: above `0x4000`, where the C sources test for below `0x4001`.
    else if 16384#32 < m.fp28 then block908c m
    else block908c { m with fp28 := 0#32 }
  else block90bc m

/-- `8ff4` to `9030`; `<__udivsi3>` raises `SIGFPE` on a zero divisor. -/
def block8ff4 (m : Memory) : Next :=
  if m.filesize = 0#32 then goto .sigfpe m
  else
    emit (.printf 0x71fe4#32 [(m.filesize - m.fp28) * 100#32 / m.filesize]) (block9034 m)

/-- `8fc4` to `8ff0` -/
def block8fc4 (m : Memory) : Next :=
  if m.reData.1 = 0#8 then block8ff4 m
  else if m.reData.1 = 1#8 then block8ff4 m
  else if m.reData.1 = 2#8 then block8ff4 m
  else block9254 m

/-! ## Up to the loop -/

/-- `8e58` to `8eb8` -/
def block8e58 (m : Memory) : Next :=
  let m := { m with fp34 := 0#8, fp20 := m.filesize - m.fp28 }
  goto .kbc8eb8 { m with sendData := (lowByte m.fp20, lowByte (m.fp20 >>> 8)) }

/-- `8de0` to `8e54` -/
def block8de0 (m : Memory) : Next :=
  if m.gBootLoader ≠ 0#8 then
    goto .kbc8e54 { m with sendData := (2#8, m.gEraseBlock), fp28 := m.filesize }
  else
    goto .kbc8e54 { m with sendData := (1#8, m.gEraseBlock), fp28 := m.filesize - m.fp24 }

/-- `8da4` to `8ddc` -/
def block8da4 (m : Memory) : Next :=
  let m := { m with fp33 := m.reData.1 }
  if m.fp33 = 0x55#8 then
    if m.gBootLoader ≠ 0#8 then
      emit (.puts 0x71f90#32) (block8de0 { m with gBootLoader := 0#8 })
    else block8de0 m
  else block8de0 m

/-- `8d6c` to `8da0` -/
def block8d6c (m : Memory) : Next :=
  goto .kbc8da0 { m with
    fp24 := (m.reData.1.setWidth 32 <<< 8) + m.reData.2.setWidth 32 }

/-- `8d04` to `8d68`; `<ExitPro>` does not return. -/
def block8d04 (m : Memory) : Next :=
  if m.gRom.getD 0 0#8 = m.gRamId ∧ m.filesize = 0x20000#32 then goto .kbc8d68 m
  else if m.gNid ≠ 0#8 then goto .kbc8d68 m
  else emit (.puts 0x71f6c#32) (goto (.exited 1) m)

/-- `8c94` to `8d00` -/
def block8c94 (m : Memory) : Next :=
  let m := { m with gRamSVer := m.reData.1, gRamTVer := m.reData.2 }
  emit (.printf 0x71f28#32
      [(m.gRom.getD 1 0#8).setWidth 32, (m.gRom.getD 2 0#8).setWidth 32,
        (m.gRom.getD 4 0#8).setWidth 32])
    (emit (.printf 0x71f48#32
        [m.gRamMVer.setWidth 32, m.gRamSVer.setWidth 32, m.gRamTVer.setWidth 32])
      (block8d04 m))

/-- `8c50` to `8c90` -/
def block8c50 (m : Memory) : Next :=
  goto .kbc8c90 { m with gRamId := m.reData.1, gRamMVer := m.reData.2 }

/-- A flag that the options have set. -/
def flag (b : Bool) : Byte := if b then 1#8 else 0#8

/-- `8b44` to `8bc4`, behind the options: the ROM header and the file size; then
`8c2c`. -/
def openRom (opts : First.Options) (img : Image) (stack : Slots) : Memory :=
  { stack with
    firstTemp := 0#8
    gBootLoader := flag opts.includeBootloader
    gNid := flag opts.ignoreNid
    gOta := flag opts.otaMode
    gFlashSd := flag opts.sdMode
    temp := 0#32
    gEraseBlock := opts.eraseMask
    dataArray := List.replicate 32 0#8
    gRamMVer := 0#8
    filesize := BitVec.ofNat 32 img.size
    gRom := (List.range 5).map fun i => (img.byte? (0x4000 + i)).getD 0#8
    gRamId := 0#8
    gRamTVer := 0#8
    gRamSVer := 0#8
    reData := (0#8, 0#8)
    sendData := (0#8, 0#8)
    fp16 := 0
    fp32 := ⟨img, 0⟩ }

/-! ## The machine -/

/-- A read command fills `ReData`, unless it fails. -/
def onRead (m : Memory) (a : Transfer) (k : Memory → Next) : Next :=
  match a with
  | none => k m
  | some reData => k { m with reData }

/-- The call the program waits on, with `r0`, the bytes at `SendData` and `r2`. -/
def pending (s : State) : Option Call :=
  let io0 := s.mem.sendData.1
  let io1 := s.mem.sendData.2
  match s.pc with
  | .kbc8c4c => some ⟨48#8, io0, io1, 0⟩
  | .kbc8c90 => some ⟨49#8, io0, io1, 0⟩
  | .kbc8d68 => some ⟨177#8, io0, io1, 0⟩
  | .kbc8da0 => some ⟨176#8, io0, io1, 0⟩
  | .kbc8e54 => some ⟨183#8, io0, io1, 2⟩
  | .kbc8eb8 => some ⟨184#8, io0, io1, 2⟩
  | .kbc8f10 => some ⟨183#8, io0, io1, 2⟩
  | .kbc8f34 => some ⟨176#8, io0, io1, 0⟩
  | .kbc8f8c => some ⟨184#8, io0, io1, 2⟩
  | .kbc8fc0 => some ⟨182#8, io0, io1, 0⟩
  | .kbc91e4 => some ⟨185#8, io0, io1, 2⟩
  | .kbc9248 => some ⟨185#8, io0, io1, 2⟩
  | .kbc92ac => some ⟨183#8, io0, io1, 2⟩
  | .kbc9328 => some ⟨186#8, io0, io1, 2⟩
  | .exited _ => none
  | .sigfpe => none

/-- The code behind the pending call. -/
def resume (s : State) (a : Transfer) : Next :=
  let m := s.mem
  match s.pc with
  | .kbc8c4c => onRead m a block8c50
  | .kbc8c90 => onRead m a block8c94
  | .kbc8d68 => onRead m a block8d6c
  | .kbc8da0 => onRead m a block8da4
  | .kbc8e54 => block8e58 m
  | .kbc8eb8 => block9254 m
  | .kbc8f10 => goto .kbc8f34 m
  | .kbc8f34 => onRead m a block8f38
  | .kbc8f8c => goto .kbc8fc0 m
  | .kbc8fc0 => onRead m a block8fc4
  | .kbc91e4 => block91e8 m
  | .kbc9248 => block9254 m
  | .kbc92ac => block92b8 m
  | .kbc9328 => block932c m
  | .exited _ => (s, [])
  | .sigfpe => (s, [])

/-- `<main>`, on the options, the opened file and what its frame held before. -/
def main (opts : First.Options) (img : Image) (stack : Slots) :
    Machine Call Transfer Out State where
  start := goto .kbc8c4c (openRom opts img stack)
  pending := pending
  resume := resume

end Original
end EcFlash
