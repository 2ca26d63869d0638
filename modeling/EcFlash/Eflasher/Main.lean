import EcFlash.CString
import EcFlash.Eflasher.EcFunc

/-!
# The KB930 flash tool

`MAIN.C` of the second tool: the argument loop of `main`, and `readMain2` and
`writeMain2`, to which it hands over.  The numbers on the command line are read by
`sscanf`, of which only the result matters here, so it is a parameter.  Allocation
succeeds, and reading a file that opened does not fail.
-/

namespace EcFlash
namespace Eflasher

open Reactive

/-- `BUFFER_SIZE` -/
def bufferSize : Nat := 0x1000

/-- `FLASH_SIZE` -/
def flashSize : Word := 0x20000#32

/-! ## `readMain2` -/

/-- What is left of the read loop and the number of the byte, as a measure: behind a
full buffer the same byte is read again. -/
def readMeasure (size i : Word) (buffer : List Byte) : Nat :=
  2 * (size.toNat - i.toNat) + if bufferSize ≤ buffer.length + 1 then 1 else 0

theorem readMeasure_full {size i : Word} {buffer : List Byte}
    (hfull : bufferSize ≤ buffer.length + 1) :
    readMeasure size i [] < readMeasure size i buffer := by
  have hempty : ¬ bufferSize ≤ ([] : List Byte).length + 1 := by decide
  unfold readMeasure
  rw [if_pos hfull, if_neg hempty]
  omega

theorem readMeasure_next {size i : Word} {buffer buffer' : List Byte} (hi : i < size) :
    readMeasure size (i + 1#32) buffer' < readMeasure size i buffer := by
  have hlt : i.toNat < size.toNat := hi
  have hnext : (i + 1#32).toNat = i.toNat + 1 := by bv_omega
  unfold readMeasure
  rw [hnext]
  split <;> split <;> omega

/-- The loop of `readMain2`.  The first `bufPos` bytes of `buffer` are a list; its
length is `bufPos`. -/
def readLoop (p : Ports) (size i : Word) (buffer : List Byte) : Io Unit :=
  if i < size then do
    ecWaitForSPI p
    ecSelectSPIAddress p i
    ecSendSPICommand p fread
    ecWaitForSPI p
    let byte ← ecReadByte p spiData
    -- `++bufPos >= BUFFER_SIZE || ++i >= size`
    if bufferSize ≤ buffer.length + 1 then do
      .put (.fwrite (buffer ++ [byte]))
      readLoop p size i []
    else if size ≤ i + 1#32 then do
      .put (.fwrite (buffer ++ [byte]))
      readLoop p size (i + 1#32) []
    else readLoop p size (i + 1#32) (buffer ++ [byte])
  else return
termination_by readMeasure size i buffer
decreasing_by
  · exact readMeasure_full ‹_›
  · exact readMeasure_next ‹_›
  · exact readMeasure_next ‹_›

/-- `if (size == 0) size = 0x20000;` -/
def defaultSize (size : Word) : Word :=
  if size = 0#32 then flashSize else size

/-- `readMain2(filename, address, size)`, with a file that opened.  The address is
counted up in the loop, and not used. -/
def readMain2 (p : Ports) (_address size : Word) : Io Unit := do
  let oldState ← ecEnterProgMode p
  ecEnableSPI p
  ecEnableDummyByte p
  readLoop p (defaultSize size) 0#32 []
  ecDisableSPI p
  ecExitProgMode p oldState

/-! ## `writeMain2` -/

/-- The loop of `writeSector` over the bytes of the buffer. -/
def programLoop (p : Ports) : List Byte → Word → Io Unit
  | [], _ => return
  | byte :: buffer, address => do
      ecWaitForSPI p
      ecSendSPICommand p wren
      ecWaitForSPI p
      ecSelectSPIAddress p address
      ecWriteByte p spiData byte
      ecSendSPICommand p write
      programLoop p buffer (address + 1#32)

/-- `writeSector(buffer, bSize, address)`, where `buffer` holds `bSize` bytes. -/
def writeSector (p : Ports) (buffer : List Byte) (address : Word) : Io Unit := do
  ecDisableDummyByte
  ecWaitForSPI p
  ecSendSPICommand p wren
  ecWaitForSPI p
  ecSelectSPIAddress p address
  ecSendSPICommand p sectorErase
  programLoop p buffer address
  ecWaitForSPI p
  ecSendSPICommand p wrdsbl

/-- `SECTOR_SIZE`, which is `1 << pow`. -/
structure SectorSize where
  pow : Nat
  /-- `1 << pow` is defined for these. -/
  lt : pow < 31

/-- The value of `SECTOR_SIZE`. -/
def SectorSize.bytes (s : SectorSize) : Nat := 2 ^ s.pow

theorem SectorSize.bytes_pos (s : SectorSize) : 0 < s.bytes :=
  Nat.two_pow_pos s.pow

/-- What a sector leaves of a file, where the end of the file counts as well. -/
theorem SectorSize.left_lt (s : SectorSize) (file : List Byte) :
    (file.drop s.bytes).length + (if decide (file.length < s.bytes) then 0 else 1) <
      file.length + 1 := by
  have hpos := s.bytes_pos
  rw [List.length_drop]
  by_cases hshort : file.length < s.bytes
  · rw [if_pos (decide_eq_true hshort)]
    omega
  · rw [if_neg (by rwa [decide_eq_true_iff])]
    omega

/-- The loop of `writeMain2`, with the rest of the file and its end-of-file flag,
which a short `fread` sets. -/
def writeLoop (p : Ports) (sector : SectorSize) (size i address : Word) (file : List Byte)
    (eof : Bool) : Io Unit :=
  if i < size ∧ eof = false then do
    writeSector p (file.take sector.bytes) address
    writeLoop p sector size (i + BitVec.ofNat 32 sector.bytes)
      (address + BitVec.ofNat 32 sector.bytes) (file.drop sector.bytes)
      (decide (file.length < sector.bytes))
  else return
termination_by file.length + if eof then 0 else 1
decreasing_by
  rename_i hloop
  rw [hloop.2, if_neg Bool.false_ne_true]
  exact sector.left_lt file

/-- `writeMain2(filename, address, size)`, with a file that opened. -/
def writeMain2 (p : Ports) (sector : SectorSize) (address size : Word) (file : List Byte) :
    Io Unit := do
  let oldState ← ecEnterProgMode p
  ecEnableSPI p
  writeLoop p sector (defaultSize size) 0#32
    (address &&& ~~~(BitVec.ofNat 32 sector.bytes - 1#32)) file false
  ecDisableSPI p
  ecExitProgMode p oldState

/-! ## The argument loop -/

/-- What `sscanf` makes of an argument.  `eof` is returned for a blank one, and
counts as true. -/
inductive Scanned where
  | eof
  | mismatch
  | value (v : Nat)
  deriving DecidableEq

/-- `sscanf` with the three formats of `main`. -/
structure Sscanf where
  hex16 : CString → Scanned
  unsigned : CString → Scanned
  hex32 : CString → Scanned

/-- What `main` does in the end.  `undefined` is for what the language leaves open:
an uninitialised number, and a shift by too much. -/
inductive Action where
  | exit (rc : Nat)
  | read (p : Ports) (file : CString) (address size : Word)
  | write (p : Ports) (sector : SectorSize) (file : CString) (address size : Word)
  | undefined

/-- `ADDRESS_PORT_HIGH = ++indexIOBase;` and so on. -/
def portsFrom (indexIOBase : Port) : Ports where
  addressPortHigh := indexIOBase + 1#16
  addressPortLow := indexIOBase + 1#16 + 1#16
  dataPort := indexIOBase + 1#16 + 1#16 + 1#16
  low_eq := rfl
  data_eq := by bv_omega

/-- The values of the globals at the start. -/
def defaultPorts : Ports := portsFrom 0xFF28#16

def defaultSector : SectorSize := ⟨12, by decide⟩

/-- `INVALID_ARGUMENT` and `FILE_NOT_GIVEN` -/
def invalidArgument : Nat := 1
def fileNotGiven : Nat := 2

/-- An argument that is read only when it is there.  Behind the end of the arguments
stands a null pointer, and then whatever follows in memory. -/
def optional (scan : CString → Scanned) (arg : Option CString) (accepts : Scanned → Bool)
    (k : Word → Action) : Action :=
  match arg with
  | none => k 0#32
  | some a =>
      if accepts (scan a) then
        match scan a with
        | .value v => k (BitVec.ofNat 32 v)
        | _ => k 0#32
      else .exit invalidArgument

/-- `sscanf(...)` as a condition. -/
def Scanned.isTrue (s : Scanned) : Bool := s ≠ .mismatch

/-- The address and the size behind a file name: `rest` are the arguments left, and
`beyond` stands in memory behind the null pointer.  The read branch has the test of
the size the wrong way round. -/
def readArguments (sscanf : Sscanf) (p : Ports) (file : CString) (rest : List CString)
    (beyond : Option CString) : Action :=
  optional sscanf.hex32 rest.head? (fun s => s.isTrue) fun address =>
    optional sscanf.hex32 (if rest = [] then beyond else rest[1]?) (fun s => !s.isTrue) fun size =>
      .read p file address size

def writeArguments (sscanf : Sscanf) (p : Ports) (sector : SectorSize) (file : CString)
    (rest : List CString) (beyond : Option CString) : Action :=
  optional sscanf.hex32 rest.head? (fun s => s.isTrue) fun address =>
    optional sscanf.hex32 (if rest = [] then beyond else rest[1]?) (fun s => s.isTrue) fun size =>
      .write p sector file address size

/-- The argument loop, from an argument on. -/
def argumentLoop (sscanf : Sscanf) (beyond : Option CString) (p : Ports) (sector : SectorSize) :
    List CString → Action
  | [] => .exit 0
  | arg :: rest =>
      if arg.first ≠ dash then .exit invalidArgument
      else if arg.bytes[1]? = some 0x70#8 then
        match rest with
        | [] => .exit invalidArgument
        | a :: rest =>
            match sscanf.hex16 a with
            | .value base =>
                argumentLoop sscanf beyond (portsFrom (BitVec.ofNat 16 base)) sector rest
            | .eof => .undefined
            | .mismatch => .exit invalidArgument
      else if arg.bytes[1]? = some 0x73#8 then
        match rest with
        | [] => .exit invalidArgument
        | a :: rest =>
            match sscanf.unsigned a with
            | .value pow =>
                if h : pow < 31 then argumentLoop sscanf beyond p ⟨pow, h⟩ rest else .undefined
            | .eof => .undefined
            | .mismatch => .exit invalidArgument
      else if arg.bytes[1]? = some 0x72#8 then
        match rest with
        | [] => .exit fileNotGiven
        | file :: rest => readArguments sscanf p file rest beyond
      else if arg.bytes[1]? = some 0x77#8 then
        match rest with
        | [] => .exit fileNotGiven
        | file :: rest => writeArguments sscanf p sector file rest beyond
      else argumentLoop sscanf beyond p sector rest

/-- `main(argc, argv)`: the arguments behind the program name. -/
def main (sscanf : Sscanf) (beyond : Option CString) (argv : List CString) : Action :=
  argumentLoop sscanf beyond defaultPorts defaultSector argv.tail

end Eflasher
end EcFlash
