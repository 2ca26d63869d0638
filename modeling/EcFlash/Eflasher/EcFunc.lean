import EcFlash.CStdio
import EcFlash.Reactive.Program

/-!
# Access to the KB930 through its index ports

`ECFUNC.C` of the second tool in the repository, which reads and writes the flash of
a KB930 from a PC.  Three consecutive I/O ports select a register of the controller
and read or write it; the SPI flash behind the controller is reached through some of
these registers.

A function is a program that reads ports and writes them.  It has no other effect,
and it never ends while a port read says that the flash is busy.
-/

namespace EcFlash
namespace Eflasher

open Reactive

/-- The number of an I/O port. -/
abbrev Port := BitVec 16

/-- The address of a register. -/
abbrev Register := BitVec 16

/-- `ADDRESS_PORT_HIGH`, `ADDRESS_PORT_LOW` and `DATA_PORT` -/
structure Ports where
  addressPortHigh : Port
  addressPortLow : Port
  dataPort : Port
  low_eq : addressPortLow = addressPortHigh + 1#16
  data_eq : dataPort = addressPortHigh + 2#16

/-- What a program does besides reading a port.  `fwrite` goes to the file that the
flash is read into. -/
inductive Out where
  | outw (port : Port) (ax : BitVec 16)
  | outb (port : Port) (al : Byte)
  | fwrite (bytes : List Byte)
  deriving DecidableEq

/-- A program whose calls are `in al, dx`. -/
abbrev Io := Program Port Byte Out

/-! ## `enum ec_Addrs` -/

def pmu : Register := 0xFF0C#16
def wdtCfg : Register := 0xFE80#16
def fanCtrl : Register := 0xFF11#16
def spiCfg : Register := 0xFEAD#16
def spiAddr0 : Register := 0xFEA8#16
def spiAddr1 : Register := 0xFEA9#16
def spiAddr2 : Register := 0xFEAA#16
def spiCmd : Register := 0xFEAC#16
def spiData : Register := 0xFEAB#16

/-! ## `enum ec_SPIcfgBits` and `enum ec_SPICommands` -/

def busyChk : Byte := 0x01#8
def spiBusy : Byte := 0x02#8
def dummyFlg : Byte := 0x04#8
def spiCmdEn : Byte := 0x08#8

def write : Byte := 0x02#8
def wrdsbl : Byte := 0x04#8
def wren : Byte := 0x06#8
def fread : Byte := 0x0B#8
def sectorErase : Byte := 0x20#8

/-- `xchg al, ah` -/
def xchg (ax : BitVec 16) : BitVec 16 :=
  (ax <<< 8) ||| (ax >>> 8)

/-- `ec_selectAddress(address)` -/
def ecSelectAddress (p : Ports) (address : Register) : Io Unit :=
  .put (.outw p.addressPortHigh (xchg address))

/-- `ec_readByteNA()` -/
def ecReadByteNA (p : Ports) : Io Byte :=
  .get p.dataPort

/-- `ec_writeByteNA(byte_val)` -/
def ecWriteByteNA (p : Ports) (byteVal : Byte) : Io Unit :=
  .put (.outb p.dataPort byteVal)

/-- `ec_readByte(address)` -/
def ecReadByte (p : Ports) (address : Register) : Io Byte := do
  .put (.outw p.addressPortHigh (xchg address))
  .get p.dataPort

/-- `ec_writeByte(address, byte_val)` -/
def ecWriteByte (p : Ports) (address : Register) (byteVal : Byte) : Io Unit := do
  .put (.outw p.addressPortHigh (xchg address))
  .put (.outb p.dataPort byteVal)

/-- `struct ec_StateBackup` -/
structure StateBackup where
  pmuCfg : Byte
  wdtCfg : Byte
  spiCfg : Byte

/-- `ec_enterProgMode(state)` -/
def ecEnterProgMode (p : Ports) : Io StateBackup := do
  ecSelectAddress p pmu
  let pmuCfg ← ecReadByteNA p
  ecWriteByteNA p 0x40#8
  ecSelectAddress p wdtCfg
  let wdt ← ecReadByteNA p
  ecWriteByteNA p 0xC8#8
  ecSelectAddress p spiCfg
  let spi ← ecReadByteNA p
  ecWriteByte p fanCtrl 0xFF#8
  return ⟨pmuCfg, wdt, spi⟩

/-- `ec_exitProgMode(state)` -/
def ecExitProgMode (p : Ports) (state : StateBackup) : Io Unit := do
  ecWriteByte p spiCfg state.spiCfg
  ecWriteByte p pmu state.pmuCfg
  ecWriteByte p wdtCfg state.wdtCfg

/-- `ec_enableSPI()` -/
def ecEnableSPI (p : Ports) : Io Unit := do
  ecSelectAddress p spiCfg
  let cfg ← ecReadByteNA p
  ecWriteByteNA p (cfg ||| (busyChk ||| spiCmdEn))

/-- `ec_disableSPI()` -/
def ecDisableSPI (p : Ports) : Io Unit := do
  ecSelectAddress p spiCfg
  let cfg ← ecReadByteNA p
  ecWriteByteNA p (cfg &&& ~~~(busyChk ||| spiCmdEn))

/-- `ec_enableDummyByte()` -/
def ecEnableDummyByte (p : Ports) : Io Unit := do
  ecSelectAddress p spiCfg
  let cfg ← ecReadByteNA p
  ecWriteByteNA p (cfg ||| dummyFlg)

/-- `ec_disableDummyByte()`, whose body is empty. -/
def ecDisableDummyByte : Io Unit :=
  return

/-- `ec_selectSPIAddress(address)` -/
def ecSelectSPIAddress (p : Ports) (address : Word) : Io Unit := do
  ecWriteByte p spiAddr0 (address.setWidth 8)
  ecWriteByte p spiAddr1 ((address >>> 8).setWidth 8)
  ecWriteByte p spiAddr2 ((address >>> 16).setWidth 8)

/-- `ec_sendSPICommand(command)` -/
def ecSendSPICommand (p : Ports) (command : Byte) : Io Unit :=
  ecWriteByte p spiCmd command

/-- `ec_waitForSPI()` -/
def ecWaitForSPI (p : Ports) : Io Unit := do
  ecSelectAddress p spiCfg
  .await p.dataPort fun cfg => cfg &&& spiBusy ≠ 0#8

end Eflasher
end EcFlash
