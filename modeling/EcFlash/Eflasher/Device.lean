import Mathlib.Logic.Function.Basic
import EcFlash.Eflasher.EcFunc
import EcFlash.Reactive.Contract

/-!
# The controller and its flash, as the tool sees them

A word written to the high address port selects a register, and the data port reads
and writes the selected one.  A write to the command register carries out a command
of the SPI flash: the sector of an address is erased to `0xFF`, a byte is programmed
into it by clearing bits, and both only when writing was enabled just before.

The device is idle when the flash was last seen idle, and no command was sent since.
The contract relies on register reads that return what is stored, up to the busy bit,
and asks of a program to use its own ports, and the registers of the flash only while
the device is idle.
-/

namespace EcFlash
namespace Eflasher

open Reactive

/-- The address of a byte in the flash. -/
abbrev FlashAddr := BitVec 24

/-- The registers and the flash, and the file that the tool writes. -/
structure Device where
  /-- The selected register. -/
  index : Register
  regs : Register → Byte
  mem : FlashAddr → Byte
  writeEnabled : Bool
  idle : Bool
  file : List Byte
  /-- The busy bit is not stored. -/
  notBusy : regs spiCfg &&& spiBusy = 0#8

/-- All registers and the flash hold zero. -/
def blank : Device where
  index := 0#16
  regs := fun _ => 0#8
  mem := fun _ => 0#8
  writeEnabled := false
  idle := false
  file := []
  notBusy := by decide

/-- The registers through which the flash is reached. -/
def Register.isFlash (r : Register) : Bool :=
  r = spiAddr0 ∨ r = spiAddr1 ∨ r = spiAddr2 ∨ r = spiData ∨ r = spiCmd

/-- What a register stores of a byte written to it. -/
def stored (r : Register) (v : Byte) : Byte :=
  if r = spiCfg then v &&& ~~~spiBusy else v

theorem stored_of_ne {r : Register} (v : Byte) (hr : r ≠ spiCfg) : stored r v = v :=
  if_neg hr

/-- The flash with the sector around `a` erased; `granule` is the size of a sector. -/
def erased (granule : Nat) (mem : FlashAddr → Byte) (a : FlashAddr) : FlashAddr → Byte :=
  fun x => if x.toNat / granule = a.toNat / granule then 0xFF#8 else mem x

/-- The flash with one byte programmed. -/
def programmed (mem : FlashAddr → Byte) (a : FlashAddr) (v : Byte) : FlashAddr → Byte :=
  Function.update mem a (mem a &&& v)

theorem stored_spiCfg_and_spiBusy (v : Byte) : stored spiCfg v &&& spiBusy = 0#8 := by
  have hbits : ~~~spiBusy &&& spiBusy = 0#8 := by decide
  rw [stored, if_pos rfl, BitVec.and_assoc, hbits, BitVec.and_zero]

namespace Device

/-- The address in the three address registers. -/
def address (d : Device) : FlashAddr :=
  d.regs spiAddr2 ++ d.regs spiAddr1 ++ d.regs spiAddr0

/-- Select a register. -/
def select (d : Device) (r : Register) : Device :=
  { d with index := r }

/-- Store a byte in a register. -/
def store (d : Device) (r : Register) (v : Byte) : Device where
  __ := d
  regs := Function.update d.regs r (stored r v)
  notBusy := by
    by_cases hr : spiCfg = r
    · subst hr
      rw [Function.update_self]
      exact stored_spiCfg_and_spiBusy v
    · rw [Function.update_of_ne hr]
      exact d.notBusy

/-- Erase the sector at the current address, or program the byte in the data
register, when that was enabled. -/
def modify (d : Device) (mem : FlashAddr → Byte) : Device :=
  if d.writeEnabled then { d with mem, writeEnabled := false } else d

/-- Carry out a command, if the command register is enabled. -/
def command (granule : Nat) (d : Device) (c : Byte) : Device :=
  if d.regs spiCfg &&& spiCmdEn = 0#8 then d
  else if c = wren then { d with writeEnabled := true }
  else if c = wrdsbl then { d with writeEnabled := false }
  else if c = sectorErase then d.modify (erased granule d.mem d.address)
  else if c = write then d.modify (programmed d.mem d.address (d.regs spiData))
  else if c = fread then d.store spiData (d.mem d.address)
  else d

/-- The device after a byte is written to the data port. -/
def dataOut (granule : Nat) (d : Device) (v : Byte) : Device :=
  if d.index = spiCmd then { d.command granule v with idle := false } else d.store d.index v

/-- The device after one event. -/
def observe (p : Ports) (granule : Nat) (d : Device) : Event Port Byte Out → Device
  | .out (.outw port ax) => if port = p.addressPortHigh then d.select (xchg ax) else d
  | .out (.outb port al) => if port = p.dataPort then d.dataOut granule al else d
  | .out (.fwrite bytes) => { d with file := d.file ++ bytes }
  | .call port a =>
      if port = p.dataPort ∧ d.index = spiCfg then { d with idle := a &&& spiBusy = 0#8 } else d

/-- A register reads as it is stored; only the busy bit is up to the flash. -/
def answers (p : Ports) (d : Device) (port : Port) (a : Byte) : Prop :=
  port = p.dataPort →
    (if d.index = spiCfg then a &&& ~~~spiBusy else a) = d.regs d.index

/-- The ports are the tool's own, and the flash is left alone while it may be busy. -/
def allows (p : Ports) (d : Device) : Event Port Byte Out → Prop
  | .out (.outw port _) => port = p.addressPortHigh
  | .out (.outb port _) => port = p.dataPort ∧ (d.index.isFlash = true → d.idle = true)
  | .out (.fwrite _) => True
  | .call port _ => port = p.dataPort ∧ (d.index.isFlash = true → d.idle = true)

end Device

/-- The contract between the tool and the device. -/
def contract (p : Ports) (granule : Nat) : Contract Port Byte Out Device where
  observe := Device.observe p granule
  rely := Device.answers p
  guarantee := Device.allows p

instance (p : Ports) (granule : Nat) (d : Device) (port : Port) (a : Byte) :
    Decidable ((contract p granule).rely d port a) :=
  inferInstanceAs (Decidable (port = p.dataPort →
    (if d.index = spiCfg then a &&& ~~~spiBusy else a) = d.regs d.index))

/-! ## The registers one by one -/

theorem xchg_xchg (r : Register) : xchg (xchg r) = r := by
  unfold xchg
  apply BitVec.eq_of_getLsbD_eq
  intro i hi
  simp
  grind

end Eflasher
end EcFlash
