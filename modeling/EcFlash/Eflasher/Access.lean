import EcFlash.Eflasher.Device
import EcFlash.Eflasher.Main

/-!
# What each access does to the device

One rule for each function of `ECFUNC.C`, under the contract with the device: the
state it leaves is a function of the state before, whatever the flash answers while
it is waited for.
-/

namespace EcFlash
namespace Eflasher

open Reactive

namespace Device

variable {d : Device} {r r' : Register} {v : Byte} {granule : Nat}

/-- Select a register and store a byte in it. -/
def write (d : Device) (r : Register) (v : Byte) : Device :=
  (d.select r).store r v

/-- Wait until the flash is idle. -/
def waited (d : Device) : Device :=
  { d.select spiCfg with idle := true }

/-- Put an address into the address registers. -/
def addressed (d : Device) (a : Word) : Device :=
  ((d.write spiAddr0 (a.setWidth 8)).write spiAddr1 ((a >>> 8).setWidth 8)).write spiAddr2
    ((a >>> 16).setWidth 8)

/-- Append to the file. -/
def wrote (d : Device) (bytes : List Byte) : Device :=
  { d with file := d.file ++ bytes }

/-- Send a command to the flash. -/
def sent (granule : Nat) (d : Device) (c : Byte) : Device :=
  { (d.select spiCmd).command granule c with idle := false }

@[simp] theorem index_select : (d.select r).index = r := rfl
@[simp] theorem regs_select : (d.select r).regs = d.regs := rfl
@[simp] theorem mem_select : (d.select r).mem = d.mem := rfl
@[simp] theorem writeEnabled_select : (d.select r).writeEnabled = d.writeEnabled := rfl
@[simp] theorem idle_select : (d.select r).idle = d.idle := rfl
@[simp] theorem file_select : (d.select r).file = d.file := rfl

theorem regs_store_self : (d.store r v).regs r = stored r v :=
  Function.update_self ..

theorem regs_store_of_ne (h : r' ≠ r) : (d.store r v).regs r' = d.regs r' :=
  Function.update_of_ne h ..

theorem regs_write_self : (d.write r v).regs r = stored r v :=
  regs_store_self

theorem regs_write_of_ne (h : r' ≠ r) : (d.write r v).regs r' = d.regs r' :=
  regs_store_of_ne h

@[simp] theorem regs_write : (d.write r v).regs = Function.update d.regs r (stored r v) := rfl
@[simp] theorem mem_write : (d.write r v).mem = d.mem := rfl
@[simp] theorem writeEnabled_write : (d.write r v).writeEnabled = d.writeEnabled := rfl
@[simp] theorem idle_write : (d.write r v).idle = d.idle := rfl
@[simp] theorem file_write : (d.write r v).file = d.file := rfl

@[simp] theorem regs_waited : d.waited.regs = d.regs := rfl
@[simp] theorem mem_waited : d.waited.mem = d.mem := rfl
@[simp] theorem writeEnabled_waited : d.waited.writeEnabled = d.writeEnabled := rfl
@[simp] theorem idle_waited : d.waited.idle = true := rfl
@[simp] theorem file_waited : d.waited.file = d.file := rfl

@[simp] theorem mem_addressed (a : Word) : (d.addressed a).mem = d.mem := rfl
@[simp] theorem writeEnabled_addressed (a : Word) :
    (d.addressed a).writeEnabled = d.writeEnabled := rfl
@[simp] theorem idle_addressed (a : Word) : (d.addressed a).idle = d.idle := rfl
@[simp] theorem file_addressed (a : Word) : (d.addressed a).file = d.file := rfl

@[simp] theorem address_addressed (a : Word) : (d.addressed a).address = a.setWidth 24 := by
  have h01 : spiAddr0 ≠ spiAddr1 := by decide
  have h02 : spiAddr0 ≠ spiAddr2 := by decide
  have h12 : spiAddr1 ≠ spiAddr2 := by decide
  have h0 : spiAddr0 ≠ spiCfg := by decide
  have h1 : spiAddr1 ≠ spiCfg := by decide
  have h2 : spiAddr2 ≠ spiCfg := by decide
  simp only [address, addressed, regs_write, Function.update_self, Function.update_of_ne h01,
    Function.update_of_ne h02, Function.update_of_ne h12, stored, h0, h1, h2, if_false]
  apply BitVec.eq_of_getLsbD_eq
  intro i hi
  simp
  grind

/-- The registers that are not the flash's keep their contents. -/
theorem regs_addressed (a : Word) (hr : r.isFlash = false) : (d.addressed a).regs r = d.regs r := by
  have h0 : r ≠ spiAddr0 := by
    rintro rfl
    simp [Register.isFlash] at hr
  have h1 : r ≠ spiAddr1 := by
    rintro rfl
    simp [Register.isFlash] at hr
  have h2 : r ≠ spiAddr2 := by
    rintro rfl
    simp [Register.isFlash] at hr
  simp [addressed, Function.update_of_ne h0, Function.update_of_ne h1, Function.update_of_ne h2]

/-- The command register is enabled. -/
def Enabled (d : Device) : Prop :=
  d.regs spiCfg &&& spiCmdEn ≠ 0#8

theorem command_wren (h : d.Enabled) :
    d.command granule wren = { d with writeEnabled := true } := by
  simp [command, if_neg h]

theorem command_wrdsbl (h : d.Enabled) :
    d.command granule wrdsbl = { d with writeEnabled := false } := by
  simp [command, if_neg h, wren, wrdsbl]

theorem command_sectorErase (h : d.Enabled) (hw : d.writeEnabled = true) :
    d.command granule sectorErase =
      { d with mem := erased granule d.mem d.address, writeEnabled := false } := by
  simp [command, if_neg h, wren, wrdsbl, sectorErase, modify, hw]

theorem command_write (h : d.Enabled) (hw : d.writeEnabled = true) :
    d.command granule Eflasher.write =
      { d with mem := programmed d.mem d.address (d.regs spiData), writeEnabled := false } := by
  simp [command, if_neg h, wren, wrdsbl, sectorErase, Eflasher.write, modify, hw]

theorem command_fread (h : d.Enabled) :
    d.command granule fread = d.store spiData (d.mem d.address) := by
  simp [command, if_neg h, wren, wrdsbl, sectorErase, Eflasher.write, fread]

theorem dataOut_of_eq (hr : d.index = spiCmd) :
    d.dataOut granule v = { d.command granule v with idle := false } := if_pos hr

theorem dataOut_of_ne (hr : d.index ≠ spiCmd) : d.dataOut granule v = d.store d.index v :=
  if_neg hr

end Device

section Rules

variable {p : Ports} {granule : Nat} {rely : Device → Port → Byte → Prop} {d : Device}
  {r : Register} {v : Byte} {Q : Unit → Device → Prop}

/-! Writing and waiting rely on no answer. -/

theorem wlp_ecSelectAddress (h : Q () (d.select r)) :
    ((contract p granule).relying rely).wlp (ecSelectAddress p r) Q d := by
  refine ⟨rfl, ?_⟩
  show Q () (if p.addressPortHigh = p.addressPortHigh then d.select (xchg (xchg r)) else d)
  rwa [if_pos rfl, xchg_xchg]

/-- The flash's registers are free while it is idle, and the others always. -/
def Free (r : Register) (d : Device) : Prop :=
  r.isFlash = false ∨ d.idle = true

theorem Free.idle (h : Free r d) (hr : r.isFlash = true) : d.idle = true :=
  h.resolve_left (by simp [hr])

theorem wlp_ecWriteByteNA (hi : d.index = r) (hfree : Free r d)
    (h : Q () (d.dataOut granule v)) :
    ((contract p granule).relying rely).wlp (ecWriteByteNA p v) Q d := by
  refine ⟨⟨rfl, hi ▸ hfree.idle⟩, ?_⟩
  show Q () (if p.dataPort = p.dataPort then d.dataOut granule v else d)
  rwa [if_pos rfl]

/-- A write to any register but the command register. -/
theorem wlp_ecWriteByte (hr : r ≠ spiCmd) (hfree : Free r d) (h : Q () (d.write r v)) :
    ((contract p granule).relying rely).wlp (ecWriteByte p r v) Q d := by
  apply Contract.wlp_bind
  apply wlp_ecSelectAddress
  apply wlp_ecWriteByteNA (d := d.select r) (r := r) rfl hfree
  rw [Device.dataOut_of_ne hr]
  exact h

theorem wlp_ecSendSPICommand (hidle : d.idle = true) (h : Q () (d.sent granule v)) :
    ((contract p granule).relying rely).wlp (ecSendSPICommand p v) Q d := by
  apply Contract.wlp_bind
  apply wlp_ecSelectAddress
  apply wlp_ecWriteByteNA (d := d.select spiCmd) (r := spiCmd) rfl (.inr hidle)
  rw [Device.dataOut_of_eq rfl]
  exact h

theorem wlp_ecWaitForSPI (h : Q () d.waited) :
    ((contract p granule).relying rely).wlp (ecWaitForSPI p) Q d := by
  apply Contract.wlp_bind
  apply wlp_ecSelectAddress
  -- Only the idle flag changes while the flash is busy.
  apply Contract.wlp_await fun d' => ∃ idle, d' = { d.select spiCfg with idle }
  · exact ⟨d.idle, rfl⟩
  · rintro d' a ⟨idle, rfl⟩ -
    refine ⟨⟨rfl, by simp [Register.isFlash, spiCfg, spiAddr0, spiAddr1, spiAddr2, spiData,
      spiCmd]⟩, ?_⟩
    have hobserve : Device.observe p granule { d.select spiCfg with idle } (.call p.dataPort a) =
        { d.select spiCfg with idle := a &&& spiBusy = 0#8 } := by
      simp [Device.observe]
    by_cases hbusy : a &&& spiBusy = 0#8
    · rw [if_neg (by simpa using hbusy)]
      show Q () (Device.observe p granule { d.select spiCfg with idle } (.call p.dataPort a))
      rw [hobserve, hbusy]
      exact h
    · rw [if_pos (by simpa using hbusy)]
      exact ⟨_, hobserve⟩

theorem wlp_ecSelectSPIAddress (a : Word) (hidle : d.idle = true) (h : Q () (d.addressed a)) :
    ((contract p granule).relying rely).wlp (ecSelectSPIAddress p a) Q d := by
  let d0 := d.write spiAddr0 (a.setWidth 8)
  let d1 := d0.write spiAddr1 ((a >>> 8).setWidth 8)
  apply Contract.wlp_bind
  apply wlp_ecWriteByte (by decide) (.inr hidle)
  apply Contract.wlp_bind
  apply wlp_ecWriteByte (d := d0) (by decide) (.inr hidle)
  exact wlp_ecWriteByte (d := d1) (by decide) (.inr hidle) h

/-- Writing to the file leaves the device alone. -/
theorem wlp_fwrite {bytes : List Byte} (h : Q () (d.wrote bytes)) :
    ((contract p granule).relying rely).wlp (.put (.fwrite bytes)) Q d :=
  ⟨trivial, h⟩

/-- Whatever is answered, at most the idle flag changes. -/
theorem wlp_anyAnswer {Q : Byte → Device → Prop} (hfree : Free d.index d)
    (h : ∀ a idle, (d.index ≠ spiCfg → idle = d.idle) → Q a { d with idle }) :
    ((contract p granule).relying rely).wlp (ecReadByteNA p) Q d := by
  intro a _
  refine ⟨⟨rfl, hfree.idle⟩, ?_⟩
  show Q a (if p.dataPort = p.dataPort ∧ d.index = spiCfg then
    { d with idle := a &&& spiBusy = 0#8 } else d)
  by_cases hr : d.index = spiCfg
  · rw [if_pos ⟨rfl, hr⟩]
    exact h a _ fun hne => absurd hr hne
  · rw [if_neg fun hand => hr hand.2]
    exact h a d.idle fun _ => rfl

/-! What a register holds is read back only when the device answers as it stores. -/

/-- A register other than the configuration of the flash reads as it is stored. -/
theorem wlp_ecReadByteNA {Q : Byte → Device → Prop} (hi : d.index = r) (hr : r ≠ spiCfg)
    (hfree : Free r d) (h : Q (d.regs r) d) :
    (contract p granule).wlp (ecReadByteNA p) Q d := by
  subst hi
  intro a ha
  refine ⟨⟨rfl, hfree.idle⟩, ?_⟩
  have hread := ha rfl
  rw [if_neg hr] at hread
  show Q a (if p.dataPort = p.dataPort ∧ d.index = spiCfg then _ else d)
  rw [if_neg (by simp [hr]), hread]
  exact h

/-- The configuration reads with any busy bit. -/
theorem wlp_readSpiCfg {Q : Byte → Device → Prop} (hr : d.index = spiCfg)
    (h : ∀ a idle, a &&& ~~~spiBusy = d.regs spiCfg → Q a { d with idle }) :
    (contract p granule).wlp (ecReadByteNA p) Q d := by
  intro a ha
  refine ⟨⟨rfl, by simp [hr, Register.isFlash, spiCfg, spiAddr0, spiAddr1, spiAddr2, spiData,
    spiCmd]⟩, ?_⟩
  have hread := ha rfl
  rw [if_pos hr, hr] at hread
  show Q a (if p.dataPort = p.dataPort ∧ d.index = spiCfg then
    { d with idle := a &&& spiBusy = 0#8 } else d)
  rw [if_pos ⟨rfl, hr⟩]
  exact h a _ hread

/-- Reading a register of the idle flash. -/
theorem wlp_ecReadByte {Q : Byte → Device → Prop} (hr : r ≠ spiCfg) (hidle : d.idle = true)
    (h : Q (d.regs r) (d.select r)) : (contract p granule).wlp (ecReadByte p r) Q d := by
  apply Contract.wlp_bind
  apply wlp_ecSelectAddress
  exact wlp_ecReadByteNA (d := d.select r) rfl hr (.inr hidle) h

end Rules

end Eflasher
end EcFlash
