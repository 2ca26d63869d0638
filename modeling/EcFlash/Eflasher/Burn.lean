import EcFlash.Eflasher.ProgMode

/-!
# What writing does to the flash

`burn` follows the loop of `writeMain2` on the contents of the flash alone, and
`wlp_writeMain2` shows that this is what the program does to the device.

When `SECTOR_SIZE` is the size of the sectors that the flash erases, `burn_eq` says
what comes out: the file from the start of the first sector on, `0xFF` behind its end
up to the end of the last sector written, and everything else as it was.
-/

namespace EcFlash
namespace Eflasher

open Reactive

/-- The flash after the bytes of a buffer are programmed one by one. -/
def programAll (mem : FlashAddr → Byte) : List Byte → Word → FlashAddr → Byte
  | [], _ => mem
  | byte :: buffer, address =>
      programAll (programmed mem (address.setWidth 24) byte) buffer (address + 1#32)

/-- The flash after `writeSector`. -/
def burnSector (granule : Nat) (mem : FlashAddr → Byte) (buffer : List Byte) (address : Word) :
    FlashAddr → Byte :=
  programAll (erased granule mem (address.setWidth 24)) buffer address

/-- The flash after the loop of `writeMain2`. -/
def burn (granule : Nat) (sector : SectorSize) (size i address : Word) (file : List Byte)
    (eof : Bool) (mem : FlashAddr → Byte) : FlashAddr → Byte :=
  if i < size ∧ eof = false then
    burn granule sector size (i + BitVec.ofNat 32 sector.bytes)
      (address + BitVec.ofNat 32 sector.bytes) (file.drop sector.bytes)
      (decide (file.length < sector.bytes))
      (burnSector granule mem (file.take sector.bytes) address)
  else mem
termination_by file.length + if eof then 0 else 1
decreasing_by
  rename_i hloop
  rw [hloop.2, if_neg Bool.false_ne_true]
  exact sector.left_lt file

theorem burn_of_loop {granule : Nat} {sector : SectorSize} {size i address : Word}
    {file : List Byte} {eof : Bool} {mem : FlashAddr → Byte} (hloop : i < size ∧ eof = false) :
    burn granule sector size i address file eof mem =
      burn granule sector size (i + BitVec.ofNat 32 sector.bytes)
        (address + BitVec.ofNat 32 sector.bytes) (file.drop sector.bytes)
        (decide (file.length < sector.bytes))
        (burnSector granule mem (file.take sector.bytes) address) := by
  rw [burn, if_pos hloop]

theorem burn_of_done {granule : Nat} {sector : SectorSize} {size i address : Word}
    {file : List Byte} {eof : Bool} {mem : FlashAddr → Byte} (hdone : ¬(i < size ∧ eof = false)) :
    burn granule sector size i address file eof mem = mem := by
  rw [burn, if_neg hdone]

/-- `address &= ~(SECTOR_SIZE - 1);` -/
def alignedAddress (sector : SectorSize) (address : Word) : Word :=
  address &&& ~~~(BitVec.ofNat 32 sector.bytes - 1#32)

/-! ## The program does this to the device -/

section Write

variable {p : Ports} {granule : Nat} {d d' : Device} {Q : Unit → Device → Prop}

/-- Writing is enabled, and the flash idle again. -/
theorem wlp_writeEnable (hen : d.Enabled) (k : Io Unit)
    (h : ∀ d', d'.regs = d.regs → d'.writeEnabled = true → d'.idle = true → d'.mem = d.mem →
      d'.file = d.file → (contract p granule).wlp k Q d') :
    (contract p granule).wlp (do
      ecWaitForSPI p
      ecSendSPICommand p wren
      ecWaitForSPI p
      k) Q d := by
  have hsent : d.waited.sent granule wren =
      { d.waited.select spiCmd with writeEnabled := true, idle := false } := by
    rw [Device.sent, Device.command_wren (d := d.waited.select spiCmd) hen]
  apply Contract.wlp_bind
  apply wlp_ecWaitForSPI
  apply Contract.wlp_bind
  apply wlp_ecSendSPICommand rfl
  rw [hsent]
  apply Contract.wlp_bind
  apply wlp_ecWaitForSPI
  exact h _ rfl rfl rfl rfl rfl

/-- One byte is programmed. -/
theorem wlp_programByte (hen : d.Enabled) (address : Word) (byte : Byte) (k : Io Unit)
    (h : ∀ d', SameRegs d d' → d'.mem = programmed d.mem (address.setWidth 24) byte →
      d'.file = d.file → (contract p granule).wlp k Q d') :
    (contract p granule).wlp (do
      ecWaitForSPI p
      ecSendSPICommand p wren
      ecWaitForSPI p
      ecSelectSPIAddress p address
      ecWriteByte p spiData byte
      ecSendSPICommand p write
      k) Q d := by
  apply wlp_writeEnable hen
  intro d' hregs hw hidle hmem hfile
  let da := d'.addressed address
  let db := da.write spiData byte
  have hda : SameRegs d da := fun r hr =>
    (Device.regs_addressed address hr).trans (congrFun hregs r)
  have hdb : SameRegs d db := by
    intro r hr
    have hr' : r ≠ spiData := by
      rintro rfl
      simp [Register.isFlash] at hr
    exact (Device.regs_write_of_ne hr').trans (hda r hr)
  have hsent : db.sent granule write = { db.select spiCmd with
      mem := programmed d.mem (address.setWidth 24) byte, writeEnabled := false,
      idle := false } := by
    have haddress : (db.select spiCmd).address = address.setWidth 24 :=
      Device.address_addressed (d := d') address
    have hdata : (db.select spiCmd).regs spiData = byte :=
      (Device.regs_write_self (d := da) (r := spiData)).trans (stored_of_ne byte (by decide))
    rw [Device.sent, Device.command_write (d := db.select spiCmd) (hdb.enabled hen) hw, haddress,
      hdata, ← hmem]
    rfl
  apply Contract.wlp_bind
  apply wlp_ecSelectSPIAddress address hidle
  apply Contract.wlp_bind
  apply wlp_ecWriteByte (d := da) (by decide) (.inr hidle)
  apply Contract.wlp_bind
  apply wlp_ecSendSPICommand (d := db) hidle
  rw [hsent]
  exact h _ hdb rfl hfile

theorem wlp_programLoop {buffer : List Byte} {address : Word} (hen : d.Enabled)
    (h : ∀ d', SameRegs d d' → d'.mem = programAll d.mem buffer address → d'.file = d.file →
      Q () d') :
    (contract p granule).wlp (programLoop p buffer address) Q d := by
  induction buffer generalizing d address with
  | nil => exact h d (.refl d) rfl rfl
  | cons byte buffer ih =>
      apply wlp_programByte hen
      intro d' hregs hmem hfile
      apply ih (hregs.enabled hen)
      intro d'' hregs' hmem' hfile'
      refine h d'' (hregs.trans hregs') ?_ (hfile'.trans hfile)
      rw [hmem', hmem]
      rfl

theorem wlp_writeSector {buffer : List Byte} {address : Word} (hen : d.Enabled)
    (h : ∀ d', SameRegs d d' → d'.mem = burnSector granule d.mem buffer address →
      d'.file = d.file → Q () d') :
    (contract p granule).wlp (writeSector p buffer address) Q d := by
  apply wlp_writeEnable hen
  intro d' hregs hw hidle hmem hfile
  let da := d'.addressed address
  have hda : SameRegs d da := fun r hr =>
    (Device.regs_addressed address hr).trans (congrFun hregs r)
  have hsent : da.sent granule sectorErase = { da.select spiCmd with
      mem := erased granule d.mem (address.setWidth 24), writeEnabled := false,
      idle := false } := by
    have haddress : (da.select spiCmd).address = address.setWidth 24 :=
      Device.address_addressed (d := d') address
    rw [Device.sent, Device.command_sectorErase (d := da.select spiCmd) (hda.enabled hen) hw,
      haddress, ← hmem]
    rfl
  apply Contract.wlp_bind
  apply wlp_ecSelectSPIAddress address hidle
  apply Contract.wlp_bind
  apply wlp_ecSendSPICommand (d := da) hidle
  rw [hsent]
  apply Contract.wlp_bind
  apply wlp_programLoop
  · exact hda.enabled hen
  intro d1 hregs1 hmem1 hfile1
  have hd1 : SameRegs d d1 := hda.trans hregs1
  apply Contract.wlp_bind
  apply wlp_ecWaitForSPI
  apply wlp_ecSendSPICommand rfl
  rw [Device.sent, Device.command_wrdsbl (d := d1.waited.select spiCmd) (hd1.enabled hen)]
  exact h _ hd1 hmem1 (hfile1.trans hfile)

theorem wlp_writeLoop {sector : SectorSize} {size i address : Word} {file : List Byte} {eof : Bool}
    (hen : d.Enabled)
    (h : ∀ d', SameRegs d d' → d'.mem = burn granule sector size i address file eof d.mem →
      d'.file = d.file → Q () d') :
    (contract p granule).wlp (writeLoop p sector size i address file eof) Q d := by
  induction i, address, file, eof using writeLoop.induct sector size generalizing d with
  | case1 i address file eof hloop ih =>
      rw [writeLoop, if_pos hloop]
      apply Contract.wlp_bind
      apply wlp_writeSector hen
      intro d' hregs hmem hfile
      apply ih (hregs.enabled hen)
      intro d'' hregs' hmem' hfile'
      refine h d'' (hregs.trans hregs') ?_ (hfile'.trans hfile)
      rw [hmem', hmem, ← burn_of_loop hloop]
  | case2 i address file eof hdone =>
      rw [writeLoop, if_neg hdone]
      refine h d (.refl d) ?_ rfl
      rw [burn_of_done hdone]

theorem wlp_writeMain2 {sector : SectorSize} {address size : Word} {file : List Byte}
    (h : ∀ d', Restored d d' → d'.mem = burn granule sector (defaultSize size) 0#32
      (alignedAddress sector address) file false d.mem → d'.file = d.file → Q () d') :
    (contract p granule).wlp (writeMain2 p sector address size file) Q d := by
  apply Contract.wlp_bind
  apply wlp_ecEnterProgMode
  intro state d1 hsaved hprog hmem1 hfile1
  apply Contract.wlp_bind
  apply wlp_ecEnableSPI
  intro d2 hen hregs2 hmem2 hfile2
  apply Contract.wlp_bind
  apply wlp_writeLoop hen
  intro d3 hregs3 hmem3 hfile3
  apply Contract.wlp_bind
  apply wlp_ecDisableSPI
  intro d4 hregs4 hmem4 hfile4
  have hprog4 : Programming d d4 := by
    apply hprog.congr
    intro r hr hspi
    rw [hregs4 r hspi, hregs3 r hr, hregs2 r hspi]
  apply wlp_ecExitProgMode hsaved hprog4
  intro d' hrestored hmem' hfile'
  refine h d' hrestored ?_ ?_
  · rw [hmem', hmem4, hmem3, hmem2, hmem1]
    rfl
  · rw [hfile', hfile4, hfile3, hfile2, hfile1]

end Write

/-! ## What comes out -/

/-- The number of sectors that are written of a file of `length` bytes. -/
def sectorCount (sector : SectorSize) (size length : Nat) : Nat :=
  min ((size + sector.bytes - 1) / sector.bytes) (length / sector.bytes + 1)

/-- The flash with `n` sectors from `start` on replaced by the file, filled up with
`0xFF`. -/
def replaced (sector : SectorSize) (mem : FlashAddr → Byte) (start n : Nat) (file : List Byte) :
    FlashAddr → Byte :=
  fun x =>
    if start ≤ x.toNat ∧ x.toNat < start + n * sector.bytes then file.getD (x.toNat - start) 0xFF#8
    else mem x

section Result

variable {sector : SectorSize} {mem : FlashAddr → Byte} {buffer file : List Byte}
  {size i address : Word} {eof : Bool}

theorem toNat_setWidth_of_lt (h : address.toNat < 2 ^ 24) :
    (address.setWidth 24).toNat = address.toNat := by
  rw [BitVec.toNat_setWidth, Nat.mod_eq_of_lt h]

theorem toNat_add_bytes (h : address.toNat + sector.bytes ≤ 2 ^ 24) :
    (address + BitVec.ofNat 32 sector.bytes).toNat = address.toNat + sector.bytes := by
  rw [BitVec.toNat_add, BitVec.toNat_ofNat]
  omega

/-- The start of the sector around the address. -/
theorem toNat_alignedAddress :
    (alignedAddress sector address).toNat = address.toNat / sector.bytes * sector.bytes := by
  have hmask : BitVec.ofNat 32 sector.bytes - 1#32 = BitVec.ofNat 32 (2 ^ sector.pow - 1) := by
    have hle : 1 ≤ 2 ^ sector.pow := sector.bytes_pos
    rw [SectorSize.bytes, ← BitVec.ofNat_sub_ofNat_of_le _ _ (by decide) hle]
  unfold alignedAddress
  rw [hmask]
  apply Nat.eq_of_testBit_eq
  intro n
  unfold SectorSize.bytes
  rw [Nat.testBit_mul_two_pow, Nat.testBit_div_two_pow]
  show (address &&& ~~~BitVec.ofNat 32 (2 ^ sector.pow - 1)).getLsbD n = _
  rw [BitVec.getLsbD_and, BitVec.getLsbD_not, BitVec.getLsbD_ofNat, Nat.testBit_two_pow_sub_one]
  show (address.getLsbD n && _) = (_ && address.getLsbD (n - sector.pow + sector.pow))
  by_cases hk : sector.pow ≤ n
  · rw [Nat.sub_add_cancel hk]
    by_cases hn : n < 32
    · simp [hk, hn]
    · simp [hk, BitVec.getLsbD_of_ge _ _ (Nat.le_of_not_lt hn)]
  · have hlt := sector.lt
    have hn : n < 32 := by omega
    simp [hk, hn]
    omega

/-- Programming only clears bits. -/
theorem programAll_apply (hfit : address.toNat + buffer.length ≤ 2 ^ 24) (x : FlashAddr) :
    programAll mem buffer address x =
      if address.toNat ≤ x.toNat ∧ x.toNat < address.toNat + buffer.length then
        mem x &&& buffer.getD (x.toNat - address.toNat) 0#8
      else mem x := by
  induction buffer generalizing mem address with
  | nil => rw [programAll, if_neg (by simp)]
  | cons byte buffer ih =>
      rw [List.length_cons] at hfit ⊢
      have hnext : (address + 1#32).toNat = address.toNat + 1 := by bv_omega
      have hhere : x = address.setWidth 24 ↔ x.toNat = address.toNat := by
        rw [BitVec.toNat_eq, toNat_setWidth_of_lt (by omega)]
      rw [programAll, ih (by omega), hnext]
      by_cases hx : x.toNat = address.toNat
      · have hx' := hhere.mpr hx
        rw [if_neg (by omega), if_pos (by omega), programmed, ← hx', Function.update_self, hx,
          Nat.sub_self]
        rfl
      · have hx' := mt hhere.mp hx
        rw [programmed, Function.update_of_ne hx']
        split
        · rename_i hin
          obtain ⟨k, hk⟩ : ∃ k, x.toNat - address.toNat = k + 1 :=
            ⟨x.toNat - address.toNat - 1, by omega⟩
          rw [if_pos (by omega), hk, List.getD_cons_succ]
          congr 2
          omega
        · rw [if_neg (by omega)]

theorem burnSector_apply (haligned : sector.bytes ∣ address.toNat)
    (hlength : buffer.length ≤ sector.bytes) (hfit : address.toNat + sector.bytes ≤ 2 ^ 24)
    (x : FlashAddr) :
    burnSector sector.bytes mem buffer address x =
      replaced sector mem address.toNat 1 buffer x := by
  obtain ⟨k, hk⟩ := haligned
  have hpos := sector.bytes_pos
  have hsame : x.toNat / sector.bytes = (address.setWidth 24).toNat / sector.bytes ↔
      address.toNat ≤ x.toNat ∧ x.toNat < address.toNat + sector.bytes := by
    rw [toNat_setWidth_of_lt (by omega), hk, Nat.mul_div_cancel_left k hpos]
    rw [Nat.div_eq_iff hpos]
    constructor
    · rintro ⟨hle, hlt⟩
      rw [Nat.mul_comm]
      omega
    · rintro ⟨hle, hlt⟩
      rw [Nat.mul_comm] at hle hlt
      omega
  have hones : ∀ b : Byte, 0xFF#8 &&& b = b := fun b => BitVec.allOnes_and
  rw [burnSector, programAll_apply (by omega), replaced, Nat.one_mul]
  unfold erased
  by_cases hin : address.toNat ≤ x.toNat ∧ x.toNat < address.toNat + sector.bytes
  · rw [if_pos hin, if_pos (hsame.mpr hin)]
    split
    · rename_i hbyte
      have hlt : x.toNat - address.toNat < buffer.length := by omega
      simp [hones, hlt]
    · have hge : buffer.length ≤ x.toNat - address.toNat := by omega
      simp [hge]
  · rw [if_neg hin, if_neg (by omega), if_neg (mt hsame.mp hin)]

/-- One sector more. -/
theorem sectorCount_next {n length : Nat} (hn : 0 < n) (hlength : sector.bytes ≤ length) :
    sectorCount sector n length =
      sectorCount sector (n - sector.bytes) (length - sector.bytes) + 1 := by
  have hpos := sector.bytes_pos
  have hdiv : length / sector.bytes = (length - sector.bytes) / sector.bytes + 1 :=
    Nat.div_eq_sub_div hpos hlength
  have hceil : (n + sector.bytes - 1) / sector.bytes =
      (n - sector.bytes + sector.bytes - 1) / sector.bytes + 1 := by
    by_cases hle : sector.bytes ≤ n
    · rw [show n + sector.bytes - 1 = n - sector.bytes + sector.bytes - 1 + sector.bytes by omega,
        Nat.add_div_right _ hpos]
    · rw [show n + sector.bytes - 1 = n - 1 + sector.bytes by omega, Nat.add_div_right _ hpos,
        Nat.div_eq_of_lt (by omega), Nat.div_eq_of_lt (by omega)]
  rw [sectorCount, sectorCount, hdiv, hceil, ← Nat.add_min_add_right]

/-- A sector of the file, and the rest of the file behind it. -/
theorem replaced_replaced {start n : Nat} (x : FlashAddr) :
    replaced sector (replaced sector mem start 1 (file.take sector.bytes))
      (start + sector.bytes) n (file.drop sector.bytes) x =
    replaced sector mem start (n + 1) file x := by
  unfold replaced
  rw [Nat.one_mul, Nat.add_mul, Nat.one_mul]
  by_cases hrest : start + sector.bytes ≤ x.toNat
  · by_cases hin : x.toNat < start + sector.bytes + n * sector.bytes
    · have hindex : sector.bytes + (x.toNat - (start + sector.bytes)) = x.toNat - start := by omega
      rw [if_pos ⟨hrest, hin⟩, if_pos (by omega)]
      simp [hindex]
    · rw [if_neg (by omega), if_neg (by omega), if_neg (by omega)]
  · rw [if_neg (by omega)]
    by_cases hin : start ≤ x.toNat
    · have hlt : x.toNat - start < sector.bytes := by omega
      rw [if_pos (by omega), if_pos (by omega)]
      simp [hlt]
    · rw [if_neg (by omega), if_neg (by omega)]

/-- The whole loop, when the sectors are the flash's own and all lie in it. -/
theorem burn_apply (hi : i.toNat ≤ address.toNat) (haligned : sector.bytes ∣ address.toNat)
    (hfit : address.toNat +
      sectorCount sector (size.toNat - i.toNat) file.length * sector.bytes ≤ 2 ^ 24)
    (heof : eof = false) (x : FlashAddr) :
    burn sector.bytes sector size i address file eof mem x =
      replaced sector mem address.toNat (sectorCount sector (size.toNat - i.toNat) file.length)
        file x := by
  have hpos := sector.bytes_pos
  induction i, address, file, eof using writeLoop.induct sector size generalizing mem with
  | case2 i address file eof hdone =>
      have hle : size.toNat - i.toNat = 0 := by
        have hnot : ¬ i < size := fun hlt => hdone ⟨hlt, heof⟩
        have hle : size.toNat ≤ i.toNat := Nat.le_of_not_lt hnot
        omega
      have hzero : sectorCount sector 0 file.length = 0 := by
        rw [sectorCount, Nat.zero_add, Nat.div_eq_of_lt (by omega), Nat.zero_min]
      rw [burn_of_done hdone, hle, hzero, replaced, if_neg (by omega)]
  | case1 i address file eof hloop ih =>
      have hlt : i.toNat < size.toNat := hloop.1
      rw [burn_of_loop hloop]
      by_cases hshort : file.length < sector.bytes
      · -- The file ends in this sector, and so does the loop.
        have hone : sectorCount sector (size.toNat - i.toNat) file.length = 1 := by
          have hceil : 1 ≤ (size.toNat - i.toNat + sector.bytes - 1) / sector.bytes := by
            rw [Nat.le_div_iff_mul_le hpos]
            omega
          rw [sectorCount, Nat.div_eq_of_lt hshort]
          omega
        rw [hone] at hfit ⊢
        rw [burn_of_done (by simp [hshort]), List.take_of_length_le (Nat.le_of_lt hshort)]
        exact burnSector_apply haligned (Nat.le_of_lt hshort) (by omega) x
      · -- A whole sector, and the rest of the loop behind it.
        have hcount := sectorCount_next (n := size.toNat - i.toNat) (by omega)
          (Nat.le_of_not_lt hshort)
        rw [hcount, Nat.add_mul, Nat.one_mul] at hfit
        have hnext : (address + BitVec.ofNat 32 sector.bytes).toNat =
            address.toNat + sector.bytes := toNat_add_bytes (by omega)
        have hinext : (i + BitVec.ofNat 32 sector.bytes).toNat = i.toNat + sector.bytes :=
          toNat_add_bytes (by omega)
        have hleft : size.toNat - (i + BitVec.ofNat 32 sector.bytes).toNat =
            size.toNat - i.toNat - sector.bytes := by omega
        have hlength : (file.drop sector.bytes).length = file.length - sector.bytes :=
          List.length_drop
        have hsector : burnSector sector.bytes mem (file.take sector.bytes) address =
            replaced sector mem address.toNat 1 (file.take sector.bytes) :=
          funext (burnSector_apply haligned (List.length_take_le ..) (by omega))
        rw [ih (by omega) (hnext ▸ Nat.dvd_add haligned (Nat.dvd_refl _))
          (by rw [hleft, hlength, hnext]; omega) (by simpa using hshort), hleft, hlength, hnext,
          hsector, replaced_replaced, hcount]

end Result

/-- `writeMain2` replaces whole sectors by the file. -/
theorem wlp_writeMain2_replaced (p : Ports) (d : Device) (sector : SectorSize)
    (address size : Word) (file : List Byte)
    (hfit : address.toNat / sector.bytes * sector.bytes +
      sectorCount sector (defaultSize size).toNat file.length * sector.bytes ≤ 2 ^ 24) :
    (contract p sector.bytes).wlp (writeMain2 p sector address size file)
      (fun _ d' => Restored d d' ∧ d'.file = d.file ∧
        d'.mem = replaced sector d.mem (address.toNat / sector.bytes * sector.bytes)
          (sectorCount sector (defaultSize size).toNat file.length) file) d := by
  apply wlp_writeMain2
  intro d' hregs hmem hfile
  refine ⟨hregs, hfile, hmem.trans (funext fun x => ?_)⟩
  have hburn : burn sector.bytes sector (defaultSize size) 0#32 (alignedAddress sector address)
      file false d.mem x = replaced sector d.mem (alignedAddress sector address).toNat
        (sectorCount sector (defaultSize size).toNat file.length) file x :=
    burn_apply (Nat.zero_le _) (toNat_alignedAddress ▸ Nat.dvd_mul_left ..)
      (by rw [toNat_alignedAddress]; exact hfit) rfl x
  rwa [toNat_alignedAddress] at hburn

end Eflasher
end EcFlash
