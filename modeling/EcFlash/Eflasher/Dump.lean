import EcFlash.Eflasher.ProgMode

/-!
# What reading the flash writes to the file

The loop of `readMain2` counts `i` up only when the buffer is not full, because the
two increments are joined by `||`.  The last byte of every full buffer is therefore
read a second time, as the first of the next one: byte `n` of the file comes from
address `n - n / 4096`, and the file is longer than the flash.
-/

namespace EcFlash
namespace Eflasher

open Reactive

/-- The address that byte `n` of the file is read from. -/
def dumpAddress (n : Nat) : Nat := n - n / bufferSize

/-- The number of bytes in the file for `size` bytes of flash. -/
def dumpLength (size : Nat) : Nat := size + (size - 1) / (bufferSize - 1)

/-- The first `n` bytes of the file. -/
def dump (mem : FlashAddr → Byte) (n : Nat) : List Byte :=
  (List.range n).map fun m => mem (BitVec.ofNat 24 (dumpAddress m))

theorem dump_succ (mem : FlashAddr → Byte) (n : Nat) :
    dump mem (n + 1) = dump mem n ++ [mem (BitVec.ofNat 24 (dumpAddress n))] := by
  rw [dump, List.range_succ, List.map_append]
  rfl

@[simp] theorem length_dump (mem : FlashAddr → Byte) (n : Nat) : (dump mem n).length = n := by
  simp [dump]

theorem dumpAddress_full {n : Nat} (hfull : n % bufferSize + 1 = bufferSize) :
    dumpAddress (n + 1) = dumpAddress n := by
  unfold dumpAddress bufferSize at *
  omega

theorem dumpAddress_next {n : Nat} (hroom : n % bufferSize + 1 < bufferSize) :
    dumpAddress (n + 1) = dumpAddress n + 1 := by
  unfold dumpAddress bufferSize at *
  omega

/-- The last byte of the flash is reached with room in the buffer. -/
theorem eq_dumpLength {n size : Nat} (hroom : n % bufferSize + 1 < bufferSize)
    (hlast : dumpAddress n + 1 = size) : n + 1 = dumpLength size := by
  unfold dumpAddress dumpLength bufferSize at *
  omega

section Read

variable {p : Ports} {granule : Nat} {d d' : Device} {Q : Unit → Device → Prop}

/-- What one byte of the flash takes, and leaves: the byte at the address is read. -/
theorem wlp_readByteAt (hen : d.Enabled) (i : Word) (k : Byte → Io Unit)
    (h : ∀ d', SameRegs d d' → d'.mem = d.mem → d'.file = d.file →
      (contract p granule).wlp (k (d.mem (i.setWidth 24))) Q d') :
    (contract p granule).wlp (do
      ecWaitForSPI p
      ecSelectSPIAddress p i
      ecSendSPICommand p fread
      ecWaitForSPI p
      let byte ← ecReadByte p spiData
      k byte) Q d := by
  let da := d.waited.addressed i
  have hregs : SameRegs d da := fun r hr => Device.regs_addressed i hr
  let db := (da.select spiCmd).store spiData (d.mem (i.setWidth 24))
  have hsent : da.sent granule fread = { db with idle := false } := by
    have haddress : (da.select spiCmd).address = i.setWidth 24 :=
      Device.address_addressed (d := d.waited) i
    rw [Device.sent, Device.command_fread (d := da.select spiCmd) (hregs.enabled hen), haddress]
    rfl
  have hbyte : db.regs spiData = d.mem (i.setWidth 24) :=
    Device.regs_store_self.trans (stored_of_ne _ (by decide))
  apply Contract.wlp_bind
  apply wlp_ecWaitForSPI
  apply Contract.wlp_bind
  apply wlp_ecSelectSPIAddress i rfl
  apply Contract.wlp_bind
  apply wlp_ecSendSPICommand (d := da) rfl
  rw [hsent]
  apply Contract.wlp_bind
  apply wlp_ecWaitForSPI
  apply Contract.wlp_bind
  apply wlp_ecReadByte (by decide) rfl
  rw [Device.regs_waited]
  show (contract p granule).wlp (k (db.regs spiData)) Q _
  rw [hbyte]
  refine h _ (fun r hr => ?_) rfl rfl
  have hr' : r ≠ spiData := by
    rintro rfl
    simp [Register.isFlash] at hr
  exact (Device.regs_store_of_ne hr').trans (hregs r hr)

/-- The loop from byte `n` of the file on.  What it has written and the buffer are the
first `n` bytes of the file, of which the buffer holds the last. -/
theorem wlp_readLoop {size i : Word} {buffer file : List Byte} {n : Nat} (hen : d.Enabled)
    (hi : i.toNat = dumpAddress n) (hlt : i < size) (hbuffer : buffer.length = n % bufferSize)
    (hfile : d.file ++ buffer = file ++ dump d.mem n)
    (h : ∀ d', SameRegs d d' → d'.mem = d.mem →
      d'.file = file ++ dump d.mem (dumpLength size.toNat) → Q () d') :
    (contract p granule).wlp (readLoop p size i buffer) Q d := by
  induction i, buffer using readLoop.induct size generalizing d n with
  | case2 i buffer hdone => exact absurd hlt hdone
  | case1 i buffer _ ihFull _ ihNext =>
      rw [readLoop, if_pos hlt]
      apply wlp_readByteAt hen
      intro d' hregs hmem hfile'
      have hbyte : d.mem (i.setWidth 24) = d.mem (BitVec.ofNat 24 (dumpAddress n)) := by
        rw [← hi]
        rfl
      have hwritten : d'.file ++ (buffer ++ [d.mem (i.setWidth 24)]) =
          file ++ dump d.mem (n + 1) := by
        rw [hfile', ← List.append_assoc, hfile, dump_succ, hbyte, List.append_assoc]
      have hmod : n % bufferSize < bufferSize := Nat.mod_lt _ (by decide)
      have hsize : i.toNat < size.toNat := hlt
      have hnext : (i + 1#32).toNat = i.toNat + 1 := by bv_omega
      split
      · -- A full buffer: `i` stays, and its byte is read again.
        rename_i hfull
        rw [hbuffer] at hfull
        apply Contract.wlp_bind
        apply wlp_fwrite
        apply ihFull (hbuffer ▸ hfull) (d := d'.wrote _) (n := n + 1)
        · exact hregs.enabled hen
        · rw [hi, dumpAddress_full (by omega)]
        · exact hlt
        · unfold bufferSize at *
          simp
          omega
        · rw [List.append_nil]
          show d'.file ++ _ = file ++ dump d'.mem (n + 1)
          rw [hmem, hwritten]
        · intro d'' hregs' hmem' hfile''
          exact h d'' (hregs.trans hregs') (hmem'.trans hmem) (hmem ▸ hfile'')
      · rename_i hroom
        rw [hbuffer] at hroom
        split
        · -- The last byte of the flash.
          rename_i hlast
          have hlast : size.toNat ≤ (i + 1#32).toNat := hlast
          apply Contract.wlp_bind
          apply wlp_fwrite
          rw [readLoop, if_neg (by bv_omega), Contract.wlp_pure]
          refine h _ hregs hmem ?_
          show d'.file ++ _ = _
          have hlength : n + 1 = dumpLength size.toNat := eq_dumpLength (by omega) (by omega)
          rw [hwritten, hlength]
        · rename_i hmore
          apply ihNext _ (n := n + 1) (hregs.enabled hen)
          · rw [hnext, hi, dumpAddress_next (by omega)]
          · exact BitVec.not_le.mp hmore
          · rw [List.length_append, hbuffer]
            unfold bufferSize at *
            simp
            omega
          · rw [hmem, hwritten]
          · intro d'' hregs' hmem' hfile''
            exact h d'' (hregs.trans hregs') (hmem'.trans hmem) (hmem ▸ hfile'')

theorem defaultSize_pos (size : Word) : 0#32 < defaultSize size := by
  unfold defaultSize flashSize
  split <;> bv_omega

theorem wlp_readMain2 (address size : Word) (h : ∀ d', Restored d d' → d'.mem = d.mem →
    d'.file = d.file ++ dump d.mem (dumpLength (defaultSize size).toNat) → Q () d') :
    (contract p granule).wlp (readMain2 p address size) Q d := by
  apply Contract.wlp_bind
  apply wlp_ecEnterProgMode
  intro state d1 hsaved hprog hmem1 hfile1
  apply Contract.wlp_bind
  apply wlp_ecEnableSPI
  intro d2 hen hregs2 hmem2 hfile2
  apply Contract.wlp_bind
  apply wlp_ecEnableDummyByte hen
  intro d3 hen hregs3 hmem3 hfile3
  have hmem : d3.mem = d.mem := hmem3.trans (hmem2.trans hmem1)
  have hfile : d3.file = d.file := hfile3.trans (hfile2.trans hfile1)
  apply Contract.wlp_bind
  apply wlp_readLoop (n := 0) hen rfl (defaultSize_pos size) rfl
  · rw [List.append_nil]
    exact (List.append_nil _).symm
  intro d4 hregs4 hmem4 hfile4
  apply Contract.wlp_bind
  apply wlp_ecDisableSPI
  intro d5 hregs5 hmem5 hfile5
  have hprog5 : Programming d d5 := by
    apply hprog.congr
    intro r hr hspi
    rw [hregs5 r hspi, hregs4 r hr, hregs3 r hspi, hregs2 r hspi]
  apply wlp_ecExitProgMode hsaved hprog5
  intro d' hrestored hmem' hfile'
  refine h d' hrestored ?_ ?_
  · rw [hmem', hmem5, hmem4, hmem]
  · rw [hfile', hfile5, hfile4, hfile, hmem]

/-- Every run of `readMain2` that ends leaves the flash as it was, and of the registers
changes only the fan control and those of the flash; it has appended the dump to the
file.  The address on the command line plays no part. -/
theorem readMain2_finished (p : Ports) (granule : Nat) (d : Device) (address size : Word)
    (answers : List Byte)
    (hanswers : (readMain2 p address size).machine.AllSteps
      ((contract p granule).Answers d) answers)
    (hend : ((readMain2 p address size).machine.run answers).state = .pure ()) :
    let d' := (contract p granule).after d ((readMain2 p address size).machine.run answers).trace
    Restored d d' ∧ d'.mem = d.mem ∧
      d'.file = d.file ++ dump d.mem (dumpLength (defaultSize size).toNat) := by
  have hwlp : (contract p granule).wlp (readMain2 p address size) (fun _ d' => Restored d d' ∧
      d'.mem = d.mem ∧ d'.file = d.file ++ dump d.mem (dumpLength (defaultSize size).toNat)) d :=
    wlp_readMain2 address size fun d' hregs hmem hfile => ⟨hregs, hmem, hfile⟩
  exact (Contract.run_sound hwlp answers hanswers).2 () hend

/-- `readMain2` for one byte. -/
def readOneByte (p : Ports) : Io Unit := do
  let oldState ← ecEnterProgMode p
  ecEnableSPI p
  ecEnableDummyByte p
  ecWaitForSPI p
  ecSelectSPIAddress p 0#32
  ecSendSPICommand p fread
  ecWaitForSPI p
  let byte ← ecReadByte p spiData
  .put (.fwrite [byte])
  ecDisableSPI p
  ecExitProgMode p oldState

theorem readLoop_single (p : Ports) : readLoop p 1#32 0#32 [] = (do
    ecWaitForSPI p
    ecSelectSPIAddress p 0#32
    ecSendSPICommand p fread
    ecWaitForSPI p
    let byte ← ecReadByte p spiData
    .put (.fwrite [byte])) := by
  have hone : ¬ bufferSize ≤ ([] : List Byte).length + 1 := by decide
  have hend : readLoop p 1#32 (0#32 + 1#32) [] = pure () := by
    rw [readLoop, if_neg (by decide)]
  have hlast : (1#32 : Word) ≤ 0#32 + 1#32 := by decide
  rw [readLoop, if_pos (by decide)]
  simp only [hone, hlast, if_true, if_false, hend]
  rfl

/-- Reading one byte: the registers answer in turn, and the flash is never busy. -/
def oneByteAnswers : List Byte :=
  [0#8, 0#8, 0#8, 0#8, 9#8, 13#8, 13#8, 0#8, 13#8]

theorem readMain2_finished_oneByte :
    let d' := (contract defaultPorts 4096).after blank
      ((readMain2 defaultPorts 0#32 1#32).machine.run oneByteAnswers).trace
    Restored blank d' ∧ d'.mem = blank.mem ∧
      d'.file = blank.file ++ dump blank.mem (dumpLength (defaultSize 1#32).toNat) := by
  have hprogram : readMain2 defaultPorts 0#32 1#32 = readOneByte defaultPorts := by
    unfold readMain2
    rw [show defaultSize 1#32 = 1#32 by decide, readLoop_single]
    rfl
  refine readMain2_finished defaultPorts 4096 blank 0#32 1#32 oneByteAnswers ?_ ?_
  · rw [hprogram]
    decide
  · rw [hprogram]
    rfl

end Read

end Eflasher
end EcFlash
