import EcFlash.Eflasher.Access

/-!
# Waiting is enough

The tool uses the registers of the flash only behind a wait that has seen the busy bit
clear, and behind every command it waits again.  So the flash is left alone while it may
be busy whatever the registers read as, even when they do not hold what was written.
-/

namespace EcFlash
namespace Eflasher

open Reactive

/-- Started in any state, `m` keeps the contract whatever is answered. -/
def Careful (p : Ports) (granule : Nat) {α : Type} (m : Io α) : Prop :=
  ∀ d, ((contract p granule).relying fun _ _ _ => True).wlp m (fun _ _ => True) d

section Careful

variable {p : Ports} {granule : Nat} {α β : Type}

theorem Careful.pure (x : α) : Careful p granule (pure x : Io α) := fun _ => trivial

theorem Careful.bind {m : Io α} {f : α → Io β} (hm : Careful p granule m)
    (hf : ∀ x, Careful p granule (f x)) : Careful p granule (m >>= f) := fun d =>
  Contract.wlp_bind (Contract.wlp_mono (hm d) fun x d' _ => hf x d')

/-- Registers that are not the flash's may be read and written at any time. -/
theorem careful_ecEnterProgMode : Careful p granule (ecEnterProgMode p) := by
  intro d
  apply Contract.wlp_bind
  apply wlp_ecSelectAddress
  apply Contract.wlp_bind
  apply wlp_anyAnswer (.inl rfl)
  intro pmuCfg _ _
  apply Contract.wlp_bind
  apply wlp_ecWriteByteNA rfl (.inl rfl)
  apply Contract.wlp_bind
  apply wlp_ecSelectAddress
  apply Contract.wlp_bind
  apply wlp_anyAnswer (.inl rfl)
  intro wdtCfg _ _
  apply Contract.wlp_bind
  apply wlp_ecWriteByteNA rfl (.inl rfl)
  apply Contract.wlp_bind
  apply wlp_ecSelectAddress
  apply Contract.wlp_bind
  apply wlp_anyAnswer (.inl rfl)
  intro spiCfg _ _
  apply Contract.wlp_bind
  exact wlp_ecWriteByte (by decide) (.inl rfl) trivial

theorem careful_ecExitProgMode (state : StateBackup) :
    Careful p granule (ecExitProgMode p state) := by
  intro d
  apply Contract.wlp_bind
  apply wlp_ecWriteByte (by decide) (.inl rfl)
  apply Contract.wlp_bind
  apply wlp_ecWriteByte (by decide) (.inl rfl)
  exact wlp_ecWriteByte (by decide) (.inl rfl) trivial

/-- Read the configuration, change it, and write it back. -/
theorem careful_updateSpiCfg (f : Byte → Byte) : Careful p granule (do
    ecSelectAddress p spiCfg
    let cfg ← ecReadByteNA p
    ecWriteByteNA p (f cfg)) := by
  intro d
  apply Contract.wlp_bind
  apply wlp_ecSelectAddress
  apply Contract.wlp_bind
  apply wlp_anyAnswer (.inl rfl)
  intro cfg _ _
  exact wlp_ecWriteByteNA rfl (.inl rfl) trivial

/-- Behind the write enable command the flash is idle again. -/
theorem careful_writeEnable {k : Io α} (hk : ∀ d : Device, d.idle = true →
    ((contract p granule).relying fun _ _ _ => True).wlp k (fun _ _ => True) d) :
    Careful p granule (do
      ecWaitForSPI p
      ecSendSPICommand p wren
      ecWaitForSPI p
      k) := by
  intro d
  apply Contract.wlp_bind
  apply wlp_ecWaitForSPI
  apply Contract.wlp_bind
  apply wlp_ecSendSPICommand rfl
  apply Contract.wlp_bind
  apply wlp_ecWaitForSPI
  exact hk _ rfl

theorem careful_programLoop (buffer : List Byte) (address : Word) :
    Careful p granule (programLoop p buffer address) := by
  induction buffer generalizing address with
  | nil => exact .pure ()
  | cons byte buffer ih =>
      apply careful_writeEnable
      intro d hidle
      apply Contract.wlp_bind
      apply wlp_ecSelectSPIAddress address hidle
      apply Contract.wlp_bind
      apply wlp_ecWriteByte (d := d.addressed address) (by decide) (.inr hidle)
      apply Contract.wlp_bind
      apply wlp_ecSendSPICommand (d := (d.addressed address).write spiData byte) hidle
      exact ih (address + 1#32) _

theorem careful_writeSector (buffer : List Byte) (address : Word) :
    Careful p granule (writeSector p buffer address) := by
  apply careful_writeEnable
  intro d hidle
  apply Contract.wlp_bind
  apply wlp_ecSelectSPIAddress address hidle
  apply Contract.wlp_bind
  apply wlp_ecSendSPICommand (d := d.addressed address) hidle
  refine (careful_programLoop buffer address).bind (fun _ d => ?_) _
  apply Contract.wlp_bind
  apply wlp_ecWaitForSPI
  exact wlp_ecSendSPICommand rfl trivial

theorem careful_writeLoop (sector : SectorSize) (size i address : Word) (file : List Byte)
    (eof : Bool) : Careful p granule (writeLoop p sector size i address file eof) := by
  induction i, address, file, eof using writeLoop.induct sector size with
  | case1 i address file eof hloop ih =>
      rw [writeLoop, if_pos hloop]
      exact (careful_writeSector _ address).bind fun _ => ih
  | case2 i address file eof hdone =>
      rw [writeLoop, if_neg hdone]
      exact .pure ()

/-- A byte of the flash is read between two waits and the next command. -/
theorem careful_readByte (i : Word) {k : Byte → Io α} (hk : ∀ byte, Careful p granule (k byte)) :
    Careful p granule (do
      ecWaitForSPI p
      ecSelectSPIAddress p i
      ecSendSPICommand p fread
      ecWaitForSPI p
      let byte ← ecReadByte p spiData
      k byte) := by
  intro d
  apply Contract.wlp_bind
  apply wlp_ecWaitForSPI
  apply Contract.wlp_bind
  apply wlp_ecSelectSPIAddress i rfl
  apply Contract.wlp_bind
  apply wlp_ecSendSPICommand rfl
  apply Contract.wlp_bind
  apply wlp_ecWaitForSPI
  apply Contract.wlp_bind
  apply Contract.wlp_bind
  apply wlp_ecSelectAddress
  apply wlp_anyAnswer (.inr rfl)
  exact fun byte _ _ => hk byte _

theorem careful_readLoop (size i : Word) (buffer : List Byte) :
    Careful p granule (readLoop p size i buffer) := by
  have hwrite (bytes : List Byte) : Careful p granule (.put (.fwrite bytes)) := fun _ =>
    wlp_fwrite trivial
  induction i, buffer using readLoop.induct size with
  | case2 i buffer hdone =>
      rw [readLoop, if_neg hdone]
      exact .pure ()
  | case1 i buffer hlt ihFull ihLast ihNext =>
      rw [readLoop, if_pos hlt]
      apply careful_readByte
      intro byte
      split
      · rename_i hfull
        exact (hwrite _).bind fun _ => ihFull hfull
      · split
        · exact (hwrite _).bind fun _ => ihLast
        · exact ihNext byte

theorem careful_readMain2 (address size : Word) :
    Careful p granule (readMain2 p address size) := by
  refine careful_ecEnterProgMode.bind fun oldState => ?_
  refine (careful_updateSpiCfg _).bind fun _ => ?_
  refine (careful_updateSpiCfg _).bind fun _ => ?_
  refine (careful_readLoop _ _ _).bind fun _ => ?_
  exact (careful_updateSpiCfg _).bind fun _ => careful_ecExitProgMode oldState

theorem careful_writeMain2 (sector : SectorSize) (address size : Word) (file : List Byte) :
    Careful p granule (writeMain2 p sector address size file) := by
  refine careful_ecEnterProgMode.bind fun oldState => ?_
  refine (careful_updateSpiCfg _).bind fun _ => ?_
  refine (careful_writeLoop sector _ _ _ file false).bind fun _ => ?_
  exact (careful_updateSpiCfg _).bind fun _ => careful_ecExitProgMode oldState

end Careful

end Eflasher
end EcFlash
