import EcFlash.Eflasher.Access

/-!
# Programming mode

`ec_enterProgMode` saves three registers of the controller and changes them, and
`ec_exitProgMode` writes the saved values back; the fan control is set to full speed
and left there.  Between the two only the registers of the flash and its
configuration change.
-/

namespace EcFlash
namespace Eflasher

open Reactive

/-- Outside the registers of the flash nothing has changed. -/
def SameRegs (d d' : Device) : Prop :=
  ∀ r : Register, r.isFlash = false → d'.regs r = d.regs r

/-- Programming mode was entered in the state `d₀`. -/
structure Programming (d₀ d : Device) : Prop where
  regs : ∀ r : Register, r.isFlash = false → r ≠ pmu → r ≠ wdtCfg → r ≠ fanCtrl → r ≠ spiCfg →
    d.regs r = d₀.regs r
  fan : d.regs fanCtrl = 0xFF#8

/-- What was saved on entering. -/
structure Saved (d₀ : Device) (state : StateBackup) : Prop where
  pmuCfg : state.pmuCfg = d₀.regs pmu
  wdtCfg : state.wdtCfg = d₀.regs wdtCfg
  spiCfg : stored Eflasher.spiCfg state.spiCfg = d₀.regs Eflasher.spiCfg

/-- The fan runs at full speed, and all other registers are as before but for those through
which the flash is reached: its address, data and command registers are left as used. -/
structure Restored (d₀ d : Device) : Prop where
  regs : ∀ r : Register, r.isFlash = false → r ≠ fanCtrl → d.regs r = d₀.regs r
  fan : d.regs fanCtrl = 0xFF#8

section ProgMode

variable {p : Ports} {granule : Nat} {d₀ d d' : Device} {state : StateBackup}
  {Q : Unit → Device → Prop}

theorem SameRegs.refl (d : Device) : SameRegs d d := fun _ _ => rfl

theorem SameRegs.trans {d'' : Device} (h : SameRegs d d') (h' : SameRegs d' d'') :
    SameRegs d d'' := fun r hr => (h' r hr).trans (h r hr)

theorem SameRegs.enabled (h : SameRegs d d') (hen : d.Enabled) : d'.Enabled := by
  unfold Device.Enabled
  rwa [h spiCfg (by decide)]

/-- Only the configuration of the flash may change as well. -/
theorem Programming.congr (h : Programming d₀ d)
    (hregs : ∀ r : Register, r.isFlash = false → r ≠ spiCfg → d'.regs r = d.regs r) :
    Programming d₀ d' := by
  constructor
  · intro r hr hpmu hwdt hfan hspi
    rw [hregs r hr hspi, h.regs r hr hpmu hwdt hfan hspi]
  · rw [hregs fanCtrl (by decide) (by decide), h.fan]

theorem wlp_ecEnterProgMode {Q : StateBackup → Device → Prop}
    (h : ∀ state d', Saved d state → Programming d d' → d'.mem = d.mem → d'.file = d.file →
      Q state d') : (contract p granule).wlp (ecEnterProgMode p) Q d := by
  let d1 := d.write pmu 0x40#8
  let d2 := d1.write wdtCfg 0xC8#8
  apply Contract.wlp_bind
  apply wlp_ecSelectAddress
  apply Contract.wlp_bind
  apply wlp_ecReadByteNA (d := d.select pmu) (r := pmu) rfl (by decide) (.inl rfl)
  apply Contract.wlp_bind
  apply wlp_ecWriteByteNA (d := d.select pmu) (r := pmu) rfl (.inl rfl)
  rw [Device.dataOut_of_ne (d := d.select pmu) (show pmu ≠ spiCmd by decide)]
  apply Contract.wlp_bind
  apply wlp_ecSelectAddress (d := d1)
  apply Contract.wlp_bind
  apply wlp_ecReadByteNA (d := d1.select wdtCfg) (r := wdtCfg) rfl (by decide) (.inl rfl)
  apply Contract.wlp_bind
  apply wlp_ecWriteByteNA (d := d1.select wdtCfg) (r := wdtCfg) rfl (.inl rfl)
  rw [Device.dataOut_of_ne (d := d1.select wdtCfg) (show wdtCfg ≠ spiCmd by decide)]
  apply Contract.wlp_bind
  apply wlp_ecSelectAddress (d := d2)
  apply Contract.wlp_bind
  apply wlp_readSpiCfg (d := d2.select spiCfg) rfl
  intro a idle ha
  apply Contract.wlp_bind
  apply wlp_ecWriteByte (by decide) (.inl rfl)
  have hwdt : d1.regs wdtCfg = d.regs wdtCfg := Device.regs_write_of_ne (by decide)
  have hspi : d2.regs spiCfg = d.regs spiCfg := by
    rw [Device.regs_write_of_ne (by decide), Device.regs_write_of_ne (by decide)]
  refine h _ _ ⟨rfl, hwdt, ?_⟩ ⟨?_, ?_⟩ rfl rfl
  · rw [stored, if_pos rfl]
    exact ha.trans hspi
  · intro r _ hpmu hwdt hfan _
    refine (Device.regs_store_of_ne hfan).trans ?_
    exact (Device.regs_write_of_ne hwdt).trans (Device.regs_write_of_ne hpmu)
  · exact Device.regs_store_self

theorem wlp_ecExitProgMode (hsaved : Saved d₀ state) (hprog : Programming d₀ d)
    (h : ∀ d', Restored d₀ d' → d'.mem = d.mem → d'.file = d.file → Q () d') :
    (contract p granule).wlp (ecExitProgMode p state) Q d := by
  let d1 := d.write spiCfg state.spiCfg
  let d2 := d1.write pmu state.pmuCfg
  apply Contract.wlp_bind
  apply wlp_ecWriteByte (by decide) (.inl rfl)
  apply Contract.wlp_bind
  apply wlp_ecWriteByte (d := d1) (by decide) (.inl rfl)
  apply wlp_ecWriteByte (d := d2) (by decide) (.inl rfl)
  refine h (d2.write wdtCfg state.wdtCfg) ⟨?_, ?_⟩ rfl rfl
  · intro r hr hfan
    by_cases hwdt : r = wdtCfg
    · rw [hwdt, Device.regs_write_self, stored_of_ne _ (by decide), hsaved.wdtCfg]
    by_cases hpmu : r = pmu
    · rw [Device.regs_write_of_ne hwdt, hpmu, Device.regs_write_self,
        stored_of_ne _ (by decide), hsaved.pmuCfg]
    rw [Device.regs_write_of_ne hwdt, Device.regs_write_of_ne hpmu]
    by_cases hspi : r = spiCfg
    · rw [hspi, Device.regs_write_self, hsaved.spiCfg]
    · rw [Device.regs_write_of_ne hspi, hprog.regs r hr hpmu hwdt hfan hspi]
  · rw [Device.regs_write_of_ne (by decide), Device.regs_write_of_ne (by decide),
      Device.regs_write_of_ne (by decide), hprog.fan]

/-! ## The configuration of the flash -/

/-- Read the configuration, change it, and write it back. -/
theorem wlp_updateSpiCfg (f : Byte → Byte)
    (h : ∀ a d', stored spiCfg a = d.regs spiCfg → d'.regs spiCfg = stored spiCfg (f a) →
      (∀ r, r ≠ spiCfg → d'.regs r = d.regs r) → d'.mem = d.mem → d'.file = d.file → Q () d') :
    (contract p granule).wlp (do
      ecSelectAddress p spiCfg
      let cfg ← ecReadByteNA p
      ecWriteByteNA p (f cfg)) Q d := by
  apply Contract.wlp_bind
  apply wlp_ecSelectAddress
  apply Contract.wlp_bind
  apply wlp_readSpiCfg (d := d.select spiCfg) rfl
  intro a idle ha
  apply wlp_ecWriteByteNA (r := spiCfg) rfl (.inl rfl)
  rw [Device.dataOut_of_ne (show spiCfg ≠ spiCmd by decide)]
  refine h a _ ?_ ?_ ?_ rfl rfl
  · rw [stored, if_pos rfl]
    exact ha
  · exact Device.regs_store_self
  · exact fun r hr => Device.regs_store_of_ne hr

theorem wlp_ecEnableSPI (h : ∀ d', d'.Enabled → (∀ r, r ≠ spiCfg → d'.regs r = d.regs r) →
    d'.mem = d.mem → d'.file = d.file → Q () d') :
    (contract p granule).wlp (ecEnableSPI p) Q d := by
  apply wlp_updateSpiCfg fun cfg => cfg ||| (busyChk ||| spiCmdEn)
  intro a d' _ hcfg hregs
  refine h d' ?_ hregs
  have hset : ∀ a : Byte, (a ||| (busyChk ||| spiCmdEn)) &&& ~~~spiBusy &&& spiCmdEn ≠ 0#8 := by
    decide
  unfold Device.Enabled
  rw [hcfg, stored, if_pos rfl]
  exact hset a

theorem wlp_ecEnableDummyByte (hen : d.Enabled)
    (h : ∀ d', d'.Enabled → (∀ r, r ≠ spiCfg → d'.regs r = d.regs r) →
      d'.mem = d.mem → d'.file = d.file → Q () d') :
    (contract p granule).wlp (ecEnableDummyByte p) Q d := by
  apply wlp_updateSpiCfg fun cfg => cfg ||| dummyFlg
  intro a d' ha hcfg hregs
  refine h d' ?_ hregs
  have hkeep : ∀ a : Byte, (a ||| dummyFlg) &&& ~~~spiBusy &&& spiCmdEn =
      a &&& ~~~spiBusy &&& spiCmdEn := by
    decide
  rw [stored, if_pos rfl] at ha
  unfold Device.Enabled at hen ⊢
  rw [hcfg, stored, if_pos rfl, hkeep, ha]
  exact hen

theorem wlp_ecDisableSPI (h : ∀ d', (∀ r, r ≠ spiCfg → d'.regs r = d.regs r) →
    d'.mem = d.mem → d'.file = d.file → Q () d') :
    (contract p granule).wlp (ecDisableSPI p) Q d :=
  wlp_updateSpiCfg (fun cfg => cfg &&& ~~~(busyChk ||| spiCmdEn))
    fun _ d' _ _ hregs => h d' hregs

end ProgMode

end Eflasher
end EcFlash
