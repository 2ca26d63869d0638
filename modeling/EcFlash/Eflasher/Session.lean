import EcFlash.Eflasher.Careful
import EcFlash.Eflasher.Dump
import EcFlash.Eflasher.Burn

/-!
# From a command line to the flash

Whatever `main` makes of a command line, the program it hands over to uses the flash
only while it is idle, and ends when the busy bit is clear again and again.  A command
line never sets the size of a read, because its test is the wrong way round, so every
file read from the flash has 32 bytes too many.
-/

namespace EcFlash
namespace Eflasher

open Reactive

/-- What is run in the end; `contents` is in the file to be written.  Nothing is said
of a command line that the language leaves undefined: its program is empty. -/
def Action.program (contents : List Byte) : Action → Io Unit
  | .read p _ address size => readMain2 p address size
  | .write p sector _ address size => writeMain2 p sector address size contents
  | _ => return

/-- The ports that were asked for. -/
def Action.ports : Action → Ports
  | .read p _ _ _ => p
  | .write p _ _ _ _ => p
  | _ => defaultPorts

/-! ## The flash is left alone while it is busy -/

theorem careful_program (action : Action) (contents : List Byte) (granule : Nat) :
    Careful action.ports granule (action.program contents) := by
  cases action with
  | read p file address size => exact careful_readMain2 address size
  | write p sector file address size => exact careful_writeMain2 sector address size contents
  | exit rc => exact .pure ()
  | undefined => exact .pure ()

/-- In every run, ended or not, of what a command line asks for, and whatever is
answered: the ports are the ones asked for, and the registers of the flash are used only
while it is idle. -/
theorem main_keeps (sscanf : Sscanf) (beyond : Option CString) (argv : List CString)
    (contents : List Byte) (granule : Nat) (d : Device) (answers : List Byte) :
    (contract (main sscanf beyond argv).ports granule).Keeps d
      (((main sscanf beyond argv).program contents).machine.run answers).trace :=
  Contract.keeps_of_relying (careful_program _ contents granule d) answers

/-! ## Every session ends -/

/-- The busy bit is clear. -/
def Idle (a : Byte) : Prop := a &&& spiBusy = 0#8

/-- A program whose only waits are those of `ecWaitForSPI`. -/
inductive Polled (p : Ports) : {α : Type} → Io α → Prop
  | pure {α : Type} (x : α) : Polled p (pure x : Io α)
  | bind {α β : Type} {m : Io α} {f : α → Io β} (hm : Polled p m) (hf : ∀ x, Polled p (f x)) :
      Polled p (m >>= f)
  | put (o : Out) : Polled p (.put o)
  | get (port : Port) : Polled p (.get port)
  | wait : Polled p (ecWaitForSPI p)

section Polled

variable {p : Ports}

theorem polled_writeByte (r : Register) (v : Byte) : Polled p (ecWriteByte p r v) :=
  .bind (.put _) fun _ => .put _

theorem polled_readByte (r : Register) : Polled p (ecReadByte p r) :=
  .bind (.put _) fun _ => .get _

theorem polled_selectSPIAddress (a : Word) : Polled p (ecSelectSPIAddress p a) :=
  .bind (polled_writeByte _ _) fun _ => .bind (polled_writeByte _ _) fun _ => polled_writeByte _ _

/-- Read the configuration, change it, and write it back. -/
theorem polled_updateSpiCfg (f : Byte → Byte) : Polled p (do
    ecSelectAddress p spiCfg
    let cfg ← ecReadByteNA p
    ecWriteByteNA p (f cfg)) :=
  .bind (.put _) fun _ => .bind (.get _) fun _ => .put _

theorem polled_enterProgMode : Polled p (ecEnterProgMode p) :=
  .bind (.put _) fun _ => .bind (.get _) fun _ => .bind (.put _) fun _ =>
    .bind (.put _) fun _ => .bind (.get _) fun _ => .bind (.put _) fun _ =>
    .bind (.put _) fun _ => .bind (.get _) fun _ => .bind (polled_writeByte _ _) fun _ => .pure _

theorem polled_exitProgMode (state : StateBackup) : Polled p (ecExitProgMode p state) :=
  .bind (polled_writeByte _ _) fun _ => .bind (polled_writeByte _ _) fun _ => polled_writeByte _ _

theorem polled_readLoop (size i : Word) (buffer : List Byte) :
    Polled p (readLoop p size i buffer) := by
  induction i, buffer using readLoop.induct size with
  | case2 i buffer hdone =>
      rw [readLoop, if_neg hdone]
      exact .pure ()
  | case1 i buffer hlt ihFull ihLast ihNext =>
      rw [readLoop, if_pos hlt]
      refine .bind .wait fun _ => ?_
      refine .bind (polled_selectSPIAddress i) fun _ => ?_
      refine .bind (polled_writeByte _ _) fun _ => ?_
      refine .bind .wait fun _ => ?_
      refine .bind (polled_readByte _) fun byte => ?_
      split
      · rename_i hfull
        exact .bind (.put _) fun _ => ihFull hfull
      · split
        · exact .bind (.put _) fun _ => ihLast
        · exact ihNext byte

theorem polled_programLoop (buffer : List Byte) (address : Word) :
    Polled p (programLoop p buffer address) := by
  induction buffer generalizing address with
  | nil => exact .pure ()
  | cons byte buffer ih =>
      refine .bind .wait fun _ => ?_
      refine .bind (polled_writeByte _ _) fun _ => ?_
      refine .bind .wait fun _ => ?_
      refine .bind (polled_selectSPIAddress address) fun _ => ?_
      refine .bind (polled_writeByte _ _) fun _ => ?_
      refine .bind (polled_writeByte _ _) fun _ => ?_
      exact ih (address + 1#32)

theorem polled_writeSector (buffer : List Byte) (address : Word) :
    Polled p (writeSector p buffer address) := by
  refine .bind (.pure ()) fun _ => ?_
  refine .bind .wait fun _ => ?_
  refine .bind (polled_writeByte _ _) fun _ => ?_
  refine .bind .wait fun _ => ?_
  refine .bind (polled_selectSPIAddress address) fun _ => ?_
  refine .bind (polled_writeByte _ _) fun _ => ?_
  refine .bind (polled_programLoop buffer address) fun _ => ?_
  exact .bind .wait fun _ => polled_writeByte _ _

theorem polled_writeLoop (sector : SectorSize) (size i address : Word) (file : List Byte)
    (eof : Bool) : Polled p (writeLoop p sector size i address file eof) := by
  induction i, address, file, eof using writeLoop.induct sector size with
  | case1 i address file eof hloop ih =>
      rw [writeLoop, if_pos hloop]
      exact .bind (polled_writeSector _ address) fun _ => ih
  | case2 i address file eof hdone =>
      rw [writeLoop, if_neg hdone]
      exact .pure ()

theorem polled_program (action : Action) (contents : List Byte) :
    Polled action.ports (action.program contents) := by
  cases action with
  | read p file address size =>
      refine .bind polled_enterProgMode fun oldState => ?_
      refine .bind (polled_updateSpiCfg _) fun _ => ?_
      refine .bind (polled_updateSpiCfg _) fun _ => ?_
      refine .bind (polled_readLoop _ _ _) fun _ => ?_
      exact .bind (polled_updateSpiCfg _) fun _ => polled_exitProgMode oldState
  | write p sector file address size =>
      refine .bind polled_enterProgMode fun oldState => ?_
      refine .bind (polled_updateSpiCfg _) fun _ => ?_
      refine .bind (polled_writeLoop sector _ _ _ contents false) fun _ => ?_
      exact .bind (polled_updateSpiCfg _) fun _ => polled_exitProgMode oldState
  | exit rc => exact .pure ()
  | undefined => exact .pure ()

theorem Polled.waitsFor {α : Type} {m : Io α} (h : Polled p m) : m.WaitsFor Idle := by
  induction h with
  | pure x => exact .pure x
  | bind _ _ ihm ihf => exact ihm.bind ihf
  | put o => exact .emit (.pure ())
  | get port => exact .ask fun a => .pure a
  | wait =>
      refine .emit (.spin (fun a ha => ?_) fun _ => .pure ())
      exact decide_eq_false (not_not.mpr ha)

/-- The device can answer, and let every wait end at once. -/
theorem Polled.reaches {α : Type} {m : Io α} (h : Polled p m) (granule : Nat) (d : Device) :
    (contract p granule).reaches m (fun _ _ => True) d := by
  have hstored (d : Device) :
      (if d.index = spiCfg then d.regs d.index &&& ~~~spiBusy else d.regs d.index) =
        d.regs d.index := by
    have hbits : ∀ a : Byte, a &&& spiBusy = 0#8 → a &&& ~~~spiBusy = a := by decide
    split
    · rename_i hr
      rw [hr, hbits _ d.notBusy]
    · rfl
  induction h generalizing d with
  | pure x => trivial
  | bind _ _ ihm ihf =>
      exact Contract.reaches_bind (Contract.reaches_mono (ihm d) fun x d _ => ihf x d)
  | put o => trivial
  | get port => exact ⟨d.regs d.index, fun _ => hstored d, trivial⟩
  | wait =>
      have hindex : ((contract p granule).observe d
          (.out (.outw p.addressPortHigh (xchg spiCfg)))).index = spiCfg := by
        show Device.index (if p.addressPortHigh = p.addressPortHigh then _ else _) = spiCfg
        rw [if_pos rfl, xchg_xchg]
        rfl
      refine ⟨_, fun _ => hstored _, decide_eq_false (not_not.mpr ?_), trivial⟩
      rw [hindex]
      exact Device.notBusy _

end Polled

/-- From every state of the device there is a session in which it answers as it stores,
and which ends. -/
theorem exists_session (sscanf : Sscanf) (beyond : Option CString) (argv : List CString)
    (contents : List Byte) (granule : Nat) (d : Device) : ∃ answers,
    ((main sscanf beyond argv).program contents).machine.AllSteps
      ((contract (main sscanf beyond argv).ports granule).Answers d) answers ∧
    (((main sscanf beyond argv).program contents).machine.run answers).state = .pure () := by
  obtain ⟨answers, _, hanswers, hend, _⟩ :=
    Contract.exists_run ((polled_program _ contents).reaches granule d)
  exact ⟨answers, hanswers, hend⟩

/-- Whatever else the controller answers, a session ends when no answer is the last
one with the busy bit clear.  For a command line that the language leaves undefined this
says nothing, as its program is empty. -/
theorem main_finishes (sscanf : Sscanf) (beyond : Option CString) (argv : List CString)
    (contents : List Byte) (answers : Nat → Byte)
    (hfair : ∀ n, ∃ n', n ≤ n' ∧ Idle (answers n')) :
    ∃ n, (((main sscanf beyond argv).program contents).machine.run
      ((List.range n).map answers)).state = .pure () := by
  obtain ⟨n, _, hend⟩ := Program.exists_finished (polled_program _ contents).waitsFor hfair
  exact ⟨n, hend⟩

/-! ## What a command line reads -/

section Read

variable {sscanf : Sscanf} {beyond : Option CString} {p p' : Ports} {sector : SectorSize}
  {file file' : CString} {address size : Word}

theorem exists_of_optional {scan : CString → Scanned} {arg : Option CString}
    {accepts : Scanned → Bool} {k : Word → Action}
    (h : optional scan arg accepts k = .read p file address size) :
    ∃ w, k w = .read p file address size := by
  unfold optional at h
  split at h
  · exact ⟨_, h⟩
  · split at h
    · split at h <;> exact ⟨_, h⟩
    · cases h

/-- A size that can be read is refused, so none ever arrives. -/
theorem readArguments_size {rest : List CString}
    (h : readArguments sscanf p file rest beyond = .read p' file' address size) :
    size = 0#32 := by
  obtain ⟨w, h⟩ := exists_of_optional h
  unfold optional at h
  split at h
  · cases h
    rfl
  · rename_i a _
    cases hscan : sscanf.hex32 a with
    | eof => simp [hscan, Scanned.isTrue] at h
    | value v => simp [hscan, Scanned.isTrue] at h
    | mismatch =>
        simp [hscan, Scanned.isTrue] at h
        exact h.2.2.2.symm

theorem writeArguments_ne_read {rest : List CString} :
    writeArguments sscanf p sector file rest beyond ≠ .read p' file' address size := by
  intro h
  obtain ⟨_, h⟩ := exists_of_optional h
  obtain ⟨_, h⟩ := exists_of_optional h
  cases h

theorem argumentLoop_size {argv : List CString}
    (h : argumentLoop sscanf beyond p sector argv = .read p' file address size) :
    size = 0#32 := by
  fun_induction argumentLoop sscanf beyond p sector argv
  case case13 => exact readArguments_size h
  case case15 => exact absurd h writeArguments_ne_read
  -- The loop goes on, or `main` has returned.
  all_goals first
    | cases h
    | (rename_i ih; exact ih h)

/-- What a finished read has appended to its file. -/
theorem file_of_read {contents : List Byte} {granule : Nat} {d : Device} {argv : List CString}
    {answers : List Byte} (hmain : main sscanf beyond argv = .read p file address size)
    (hanswers : ((main sscanf beyond argv).program contents).machine.AllSteps
      ((contract p granule).Answers d) answers)
    (hend : (((main sscanf beyond argv).program contents).machine.run answers).state = .pure ()) :
    ((contract p granule).after d
      (((main sscanf beyond argv).program contents).machine.run answers).trace).file =
        d.file ++ dump d.mem 0x20020 := by
  obtain rfl : size = 0#32 := argumentLoop_size hmain
  have hlength : dumpLength (defaultSize 0#32).toNat = 0x20020 := by decide
  have hwlp : (contract p granule).wlp (readMain2 p address 0#32)
      (fun _ d' => d'.file = d.file ++ dump d.mem 0x20020) d :=
    wlp_readMain2 address 0#32 fun d' _ _ hfile => by rw [hfile, hlength]
  rw [hmain] at hanswers hend ⊢
  exact (Contract.run_sound hwlp answers hanswers).2 () hend

theorem getElem?_append_dump (bytes : List Byte) (mem : BitVec 24 → Byte) {m n : Nat} (hm : m < n) :
    (bytes ++ dump mem n)[bytes.length + m]? = some (mem (BitVec.ofNat 24 (dumpAddress m))) := by
  rw [List.getElem?_append_right (by omega), Nat.add_sub_cancel_left, dump, List.getElem?_map,
    List.getElem?_range hm]
  rfl

/-- The place of byte `x` in a dump. -/
theorem dumpAddress_place (x : Nat) : dumpAddress (x + x / 4095) = x := by
  unfold dumpAddress bufferSize
  omega

/-- Every finished read that a command line asks for has written 0x20020 bytes, in
which the flash has byte `x` at `x + x / 4095`; the 32 bytes between are each a
second copy of the byte before. -/
theorem main_read_finished (contents : List Byte) (granule : Nat) (d : Device) (argv : List CString)
    (answers : List Byte) (hmain : main sscanf beyond argv = .read p file address size)
    (hanswers : ((main sscanf beyond argv).program contents).machine.AllSteps
      ((contract p granule).Answers d) answers)
    (hend : (((main sscanf beyond argv).program contents).machine.run answers).state = .pure ()) :
    let d' := (contract p granule).after d
      (((main sscanf beyond argv).program contents).machine.run answers).trace
    d'.file.length = d.file.length + 0x20020 ∧
      (∀ x, x < 0x20000 →
        d'.file[d.file.length + (x + x / 4095)]? = some (d.mem (BitVec.ofNat 24 x))) ∧
      ∀ k, 1 ≤ k → k ≤ 32 →
        d'.file[d.file.length + 4096 * k]? = d'.file[d.file.length + (4096 * k - 1)]? := by
  show _ = _ ∧ _
  rw [file_of_read hmain hanswers hend]
  refine ⟨by rw [List.length_append, length_dump], fun x hx => ?_, fun k hone hk => ?_⟩
  · rw [getElem?_append_dump _ _ (by omega), dumpAddress_place]
  · have haddress : dumpAddress (4096 * k) = dumpAddress (4096 * k - 1) := by
      unfold dumpAddress bufferSize
      omega
    rw [getElem?_append_dump _ _ (by omega), getElem?_append_dump _ _ (by omega), haddress]

/-- The sectors of an image lie in the flash, and cover the image. -/
theorem sectorCount_image {sector : SectorSize} (hpow : sector.pow ≤ 24) :
    0x20000 ≤ sectorCount sector 0x20000 0x20000 * sector.bytes ∧
      sectorCount sector 0x20000 0x20000 * sector.bytes ≤ 2 ^ 24 := by
  have hpos := sector.bytes_pos
  have hflash : 2 ^ (24 - sector.pow) * sector.bytes = 2 ^ 24 := by
    rw [SectorSize.bytes, ← Nat.pow_add, Nat.sub_add_cancel hpow]
  constructor
  · have hceil : 0x20000 ≤ (0x20000 + sector.bytes - 1) / sector.bytes * sector.bytes := by
      have hdiv := Nat.div_add_mod (0x20000 + sector.bytes - 1) sector.bytes
      have hmod := Nat.mod_lt (0x20000 + sector.bytes - 1) hpos
      rw [Nat.mul_comm] at hdiv
      omega
    have hfloor : 0x20000 ≤ (0x20000 / sector.bytes + 1) * sector.bytes := by
      have hdiv := Nat.div_add_mod 0x20000 sector.bytes
      have hmod := Nat.mod_lt 0x20000 hpos
      rw [Nat.mul_comm] at hdiv
      rw [Nat.add_mul]
      omega
    unfold sectorCount
    rcases Nat.le_total ((0x20000 + sector.bytes - 1) / sector.bytes)
      (0x20000 / sector.bytes + 1) with hle | hle
    · rwa [Nat.min_eq_left hle]
    · rwa [Nat.min_eq_right hle]
  · have hceil : (0x20000 + sector.bytes - 1) / sector.bytes ≤ 2 ^ (24 - sector.pow) := by
      apply Nat.le_of_lt_succ
      rw [Nat.div_lt_iff_lt_mul hpos, Nat.succ_mul, hflash]
      omega
    calc sectorCount sector 0x20000 0x20000 * sector.bytes
        ≤ 2 ^ (24 - sector.pow) * sector.bytes :=
          Nat.mul_le_mul_right _ (Nat.le_trans (Nat.min_le_left ..) hceil)
      _ = 2 ^ 24 := hflash

/-- An image written by one command line, whose `SECTOR_SIZE` is the size of the sectors
that the flash erases, can be taken from what another one reads: byte `x` of it stands at
`x + x / 4095`. -/
theorem main_write_read (contents : List Byte) (granule : Nat) (d : Device)
    (argv argv' : List CString) (answers answers' : List Byte)
    (hlength : contents.length = 0x20000) (hpow : sector.pow ≤ 24)
    (hgranule : granule = sector.bytes)
    (hwrite : main sscanf beyond argv = .write p sector file 0#32 0#32)
    (hanswers : ((main sscanf beyond argv).program contents).machine.AllSteps
      ((contract p granule).Answers d) answers)
    (hend : (((main sscanf beyond argv).program contents).machine.run answers).state = .pure ())
    (hread : main sscanf beyond argv' = .read p file' address size) :
    let d' := (contract p granule).after d
      (((main sscanf beyond argv).program contents).machine.run answers).trace
    ((main sscanf beyond argv').program []).machine.AllSteps
      ((contract p granule).Answers d') answers' →
    (((main sscanf beyond argv').program []).machine.run answers').state = .pure () →
    ∀ x, x < 0x20000 →
      ((contract p granule).after d' (((main sscanf beyond argv').program []).machine.run
        answers').trace).file[d'.file.length + (x + x / 4095)]? = contents[x]? := by
  subst hgranule
  intro d' hanswers' hend' x hx
  have hsize : (defaultSize 0#32).toNat = 0x20000 := by decide
  have hcover := sectorCount_image hpow
  have hmem : d'.mem = replaced sector d.mem 0 (sectorCount sector 0x20000 0x20000) contents := by
    have hwlp := wlp_writeMain2_replaced p d sector 0#32 0#32 contents
      (by rw [hsize, hlength]; simpa using hcover.2)
    rw [hwrite] at hanswers hend
    have hwritten := (Contract.run_sound hwlp answers hanswers).2 () hend
    show Device.mem (Contract.after _ _ _) = _
    rw [hwrite]
    refine hwritten.2.2.trans ?_
    rw [hsize, hlength]
    simp
  have hx' : (BitVec.ofNat 24 x).toNat = x := by
    rw [BitVec.toNat_ofNat, Nat.mod_eq_of_lt (by omega)]
  rw [file_of_read hread hanswers' hend', getElem?_append_dump _ _ (by omega), dumpAddress_place,
    hmem, replaced, hx', if_pos ⟨Nat.zero_le _, by omega⟩, Nat.sub_zero]
  simp [hlength, hx]

end Read

/-! ## Sessions of the tool -/

/-- `sscanf` as far as it matters here: no argument is a number. -/
def noNumbers : Sscanf where
  hex16 := fun _ => .mismatch
  unsigned := fun _ => .mismatch
  hex32 := fun _ => .mismatch

/-- `eflasher -r rom` -/
def readCommand : List CString :=
  [⟨ascii ['e', 'f', 'l', 'a', 's', 'h', 'e', 'r'], by decide⟩, ⟨ascii ['-', 'r'], by decide⟩,
    ⟨ascii ['r', 'o', 'm'], by decide⟩]

/-- `eflasher -w rom` -/
def writeCommand : List CString :=
  [⟨ascii ['e', 'f', 'l', 'a', 's', 'h', 'e', 'r'], by decide⟩, ⟨ascii ['-', 'w'], by decide⟩,
    ⟨ascii ['r', 'o', 'm'], by decide⟩]

theorem main_finishes_write : ∃ n,
    (((main noNumbers none writeCommand).program [0x5A#8]).machine.run
      ((List.range n).map fun _ => 0#8)).state = .pure () :=
  main_finishes noNumbers none writeCommand [0x5A#8] (fun _ => 0#8) fun n => ⟨n, Nat.le_refl n, rfl⟩

theorem main_read_finished_blank : ∃ answers,
    let d' := (contract defaultPorts 4096).after blank
      (((main noNumbers none readCommand).program []).machine.run answers).trace
    d'.file.length = blank.file.length + 0x20020 ∧
      (∀ x, x < 0x20000 →
        d'.file[blank.file.length + (x + x / 4095)]? = some (blank.mem (BitVec.ofNat 24 x))) ∧
      ∀ k, 1 ≤ k → k ≤ 32 → d'.file[blank.file.length + 4096 * k]? =
        d'.file[blank.file.length + (4096 * k - 1)]? := by
  obtain ⟨answers, hanswers, hend⟩ := exists_session noNumbers none readCommand [] 4096 blank
  have hmain : main noNumbers none readCommand =
      .read defaultPorts ⟨ascii ['r', 'o', 'm'], by decide⟩ 0#32 0#32 := rfl
  exact ⟨answers, main_read_finished [] 4096 blank readCommand answers hmain hanswers hend⟩

theorem main_write_read_blank : ∃ answers answers' d',
    d' = (contract defaultPorts defaultSector.bytes).after blank
      (((main noNumbers none writeCommand).program (List.replicate 0x20000 0x5A#8)).machine.run
        answers).trace ∧
    ∀ x, x < 0x20000 →
      ((contract defaultPorts defaultSector.bytes).after d'
        (((main noNumbers none readCommand).program []).machine.run answers').trace).file[
          d'.file.length + (x + x / 4095)]? = (List.replicate 0x20000 0x5A#8)[x]? := by
  obtain ⟨answers, hanswers, hend⟩ := exists_session noNumbers none writeCommand
    (List.replicate 0x20000 0x5A#8) defaultSector.bytes blank
  obtain ⟨answers', hanswers', hend'⟩ := exists_session noNumbers none readCommand []
    defaultSector.bytes ((contract defaultPorts defaultSector.bytes).after blank
      (((main noNumbers none writeCommand).program (List.replicate 0x20000 0x5A#8)).machine.run
        answers).trace)
  have hwrite : main noNumbers none writeCommand =
      .write defaultPorts defaultSector ⟨ascii ['r', 'o', 'm'], by decide⟩ 0#32 0#32 := rfl
  have hread : main noNumbers none readCommand =
      .read defaultPorts ⟨ascii ['r', 'o', 'm'], by decide⟩ 0#32 0#32 := rfl
  exact ⟨answers, answers', _, rfl, main_write_read (List.replicate 0x20000 0x5A#8)
    defaultSector.bytes blank writeCommand readCommand answers answers' List.length_replicate
    (by decide) rfl hwrite hanswers hend hread hanswers' hend'⟩

end Eflasher
end EcFlash
