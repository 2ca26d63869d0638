import EcFlash.Original.Args
import EcFlash.Original.Ending

/-!
# What the original delivers

The receiver sees the exchanges of a run, and the original makes those of the first
implementation as long as no call fails.  So what the first implementation puts into
the EC the original puts there too, from the command line on.
-/

namespace EcFlash
namespace Original

open Reactive

section Delivery

variable {opts : First.Options} {img : Image} {slots : Slots} {answers : Nat → Transfer}

/-- An EC that fits gets the image, when no call fails and the boot block is left out. -/
theorem exists_delivered (hbbl : opts.includeBootloader = false) (hsize : img.size = 0x20000)
    (hok : ∀ k, answers k ≠ none)
    (hadmits : opts.ignoreNid = true ∨ (answers 0).map Prod.fst = img.byte? 0x4000)
    (hfair : (main opts img slots).Responsive (fun t => t.pc = .kbc8fc0) First.Accepts answers) :
    ∃ k,
      let cfg := (main opts img slots).run ((List.range k).map answers)
      let start := (First.reportedBaseOffset (exchanges cfg.trace)).toNat
      cfg.state.pc = .exited 0 ∧ ∀ pos, (received (exchanges cfg.trace)).flash pos =
        if start ≤ pos ∧ pos < start + 32 * ((0x1C000 - start + 31) / 32) then img.byte? pos
        else none := by
  obtain ⟨k, hpc⟩ := First.exists_returned opts hsize hok hadmits (responsive_first hok hfair)
  refine ⟨k, ?_⟩
  have hanswers : ∀ a ∈ (List.range k).map answers, a ≠ none := by simp [hok]
  have hmatches := (lockStep opts img slots).state _ hanswers
  have hflash := First.flash_of_returned opts hsize
    (First.agrees_of_keptBootBlock hsize hbbl _) (First.jumps_of_keptBootBlock opts hsize hbbl _)
    hpc
  -- The receiver sees the same exchanges.
  rw [LockStep.exchanges_eq (h := lockStep opts img slots) _ hanswers] at hflash
  refine ⟨(exited_iff hmatches 0).mp hpc, fun pos => ?_⟩
  have hincluded (xs : Exchanges) : First.bootBlockIncluded opts xs = false := by
    simp [First.bootBlockIncluded, hbbl]
  simpa only [hincluded, Bool.false_eq_true, if_false] using hflash pos

end Delivery

/-- A command line with arguments that fit and without `-d` or `-bbl`, whose last file
name opens a full-size image: with an EC that fits and no failed call the original
returns `0`, and the blocks of the image are in the EC. -/
theorem program_delivers {argv : List CString} {fs : CString → Option Image} {n : Nat}
    (hlen : argv.length < 2 ^ 30) (hfits : ∀ a ∈ argv.tail, a.bytes.length ≤ 79)
    (hn : argv.tail.length < n) (hdump : ¬ Second.AsksDump argv.tail)
    (hbbl : occurs .bbl argv.tail = false) {file : CString} {img : Image}
    (hfile : lastFile? argv.tail = some file) (hopens : fs file.lower = some img)
    (hsize : img.size = 0x20000) (stack : ByteMemory.Memory) (slots : Slots)
    (answers : Nat → Transfer) (hok : ∀ k, answers k ≠ none)
    (hadmits : occurs .nid argv.tail = true ∨ (answers 0).map Prod.fst = img.byte? 0x4000)
    (hfair : (main (settings argv.tail) img slots).Responsive (fun t => t.pc = .kbc8fc0)
      First.Accepts answers) :
    ∃ m k, program n stack slots fs argv = some (.ok m) ∧
      let cfg := m.run ((List.range k).map answers)
      let start := (First.reportedBaseOffset (exchanges cfg.trace)).toNat
      cfg.state.pc = .exited 0 ∧ ∀ pos, (received (exchanges cfg.trace)).flash pos =
        if start ≤ pos ∧ pos < start + 32 * ((0x1C000 - start + 31) / 32) then img.byte? pos
        else none := by
  have hname : Second.fileName file = file.lower := by
    have hlength := hfits file (List.mem_of_mem_filter (List.mem_of_getLast? hfile))
    rw [Second.fileName_eq, (CString.truncate_eq_self_iff file 79).mpr hlength]
  have hprogram : program n stack slots fs argv =
      some (.ok (main (settings argv.tail) img slots)) := by
    rw [program_eq hlen hfits hn, Second.start_eq_opens hdump hfile, hname, block8b34, hopens]
  have hkept : (settings argv.tail).includeBootloader = false := hbbl
  obtain ⟨k, hdelivered⟩ := exists_delivered hkept hsize hok hadmits hfair
  exact ⟨_, k, hprogram, hdelivered⟩

/-- An EC that accepts everything. -/
theorem program_delivers_accepting :
    ∃ m k, program 3 usedFrame (sampleSlots First.sampleImage) (fun _ => some First.sampleImage)
        nidArgv = some (.ok m) ∧
      let cfg := m.run ((List.range k).map fun _ => some (1#8, 0#8))
      let start := (First.reportedBaseOffset (exchanges cfg.trace)).toNat
      cfg.state.pc = .exited 0 ∧ ∀ pos, (received (exchanges cfg.trace)).flash pos =
        if start ≤ pos ∧ pos < start + 32 * ((0x1C000 - start + 31) / 32) then
          First.sampleImage.byte? pos
        else none := by
  exact program_delivers (by decide) (by decide) (by decide) (by decide) (by decide) rfl rfl rfl
    _ _ (fun _ => some (1#8, 0#8)) (fun _ => nofun) (.inl (by decide))
    (Machine.responsive_of_eventually 0 fun _ _ => rfl)

end Original
end EcFlash
