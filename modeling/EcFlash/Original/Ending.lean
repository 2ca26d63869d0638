import EcFlash.First.Ending
import EcFlash.Original.Failures

/-!
# The original ends

The original waits where the first implementation does, so an EC that ends the runs of
the one ends those of the other.  This holds with failing calls as well: what the
original makes of them are answers that the first implementation can get.
-/

namespace EcFlash
namespace Original

open Reactive

section Responsive

variable {opts : First.Options} {img : Image} {slots : Slots} {answers : Nat → Transfer}

/-- An EC that grants a poll of the original grants it to the first implementation. -/
theorem responsive_first (hok : ∀ n, answers n ≠ none)
    (hfair : (main opts img slots).Responsive (fun t => t.pc = .kbc8fc0) First.Accepts answers) :
    (First.main opts img).Responsive (fun s => s.pc = .poll) First.Accepts answers := by
  refine (lockStep opts img slots).responsive (fun s t hmatches => ?_) hok hfair
  rw [hmatches.pc]
  cases t.pc <;> simp [Pc.first]

/-- A reply is heard as it is. -/
theorem accepts_stale (t : State) {a : Transfer} (h : First.Accepts a) :
    First.Accepts (stale t a) := by
  obtain ⟨r, rfl, hr⟩ := Option.map_eq_some_iff.mp h
  exact congrArg some hr

end Responsive

/-- Against an EC that accepts one of the polls, whenever it is polled again and again,
the original exits, whichever calls fail, and with `0` if it has passed the guard. -/
theorem main_exits (opts : First.Options) (img : Image) (hsize : 0 < img.size) (slots : Slots)
    (answers : Nat → Transfer)
    (hfair : (main opts img slots).Responsive (fun t => t.pc = .kbc8fc0) First.Accepts answers) :
    ∃ n rc,
      let cfg := (main opts img slots).run ((List.range n).map answers)
      cfg.state.pc = .exited rc ∧ ((calls cfg.trace).length ≠ 2 → rc = 0) := by
  have hhears := hears_stale opts img slots
  have hok (k : Nat) : (main opts img slots).heardOn stale answers k ≠ none := nofun
  -- The first implementation stops on what the original hears.
  have hheard := hhears.responsive hfair fun t k _ h => accepts_stale t h
  obtain ⟨n, hstopped⟩ := First.exists_stopped opts (responsive_first hok hheard)
  have hmatches : Matches ((First.main opts img).upTo _ n).state
      ((main opts img slots).upTo _ n).state :=
    (lockStep opts img slots).state
      ((List.range n).map ((main opts img slots).heardOn stale answers)) (by simp [hok])
  have halive : ((First.main opts img).upTo _ n).state.pc ≠ .sigfpe :=
    First.ne_sigfpe_run opts hsize
      ((List.range n).map ((main opts img slots).heardOn stale answers))
  rw [Machine.state_heardOn hhears] at hmatches
  rw [hmatches.pc] at halive
  have hpending : pending ((main opts img slots).upTo answers n).state = none :=
    (matches_pending hmatches).symm.trans hstopped
  have hexiting : Exiting ((main opts img slots).upTo answers n) := exiting_run opts img slots _
  unfold Exiting at hexiting
  cases hpc : ((main opts img slots).upTo answers n).state.pc with
  | exited rc =>
      rw [hpc] at hexiting
      exact ⟨n, rc, hpc, fun hlong => hexiting.resolve_right fun h => hlong h.2⟩
  | sigfpe =>
      rw [hpc] at halive
      exact absurd rfl halive
  | _ => simp [pending, hpc] at hpending

/-- An EC that accepts everything, while the first four reads fail. -/
theorem main_exits_failing :
    ∃ n rc,
      let opts := { First.sampleOptions false with ignoreNid := true }
      let cfg := (main opts First.sampleImage (sampleSlots First.sampleImage)).run
        ((List.range n).map fun k => if k < 4 then none else some (1#8, 0#8))
      cfg.state.pc = .exited rc ∧ ((calls cfg.trace).length ≠ 2 → rc = 0) := by
  refine main_exits _ _ (by decide) _ _ (Machine.responsive_of_eventually 4 fun k hle => ?_)
  rw [if_neg (by omega)]
  rfl

end Original
end EcFlash
