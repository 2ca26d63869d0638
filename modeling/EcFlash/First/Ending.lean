import EcFlash.First.Completion
import EcFlash.First.Delivery
import EcFlash.First.Guard
import EcFlash.Reactive.Fairness

/-!
# The flash ends

The loop has no bound of its own: it polls until the EC has accepted the last block.
Against an EC that does not refuse a block for ever it ends all the same, for every
image and every base offset, whatever the EC asks for in between and whichever calls
fail.
-/

namespace EcFlash
namespace First

open Reactive

/-- The reply `1`. -/
def Accepts (a : Transfer) : Prop :=
  a.map Prod.fst = some 1#8

/-- How far a point is from the next poll, or from the end. -/
def Pc.toPoll : Pc → Nat
  | .readIdVerA => 30
  | .readIdVerB => 29
  | .readBaseOff => 28
  | .readStatus => 27
  | pc => pc.distance

section Rank

variable {opts : Options} {img : Image} {xs : Exchanges} {s : State} {c : Call}

theorem toPoll_loopHead (l : Locals) : (loopHead l).1.pc.toPoll ≤ 6 := by
  unfold loopHead
  split <;> [split; skip] <;> simp [goto, afterLoop, emit, Pc.toPoll, Pc.distance]

/-- Apart from a poll, every answer brings the program closer to the next one. -/
theorem toPoll_resume (hinv : Inv opts img xs s) (hc : pending s = some c) (hpoll : s.pc ≠ .poll)
    (a : Transfer) : (resume s a).1.pc.toPoll < s.pc.toPoll := by
  cases a with
  | none =>
      rw [resume_none hc]
      show 0 < s.pc.toPoll
      cases hpc : s.pc with
      | returned rc | sigfpe => simp [pending, hpc] at hc
      | streamWord i =>
          simp only [Pc.toPoll, Pc.distance]
          omega
      | _ => simp [Pc.toPoll, Pc.distance]
  | some r =>
      have hword := hinv.word
      rcases s with ⟨pc, l⟩
      cases pc with
      | readIdVerB =>
          simp only [resume, onRead, afterIdVerB, romGuard]
          split <;> simp [emit, goto, Pc.toPoll, Pc.distance]
      | readStatus =>
          simp only [resume, onRead, afterStatus, choosePhase]
          split <;> split <;> simp [emit, goto, Pc.toPoll, Pc.distance]
      | setOffset | streamTrailer =>
          show (loopHead l).1.pc.toPoll < _
          exact Nat.lt_of_le_of_lt (toPoll_loopHead l) (by simp [Pc.toPoll, Pc.distance])
      | rejumpStatus =>
          simp only [resume, onRead, afterJump]
          split <;> simp [afterLoop, emit, goto, Pc.toPoll, Pc.distance]
      | poll => exact absurd rfl hpoll
      | streamWord i =>
          obtain ⟨hlt, heven, -⟩ := hword i rfl
          simp only [resume, onWrite, streamFrom]
          split <;> simp only [goto, Pc.toPoll, Pc.distance] <;> omega
      | returned rc => simp [pending] at hc
      | sigfpe => simp [pending] at hc
      | _ => simp [resume, onRead, onWrite, goto, emit, afterIdVerA, afterBaseOff, afterPhaseCtrl,
          afterFinalize, Pc.toPoll, Pc.distance]

/-- The program divides by the size of an empty file only. -/
theorem resume_ne_sigfpe (hc : pending s = some c) (hfile : s.vars.ctx.fileSize ≠ 0#32)
    (a : Transfer) : (resume s a).1.pc ≠ .sigfpe := by
  have hhead (l : Locals) : (loopHead l).1.pc ≠ .sigfpe := by
    unfold loopHead
    split <;> [split; skip] <;> exact of_decide_eq_false rfl
  cases a with
  | none =>
      rw [resume_none hc]
      exact of_decide_eq_false rfl
  | some r =>
      rcases s with ⟨pc, l⟩
      change l.ctx.fileSize ≠ 0#32 at hfile
      cases pc with
      | readIdVerB =>
          simp only [resume, onRead, afterIdVerB, romGuard]
          split <;> exact of_decide_eq_false rfl
      | readStatus =>
          simp only [resume, onRead, afterStatus, choosePhase]
          split <;> split <;> exact of_decide_eq_false rfl
      | setOffset | streamTrailer => exact hhead l
      | rejumpStatus =>
          simp only [resume, onRead, afterJump]
          split <;> exact of_decide_eq_false rfl
      | poll =>
          simp only [resume, onRead, afterPoll, hfile, if_false]
          split
          · exact of_decide_eq_false rfl
          · exact hhead _
      | streamWord i =>
          simp only [resume, onWrite, streamFrom]
          split <;> exact of_decide_eq_false rfl
      | returned rc => simp [pending] at hc
      | sigfpe => simp [pending] at hc
      | _ => exact of_decide_eq_false rfl

/-- Only a failed status check reports that the jump failed. -/
theorem jumpFailed_resume (r : Byte × Byte) (h : .jumpFailed ∈ (resume s (some r)).2) :
    s.pc = .rejumpStatus ∧ r.1 ≠ 0x55#8 := by
  rcases s with ⟨pc, l⟩
  cases pc with
  | setOffset | streamTrailer => exact absurd h (jumpFailed_loopHead l)
  | rejumpStatus =>
      refine ⟨rfl, fun hr => ?_⟩
      simp [resume, onRead, afterJump, hr, goto] at h
  | poll =>
      refine absurd h ?_
      show .jumpFailed ∉ (afterPoll { l with resp := r }).2
      unfold afterPoll
      split
      · split <;> simp [goto, emit, streamBlock, streamFrom]
      · exact jumpFailed_loopHead _
  | streamWord i =>
      simp only [resume, onWrite, streamFrom] at h
      split at h <;> simp [goto] at h
  | readIdVerB =>
      simp only [resume, onRead, afterIdVerB, romGuard] at h
      split at h <;> simp [goto, emit] at h
  | readStatus =>
      simp only [resume, onRead, afterStatus, choosePhase] at h
      split at h <;> split at h <;> simp [goto, emit] at h
  | _ => simp [resume, onRead, onWrite, goto, emit, afterIdVerA, afterBaseOff, afterPhaseCtrl,
      afterFinalize] at h

end Rank

section Run

variable (opts : Options) {img : Image} {answers : Nat → Transfer}

/-- Against an EC that accepts one of the polls, whenever it is polled again and again,
every run stops. -/
theorem exists_stopped
    (hfair : (main opts img).Responsive (fun s => s.pc = .poll) Accepts answers) :
    ∃ n, pending ((main opts img).upTo answers n).state = none := by
  refine Machine.exists_stopped_of_responsive
    (I := fun cfg => Inv opts img (exchanges cfg.trace) cfg.state)
    (fun cfg => cfg.state.pc.toPoll) (fun cfg => ackCount (exchanges cfg.trace)) (2 ^ 27)
    (inv_run opts img) ?_ ?_ ?_ ?_ hfair
  · exact fun cfg c a hinv hc hpoll => toPoll_resume hinv hc hpoll a
  · intro cfg c a _ _
    rw [Machine.exchanges_answer, ackCount_append]
    exact Nat.le_add_right _ _
  · intro cfg c a _ hc hpoll haccepts
    obtain ⟨r, rfl, hr⟩ := Option.map_eq_some_iff.mp haccepts
    rw [Machine.exchanges_answer, ackCount_poll (cmd_of_poll hc hpoll), if_pos hr]
    omega
  · exact fun as => (bounded_run opts img as).2

theorem ne_sigfpe_run (hsize : 0 < img.size) (as : List Transfer) :
    ((main opts img).run as).state.pc ≠ .sigfpe := by
  refine Machine.run_invariant_under (I := fun cfg => Inv opts img (exchanges cfg.trace) cfg.state)
    (P := fun cfg : Moment => cfg.state.pc ≠ .sigfpe) (inv_run opts img) nofun ?_ as
  intro cfg c a hinv _ hc
  exact resume_ne_sigfpe hc ((hinv.tracked_of_pending hc).fileSize_ne_zero hsize) a

/-- A stopped program stays where it is, so an answer moves every state. -/
theorem state_concat (img : Image) (as : List Transfer) (a : Transfer) :
    ((main opts img).run (as ++ [a])).state = (resume ((main opts img).run as).state a).1 := by
  rw [Machine.run_concat]
  cases hc : pending ((main opts img).run as).state with
  | some c => rw [Machine.step_of_pending hc, answer_state]
  | none =>
      rw [Machine.step_of_stopped hc]
      cases hpc : ((main opts img).run as).state.pc with
      | returned rc | sigfpe => simp [resume, hpc]
      | _ => simp [pending, hpc] at hc

/-- The four reads of an EC that the file may be flashed to. -/
theorem chosen_reads {r : Byte × Byte} (hadmits : Admits opts img r.1) (r₁ r₂ r₃ : Byte × Byte) :
    ((main opts img).run [some r, some r₁, some r₂, some r₃]).state.pc.chosen = true := by
  have hfirst : ((main opts img).run [some r]).state = ⟨.readIdVerB, identified opts img r⟩ := rfl
  have hsecond : ((main opts img).run [some r, some r₁]).state.pc = .readBaseOff := by
    rw [show [some r, some r₁] = [some r] ++ [some r₁] from rfl, state_concat, hfirst]
    have hpasses := (not_congr (broken_iff opts img r)).mpr (not_not.mpr hadmits)
    simp only [resume, onRead, afterIdVerB, romGuard]
    rw [if_neg hpasses]
    rfl
  have hthird : ((main opts img).run [some r, some r₁, some r₂]).state.pc = .readStatus := by
    rw [show [some r, some r₁, some r₂] = [some r, some r₁] ++ [some r₂] from rfl, state_concat]
    simp only [resume, hsecond]
    rfl
  rw [show [some r, some r₁, some r₂, some r₃] = [some r, some r₁, some r₂] ++ [some r₃] from rfl,
    state_concat]
  simp only [resume, hthird, onRead, afterStatus, choosePhase]
  split <;> split <;> rfl

/-- With an EC that the file may be flashed to, a run without failed calls gets to the
loop and through it. -/
theorem chosen_upTo (hsize : 0 < img.size) (hok : ∀ n, answers n ≠ none)
    (hadmits : ∃ r, answers 0 = some r ∧ Admits opts img r.1) (n : Nat) :
    ((main opts img).upTo answers (n + 4)).state.pc.chosen = true := by
  induction n with
  | zero =>
      obtain ⟨r, hr, hadmits⟩ := hadmits
      obtain ⟨r₁, h₁⟩ := Option.ne_none_iff_exists'.mp (hok 1)
      obtain ⟨r₂, h₂⟩ := Option.ne_none_iff_exists'.mp (hok 2)
      obtain ⟨r₃, h₃⟩ := Option.ne_none_iff_exists'.mp (hok 3)
      have hreads := chosen_reads opts hadmits r₁ r₂ r₃
      rw [← hr, ← h₁, ← h₂, ← h₃] at hreads
      exact hreads
  | succ n ih =>
      obtain ⟨r, hr⟩ := Option.ne_none_iff_exists'.mp (hok (n + 4))
      have hinv : Inv opts img (exchanges ((main opts img).upTo answers (n + 4)).trace)
          ((main opts img).upTo answers (n + 4)).state := inv_run opts img _
      have hfile := (hinv.tracked fun hpc => by simp [hpc, Pc.chosen] at ih).fileSize_ne_zero hsize
      have hnext := chosen_resume ih hfile r
      rw [← hr, Machine.upTo, ← state_concat] at hnext
      rw [show n + 1 + 4 = n + 4 + 1 by omega, Machine.upTo, List.range_succ, List.map_append]
      exact hnext

/-- No status check fails when every re-jump reads `0x55`. -/
theorem jumped_run {as : List Transfer} (hjumps : (main opts img).AllSteps
      (fun cfg a => cfg.state.pc = .rejumpStatus → ∀ r, a = some r → r.1 = 0x55#8) as) :
    .jumpFailed ∉ outputs ((main opts img).run as).trace := by
  refine hjumps.induction (I := fun _ => True)
    (P := fun cfg => .jumpFailed ∉ outputs cfg.trace) (fun _ => trivial) nofun ?_
  intro cfg c a _ h hc hjump
  rw [outputs_answer, List.mem_append, not_or]
  refine ⟨h, fun hfailed => ?_⟩
  cases a with
  | none =>
      rw [resume_none hc] at hfailed
      simp at hfailed
  | some r =>
      obtain ⟨hpc, hr⟩ := jumpFailed_resume r hfailed
      exact hr (hjump hpc r rfl)

/-- Without the boot block there is no re-jump to check. -/
theorem jumps_of_keptBootBlock (hsize : img.size = 0x20000)
    (hbbl : opts.includeBootloader = false) (as : List Transfer) :
    (main opts img).AllSteps
      (fun cfg a => cfg.state.pc = .rejumpStatus → ∀ r, a = some r → r.1 = 0x55#8) as := by
  intro n a _ hpc
  have hc : pending ((main opts img).run (as.take n)).state =
      some ⟨cmdReadStatus, ((main opts img).run (as.take n)).state.vars.io.1,
        ((main opts img).run (as.take n)).state.vars.io.2, 0⟩ := by
    rw [pending, hpc]
  have hnot := not_rejumping (inv_run opts img (as.take n)) (measured_run opts hsize (as.take n))
    (announcing_run opts img (as.take n)) hbbl hc
  simp [hpc, Pc.rejumping] at hnot

/-- Behind the end of a run that returns `0` the loop has finished. -/
theorem loopFinished_of_returned {as : List Transfer}
    (hpc : ((main opts img).run as).state.pc = .returned 0)
    (hjumped : .jumpFailed ∉ outputs ((main opts img).run as).trace) :
    LoopFinished ((main opts img).run as) := by
  have houtcome := outcome_run opts img as
  have hbehind := houtcome.tail (.inr (.inr hpc))
  obtain ⟨-, hcount, hfinished⟩ := houtcome.complete hbehind
  have hzero := hfinished hjumped
  exact ⟨hbehind, hjumped, hzero, hcount.left_lt hzero⟩

end Run

/-- What a re-jump has to find: the new status, and behind it a poll that asks for the
next block. -/
structure JumpAgrees (cfg : Moment) (a : Transfer) : Prop where
  status : cfg.state.pc = .rejumpStatus → ∀ r, a = some r → r.1 = 0x55#8
  poll : StepAgrees cfg a

/-- Against an EC that accepts one of the polls, whenever it is polled again and again,
a flash of a file that is not empty returns. -/
theorem main_ends (opts : Options) (img : Image) (hsize : 0 < img.size)
    (answers : Nat → Transfer)
    (hfair : (main opts img).Responsive (fun s => s.pc = .poll) Accepts answers) :
    ∃ n rc, ((main opts img).run ((List.range n).map answers)).state.pc = .returned rc := by
  obtain ⟨n, hstopped⟩ := exists_stopped opts hfair
  have hsigfpe := ne_sigfpe_run opts hsize ((List.range n).map answers)
  change pending ((main opts img).run ((List.range n).map answers)).state = none at hstopped
  cases hpc : ((main opts img).run ((List.range n).map answers)).state.pc with
  | returned rc => exact ⟨n, rc, hpc⟩
  | sigfpe => exact absurd hpc hsigfpe
  | _ => simp [pending, hpc] at hstopped

/-- An EC that accepts everything. -/
theorem main_ends_accepting :
    ∃ n rc, ((main (sampleOptions true) sampleImage).run
      ((List.range n).map fun _ => some (1#8, 0#8))).state.pc = .returned rc := by
  exact main_ends _ _ (by decide) (fun _ => some (1#8, 0#8))
    (Machine.responsive_of_eventually 0 fun _ _ => rfl)

/-- A run without failed calls, to an EC that fits, stops only when it returns `0`. -/
theorem returned_of_stopped (opts : Options) {img : Image} {answers : Nat → Transfer}
    (hsize : img.size = 0x20000) (hok : ∀ n, answers n ≠ none)
    (hadmits : opts.ignoreNid = true ∨ (answers 0).map Prod.fst = img.byte? 0x4000) {n : Nat}
    (hstopped : pending ((main opts img).upTo answers n).state = none) :
    ((main opts img).upTo answers n).state.pc = .returned 0 := by
  obtain ⟨r, hr⟩ := Option.ne_none_iff_exists'.mp (hok 0)
  have hfits : Admits opts img r.1 := by
    refine hadmits.imp_right fun hbyte => ⟨hsize, ?_⟩
    rw [← hbyte, hr]
    rfl
  have hchosen := chosen_upTo opts (by omega) hok ⟨r, hr, hfits⟩ n
  rw [Machine.upTo_of_stopped hstopped] at hchosen
  -- Of the points that wait on nothing only `return 0` has a chosen area.
  cases hpc : ((main opts img).upTo answers n).state.pc <;> simp_all [Pc.chosen, pending]

/-- Without failed calls a flash to an EC that fits returns `0`. -/
theorem exists_returned (opts : Options) {img : Image} {answers : Nat → Transfer}
    (hsize : img.size = 0x20000) (hok : ∀ n, answers n ≠ none)
    (hadmits : opts.ignoreNid = true ∨ (answers 0).map Prod.fst = img.byte? 0x4000)
    (hfair : (main opts img).Responsive (fun s => s.pc = .poll) Accepts answers) :
    ∃ n, ((main opts img).run ((List.range n).map answers)).state.pc = .returned 0 := by
  obtain ⟨n, hstopped⟩ := exists_stopped opts hfair
  exact ⟨n, returned_of_stopped opts hsize hok hadmits hstopped⟩

/-- What the receiver has behind a flash that has returned `0`. -/
theorem flash_of_returned (opts : Options) {img : Image} (hsize : img.size = 0x20000)
    {as : List Transfer} (hsteps : (main opts img).AllSteps StepAgrees as)
    (hjumps : (main opts img).AllSteps
      (fun cfg a => cfg.state.pc = .rejumpStatus → ∀ r, a = some r → r.1 = 0x55#8) as)
    (hpc : ((main opts img).run as).state.pc = .returned 0) (pos : Nat) :
    let xs := exchanges ((main opts img).run as).trace
    let start := (if bootBlockIncluded opts xs then 0#32 else reportedBaseOffset xs).toNat
    (received xs).flash pos =
      if start ≤ pos ∧ pos < start + 32 * ((0x1C000 - start + 31) / 32) then img.byte? pos
      else none := by
  have hsettled := settled_run opts img as
  apply flash_of_finished opts hsize hsteps
    (loopFinished_of_returned opts hpc (jumped_run opts hjumps))
  simp [startOffset, hsettled.baseOffset, hsettled.included]

/-- A flash of a full-size image to an EC that fits ends with success and with the
blocks of the file in the EC, as long as no call fails and a re-jump finds what it has
to.  The EC is told the calls of `kbc_cmd_datas`; at the nodes the payloads are crossed. -/
theorem main_delivers (opts : Options) (img : Image) (hsize : img.size = 0x20000)
    (answers : Nat → Transfer) (hok : ∀ n, answers n ≠ none)
    (hadmits : opts.ignoreNid = true ∨ (answers 0).map Prod.fst = img.byte? 0x4000)
    (hagrees : opts.includeBootloader = false ∨
      ∀ n, JumpAgrees ((main opts img).run ((List.range n).map answers)) (answers n))
    (hfair : (main opts img).Responsive (fun s => s.pc = .poll) Accepts answers) :
    ∃ n,
      let cfg := (main opts img).run ((List.range n).map answers)
      let start := (if bootBlockIncluded opts (exchanges cfg.trace) then 0#32
        else reportedBaseOffset (exchanges cfg.trace)).toNat
      cfg.state.pc = .returned 0 ∧ ∀ pos, (received (exchanges cfg.trace)).flash pos =
        if start ≤ pos ∧ pos < start + 32 * ((0x1C000 - start + 31) / 32) then img.byte? pos
        else none := by
  obtain ⟨n, hpc⟩ := exists_returned opts hsize hok hadmits hfair
  refine ⟨n, hpc, flash_of_returned opts hsize ?_ ?_ hpc⟩
  · exact hagrees.elim (fun hbbl => agrees_of_keptBootBlock hsize hbbl _)
      fun h => Machine.allSteps_of_upTo (fun k => (h k).poll) n
  · exact hagrees.elim (fun hbbl => jumps_of_keptBootBlock opts hsize hbbl _)
      fun h => Machine.allSteps_of_upTo (fun k => (h k).status) n

/-- The same EC, asked without `-bbl` and with `-nid`. -/
theorem main_delivers_accepting :
    ∃ n,
      let opts := { sampleOptions false with ignoreNid := true }
      let cfg := (main opts sampleImage).run ((List.range n).map fun _ => some (1#8, 0#8))
      let start := (if bootBlockIncluded opts (exchanges cfg.trace) then 0#32
        else reportedBaseOffset (exchanges cfg.trace)).toNat
      cfg.state.pc = .returned 0 ∧ ∀ pos, (received (exchanges cfg.trace)).flash pos =
        if start ≤ pos ∧ pos < start + 32 * ((0x1C000 - start + 31) / 32) then
          sampleImage.byte? pos
        else none := by
  exact main_delivers _ _ rfl (fun _ => some (1#8, 0#8)) (fun _ => nofun) (.inl rfl) (.inl rfl)
    (Machine.responsive_of_eventually 0 fun _ _ => rfl)

end First
end EcFlash
