import EcFlash.First.Completion
import EcFlash.Second.Main

/-!
# Failed calls of the second implementation

Behind `CMD_SET_PHASE` a failed call should stop the program at once, with no
further command and a non-zero status.  Only the initial `CMD_SET_OFFSET` is
handled that way.  Every other failed call is a `break` or is not looked at: the
trailer of the interrupted block, `CMD_SET_PHASE 4` and `CMD_SET_REBOOT_MODE`
follow, and the program returns `0`.
-/

namespace EcFlash
namespace Second

open Reactive

/-- A run of `main` at one moment. -/
abbrev Moment := Config Call Transfer Out State

/-- When the call that the run `as` waits on fails, nothing is issued any more,
whatever would be answered, and the program has exited with an error. -/
structure FailStop (opts : First.Options) (img : Image) (as : List Transfer) (c : Call) :
    Prop where
  silent : ∀ bs, calls ((main opts img).run (as ++ none :: bs)).trace =
    calls ((main opts img).run as).trace ++ [c]
  status : ∀ bs, ∃ rc, rc ≠ 0 ∧ ((main opts img).run (as ++ none :: bs)).state.pc = .returned rc

/-- The command of a point. -/
def Pc.command : Pc → Byte
  | .getIdMainVer => cmdGetIdMainVer
  | .getSubTestVer => cmdGetSubTestVer
  | .getFlashBase => cmdGetFlashBase
  | .getBootStatus | .rejumpStatus => cmdGetBootStatus
  | .setPhase | .rejumpPhase | .finalPhase => cmdSetPhase
  | .setOffset | .rejumpOffset => cmdSetOffset
  | .pollProgress => cmdPollProgress
  | .writeData _ | .writeTrailer => cmdWriteData
  | .rebootMode | .returned _ | .sigfpe => cmdSetRebootMode

theorem pending_cmd {s : State} {c : Call} (h : pending s = some c) : c.cmd = s.pc.command := by
  rcases s with ⟨pc, l⟩
  cases pc <;> simp [pending] at h <;> subst h <;> rfl

/-- The points up to the first `CMD_SET_PHASE`. -/
def Pc.opening : Pc → Bool
  | .getIdMainVer | .getSubTestVer | .getFlashBase | .getBootStatus | .setPhase => true
  | _ => false

section Opening

variable {opts : First.Options} {img : Image} {s : State} {c : Call} {a : Transfer}

/-- The program does not come back to its opening. -/
theorem loopHead_opening (l : Locals) : (loopHead l).1.pc.opening = false := by
  unfold loopHead
  split <;> [split; skip] <;> rfl

theorem opening_of_resume (h : (resume s a).1.pc.opening = true) :
    s.pc.opening = true ∧ s.pc ≠ .setPhase := by
  rcases s with ⟨pc, l⟩
  cases pc with
  | getIdMainVer | getSubTestVer | getFlashBase | getBootStatus => exact ⟨rfl, nofun⟩
  | setOffset | writeTrailer =>
      cases a with
      | none => simp [resume, onWrite, exitPro, afterLoop, emit, goto, Pc.opening] at h
      | some r => simp [resume, onWrite, loopHead_opening] at h
  | pollProgress =>
      cases a with
      | none => simp [resume, onRead, afterLoop, emit, goto, Pc.opening] at h
      | some r =>
          simp only [resume, onRead, afterPoll] at h
          split at h
          · split at h <;> simp [emit, goto, sendBlock, sendFrom, Pc.opening] at h
          · simp [loopHead_opening] at h
  | rejumpStatus =>
      cases a with
      | none => simp [resume, onRead, afterLoop, emit, goto, Pc.opening] at h
      | some r =>
          simp only [resume, onRead, afterJump] at h
          split at h <;> simp [afterLoop, emit, goto, Pc.opening] at h
  | writeData i =>
      cases a with
      | none => simp [resume, onWrite, sendTrailer, goto, Pc.opening] at h
      | some r =>
          simp only [resume, onWrite, sendFrom] at h
          split at h <;> simp [sendTrailer, goto, Pc.opening] at h
  | returned rc | sigfpe => simp [resume, Pc.opening] at h
  | _ => cases a <;> simp [resume, onWrite, exitPro, afterSetPhase, afterLoop, afterFinalPhase,
      afterRebootMode, emit, goto, Pc.opening] at h

/-- In the opening `CMD_SET_PHASE` has not been called. -/
theorem opening_run (opts : First.Options) (img : Image) (as : List Transfer)
    (h : ((main opts img).run as).state.pc.opening = true) :
    ∀ c ∈ calls ((main opts img).run as).trace, c.cmd ≠ cmdSetPhase := by
  revert h
  refine Machine.run_invariant
    (P := fun cfg : Moment => cfg.state.pc.opening = true → ∀ c ∈ calls cfg.trace, c.cmd ≠ cmdSetPhase)
    ?_ ?_ as
  · intro _
    exact nofun
  · intro cfg c a h hc hopening c' hc'
    obtain ⟨hbefore, hphase⟩ := opening_of_resume hopening
    rw [Machine.calls_answer, List.mem_append] at hc'
    rcases hc' with hc' | hc'
    · exact h hbefore c' hc'
    · rw [List.mem_singleton.mp hc', pending_cmd hc]
      cases hpc : cfg.state.pc <;> first | (simp only [Pc.command]; decide) | simp_all [Pc.opening]

end Opening

section Failure

variable {opts : First.Options} {img : Image} {as : List Transfer} {c : Call}

/-- The run after the failed call. -/
theorem run_failed (hc : pending ((main opts img).run as).state = some c) (bs : List Transfer) :
    (main opts img).run (as ++ none :: bs) =
      bs.foldl (main opts img).step ((main opts img).answer ((main opts img).run as) c none) := by
  rw [Machine.run_append, List.foldl_cons, Machine.step_of_pending hc]

/-- When the failed call leaves the program waiting on another one, it does not
stop. -/
theorem not_failStop_of_pending (hc : pending ((main opts img).run as).state = some c)
    (hnext : pending (resume ((main opts img).run as).state none).1 ≠ none) :
    ¬ FailStop opts img as c := by
  intro h
  obtain ⟨rc, -, hpc⟩ := h.status []
  rw [run_failed hc] at hpc
  change (resume ((main opts img).run as).state none).1.pc = .returned rc at hpc
  simp [pending, hpc] at hnext

end Failure

/-- A call behind `CMD_SET_PHASE` that fails stops the program exactly when it is
the initial `CMD_SET_OFFSET`. -/
theorem failStop_iff (opts : First.Options) (img : Image) (as : List Transfer) (c : Call)
    (hc : pending ((main opts img).run as).state = some c)
    (hphase : ∃ c' ∈ calls ((main opts img).run as).trace, c'.cmd = cmdSetPhase) :
    FailStop opts img as c ↔ ((main opts img).run as).state.pc = .setOffset := by
  have hopening : ((main opts img).run as).state.pc.opening = false := by
    by_contra hopening
    obtain ⟨c', hc', hcmd⟩ := hphase
    exact opening_run opts img as (by simpa using hopening) c' hc' hcmd
  have hgoes : pending (resume ((main opts img).run as).state none).1 ≠ none →
      ¬ FailStop opts img as c := not_failStop_of_pending hc
  have hrun := run_failed hc
  generalize hcfg : (main opts img).run as = cfg at *
  constructor
  · intro h
    rcases cfg with ⟨tr, pc, l⟩
    cases pc with
    | setOffset => rfl
    | getIdMainVer | getSubTestVer | getFlashBase | getBootStatus | setPhase =>
        simp [Pc.opening] at hopening
    | returned rc | sigfpe => simp [pending] at hc
    | rebootMode =>
        -- No further command, but success is returned.
        obtain ⟨rc, hne, hpc⟩ := h.status []
        rw [hrun] at hpc
        exact absurd (Pc.returned.inj hpc).symm hne
    -- Behind every other failed call the program waits on a further one.
    | _ => exact absurd h (hgoes (by simp [resume, onRead, onWrite, afterLoop, sendTrailer,
        afterFinalPhase, emit, goto, pending]))
  · intro hpc
    -- `exit_pro(1, 0)`: the program has stopped, and stays so.
    have hresume : resume cfg.state none = (⟨.returned 1, cfg.state.vars⟩, []) := by
      simp [resume, hpc, onWrite, exitPro, goto]
    have hanswer : (main opts img).answer cfg c none =
        ⟨cfg.trace ++ [.call c none], ⟨.returned 1, cfg.state.vars⟩⟩ := by
      simp [Machine.answer, main, hresume]
    have hstopped (bs : List Transfer) : bs.foldl (main opts img).step
        ((main opts img).answer cfg c none) = (main opts img).answer cfg c none := by
      apply Machine.foldl_step_of_stopped
      rw [hanswer]
      rfl
    constructor
    · intro bs
      rw [hrun, hstopped, Machine.calls_answer, hcfg]
    · intro bs
      rw [hrun, hstopped, hanswer]
      exact ⟨1, by decide, rfl⟩

/-- The initial `CMD_SET_OFFSET` fails. -/
theorem failStop_iff_offset :
    let as := First.reads First.sampleImage 0#8 0#8 0#8 ++ [some (0#8, 0#8)]
    let cfg := (main (First.sampleOptions false) First.sampleImage).run as
    pending cfg.state = some ⟨cmdSetOffset, 0#8, 0#8, 2⟩ ∧
      (FailStop (First.sampleOptions false) First.sampleImage as ⟨cmdSetOffset, 0#8, 0#8, 2⟩ ↔
        cfg.state.pc = .setOffset) :=
  have hc : pending ((main (First.sampleOptions false) First.sampleImage).run
      (First.reads First.sampleImage 0#8 0#8 0#8 ++ [some (0#8, 0#8)])).state =
      some ⟨cmdSetOffset, 0#8, 0#8, 2⟩ := by decide +kernel
  ⟨hc, failStop_iff _ _ _ _ hc (by decide +kernel)⟩

/-- The first word of a block fails: its trailer is sent, the phase is finalized,
the system restarts, and the program returns `0`. -/
theorem failStop_fails :
    ¬ ∀ opts img as c, pending ((main opts img).run as).state = some c →
      (∃ c' ∈ calls ((main opts img).run as).trace, c'.cmd = cmdSetPhase) →
      FailStop opts img as c := by
  intro h
  let as : List Transfer := First.reads First.sampleImage 0#8 0#8 0#8 ++
    [some (0#8, 0#8), some (0#8, 0#8), some (1#8, 0#8)]
  have hfail := h (First.sampleOptions false) First.sampleImage as
    ⟨cmdWriteData, 0#8, 0#8, 2⟩ (by decide +kernel) (by decide +kernel)
  let bs : List Transfer := [some (0#8, 0#8), none, none, none]
  obtain ⟨rc, hne, hpc⟩ := hfail.status bs
  have hzero : Pc.returned 0 = ((main (First.sampleOptions false) First.sampleImage).run
      (as ++ none :: bs)).state.pc := by decide +kernel
  exact hne (Pc.returned.inj (hzero.trans hpc)).symm

end Second
end EcFlash
