import EcFlash.First.Area
import EcFlash.Reactive.History

/-!
# When a run reports success

A run reports success by the two commands of the tail, by the message that the
flash is complete, or by returning `0`.  It should do so only when the loop has
counted `remaining` down to zero.  The status check of the re-jump breaks out of
the loop into the same tail, so this fails as soon as one such check does;
`noFalseSuccess_iff` shows that nothing else goes wrong, up to a progress
message that a wrapped counter turns into the final one.
-/

namespace EcFlash
namespace First

open Reactive

/-- The calls made so far, the one that is waited on included. -/
def issued (cfg : Moment) : List Call :=
  calls cfg.trace ++ (pending cfg.state).toList

/-- `PHASE_FINALIZE` or `CMD_FINISH_MODE`. -/
def Finalizes (c : Call) : Prop :=
  c.cmd = cmdPhaseCtrl ∧ c.io0 = phaseFinalize ∨ c.cmd = cmdFinishMode

/-- Everything by which a run reports success. -/
def ReportsSuccess (cfg : Moment) : Prop :=
  (∃ c ∈ issued cfg, Finalizes c) ∨ .flashComplete ∈ outputs cfg.trace ∨
    .progress 100#32 ∈ outputs cfg.trace ∨ cfg.state.pc = .returned 0

/-- The loop has ended with `remaining = 0`. -/
structure LoopFinished (cfg : Moment) : Prop where
  /-- The program is behind the loop. -/
  behind : .flashComplete ∈ outputs cfg.trace
  jumped : .jumpFailed ∉ outputs cfg.trace
  remaining : cfg.state.vars.remaining = 0#32
  /-- What the acknowledged blocks leave of the area lies below the cut-off. -/
  acknowledged : left (exchanges cfg.trace) cfg.state.vars < 0x4001#32

/-- Success is reported only when the loop has finished, and a run that stops
without that stops with an error and sends neither command of the tail. -/
structure NoFalseSuccess (cfg : Moment) : Prop where
  success : ReportsSuccess cfg → LoopFinished cfg
  earlier : pending cfg.state = none → ¬ LoopFinished cfg →
    ((∃ rc ≠ 0, cfg.state.pc = .returned rc) ∨ cfg.state.pc = .sigfpe) ∧
      ∀ c ∈ issued cfg, ¬ Finalizes c

/-- The answer does not lead to the branch that goes wrong: a re-jump status is
`0x55`, and no poll asks for a block while the progress already reads 100. -/
def StepMeets (s : State) (a : Transfer) : Prop :=
  match s.pc, a with
  | .rejumpStatus, some r => r.1 = 0x55#8
  | .poll, some r =>
      AsksBlock r.1 → percentage s.vars.ctx.fileSize s.vars.remaining ≠ 100#32
  | _, _ => True

/-- The points behind the loop. -/
def Pc.behindLoop : Pc → Bool
  | .finalize | .finishMode | .returned _ => true
  | _ => false

section Points

variable {pc : Pc}

theorem early_of_behindLoop (h : pc.behindLoop = true) : pc.early = false := by
  cases pc <;> first | rfl | simp [Pc.behindLoop] at h

theorem streaming_of_behindLoop (h : pc.behindLoop = true) : pc.streaming = false := by
  cases pc <;> first | rfl | simp [Pc.behindLoop] at h

theorem behindLoop_of_handshake (h : pc.handshake = true) : pc.behindLoop = false := by
  cases pc <;> first | rfl | simp [Pc.handshake] at h

end Points

/-- What a piece of code in front of the tail may lead to. -/
structure Leads (n : Next) : Prop where
  complete : .flashComplete ∈ n.2 ↔ n.1.pc = .finalize
  notBehind : n.1.pc ≠ .finishMode ∧ n.1.pc ≠ .returned 0
  failed : .jumpFailed ∈ n.2 → n.1.pc = .finalize ∧ n.1.vars.remaining ≠ 0#32
  finished : n.1.pc = .finalize → .jumpFailed ∉ n.2 → n.1.vars.remaining = 0#32
  phase : n.1.pc = .phaseCtrl ∨ n.1.pc = .rejumpPhase → n.1.vars.io.1 ≠ phaseFinalize

section Leads

variable {s : State} {l : Locals} {c : Call}

theorem leads_loopHead (l : Locals) : Leads (loopHead l) := by
  unfold loopHead
  split
  · split <;> constructor <;> simp [goto, phaseNormal, phaseFinalize]
  · rename_i hzero
    constructor <;> simp_all [afterLoop, emit, goto]

theorem leads_goto {pc : Pc} (hpc : pc.behindLoop = false)
    (hphase : pc = .phaseCtrl ∨ pc = .rejumpPhase → l.io.1 ≠ phaseFinalize) :
    Leads (goto pc l) := by
  constructor <;> simp only [goto, List.not_mem_nil, false_iff, false_implies]
  · rintro rfl
    simp [Pc.behindLoop] at hpc
  · constructor <;> rintro rfl <;> simp [Pc.behindLoop] at hpc
  · rintro rfl
    simp [Pc.behindLoop] at hpc
  · exact hphase

/-- A message of the handshake or the loop changes nothing. -/
theorem Leads.emit {n : Next} (h : Leads n) {o : Out}
    (ho : o ≠ .flashComplete ∧ o ≠ .jumpFailed) : Leads (emit o n) := by
  have hmem (o' : Out) (hne : o ≠ o') : o' ∈ (First.emit o n).2 ↔ o' ∈ n.2 := by
    simp [First.emit, hne.symm]
  constructor
  · exact (hmem _ ho.1).trans h.complete
  · exact h.notBehind
  · exact fun hf => h.failed ((hmem _ ho.2).mp hf)
  · exact fun hpc hf => h.finished hpc fun hin => hf ((hmem _ ho.2).mpr hin)
  · exact h.phase

theorem leads_returned_one (l : Locals) : Leads (goto (.returned 1) l) := by
  constructor <;> simp [goto]

theorem leads_streamFrom (i : Nat) (l : Locals) : Leads (streamFrom i l) := by
  unfold streamFrom
  split <;> exact leads_goto rfl nofun

theorem leads_afterPoll (l : Locals) : Leads (afterPoll l) := by
  unfold afterPoll
  split
  · split
    · exact leads_goto rfl nofun
    · exact ((leads_streamFrom 0 _).emit (by simp)).emit (by simp)
  · exact leads_loopHead l

/-- The failed check is the only way into the tail with something left. -/
theorem leads_afterJump (hne : l.remaining ≠ 0#32) : Leads (afterJump l) := by
  unfold afterJump
  split
  · constructor <;> simp [afterLoop, emit, goto, hne]
  · exact leads_goto rfl (by simp)

theorem leads_choosePhase (l : Locals) : Leads (choosePhase l) := by
  unfold choosePhase
  split
  · exact leads_goto rfl fun _ => by simp [phaseNormal, phaseFinalize]
  · exact leads_goto rfl fun _ => by simp [phaseWithBbl, phaseFinalize]

theorem leads_afterStatus (l : Locals) : Leads (afterStatus l) := by
  unfold afterStatus
  split
  · exact (leads_choosePhase _).emit (by simp)
  · exact leads_choosePhase l

theorem leads_afterIdVerB (l : Locals) : Leads (afterIdVerB l) := by
  have hguard (l : Locals) : Leads (romGuard l) := by
    unfold romGuard
    split
    · exact (leads_returned_one l).emit (by simp)
    · exact leads_goto rfl nofun
  exact ((hguard _).emit (by simp)).emit (by simp)

/-- In front of the tail every call leads on as `Leads` says. -/
theorem leads_resume (hfront : s.pc.behindLoop = false) (hc : pending s = some c)
    (hne : s.pc = .rejumpStatus → s.vars.remaining ≠ 0#32) (a : Transfer) :
    Leads (resume s a) := by
  rcases s with ⟨pc, l⟩
  cases a with
  | none =>
      rw [resume_none hc]
      exact leads_returned_one l
  | some r =>
      cases pc with
      | readIdVerB => exact leads_afterIdVerB _
      | readStatus => exact leads_afterStatus _
      | setOffset | streamTrailer => exact leads_loopHead l
      | rejumpStatus => exact leads_afterJump (hne rfl)
      | poll => exact leads_afterPoll _
      | streamWord i => exact leads_streamFrom _ l
      | sigfpe => simp [pending] at hc
      | finalize | finishMode | returned rc => simp [Pc.behindLoop] at hfront
      | _ => exact leads_goto rfl (by simp)

end Leads

/-- What holds of every run about the tail. -/
structure Outcome (cfg : Moment) : Prop where
  phase : cfg.state.pc = .phaseCtrl ∨ cfg.state.pc = .rejumpPhase →
    cfg.state.vars.io.1 ≠ phaseFinalize
  sent : (∃ c ∈ calls cfg.trace, Finalizes c) → .flashComplete ∈ outputs cfg.trace
  tail : cfg.state.pc = .finalize ∨ cfg.state.pc = .finishMode ∨ cfg.state.pc = .returned 0 →
    .flashComplete ∈ outputs cfg.trace
  complete : .flashComplete ∈ outputs cfg.trace →
    cfg.state.pc.behindLoop = true ∧ Counted (exchanges cfg.trace) cfg.state.vars ∧
      (.jumpFailed ∉ outputs cfg.trace → cfg.state.vars.remaining = 0#32)
  failed : .jumpFailed ∈ outputs cfg.trace →
    .flashComplete ∈ outputs cfg.trace ∧ cfg.state.vars.remaining ≠ 0#32

section Run

variable {opts : Options} {img : Image} {cfg : Moment} {c : Call}

/-- In front of the tail the first message of it has not been printed. -/
theorem Outcome.fresh (h : Outcome cfg) (hfront : cfg.state.pc.behindLoop = false) :
    .flashComplete ∉ outputs cfg.trace := by
  intro hdone
  simpa [hfront] using (h.complete hdone).1

/-- The calls of the tail. -/
theorem tail_of_pending {s : State} (hc : pending s = some c) (h : s.pc.behindLoop = true) :
    s.pc = .finalize ∨ s.pc = .finishMode := by
  cases hs : s.pc <;> simp_all [Pc.behindLoop, pending]

/-- They leave the counters and what the EC settled as they are. -/
theorem tail_frame {s : State} (hc : pending s = some c) (h : s.pc.behindLoop = true)
    (a : Transfer) : s.pc ≠ .poll ∧ ∃ io resp needRejump,
      (resume s a).1.vars = { s.vars with io, resp, needRejump } := by
  have hpoll : s.pc ≠ .poll := by
    rcases tail_of_pending hc h with hs | hs <;> simp [hs]
  exact ⟨hpoll, resume_frame (early_of_behindLoop h) hpoll a⟩

/-- At the status check of a re-jump something is left to flash. -/
theorem remaining_of_rejumpStatus {xs : Exchanges} {s : State} (hinv : Inv opts img xs s)
    (hs : s.pc = .rejumpStatus) : s.vars.remaining ≠ 0#32 :=
  (hinv.waiting (by simp [hs, Pc.looping]) (by simp [hs, Pc.streaming])).1

/-- The tail prints nothing but the last message. -/
theorem resume_tail {s : State} (h : s.pc.behindLoop = true) (a : Transfer) :
    (resume s a).1.pc.behindLoop = true ∧
      ((resume s a).2 = [] ∨ (resume s a).2 = [.flashFinish]) := by
  rcases s with ⟨pc, l⟩
  cases pc with
  | finalize | finishMode | returned rc =>
      cases a <;> simp [resume, onWrite, goto, emit, afterFinalize, Pc.behindLoop]
  | _ => simp [Pc.behindLoop] at h

/-- In the tail an answered call changes none of what is known. -/
theorem outcome_tail (h : Outcome cfg) (hc : pending cfg.state = some c)
    (hbehind : cfg.state.pc.behindLoop = true) (a : Transfer) :
    Outcome ((main opts img).answer cfg c a) := by
  obtain ⟨hnext, hos⟩ := resume_tail hbehind a
  have hpc := tail_of_pending hc hbehind
  have hdone : .flashComplete ∈ outputs cfg.trace := h.tail (by tauto)
  obtain ⟨-, hcount, hfinished⟩ := h.complete hdone
  obtain ⟨hpoll, io, resp, needRejump, hframe⟩ := tail_frame hc hbehind a
  have hremaining : (resume cfg.state a).1.vars.remaining = cfg.state.vars.remaining := by
    simp [hframe]
  have houts (o : Out) (ho : o ≠ .flashFinish) :
      o ∈ outputs ((main opts img).answer cfg c a).trace ↔ o ∈ outputs cfg.trace := by
    rcases hos with hos | hos <;> simp [outputs_answer, hos, ho]
  constructor
  · rw [answer_state]
    rintro (hphase | hphase) <;> simp [hphase, Pc.behindLoop] at hnext
  · intro _
    exact (houts _ (by simp)).mpr hdone
  · intro _
    exact (houts _ (by simp)).mpr hdone
  · intro _
    refine ⟨hnext, ?_, fun hfailed => ?_⟩
    · rw [Machine.exchanges_answer, answer_state]
      exact hcount.congr (ackCount_of_ne_poll hc hpoll a) (by simp [hframe]) (by simp [hframe])
        hremaining
    · rw [answer_state, hremaining]
      exact hfinished fun hf => hfailed ((houts _ (by simp)).mpr hf)
  · intro hf
    rw [answer_state, hremaining]
    exact ⟨(houts _ (by simp)).mpr hdone, (h.failed ((houts _ (by simp)).mp hf)).2⟩

/-- In front of the tail no call finalizes. -/
theorem not_finalizes (h : Outcome cfg) (hc : pending cfg.state = some c)
    (hfront : cfg.state.pc.behindLoop = false) : ¬ Finalizes c := by
  have hcmd := pending_cmd hc
  have hphase := h.phase
  -- The command alone does not tell the phases apart, the payload does.
  rcases cfg with ⟨tr, pc, l⟩
  rintro (⟨hctrl, hio⟩ | hfinish)
  · rw [hcmd] at hctrl
    cases pc with
    | phaseCtrl | rejumpPhase =>
        simp only [pending, Option.some.injEq] at hc
        rw [← hc] at hio
        exact hphase (by simp) hio
    | finalize => simp [Pc.behindLoop] at hfront
    | _ => exact absurd hctrl (by simp only [Pc.command]; decide)
  · rw [hcmd] at hfinish
    cases pc with
    | finishMode => simp [Pc.behindLoop] at hfront
    | _ => exact absurd hfinish (by simp only [Pc.command]; decide)

/-- One answered call keeps what is known about the tail. -/
theorem outcome_answer (hinv : Inv opts img (exchanges cfg.trace) cfg.state)
    (h : Outcome cfg) (hc : pending cfg.state = some c) (a : Transfer) :
    Outcome ((main opts img).answer cfg c a) := by
  cases hbehind : cfg.state.pc.behindLoop with
  | true => exact outcome_tail h hc hbehind a
  | false =>
      have hfresh := h.fresh hbehind
      have hunsent : ∀ c' ∈ calls cfg.trace ++ [c], ¬ Finalizes c' := by
        intro c' hc'
        rcases List.mem_append.mp hc' with hc' | hc'
        · exact fun hf => hfresh (h.sent ⟨c', hc', hf⟩)
        · rw [List.mem_singleton.mp hc']
          exact not_finalizes h hc hbehind
      have hjump : .jumpFailed ∉ outputs cfg.trace := fun hf => hfresh (h.failed hf).1
      have hleads := leads_resume hbehind hc (remaining_of_rejumpStatus hinv) a
      have hnext := inv_resume hinv hc a
      have houts (o : Out) (ho : o ∉ outputs cfg.trace) :
          o ∈ outputs ((main opts img).answer cfg c a).trace ↔ o ∈ (resume cfg.state a).2 := by
        simp [outputs_answer, ho]
      constructor
      · exact hleads.phase
      · rintro ⟨c', hc', hf⟩
        rw [Machine.calls_answer] at hc'
        exact absurd hf (hunsent c' hc')
      · rw [houts _ hfresh, answer_state]
        rintro (hs | hs | hs)
        · exact hleads.complete.mpr hs
        · exact absurd hs hleads.notBehind.1
        · exact absurd hs hleads.notBehind.2
      · rw [houts _ hfresh, houts _ hjump, answer_state, Machine.exchanges_answer]
        intro hdone
        have hs := hleads.complete.mp hdone
        exact ⟨by simp [hs, Pc.behindLoop], hnext.counted (by simp [hs, Pc.counting]),
          hleads.finished hs⟩
      · rw [houts _ hfresh, houts _ hjump, answer_state]
        intro hf
        exact ⟨hleads.complete.mpr (hleads.failed hf).1, (hleads.failed hf).2⟩

theorem outcome_run (opts : Options) (img : Image) (as : List Transfer) :
    Outcome ((main opts img).run as) := by
  refine Machine.run_invariant_under (I := fun cfg => Inv opts img (exchanges cfg.trace) cfg.state)
    (inv_run opts img) ?_ (fun cfg c a hinv h hc => outcome_answer hinv h hc a) as
  constructor <;> simp [main, Machine.initial, goto, calls, exchanges, outputs]

/-- Neither of the two messages that announce a false success is printed. -/
def Clean (os : List Out) : Prop :=
  .jumpFailed ∉ os ∧ .progress 100#32 ∉ os

theorem clean_append (os os' : List Out) : Clean (os ++ os') ↔ Clean os ∧ Clean os' := by
  simp only [Clean, List.mem_append, not_or]
  tauto

theorem clean_loopHead (l : Locals) : Clean (loopHead l).2 := by
  unfold loopHead
  split <;> [split; skip] <;> simp [Clean, goto, afterLoop, emit]

/-- A step meets the condition exactly when it prints neither message. -/
theorem stepMeets_iff (s : State) (a : Transfer) : StepMeets s a ↔ Clean (resume s a).2 := by
  rcases s with ⟨pc, l⟩
  cases a with
  | none => cases pc <;> simp [StepMeets, Clean, resume, onRead, onWrite, goto]
  | some r =>
      cases pc with
      | readIdVerB =>
          simp only [StepMeets, resume, onRead, afterIdVerB, romGuard]
          split <;> simp [Clean, emit, goto]
      | readStatus =>
          simp only [StepMeets, resume, onRead, afterStatus, choosePhase]
          split <;> split <;> simp [Clean, emit, goto]
      | setOffset | streamTrailer => simpa [StepMeets, resume, onWrite] using clean_loopHead l
      | rejumpStatus =>
          simp only [StepMeets, resume, onRead, afterJump]
          by_cases hr : r.1 = 0x55#8 <;> simp [hr, Clean, emit, goto, afterLoop]
      | streamWord i =>
          simp only [StepMeets, resume, onWrite, streamFrom]
          split <;> simp [Clean, goto]
      | poll =>
          show (AsksBlock r.1 → percentage l.ctx.fileSize l.remaining ≠ 100#32) ↔
            Clean (afterPoll { l with resp := r }).2
          by_cases hr : AsksBlock r.1
          · by_cases hfile : l.ctx.fileSize = 0#32
            -- An empty file stops the program before anything is printed.
            · have hzero : percentage l.ctx.fileSize l.remaining = 0#32 := by
                simp [percentage, hfile]
              have hstop : afterPoll { l with resp := r } = goto .sigfpe { l with resp := r } := by
                unfold AsksBlock at hr
                simp [afterPoll, hr, hfile]
              simp [hstop, hzero, hr, Clean, goto]
            · rw [afterPoll_of_asks (l := { l with resp := r }) hr hfile]
              have hstream : (streamFrom 0 (loadBlock (advance { l with resp := r }))).2 = [] := rfl
              simp [hr, Clean, emit, streamBlock, hstream, eq_comm]
          · rw [afterPoll_of_not_asks (l := { l with resp := r }) hr]
            simp [hr, clean_loopHead]
      | _ => simp [StepMeets, Clean, resume, onRead, onWrite, goto, emit, afterIdVerA,
          afterBaseOff, afterPhaseCtrl, afterFinalize]

theorem stepMeets_of_stopped {s : State} (h : pending s = none) (a : Transfer) :
    StepMeets s a := by
  rcases s with ⟨pc, l⟩
  cases pc <;> simp_all [pending, StepMeets]

/-- A run prints neither message exactly when all its steps meet the condition. -/
theorem clean_run_iff (opts : Options) (img : Image) (as : List Transfer) :
    Clean (outputs ((main opts img).run as).trace) ↔
      (main opts img).AllSteps (fun cfg a => StepMeets cfg.state a) as := by
  refine Machine.run_iff_allSteps (P := fun cfg => Clean (outputs cfg.trace))
    (I := fun _ => True) (fun _ => trivial) ?_ ?_ ?_ as
  · simp [Clean, main, Machine.initial, goto, outputs]
  · exact fun cfg a hstopped => stepMeets_of_stopped hstopped a
  · intro cfg c a _ _
    rw [outputs_answer, clean_append, stepMeets_iff]

/-- Without the two messages success is reported only behind a finished loop. -/
theorem noFalseSuccess_of_clean (h : Outcome cfg) (hclean : Clean (outputs cfg.trace)) :
    NoFalseSuccess cfg := by
  have hsuccess : ReportsSuccess cfg → LoopFinished cfg := by
    intro hreports
    have hbehind : .flashComplete ∈ outputs cfg.trace := by
      -- Each report but the two messages is made behind the loop.
      rcases hreports with ⟨c, hc, hf⟩ | hdone | hprogress | hzero
      · rcases List.mem_append.mp hc with hc | hc
        · exact h.sent ⟨c, hc, hf⟩
        · rw [Option.mem_toList] at hc
          cases hfront : cfg.state.pc.behindLoop with
          | false => exact absurd hf (not_finalizes h hc hfront)
          | true => exact h.tail ((tail_of_pending hc hfront).imp_right .inl)
      · exact hdone
      · exact absurd hprogress hclean.2
      · exact h.tail (.inr (.inr hzero))
    obtain ⟨-, hcount, hfinished⟩ := h.complete hbehind
    have hzero := hfinished hclean.1
    exact ⟨hbehind, hclean.1, hzero, hcount.left_lt hzero⟩
  refine ⟨hsuccess, fun hstopped hunfinished => ⟨?_, fun c hc hf => ?_⟩⟩
  · cases hs : cfg.state.pc with
    | returned rc =>
        refine .inl ⟨rc, ?_, rfl⟩
        rintro rfl
        exact hunfinished (hsuccess (.inr (.inr (.inr hs))))
    | sigfpe => exact .inr rfl
    | _ => simp [pending, hs] at hstopped
  · exact hunfinished (hsuccess (.inl ⟨c, hc, hf⟩))

/-- An answer that gives no false success is one that the code gets right. -/
theorem stepMeets_of_noFalseSuccess {a : Transfer}
    (houtcome : Outcome ((main opts img).answer cfg c a))
    (hnow : NoFalseSuccess ((main opts img).answer cfg c a)) : StepMeets cfg.state a := by
  by_contra hmeets
  unfold StepMeets at hmeets
  split at hmeets
  · -- A failed status check: the run is behind the loop, and not finished.
    rename_i r hpc
    have hfailed : .jumpFailed ∈ outputs ((main opts img).answer cfg c (some r)).trace := by
      rw [outputs_answer, resume, hpc]
      simp [onRead, afterJump, hmeets, emit]
    have hdone := (houtcome.failed hfailed).1
    exact (hnow.success (.inr (.inl hdone))).jumped hfailed
  · -- The message of a finished flash, while a block is being streamed.
    rename_i r hpc
    simp only [not_forall, not_not] at hmeets
    obtain ⟨hr, hpct⟩ := hmeets
    have hfile : cfg.state.vars.ctx.fileSize ≠ 0#32 := by
      intro hzero
      simp [percentage, hzero] at hpct
    have hprogress : .progress 100#32 ∈
        outputs ((main opts img).answer cfg c (some r)).trace := by
      rw [outputs_answer, resume_asks hpc hr hfile, hpct]
      simp [emit]
    have hbehind := (hnow.success (.inr (.inr (.inl hprogress)))).behind
    have hend := (houtcome.complete hbehind).1
    rw [answer_asks_state _ _ _ hpc hr hfile] at hend
    simp [streamFrom, goto, Pc.behindLoop] at hend
  · exact hmeets trivial

end Run

/-- A false success is reported no later than one of the two messages. -/
theorem clean_of_noFalseSuccess (opts : Options) (img : Image) (as : List Transfer)
    (h : ∀ n, NoFalseSuccess ((main opts img).run (as.take n))) :
    Clean (outputs ((main opts img).run as).trace) := by
  induction as using List.reverseRecOn with
  | nil => simp [Clean, main, Machine.initial, goto, outputs]
  | append_singleton as a ih =>
      -- The prefixes of the shorter run are prefixes of the longer one.
      have hbefore : Clean (outputs ((main opts img).run as).trace) := by
        apply ih
        intro n
        have hn := h (min n as.length)
        rw [List.take_append_of_le_length (by omega)] at hn
        rwa [← List.take_take, List.take_length] at hn
      have hnow := h (as.length + 1)
      have houtcome := outcome_run opts img (as ++ [a])
      rw [List.take_of_length_le (by simp)] at hnow
      rw [Machine.run_concat] at hnow houtcome ⊢
      cases hc : pending ((main opts img).run as).state with
      | none => rwa [Machine.step_of_stopped hc]
      | some c =>
          rw [Machine.step_of_pending hc] at hnow houtcome ⊢
          rw [outputs_answer, clean_append]
          exact ⟨hbefore, (stepMeets_iff _ a).mp (stepMeets_of_noFalseSuccess houtcome hnow)⟩

/-- A run reports no false success at any moment exactly when no re-jump status
fails its check and no poll asks for a block while the progress reads 100. -/
theorem noFalseSuccess_iff (opts : Options) (img : Image) (as : List Transfer) :
    (∀ n, NoFalseSuccess ((main opts img).run (as.take n))) ↔
      (main opts img).AllSteps (fun cfg a => StepMeets cfg.state a) as := by
  rw [← clean_run_iff]
  constructor
  · exact clean_of_noFalseSuccess opts img as
  · intro hclean n
    apply noFalseSuccess_of_clean (outcome_run opts img _)
    rw [clean_run_iff] at hclean ⊢
    exact hclean.take n

/-- With `-bbl` and base offset `0x20`, the re-jump after the first block reads
status `0`: the program finalizes, restarts the system and returns `0`. -/
theorem noFalseSuccess_fails :
    ¬ ∀ opts img as, NoFalseSuccess ((main opts img).run as) := by
  intro h
  have hrun := h (sampleOptions true) sampleImage
    (handshakeReplies 0#8 0x20#8 0#8 ++ pollAndBlock 1#8 ++ List.replicate 4 (some (0#8, 0#8)))
  have hzero : .returned 0 = ((main (sampleOptions true) sampleImage).run
      (handshakeReplies 0#8 0x20#8 0#8 ++ pollAndBlock 1#8 ++
        List.replicate 4 (some (0#8, 0#8)))).state.pc := by decide +kernel
  have hfailed : .jumpFailed ∈ outputs ((main (sampleOptions true) sampleImage).run
      (handshakeReplies 0#8 0x20#8 0#8 ++ pollAndBlock 1#8 ++
        List.replicate 4 (some (0#8, 0#8)))).trace := by decide +kernel
  exact (hrun.success (.inr (.inr (.inr hzero.symm)))).jumped hfailed

end First
end EcFlash
