import EcFlash.First.Counters

/-!
# What one call leaves alone

The command of the call at each point, and frame facts about the code behind it:
which variables a call cannot change and which points it cannot lead to.
-/

namespace EcFlash
namespace First

open Reactive

/-- A run of `main` at one moment. -/
abbrev Moment := Config Call Transfer Out State

/-- What is observed of a run. -/
abbrev History := List (Event Call Transfer Out)

/-- The command of the call at each point. -/
def Pc.command : Pc → Byte
  | .readIdVerA => cmdReadIdVerA
  | .readIdVerB => cmdReadIdVerB
  | .readBaseOff => cmdReadBaseOff
  | .readStatus | .rejumpStatus => cmdReadStatus
  | .phaseCtrl | .rejumpPhase | .finalize => cmdPhaseCtrl
  | .setOffset | .rejumpOffset => cmdSetOffset
  | .poll => cmdPollProgress
  | .streamWord _ | .streamTrailer => cmdStreamData
  | .finishMode => cmdFinishMode
  | .returned _ | .sigfpe => 0#8

theorem pending_cmd {s : State} {c : Call} (hc : pending s = some c) :
    c.cmd = s.pc.command := by
  rcases s with ⟨pc, l⟩
  cases pc <;> simp only [pending, Option.some.injEq, reduceCtorEq] at hc
  all_goals rw [← hc]; rfl

theorem cmd_of_poll {s : State} {c : Call} (hc : pending s = some c) (hpoll : s.pc = .poll) :
    c.cmd = cmdPollProgress := by
  rw [pending_cmd hc, hpoll, Pc.command]

/-- The code behind an answered poll. -/
theorem resume_poll {s : State} (hpoll : s.pc = .poll) (r : Byte × Byte) :
    resume s (some r) = afterPoll { s.vars with resp := r } := by
  simp [resume, hpoll, onRead]

/-- A reply that asks for a block leads to the first word of it. -/
theorem resume_asks {s : State} (hpoll : s.pc = .poll) {r : Byte × Byte} (hr : AsksBlock r.1)
    (hfile : s.vars.ctx.fileSize ≠ 0#32) :
    resume s (some r) =
      emit (.progress (percentage s.vars.ctx.fileSize s.vars.remaining))
        (streamBlock (advance { s.vars with resp := r })) := by
  rw [resume_poll hpoll, afterPoll_of_asks (l := { s.vars with resp := r }) hr hfile]

/-- Any other reply leads to the loop test. -/
theorem resume_not_asks {s : State} (hpoll : s.pc = .poll) {r : Byte × Byte}
    (hr : ¬ AsksBlock r.1) : resume s (some r) = loopHead { s.vars with resp := r } := by
  rw [resume_poll hpoll, afterPoll_of_not_asks (l := { s.vars with resp := r }) hr]

theorem command_ne_poll {pc : Pc} (h : pc ≠ .poll) : pc.command ≠ cmdPollProgress := by
  cases pc <;> first | exact absurd rfl h | (simp only [Pc.command]; decide)

theorem command_ne_stream {pc : Pc} (h : pc.streaming = false) :
    pc.command ≠ cmdStreamData := by
  cases pc <;> first | (simp only [Pc.command]; decide) | simp [Pc.streaming] at h

/-- A stream-data command belongs to a block in progress. -/
theorem streaming_of_cmd {s : State} {c : Call} (hc : pending s = some c)
    (hcmd : c.cmd = cmdStreamData) : s.pc.streaming = true := by
  by_contra hnot
  rw [pending_cmd hc] at hcmd
  exact command_ne_stream (by simpa using hnot) hcmd

/-- The state of the program when a call has failed. -/
theorem resume_none {s : State} {c : Call} (hc : pending s = some c) :
    resume s none = (⟨.returned 1, s.vars⟩, []) := by
  rcases s with ⟨pc, l⟩
  cases pc <;> simp_all [pending, resume, onRead, onWrite, goto]

section Answer

variable {opts : Options} {img : Image} {cfg : Moment}

theorem answer_state (cfg : Moment) (c : Call) (a : Transfer) :
    ((main opts img).answer cfg c a).state = (resume cfg.state a).1 := rfl

theorem answer_trace (cfg : Moment) (c : Call) (a : Transfer) :
    ((main opts img).answer cfg c a).trace =
      cfg.trace ++ .call c a :: (resume cfg.state a).2.map .out := rfl

theorem outputs_answer (cfg : Moment) (c : Call) (a : Transfer) :
    outputs ((main opts img).answer cfg c a).trace =
      outputs cfg.trace ++ (resume cfg.state a).2 :=
  Machine.outputs_answer _ cfg c a

/-- Behind a reply that asks for a block its first word is waited on. -/
theorem answer_asks_state (opts : Options) (img : Image) (c : Call)
    (hpoll : cfg.state.pc = .poll) {r : Byte × Byte} (hr : AsksBlock r.1)
    (hfile : cfg.state.vars.ctx.fileSize ≠ 0#32) :
    ((main opts img).answer cfg c (some r)).state =
      (streamFrom 0 (loadBlock (advance { cfg.state.vars with resp := r }))).1 := by
  rw [answer_state, resume_asks hpoll hr hfile]
  rfl

/-- The progress and the seek are put out on the way. -/
theorem answer_asks_trace (opts : Options) (img : Image) (c : Call)
    (hpoll : cfg.state.pc = .poll) {r : Byte × Byte} (hr : AsksBlock r.1)
    (hfile : cfg.state.vars.ctx.fileSize ≠ 0#32) :
    ((main opts img).answer cfg c (some r)).trace = cfg.trace ++
      [.call c (some r),
        .out (.progress (percentage cfg.state.vars.ctx.fileSize cfg.state.vars.remaining)),
        .out (.fseek (advance { cfg.state.vars with resp := r }).temp
          (blockOffset (advance { cfg.state.vars with resp := r })))] := by
  rw [answer_trace, resume_asks hpoll hr hfile]
  rfl

end Answer

section Frame

variable {s : State}

/-- The loop test only prepares the payload of a re-jump. -/
theorem loopHead_frame (l : Locals) :
    ∃ io needRejump, (loopHead l).1.vars = { l with io, needRejump } := by
  unfold loopHead
  split <;> [split; skip] <;> exact ⟨_, _, rfl⟩

/-- Behind the four reads every call but a poll leaves the counters, the block
and what the EC settled as they are. -/
theorem resume_frame (hearly : s.pc.early = false) (hpoll : s.pc ≠ .poll) (a : Transfer) :
    ∃ io resp needRejump,
      (resume s a).1.vars = { s.vars with io, resp, needRejump } := by
  rcases s with ⟨pc, l⟩
  cases a with
  | none => cases pc <;> exact ⟨_, _, _, rfl⟩
  | some r =>
      cases pc with
      -- Straight-line code is evaluated; the calls with a test behind them come first.
      | poll => exact absurd rfl hpoll
      | setOffset | streamTrailer =>
          obtain ⟨io, needRejump, hvars⟩ := loopHead_frame l
          exact ⟨io, l.resp, needRejump, hvars⟩
      | rejumpStatus =>
          simp only [resume, onRead, afterJump]
          split <;> exact ⟨_, _, _, rfl⟩
      | streamWord i =>
          simp only [resume, onWrite, streamFrom]
          split <;> exact ⟨_, _, _, rfl⟩
      | _ => first | exact ⟨_, _, _, rfl⟩ | simp [Pc.early] at hearly

/-- A poll does not change what the EC settled. -/
theorem afterPoll_fixed (l : Locals) :
    (afterPoll l).1.vars.ctx = l.ctx ∧ (afterPoll l).1.vars.baseOffset = l.baseOffset := by
  unfold afterPoll
  split
  · split
    · exact ⟨rfl, rfl⟩
    · simp [emit, streamBlock, streamFrom, goto, loadBlock]
  · obtain ⟨io, needRejump, hvars⟩ := loopHead_frame l
    simp [hvars]

/-- Behind the four reads nothing changes what `parse_args` and the EC settled. -/
theorem resume_fixed (hearly : s.pc.early = false) (a : Transfer) :
    (resume s a).1.vars.ctx = s.vars.ctx ∧
      (resume s a).1.vars.baseOffset = s.vars.baseOffset := by
  by_cases hpoll : s.pc = .poll
  · cases a with
    | none => simp [resume, hpoll, onRead, goto]
    | some r => simpa [resume, hpoll, onRead] using afterPoll_fixed { s.vars with resp := r }
  · obtain ⟨io, resp, needRejump, hframe⟩ := resume_frame hearly hpoll a
    simp [hframe]

theorem resume_startOffset (h : s.pc.early = false) (a : Transfer) :
    startOffset (resume s a).1.vars = startOffset s.vars := by
  obtain ⟨hctx, hbase⟩ := resume_fixed h a
  simp [startOffset, hctx, hbase]

/-- The loop test does not begin a block. -/
theorem loopHead_streaming (l : Locals) : (loopHead l).1.pc.streaming = false := by
  unfold loopHead
  split <;> [split; skip] <;> rfl

/-- Only a poll begins a block. -/
theorem resume_streaming (hpoll : s.pc ≠ .poll) (hstream : ∀ i, s.pc ≠ .streamWord i)
    (a : Transfer) : (resume s a).1.pc.streaming = false := by
  rcases s with ⟨pc, l⟩
  cases a with
  | none => cases pc <;> rfl
  | some r =>
      cases pc with
      | poll => exact absurd rfl hpoll
      | streamWord i => exact absurd rfl (hstream i)
      | setOffset | streamTrailer => exact loopHead_streaming l
      | readIdVerB =>
          simp only [resume, onRead, afterIdVerB, romGuard]
          split <;> rfl
      | readStatus =>
          simp only [resume, onRead, afterStatus, choosePhase]
          split <;> split <;> rfl
      | rejumpStatus =>
          simp only [resume, onRead, afterJump]
          split <;> rfl
      | _ => rfl

theorem loopHead_handshake (l : Locals) : (loopHead l).1.pc.handshake = false := by
  unfold loopHead
  split <;> [split; skip] <;> rfl

/-- Behind the handshake the program does not come back to it. -/
theorem resume_handshake (h : s.pc.handshake = false) (a : Transfer) :
    (resume s a).1.pc.handshake = false := by
  rcases s with ⟨pc, l⟩
  cases a with
  | none => cases pc <;> rfl
  | some r =>
      cases pc with
      | poll =>
          simp only [resume, onRead, afterPoll]
          split <;> [split; exact loopHead_handshake _] <;> rfl
      | streamTrailer => exact loopHead_handshake l
      | rejumpStatus =>
          simp only [resume, onRead, afterJump]
          split <;> rfl
      | streamWord i =>
          simp only [resume, onWrite, streamFrom]
          split <;> rfl
      | _ => first | rfl | simp [Pc.handshake] at h

/-- Nor does it come back to the four reads once it is behind them. -/
theorem resume_early (h : s.pc.early = false) (a : Transfer) :
    (resume s a).1.pc.early = false := by
  cases hhand : s.pc.handshake with
  | false => exact early_of_handshake (resume_handshake hhand a)
  | true =>
      -- Between the four reads and the loop there are two calls.
      rcases s with ⟨pc, l⟩
      cases pc with
      | phaseCtrl => cases a <;> rfl
      | setOffset =>
          cases a with
          | none => rfl
          | some r => exact early_of_handshake (loopHead_handshake l)
      | _ => simp_all [Pc.early, Pc.handshake]

/-- The loop is entered from the last call of the handshake. -/
theorem looping_of_resume {a : Transfer} (h : (resume s a).1.pc.looping = true) :
    s.pc.looping = true ∨ s.pc = .setOffset := by
  rcases s with ⟨pc, l⟩
  cases pc with
  | readIdVerB =>
      cases a with
      | none => exact absurd h (by simp [resume, onRead, goto, Pc.looping])
      | some r =>
          simp only [resume, onRead, afterIdVerB, romGuard] at h
          split at h <;> exact absurd h (by simp [emit, goto, Pc.looping])
  | readStatus =>
      cases a with
      | none => exact absurd h (by simp [resume, onRead, goto, Pc.looping])
      | some r =>
          simp only [resume, onRead, afterStatus, choosePhase] at h
          split at h <;> split at h <;> exact absurd h (by simp [emit, goto, Pc.looping])
  | setOffset => exact .inr rfl
  | rejumpPhase | rejumpStatus | rejumpOffset | poll | streamWord i | streamTrailer =>
      exact .inl rfl
  | _ => cases a <;> exact absurd h (by simp [resume, onRead, onWrite, emit, goto, afterIdVerA,
      afterBaseOff, afterPhaseCtrl, afterFinalize, Pc.looping])

end Frame

end First
end EcFlash
