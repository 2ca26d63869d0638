import EcFlash.First.Outcome

/-!
# Runs that finish

With an EC that answers every poll `1` and every re-jump status `0x55` the flash
of a full-size image finishes, for every base offset and with or without the
boot block.  The measure counts the blocks that are not acknowledged yet, and
within a block the calls that are left.
-/

namespace EcFlash
namespace First

open Reactive

/-- The answer of an EC that accepts everything. -/
def accept (s : State) : Transfer :=
  match s.pc with
  | .rejumpStatus => some (0x55#8, 0#8)
  | .poll => some (1#8, 0#8)
  | _ => some (0#8, 0#8)

/-- How far a point is from the end, apart from the blocks to come. -/
def Pc.distance : Pc → Nat
  | .finishMode => 1
  | .finalize => 2
  | .poll => 3
  | .rejumpOffset => 4
  | .rejumpStatus => 5
  | .rejumpPhase => 6
  | .streamTrailer => 7
  | .streamWord i => 8 + (32 - i) / 2
  | .setOffset => 25
  | .phaseCtrl => 26
  | _ => 0

/-- The blocks to come, and the distance within the current one. -/
def toGo (cfg : Moment) : Nat :=
  25 * (blockCount cfg.state.vars - ackCount (exchanges cfg.trace)) + cfg.state.pc.distance

section Progress

variable {opts : Options} {img : Image} {xs : Exchanges} {s : State} {c : Call}

theorem distance_loopHead (l : Locals) : (loopHead l).1.pc.distance ≤ 6 := by
  unfold loopHead
  split <;> [split; skip] <;> simp [goto, afterLoop, emit, Pc.distance]

theorem jumpFailed_loopHead (l : Locals) : .jumpFailed ∉ (loopHead l).2 := by
  unfold loopHead
  split <;> [split; skip] <;> simp [goto, afterLoop, emit]

theorem accept_isSome (s : State) : ∃ r, accept s = some r := by
  unfold accept
  split <;> exact ⟨_, rfl⟩

/-- An EC that accepts everything lets no status check fail. -/
theorem jumpFailed_accept (h : s.pc.chosen = true) : .jumpFailed ∉ (resume s (accept s)).2 := by
  rcases s with ⟨pc, l⟩
  cases pc with
  | setOffset | streamTrailer => exact jumpFailed_loopHead l
  | rejumpStatus => simp [accept, resume, onRead, afterJump, goto]
  | poll =>
      show .jumpFailed ∉ (afterPoll { l with resp := (1#8, 0#8) }).2
      unfold afterPoll
      split
      · split <;> simp [goto, emit, streamBlock, streamFrom]
      · exact jumpFailed_loopHead _
  | streamWord i =>
      simp only [accept, resume, onWrite, streamFrom]
      split <;> simp [goto]
  | readIdVerA | readIdVerB | readBaseOff | readStatus | sigfpe => simp [Pc.chosen] at h
  | _ => simp [accept, resume, onWrite, goto, emit, afterPhaseCtrl, afterFinalize]

/-- Apart from a poll, the accepted call brings the program closer to the end. -/
theorem distance_accept (hinv : Inv opts img xs s) (hc : pending s = some c)
    (h : s.pc.chosen = true) (hpoll : s.pc ≠ .poll) :
    (resume s (accept s)).1.pc.distance < s.pc.distance := by
  have hword := hinv.word
  rcases s with ⟨pc, l⟩
  cases pc with
  | setOffset | streamTrailer =>
      show (loopHead l).1.pc.distance < _
      exact Nat.lt_of_le_of_lt (distance_loopHead l) (by simp [Pc.distance])
  | rejumpStatus => simp [accept, resume, onRead, afterJump, goto, Pc.distance]
  | poll => exact absurd rfl hpoll
  | streamWord i =>
      obtain ⟨hlt, heven, -⟩ := hword i rfl
      simp only [accept, resume, onWrite, streamFrom]
      split <;> simp only [goto, Pc.distance] <;> omega
  | readIdVerA | readIdVerB | readBaseOff | readStatus | sigfpe => simp [Pc.chosen] at h
  | returned rc => simp [pending] at hc
  | _ => simp [accept, resume, onWrite, goto, emit, afterPhaseCtrl, afterFinalize, Pc.distance]

end Progress

/-- The runs that get on: an area is chosen, no status check has failed, and the
EC has settled base offset and boot block. -/
structure GetsOn (opts : Options) (img : Image) (base : Word) (included : Bool)
    (as : List Transfer) : Prop where
  chosen : ((main opts img).run as).state.pc.chosen = true
  jumped : .jumpFailed ∉ outputs ((main opts img).run as).trace
  baseOffset : ((main opts img).run as).state.vars.baseOffset = base
  included : ((main opts img).run as).state.vars.ctx.includeBootloader = included

section Run

variable (opts : Options) {img : Image} (hsize : img.size = 0x20000) {base : Word}
  {included : Bool}
include hsize

/-- A run that gets on has a step that does and that takes the measure down. -/
theorem getsOn_step (as : List Transfer) (c : Call) (h : GetsOn opts img base included as)
    (hc : (main opts img).pending ((main opts img).run as).state = some c) :
    ∃ a, GetsOn opts img base included (as ++ [a]) ∧
      toGo ((main opts img).run (as ++ [a])) < toGo ((main opts img).run as) := by
  have hinv := inv_run opts img as
  have hmeasured := measured_run opts hsize as h.chosen
  have hrun := Machine.step_of_pending hc (accept ((main opts img).run as).state)
  rw [← Machine.run_concat] at hrun
  obtain ⟨hchosen, hjumped, hbase, hincluded⟩ := h
  generalize hcfg : (main opts img).run as = cfg at *
  obtain ⟨r, hr⟩ := accept_isSome cfg.state
  have hpos : 0 < img.size := by omega
  have htracked := hinv.tracked fun hpc => by simp [hpc, Pc.chosen] at hchosen
  have hfile := htracked.fileSize_ne_zero hpos
  have hearly := early_of_chosen hchosen
  obtain ⟨hctx, hbaseOffset⟩ := resume_fixed hearly (accept cfg.state)
  have hstate : ((main opts img).answer cfg c (accept cfg.state)).state = _ :=
    answer_state cfg c (accept cfg.state)
  refine ⟨accept cfg.state, ⟨?_, ?_, ?_, ?_⟩, ?_⟩ <;> rw [hrun]
  · rw [hstate, hr]
    exact chosen_resume hchosen hfile r
  · rw [outputs_answer, List.mem_append, not_or]
    exact ⟨hjumped, jumpFailed_accept hchosen⟩
  · rw [hstate, hbaseOffset, hbase]
  · rw [hstate, hctx, hincluded]
  · have hcount : blockCount (resume cfg.state (accept cfg.state)).1.vars =
        blockCount cfg.state.vars := by
      simp [blockCount, areaSize, startOffset, hctx, hbaseOffset]
    unfold toGo
    rw [hstate, hcount, Machine.exchanges_answer]
    by_cases hpoll : cfg.state.pc = .poll
    · -- One more block is acknowledged, and the next one is still to be sent.
      obtain ⟨hne, -⟩ := hinv.waiting (by simp [hpoll, Pc.looping])
        (by simp [hpoll, Pc.streaming])
      have hlt := hmeasured.lt_iff.mpr hne
      have hcmd := cmd_of_poll hc hpoll
      have haccept : accept cfg.state = some (1#8, 0#8) := by simp [accept, hpoll]
      have hpc : (resume cfg.state (accept cfg.state)).1.pc = .streamWord 0 := by
        rw [haccept, resume_asks hpoll (.inr (.inl rfl)) hfile]
        rfl
      rw [hpc, hpoll, haccept, ackCount_poll hcmd]
      simp only [Pc.distance, if_true]
      omega
    -- Any other call brings the program closer to the end of the block.
    · have hacks : ackCount (exchanges cfg.trace ++ [(c, accept cfg.state)]) =
          ackCount (exchanges cfg.trace) := ackCount_of_ne_poll hc hpoll _
      have hdistance := distance_accept hinv hc hchosen hpoll
      rw [hacks]
      omega

/-- The four reads of an EC that passes the ROM guard, with base offset
`256 * hi + lo`. -/
def reads (img : Image) (hi lo status : Byte) : List Transfer :=
  [some ((img.byte? romInfoOffset.toNat).getD 0#8, 0#8), some (0#8, 0#8), some (hi, lo),
    some (status, 0#8)]

/-- The variables when they are answered. -/
def afterReads (opts : Options) (img : Image) (hi lo status : Byte) : Locals :=
  { openRom opts img with
    ctx := { (openRom opts img).ctx with
      ramId := (img.byte? romInfoOffset.toNat).getD 0#8 }
    resp := (status, 0#8)
    baseOffset := (hi.setWidth 32 <<< 8) ||| lo.setWidth 32 }

omit hsize in
/-- A guard that is off or sees a full-size file lets the program through. -/
theorem run_reads (hguard : opts.ignoreNid = true ∨ img.size = 0x20000) (hi lo status : Byte) :
    ((main opts img).run (reads img hi lo status)).state =
      (afterStatus (afterReads opts img hi lo status)).1 := by
  have hpasses : opts.ignoreNid = false → BitVec.ofNat 32 img.size = romExpectedSize := by
    intro hnid
    rw [hguard.resolve_left (by simp [hnid])]
    rfl
  cases hnid : opts.ignoreNid <;>
    simp [Machine.run, reads, afterReads, Machine.step, Machine.answer, Machine.initial, main,
      goto, emit, pending, resume, onRead, afterIdVerA, afterIdVerB, romGuard, openRom,
      afterBaseOff, hnid, hpasses]

omit hsize in
/-- The status decides about the boot block, and nothing else is settled. -/
theorem afterStatus_settles (l : Locals) :
    (afterStatus l).1.pc = .phaseCtrl ∧ (afterStatus l).1.vars.baseOffset = l.baseOffset ∧
      (afterStatus l).1.vars.ctx.includeBootloader =
        (l.ctx.includeBootloader && l.resp.1 ≠ 0x55#8) := by
  unfold afterStatus choosePhase
  by_cases hkept : l.resp.1 = 0x55#8 <;> cases hbbl : l.ctx.includeBootloader <;>
    simp [hkept, hbbl, emit, goto]

/-- Behind the four reads every run gets on. -/
theorem getsOn_reads (hi lo status : Byte) :
    GetsOn opts img ((hi.setWidth 32 <<< 8) ||| lo.setWidth 32)
      (opts.includeBootloader && status ≠ 0x55#8) (reads img hi lo status) := by
  have hrun := run_reads opts (.inr hsize) hi lo status
  obtain ⟨hpc, hbase, hincluded⟩ := afterStatus_settles (afterReads opts img hi lo status)
  have houtcome := outcome_run opts img (reads img hi lo status)
  rw [← hrun] at hpc hbase hincluded
  -- A failed status check would stand behind the loop.
  refine ⟨by simp [hpc, Pc.chosen], fun hfailed => ?_, hbase, hincluded⟩
  have hbehind := (houtcome.complete (houtcome.failed hfailed).1).1
  simp [hpc, Pc.behindLoop] at hbehind

/-- Every run that gets on can be continued to the end of a finished flash. -/
theorem exists_finished (as : List Transfer) (h : GetsOn opts img base included as) :
    ∃ bs, GetsOn opts img base included (as ++ bs) ∧
      LoopFinished ((main opts img).run (as ++ bs)) := by
  obtain ⟨bs, hbs, hstopped⟩ := Machine.exists_stopped toGo (getsOn_step opts hsize) as h
  refine ⟨bs, hbs, ?_⟩
  have houtcome := outcome_run opts img (as ++ bs)
  -- Of the points that wait on nothing only `return 0` has a chosen area.
  have hreturned : ((main opts img).run (as ++ bs)).state.pc = .returned 0 := by
    have hchosen := hbs.chosen
    cases hpc : ((main opts img).run (as ++ bs)).state.pc <;>
      simp_all [Pc.chosen, main, pending]
  have hbehind := houtcome.tail (.inr (.inr hreturned))
  obtain ⟨-, hcount, hfinished⟩ := houtcome.complete hbehind
  have hzero := hfinished hbs.jumped
  exact ⟨hbehind, hbs.jumped, hzero, hcount.left_lt hzero⟩

end Run

end First
end EcFlash
