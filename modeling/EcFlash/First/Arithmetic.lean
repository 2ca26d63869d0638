import EcFlash.First.AckBound
import EcFlash.First.Handover

/-!
# Where the counter arithmetic is exact

`remaining` starts as a difference of the file size and a number that the EC
reports, and every reply `1` takes a block off it, without a test before.  For
which files, base offsets and flags the numbers never wrap, whatever the EC
replies, is `SafeArea`: the area must be empty or hold a block, and the cut-off,
which otherwise ends the loop in time, is not tested when the re-jump is due, so a
base offset of one block needs a second block behind it.
-/

namespace EcFlash
namespace First

open Reactive

/-- The files, base offsets and flags for which the counters are exact. -/
def SafeArea (size base : Nat) (included : Bool) : Prop :=
  if included then (size = 0 ∨ 32 ≤ size) ∧ ¬ (base = 32 ∧ 32 < size ∧ size < 64)
  else size = base ∨ base + 32 ≤ size

instance (size base : Nat) (included : Bool) : Decidable (SafeArea size base included) :=
  inferInstanceAs (Decidable (if included then _ else _))

example : SafeArea 64 32 true ∧ ¬ SafeArea 63 32 true := by decide

/-- The arithmetic of one answered call is exact. -/
structure StepSafe (img : Image) (cfg : Moment) (a : Transfer) : Prop where
  /-- The difference that `remaining` starts with has not wrapped. -/
  initial : cfg.state.pc = .phaseCtrl →
    cfg.state.vars.remaining.toNat + (startOffset cfg.state.vars).toNat = img.size
  /-- A reply `1` finds a block to take off. -/
  decrement : ∀ r, cfg.state.pc = .poll → a = some r → r.1 = 1#8 →
    32 ≤ cfg.state.vars.remaining.toNat
  /-- A percentage that is computed is one. -/
  percentage : ∀ r, cfg.state.pc = .poll → a = some r → AsksBlock r.1 →
    cfg.state.vars.ctx.fileSize ≠ 0#32 ∧
      (percentage cfg.state.vars.ctx.fileSize cfg.state.vars.remaining).toNat ≤ 100

/-- The arithmetic of a run is exact, and the loop ends after as many replies `1`
as the file has blocks. -/
structure ArithmeticSafe (opts : Options) (img : Image) (as : List Transfer) : Prop where
  steps : (main opts img).AllSteps (StepSafe img) as
  acks : ackCount (exchanges ((main opts img).run as).trace) ≤ (img.size + 31) / 32
  ended : (img.size + 31) / 32 ≤ ackCount (exchanges ((main opts img).run as).trace) →
    ((main opts img).run as).state.pc ≠ .poll ∧
      (((main opts img).run as).state.pc.looping = true →
        ((main opts img).run as).state.vars.remaining = 0#32)

/-- What the EC settled is safe for the file. -/
abbrev SafeVars (img : Image) (l : Locals) : Prop :=
  SafeArea img.size l.baseOffset.toNat l.ctx.includeBootloader

/-- As long as something is left, the counter is the number of bytes left, holds a
block, and is above the cut-off unless the re-jump is due. -/
structure Exact (img : Image) (xs : Exchanges) (l : Locals) : Prop where
  counted : l.remaining.toNat + 32 * ackCount xs + (startOffset l).toNat = img.size
  room : 32 ≤ l.remaining.toNat
  cut : ackCount xs = 0 ∨ 0x4001 ≤ l.remaining.toNat ∨ l.baseOffset.toNat = 32 * ackCount xs

/-- What one answered call keeps where the area is safe. -/
structure Solid (img : Image) (xs : Exchanges) (s : State) : Prop where
  exact : s.pc.looping = true → s.vars.remaining ≠ 0#32 → Exact img xs s.vars
  bound : 32 * ackCount xs ≤ img.size

section Step

variable {opts : Options} {img : Image} {xs ys : Exchanges} {s : State} {l l' : Locals} {c : Call}

theorem Exact.congr (h : Exact img xs l) (hacks : ackCount ys = ackCount xs)
    (hctx : l'.ctx = l.ctx) (hbase : l'.baseOffset = l.baseOffset)
    (hremaining : l'.remaining = l.remaining) : Exact img ys l' := by
  have hstart : startOffset l' = startOffset l := by simp [startOffset, hctx, hbase]
  constructor
  · rw [hacks, hstart, hremaining]
    exact h.counted
  · rw [hremaining]
    exact h.room
  · rw [hacks, hremaining, hbase]
    exact h.cut

theorem Tracked.toNat_fileSize (h : Tracked opts img xs l) : l.ctx.fileSize.toNat = img.size := by
  have hlt := img.size_lt
  rw [h.fileSize, BitVec.toNat_ofNat]
  omega

/-- A safe area starts in the file and is empty or holds a block. -/
theorem SafeVars.start (h : SafeVars img l) :
    (startOffset l).toNat = img.size ∨ (startOffset l).toNat + 32 ≤ img.size := by
  unfold SafeVars SafeArea at h
  unfold startOffset
  cases hbbl : l.ctx.includeBootloader with
  | true =>
      simp only [hbbl, if_true, BitVec.toNat_ofNat, Nat.zero_mod] at h ⊢
      omega
  | false =>
      simp only [hbbl, Bool.false_eq_true, if_false] at h ⊢
      omega

/-- Where the area is chosen, `remaining` is the number of bytes behind its start. -/
theorem Inv.initial (h : Inv opts img xs s) (hpc : s.pc = .phaseCtrl ∨ s.pc = .setOffset)
    (hsafe : SafeVars img s.vars) :
    s.vars.remaining.toNat + (startOffset s.vars).toNat = img.size := by
  have hfile := (h.tracked (by rcases hpc with hpc | hpc <;> simp [hpc])).toNat_fileSize
  have hlt := img.size_lt
  have hpolls := (h.handshake (by rcases hpc with hpc | hpc <;> simp [hpc, Pc.handshake])).1
  have hstart := SafeVars.start hsafe
  rw [h.chosen hpc, left, ackCount, hpolls]
  simp only [List.count_nil, BitVec.mul_zero, BitVec.sub_zero]
  rw [BitVec.toNat_sub, hfile]
  omega

theorem Exact.toNat_sub (h : Exact img xs l) :
    (l.remaining - blockSize).toNat = l.remaining.toNat - 32 := by
  have hroom := h.room
  have hlt := l.remaining.isLt
  rw [BitVec.toNat_sub]
  simp only [blockSize, BitVec.toNat_ofNat]
  omega

/-- The re-jump is due only when the boot block is flashed, at a base offset that
the blocks so far have just reached. -/
theorem Exact.of_boundary (h : Exact img xs l) (htracked : Tracked opts img xs l)
    (heq : l.ctx.fileSize - l.baseOffset = l.remaining - blockSize) :
    l.ctx.includeBootloader = true ∧ l.baseOffset.toNat = 32 * (ackCount xs + 1) := by
  have hlt := img.size_lt
  have hbase := htracked.baseOffset_lt
  have hroom := h.room
  have hcounted := h.counted
  have heqNat := congrArg BitVec.toNat heq
  rw [h.toNat_sub, BitVec.toNat_sub, htracked.toNat_fileSize] at heqNat
  unfold startOffset at hcounted
  cases hbbl : l.ctx.includeBootloader with
  | true =>
      simp only [hbbl, if_true, BitVec.toNat_ofNat, Nat.zero_mod] at hcounted
      exact ⟨rfl, by omega⟩
  | false =>
      -- Without it the difference is what the counter started with.
      simp only [hbbl, Bool.false_eq_true, if_false] at hcounted
      omega

/-- Taking a block off a counter that holds one is exact, and what is left holds
another or is nothing. -/
theorem exact_advance (htracked : Tracked opts img xs l) (hsafe : SafeVars img l)
    (h : Exact img xs l) (hc : c.cmd = cmdPollProgress)
    (hne : (advance l).remaining ≠ 0#32) :
    Exact img (xs ++ [(c, some l.resp)]) (advance l) := by
  by_cases hr : l.resp.1 = 1#8
  · have hcounted := h.counted
    have hroom := h.room
    have hacks : ackCount (xs ++ [(c, some l.resp)]) = ackCount xs + 1 := by
      rw [ackCount_poll hc, if_pos hr]
    have hnext : (advance l).remaining = l.remaining - blockSize ∧
        32 ≤ (l.remaining - blockSize).toNat ∧
        (0x4001 ≤ (l.remaining - blockSize).toNat ∨
          l.baseOffset.toNat = 32 * (ackCount xs + 1)) := by
      simp only [advance, hr, if_true] at hne ⊢
      split at hne
      · -- The cut-off is not tested: the file must hold a block behind the base offset.
        rename_i heq
        obtain ⟨hbbl, hreached⟩ := h.of_boundary htracked heq
        have hne' : l.remaining.toNat - 32 ≠ 0 := by
          rw [← h.toNat_sub]
          simpa [← BitVec.toNat_inj] using hne
        have hcut := h.cut
        simp only [startOffset, hbbl, if_true, BitVec.toNat_ofNat, Nat.zero_mod] at hcounted
        simp only [SafeVars, SafeArea, hbbl, if_true] at hsafe
        rw [if_pos heq, h.toNat_sub]
        exact ⟨rfl, by omega, .inr hreached⟩
      · rename_i hfar
        split at hne
        · exact absurd rfl hne
        · rename_i hcut
          rw [if_neg hfar, if_neg hcut]
          rw [BitVec.lt_def] at hcut
          simp only [BitVec.toNat_ofNat] at hcut
          exact ⟨rfl, by omega, .inl (by omega)⟩
    obtain ⟨hremaining, hblock, hnear⟩ := hnext
    constructor
    · rw [hacks, advance_startOffset, hremaining, h.toNat_sub]
      omega
    · rw [hremaining]
      exact hblock
    · rw [hacks, advance_baseOffset, hremaining]
      exact .inr hnear
  · have hacks : ackCount (xs ++ [(c, some l.resp)]) = ackCount xs := by
      simp [ackCount_poll hc, hr]
    exact h.congr hacks (advance_ctx l) (advance_baseOffset l) (by simp [advance, hr])

/-- Where the loop is entered. -/
theorem Inv.exact_entry (h : Inv opts img xs s) (hpc : s.pc = .setOffset)
    (hsafe : SafeVars img s.vars) (hne : s.vars.remaining ≠ 0#32) : Exact img xs s.vars := by
  have hinitial := h.initial (.inr hpc) hsafe
  have hpolls := (h.handshake (by simp [hpc, Pc.handshake])).1
  have hacks : ackCount xs = 0 := by simp [ackCount, hpolls]
  have hpos : s.vars.remaining.toNat ≠ 0 := by simpa [← BitVec.toNat_inj] using hne
  have hstart := SafeVars.start hsafe
  exact ⟨by omega, by omega, .inl hacks⟩

/-- The step lemma: where the area is safe an answered call keeps the counters
exact. -/
theorem solid_resume (hinv : Inv opts img xs s) (h : Solid img xs s) (hc : pending s = some c)
    (hsafe : s.pc.early = false → SafeVars img s.vars) (a : Transfer) :
    Solid img (xs ++ [(c, a)]) (resume s a).1 := by
  obtain ⟨hexact, hbound⟩ := h
  constructor
  · apply loop_resume (F := Exact img) _ _ _ hinv hexact hc a
    · exact Exact.congr
    · intro hpc hne
      exact hinv.exact_entry hpc (hsafe (by simp [hpc, Pc.early])) hne
    · intro r hpoll hne hnow _ hnext
      have htracked := (hinv.tracked (by simp [hpoll])).reply r
      have hsafe' : SafeVars img { s.vars with resp := r } := hsafe (by simp [hpoll, Pc.early])
      exact exact_advance htracked hsafe' (hnow.congr rfl rfl rfl rfl) (cmd_of_poll hc hpoll) hnext
  · by_cases hpoll : s.pc = .poll
    · obtain ⟨hne, -⟩ := hinv.waiting (by simp [hpoll, Pc.looping])
        (by simp [hpoll, Pc.streaming])
      obtain ⟨hcounted, hroom, -⟩ := hexact (by simp [hpoll, Pc.looping]) hne
      cases a with
      | none => rwa [ackCount_failed]
      | some r =>
          rw [ackCount_poll (cmd_of_poll hc hpoll)]
          split <;> omega
    · rwa [ackCount_of_ne_poll hc hpoll a]

theorem percentage_le {fileSize remaining : Word} (h : remaining.toNat ≤ fileSize.toNat) :
    (percentage fileSize remaining).toNat ≤ 100 := by
  have hdone : (fileSize - remaining).toNat = fileSize.toNat - remaining.toNat := by
    rw [BitVec.toNat_sub]
    omega
  unfold percentage
  rw [BitVec.toNat_udiv, BitVec.toNat_mul, hdone]
  apply Nat.div_le_of_le_mul
  -- A product that does not fit in 32 bits only gets smaller.
  calc (fileSize.toNat - remaining.toNat) * (100#32).toNat % 2 ^ 32
      ≤ (fileSize.toNat - remaining.toNat) * 100 := Nat.mod_le _ _
    _ ≤ fileSize.toNat * 100 := Nat.mul_le_mul_right _ (Nat.sub_le _ _)

/-- The invariant makes the arithmetic of the next answered call exact. -/
theorem stepSafe_of_solid {cfg : Moment} (hinv : Inv opts img (exchanges cfg.trace) cfg.state)
    (h : Solid img (exchanges cfg.trace) cfg.state)
    (hsafe : cfg.state.pc.early = false → SafeVars img cfg.state.vars) (a : Transfer) :
    StepSafe img cfg a := by
  have hpolled (hpoll : cfg.state.pc = .poll) :
      Exact img (exchanges cfg.trace) cfg.state.vars := by
    have hlooping : cfg.state.pc.looping = true := by simp [hpoll, Pc.looping]
    exact h.exact hlooping (hinv.waiting hlooping (by simp [hpoll, Pc.streaming])).1
  constructor
  · intro hpc
    exact hinv.initial (.inl hpc) (hsafe (by simp [hpc, Pc.early]))
  · intro r hpoll _ _
    exact (hpolled hpoll).room
  · intro r hpoll _ _
    obtain ⟨hcounted, hroom, -⟩ := hpolled hpoll
    have htracked := hinv.tracked (by simp [hpoll])
    have hfile := htracked.toNat_fileSize
    exact ⟨htracked.fileSize_ne_zero (by omega), percentage_le (by omega)⟩

end Step

section Run

variable (opts : Options) (img : Image)

/-- Behind the four reads of the run the area is safe. -/
def SafeRun (as : List Transfer) : Prop :=
  ((main opts img).run as).state.pc.early = false →
    SafeVars img ((main opts img).run as).state.vars

variable {opts img} {as : List Transfer}

/-- What is settled at the end of a run was settled before. -/
theorem SafeRun.of_concat {a : Transfer} (h : SafeRun opts img (as ++ [a])) :
    SafeRun opts img as := by
  intro hearly
  unfold SafeRun at h
  rw [Machine.run_concat] at h
  cases hc : pending ((main opts img).run as).state with
  | none =>
      rw [Machine.step_of_stopped hc] at h
      exact h hearly
  | some c =>
      rw [Machine.step_of_pending hc, answer_state] at h
      obtain ⟨hctx, hbase⟩ := resume_fixed hearly a
      simpa [SafeVars, hctx, hbase] using h (resume_early hearly a)

theorem solid_run (h : SafeRun opts img as) :
    Solid img (exchanges ((main opts img).run as).trace) ((main opts img).run as).state := by
  induction as using List.reverseRecOn with
  | nil => exact ⟨nofun, by simp [main, Machine.initial, goto, exchanges]⟩
  | append_singleton as a ih =>
      have hbefore := h.of_concat
      have hinv := inv_run opts img as
      rw [Machine.run_concat]
      cases hc : pending ((main opts img).run as).state with
      | none =>
          rw [Machine.step_of_stopped hc]
          exact ih hbefore
      | some c =>
          rw [Machine.step_of_pending hc, Machine.exchanges_answer]
          exact solid_resume hinv (ih hbefore) hc hbefore a

theorem allSteps_safe (h : SafeRun opts img as) : (main opts img).AllSteps (StepSafe img) as := by
  induction as using List.reverseRecOn with
  | nil => exact Machine.allSteps_nil _ _
  | append_singleton as a ih =>
      have hbefore := h.of_concat
      rw [Machine.allSteps_concat]
      exact ⟨ih hbefore, stepSafe_of_solid (inv_run opts img as) (solid_run hbefore) hbefore a⟩

/-- Where the area is safe, so is the run. -/
theorem SafeRun.arithmeticSafe (h : SafeRun opts img as) : ArithmeticSafe opts img as := by
  obtain ⟨hexact, hbound⟩ := solid_run h
  have hinv := inv_run opts img as
  -- As long as something is left there is a block to come.
  have hzero (hdone : (img.size + 31) / 32 ≤
      ackCount (exchanges ((main opts img).run as).trace))
      (hlooping : ((main opts img).run as).state.pc.looping = true) :
      ((main opts img).run as).state.vars.remaining = 0#32 := by
    by_contra hne
    obtain ⟨hcounted, hroom, -⟩ := hexact hlooping hne
    omega
  refine ⟨allSteps_safe h, by omega, fun hdone => ⟨fun hpoll => ?_, hzero hdone⟩⟩
  have hlooping : ((main opts img).run as).state.pc.looping = true := by simp [hpoll, Pc.looping]
  exact (hinv.waiting hlooping (by simp [hpoll, Pc.streaming])).1 (hzero hdone hlooping)

end Run

/-- The EC of the run reports the base offset, and `included` says whether the
boot block is flashed. -/
structure Reports (opts : Options) (img : Image) (base : Word) (included : Bool)
    (as : List Transfer) : Prop where
  baseOffset : reportedBaseOffset (exchanges ((main opts img).run as).trace) = base
  included : bootBlockIncluded opts (exchanges ((main opts img).run as).trace) = included

section Unsafe

variable {opts : Options} {img : Image} {base : Word} {included : Bool} {as : List Transfer}

/-- The answer of a write that succeeds. -/
def written : Transfer := some (0#8, 0#8)

theorem run_answered {s : State} (hs : ((main opts img).run as).state = s)
    (hc : pending s ≠ none) (a : Transfer) :
    ((main opts img).run (as ++ [a])).state = (resume s a).1 := by
  obtain ⟨c, hc⟩ := Option.ne_none_iff_exists'.mp hc
  rw [← hs] at hc ⊢
  rw [Machine.run_concat, Machine.step_of_pending hc, answer_state]

theorem loopHead_poll {l : Locals} (hne : l.remaining ≠ 0#32) (hrejump : l.needRejump = false) :
    loopHead l = goto .poll l := by
  unfold loopHead
  rw [if_pos hne, hrejump, if_neg (by simp)]

/-- An announced area leads to the first poll. -/
theorem exists_polled {l : Locals} (hs : ((main opts img).run as).state = ⟨.phaseCtrl, l⟩)
    (hne : l.remaining ≠ 0#32) (hrejump : l.needRejump = false) :
    ∃ bs io, ((main opts img).run (as ++ bs)).state = ⟨.poll, { l with io }⟩ := by
  obtain ⟨io, hset⟩ : ∃ io, ((main opts img).run (as ++ [written])).state =
      ⟨.setOffset, { l with io }⟩ := ⟨_, run_answered hs (by simp [pending]) written⟩
  have hhead : ((main opts img).run (as ++ [written] ++ [written])).state =
      (loopHead { l with io }).1 := run_answered hset (by simp [pending]) written
  rw [loopHead_poll (l := { l with io }) hne hrejump] at hhead
  exact ⟨[written, written], io, by simpa [goto] using hhead⟩

/-- The rest of a block is sent, up to the loop test. -/
theorem exists_blockSent {as : List Transfer} (i : Nat) {l : Locals}
    (hs : ((main opts img).run as).state = (streamFrom i l).1) :
    ∃ bs io, ((main opts img).run (as ++ bs)).state = (loopHead { l with io }).1 := by
  unfold streamFrom at hs
  split at hs
  · rename_i hi
    have hnext := run_answered hs (by simp [goto, pending]) written
    obtain ⟨bs, io, hbs⟩ := exists_blockSent (i + 2) hnext
    refine ⟨written :: bs, io, ?_⟩
    rw [List.append_cons]
    exact hbs
  · exact ⟨[written], _, run_answered hs (by simp [goto, pending]) written⟩
termination_by 32 - i

/-- A re-jump that the EC accepts leads to the next poll. -/
theorem exists_rejumped {l : Locals} (hne : l.remaining ≠ 0#32) (hrejump : l.needRejump = true)
    (hs : ((main opts img).run as).state = (loopHead l).1) :
    ∃ bs io resp, ((main opts img).run (as ++ bs)).state =
      ⟨.poll, { l with io, resp, needRejump := false }⟩ := by
  unfold loopHead at hs
  rw [if_pos hne, if_pos hrejump] at hs
  obtain ⟨io, hphase⟩ : ∃ io, ((main opts img).run as).state =
      ⟨.rejumpPhase, { l with io, needRejump := false }⟩ := ⟨_, hs⟩
  have hstatus : ((main opts img).run (as ++ [written])).state =
      ⟨.rejumpStatus, { l with io, needRejump := false }⟩ :=
    run_answered hphase (by simp [pending]) written
  obtain ⟨io', hoffset⟩ : ∃ io',
      ((main opts img).run (as ++ [written] ++ [some (0x55#8, 0#8)])).state =
        ⟨.rejumpOffset, { l with io := io', resp := (0x55#8, 0#8), needRejump := false }⟩ :=
    ⟨_, run_answered hstatus (by simp [pending]) (some (0x55#8, 0#8))⟩
  have hpoll : ((main opts img).run
      (as ++ [written] ++ [some (0x55#8, 0#8)] ++ [written])).state =
        ⟨.poll, { l with io := io', resp := (0x55#8, 0#8), needRejump := false }⟩ :=
    run_answered hoffset (by simp [pending]) written
  exact ⟨[written, some (0x55#8, 0#8), written], io', (0x55#8, 0#8), by simpa using hpoll⟩

theorem advance_boundary {l : Locals} (hr : l.resp.1 = 1#8)
    (heq : l.ctx.fileSize - l.baseOffset = l.remaining - blockSize) :
    (advance l).remaining = l.remaining - blockSize ∧ (advance l).needRejump = true := by
  simp [advance, hr, heq]

section Reports

variable (hsafe : ∀ as, Reports opts img base included as → ArithmeticSafe opts img as)
include hsafe

/-- Behind the four reads every run with these reports is safe, whatever is
answered next. -/
theorem stepSafe_of_reports {l : Locals} {pc : Pc} (hs : ((main opts img).run as).state = ⟨pc, l⟩)
    (hearly : pc.early = false) (hbase : l.baseOffset = base)
    (hincluded : l.ctx.includeBootloader = included) (a : Transfer) :
    StepSafe img ((main opts img).run as) a := by
  have hsettled := settled_run opts img (as ++ [a])
  have hkept : ((main opts img).run (as ++ [a])).state.vars.ctx = l.ctx ∧
      ((main opts img).run (as ++ [a])).state.vars.baseOffset = l.baseOffset := by
    by_cases hc : pending ⟨pc, l⟩ = none
    · rw [Machine.run_concat, Machine.step_of_stopped (by rw [hs]; exact hc), hs]
      exact ⟨rfl, rfl⟩
    · rw [run_answered hs hc a]
      exact resume_fixed hearly a
  have hreports : Reports opts img base included (as ++ [a]) := by
    constructor
    · rw [← hsettled.baseOffset, hkept.2, hbase]
    · rw [← hsettled.included, hkept.1, hincluded]
  exact ((Machine.allSteps_concat _ _ _ _).mp (hsafe _ hreports).steps).2

/-- A poll may be answered `1`, so it needs a block. -/
theorem room_of_reports {l : Locals} (hs : ((main opts img).run as).state = ⟨.poll, l⟩)
    (hbase : l.baseOffset = base) (hincluded : l.ctx.includeBootloader = included) :
    32 ≤ l.remaining.toNat := by
  have hstep := stepSafe_of_reports hsafe hs rfl hbase hincluded (some (1#8, 0#8))
  simpa [hs] using hstep.decrement (1#8, 0#8) (by rw [hs]) rfl rfl

/-- The area that the handshake announces is safe for the first poll. -/
theorem area_of_reports {l : Locals} (hs : ((main opts img).run as).state = ⟨.phaseCtrl, l⟩)
    (hbase : l.baseOffset = base) (hincluded : l.ctx.includeBootloader = included)
    (hrejump : l.needRejump = false) :
    l.remaining.toNat + (startOffset l).toNat = img.size ∧
      (l.remaining = 0#32 ∨ 32 ≤ l.remaining.toNat) := by
  have hstep := stepSafe_of_reports hsafe hs rfl hbase hincluded written
  refine ⟨by simpa [hs] using hstep.initial (by rw [hs]), ?_⟩
  by_cases hzero : l.remaining = 0#32
  · exact .inl hzero
  · obtain ⟨bs, io, hpoll⟩ := exists_polled hs hzero hrejump
    exact .inr (room_of_reports (l := { l with io }) hsafe hpoll hbase hincluded)

/-- Behind the block that reaches the base offset the next poll needs a block too. -/
theorem room_behind_boundary {l : Locals} (hs : ((main opts img).run as).state = ⟨.poll, l⟩)
    (hbase : l.baseOffset = base) (hincluded : l.ctx.includeBootloader = included)
    (hfile : l.ctx.fileSize ≠ 0#32)
    (heq : l.ctx.fileSize - l.baseOffset = l.remaining - blockSize)
    (hne : l.remaining - blockSize ≠ 0#32) : 32 ≤ (l.remaining - blockSize).toNat := by
  have hasked : ((main opts img).run (as ++ [some (1#8, 0#8)])).state =
      (streamFrom 0 (loadBlock (advance { l with resp := (1#8, 0#8) }))).1 := by
    rw [run_answered hs (by simp [pending]), resume_asks rfl (.inr (.inl rfl)) hfile]
    rfl
  obtain ⟨bs, io, hblock⟩ := exists_blockSent 0 hasked
  obtain ⟨hremaining, hrejump⟩ := advance_boundary (l := { l with resp := (1#8, 0#8) }) rfl heq
  have hctx := advance_ctx { l with resp := (1#8, 0#8) }
  have hkept := advance_baseOffset { l with resp := (1#8, 0#8) }
  generalize advance { l with resp := (1#8, 0#8) } = l' at *
  obtain ⟨bs', io', resp', hpoll⟩ := exists_rejumped (l := { loadBlock l' with io })
    (by rw [← hremaining] at hne; exact hne) hrejump hblock
  have hroom := room_of_reports hsafe hpoll (hkept.trans hbase)
    ((congrArg (fun ctx => ctx.includeBootloader) hctx).trans hincluded)
  rw [← hremaining]
  exact hroom

/-- With the base offset behind the first block, the file needs a second one or ends there. -/
theorem not_lastBlock_of_reports {l : Locals}
    (hs : ((main opts img).run as).state = ⟨.phaseCtrl, l⟩) (hbase : l.baseOffset = base)
    (hincluded : l.ctx.includeBootloader = included) (hrejump : l.needRejump = false)
    (hall : l.ctx.fileSize = l.remaining) (hblock : base.toNat = 32) :
    ¬ (32 < l.remaining.toNat ∧ l.remaining.toNat < 64) := by
  rintro ⟨hlow, hhigh⟩
  have hne : l.remaining ≠ 0#32 := by
    intro hzero
    simp [hzero] at hlow
  obtain ⟨bs, io, hpoll⟩ := exists_polled hs hne hrejump
  have hword : l.baseOffset = blockSize := by
    rw [hbase]
    exact BitVec.eq_of_toNat_eq hblock
  have hleft : (l.remaining - blockSize).toNat = l.remaining.toNat - 32 := by
    rw [BitVec.toNat_sub]
    simp only [blockSize, BitVec.toNat_ofNat]
    omega
  have hleftNe : l.remaining - blockSize ≠ 0#32 := by
    intro hzero
    rw [hzero] at hleft
    simp at hleft
    omega
  -- The first reply `1` reaches the base offset with less than a block left.
  have hroom := room_behind_boundary (l := { l with io }) hsafe hpoll hbase hincluded
    (by rw [hall]; exact hne) (by rw [hall, hword]) hleftNe
  rw [hleft] at hroom
  omega

end Reports

/-- The EC can report any base offset, and have the boot block flashed or not. -/
theorem exists_announced (hbase : base.toNat < 2 ^ 16)
    (hbbl : included = true → opts.includeBootloader = true)
    (hguard : opts.ignoreNid = true ∨ img.size = 0x20000) :
    ∃ as l, ((main opts img).run as).state = ⟨.phaseCtrl, l⟩ ∧ l.baseOffset = base ∧
      l.ctx.includeBootloader = included ∧ l.ctx.fileSize.toNat = img.size ∧
      l.needRejump = false := by
  obtain ⟨hi, lo, hbytes⟩ := exists_bytes hbase
  -- A status other than `0x55` lets the boot block be flashed.
  obtain ⟨status, hstatus⟩ : ∃ status : Byte,
      (opts.includeBootloader && status ≠ 0x55#8) = included := by
    cases included with
    | true => exact ⟨0#8, by simp [hbbl]⟩
    | false => exact ⟨0x55#8, by simp⟩
  have hrun := run_reads opts hguard hi lo status
  obtain ⟨hpc, hbaseOffset, hincluded⟩ := afterStatus_settles (afterReads opts img hi lo status)
  have hinv := inv_run opts img (reads img hi lo status)
  rw [hrun] at hinv
  generalize hs : (afterStatus (afterReads opts img hi lo status)).1 = s at *
  rcases s with ⟨pc, l⟩
  obtain rfl : pc = .phaseCtrl := hpc
  exact ⟨_, l, hrun, hbaseOffset.trans hbytes, hincluded.trans hstatus,
    (hinv.tracked nofun).toNat_fileSize, (hinv.handshake rfl).2.2⟩

/-- What the EC of a run can report without the guard or the options in the way. -/
theorem safeArea_of_reports (hbase : base.toNat < 2 ^ 16)
    (hbbl : included = true → opts.includeBootloader = true)
    (hguard : opts.ignoreNid = true ∨ img.size = 0x20000)
    (hsafe : ∀ as, Reports opts img base included as → ArithmeticSafe opts img as) :
    SafeArea img.size base.toNat included := by
  obtain ⟨as, l, hrun, hbase', hincluded, hfile, hrejump⟩ := exists_announced hbase hbbl hguard
  obtain ⟨hinitial, harea⟩ := area_of_reports hsafe hrun hbase' hincluded hrejump
  have hzero : l.remaining = 0#32 → l.remaining.toNat = 0 := fun h => by rw [h]; rfl
  unfold SafeArea
  cases included with
  | false =>
      rw [startOffset, hincluded, if_neg (by simp), hbase'] at hinitial
      rw [if_neg (by simp)]
      rcases harea with harea | harea
      · exact .inl (by have := hzero harea; omega)
      · exact .inr (by omega)
  | true =>
      rw [startOffset, hincluded, if_pos rfl] at hinitial
      simp only [BitVec.toNat_ofNat, Nat.zero_mod, Nat.add_zero] at hinitial
      rw [if_pos rfl]
      constructor
      · rcases harea with harea | harea
        · exact .inl (by have := hzero harea; omega)
        · exact .inr (by omega)
      · rintro ⟨hblock, hlast⟩
        have hall : l.ctx.fileSize = l.remaining := BitVec.eq_of_toNat_eq (by omega)
        apply not_lastBlock_of_reports hsafe hrun hbase' hincluded hrejump hall hblock
        rwa [hinitial]

end Unsafe

/-- The guard, in force, admits only files with a safe area. -/
theorem safeArea_fullSize {base : Nat} (hbase : base < 2 ^ 16) (included : Bool) :
    SafeArea 0x20000 base included := by
  unfold SafeArea
  split <;> omega

/-- Whatever the EC replies to the polls, the counters are exact, exactly when the
area is safe. -/
theorem arithmeticSafe_iff (opts : Options) (img : Image) (base : Word)
    (hbase : base.toNat < 2 ^ 16) (included : Bool)
    (hbbl : included = true → opts.includeBootloader = true)
    (hguard : opts.ignoreNid = true ∨ img.size = 0x20000) :
    (∀ as, Reports opts img base included as → ArithmeticSafe opts img as) ↔
      SafeArea img.size base.toNat included := by
  constructor
  · exact safeArea_of_reports hbase hbbl hguard
  · intro harea as hreports
    apply SafeRun.arithmeticSafe
    intro _
    have hsettled := settled_run opts img as
    rw [SafeVars, hsettled.baseOffset, hsettled.included, hreports.baseOffset, hreports.included]
    exact harea

theorem arithmeticSafe_full_size :
    ((∀ as, Reports (sampleOptions true) sampleImage 0x8000#32 true as →
        ArithmeticSafe (sampleOptions true) sampleImage as) ↔
      SafeArea sampleImage.size 0x8000 true) :=
  arithmeticSafe_iff (sampleOptions true) sampleImage 0x8000#32 (by decide) true (fun _ => rfl)
    (.inr rfl)

/-- With `-nid` a file of one byte is flashed, and the first reply `1` takes 32
bytes off it. -/
theorem arithmeticSafe_fails :
    ¬ ∀ (opts : Options) (img : Image) (base : Word) (included : Bool), base.toNat < 2 ^ 16 →
      (included = true → opts.includeBootloader = true) →
      (opts.ignoreNid = true ∨ img.size = 0x20000) →
      ∀ as, Reports opts img base included as → ArithmeticSafe opts img as := by
  intro h
  have hrun := h { sampleOptions false with ignoreNid := true } ⟨1, fun _ => 0#8, by decide⟩ 0#32
    false (by decide) nofun (.inl rfl) (handshakeReplies 0#8 0#8 0#8 ++ [some (1#8, 0#8)])
    ⟨by decide +kernel, by decide +kernel⟩
  have hroom := (hrun.steps 6 (some (1#8, 0#8)) rfl).decrement _ (by decide +kernel) rfl rfl
  exact absurd hroom (by decide +kernel)

end First
end EcFlash
