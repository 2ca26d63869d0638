import EcFlash.First.Coverage

/-!
# The hand-over at the boot block

When the boot block is flashed too, the EC runs from the boot block until the
host hands over: it sends `PHASE_NORMAL`, reads the boot status `0x55`, and
announces the base offset.  The code wants this to happen when the block in
front of the base offset has been streamed, and tests for it by an equality of
counters that move in steps of 32.  So a base offset that is a multiple of 32,
other than zero, is met exactly once and in time, and any other one never.

`hand` is a monitor over the events of a run; `Handing` relates it to the state.
-/

namespace EcFlash
namespace First

open Reactive

/-- How far a hand-over has come. -/
inductive Stage where
  | idle
  | asked
  | confirmed
  deriving DecidableEq

/-- What one event does to the hand-over in progress, and to the number of those
that are complete.  A call counts when it was delivered. -/
def handStep (base : Word) : Stage × Nat → Event Call Transfer Out → Stage × Nat
  | (stage, n), .call c (some r) =>
      if c.cmd = cmdPhaseCtrl ∧ c.io0 = phaseNormal then (.asked, n)
      else if c.cmd = cmdReadStatus ∧ stage = .asked then
        (if r.1 = 0x55#8 then .confirmed else .idle, n)
      else if c.cmd = cmdSetOffset ∧ (c.io0, c.io1) = offsetBytes base ∧ stage = .confirmed then
        (.idle, n + 1)
      else (stage, n)
  | h, _ => h

/-- The hand-overs of a history. -/
def hand (base : Word) (tr : History) : Stage × Nat :=
  tr.foldl (handStep base) (.idle, 0)

/-- The run flashes the boot block, and the EC has reported `base`. -/
structure StartsWithBbl (opts : Options) (base : Word) (xs : Exchanges) : Prop where
  included : bootBlockIncluded opts xs = true
  baseOffset : reportedBaseOffset xs = base

/-- The gate between the boot block and the rest. -/
structure HandsOver (img : Image) (base : Word) (cfg : Moment) : Prop where
  /-- No word of a block with a byte from `base` on is sent before the hand-over. -/
  gated : Always (fun before e => ∀ c a, e = .call c a → c.cmd = cmdStreamData →
    (∃ k, StreamsBlock img before c k) ∧
      ∀ k off, lastSeek before = some (k, off) → base.toNat < off.toNat + 32 →
        0 < (hand base before).2) cfg.trace
  /-- The hand-over does not happen twice. -/
  once : (hand base cfg.trace).2 ≤ 1
  /-- A finished loop has handed over. -/
  finished : LoopFinished cfg → (hand base cfg.trace).2 = 1

/-- The number of hand-overs due after `n` replies `1`. -/
def due (base : Word) (n : Nat) : Nat :=
  if base ≠ 0#32 ∧ 32 ∣ base.toNat ∧ base.toNat ≤ 32 * n then 1 else 0

/-- The state of the monitor at a point of the loop. -/
def expected (base : Word) (n : Nat) (s : State) : Stage × Nat :=
  match s.pc with
  | .rejumpPhase => (.idle, 0)
  | .rejumpStatus => (.asked, 0)
  | .rejumpOffset => (.confirmed, 0)
  | _ => (.idle, if s.vars.needRejump then 0 else due base n)

/-- The boot block is included, and the base offset is `base` once it is known. -/
structure WithBbl (base : Word) (s : State) : Prop where
  included : s.vars.ctx.includeBootloader = true
  baseOffset : s.pc.early = false → s.vars.baseOffset = base

/-- What every run that flashes the boot block keeps about the hand-over. -/
structure Handing (base : Word) (xs : Exchanges) (h : Stage × Nat) (s : State) : Prop where
  once : h.2 ≤ 1
  begun : s.pc.handshake = true → h = (.idle, 0)
  withBbl : s.pc = .phaseCtrl → s.vars.io.1 = phaseWithBbl
  normal : s.pc = .rejumpPhase → s.vars.io.1 = phaseNormal
  final : s.pc = .finalize → s.vars.io.1 = phaseFinalize
  /-- The jump is wanted when the blocks so far end at the base offset. -/
  jump : s.pc.looping = true → s.vars.needRejump = true ∨ s.pc.rejumping = true →
    0 < ackCount xs ∧ 32 * ackCount xs = base.toNat
  loop : s.pc.looping = true → h = expected base (ackCount xs) s
  tail : s.pc.behindLoop = true → s.vars.remaining = 0#32 → h.2 = due base (ackCount xs)

section Step

variable {opts : Options} {img : Image} {base : Word} {xs ys : Exchanges} {h : Stage × Nat}
  {s : State} {l : Locals} {c : Call} {cfg : Moment} {a : Transfer}

theorem due_le (base : Word) (n : Nat) : due base n ≤ 1 := by
  unfold due
  split <;> omega

@[simp] theorem due_zero (base : Word) : due base 0 = 0 := by
  have hno : ¬ (base ≠ 0#32 ∧ 32 ∣ base.toNat ∧ base.toNat ≤ 32 * 0) := by
    rintro ⟨hne, -, hle⟩
    exact hne (BitVec.eq_of_toNat_eq (by simpa using hle))
  simp only [due, if_neg hno]

/-- When the blocks so far end at the base offset, the hand-over is due. -/
theorem due_of_eq {n : Nat} (hpos : 0 < n) (heq : 32 * n = base.toNat) : due base n = 1 := by
  have hne : base ≠ 0#32 := by
    rintro rfl
    simp at heq
    omega
  exact if_pos ⟨hne, ⟨n, heq.symm⟩, by omega⟩

/-- One more block makes it due only when that block ends at the base offset. -/
theorem due_succ {n : Nat} (hne : 32 * (n + 1) ≠ base.toNat) : due base (n + 1) = due base n := by
  unfold due
  congr 1
  ext
  constructor
  · rintro ⟨hpos, hdvd, hle⟩
    exact ⟨hpos, hdvd, by omega⟩
  · rintro ⟨hpos, hdvd, hle⟩
    exact ⟨hpos, hdvd, by omega⟩

theorem hand_answer (cfg : Moment) (c : Call) (a : Transfer) :
    hand base ((main opts img).answer cfg c a).trace =
      handStep base (hand base cfg.trace) (.call c a) := by
  have houts (os : List Out) (h : Stage × Nat) :
      (os.map Event.out : History).foldl (handStep base) h = h := by
    induction os with
    | nil => rfl
    | cons o os ih => exact ih
  rw [answer_trace, hand, List.foldl_append, List.foldl_cons, houts]
  rfl

/-- Polls and stream-data commands do not take part in a hand-over. -/
theorem handStep_other (hphase : c.cmd ≠ cmdPhaseCtrl) (hstatus : c.cmd ≠ cmdReadStatus)
    (hoffset : c.cmd ≠ cmdSetOffset) (h : Stage × Nat) (a : Transfer) :
    handStep base h (.call c a) = h := by
  cases a <;> simp [handStep, hphase, hstatus, hoffset]

/-- Another phase does not start a hand-over. -/
theorem handStep_phase (hphase : c.cmd = cmdPhaseCtrl) (hio : c.io0 ≠ phaseNormal)
    (h : Stage × Nat) (r : Byte × Byte) : handStep base h (.call c (some r)) = h := by
  have hstatus : ¬ cmdPhaseCtrl = cmdReadStatus := by decide
  have hoffset : ¬ cmdPhaseCtrl = cmdSetOffset := by decide
  simp [handStep, hphase, hio, hstatus, hoffset]

/-- Without `PHASE_NORMAL` nothing starts. -/
theorem handStep_idle (hphase : c.cmd ≠ cmdPhaseCtrl) (n : Nat) (r : Byte × Byte) :
    handStep base (.idle, n) (.call c (some r)) = (.idle, n) := by
  simp [handStep, hphase]

theorem handStep_ask (hphase : c.cmd = cmdPhaseCtrl) (hio : c.io0 = phaseNormal) (h : Stage × Nat)
    (r : Byte × Byte) : handStep base h (.call c (some r)) = (.asked, h.2) := by
  simp [handStep, hphase, hio]

theorem handStep_confirm (hstatus : c.cmd = cmdReadStatus) (n : Nat) (r : Byte × Byte) :
    handStep base (.asked, n) (.call c (some r)) =
      (if r.1 = 0x55#8 then .confirmed else .idle, n) := by
  have hphase : ¬ cmdReadStatus = cmdPhaseCtrl := by decide
  simp [handStep, hstatus, hphase]

theorem handStep_finish (hoffset : c.cmd = cmdSetOffset)
    (hio : (c.io0, c.io1) = offsetBytes base) (n : Nat) (r : Byte × Byte) :
    handStep base (.confirmed, n) (.call c (some r)) = (.idle, n + 1) := by
  have hphase : ¬ cmdSetOffset = cmdPhaseCtrl := by decide
  have hstatus : ¬ cmdSetOffset = cmdReadStatus := by decide
  simp [handStep, hoffset, hio, hphase, hstatus]

/-- The points of the handshake. -/
theorem handing_begun {pc : Pc} (hpc : pc.handshake = true)
    (hwith : pc = .phaseCtrl → l.io.1 = phaseWithBbl) : Handing base xs (.idle, 0) ⟨pc, l⟩ := by
  constructor
  · exact Nat.zero_le 1
  · exact fun _ => rfl
  · exact hwith
  · cases pc <;> simp_all [Pc.handshake]
  · cases pc <;> simp_all [Pc.handshake]
  · cases pc <;> simp_all [Pc.handshake, Pc.looping]
  · cases pc <;> simp_all [Pc.handshake, Pc.looping]
  · cases pc <;> simp_all [Pc.handshake, Pc.behindLoop]

/-- At the base offset blocks are missing. -/
theorem remaining_ne_zero (hm : Measured xs l) (hincluded : l.ctx.includeBootloader = true)
    (hbase : base.toNat < 2 ^ 16) (heq : 32 * ackCount xs = base.toNat) :
    l.remaining ≠ 0#32 := by
  rw [← hm.lt_iff, lt_blockCount_iff, areaSize]
  simp only [startOffset, hincluded, if_true, BitVec.toNat_ofNat]
  omega

/-- The points behind the loop, at which no jump is wanted. -/
theorem handing_tail {pc : Pc} (hpc : pc.behindLoop = true)
    (hfinal : pc = .finalize → l.io.1 = phaseFinalize) (honce : h.2 ≤ 1)
    (htail : l.remaining = 0#32 → h.2 = due base (ackCount xs)) :
    Handing base xs h ⟨pc, l⟩ := by
  constructor
  · exact honce
  · cases pc <;> simp_all [Pc.behindLoop, Pc.handshake]
  · rintro rfl
    simp [Pc.behindLoop] at hpc
  · rintro rfl
    simp [Pc.behindLoop] at hpc
  · exact hfinal
  · cases pc <;> simp_all [Pc.behindLoop, Pc.looping]
  · cases pc <;> simp_all [Pc.behindLoop, Pc.looping]
  · exact fun _ => htail

/-- A point of the loop outside a jump. -/
theorem handing_loop {pc : Pc} (hpc : pc = .poll ∨ pc.streaming = true)
    (hh : h = (.idle, if l.needRejump then 0 else due base (ackCount xs)))
    (hjump : l.needRejump = true → 0 < ackCount xs ∧ 32 * ackCount xs = base.toNat) :
    Handing base xs h ⟨pc, l⟩ := by
  have hdue := due_le base (ackCount xs)
  have honce : h.2 ≤ 1 := by
    rw [hh]
    show (if l.needRejump then 0 else due base (ackCount xs)) ≤ 1
    split <;> omega
  rcases hpc with rfl | hstreaming
  · exact ⟨honce, nofun, nofun, nofun, nofun, fun _ h => hjump (h.resolve_right nofun),
      fun _ => hh, nofun⟩
  · cases pc with
    | streamWord i => exact ⟨honce, nofun, nofun, nofun, nofun,
        fun _ h => hjump (h.resolve_right nofun), fun _ => hh, nofun⟩
    | streamTrailer => exact ⟨honce, nofun, nofun, nofun, nofun,
        fun _ h => hjump (h.resolve_right nofun), fun _ => hh, nofun⟩
    | _ => simp [Pc.streaming] at hstreaming

/-- A point of a jump. -/
theorem handing_rejump {pc : Pc} (hpc : pc.rejumping = true)
    (hnormal : pc = .rejumpPhase → l.io.1 = phaseNormal)
    (hh : h = expected base (ackCount xs) ⟨pc, l⟩)
    (hjump : 0 < ackCount xs ∧ 32 * ackCount xs = base.toNat) :
    Handing base xs h ⟨pc, l⟩ := by
  cases pc with
  | rejumpPhase | rejumpStatus | rejumpOffset =>
      constructor
      · simp [hh, expected]
      · simp [Pc.handshake]
      · simp
      · exact hnormal
      · simp
      · exact fun _ _ => hjump
      · exact fun _ => hh
      · simp [Pc.behindLoop]
  | _ => simp [Pc.rejumping] at hpc

/-- The loop test starts the hand-over that is wanted. -/
theorem handing_loopHead
    (hh : h = (.idle, if l.needRejump then 0 else due base (ackCount xs)))
    (hjump : l.needRejump = true → 0 < ackCount xs ∧ 32 * ackCount xs = base.toNat)
    (hleft : l.needRejump = true → l.remaining ≠ 0#32) :
    Handing base xs h (loopHead l).1 := by
  have hdue := due_le base (ackCount xs)
  unfold loopHead
  split
  · split
    · rename_i hwanted
      rw [if_pos hwanted] at hh
      exact handing_rejump rfl (fun _ => rfl) hh (hjump hwanted)
    · exact handing_loop (.inl rfl) hh hjump
  · rename_i hzero
    have hunwanted : l.needRejump = false := by
      by_contra hwanted
      exact hzero (hleft (by simpa using hwanted))
    simp only [hunwanted, Bool.false_eq_true, if_false] at hh
    exact handing_tail rfl (fun _ => rfl) (by simp [hh, hdue]) fun _ => by simp [hh]

/-- A failed call leaves the hand-over where it is. -/
theorem handing_failed (hinv : Inv opts img xs s) (hh : Handing base xs h s)
    (hc : pending s = some c)
    (hleft : s.pc.looping = true → s.vars.needRejump = true → s.vars.remaining ≠ 0#32) :
    Handing base (xs ++ [(c, none)]) h ⟨.returned 1, s.vars⟩ := by
  refine handing_tail rfl nofun hh.once fun hzero => ?_
  rw [ackCount_failed]
  cases hhand : s.pc.handshake with
  | true => simp [hh.begun hhand, ackCount, (hinv.handshake hhand).1]
  | false =>
      cases hlooping : s.pc.looping with
      | true =>
          cases hstreaming : s.pc.streaming with
          -- While a block is sent `remaining` may be zero already: it was the last one.
          | true =>
              have hunwanted : s.vars.needRejump = false := by
                by_contra hwanted
                exact hleft hlooping (by simpa using hwanted) hzero
              rw [hh.loop hlooping]
              cases hpc : s.pc <;> simp_all [Pc.streaming, expected]
          | false => exact absurd hzero (hinv.waiting hlooping hstreaming).1
      | false =>
          refine hh.tail ?_ hzero
          cases hpc : s.pc <;> simp_all [Pc.handshake, Pc.looping, Pc.behindLoop, pending]

/-- The reply `1` wants the jump exactly when its block ends at the base offset. -/
theorem handing_asks (hinv : Inv opts img xs s) (hm : Measured xs s.vars)
    (hsize : img.size = 0x20000) (hincluded : s.vars.ctx.includeBootloader = true)
    (hbase : s.vars.baseOffset = base) (hh : Handing base xs h s) (hpoll : s.pc = .poll)
    (hc : c.cmd = cmdPollProgress) {r : Byte × Byte} :
    Handing base (xs ++ [(c, some r)]) h
      (streamFrom 0 (loadBlock (advance { s.vars with resp := r }))).1 := by
  obtain ⟨hne, hunwanted⟩ := hinv.waiting (by simp [hpoll, Pc.looping])
    (by simp [hpoll, Pc.streaming])
  have htracked := hinv.tracked (by simp [hpoll])
  have hlt := (lt_blockCount_iff _).mp (hm.lt_iff.mpr hne)
  have hleft := hm.remaining
  rw [if_pos (hm.lt_iff.mpr hne)] at hleft
  have hh' : h = (.idle, due base (ackCount xs)) := by
    rw [hh.loop (by simp [hpoll, Pc.looping]), expected, hpoll]
    simp [hunwanted]
  simp only [areaSize, startOffset, hincluded, if_true, BitVec.toNat_ofNat] at hlt hleft
  -- Both sides of the test count down from the end of the file.
  have htest : s.vars.ctx.fileSize - base = s.vars.remaining - blockSize ↔
      32 * (ackCount xs + 1) = base.toNat := by
    have hfile : s.vars.ctx.fileSize.toNat = 0x20000 := by simp [htracked.fileSize, hsize]
    have hbaseLt : base.toNat < 2 ^ 16 := hbase ▸ htracked.baseOffset_lt
    rw [BitVec.toNat_inj.symm, BitVec.toNat_sub, BitVec.toNat_sub, hfile, hleft]
    simp only [blockSize, BitVec.toNat_ofNat]
    omega
  have hflag : (advance { s.vars with resp := r }).needRejump = true ↔
      r.1 = 1#8 ∧ 32 * (ackCount xs + 1) = base.toNat := by
    rw [← htest, ← hbase]
    by_cases hr : r.1 = 1#8
    · by_cases heq : s.vars.ctx.fileSize - s.vars.baseOffset = s.vars.remaining - blockSize <;>
        simp [advance, hr, heq, hunwanted]
    · simp [advance, hr, hunwanted]
  have hacks : ackCount (xs ++ [(c, some r)]) = ackCount xs + if r.1 = 1#8 then 1 else 0 :=
    ackCount_poll hc r
  have hstate : (streamFrom 0 (loadBlock (advance { s.vars with resp := r }))).1.vars.needRejump =
      (advance { s.vars with resp := r }).needRejump := rfl
  refine handing_loop (.inr rfl) ?_ ?_
  · show h = (.idle, if (advance { s.vars with resp := r }).needRejump = true then 0
      else due base (ackCount (xs ++ [(c, some r)])))
    rw [hh', hacks]
    by_cases hr : r.1 = 1#8
    · by_cases heq : 32 * (ackCount xs + 1) = base.toNat
      · have hearly : ¬ base.toNat ≤ 32 * ackCount xs := by omega
        rw [if_pos (hflag.mpr ⟨hr, heq⟩)]
        simp [due, hearly]
      · rw [if_neg fun hwanted => heq (hflag.mp hwanted).2, if_pos hr, due_succ heq]
    · rw [if_neg fun hwanted => hr (hflag.mp hwanted).1, if_neg hr, Nat.add_zero]
  · intro hwanted
    obtain ⟨hr, heq⟩ := hflag.mp hwanted
    rw [hacks, if_pos hr]
    exact ⟨by omega, heq⟩

/-- Any other call than these three leaves the hand-over where it is. -/
theorem handStep_quiet (hc : pending s = some c)
    (hcommand : s.pc.command ≠ cmdPhaseCtrl ∧ s.pc.command ≠ cmdReadStatus ∧
      s.pc.command ≠ cmdSetOffset) (h : Stage × Nat) (a : Transfer) :
    handStep base h (.call c a) = h := by
  rw [← pending_cmd hc] at hcommand
  exact handStep_other hcommand.1 hcommand.2.1 hcommand.2.2 h a

/-- The handshake starts no hand-over: the phase it selects is `PHASE_WITH_BBL`. -/
theorem handing_handshake (hinv : Inv opts img xs s) (hh : Handing base xs h s)
    (hhand : s.pc.handshake = true) (hc : pending s = some c) (r : Byte × Byte)
    (hnext : (resume s (some r)).1.vars.ctx.includeBootloader = true) :
    Handing base (xs ++ [(c, some r)]) (handStep base h (.call c (some r)))
      (resume s (some r)).1 := by
  have hcmd := pending_cmd hc
  obtain ⟨hpolls, -, hunwanted⟩ := handshake_exchange hinv hhand hc (some r)
  have hacks : ackCount (xs ++ [(c, some r)]) = 0 := by simp [ackCount, hpolls]
  rw [hh.begun hhand]
  rcases s with ⟨pc, l⟩
  cases pc with
  | readIdVerA | readBaseOff =>
      rw [handStep_quiet hc (by simp only [Pc.command]; decide)]
      exact handing_begun rfl (by simp)
  | readIdVerB =>
      rw [handStep_quiet hc (by simp only [Pc.command]; decide)]
      simp only [resume, onRead, afterIdVerB, romGuard]
      split
      · exact handing_tail rfl (by simp) (Nat.zero_le 1) fun _ => by simp [hacks]
      · exact handing_begun rfl (by simp)
  | readStatus =>
      rw [handStep_idle (by simp only [hcmd, Pc.command]; decide)]
      simp only [resume, onRead, afterStatus, choosePhase] at hnext ⊢
      split at hnext <;> split at hnext <;> simp_all [emit, goto]
      exact handing_begun rfl fun _ => rfl
  | phaseCtrl =>
      obtain rfl : c = ⟨cmdPhaseCtrl, l.io.1, l.io.2, 2⟩ := by
        simpa [pending, eq_comm] using hc
      have hbbl : l.io.1 = phaseWithBbl := hh.withBbl rfl
      have hother : l.io.1 ≠ phaseNormal := by
        rw [hbbl]
        decide
      rw [handStep_phase rfl hother]
      show Handing base _ _ ⟨.setOffset, _⟩
      exact handing_begun rfl (by simp)
  | setOffset =>
      have hneed : l.needRejump = false := hunwanted
      rw [handStep_idle (by simp only [hcmd, Pc.command]; decide)]
      show Handing base _ _ (loopHead l).1
      refine handing_loopHead ?_ ?_ ?_ <;> simp [hneed, hacks]
  | _ => simp [Pc.handshake] at hhand

/-- The three calls of the re-jump move the monitor through its stages. -/
theorem handing_jump (hinv : Inv opts img xs s) (hbase : s.vars.baseOffset = base)
    (hh : Handing base xs h s) (hjumping : s.pc.rejumping = true)
    (hagain : s.pc = .rejumpOffset → s.vars.io = offsetBytes s.vars.baseOffset)
    (hne : s.vars.remaining ≠ 0#32) (hc : pending s = some c) (r : Byte × Byte) :
    Handing base (xs ++ [(c, some r)]) (handStep base h (.call c (some r)))
      (resume s (some r)).1 := by
  have hcmd := pending_cmd hc
  have hlooping : s.pc.looping = true := by
    cases hpc : s.pc <;> simp_all [Pc.rejumping, Pc.looping]
  have hpoll : s.pc ≠ .poll := by
    intro hpoll
    simp [hpoll, Pc.rejumping] at hjumping
  have hjump := hh.jump hlooping (.inr hjumping)
  rw [← ackCount_of_ne_poll hc hpoll (some r)] at hjump
  rw [hh.loop hlooping]
  rcases s with ⟨pc, l⟩
  cases pc with
  | rejumpPhase =>
      obtain rfl : c = ⟨cmdPhaseCtrl, l.io.1, l.io.2, 2⟩ := by
        simpa [pending, eq_comm] using hc
      rw [handStep_ask rfl (hh.normal rfl)]
      show Handing base _ _ ⟨.rejumpStatus, l⟩
      exact handing_rejump rfl (by simp) rfl hjump
  | rejumpStatus =>
      simp only [expected]
      rw [handStep_confirm hcmd]
      by_cases hr : r.1 = 0x55#8
      · have hresume : resume ⟨.rejumpStatus, l⟩ (some r) = goto .rejumpOffset { l with
            resp := r
            io := (l.baseOffset.setWidth 8, (l.baseOffset >>> 8).setWidth 8) } := by
          simp [resume, onRead, afterJump, hr]
        rw [hresume, if_pos hr]
        exact handing_rejump rfl (by simp) rfl hjump
      · have hresume : resume ⟨.rejumpStatus, l⟩ (some r) =
            emit .jumpFailed (afterLoop { l with resp := r }) := by
          simp [resume, onRead, afterJump, hr]
        rw [hresume, if_neg hr]
        -- The loop is left with blocks missing, so no hand-over was due.
        exact handing_tail rfl (fun _ => rfl) (Nat.zero_le 1) fun hzero => absurd hzero hne
  | rejumpOffset =>
      obtain rfl : c = ⟨cmdSetOffset, l.io.1, l.io.2, 2⟩ := by
        simpa [pending, eq_comm] using hc
      have hio : l.io = offsetBytes base := hbase ▸ hagain rfl
      have hunwanted : l.needRejump = false := (hinv.waiting rfl rfl).2
      have hdue := due_of_eq hjump.1 hjump.2
      simp only [expected]
      rw [handStep_finish rfl hio]
      show Handing base _ _ ⟨.poll, l⟩
      refine handing_loop (.inl rfl) ?_ (by simp [hunwanted])
      rw [hdue, hunwanted]
      rfl
  | _ => simp [Pc.rejumping] at hjumping

/-- Sending a block does not touch the hand-over; behind it the jump that is wanted starts. -/
theorem handing_stream (hh : Handing base xs h s) (hstreaming : s.pc.streaming = true)
    (hleft : s.vars.needRejump = true → s.vars.remaining ≠ 0#32) (hc : pending s = some c)
    (r : Byte × Byte) :
    Handing base (xs ++ [(c, some r)]) (handStep base h (.call c (some r)))
      (resume s (some r)).1 := by
  have hpoll : s.pc ≠ .poll := by
    intro hpoll
    simp [hpoll, Pc.streaming] at hstreaming
  have hacks : ackCount (xs ++ [(c, some r)]) = ackCount xs :=
    ackCount_of_ne_poll hc hpoll (some r)
  rcases s with ⟨pc, l⟩
  cases pc with
  | streamWord i =>
      rw [handStep_quiet hc (by simp only [Pc.command]; decide)]
      have hloop : h = (.idle, if l.needRejump then 0 else due base (ackCount xs)) :=
        hh.loop rfl
      have hjump : l.needRejump = true → _ := fun hwanted => hh.jump rfl (.inl hwanted)
      rw [← hacks] at hloop hjump
      simp only [resume, onWrite, streamFrom]
      split <;> exact handing_loop (.inr rfl) hloop hjump
  | streamTrailer =>
      rw [handStep_quiet hc (by simp only [Pc.command]; decide)]
      have hloop : h = (.idle, if l.needRejump then 0 else due base (ackCount xs)) :=
        hh.loop rfl
      have hjump : l.needRejump = true → _ := fun hwanted => hh.jump rfl (.inl hwanted)
      rw [← hacks] at hloop hjump
      show Handing base _ _ (loopHead l).1
      exact handing_loopHead hloop hjump hleft
  | _ => simp [Pc.streaming] at hstreaming

/-- Behind the loop no hand-over starts: the phase there is `PHASE_FINALIZE`. -/
theorem handing_behind (hh : Handing base xs h s) (hbehind : s.pc.behindLoop = true)
    (hc : pending s = some c) (r : Byte × Byte) :
    Handing base (xs ++ [(c, some r)]) (handStep base h (.call c (some r)))
      (resume s (some r)).1 := by
  have hpoll : s.pc ≠ .poll := by
    intro hpoll
    simp [hpoll, Pc.behindLoop] at hbehind
  have htail := hh.tail hbehind
  rw [← ackCount_of_ne_poll hc hpoll (some r)] at htail
  rcases s with ⟨pc, l⟩
  cases pc with
  | finalize =>
      obtain rfl : c = ⟨cmdPhaseCtrl, l.io.1, l.io.2, 2⟩ := by
        simpa [pending, eq_comm] using hc
      have hfinal : l.io.1 = phaseFinalize := hh.final rfl
      have hother : l.io.1 ≠ phaseNormal := by
        rw [hfinal]
        decide
      rw [handStep_phase rfl hother]
      show Handing base _ _ ⟨.finishMode, _⟩
      exact handing_tail rfl (by simp) hh.once htail
  | finishMode =>
      rw [handStep_quiet hc (by simp only [Pc.command]; decide)]
      show Handing base _ _ ⟨.returned 0, l⟩
      exact handing_tail rfl (by simp) hh.once htail
  | returned rc => simp [pending] at hc
  | _ => simp [Pc.behindLoop] at hbehind

/-- One answered call keeps what is known about the hand-over. -/
theorem handing_resume (hinv : Inv opts img xs s)
    (hm : s.pc.chosen = true → Measured xs s.vars) (hsize : img.size = 0x20000)
    (hbbl : WithBbl base s) (hh : Handing base xs h s)
    (hagain : s.pc = .rejumpOffset → s.vars.io = offsetBytes s.vars.baseOffset)
    (hc : pending s = some c) (a : Transfer)
    (hnext : (resume s a).1.vars.ctx.includeBootloader = true) :
    Handing base (xs ++ [(c, a)]) (handStep base h (.call c a)) (resume s a).1 := by
  obtain ⟨hincluded, hbase⟩ := hbbl
  have htracked := hinv.tracked_of_pending hc
  have hleft : s.pc.looping = true → s.vars.needRejump = true ∨ s.pc.rejumping = true →
      s.vars.remaining ≠ 0#32 := by
    intro hlooping hwanted
    have hearly := early_of_looping hlooping
    have hlt : base.toNat < 2 ^ 16 := hbase hearly ▸ htracked.baseOffset_lt
    exact remaining_ne_zero (hm (chosen_of_looping hlooping)) hincluded hlt
      (hh.jump hlooping hwanted).2
  cases a with
  | none =>
      rw [resume_none hc]
      exact handing_failed hinv hh hc fun hlooping hwanted => hleft hlooping (.inl hwanted)
  | some r =>
      rcases s with ⟨pc, l⟩
      cases pc with
      | readIdVerA | readIdVerB | readBaseOff | readStatus | phaseCtrl | setOffset =>
          exact handing_handshake hinv hh rfl hc r hnext
      | rejumpPhase | rejumpStatus | rejumpOffset =>
          exact handing_jump hinv (hbase rfl) hh rfl hagain (hleft rfl (.inr rfl)) hc r
      | poll =>
          have hcmd : c.cmd = cmdPollProgress := pending_cmd hc
          have hfile : l.ctx.fileSize ≠ 0#32 := htracked.fileSize_ne_zero (by omega)
          have hunwanted : l.needRejump = false := (hinv.waiting rfl rfl).2
          rw [handStep_quiet hc (by simp only [Pc.command]; decide)]
          show Handing base _ _ (afterPoll { l with resp := r }).1
          by_cases hr : AsksBlock r.1
          · rw [afterPoll_of_asks (l := { l with resp := r }) hr hfile]
            exact handing_asks hinv (hm rfl) hsize hincluded (hbase rfl) hh rfl hcmd
          · rw [afterPoll_of_not_asks (l := { l with resp := r }) hr]
            have hsame : ackCount (xs ++ [(c, some r)]) = ackCount xs :=
              ackCount_of_not_asks hcmd hr
            refine handing_loopHead ?_ (by simp [hunwanted]) (by simp [hunwanted])
            rw [hh.loop rfl, hsame]
            rfl
      | streamWord | streamTrailer =>
          exact handing_stream hh rfl (fun hwanted => hleft rfl (.inl hwanted)) hc r
      | finalize | finishMode | returned => exact handing_behind hh rfl hc r
      | sigfpe => simp [pending] at hc

/-- Once the boot block is left out it stays out. -/
theorem included_of_resume (h : (resume s a).1.vars.ctx.includeBootloader = true) :
    s.vars.ctx.includeBootloader = true := by
  cases hearly : s.pc.early with
  | false => rwa [(resume_fixed hearly a).1] at h
  | true =>
      rcases s with ⟨pc, l⟩
      cases a with
      | none => cases pc <;> exact h
      | some r =>
          cases pc with
          | readIdVerB =>
              simp only [resume, onRead, afterIdVerB, romGuard] at h
              split at h <;> exact h
          | readStatus =>
              simp only [resume, onRead, afterStatus, choosePhase] at h
              split at h <;> split at h <;> simp_all [emit, goto]
          | readIdVerA | readBaseOff => exact h
          | _ => simp [Pc.early] at hearly

/-- What holds of the boot block held before. -/
theorem WithBbl.of_resume (h : WithBbl base (resume s a).1) : WithBbl base s where
  included := included_of_resume h.included
  baseOffset := by
    intro hearly
    rw [← (resume_fixed hearly a).2]
    exact h.baseOffset (resume_early hearly a)

/-- A block with a byte from the base offset on comes behind the hand-over. -/
theorem gated_answer (hinv : Inv opts img (exchanges cfg.trace) cfg.state) (hpaced : Paced cfg)
    (hbounded : Bounded (exchanges cfg.trace) cfg.state) (hbbl : WithBbl base cfg.state)
    (hh : Handing base (exchanges cfg.trace) (hand base cfg.trace) cfg.state)
    (haligned : base ≠ 0#32 ∧ 32 ∣ base.toNat) (hc : pending cfg.state = some c)
    (hcmd : c.cmd = cmdStreamData) {k off : Word} (hlast : lastSeek cfg.trace = some (k, off))
    (hbehind : base.toNat < off.toNat + 32) : 0 < (hand base cfg.trace).2 := by
  have hstreaming := streaming_of_cmd hc hcmd
  have hlooping := looping_of_streaming hstreaming
  have htracked := hinv.tracked_of_pending hc
  have hloop : hand base cfg.trace = (.idle, if cfg.state.vars.needRejump then 0
      else due base (ackCount (exchanges cfg.trace))) := by
    rw [hh.loop hlooping]
    cases hpc : cfg.state.pc <;> simp_all [Pc.streaming, expected]
  -- The current block is the one that the number of replies `1` names.
  have hoff : off.toNat = 32 * (ackCount (exchanges cfg.trace) - 1) := by
    have hbound := hbounded.2
    rw [(hpaced.eq_of_lastSeek hlast).2, blockOffset_eq, htracked.temp, startOffset, if_pos hbbl.included,
      BitVec.add_zero, BitVec.toNat_mul]
    simp only [blockSize, BitVec.toNat_ofNat]
    omega
  obtain ⟨hne, hdvd⟩ := haligned
  have hpos : base.toNat ≠ 0 := fun h => hne (BitVec.eq_of_toNat_eq (by simpa using h))
  have hunwanted : cfg.state.vars.needRejump = false := by
    by_contra hwanted
    have := (hh.jump hlooping (.inl (by simpa using hwanted))).2
    omega
  have hdue : due base (ackCount (exchanges cfg.trace)) = 1 := if_pos ⟨hne, hdvd, by omega⟩
  rw [hloop, hunwanted]
  show 0 < due base (ackCount (exchanges cfg.trace))
  omega

end Step

section Run

variable (opts : Options) {img : Image} (hsize : img.size = 0x20000) {base : Word}
include hsize

/-- The hand-overs of every run that flashes the boot block. -/
theorem handing_run (as : List Transfer) (hbbl : WithBbl base ((main opts img).run as).state) :
    Handing base (exchanges ((main opts img).run as).trace)
      (hand base ((main opts img).run as).trace) ((main opts img).run as).state := by
  have hstart : Handing base [] (.idle, 0) ⟨.readIdVerA, openRom opts img⟩ :=
    handing_begun rfl nofun
  -- A run that flashes the boot block has done so at every earlier moment.
  refine Machine.run_invariant_under (m := main opts img)
    (P := fun cfg => WithBbl base cfg.state →
      Handing base (exchanges cfg.trace) (hand base cfg.trace) cfg.state)
    (I := fun cfg => Inv opts img (exchanges cfg.trace) cfg.state ∧
      (cfg.state.pc.chosen = true → Measured (exchanges cfg.trace) cfg.state.vars) ∧
      Announcing cfg)
    ?_ (fun _ => hstart) ?_ as hbbl
  · exact fun bs => ⟨inv_run opts img bs, measured_run opts hsize bs, announcing_run opts img bs⟩
  · rintro cfg c a ⟨hinv, hmeasured, hannouncing⟩ hh hc hnext
    have hbefore : WithBbl base cfg.state := hnext.of_resume
    rw [Machine.exchanges_answer, hand_answer]
    exact handing_resume hinv hmeasured hsize hbefore (hh hbefore) hannouncing.again hc a
      hnext.included

/-- With an aligned base offset the gate is kept. -/
theorem gated_run (haligned : base ≠ 0#32 ∧ 32 ∣ base.toNat) (as : List Transfer)
    (hbbl : WithBbl base ((main opts img).run as).state) :
    Always (fun before e => ∀ c a, e = .call c a → c.cmd = cmdStreamData →
      ∀ k off, lastSeek before = some (k, off) → base.toNat < off.toNat + 32 →
        0 < (hand base before).2) ((main opts img).run as).trace := by
  refine Machine.run_invariant_under
    (P := fun cfg => WithBbl base cfg.state →
      Always (fun before e => ∀ c a, e = .call c a → c.cmd = cmdStreamData →
        ∀ k off, lastSeek before = some (k, off) → base.toNat < off.toNat + 32 →
          0 < (hand base before).2) cfg.trace)
    (I := fun cfg => Inv opts img (exchanges cfg.trace) cfg.state ∧ Paced cfg ∧
      Bounded (exchanges cfg.trace) cfg.state ∧ (WithBbl base cfg.state →
        Handing base (exchanges cfg.trace) (hand base cfg.trace) cfg.state))
    ?_ (fun _ => always_nil) ?_ as hbbl
  · exact fun bs => ⟨inv_run opts img bs, paced_run opts img bs, bounded_run opts img bs,
      handing_run opts hsize bs⟩
  · rintro cfg c a ⟨hinv, hpaced, hbounded, hhanding⟩ hgated hc hnext
    have hbefore : WithBbl base cfg.state := hnext.of_resume
    rw [answer_trace, always_append]
    refine ⟨hgated hbefore, always_call fun hcmd k off hlast hbehind => ?_⟩
    rw [List.append_nil] at hlast ⊢
    exact gated_answer hinv hpaced hbounded hbefore (hhanding hbefore) haligned hc hcmd hlast
      hbehind

end Run

/-- Every base offset below `2 ^ 16` can be reported. -/
theorem exists_bytes {base : Word} (hbase : base.toNat < 2 ^ 16) :
    ∃ hi lo : Byte, (hi.setWidth 32 <<< 8) ||| lo.setWidth 32 = base := by
  refine ⟨(base >>> 8).setWidth 8, base.setWidth 8, BitVec.eq_of_toNat_eq ?_⟩
  have hsplit := Nat.shiftLeft_add_eq_or_of_lt (i := 8) (b := base.toNat % 2 ^ 8)
    (Nat.mod_lt _ (by decide)) (base.toNat / 2 ^ 8 % 2 ^ 8)
  simp only [BitVec.toNat_or, BitVec.toNat_shiftLeft, BitVec.toNat_setWidth,
    BitVec.toNat_ushiftRight, Nat.shiftRight_eq_div_pow]
  rw [Nat.mod_eq_of_lt (a := base.toNat % 2 ^ 8), Nat.mod_eq_of_lt (a := _ <<< 8),
    Nat.mod_eq_of_lt (a := base.toNat / 2 ^ 8 % 2 ^ 8) (b := 2 ^ 32), ← hsplit, Nat.shiftLeft_eq]
  all_goals (try rw [Nat.shiftLeft_eq]); omega

/-- A finished loop has handed over exactly when the base offset is aligned. -/
theorem hand_finished (opts : Options) {img : Image} (hsize : img.size = 0x20000) {base : Word}
    (hbase : base.toNat < 2 ^ 16) (as : List Transfer)
    (hbbl : WithBbl base ((main opts img).run as).state)
    (hfinished : LoopFinished ((main opts img).run as)) :
    (hand base ((main opts img).run as).trace).2 =
      if base ≠ 0#32 ∧ 32 ∣ base.toNat then 1 else 0 := by
  have hmeasured := measured_complete opts hsize as hfinished.behind
  have hbehind := ((outcome_run opts img as).complete hfinished.behind).1
  rw [(handing_run opts hsize as hbbl).tail hbehind hfinished.remaining]
  generalize (main opts img).run as = cfg at *
  -- The area reaches beyond every base offset.
  have hcount : ¬ ackCount (exchanges cfg.trace) < blockCount cfg.state.vars :=
    fun hlt => hmeasured.lt_iff.mp hlt hfinished.remaining
  have hreached : base.toNat ≤ 32 * ackCount (exchanges cfg.trace) := by
    rw [lt_blockCount_iff, areaSize] at hcount
    simp only [startOffset, hbbl.included, if_true, BitVec.toNat_ofNat] at hcount
    omega
  simp [due, hreached]

/-- On a full-size image with `-bbl` the gate is kept in every run exactly when
the base offset is a multiple of 32 other than zero. -/
theorem handsOver_iff (opts : Options) (hincluded : opts.includeBootloader = true) (img : Image)
    (hsize : img.size = 0x20000) (base : Word) (hbase : base.toNat < 2 ^ 16) :
    (∀ as, StartsWithBbl opts base (exchanges ((main opts img).run as).trace) →
      HandsOver img base ((main opts img).run as)) ↔
      base ≠ 0#32 ∧ 32 ∣ base.toNat := by
  constructor
  · intro h
    -- Any finishing run tells, and there is one.
    obtain ⟨hi, lo, hbytes⟩ := exists_bytes hbase
    obtain ⟨bs, hgets, hfinished⟩ := exists_finished opts hsize _
      (getsOn_reads opts hsize hi lo 0#8)
    have hsettled := settled_run opts img (reads img hi lo 0#8 ++ bs)
    have hincluded' := hgets.included
    rw [hincluded] at hincluded'
    have hstarts : StartsWithBbl opts base
        (exchanges ((main opts img).run (reads img hi lo 0#8 ++ bs)).trace) := by
      constructor
      · rw [← hsettled.included, hincluded']
        rfl
      · rw [← hsettled.baseOffset, hgets.baseOffset, hbytes]
    have hbbl : WithBbl base ((main opts img).run (reads img hi lo 0#8 ++ bs)).state :=
      ⟨hincluded', fun _ => hgets.baseOffset.trans hbytes⟩
    have hcount := (h _ hstarts).finished hfinished
    rw [hand_finished opts hsize hbase _ hbbl hfinished] at hcount
    by_contra hno
    simp [hno] at hcount
  · intro haligned as hstarts
    have hsettled := settled_run opts img as
    have hbbl : WithBbl base ((main opts img).run as).state :=
      ⟨hsettled.included.trans hstarts.included,
        fun _ => hsettled.baseOffset.trans hstarts.baseOffset⟩
    constructor
    · intro before e after htr c a heq hcmd
      obtain ⟨k, hk, -⟩ := streams_run opts img as before e after htr c a heq hcmd
      exact ⟨⟨k, hk⟩, gated_run opts hsize haligned as hbbl before e after htr c a heq hcmd⟩
    · exact (handing_run opts hsize as hbbl).once
    · intro hfinished
      rw [hand_finished opts hsize hbase as hbbl hfinished, if_pos haligned]

theorem handsOver_iff_aligned :
    (∀ as, StartsWithBbl (sampleOptions true) 0x8000#32
        (exchanges ((main (sampleOptions true) sampleImage).run as).trace) →
      HandsOver sampleImage 0x8000#32 ((main (sampleOptions true) sampleImage).run as)) ↔
      (0x8000#32 : Word) ≠ 0#32 ∧ 32 ∣ (0x8000#32 : Word).toNat :=
  handsOver_iff (sampleOptions true) rfl sampleImage rfl 0x8000#32 (by decide)

/-- With base offset `0x10` the first block, which reaches beyond it, is streamed
without a hand-over. -/
theorem handsOver_fails :
    ¬ ∀ opts img as base, img.size = 0x20000 →
      StartsWithBbl opts base (exchanges ((main opts img).run as).trace) →
      HandsOver img base ((main opts img).run as) := by
  intro h
  let tr := ((main (sampleOptions true) sampleImage).run
    (handshakeReplies 0#8 0x10#8 0#8 ++ pollAndBlock 1#8)).trace
  have hstarts : StartsWithBbl (sampleOptions true) 0x10#32 (exchanges tr) :=
    ⟨by decide +kernel, by decide +kernel⟩
  have hgated := (h _ sampleImage _ _ rfl hstarts).gated
  have htr : tr = tr.take 11 ++ .call ⟨cmdStreamData, 0#8, 0#8, 2⟩ (some (0#8, 0#8)) ::
      tr.drop 12 := by decide +kernel
  have hpos := (hgated _ _ _ htr _ _ rfl rfl).2 0#32 0#32 (by decide +kernel) (by decide)
  exact absurd hpos (by decide +kernel)

end First
end EcFlash
