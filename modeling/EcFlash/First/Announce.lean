import EcFlash.First.StopAndWait

/-!
# Announced offsets

`CMD_SET_OFFSET` tells the EC where the next block belongs.  The initial one
agrees with the block that follows, whatever the EC replies first.  The one of
the re-jump announces the base offset while the block counter still names the
block in front of it, so it agrees only when the next reply that asks for a
block is `1`.
-/

namespace EcFlash
namespace First

open Reactive

/-- The payload of `CMD_SET_OFFSET` for an offset. -/
def offsetBytes (off : Word) : Byte × Byte :=
  (off.setWidth 8, (off >>> 8).setWidth 8)

/-- The offset that a payload `(lo, hi)` announces. -/
def announcedOffset (p : Byte × Byte) : Nat :=
  p.1.toNat + 256 * p.2.toNat

/-- What one event does to the announcement that no block has followed yet. -/
def announceStep (p : Option (Byte × Byte)) : Event Call Transfer Out → Option (Byte × Byte)
  | .call c _ => if c.cmd = cmdSetOffset then some (c.io0, c.io1) else p
  | .out (.fseek _ _) => none
  | .out _ => p

/-- The last announcement, if no block has been selected since. -/
def announced (tr : History) : Option (Byte × Byte) :=
  tr.foldl announceStep none

/-- The points of the re-jump. -/
def Pc.rejumping : Pc → Bool
  | .rejumpPhase | .rejumpStatus | .rejumpOffset => true
  | _ => false

/-- What every run keeps about its announcements. -/
structure Announcing (cfg : Moment) : Prop where
  fresh : cfg.state.pc.handshake = true → announced cfg.trace = none ∧ lastSeek cfg.trace = none
  initial : cfg.state.pc = .setOffset →
    cfg.state.vars.io = offsetBytes (startOffset cfg.state.vars)
  /-- When the base offset is reached, the block in front of it is the current one. -/
  jump : cfg.state.pc.looping = true →
    cfg.state.vars.needRejump = true ∨ cfg.state.pc.rejumping = true →
      cfg.state.vars.firstTemp = true ∧ lastSeek cfg.trace ≠ none ∧
        blockOffset cfg.state.vars + 32#32 = cfg.state.vars.baseOffset
  again : cfg.state.pc = .rejumpOffset → cfg.state.vars.io = offsetBytes cfg.state.vars.baseOffset
  /-- An announcement names the first block, or the one behind the current one. -/
  next : ∀ p, announced cfg.trace = some p → cfg.state.pc.early = false ∧
    (lastSeek cfg.trace = none ∧ (startOffset cfg.state.vars).toNat = announcedOffset p ∨
      lastSeek cfg.trace ≠ none ∧ cfg.state.vars.firstTemp = true ∧
        (blockOffset cfg.state.vars + 32#32).toNat = announcedOffset p)

section Step

variable {opts : Options} {img : Image} {cfg : Moment} {s : State} {l : Locals} {c : Call}
  {a : Transfer}

theorem announcedOffset_offsetBytes {off : Word} (h : off.toNat < 2 ^ 16) :
    announcedOffset (offsetBytes off) = off.toNat := by
  unfold announcedOffset offsetBytes
  simp only [BitVec.toNat_setWidth, BitVec.toNat_ushiftRight, Nat.shiftRight_eq_div_pow]
  omega

theorem foldl_announceStep_of_seeks {os : List Out} (h : seeks os = [])
    (p : Option (Byte × Byte)) :
    (os.map Event.out : History).foldl announceStep p = p := by
  induction os with
  | nil => rfl
  | cons o os ih =>
      cases o with
      | fseek temp off => simp [seeks, seek?] at h
      | _ => exact ih h

/-- A call that selects no block can only announce. -/
theorem announced_quiet {a : Transfer} (h : ¬ Selects cfg.state a) :
    announced ((main opts img).answer cfg c a).trace =
      if c.cmd = cmdSetOffset then some (c.io0, c.io1) else announced cfg.trace := by
  rw [answer_trace, announced, List.foldl_append, List.foldl_cons,
    foldl_announceStep_of_seeks (seeks_quiet h)]
  rfl

theorem lastSeek_quiet {a : Transfer} (h : ¬ Selects cfg.state a) :
    lastSeek ((main opts img).answer cfg c a).trace = lastSeek cfg.trace := by
  rw [answer_trace]
  exact lastSeek_append (by simpa using seeks_quiet h)

/-- No call but a poll makes the program want to jump. -/
theorem rejump_quiet {a : Transfer} (h : ¬ Selects s a) (hearly : s.pc.early = false)
    (hjump : (resume s a).1.vars.needRejump = true ∨ (resume s a).1.pc.rejumping = true) :
    s.vars.needRejump = true ∨ s.pc.rejumping = true := by
  -- The loop test passes the wish on to the first call of the re-jump.
  have hhead (l : Locals) (hl : (loopHead l).1.vars.needRejump = true ∨
      (loopHead l).1.pc.rejumping = true) : l.needRejump = true := by
    by_contra hno
    simp only [Bool.not_eq_true] at hno
    unfold loopHead at hl
    split at hl <;> simp [hno, goto, afterLoop, emit, Pc.rejumping] at hl
  by_cases hpoll : s.pc = .poll
  · obtain ⟨resp, hnone | hstop | hloop⟩ := resume_poll_quiet hpoll h
    · simpa [hnone, Pc.rejumping, hpoll] using hjump
    · simpa [hstop, Pc.rejumping, hpoll] using hjump
    · rw [hloop] at hjump
      exact .inl (hhead { s.vars with resp } hjump)
  · rcases s with ⟨pc, l⟩
    cases a with
    | none => cases pc <;> simp_all [resume, onRead, onWrite, goto, Pc.rejumping]
    | some r =>
        cases pc with
        | poll => exact absurd rfl hpoll
        | setOffset | streamTrailer => exact .inl (hhead l hjump)
        | rejumpPhase | rejumpStatus | rejumpOffset => exact .inr rfl
        | streamWord i =>
            simp only [resume, onWrite, streamFrom] at hjump
            split at hjump <;> simpa [goto, Pc.rejumping] using hjump
        | _ => simp_all [resume, onWrite, goto, emit, afterPhaseCtrl, afterFinalize,
            Pc.rejumping, Pc.early]

/-- The reply that brings `remaining` to the base offset names the block in front
of it. -/
theorem blockOffset_of_jump (hinv : Inv opts img (exchanges cfg.trace) cfg.state)
    (hpoll : cfg.state.pc = .poll) (hc : c.cmd = cmdPollProgress) {r : Byte × Byte}
    (hjump : (advance { cfg.state.vars with resp := r }).needRejump = true) :
    (advance { cfg.state.vars with resp := r }).firstTemp = true ∧
      blockOffset (advance { cfg.state.vars with resp := r }) + 32#32 =
        cfg.state.vars.baseOffset := by
  obtain ⟨hne, hnone⟩ := hinv.waiting (by simp [hpoll, Pc.looping])
    (by simp [hpoll, Pc.streaming])
  have hleft := (hinv.counted (by simp [hpoll, Pc.counting, Pc.looping])).eq_left hne
  have htracked := (hinv.tracked (by simp [hpoll])).reply r
  -- Only the reply `1` can raise the flag.
  by_cases hr : r.1 = 1#8
  · refine ⟨by simp [advance, hr], ?_⟩
    have heq : cfg.state.vars.ctx.fileSize - cfg.state.vars.baseOffset =
        cfg.state.vars.remaining - blockSize := by
      by_contra hno
      simp [advance, hr, hno, hnone] at hjump
    have htemp : (advance { cfg.state.vars with resp := r }).temp =
        BitVec.ofNat 32 (ackCount (exchanges cfg.trace)) := by
      have hload : (advance { cfg.state.vars with resp := r }).temp = _ :=
        (tracked_load htracked hc).temp
      simpa [ackCount_poll hc, hr] using hload
    rw [blockOffset_eq, htemp, advance_startOffset]
    rw [hleft, left] at heq
    have hstart : startOffset { cfg.state.vars with resp := r } = startOffset cfg.state.vars := rfl
    rw [hstart]
    simp only [blockSize] at heq ⊢
    grind
  · simp [advance, hr, hnone] at hjump

/-- A selected block takes up the announcement. -/
theorem announcing_of_selects (hinv : Inv opts img (exchanges cfg.trace) cfg.state)
    (hpoll : cfg.state.pc = .poll) (hc : pending cfg.state = some c) {r : Byte × Byte}
    (hr : AsksBlock r.1) (hfile : cfg.state.vars.ctx.fileSize ≠ 0#32) :
    Announcing ((main opts img).answer cfg c (some r)) := by
  have hjump := blockOffset_of_jump hinv hpoll (cmd_of_poll hc hpoll) (r := r)
  have hstate := answer_asks_state opts img c hpoll hr hfile
  have htrace := answer_asks_trace opts img c hpoll hr hfile
  have hbase : (advance { cfg.state.vars with resp := r }).baseOffset =
      cfg.state.vars.baseOffset := advance_baseOffset _
  generalize advance { cfg.state.vars with resp := r } = l' at *
  have hnone : announced ((main opts img).answer cfg c (some r)).trace = none := by
    rw [htrace, announced, List.foldl_append]
    rfl
  have hlast : lastSeek ((main opts img).answer cfg c (some r)).trace ≠ none := by
    rw [htrace]
    simp [lastSeek, outputs, seeks, seek?, List.findSome?]
  constructor
  · rw [hstate]
    rintro ⟨⟩
  · rw [hstate]
    rintro ⟨⟩
  · rw [hstate]
    intro _ hwants
    obtain ⟨hfirst, hoff⟩ := hjump (hwants.resolve_right (by simp [streamFrom, goto, Pc.rejumping]))
    exact ⟨hfirst, hlast, hoff.trans hbase.symm⟩
  · rw [hstate]
    rintro ⟨⟩
  · rw [hnone]
    rintro bytes ⟨⟩

/-- In front of the last call of the handshake. -/
theorem resume_before_setOffset (hhand : s.pc.handshake = true) (hset : s.pc ≠ .setOffset)
    (a : Transfer) : (resume s a).1.pc.counting = false ∧
      ((resume s a).1.pc = .setOffset →
        s.pc = .phaseCtrl ∧ resume s a = afterPhaseCtrl s.vars) := by
  rcases s with ⟨pc, l⟩
  cases a with
  | none => cases pc <;> exact ⟨rfl, by rintro ⟨⟩⟩
  | some r =>
      cases pc with
      | readIdVerB =>
          simp only [resume, onRead, afterIdVerB, romGuard]
          split <;> exact ⟨rfl, by rintro ⟨⟩⟩
      | readStatus =>
          simp only [resume, onRead, afterStatus, choosePhase]
          split <;> split <;> exact ⟨rfl, by rintro ⟨⟩⟩
      | readIdVerA | readBaseOff => exact ⟨rfl, by rintro ⟨⟩⟩
      | phaseCtrl => exact ⟨rfl, fun _ => ⟨rfl, rfl⟩⟩
      | setOffset => exact absurd rfl hset
      | _ => simp [Pc.handshake] at hhand

/-- In the handshake nothing is announced before its last call. -/
theorem announcing_of_handshake (hinv : Inv opts img (exchanges cfg.trace) cfg.state)
    (h : Announcing cfg) (hc : pending cfg.state = some c)
    (hhand : cfg.state.pc.handshake = true) (hset : cfg.state.pc ≠ .setOffset) (a : Transfer) :
    Announcing ((main opts img).answer cfg c a) := by
  have hquiet : ¬ Selects cfg.state a := by
    rintro ⟨hpoll, -⟩
    simp [hpoll, Pc.handshake] at hhand
  obtain ⟨hfresh, hseek⟩ := h.fresh hhand
  have hcmd : c.cmd ≠ cmdSetOffset := by
    rw [pending_cmd hc]
    cases hpc : cfg.state.pc <;> simp_all [Pc.handshake, Pc.command] <;> decide
  have hnone : announced ((main opts img).answer cfg c a).trace = none := by
    rw [announced_quiet hquiet, if_neg hcmd, hfresh]
  have hlast : lastSeek ((main opts img).answer cfg c a).trace = none := by
    rw [lastSeek_quiet hquiet, hseek]
  obtain ⟨hcounting, hbytes⟩ := resume_before_setOffset hhand hset a
  have hlooping : (resume cfg.state a).1.pc.looping = false := by
    by_contra hyes
    simp [counting_of_looping (Bool.not_eq_false _ ▸ hyes)] at hcounting
  have hstate : ((main opts img).answer cfg c a).state = _ := answer_state cfg c a
  constructor
  · exact fun _ => ⟨hnone, hlast⟩
  · rw [hstate]
    intro hpc
    obtain ⟨hctrl, hafter⟩ := hbytes hpc
    obtain ⟨hpolls, -, -⟩ := hinv.handshake hhand
    have hleft := hinv.chosen (.inl hctrl)
    have hstart : cfg.state.vars.ctx.fileSize - cfg.state.vars.remaining =
        startOffset cfg.state.vars := by
      rw [hleft, left, ackCount, hpolls]
      simp only [List.count_nil, BitVec.mul_zero, BitVec.sub_zero]
      grind
    rw [hafter]
    simp [afterPhaseCtrl, goto, hstart, offsetBytes, startOffset]
  · rw [hstate, hlooping]
    rintro ⟨⟩
  · rw [hstate]
    intro hpc
    simp [hpc, Pc.looping] at hlooping
  · rw [hnone]
    rintro bytes ⟨⟩

/-- The base offset is announced behind a passed status check. -/
theorem resume_rejumpOffset (hpc : (resume s a).1.pc = .rejumpOffset) :
    (resume s a).1.vars.io = offsetBytes (resume s a).1.vars.baseOffset := by
  have hhead (l : Locals) : (loopHead l).1.pc ≠ .rejumpOffset := by
    unfold loopHead
    split <;> [split; skip] <;> rintro ⟨⟩
  rcases s with ⟨pc, l⟩
  cases a with
  | none => cases pc <;> simp [resume, onRead, onWrite, goto] at hpc
  | some r =>
      cases pc with
      | setOffset | streamTrailer => exact absurd hpc (hhead l)
      | rejumpStatus =>
          simp only [resume, onRead, afterJump] at hpc ⊢
          split at hpc
          · simp [emit, afterLoop, goto] at hpc
          · rename_i hstatus
            rw [if_neg hstatus]
            rfl
      | poll =>
          have hnot : (afterPoll { l with resp := r }).1.pc ≠ .rejumpOffset := by
            unfold afterPoll
            split <;> [split; exact hhead _] <;> rintro ⟨⟩
          exact absurd hpc hnot
      | streamWord i =>
          simp only [resume, onWrite, streamFrom] at hpc
          split at hpc <;> simp [goto] at hpc
      | readIdVerB =>
          simp only [resume, onRead, afterIdVerB, romGuard] at hpc
          split at hpc <;> simp [goto, emit] at hpc
      | readStatus =>
          simp only [resume, onRead, afterStatus, choosePhase] at hpc
          split at hpc <;> split at hpc <;> simp [goto, emit] at hpc
      | _ => simp [resume, onRead, onWrite, goto, emit, afterIdVerA, afterBaseOff,
          afterPhaseCtrl, afterFinalize] at hpc

/-- What an answered set-offset command has announced. -/
theorem next_of_setOffset (hinv : Inv opts img (exchanges cfg.trace) cfg.state)
    (h : Announcing cfg) (hc : pending cfg.state = some c) (hcmd : c.cmd = cmdSetOffset) :
    lastSeek cfg.trace = none ∧
        (startOffset cfg.state.vars).toNat = announcedOffset (c.io0, c.io1) ∨
      lastSeek cfg.trace ≠ none ∧ cfg.state.vars.firstTemp = true ∧
        (blockOffset cfg.state.vars + 32#32).toNat = announcedOffset (c.io0, c.io1) := by
  have htracked := hinv.tracked_of_pending hc
  rw [pending_cmd hc] at hcmd
  cases hs : cfg.state.pc with
  | setOffset =>
      have hcall : c = ⟨cmdSetOffset, cfg.state.vars.io.1, cfg.state.vars.io.2, 2⟩ := by
        simpa [pending, hs, eq_comm] using hc
      -- Nothing has been selected: the first block is announced.
      left
      refine ⟨(h.fresh (by simp [hs, Pc.handshake])).2, ?_⟩
      rw [hcall, h.initial hs]
      exact (announcedOffset_offsetBytes htracked.startOffset_lt).symm
  | rejumpOffset =>
      have hcall : c = ⟨cmdSetOffset, cfg.state.vars.io.1, cfg.state.vars.io.2, 2⟩ := by
        simpa [pending, hs, eq_comm] using hc
      obtain ⟨hfirst, hseek, hoff⟩ := h.jump (by simp [hs, Pc.looping])
        (.inr (by simp [hs, Pc.rejumping]))
      -- The base offset is where the block behind the current one belongs.
      right
      rw [hcall, h.again hs]
      refine ⟨hseek, hfirst, ?_⟩
      rw [hoff]
      exact (announcedOffset_offsetBytes htracked.baseOffset_lt).symm
  | _ => exact absurd hcmd (by simp only [hs, Pc.command]; decide)

/-- From the last call of the handshake on. -/
theorem announcing_of_quiet (hinv : Inv opts img (exchanges cfg.trace) cfg.state)
    (h : Announcing cfg) (hc : pending cfg.state = some c)
    (hlate : cfg.state.pc.handshake = false ∨ cfg.state.pc = .setOffset) {a : Transfer}
    (hquiet : ¬ Selects cfg.state a) : Announcing ((main opts img).answer cfg c a) := by
  have hstate : ((main opts img).answer cfg c a).state = _ := answer_state cfg c a
  have hearly : cfg.state.pc.early = false := by
    rcases hlate with hs | hs
    · exact early_of_handshake hs
    · simp [hs, Pc.early]
  have hnext : (resume cfg.state a).1.pc.handshake = false := by
    rcases hlate with hs | hs
    · exact resume_handshake hs a
    · cases a with
      | none => simp [resume, hs, onWrite, goto, Pc.handshake]
      | some r => simpa [resume, hs, onWrite] using loopHead_handshake _
  obtain ⟨io, resp, needRejump, hframe⟩ := frame_quiet hquiet hearly
  have hlast : lastSeek ((main opts img).answer cfg c a).trace = lastSeek cfg.trace :=
    lastSeek_quiet hquiet
  have hannounced : announced ((main opts img).answer cfg c a).trace =
      if c.cmd = cmdSetOffset then some (c.io0, c.io1) else announced cfg.trace :=
    announced_quiet hquiet
  constructor
  · rw [hstate, hnext]
    rintro ⟨⟩
  · rw [hstate]
    intro hpc
    simp [hpc, Pc.handshake] at hnext
  · rw [hstate, hlast]
    intro hlooping hwants
    have hwanted := rejump_quiet hquiet hearly hwants
    rcases looping_of_resume hlooping with hs | hs
    · obtain ⟨hfirst, hseek, hoff⟩ := h.jump hs hwanted
      rw [hframe]
      exact ⟨hfirst, hseek, hoff⟩
    · obtain ⟨-, -, hno⟩ := hinv.handshake (by simp [hs, Pc.handshake])
      simp [hno, hs, Pc.rejumping] at hwanted
  · exact resume_rejumpOffset
  · rw [hstate, hlast, hannounced]
    intro p hp
    refine ⟨resume_early hearly a, ?_⟩
    split at hp
    · rename_i hcmd
      obtain rfl := Option.some.inj hp
      rw [hframe]
      exact next_of_setOffset hinv h hc hcmd
    · rw [hframe]
      exact (h.next p hp).2

theorem announcing_answer (hinv : Inv opts img (exchanges cfg.trace) cfg.state)
    (h : Announcing cfg) (hc : pending cfg.state = some c) (a : Transfer) :
    Announcing ((main opts img).answer cfg c a) := by
  by_cases hselects : Selects cfg.state a
  · obtain ⟨hpoll, hfile, r, rfl, hr⟩ := hselects
    exact announcing_of_selects hinv hpoll hc hr hfile
  · by_cases hlate : cfg.state.pc.handshake = false ∨ cfg.state.pc = .setOffset
    · exact announcing_of_quiet hinv h hc hlate hselects
    · rw [not_or, Bool.not_eq_false] at hlate
      exact announcing_of_handshake hinv h hc hlate.1 hlate.2 a

theorem announcing_run (opts : Options) (img : Image) (as : List Transfer) :
    Announcing ((main opts img).run as) := by
  have hstart : Announcing (main opts img).initial :=
    ⟨fun _ => ⟨rfl, rfl⟩, nofun, nofun, nofun, nofun⟩
  exact Machine.run_invariant_under (I := fun cfg => Inv opts img (exchanges cfg.trace) cfg.state)
    (inv_run opts img) hstart (fun cfg c a hinv h hc => announcing_answer hinv h hc a) as

end Step

/-- Every announcement agrees with the data that follows it. -/
structure Announced (img : Image) (tr : History) : Prop where
  /-- The next block selected after an announcement starts at the announced offset. -/
  offset : Always (fun before e => ∀ k off, e = .out (.fseek k off) →
    ∀ p, announced before = some p → off.toNat = announcedOffset p) tr
  /-- The stream-data commands carry the words of the selected block, in order. -/
  data : Always (fun before e => ∀ c a, e = .call c a → c.cmd = cmdStreamData →
    ∃ k, StreamsBlock img before c k) tr

/-- Behind the announcement of a re-jump, which other blocks precede, the first
reply that asks for a block is `1`. -/
def StepAgrees (cfg : Moment) (a : Transfer) : Prop :=
  cfg.state.pc = .poll → announced cfg.trace ≠ none → lastSeek cfg.trace ≠ none →
    ∀ r, a = some r → AsksBlock r.1 → r.1 = 1#8

section Agreement

variable {opts : Options} {img : Image} {cfg : Moment} {c : Call}

/-- The offset that a poll selects, against the announcement before it. -/
theorem selects_agrees (hpaced : Paced cfg) (h : Announcing cfg) (hpoll : cfg.state.pc = .poll)
    {r : Byte × Byte} (hr : AsksBlock r.1) :
    (∀ p, announced cfg.trace = some p →
        (blockOffset (advance { cfg.state.vars with resp := r })).toNat = announcedOffset p) ↔
      StepAgrees cfg (some r) := by
  have hoff := blockOffset_advance { cfg.state.vars with resp := r }
  have hsame : blockOffset { cfg.state.vars with resp := r } = blockOffset cfg.state.vars := rfl
  rw [hsame] at hoff
  constructor
  · intro hagrees _ hsome hseek r' hr' hasks
    obtain rfl := Option.some.inj hr'
    obtain ⟨p, hp⟩ := Option.ne_none_iff_exists'.mp hsome
    have hnow := hagrees p hp
    obtain ⟨-, ⟨hnone, -⟩ | ⟨-, hfirst, hnext⟩⟩ := h.next p hp
    · exact absurd hnone hseek
    · -- The announced block is the one behind the current one.
      by_contra hne
      rw [hoff, if_neg (by simp [hne]), ← hnext] at hnow
      have heq := BitVec.eq_of_toNat_eq hnow
      bv_omega
  · intro hstep p hp
    obtain ⟨-, ⟨hnone, hstart⟩ | ⟨hseek, hfirst, hnext⟩⟩ := h.next p hp
    · obtain ⟨-, htemp, hfirst⟩ := hpaced.last.resolve_right fun hsome => by
        simp [hnone] at hsome
      have hzero : blockOffset cfg.state.vars = startOffset cfg.state.vars := by
        simp [blockOffset_eq, htemp]
      rw [hoff, if_neg (by simp [hfirst]), hzero, hstart]
    · have hone : r.1 = 1#8 := hstep hpoll (by simp [hp]) hseek r rfl hr
      rw [hoff, if_pos ⟨hone, hfirst⟩, hnext]

/-- One answered call agrees with the announcement exactly when the step meets the
condition. -/
theorem answer_agrees (hinv : Inv opts img (exchanges cfg.trace) cfg.state) (hpaced : Paced cfg)
    (h : Announcing cfg) (hsize : 0 < img.size) (hc : pending cfg.state = some c) (a : Transfer) :
    Always (fun before e => ∀ k off, e = .out (.fseek k off) →
        ∀ p, announced (cfg.trace ++ before) = some p → off.toNat = announcedOffset p)
        (.call c a :: (resume cfg.state a).2.map .out : History) ↔ StepAgrees cfg a := by
  by_cases hselects : Selects cfg.state a
  · obtain ⟨hpoll, hfile, r, rfl, hr⟩ := hselects
    have hcmd : c.cmd ≠ cmdSetOffset := by
      rw [pending_cmd hc, hpoll]
      decide
    rw [← selects_agrees hpaced h hpoll hr, resume_asks hpoll hr hfile]
    show Always _ ([.call c (some r), .out (.progress _), .out (.fseek _ _)] : History) ↔ _
    -- The progress in front of the seek does not change what is announced.
    have hkeep : announced (cfg.trace ++ ([.call c (some r), .out (.progress
        (percentage cfg.state.vars.ctx.fileSize cfg.state.vars.remaining))] : History)) =
        announced cfg.trace := by
      simp [announced, announceStep, hcmd]
    simp only [always_cons, always_nil, reduceCtorEq, false_implies, implies_true, true_and,
      and_true, Event.out.injEq, Out.fseek.injEq, hkeep]
    constructor
    · intro hall p hp
      exact hall _ _ ⟨rfl, rfl⟩ p hp
    · rintro hall k off ⟨rfl, rfl⟩ p hp
      exact hall p hp
  · constructor
    · intro _ hpoll _ _ r hr hasks
      have htracked := hinv.tracked (by simp [hpoll])
      exact absurd ⟨hpoll, htracked.fileSize_ne_zero hsize, r, hr, hasks⟩ hselects
    · intro _
      exact always_of_seeks (seeks_quiet hselects)

end Agreement

/-- The offsets of a run agree exactly when all its steps meet the condition. -/
theorem offset_iff (opts : Options) (img : Image) (hsize : 0 < img.size) (as : List Transfer) :
    Always (fun before e => ∀ k off, e = .out (.fseek k off) →
        ∀ p, announced before = some p → off.toNat = announcedOffset p)
        ((main opts img).run as).trace ↔
      (main opts img).AllSteps StepAgrees as := by
  refine Machine.run_iff_allSteps
    (P := fun cfg => Always (fun before e => ∀ k off, e = .out (.fseek k off) →
      ∀ p, announced before = some p → off.toNat = announcedOffset p) cfg.trace)
    (I := fun cfg => Inv opts img (exchanges cfg.trace) cfg.state ∧ Paced cfg ∧ Announcing cfg)
    ?_ ?_ ?_ ?_ as
  · exact fun bs => ⟨inv_run opts img bs, paced_run opts img bs, announcing_run opts img bs⟩
  · simp [main, Machine.initial, goto]
  · intro cfg a hstopped hpoll
    simp [main, pending, hpoll] at hstopped
  · rintro cfg c a ⟨hinv, hpaced, hannouncing⟩ hc
    rw [answer_trace, always_append, answer_agrees hinv hpaced hannouncing hsize hc a]

/-- On a non-empty image the announcements of a run agree with its data exactly
when the first reply that asks for a block behind each re-jump is `1`. -/
theorem announced_iff (opts : Options) (img : Image) (hsize : 0 < img.size)
    (as : List Transfer) :
    Announced img ((main opts img).run as).trace ↔ (main opts img).AllSteps StepAgrees as := by
  rw [← offset_iff opts img hsize as]
  constructor
  · exact fun h => h.offset
  · intro hoffset
    refine ⟨hoffset, (streams_run opts img as).mono fun before e h c a heq hcmd => ?_⟩
    obtain ⟨k, hk, -⟩ := h c a heq hcmd
    exact ⟨k, hk⟩

/-- With `-bbl` and base offset `0x20`, the EC asks for the current block again
after the re-jump: block `0` goes to the base offset. -/
theorem announced_fails :
    ¬ ∀ opts img as, img.size = 0x20000 → Announced img ((main opts img).run as).trace := by
  intro h
  have hrun := (h (sampleOptions true) sampleImage
    (handshakeReplies 0#8 0x20#8 0#8 ++ pollAndBlock 1#8 ++
      [some (0#8, 0#8), some (0x55#8, 0#8), some (0#8, 0#8), some (0#8, 0#8)]) rfl).offset
  let tr := ((main (sampleOptions true) sampleImage).run
    (handshakeReplies 0#8 0x20#8 0#8 ++ pollAndBlock 1#8 ++
      [some (0#8, 0#8), some (0x55#8, 0#8), some (0#8, 0#8), some (0#8, 0#8)])).trace
  have htr : tr = tr.take 33 ++ .out (.fseek 0#32 0#32) :: tr.drop 34 := by decide +kernel
  have hoff := hrun _ _ _ htr 0#32 0#32 rfl (0x20#8, 0#8) (by decide +kernel)
  exact absurd hoff (by decide)

theorem announced_iff_rejump :
    let as := handshakeReplies 0#8 0x20#8 0#8 ++ pollAndBlock 1#8 ++
      [some (0#8, 0#8), some (0x55#8, 0#8), some (0#8, 0#8)] ++ pollAndBlock 1#8
    0 < sampleImage.size ∧
      (Announced sampleImage ((main (sampleOptions true) sampleImage).run as).trace ↔
        (main (sampleOptions true) sampleImage).AllSteps StepAgrees as) :=
  ⟨by decide, announced_iff _ _ (by decide) _⟩

end First
end EcFlash
