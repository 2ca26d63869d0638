import EcFlash.First.Settled

/-!
# The flashed area of a full-size image

For an image of `0x20000` bytes the counters are natural numbers that never
wrap: the area begins at the start offset, the cut-off ends it below the last
`0x4000` bytes, and the number of polls answered `1` runs from zero to the number
of blocks in between.  `Measured` is that invariant, and `block_stream` says what
a run streams in terms of it.
-/

namespace EcFlash
namespace First

open Reactive

/-- The number of bytes from the start offset to the end of the file. -/
def areaSize (l : Locals) : Nat :=
  0x20000 - (startOffset l).toNat

/-- The number of blocks that are acknowledged before the cut-off. -/
def blockCount (l : Locals) : Nat :=
  (areaSize l - 0x4000 + 31) / 32

/-- What is left of the area after the replies `1` so far. -/
structure Measured (xs : Exchanges) (l : Locals) : Prop where
  le : ackCount xs ≤ blockCount l
  remaining : l.remaining.toNat =
    if ackCount xs < blockCount l then areaSize l - 32 * ackCount xs else 0

/-- The points at which the area has been chosen. -/
def Pc.chosen : Pc → Bool
  | .readIdVerA | .readIdVerB | .readBaseOff | .readStatus => false
  | .returned rc => rc = 0
  | .sigfpe => false
  | _ => true

section Area

variable {opts : Options} {img : Image} {xs ys : Exchanges} {s : State} {l l' : Locals} {c : Call}
  {r : Byte × Byte}

theorem areaSize_bounds (h : Tracked opts img xs l) :
    0x10001 ≤ areaSize l ∧ areaSize l ≤ 0x20000 := by
  have hstart := h.startOffset_lt
  unfold areaSize
  omega

/-- A block counts as long as more than the cut-off is left. -/
theorem lt_blockCount_iff (n : Nat) : n < blockCount l ↔ 32 * n + 0x4000 < areaSize l := by
  unfold blockCount
  omega

theorem Measured.congr (h : Measured xs l) (hacks : ackCount ys = ackCount xs)
    (hstart : startOffset l' = startOffset l) (hremaining : l'.remaining = l.remaining) :
    Measured ys l' := by
  have harea : areaSize l' = areaSize l := by simp [areaSize, hstart]
  have hcount : blockCount l' = blockCount l := by simp [blockCount, harea]
  constructor
  · rw [hacks, hcount]
    exact h.le
  · rw [hacks, hcount, harea, hremaining]
    exact h.remaining

/-- The loop goes on exactly as long as blocks are missing. -/
theorem Measured.lt_iff (h : Measured xs l) :
    ackCount xs < blockCount l ↔ l.remaining ≠ 0#32 := by
  constructor
  · intro hlt hzero
    have hleft := h.remaining
    rw [if_pos hlt, hzero] at hleft
    have := (lt_blockCount_iff _).mp hlt
    simp at hleft
    omega
  · intro hne
    by_contra hge
    have hleft := h.remaining
    rw [if_neg hge] at hleft
    exact hne (BitVec.eq_of_toNat_eq (by simpa using hleft))

/-- Before the first poll the whole area is left. -/
theorem measured_choosePhase (h : Tracked opts img xs l) (hsize : img.size = 0x20000)
    (hacks : ackCount xs = 0) : Measured xs (choosePhase l).1.vars := by
  have hfile : l.ctx.fileSize.toNat = 0x20000 := by simp [h.fileSize, hsize]
  have hbase := h.baseOffset_lt
  have hcount (l' : Locals) (hctx : l'.ctx = l.ctx) (hb : l'.baseOffset = l.baseOffset)
      (hr : l'.remaining = l.ctx.fileSize - startOffset l) : Measured xs l' := by
    have hstart : startOffset l' = startOffset l := by simp [startOffset, hctx, hb]
    have hlt := h.startOffset_lt
    have hpos : 0 < blockCount l' := by
      rw [lt_blockCount_iff, areaSize, hstart]
      omega
    constructor
    · omega
    · rw [hacks, if_pos hpos, hr, areaSize, hstart, BitVec.toNat_sub, hfile]
      omega
  unfold choosePhase
  split
  · rename_i hbbl
    simp only [Bool.not_eq_true'] at hbbl
    exact hcount _ rfl rfl (by simp [goto, startOffset, hbbl])
  · rename_i hbbl
    simp only [Bool.not_eq_true', Bool.not_eq_false] at hbbl
    exact hcount _ rfl rfl (by simp [goto, startOffset, hbbl])

/-- One more reply `1` takes one block off, and the cut-off zeroes the rest. -/
theorem measured_advance (h : Tracked opts img xs l) (hsize : img.size = 0x20000)
    (hm : Measured xs l) (hne : l.remaining ≠ 0#32) (hc : c.cmd = cmdPollProgress) :
    Measured (xs ++ [(c, some l.resp)]) (advance l) := by
  have hlt := hm.lt_iff.mpr hne
  have harea := (lt_blockCount_iff _).mp hlt
  have hcount : blockCount (advance l) = blockCount l := by simp [blockCount, areaSize]
  by_cases hr : l.resp.1 = 1#8
  · have hleft := hm.remaining
    rw [if_pos hlt] at hleft
    obtain ⟨hlow, hhigh⟩ := areaSize_bounds h
    have hnext : (l.remaining - blockSize).toNat = areaSize l - 32 * (ackCount xs + 1) := by
      rw [BitVec.toNat_sub, hleft]
      simp only [blockSize, BitVec.toNat_ofNat]
      omega
    have hbase := h.baseOffset_lt
    have hboundary : (l.ctx.fileSize - l.baseOffset).toNat = 0x20000 - l.baseOffset.toNat := by
      rw [BitVec.toNat_sub, h.fileSize, hsize]
      simp only [BitVec.toNat_ofNat]
      omega
    have hsucc := lt_blockCount_iff (l := l) (ackCount xs + 1)
    constructor
    · rw [ackCount_poll hc, if_pos hr, hcount]
      omega
    · rw [ackCount_poll hc, if_pos hr, hcount]
      simp only [advance, hr, if_true]
      simp only [areaSize] at hleft hnext hsucc harea hlow hhigh ⊢
      split
      · -- At the base offset the counter stays: it lies above the cut-off.
        rename_i heq
        have heqNat := congrArg BitVec.toNat heq
        rw [hboundary, hnext] at heqNat
        rw [hnext, if_pos (by rw [hsucc]; omega)]
        rfl
      -- Below the cut-off this was the last block, above it there is another.
      · split
        · rename_i hcut
          rw [BitVec.lt_def, hnext] at hcut
          simp only [BitVec.toNat_ofNat] at hcut
          rw [if_neg (by rw [hsucc]; omega)]
          rfl
        · rename_i hcut
          rw [BitVec.lt_def, hnext] at hcut
          simp only [BitVec.toNat_ofNat] at hcut
          rw [hnext, if_pos (by rw [hsucc]; omega)]
          rfl
  · refine hm.congr ?_ (advance_startOffset l) ?_
    · simp [ackCount_poll hc, hr]
    · simp [advance, hr]

theorem early_of_chosen {pc : Pc} (h : pc.chosen = true) : pc.early = false := by
  cases pc <;> first | rfl | simp [Pc.chosen] at h

theorem chosen_of_looping {pc : Pc} (h : pc.looping = true) : pc.chosen = true := by
  cases pc <;> first | rfl | simp [Pc.looping] at h

/-- An area is chosen once, and the loop and the tail stay behind that choice. -/
theorem resume_chosen (h : (resume s (some r)).1.pc.chosen = true) :
    s.pc.chosen = true ∨ s.pc = .readStatus := by
  rcases s with ⟨pc, l⟩
  cases pc with
  | readIdVerB =>
      simp only [resume, onRead, afterIdVerB, romGuard] at h
      split at h <;> simp [emit, goto, Pc.chosen] at h
  | readIdVerA | readBaseOff => simp [resume, onRead, afterIdVerA, afterBaseOff, goto,
      Pc.chosen] at h
  | readStatus => exact .inr rfl
  | returned rc => exact .inl h
  | sigfpe => simp [resume, Pc.chosen] at h
  | _ => exact .inl rfl

/-- One answered call keeps the count. -/
theorem measured_resume (h : Inv opts img xs s) (hsize : img.size = 0x20000)
    (hm : s.pc.chosen = true → Measured xs s.vars) (hc : pending s = some c) (a : Transfer)
    (hchosen : (resume s a).1.pc.chosen = true) :
    Measured (xs ++ [(c, a)]) (resume s a).1.vars := by
  have hcmd := pending_cmd hc
  cases a with
  | none => simp [resume_none hc, Pc.chosen] at hchosen
  | some r =>
      have htracked := (h.tracked_of_pending hc).reply r
      rcases resume_chosen hchosen with hpc | hpc
      · have hmeasured := hm hpc
        by_cases hpoll : s.pc = .poll
        · obtain ⟨hne, -⟩ := h.waiting (by simp [hpoll, Pc.looping]) (by simp [hpoll, Pc.streaming])
          have hpollcmd := cmd_of_poll hc hpoll
          have hresp : Measured xs { s.vars with resp := r } := hmeasured.congr rfl rfl rfl
          by_cases hr : AsksBlock r.1
          · have hnext := measured_advance htracked hsize hresp hne hpollcmd
            rw [resume_asks hpoll hr (htracked.fileSize_ne_zero (by omega))]
            refine hnext.congr rfl ?_ ?_ <;>
              simp [emit, streamBlock, streamFrom, goto, loadBlock, startOffset]
          · have hacks : ackCount (xs ++ [(c, some r)]) = ackCount xs :=
              ackCount_of_not_asks hpollcmd hr
            obtain ⟨io, needRejump, hframe⟩ := loopHead_frame { s.vars with resp := r }
            rw [resume_not_asks hpoll hr, hframe]
            exact hresp.congr hacks rfl rfl
        · have hearly := early_of_chosen hpc
          obtain ⟨io, resp, needRejump, hframe⟩ := resume_frame hearly hpoll (some r)
          rw [hframe]
          exact hmeasured.congr (ackCount_of_ne_poll hc hpoll _) rfl rfl
      -- The area has just been chosen, and nothing has been polled.
      · have hhand : s.pc.handshake = true := by simp [hpc, Pc.handshake]
        obtain ⟨hpolls, -, -⟩ := handshake_exchange h hhand hc (some r)
        have hacks : ackCount (xs ++ [(c, some r)]) = 0 := by simp [ackCount, hpolls]
        have hnext := htracked.congr (ackCount_of_ne_poll hc (by simp [hpc]) (some r))
        have hresume : resume s (some r) = afterStatus { s.vars with resp := r } := by
          simp [resume, hpc, onRead]
        rw [hresume]
        unfold afterStatus
        split
        · exact measured_choosePhase (hnext.keepBootBlock hacks) hsize hacks
        · exact measured_choosePhase hnext hsize hacks

/-- While no call fails, the program stays behind the choice of the area. -/
theorem chosen_resume (h : s.pc.chosen = true) (hfile : s.vars.ctx.fileSize ≠ 0#32)
    (r : Byte × Byte) : (resume s (some r)).1.pc.chosen = true := by
  rcases s with ⟨pc, l⟩
  have hhead (l : Locals) : (loopHead l).1.pc.chosen = true := by
    unfold loopHead
    split <;> [split; skip] <;> rfl
  cases pc with
  | setOffset | streamTrailer => exact hhead l
  | rejumpStatus =>
      simp only [resume, onRead, afterJump]
      split <;> rfl
  | streamWord i =>
      simp only [resume, onWrite, streamFrom]
      split <;> rfl
  | poll =>
      have hsize : { l with resp := r }.ctx.fileSize ≠ 0#32 := hfile
      show (afterPoll { l with resp := r }).1.pc.chosen = true
      by_cases hr : AsksBlock { l with resp := r }.resp.1
      · rw [afterPoll_of_asks hr hsize]
        rfl
      · rw [afterPoll_of_not_asks hr]
        exact hhead _
  | returned rc => exact h
  | _ => first | rfl | simp [Pc.chosen] at h

end Area

section Run

variable (opts : Options) {img : Image} (hsize : img.size = 0x20000)
include hsize

/-- The count holds after every run, once an area is chosen. -/
theorem measured_run (as : List Transfer)
    (hchosen : ((main opts img).run as).state.pc.chosen = true) :
    Measured (exchanges ((main opts img).run as).trace) ((main opts img).run as).state.vars := by
  revert hchosen
  refine Machine.run_invariant_under (I := fun cfg => Inv opts img (exchanges cfg.trace) cfg.state)
    (P := fun cfg => cfg.state.pc.chosen = true → Measured (exchanges cfg.trace) cfg.state.vars)
    (inv_run opts img) ?_ ?_ as
  · simp [main, Machine.initial, goto, Pc.chosen]
  · intro cfg c a hinv hm hc
    rw [Machine.exchanges_answer]
    exact measured_resume hinv hsize hm hc a

/-- Along a run without a failed call nothing is polled before an area is chosen. -/
theorem pollReplies_of_not_chosen (as : List Transfer) (hok : ∀ a ∈ as, a ≠ none)
    (hchosen : ((main opts img).run as).state.pc.chosen = false) :
    pollReplies (exchanges ((main opts img).run as).trace) = [] := by
  revert hchosen
  refine Machine.run_induction_under
    (I := fun cfg => Inv opts img (exchanges cfg.trace) cfg.state)
    (P := fun cfg => cfg.state.pc.chosen = false → pollReplies (exchanges cfg.trace) = [])
    (inv_run opts img) ?_ ?_ as hok
  · intro _
    rfl
  · intro cfg c a hinv hpolls hc ha hnext
    obtain ⟨r, rfl⟩ := Option.ne_none_iff_exists'.mp ha
    rw [Machine.exchanges_answer]
    have hfile : cfg.state.vars.ctx.fileSize ≠ 0#32 :=
      (hinv.tracked_of_pending hc).fileSize_ne_zero (by omega)
    have hchosen : cfg.state.pc.chosen = false := by
      by_contra h
      have hstays := chosen_resume (by simpa using h) hfile r
      exact absurd (hstays.symm.trans hnext) (by decide)
    have hne : cfg.state.pc ≠ .poll := by
      intro hpc
      simp [hpc, Pc.chosen] at hchosen
    have hcmd := command_ne_poll hne
    rw [← pending_cmd hc] at hcmd
    rw [pollReplies_write hcmd]
    exact hpolls hchosen

end Run

section BlockStream

/-- The blocks that the poll replies ask for, in terms of file offsets. -/
def requestedBlocks (img : Image) (l : Locals) (rs : List Byte) : List (Byte × Byte) :=
  (blockIndices rs).flatMap fun t =>
    blockPayload (img.block store 32 ((startOffset l).toNat + 32 * t)) (BitVec.ofNat 8 t)

/-- The block-stream invariant. -/
structure BlockStream (opts : Options) (img : Image) (xs : Exchanges) (s : State) : Prop where
  /-- The area starts at the file or at the reported base offset. -/
  start : startOffset s.vars =
    if bootBlockIncluded opts xs then 0#32 else reportedBaseOffset xs
  counters : s.pc.chosen = true →
    ackCount xs ≤ blockCount s.vars ∧
      s.vars.temp.toNat = ackCount xs - 1 ∧
      s.vars.remaining.toNat =
        if ackCount xs < blockCount s.vars then areaSize s.vars - 32 * ackCount xs else 0
  /-- Only the blocks asked for are streamed, in the order of the polls. -/
  underWay : streamed xs <+: requestedBlocks img s.vars (pollReplies xs)
  /-- They are streamed completely before the next poll. -/
  complete : s.pc.streaming = false → streamed xs = requestedBlocks img s.vars (pollReplies xs)
  /-- They consist of bytes of the file; the filler for its end is never used. -/
  inFile : ∀ t ∈ blockIndices (pollReplies xs), t < blockCount s.vars ∧
    (img.block store 32 ((startOffset s.vars).toNat + 32 * t)).map some =
      (List.range 32).map fun i => img.byte? ((startOffset s.vars).toNat + 32 * t + i)
  ascending : (blockIndices (pollReplies xs)).Pairwise (· ≤ ·)
  gapless : ∀ t ∈ blockIndices (pollReplies xs), ∀ t' ≤ t, t' ∈ blockIndices (pollReplies xs)
  all : ackCount xs = blockCount s.vars →
    ∀ t < blockCount s.vars, t ∈ blockIndices (pollReplies xs)

theorem fileBlock_eq {opts : Options} {img : Image} {xs : Exchanges} {l : Locals}
    (h : Tracked opts img xs l) {t : Nat} (ht : t < blockCount l) :
    fileBlock img l t = img.block store 32 ((startOffset l).toNat + 32 * t) := by
  have hstart := h.startOffset_lt
  have hcount := (lt_blockCount_iff t).mp ht
  unfold areaSize at hcount
  unfold fileBlock
  congr 1
  rw [BitVec.toNat_add, BitVec.toNat_mul]
  simp only [blockSize, BitVec.toNat_ofNat]
  omega

/-- On a full-size image a run without a failed call streams what the poll
replies ask for, and counts it. -/
theorem block_stream (opts : Options) (img : Image) (hsize : img.size = 0x20000)
    (as : List Transfer) (hok : ∀ a ∈ as, a ≠ none) :
    BlockStream opts img (exchanges ((main opts img).run as).trace)
      ((main opts img).run as).state := by
  have hpos : 0 < img.size := by omega
  have hinv := inv_run opts img as
  have horder := streamed_run opts hpos as hok
  have hsettled := settled_run opts img as
  have hmeasured := measured_run opts hsize as
  have hnopolls := pollReplies_of_not_chosen opts hsize as hok
  generalize exchanges ((main opts img).run as).trace = xs at *
  generalize ((main opts img).run as).state = s at *
  -- Every block asked for lies below the cut-off.
  have hcount : ∀ t ∈ blockIndices (pollReplies xs), t < blockCount s.vars := by
    intro t ht
    cases hchosen : s.pc.chosen with
    | false => simp [hnopolls hchosen] at ht
    | true =>
        have hle := (hmeasured hchosen).le
        have htracked := hinv.tracked (by intro hpc; simp [hpc, Pc.chosen] at hchosen)
        have hpos := lt_blockCount_iff (l := s.vars) 0
        have harea := (areaSize_bounds htracked).1
        have hlast := le_of_mem_blockIndices ht
        unfold ackCount at hle
        omega
  have hsigfpe : blockIndices (pollReplies xs) ≠ [] → s.pc ≠ .sigfpe := by
    intro hne hpc
    simp [hnopolls (by simp [hpc, Pc.chosen])] at hne
  -- Below the cut-off the offset of a block does not wrap.
  have hrequested : requested img s.vars (pollReplies xs) =
      requestedBlocks img s.vars (pollReplies xs) := by
    unfold requested requestedBlocks
    apply List.flatMap_congr
    intro t ht
    rw [fileBlock_eq (hinv.tracked (hsigfpe (List.ne_nil_of_mem ht))) (hcount t ht)]
  unfold InOrder at horder
  rw [hrequested] at horder
  constructor
  · simp [startOffset, hsettled.baseOffset, hsettled.included]
  · intro hchosen
    have hm := hmeasured hchosen
    have htracked := hinv.tracked (by intro hpc; simp [hpc, Pc.chosen] at hchosen)
    refine ⟨hm.le, ?_, hm.remaining⟩
    have hle := hm.le
    have harea := (areaSize_bounds htracked).2
    have hsmall : ackCount xs - 1 < 2 ^ 32 := by
      unfold blockCount at hle
      omega
    rw [htracked.temp, BitVec.toNat_ofNat, Nat.mod_eq_of_lt hsmall]
  · exact ⟨_, horder⟩
  · intro hstreaming
    rw [← horder, unsent_eq_nil hstreaming, List.append_nil]
  · intro t ht
    have hlt := hcount t ht
    have harea := (lt_blockCount_iff t).mp hlt
    unfold areaSize at harea
    exact ⟨hlt, Image.map_some_block store_byte (by omega)⟩
  · exact sorted_blockIndices _
  · intro t ht t' hle
    exact mem_blockIndices_of_le ht hle
  · intro hall t ht
    exact mem_blockIndices_of_lt (by unfold ackCount at hall; omega)

/-- A full-size image whose bytes number their blocks. -/
def sampleImage : Image :=
  ⟨0x20000, fun i => BitVec.ofNat 8 (i.val / 32), by decide⟩

/-- No erase flag, no reboot mode, and the guard in force. -/
def sampleOptions (includeBootloader : Bool) : Options :=
  ⟨0#8, includeBootloader, false, false, false⟩

/-- Replies to the handshake, up to the announced start offset. -/
def handshakeReplies (baseHi baseLo status : Byte) : List Transfer :=
  [some (0#8, 0#8), some (0#8, 0#8), some (baseHi, baseLo), some (status, 0#8),
    some (0#8, 0#8), some (0#8, 0#8)]

/-- A reply to a poll, and to the seventeen words of the block it asks for. -/
def pollAndBlock (r : Byte) : List Transfer :=
  some (r, 0#8) :: List.replicate 17 (some (0#8, 0#8))

theorem block_stream_resent :
    let as := handshakeReplies 0x80#8 0#8 0#8 ++ pollAndBlock 1#8 ++ pollAndBlock 1#8 ++
      pollAndBlock 2#8
    let cfg := (main (sampleOptions true) sampleImage).run as
    (∀ a ∈ as, a ≠ none) ∧ blockIndices (pollReplies (exchanges cfg.trace)) = [0, 1, 1] ∧
      BlockStream (sampleOptions true) sampleImage (exchanges cfg.trace) cfg.state :=
  have hok : ∀ a ∈ handshakeReplies 0x80#8 0#8 0#8 ++ pollAndBlock 1#8 ++ pollAndBlock 1#8 ++
      pollAndBlock 2#8, a ≠ none := by simp [handshakeReplies, pollAndBlock]
  ⟨hok, by decide +kernel, block_stream _ _ rfl _ hok⟩

end BlockStream

end First
end EcFlash
