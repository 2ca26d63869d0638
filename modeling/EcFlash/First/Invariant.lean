import EcFlash.First.Frame

/-!
# The invariant of `main`

`Inv` collects what every run keeps at every program point, for every image and
every behaviour of the EC.  One lemma for each piece of straight-line code says
that the code establishes `Inv` at the call it leads to, `inv_resume` puts them
together into the step lemma, and `inv_run` is the invariant of all runs.
-/

namespace EcFlash
namespace First

open Reactive

/-- What is left to flash after the replies `1` so far, before the cut-off. -/
def left (xs : Exchanges) (l : Locals) : Word :=
  l.ctx.fileSize - startOffset l - blockSize * BitVec.ofNat 32 (ackCount xs)

/-- The counter `remaining` is what is left, or the cut-off has zeroed it. -/
def Counted (xs : Exchanges) (l : Locals) : Prop :=
  l.remaining = left xs l ∨ l.remaining = 0#32 ∧ left xs l < 0x4001#32

theorem Counted.eq_left {xs : Exchanges} {l : Locals} (h : Counted xs l)
    (hne : l.remaining ≠ 0#32) : l.remaining = left xs l :=
  h.resolve_right fun hzero => hne hzero.1

theorem Counted.congr {xs ys : Exchanges} {l l' : Locals} (h : Counted xs l)
    (hacks : ackCount ys = ackCount xs) (hctx : l'.ctx = l.ctx)
    (hbase : l'.baseOffset = l.baseOffset) (hremaining : l'.remaining = l.remaining) :
    Counted ys l' := by
  have hleft : left ys l' = left xs l := by
    simp [left, startOffset, hacks, hctx, hbase]
  unfold Counted
  rw [hleft, hremaining]
  exact h

/-- Inside the loop the counter is zero only when the cut-off is reached. -/
theorem Counted.left_lt {xs : Exchanges} {l : Locals} (h : Counted xs l)
    (hzero : l.remaining = 0#32) : left xs l < 0x4001#32 := by
  rcases h with h | h
  · rw [← h, hzero]
    decide
  · exact h.2

/-- The block in memory is the block of the file that the counter names. -/
def Loaded (img : Image) (l : Locals) : Prop :=
  l.dataBlock = img.block store 32 (blockOffset l).toNat

/-- What every run keeps. -/
structure Inv (opts : Options) (img : Image) (xs : Exchanges) (s : State) : Prop where
  tracked : s.pc ≠ .sigfpe → Tracked opts img xs s.vars
  handshake : s.pc.handshake = true →
    pollReplies xs = [] ∧ streamed xs = [] ∧ s.vars.needRejump = false
  chosen : s.pc = .phaseCtrl ∨ s.pc = .setOffset → s.vars.remaining = left xs s.vars
  counted : s.pc.counting = true → Counted xs s.vars
  waiting : s.pc.looping = true → s.pc.streaming = false →
    s.vars.remaining ≠ 0#32 ∧ s.vars.needRejump = false
  loaded : s.pc.streaming = true → Loaded img s.vars
  word : ∀ i, s.pc = .streamWord i → i < 32 ∧ i % 2 = 0 ∧
    s.vars.io = (s.vars.dataBlock.getD i 0#8, s.vars.dataBlock.getD (i + 1) 0#8)
  trailer : s.pc = .streamTrailer →
    s.vars.io = (crc8Calculator s.vars.dataBlock 32, s.vars.temp.setWidth 8)

section Segments

variable {opts : Options} {img : Image} {xs ys : Exchanges} {l : Locals} {c : Call}

theorem pollReplies_write (h : c.cmd ≠ cmdPollProgress) (a : Transfer) :
    pollReplies (xs ++ [(c, a)]) = pollReplies xs := by
  cases a <;> simp [pollReply?, h]

theorem ackCount_write (h : c.cmd ≠ cmdPollProgress) (a : Transfer) :
    ackCount (xs ++ [(c, a)]) = ackCount xs := by
  unfold ackCount
  rw [pollReplies_write h]

theorem ackCount_poll (h : c.cmd = cmdPollProgress) (r : Byte × Byte) :
    ackCount (xs ++ [(c, some r)]) = ackCount xs + if r.1 = 1#8 then 1 else 0 := by
  by_cases hr : r.1 = 1#8 <;> simp [ackCount, pollReply?, h, hr]

/-- A reply that asks for no block does not count. -/
theorem ackCount_of_not_asks (h : c.cmd = cmdPollProgress) {r : Byte × Byte}
    (hr : ¬ AsksBlock r.1) : ackCount (xs ++ [(c, some r)]) = ackCount xs := by
  have hone : ¬ r.1 = 1#8 := fun hr' => hr (.inr (.inl hr'))
  simp [ackCount_poll h, hone]

theorem ackCount_failed (a : Call) : ackCount (xs ++ [(a, none)]) = ackCount xs := by
  simp [ackCount, pollReply?]

theorem left_congr (h : ackCount ys = ackCount xs) : left ys l = left xs l := by
  simp [left, h]

/-- A failed call ends the program. -/
theorem inv_failed (h : Tracked opts img xs l) (rc : Nat) (hacks : ackCount ys = ackCount xs) :
    Inv opts img ys ⟨.returned rc, l⟩ := by
  constructor <;> simp [Pc.handshake, Pc.counting, Pc.looping, Pc.streaming, h.congr hacks]

/-- The points of the common tail. -/
theorem inv_tail (h : Tracked opts img xs l) (hcount : Counted xs l) {pc : Pc}
    (hpc : pc = .finalize ∨ pc = .finishMode) : Inv opts img xs ⟨pc, l⟩ := by
  rcases hpc with rfl | rfl <;>
    constructor <;> simp [Pc.handshake, Pc.counting, Pc.looping, Pc.streaming, h, hcount]

theorem inv_afterLoop (h : Tracked opts img xs l) (hcount : Counted xs l) :
    Inv opts img xs (afterLoop l).1 :=
  have hframe := h.frame (phaseFinalize, 0#8) l.resp l.dataBlock l.remaining l.needRejump
  inv_tail hframe hcount (.inl rfl)

/-- A point of the loop at which no block is being streamed. -/
theorem inv_waiting (h : Tracked opts img xs l) (hleft : l.remaining = left xs l)
    (hne : l.remaining ≠ 0#32) (hrejump : l.needRejump = false) {pc : Pc}
    (hpc : pc = .poll ∨ pc = .rejumpPhase ∨ pc = .rejumpStatus ∨ pc = .rejumpOffset) :
    Inv opts img xs ⟨pc, l⟩ := by
  rcases hpc with rfl | rfl | rfl | rfl <;>
    constructor <;> simp [Pc.handshake, Pc.counting, Pc.looping, Pc.streaming, h, Counted, hleft]
  all_goals exact ⟨hleft ▸ hne, hrejump⟩

theorem inv_loopHead (h : Tracked opts img xs l) (hcount : Counted xs l) :
    Inv opts img xs (loopHead l).1 := by
  unfold loopHead
  split
  · rename_i hne
    have hleft : l.remaining = left xs l := hcount.eq_left hne
    split
    · have hframe := h.frame (phaseNormal, l.ctx.eraseMask) l.resp l.dataBlock l.remaining false
      exact inv_waiting hframe hleft hne rfl (.inr (.inl rfl))
    · rename_i hrejump
      exact inv_waiting h hleft hne (by simpa using hrejump) (.inl rfl)
  · exact inv_afterLoop h hcount

theorem inv_streamFrom (h : Tracked opts img xs l) (hcount : Counted xs l)
    (hloaded : Loaded img l) (i : Nat) (hi : i % 2 = 0) :
    Inv opts img xs (streamFrom i l).1 := by
  unfold streamFrom
  split
  · rename_i hlt
    have hframe := h.frame (l.dataBlock.getD i 0#8, l.dataBlock.getD (i + 1) 0#8) l.resp
      l.dataBlock l.remaining l.needRejump
    constructor <;> simp [goto, Pc.handshake, Pc.counting, Pc.looping, Pc.streaming]
    · exact hframe
    · exact hcount
    · exact hloaded
    · exact ⟨hlt, hi⟩
  · have hframe := h.frame (crc8Calculator l.dataBlock 32, l.temp.setWidth 8) l.resp
      l.dataBlock l.remaining l.needRejump
    constructor <;> simp [goto, Pc.handshake, Pc.counting, Pc.looping, Pc.streaming]
    · exact hframe
    · exact hcount
    · exact hloaded

/-- The cut-off leaves what is left after one more block, or nothing. -/
theorem counted_advance (hleft : l.remaining = left xs l) (hc : c.cmd = cmdPollProgress) :
    Counted (xs ++ [(c, some l.resp)]) (advance l) := by
  unfold Counted left
  rw [advance_ctx, advance_startOffset, ackCount_poll hc]
  by_cases hr : l.resp.1 = 1#8
  -- What is left goes down by one block, unless the cut-off zeroes it.
  · have hnext : l.remaining - blockSize =
        l.ctx.fileSize - startOffset l -
          blockSize * BitVec.ofNat 32 (ackCount xs + 1) := by
      rw [hleft, left, BitVec.ofNat_add]
      simp only [blockSize]
      grind
    simp only [advance, hr, if_true, ← hnext]
    split
    · exact .inl rfl
    · split
      · rename_i hcut
        exact .inr ⟨rfl, hcut⟩
      · exact .inl rfl
  · simp only [advance, hr, if_false]
    exact .inl hleft

theorem advance_spec (h : Tracked opts img xs l) :
    Loaded img (loadBlock (advance l)) ∧
      min ((blockOffset (advance l)).toNat + 32) img.size ≤ (loadBlock (advance l)).fp.pos :=
  loadBlock_spec (by simpa using h.image) (by simpa using seek_pos h)

/-- Advancing the counters and reading the block keeps track of the run. -/
theorem tracked_load (h : Tracked opts img xs l) (hc : c.cmd = cmdPollProgress) :
    Tracked opts img (xs ++ [(c, some l.resp)]) (loadBlock (advance l)) := by
  constructor
  · simpa [loadBlock] using h.image
  · simpa [loadBlock] using h.fileSize
  · simpa [loadBlock] using h.options
  · simpa [loadBlock] using h.bbl
  · simpa [loadBlock] using h.baseOffset_lt
  · show (advance l).firstTemp = _
    rw [advance_firstTemp, h.firstTemp, ackCount_poll hc]
    by_cases hr : l.resp.1 = 1#8 <;> simp [hr]
  · show (advance l).temp = _
    rw [advance_temp, h.firstTemp, h.temp, ackCount_poll hc]
    -- The first reply `1` only sets the flag; the later ones count a block.
    by_cases hr : l.resp.1 = 1#8
    · by_cases hacks : 0 < ackCount xs
      · simp only [hr, hacks, decide_true, and_self, if_true]
        rw [← BitVec.ofNat_add]
        congr 1
        omega
      · have hzero : ackCount xs = 0 := by omega
        simp [hr, hzero]
    · simp [hr]
  · intro _
    exact (advance_spec h).2

theorem inv_afterPoll (h : Tracked opts img xs l) (hleft : l.remaining = left xs l)
    (hc : c.cmd = cmdPollProgress) :
    Inv opts img (xs ++ [(c, some l.resp)]) (afterPoll l).1 := by
  unfold afterPoll
  split
  · split
    · constructor <;> simp [goto, Pc.handshake, Pc.counting, Pc.looping, Pc.streaming]
    · exact inv_streamFrom (tracked_load h hc) (counted_advance hleft hc) (advance_spec h).1 0 rfl
  · rename_i hr
    have hacks : ackCount (xs ++ [(c, some l.resp)]) = ackCount xs := ackCount_of_not_asks hc hr
    exact inv_loopHead (h.congr hacks) (.inl (by rw [left_congr hacks]; exact hleft))

/-- A point of the handshake at which nothing is chosen yet. -/
theorem inv_handshake (h : Tracked opts img xs l) (hpolls : pollReplies xs = [])
    (hstreamed : streamed xs = []) (hrejump : l.needRejump = false) {pc : Pc}
    (hpc : pc = .readIdVerA ∨ pc = .readIdVerB ∨ pc = .readBaseOff ∨ pc = .readStatus) :
    Inv opts img xs ⟨pc, l⟩ := by
  rcases hpc with rfl | rfl | rfl | rfl <;>
    constructor <;>
    simp [Pc.counting, Pc.looping, Pc.streaming, h, hpolls, hstreamed, hrejump]

/-- A point of the handshake at which the phase and the start offset are chosen. -/
theorem inv_chosen (h : Tracked opts img xs l) (hpolls : pollReplies xs = [])
    (hstreamed : streamed xs = []) (hrejump : l.needRejump = false)
    (hleft : l.remaining = left xs l) {pc : Pc} (hpc : pc = .phaseCtrl ∨ pc = .setOffset) :
    Inv opts img xs ⟨pc, l⟩ := by
  rcases hpc with rfl | rfl <;>
    constructor <;>
    simp [Pc.counting, Pc.looping, Pc.streaming, h, hpolls, hstreamed, hrejump, hleft]

/-- During the handshake the fields that the EC reports may still change. -/
theorem Tracked.handshake_frame (h : Tracked opts img xs l) (hpolls : pollReplies xs = [])
    (ctx : FlashCtx) (baseOffset : Word) (hoptions : ctx.toOptions = l.ctx.toOptions)
    (hsize : ctx.fileSize = l.ctx.fileSize) (hbase : baseOffset.toNat < 2 ^ 16) :
    Tracked opts img xs { l with ctx, baseOffset } := by
  have hacks : ackCount xs = 0 := by simp [ackCount, hpolls]
  have hbbl : ctx.includeBootloader = l.ctx.includeBootloader :=
    congrArg Options.includeBootloader hoptions
  constructor
  · exact h.image
  · exact hsize.trans h.fileSize
  · show ctx.toOptions = { opts with includeBootloader := ctx.includeBootloader }
    rw [hbbl, hoptions]
    exact h.options
  · show ctx.includeBootloader = true → _
    rw [hbbl]
    exact h.bbl
  · exact hbase
  · exact h.firstTemp
  · exact h.temp
  · intro hfirst
    -- No block has been read yet.
    have hfalse := h.firstTemp_eq_false hacks
    exact absurd hfirst (by simp [hfalse])

/-- Until the first poll the boot block may still be kept. -/
theorem Tracked.keepBootBlock (h : Tracked opts img xs l) (hacks : ackCount xs = 0) :
    Tracked opts img xs { l with ctx := { l.ctx with includeBootloader := false } } := by
  have hfalse := h.firstTemp_eq_false hacks
  exact { h with
    options := congrArg (fun o => { o with includeBootloader := false }) h.options
    bbl := by simp
    loaded := by simp [hfalse] }

theorem inv_choosePhase (h : Tracked opts img xs l) (hpolls : pollReplies xs = [])
    (hstreamed : streamed xs = []) (hrejump : l.needRejump = false) :
    Inv opts img xs (choosePhase l).1 := by
  have hacks : ackCount xs = 0 := by simp [ackCount, hpolls]
  unfold choosePhase
  split
  · rename_i hbbl
    have hframe := h.frame (phaseNormal, l.ctx.eraseMask) l.resp l.dataBlock
      (l.ctx.fileSize - l.baseOffset) l.needRejump
    refine inv_chosen hframe hpolls hstreamed hrejump ?_ (.inl rfl)
    simp only [Bool.not_eq_true'] at hbbl
    simp [left, startOffset, hbbl, hacks]
  · rename_i hbbl
    have hframe := h.frame (phaseWithBbl, l.ctx.eraseMask) l.resp l.dataBlock
      l.ctx.fileSize l.needRejump
    refine inv_chosen hframe hpolls hstreamed hrejump ?_ (.inl rfl)
    simp only [Bool.not_eq_true', Bool.not_eq_false] at hbbl
    simp [left, startOffset, hbbl, hacks]

theorem inv_afterStatus (h : Tracked opts img xs l) (hpolls : pollReplies xs = [])
    (hstreamed : streamed xs = []) (hrejump : l.needRejump = false) :
    Inv opts img xs (afterStatus l).1 := by
  have hacks : ackCount xs = 0 := by simp [ackCount, hpolls]
  unfold afterStatus
  split
  · exact inv_choosePhase (h.keepBootBlock hacks) hpolls hstreamed hrejump
  · exact inv_choosePhase h hpolls hstreamed hrejump

theorem inv_romGuard (h : Tracked opts img xs l) (hpolls : pollReplies xs = [])
    (hstreamed : streamed xs = []) (hrejump : l.needRejump = false) :
    Inv opts img xs (romGuard l).1 := by
  unfold romGuard
  split
  · exact inv_failed h 1 rfl
  · exact inv_handshake h hpolls hstreamed hrejump (by simp)

end Segments

/-- The base offset is assembled from two bytes. -/
theorem baseOffset_lt (hi lo : Byte) :
    ((hi.setWidth 32 <<< 8) ||| lo.setWidth 32 : Word).toNat < 2 ^ 16 := by
  have hhi := hi.isLt
  have hlo := lo.isLt
  rw [BitVec.toNat_or]
  apply Nat.or_lt_two_pow
  · simp only [BitVec.toNat_shiftLeft, BitVec.toNat_setWidth]
    omega
  · simp only [BitVec.toNat_setWidth]
    omega

section Step

variable {opts : Options} {img : Image} {xs : Exchanges} {c : Call}

/-- A command other than a poll does not count. -/
theorem ackCount_of_ne_poll {s : State} (hc : pending s = some c) (hpc : s.pc ≠ .poll)
    (a : Transfer) : ackCount (xs ++ [(c, a)]) = ackCount xs :=
  ackCount_write (by rw [pending_cmd hc]; exact command_ne_poll hpc) a

/-- A command of the handshake neither polls nor streams. -/
theorem handshake_exchange {s : State} (h : Inv opts img xs s) (hpc : s.pc.handshake = true)
    (hc : pending s = some c) (a : Transfer) :
    pollReplies (xs ++ [(c, a)]) = [] ∧ streamed (xs ++ [(c, a)]) = [] ∧
      s.vars.needRejump = false := by
  obtain ⟨hpolls, hstreamed, hrejump⟩ := h.handshake hpc
  have hpoll : s.pc ≠ .poll := by
    intro h
    simp [h, Pc.handshake] at hpc
  have hne : c.cmd ≠ cmdStreamData := by
    rw [pending_cmd hc]
    exact command_ne_stream (streaming_of_handshake hpc)
  refine ⟨?_, ?_, hrejump⟩
  · rw [pollReplies_write (by rw [pending_cmd hc]; exact command_ne_poll hpoll), hpolls]
  · simp [hstreamed, streamWord?, hne]

/-- A program that waits on a call has not trapped. -/
theorem Inv.tracked_of_pending {s : State} (h : Inv opts img xs s) (hc : pending s = some c) :
    Tracked opts img xs s.vars := by
  apply h.tracked
  intro hpc
  simp [pending, hpc] at hc

/-- Nor has one that is sending a block. -/
theorem Inv.tracked_of_streaming {s : State} (h : Inv opts img xs s)
    (hstreaming : s.pc.streaming = true) : Tracked opts img xs s.vars := by
  apply h.tracked
  intro hpc
  simp [hpc, Pc.streaming] at hstreaming

/-- The step lemma: an answered call keeps the invariant. -/
theorem inv_resume {s : State} (h : Inv opts img xs s) (hc : pending s = some c) (a : Transfer) :
    Inv opts img (xs ++ [(c, a)]) (resume s a).1 := by
  have htracked := h.tracked_of_pending hc
  cases a with
  | none =>
      rw [resume_none hc]
      exact inv_failed htracked 1 (ackCount_failed c)
  | some r =>
      have hcmd := pending_cmd hc
      have hacks (hpc : s.pc ≠ .poll) : ackCount (xs ++ [(c, some r)]) = ackCount xs :=
        ackCount_of_ne_poll hc hpc (some r)
      have hhand (hpc : s.pc.handshake = true) := handshake_exchange h hpc hc (some r)
      have hnext (hpc : s.pc ≠ .poll) : Tracked opts img (xs ++ [(c, some r)]) s.vars :=
        htracked.congr (hacks hpc)
      have hcount (hcounting : s.pc.counting = true) (hpc : s.pc ≠ .poll) :
          Counted (xs ++ [(c, some r)]) s.vars :=
        (h.counted hcounting).congr (hacks hpc) rfl rfl rfl
      rcases s with ⟨pc, l⟩
      have hframe := htracked.reply r
      -- Each call hands over to the lemma about the code behind it.
      cases pc with
      | readIdVerA =>
          obtain ⟨hpolls, hstreamed, hrejump⟩ := hhand rfl
          have hreported := (hframe.congr (hacks nofun)).handshake_frame hpolls
            { l.ctx with ramId := r.1, ramMver := r.2 } l.baseOffset rfl rfl hframe.baseOffset_lt
          show Inv opts img _ ⟨.readIdVerB, _⟩
          exact inv_handshake hreported hpolls hstreamed hrejump (.inr (.inl rfl))
      | readIdVerB =>
          obtain ⟨hpolls, hstreamed, hrejump⟩ := hhand rfl
          have hreported := (hframe.congr (hacks nofun)).handshake_frame hpolls
            { l.ctx with ramSver := r.1, ramTver := r.2 } l.baseOffset rfl rfl
            hframe.baseOffset_lt
          show Inv opts img _ (romGuard _).1
          exact inv_romGuard hreported hpolls hstreamed hrejump
      | readBaseOff =>
          obtain ⟨hpolls, hstreamed, hrejump⟩ := hhand rfl
          have hreported := (hframe.congr (hacks nofun)).handshake_frame hpolls l.ctx _ rfl rfl
            (baseOffset_lt r.1 r.2)
          show Inv opts img _ ⟨.readStatus, _⟩
          exact inv_handshake hreported hpolls hstreamed hrejump (.inr (.inr (.inr rfl)))
      | readStatus =>
          obtain ⟨hpolls, hstreamed, hrejump⟩ := hhand rfl
          show Inv opts img _ (afterStatus { l with resp := r }).1
          exact inv_afterStatus (hframe.congr (hacks nofun)) hpolls hstreamed hrejump
      | phaseCtrl =>
          obtain ⟨hpolls, hstreamed, hrejump⟩ := hhand rfl
          have hleft := h.chosen (.inl rfl)
          rw [← left_congr (hacks nofun)] at hleft
          have hio := (hnext nofun).frame
            ((l.ctx.fileSize - l.remaining).setWidth 8,
              ((l.ctx.fileSize - l.remaining) >>> 8).setWidth 8)
            l.resp l.dataBlock l.remaining l.needRejump
          show Inv opts img _ ⟨.setOffset, _⟩
          exact inv_chosen hio hpolls hstreamed hrejump hleft (.inr rfl)
      | setOffset =>
          have hleft := h.chosen (.inr rfl)
          rw [← left_congr (hacks nofun)] at hleft
          show Inv opts img _ (loopHead l).1
          exact inv_loopHead (hnext nofun) (.inl hleft)
      | rejumpPhase =>
          obtain ⟨hne, hrejump⟩ := h.waiting rfl rfl
          have hleft := (hcount rfl nofun).eq_left hne
          show Inv opts img _ ⟨.rejumpStatus, l⟩
          exact inv_waiting (hnext nofun) hleft hne hrejump (.inr (.inr (.inl rfl)))
      | rejumpStatus =>
          obtain ⟨hne, hrejump⟩ := h.waiting rfl rfl
          have hleft := (hcount rfl nofun).eq_left hne
          have hreply := hframe.congr (hacks nofun)
          show Inv opts img _ (afterJump { l with resp := r }).1
          unfold afterJump
          split
          · exact inv_afterLoop hreply (.inl hleft)
          · have hio := hreply.frame
              (l.baseOffset.setWidth 8, (l.baseOffset >>> 8).setWidth 8)
              r l.dataBlock l.remaining l.needRejump
            exact inv_waiting hio hleft hne hrejump (.inr (.inr (.inr rfl)))
      | rejumpOffset =>
          obtain ⟨hne, hrejump⟩ := h.waiting rfl rfl
          have hleft := (hcount rfl nofun).eq_left hne
          show Inv opts img _ ⟨.poll, l⟩
          exact inv_waiting (hnext nofun) hleft hne hrejump (.inl rfl)
      | poll =>
          obtain ⟨hne, -⟩ := h.waiting rfl rfl
          show Inv opts img _ (afterPoll { l with resp := r }).1
          exact inv_afterPoll (l := { l with resp := r }) hframe
            ((h.counted rfl).eq_left hne) hcmd
      | streamWord i =>
          obtain ⟨-, heven, -⟩ := h.word i rfl
          show Inv opts img _ (streamFrom (i + 2) l).1
          exact inv_streamFrom (hnext nofun) (hcount rfl nofun) (h.loaded rfl) (i + 2) (by omega)
      | streamTrailer =>
          show Inv opts img _ (loopHead l).1
          exact inv_loopHead (hnext nofun) (hcount rfl nofun)
      | finalize =>
          have hio := (hnext nofun).frame
            (if l.ctx.otaMode then 1#8 else if l.ctx.sdMode then 2#8 else 3#8, 0#8)
            l.resp l.dataBlock l.remaining l.needRejump
          show Inv opts img _ ⟨.finishMode, _⟩
          exact inv_tail hio (hcount rfl nofun) (.inr rfl)
      | finishMode =>
          show Inv opts img _ ⟨.returned 0, l⟩
          exact inv_failed htracked 0 (hacks nofun)
      | returned rc => simp [pending] at hc
      | sigfpe => simp [pending] at hc

/-- The invariant holds after every run. -/
theorem inv_run (opts : Options) (img : Image) (as : List Transfer) :
    Inv opts img (exchanges ((main opts img).run as).trace) ((main opts img).run as).state := by
  apply Machine.run_invariant (P := fun cfg => Inv opts img (exchanges cfg.trace) cfg.state)
  · exact inv_handshake (openRom_tracked opts img) rfl rfl rfl (.inl rfl)
  · intro cfg c a h hc
    rw [Machine.exchanges_answer]
    exact inv_resume h hc a

/-- What holds where the loop is entered and is kept by counting a block holds in
the whole loop, as long as something is left: the other calls leave the counters
alone. -/
theorem loop_resume {F : Exchanges → Locals → Prop} {s : State}
    (hcongr : ∀ {xs ys : Exchanges} {l l' : Locals}, F xs l → ackCount ys = ackCount xs →
      l'.ctx = l.ctx → l'.baseOffset = l.baseOffset → l'.remaining = l.remaining → F ys l')
    (hentry : s.pc = .setOffset → s.vars.remaining ≠ 0#32 → F xs s.vars)
    (hcount : ∀ r, s.pc = .poll → s.vars.remaining ≠ 0#32 → F xs s.vars →
      s.vars.ctx.fileSize ≠ 0#32 → (advance { s.vars with resp := r }).remaining ≠ 0#32 →
      F (xs ++ [(c, some r)]) (advance { s.vars with resp := r }))
    (hinv : Inv opts img xs s)
    (h : s.pc.looping = true → s.vars.remaining ≠ 0#32 → F xs s.vars) (hc : pending s = some c)
    (a : Transfer) (hlooping : (resume s a).1.pc.looping = true)
    (hne : (resume s a).1.vars.remaining ≠ 0#32) :
    F (xs ++ [(c, a)]) (resume s a).1.vars := by
  by_cases hpoll : s.pc = .poll
  · obtain ⟨hwaits, -⟩ := hinv.waiting (by simp [hpoll, Pc.looping]) (by simp [hpoll, Pc.streaming])
    have hnow := h (by simp [hpoll, Pc.looping]) hwaits
    cases a with
    | none => simp [resume_none hc, Pc.looping] at hlooping
    | some r =>
        by_cases hr : AsksBlock r.1
        · by_cases hfile : s.vars.ctx.fileSize = 0#32
          · unfold AsksBlock at hr
            simp [resume_poll hpoll, afterPoll, hr, hfile, goto, Pc.looping] at hlooping
          · rw [resume_asks hpoll hr hfile] at hne ⊢
            exact hcongr (hcount r hpoll hwaits hnow hfile hne) rfl rfl rfl rfl
        · have hacks : ackCount (xs ++ [(c, some r)]) = ackCount xs :=
            ackCount_of_not_asks (cmd_of_poll hc hpoll) hr
          obtain ⟨io, needRejump, hframe⟩ := loopHead_frame { s.vars with resp := r }
          rw [resume_not_asks hpoll hr, hframe]
          exact hcongr hnow hacks rfl rfl rfl
  · have hacks : ackCount (xs ++ [(c, a)]) = ackCount xs := ackCount_of_ne_poll hc hpoll a
    have hearly : s.pc.early = false := by
      rcases looping_of_resume hlooping with hs | hs
      · exact early_of_looping hs
      · simp [hs, Pc.early]
    obtain ⟨io, resp, needRejump, hframe⟩ := resume_frame hearly hpoll a
    rw [hframe] at hne ⊢
    have hnow : F xs s.vars := by
      rcases looping_of_resume hlooping with hs | hs
      · exact h hs hne
      · exact hentry hs hne
    exact hcongr hnow hacks rfl rfl rfl

end Step

end First
end EcFlash
