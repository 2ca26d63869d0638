import EcFlash.First.Counters
import EcFlash.Reactive.Simulation
import EcFlash.Second.Main

/-!
# The two implementations in lock step

While no call fails the two programs run in lock step, whatever the file holds:
they wait on the same commands and, apart from the data of the blocks, send the
same payloads.  Their variables have different widths, and all that decides
where the programs go is the same in both: the block counter of the second one is
the low byte of the first one's, and is only used to compute what to send.
-/

namespace EcFlash
namespace Second

open Reactive

/-- What of a call reaches the EC: a read sends no payload. -/
def command (c : Call) : Byte × Option (Byte × Byte) :=
  (c.cmd, if c.mode < 1 then none else some (c.io0, c.io1))

/-- What of a call does not depend on the contents of the file. -/
def control (c : Call) : Byte × Option (Byte × Byte) :=
  if c.cmd = cmdWriteData then (c.cmd, none) else command c

/-- The point of the first implementation that a point corresponds to. -/
def Pc.first : Pc → First.Pc
  | .getIdMainVer => .readIdVerA
  | .getSubTestVer => .readIdVerB
  | .getFlashBase => .readBaseOff
  | .getBootStatus => .readStatus
  | .setPhase => .phaseCtrl
  | .setOffset => .setOffset
  | .rejumpPhase => .rejumpPhase
  | .rejumpStatus => .rejumpStatus
  | .rejumpOffset => .rejumpOffset
  | .pollProgress => .poll
  | .writeData i => .streamWord i
  | .writeTrailer => .streamTrailer
  | .finalPhase => .finalize
  | .rebootMode => .finishMode
  | .returned rc => .returned rc
  | .sigfpe => .sigfpe

theorem first_injective : Function.Injective Pc.first := by
  intro pc pc' h
  cases pc <;> cases pc' <;> simp_all [Pc.first]

/-- The variables of the two programs that decide where they go. -/
structure Agree (l : First.Locals) (l' : Locals) : Prop where
  options : l.ctx.toOptions =
    ⟨l'.gEraseBlock, l'.gBootLoader, l'.gNid, l'.gOta, l'.gFlashSd⟩
  rom : l.ctx.romHdr = l'.gRom
  ramId : l.ctx.ramId = l'.gRamId
  fileSize : l.ctx.fileSize = l'.gFileSize
  baseOffset : l.baseOffset = l'.flashBase.setWidth 32
  resp : l.resp = l'.reData
  remaining : l.remaining = l'.remaining
  needRejump : l.needRejump = l'.needRejump
  firstTemp : l.firstTemp = l'.firstTemp
  /-- The block counter of the second implementation is the low byte. -/
  temp : l.temp.setWidth 8 = l'.temp

/-- The points that send a payload which does not come from the file. -/
def Pc.sends : Pc → Bool
  | .setPhase | .setOffset | .rejumpPhase | .rejumpOffset | .finalPhase | .rebootMode => true
  | _ => false

/-- The two programs are at the same point and go on in the same way. -/
structure Matches (s : First.State) (t : State) : Prop where
  pc : s.pc = t.pc.first
  vars : Agree s.vars t.vars
  io : t.pc.sends = true → s.vars.io = t.vars.gSendData

section Pieces

variable {l : First.Locals} {l' : Locals}

theorem Agree.eraseMask (h : Agree l l') : l.ctx.eraseMask = l'.gEraseBlock :=
  congrArg First.Options.eraseMask h.options

theorem Agree.included (h : Agree l l') : l.ctx.includeBootloader = l'.gBootLoader :=
  congrArg First.Options.includeBootloader h.options

theorem Agree.ignoreNid (h : Agree l l') : l.ctx.ignoreNid = l'.gNid :=
  congrArg First.Options.ignoreNid h.options

theorem Agree.otaMode (h : Agree l l') : l.ctx.otaMode = l'.gOta :=
  congrArg First.Options.otaMode h.options

theorem Agree.sdMode (h : Agree l l') : l.ctx.sdMode = l'.gFlashSd :=
  congrArg First.Options.sdMode h.options

theorem matches_afterLoop (h : Agree l l') :
    Matches (First.afterLoop l).1 (afterLoop l').1 :=
  ⟨rfl, { h with }, fun _ => rfl⟩

theorem matches_loopHead (h : Agree l l') : Matches (First.loopHead l).1 (loopHead l').1 := by
  unfold First.loopHead loopHead
  have hremaining := h.remaining
  by_cases hleft : l.remaining = 0#32
  · have hleft' : ¬ l'.remaining ≠ 0#32 := by simp [← hremaining, hleft]
    rw [if_neg (by simp [hleft]), if_neg hleft']
    exact matches_afterLoop h
  · have hleft' : l'.remaining ≠ 0#32 := by rwa [← hremaining]
    rw [if_pos hleft, if_pos hleft', ← h.needRejump]
    cases hwanted : l.needRejump with
    | true =>
        refine ⟨rfl, { h with needRejump := rfl }, fun _ => ?_⟩
        exact congrArg (Prod.mk 1#8) h.eraseMask
    | false => exact ⟨rfl, h, nofun⟩

/-- The base offset goes out in the same byte order. -/
theorem offsetBytes_eq (flashBase : BitVec 16) :
    ((flashBase.setWidth 32 : Word).setWidth 8, ((flashBase.setWidth 32 : Word) >>> 8).setWidth 8) =
      ((flashBase.setWidth 8, (flashBase >>> 8).setWidth 8) : Byte × Byte) := by
  ext i <;> simp
  omega

theorem matches_afterJump (h : Agree l l') : Matches (First.afterJump l).1 (afterJump l').1 := by
  unfold First.afterJump afterJump
  have hresp := h.resp
  by_cases hstatus : l.resp.1 ≠ 0x55#8
  · have hstatus' : l'.reData.1 ≠ 0x55#8 := by rwa [← hresp]
    rw [if_pos hstatus, if_pos hstatus']
    exact matches_afterLoop h
  · have hstatus' : ¬ l'.reData.1 ≠ 0x55#8 := by rwa [← hresp]
    rw [if_neg hstatus, if_neg hstatus']
    refine ⟨rfl, { h with }, fun _ => ?_⟩
    show ((l.baseOffset.setWidth 8, (l.baseOffset >>> 8).setWidth 8) : Byte × Byte) = _
    rw [h.baseOffset]
    exact offsetBytes_eq _

theorem matches_streamFrom (h : Agree l l') (i : Nat) :
    Matches (First.streamFrom i l).1 (sendFrom i l').1 := by
  unfold First.streamFrom sendFrom
  split
  · exact ⟨rfl, { h with }, nofun⟩
  · exact ⟨rfl, { h with }, nofun⟩

/-- A reply moves the counters of the two programs alike. -/
theorem agree_advance (h : Agree l l') : Agree (First.advance l) (advance l') := by
  have hresp := h.resp
  unfold First.advance advance
  by_cases hr : l.resp.1 = 1#8
  · have hr' : l'.reData.1 = 1#8 := by rwa [← hresp]
    have hboundary : l.ctx.fileSize - l.baseOffset =
        l'.gFileSize - l'.flashBase.setWidth 32 := by
      rw [h.fileSize, h.baseOffset]
    rw [if_pos hr, if_pos hr']
    refine { h with remaining := ?_, needRejump := ?_, firstTemp := rfl, temp := ?_ }
    · simp only [hboundary, h.remaining]
      rfl
    · simp only [hboundary, h.remaining, h.needRejump]
      rfl
    · show (if l.firstTemp then l.temp + 1#32 else l.temp).setWidth 8 =
        if l'.firstTemp then l'.temp + 1#8 else l'.temp
      rw [← h.firstTemp, ← h.temp]
      cases l.firstTemp
      · rfl
      -- The low byte of the sum is the sum of the low bytes.
      · exact BitVec.setWidth_add l.temp 1#32 (by decide)
  · have hr' : ¬ l'.reData.1 = 1#8 := by rwa [← hresp]
    rw [if_neg hr, if_neg hr']
    exact h

theorem matches_afterPoll (h : Agree l l') : Matches (First.afterPoll l).1 (afterPoll l').1 := by
  have hresp := h.resp
  have hsize := h.fileSize
  unfold First.afterPoll afterPoll
  by_cases hr : AsksBlock l.resp.1
  · have hr' : AsksBlock l'.reData.1 := by rwa [← hresp]
    unfold AsksBlock at hr hr'
    rw [if_pos hr, if_pos hr']
    by_cases hfile : l.ctx.fileSize = 0#32
    · rw [if_pos hfile, if_pos (hsize ▸ hfile)]
      exact ⟨rfl, h, nofun⟩
    · rw [if_neg hfile, if_neg (hsize ▸ hfile)]
      have hloaded : Agree (First.loadBlock (First.advance l)) (loadBlock (advance l')) :=
        { agree_advance h with }
      exact matches_streamFrom hloaded 0
  · have hr' : ¬ AsksBlock l'.reData.1 := by rwa [← hresp]
    unfold AsksBlock at hr hr'
    rw [if_neg hr, if_neg hr']
    exact matches_loopHead h

theorem matches_choosePhase (h : Agree l l') :
    Matches (First.choosePhase l).1 (choosePhase l').1 := by
  have hincluded := h.included
  unfold First.choosePhase choosePhase
  by_cases hbbl : (!l.ctx.includeBootloader) = true
  · have hbbl' : (!l'.gBootLoader) = true := by rwa [← hincluded]
    rw [if_pos hbbl, if_pos hbbl']
    refine ⟨rfl, { h with remaining := ?_ }, fun _ => congrArg (Prod.mk 1#8) h.eraseMask⟩
    show l.ctx.fileSize - l.baseOffset = l'.gFileSize - l'.flashBase.setWidth 32
    rw [h.fileSize, h.baseOffset]
  · have hbbl' : ¬ (!l'.gBootLoader) = true := by rwa [← hincluded]
    rw [if_neg hbbl, if_neg hbbl']
    exact ⟨rfl, { h with remaining := h.fileSize }, fun _ => congrArg (Prod.mk 2#8) h.eraseMask⟩

theorem matches_afterStatus (h : Agree l l') :
    Matches (First.afterStatus l).1 (afterBootStatus l').1 := by
  have hresp := h.resp
  have hincluded := h.included
  unfold First.afterStatus afterBootStatus
  by_cases hkept : l.resp.1 = 0x55#8 ∧ l.ctx.includeBootloader = true
  · have hkept' : l'.reData.1 = 0x55#8 ∧ l'.gBootLoader = true := by rwa [← hresp, ← hincluded]
    rw [if_pos hkept, if_pos hkept']
    have hnext : Agree { l with ctx := { l.ctx with includeBootloader := false } }
        { l' with gBootLoader := false } :=
      { h with options := congrArg (fun o => { o with includeBootloader := false }) h.options }
    exact matches_choosePhase hnext
  · have hkept' : ¬ (l'.reData.1 = 0x55#8 ∧ l'.gBootLoader = true) := by
      rwa [← hresp, ← hincluded]
    rw [if_neg hkept, if_neg hkept']
    exact matches_choosePhase h

/-- The version query and the ROM guard look at the same bytes. -/
theorem matches_afterIdVerB (h : Agree l l') :
    Matches (First.afterIdVerB l).1 (afterSubTestVer l').1 := by
  have hguard : ((l.ctx.romHdr.getD 0 0#8 ≠ l.ctx.ramId ∨
      l.ctx.fileSize ≠ First.romExpectedSize) ∧ l.ctx.ignoreNid = false) ↔
      ((l'.gRom.getD 0 0#8 ≠ l'.gRamId ∨ l'.gFileSize ≠ romSizeExpected) ∧ l'.gNid = false) := by
    rw [h.rom, h.ramId, h.fileSize, h.ignoreNid]
    rfl
  unfold First.afterIdVerB afterSubTestVer First.romGuard romGuard
  by_cases hbroken : (l.ctx.romHdr.getD 0 0#8 ≠ l.ctx.ramId ∨
      l.ctx.fileSize ≠ First.romExpectedSize) ∧ l.ctx.ignoreNid = false
  · simp only [if_pos hbroken, if_pos (hguard.mp hbroken)]
    exact ⟨rfl, { h with }, nofun⟩
  · simp only [if_neg hbroken, if_neg (hguard.not.mp hbroken)]
    exact ⟨rfl, { h with }, nofun⟩

/-- The base offset is read in the same byte order. -/
theorem flashBase_eq (hi lo : Byte) :
    ((hi.setWidth 32 <<< 8) ||| lo.setWidth 32 : Word) =
      ((hi.setWidth 16 <<< 8) ||| lo.setWidth 16 : BitVec 16).setWidth 32 := by
  have hhi := hi.isLt
  rw [BitVec.setWidth_or]
  congr 1
  apply BitVec.eq_of_toNat_eq
  simp only [BitVec.toNat_shiftLeft, BitVec.toNat_setWidth, Nat.shiftLeft_eq]
  omega

end Pieces

section Step

variable {s : First.State} {t : State} {c : Call} {a : Transfer}

/-- While no call fails the two programs stay at the same point. -/
theorem matches_resume (h : Matches s t) (hc : First.pending s ≠ none) (hok : a ≠ none) :
    Matches (First.resume s a).1 (resume t a).1 := by
  obtain ⟨r, rfl⟩ := Option.ne_none_iff_exists'.mp hok
  obtain ⟨hpc, hvars, -⟩ := h
  rcases s with ⟨pc, l⟩
  rcases t with ⟨pc', l'⟩
  change pc = pc'.first at hpc
  have hread : Agree { l with resp := r } { l' with reData := r } := { hvars with resp := rfl }
  subst hpc
  cases pc' with
  | getIdMainVer => exact ⟨rfl, { hread with ramId := rfl }, nofun⟩
  | getSubTestVer =>
      show Matches (First.afterIdVerB { l with resp := r }).1
        (afterSubTestVer { l' with reData := r }).1
      exact matches_afterIdVerB hread
  | getFlashBase => exact ⟨rfl, { hread with baseOffset := flashBase_eq r.1 r.2 }, nofun⟩
  | getBootStatus =>
      show Matches (First.afterStatus { l with resp := r }).1
        (afterBootStatus { l' with reData := r }).1
      exact matches_afterStatus hread
  | setPhase =>
      refine ⟨rfl, { hvars with }, fun _ => ?_⟩
      show (((l.ctx.fileSize - l.remaining).setWidth 8,
        ((l.ctx.fileSize - l.remaining) >>> 8).setWidth 8) : Byte × Byte) = _
      rw [hvars.fileSize, hvars.remaining]
      rfl
  | setOffset | writeTrailer =>
      show Matches (First.loopHead l).1 (loopHead l').1
      exact matches_loopHead hvars
  | rejumpPhase | rejumpOffset => exact ⟨rfl, hvars, nofun⟩
  | rejumpStatus =>
      show Matches (First.afterJump { l with resp := r }).1 (afterJump { l' with reData := r }).1
      exact matches_afterJump hread
  | pollProgress =>
      show Matches (First.afterPoll { l with resp := r }).1 (afterPoll { l' with reData := r }).1
      exact matches_afterPoll hread
  | writeData i =>
      show Matches (First.streamFrom (i + 2) l).1 (sendFrom (i + 2) l').1
      exact matches_streamFrom hvars (i + 2)
  | finalPhase =>
      refine ⟨rfl, { hvars with }, fun _ => ?_⟩
      show ((if l.ctx.otaMode then 1#8 else if l.ctx.sdMode then 2#8 else 3#8, 0#8) :
        Byte × Byte) = (if !l'.gOta then (if l'.gFlashSd then 2#8 else 3#8) else 1#8, 0#8)
      rw [hvars.otaMode, hvars.sdMode]
      cases l'.gOta <;> rfl
  | rebootMode => exact ⟨rfl, hvars, nofun⟩
  | returned rc | sigfpe => simp [First.pending, Pc.first] at hc

/-- At the same point they wait on the same command. -/
theorem matches_pending (h : Matches s t) :
    (First.pending s).map control = (pending t).map control := by
  obtain ⟨hpc, -, hio⟩ := h
  rcases s with ⟨pc, l⟩
  rcases t with ⟨pc', l'⟩
  change pc = pc'.first at hpc
  change pc'.sends = true → l.io = l'.gSendData at hio
  subst hpc
  cases pc' with
  | setPhase | setOffset | rejumpPhase | rejumpOffset | finalPhase | rebootMode =>
      simp only [Pc.first, First.pending, pending, hio rfl, Option.map_some]
      rfl
  | _ => rfl

end Step

/-- The two programs run in lock step, as far as the file does not matter. -/
theorem lockStep (opts : First.Options) (img : Image) :
    LockStep (First.main opts img) (main opts img) control (· ≠ none) Matches where
  start := ⟨rfl, ⟨rfl, rfl, rfl, rfl, rfl, rfl, rfl, rfl, rfl, rfl⟩, nofun⟩
  pending := fun _ _ h => matches_pending h
  resume := fun _ _ _ h hc hok => matches_resume h hc hok

end Second
end EcFlash
