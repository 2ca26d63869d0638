import EcFlash.First.Main
import EcFlash.Wire

/-!
# The counters of the flash loop

What the variables of `main` say about the run so far, for every image and every
behaviour of the EC.  `Tracked` holds at every program point but after a trapped
division: the block counter is one less than the number of polls answered `1`,
and the stream is positioned past the current block.  `Remaining` adds, inside
the loop, what is left to flash.
-/

namespace EcFlash
namespace First

open Reactive

/-- The offset of the first block: where the flashed area starts. -/
def startOffset (l : Locals) : Word :=
  if l.ctx.includeBootloader then 0#32 else l.baseOffset

/-- A byte that was read is kept. -/
theorem store_byte (b : Byte) : store (b.setWidth 32) = b := by
  have hne : (b.setWidth 32 : Word) ≠ eof := by
    intro h
    have hlt := b.isLt
    have htoNat := congrArg BitVec.toNat h
    have heof : eof.toNat = 2 ^ 32 - 1 := rfl
    rw [BitVec.toNat_setWidth, heof] at htoNat
    omega
  simp [store, hne]

theorem blockOffset_eq (l : Locals) :
    blockOffset l = l.temp * blockSize + startOffset l := by
  unfold blockOffset startOffset
  cases l.ctx.includeBootloader <;> simp

/-- The points of the four reads at the beginning. -/
def Pc.early : Pc → Bool
  | .readIdVerA | .readIdVerB | .readBaseOff | .readStatus => true
  | _ => false

/-- The points of the handshake, up to the announced start offset. -/
def Pc.handshake : Pc → Bool
  | .readIdVerA | .readIdVerB | .readBaseOff | .readStatus | .phaseCtrl | .setOffset => true
  | _ => false

/-- The points of the flash loop. -/
def Pc.looping : Pc → Bool
  | .rejumpPhase | .rejumpStatus | .rejumpOffset | .poll | .streamWord _ | .streamTrailer => true
  | _ => false

/-- The points of the flash loop and of the tail behind it. -/
def Pc.counting : Pc → Bool
  | .finalize | .finishMode => true
  | pc => pc.looping

/-- The points at which a block is being streamed. -/
def Pc.streaming : Pc → Bool
  | .streamWord _ | .streamTrailer => true
  | _ => false

section Points

variable {pc : Pc}

theorem early_of_handshake (h : pc.handshake = false) : pc.early = false := by
  cases pc <;> first | rfl | exact h

theorem handshake_of_early (h : pc.early = true) : pc.handshake = true := by
  cases pc <;> first | rfl | simp [Pc.early] at h

theorem early_of_looping (h : pc.looping = true) : pc.early = false := by
  cases pc <;> first | rfl | simp [Pc.looping] at h

theorem counting_of_looping (h : pc.looping = true) : pc.counting = true := by
  cases pc <;> first | rfl | simp [Pc.looping] at h

theorem early_of_counting (h : pc.counting = true) : pc.early = false := by
  cases pc <;> first | rfl | simp [Pc.counting, Pc.looping] at h

theorem looping_of_streaming (h : pc.streaming = true) : pc.looping = true := by
  cases pc <;> first | rfl | simp [Pc.streaming] at h

theorem early_of_streaming (h : pc.streaming = true) : pc.early = false :=
  early_of_looping (looping_of_streaming h)

theorem streaming_of_handshake (h : pc.handshake = true) : pc.streaming = false := by
  cases pc <;> first | rfl | simp [Pc.handshake] at h

end Points

/-- What the variables say about the run so far. -/
structure Tracked (opts : Options) (img : Image) (xs : Exchanges) (l : Locals) : Prop where
  image : l.fp.image = img
  fileSize : l.ctx.fileSize = BitVec.ofNat 32 img.size
  options : l.ctx.toOptions = { opts with includeBootloader := l.ctx.includeBootloader }
  bbl : l.ctx.includeBootloader = true → opts.includeBootloader = true
  baseOffset_lt : l.baseOffset.toNat < 2 ^ 16
  firstTemp : l.firstTemp = decide (0 < ackCount xs)
  temp : l.temp = BitVec.ofNat 32 (ackCount xs - 1)
  /-- Either the block ends in the file and was read, or the file has ended. -/
  loaded : l.firstTemp = true →
    min ((blockOffset l).toNat + 32) img.size ≤ l.fp.pos

namespace Tracked

variable {opts : Options} {img : Image} {xs ys : Exchanges} {l : Locals}

/-- Variables that `Tracked` does not look at may change freely. -/
theorem frame (h : Tracked opts img xs l) (io resp : Byte × Byte) (dataBlock : List Byte)
    (remaining : Word) (needRejump : Bool) :
    Tracked opts img xs { l with io, resp, dataBlock, remaining, needRejump } :=
  ⟨h.image, h.fileSize, h.options, h.bbl, h.baseOffset_lt, h.firstTemp, h.temp, h.loaded⟩

/-- In particular the reply buffer. -/
theorem reply (h : Tracked opts img xs l) (r : Byte × Byte) :
    Tracked opts img xs { l with resp := r } :=
  h.frame l.io r l.dataBlock l.remaining l.needRejump

/-- So may the exchanges, as long as no reply `1` comes in. -/
theorem congr (h : Tracked opts img xs l) (hacks : ackCount ys = ackCount xs) :
    Tracked opts img ys l :=
  { h with
    firstTemp := by rw [hacks]; exact h.firstTemp
    temp := by rw [hacks]; exact h.temp }

theorem firstTemp_eq_false (h : Tracked opts img xs l) (hacks : ackCount xs = 0) :
    l.firstTemp = false := by
  simp [h.firstTemp, hacks]

theorem startOffset_lt (h : Tracked opts img xs l) : (startOffset l).toNat < 2 ^ 16 := by
  unfold startOffset
  cases l.ctx.includeBootloader
  · simpa using h.baseOffset_lt
  · simp

theorem fileSize_ne_zero (h : Tracked opts img xs l) (hsize : 0 < img.size) :
    l.ctx.fileSize ≠ 0#32 := by
  intro hzero
  have hlt := img.size_lt
  have htoNat := congrArg BitVec.toNat (h.fileSize.symm.trans hzero)
  simp only [BitVec.toNat_ofNat] at htoNat
  omega

end Tracked

theorem openRom_tracked (opts : Options) (img : Image) :
    Tracked opts img [] (openRom opts img) where
  image := rfl
  fileSize := rfl
  options := rfl
  bbl := fun h => h
  baseOffset_lt := by simp [openRom]
  firstTemp := by simp [openRom]
  temp := by simp [openRom]
  loaded := by simp [openRom]

/-- A reply `0`, `1` or `2` updates the counters and streams the current block. -/
theorem afterPoll_of_asks {l : Locals} (hr : AsksBlock l.resp.1) (hfile : l.ctx.fileSize ≠ 0#32) :
    afterPoll l =
      emit (.progress (percentage l.ctx.fileSize l.remaining)) (streamBlock (advance l)) := by
  unfold AsksBlock at hr
  unfold afterPoll
  rw [if_pos hr, if_neg hfile]

/-- Every other reply goes back to the loop test. -/
theorem afterPoll_of_not_asks {l : Locals} (hr : ¬ AsksBlock l.resp.1) :
    afterPoll l = loopHead l := by
  unfold AsksBlock at hr
  unfold afterPoll
  rw [if_neg hr]

section Streaming

variable {opts : Options} {img : Image} {xs : Exchanges} {l : Locals}

/-- The counters after a reply that asks for a block. -/
theorem advance_temp (l : Locals) :
    (advance l).temp =
      if l.resp.1 = 1#8 ∧ l.firstTemp = true then l.temp + 1#32 else l.temp := by
  unfold advance
  by_cases hr : l.resp.1 = 1#8 <;> simp [hr]

theorem advance_firstTemp (l : Locals) :
    (advance l).firstTemp = (decide (l.resp.1 = 1#8) || l.firstTemp) := by
  unfold advance
  by_cases hr : l.resp.1 = 1#8 <;> simp [hr]

@[simp] theorem advance_ctx (l : Locals) : (advance l).ctx = l.ctx := by
  unfold advance
  split <;> rfl

@[simp] theorem advance_fp (l : Locals) : (advance l).fp = l.fp := by
  unfold advance
  split <;> rfl

@[simp] theorem advance_resp (l : Locals) : (advance l).resp = l.resp := by
  unfold advance
  split <;> rfl

@[simp] theorem advance_baseOffset (l : Locals) : (advance l).baseOffset = l.baseOffset := by
  unfold advance
  split <;> rfl

@[simp] theorem advance_startOffset (l : Locals) :
    startOffset (advance l) = startOffset l := by
  simp [startOffset]

@[simp] theorem loadBlock_blockOffset (l : Locals) :
    blockOffset (loadBlock l) = blockOffset l := rfl

/-- Reading the current block leaves the stream past it, and reads the bytes at
its offset.  When the offset is too large for a `long` the seek fails, but then
the stream already stands at the end of a shorter file. -/
theorem loadBlock_spec (himage : l.fp.image = img)
    (hpos : 2 ^ 31 ≤ (blockOffset l).toNat → img.size ≤ l.fp.pos) :
    (loadBlock l).dataBlock = img.block store 32 (blockOffset l).toNat ∧
      min ((blockOffset l).toNat + 32) img.size ≤ (loadBlock l).fp.pos := by
  have hsize := img.size_lt
  have hge := CFile.fill_pos_ge store 32 (l.fp.fseek (blockOffset l))
  simp only [loadBlock]
  rw [CFile.fill_fst]
  rw [CFile.fseek_image, himage] at hge ⊢
  by_cases hlt : (blockOffset l).toNat < 2 ^ 31
  · rw [CFile.fseek_pos_of_lt hlt] at hge ⊢
    exact ⟨rfl, hge⟩
  -- The seek fails, and the stream is left where only the filler is read.
  · have hend := hpos (by omega)
    rw [CFile.fseek_of_ge (by omega)] at hge ⊢
    exact ⟨Image.block_of_ge hend (by omega), by omega⟩

/-- A block counter that moves on by one moves the block by 32 bytes. -/
theorem blockOffset_advance (l : Locals) :
    blockOffset (advance l) =
      if l.resp.1 = 1#8 ∧ l.firstTemp = true then blockOffset l + 32#32 else blockOffset l := by
  rw [blockOffset_eq, blockOffset_eq, advance_temp, advance_startOffset]
  split
  · rw [BitVec.add_mul]
    simp only [blockSize]
    ac_rfl
  · rfl

/-- The seek of the next block fails only at the end of the file. -/
theorem seek_pos (h : Tracked opts img xs l)
    (hbig : 2 ^ 31 ≤ (blockOffset (advance l)).toNat) : img.size ≤ l.fp.pos := by
  have hsize := img.size_lt
  have hstart := h.startOffset_lt
  cases hfirst : l.firstTemp with
  | false =>
      -- Before the first reply `1` the block is the first one, far below `2 ^ 31`.
      have hacks : ackCount xs = 0 := by
        have := h.firstTemp
        simp only [hfirst] at this
        simpa using this.symm
      have htemp : l.temp = 0#32 := by simp [h.temp, hacks]
      rw [blockOffset_advance l, blockOffset_eq, htemp] at hbig
      simp [hfirst] at hbig
      omega
  | true =>
      -- Later on the block before was read, and a block this far out lies behind it.
      have hloaded := h.loaded hfirst
      rw [blockOffset_advance l] at hbig
      split at hbig
      · rw [BitVec.toNat_add] at hbig
        simp only [BitVec.toNat_ofNat] at hbig
        omega
      · omega

end Streaming

end First
end EcFlash
