import EcFlash.First.Area
import EcFlash.Original.Main
import EcFlash.Original.WireFormat
import EcFlash.Reactive.Simulation

/-!
# The first implementation refines the original

While no call fails the two programs run in lock step.  `Holds` is the assertion
at each call of the original: how its globals and frame slots give the variables
of the C program.  A slot takes part from the point on where it has been stored.
-/

namespace EcFlash
namespace Original

open Reactive

/-- What the memory says about the variables at every point. -/
structure Agree (l : First.Locals) (m : Memory) : Prop where
  eraseMask : l.ctx.eraseMask = m.gEraseBlock
  included : l.ctx.includeBootloader = true ↔ m.gBootLoader ≠ 0#8
  ignoreNid : l.ctx.ignoreNid = true ↔ m.gNid ≠ 0#8
  otaMode : l.ctx.otaMode = true ↔ m.gOta ≠ 0#8
  sdMode : l.ctx.sdMode = true ↔ m.gFlashSd ≠ 0#8
  rom : l.ctx.romHdr = m.gRom
  ramId : l.ctx.ramId = m.gRamId
  fileSize : l.ctx.fileSize = m.filesize
  fp : l.fp = m.fp32
  io : l.io = m.sendData
  resp : l.resp = m.reData
  temp : l.temp = m.temp
  firstTemp : l.firstTemp = true ↔ m.firstTemp ≠ 0#8

/-- What it says from the flash loop on. -/
structure Looping (l : First.Locals) (m : Memory) : Prop extends Agree l m where
  baseOffset : l.baseOffset = m.fp24
  remaining : l.remaining = m.fp28
  needRejump : l.needRejump = true ↔ m.fp34 ≠ 0#8

/-- The block under way. -/
structure Streaming (l : First.Locals) (m : Memory) : Prop extends Looping l m where
  block : l.dataBlock = m.dataArray
  length : m.dataArray.length = 32

/-- The assertion at each call. -/
def Holds (l : First.Locals) (m : Memory) : Pc → Prop
  | .kbc8c4c | .kbc8c90 | .kbc8d68 => Agree l m ∧ l.needRejump = false
  | .kbc8da0 => Agree l m ∧ l.needRejump = false ∧ l.baseOffset = m.fp24
  | .kbc8e54 =>
      Agree l m ∧ l.needRejump = false ∧ l.baseOffset = m.fp24 ∧ l.remaining = m.fp28
  | .kbc91e4 => Streaming l m ∧ m.fp16 ≤ 31 ∧ m.fp16 % 2 = 1
  | .exited _ | .sigfpe => True
  | _ => Looping l m

/-- The point of the first implementation that an address corresponds to. -/
def Pc.first (m : Memory) : Pc → First.Pc
  | .kbc8c4c => .readIdVerA
  | .kbc8c90 => .readIdVerB
  | .kbc8d68 => .readBaseOff
  | .kbc8da0 => .readStatus
  | .kbc8e54 => .phaseCtrl
  | .kbc8eb8 => .setOffset
  | .kbc8f10 => .rejumpPhase
  | .kbc8f34 => .rejumpStatus
  | .kbc8f8c => .rejumpOffset
  | .kbc8fc0 => .poll
  | .kbc91e4 => .streamWord (m.fp16 - 1)
  | .kbc9248 => .streamTrailer
  | .kbc92ac => .finalize
  | .kbc9328 => .finishMode
  | .exited rc => .returned rc
  | .sigfpe => .sigfpe

/-- The two programs are at the same point and go on in the same way. -/
structure Matches (s : First.State) (t : State) : Prop where
  pc : s.pc = t.pc.first t.mem
  holds : Holds s.vars t.mem t.pc

section Words

theorem lowByte_eq (r : Word) : lowByte r = r.setWidth 8 := by
  unfold lowByte
  rw [BitVec.setWidth_and]
  exact BitVec.and_allOnes

/-- `EOF` is stored as `0xFF` by both. -/
theorem store_eq : First.store = lowByte := by
  funext c
  rw [lowByte_eq]
  unfold First.store
  split
  · rename_i hc
    rw [hc]
    rfl
  · rfl

/-- Shifting by five multiplies by the block size. -/
theorem shiftLeft_five (t : Word) : t <<< 5 = t * First.blockSize := by
  rw [BitVec.shiftLeft_eq_mul_twoPow]
  rfl

/-- The two halves of the base offset do not overlap. -/
theorem add_eq_or (hi lo : Byte) :
    (hi.setWidth 32 <<< 8 : Word) + lo.setWidth 32 = (hi.setWidth 32 <<< 8) ||| lo.setWidth 32 := by
  apply BitVec.add_eq_or_of_and_eq_zero
  ext i hi
  by_cases hlow : i < 8
  · simp [hlow]
  · simp [BitVec.getLsbD_of_ge lo i (by omega)]

theorem crc8Bits_eq (n : Nat) (crc val : Byte) :
    crc8Bits n crc val = EcFlash.crc8Bits n crc val := by
  induction n generalizing crc val with
  | zero => rfl
  | succ n ih => exact ih _ _

theorem crc8Bytes_eq {n : Nat} {buf : List Byte} (h : n ≤ buf.length) (crc : Byte) :
    crc8Bytes n buf crc = (buf.take n).foldl (EcFlash.crc8Bits 8) crc := by
  induction n generalizing buf crc with
  | zero => simp [crc8Bytes]
  | succ n ih =>
      cases buf with
      | nil => simp at h
      | cons val buf =>
          have hrest : n ≤ buf.length := by simpa using h
          simp [crc8Bytes, ih hrest, crc8Bits_eq]

/-- The checksum of the original. -/
theorem crc8Calculator_eq {buf : List Byte} {len : Nat} (h : len ≤ buf.length) :
    crc8Calculator buf len = EcFlash.crc8Calculator buf len := by
  unfold crc8Calculator EcFlash.crc8Calculator
  rw [crc8Bytes_eq h]
  rfl

end Words

section Blocks

variable {l : First.Locals} {m : Memory}

/-- Both put the same two bytes into the buffer of a call. -/
theorem Looping.send (h : Looping l m) {io io' : Byte × Byte} (hio : io = io') :
    Looping { l with io := io } { m with sendData := io' } :=
  { h with io := hio }

theorem matches_block9260 (h : Looping l m) :
    Matches (First.afterLoop l).1 (block9260 m).1 :=
  ⟨rfl, h.send rfl⟩

theorem matches_block8ec0 (h : Looping l m) (hleft : l.remaining ≠ 0#32) :
    Matches (First.loopHead l).1 (block8ec0 m).1 := by
  unfold First.loopHead block8ec0
  rw [if_pos hleft]
  by_cases hwanted : l.needRejump = true
  · have hslot : ¬ m.fp34 = 0#8 := h.needRejump.mp hwanted
    have hcleared : Looping { l with needRejump := false } { m with fp34 := 0#8 } :=
      { h with needRejump := by simp }
    rw [if_pos hwanted, if_neg hslot]
    exact ⟨rfl, hcleared.send (congrArg (Prod.mk 1#8) h.eraseMask)⟩
  · have hslot : m.fp34 = 0#8 := by
      by_contra hslot
      exact hwanted (h.needRejump.mpr hslot)
    rw [if_neg hwanted, if_pos hslot]
    exact ⟨rfl, h⟩

theorem matches_block9254 (h : Looping l m) :
    Matches (First.loopHead l).1 (block9254 m).1 := by
  unfold block9254
  have hremaining := h.remaining
  by_cases hleft : l.remaining ≠ 0#32
  · have hleft' : m.fp28 ≠ 0#32 := by rwa [← hremaining]
    rw [if_pos hleft']
    exact matches_block8ec0 h hleft
  · have hleft' : ¬ m.fp28 ≠ 0#32 := by rwa [← hremaining]
    rw [First.loopHead, if_neg hleft, if_neg hleft']
    exact matches_block9260 h

/-- The bytes of an offset in the order of `CMD_SET_OFFSET`. -/
theorem offsetBytes_eq {off off' : Word} (h : off = off') :
    ((off.setWidth 8, (off >>> 8).setWidth 8) : Byte × Byte) =
      (lowByte off', lowByte (off' >>> 8)) := by
  rw [lowByte_eq, lowByte_eq, h]

theorem matches_block8f38 (h : Looping l m) :
    Matches (First.afterJump l).1 (block8f38 m).1 := by
  unfold First.afterJump block8f38
  have hresp := h.resp
  have hstored : Looping l { m with fp33 := m.reData.1 } := { h with }
  by_cases hstatus : l.resp.1 ≠ 0x55#8
  · have hstatus' : m.reData.1 ≠ 0x55#8 := by rwa [← hresp]
    simp only [if_pos hstatus, if_pos hstatus']
    exact matches_block9260 hstored
  · have hstatus' : ¬ m.reData.1 ≠ 0x55#8 := by rwa [← hresp]
    simp only [if_neg hstatus, if_neg hstatus']
    exact ⟨rfl, hstored.send (offsetBytes_eq h.baseOffset)⟩

/-- Two rounds of the word loop of the original are one of the C program. -/
theorem matches_block91f4 (h : Streaming l m) {i : Nat} (hi : m.fp16 = i) (heven : i % 2 = 0) :
    Matches (First.streamFrom i l).1 (block91f4 m).1 := by
  subst hi
  unfold First.streamFrom
  rw [block91f4]
  by_cases hlt : m.fp16 < 32
  -- The first round only stores the even byte, the second sends the pair.
  · rw [if_pos hlt, if_pos (by omega), if_pos (.inr heven), block91f4]
    have hodd : ¬ (m.fp16 + 1 = 0 ∨ (m.fp16 + 1) % 2 = 0) := by omega
    simp only [if_pos (show m.fp16 + 1 ≤ 31 by omega), if_neg hodd]
    refine ⟨rfl, ?_, by show m.fp16 + 1 ≤ 31; omega, by show (m.fp16 + 1) % 2 = 1; omega⟩
    have hword : ((l.dataBlock.getD m.fp16 0#8, l.dataBlock.getD (m.fp16 + 1) 0#8) : Byte × Byte) =
        (m.dataArray.getD m.fp16 0#8, m.dataArray.getD (m.fp16 + 1) 0#8) := by
      rw [h.block]
    exact { h with io := hword }
  · rw [if_neg hlt, if_neg (by omega)]
    have htrailer : ((EcFlash.crc8Calculator l.dataBlock 32, l.temp.setWidth 8) : Byte × Byte) =
        (crc8Calculator m.dataArray 32, lowByte m.temp) := by
      rw [crc8Calculator_eq (Nat.le_of_eq h.length.symm), lowByte_eq, h.block, h.temp]
    exact ⟨rfl, h.toLooping.send htrailer⟩

/-- Both read the same 32 bytes from the same place. -/
theorem matches_block90bc (h : Looping l m) :
    Matches (First.streamBlock l).1 (block90bc m).1 := by
  have hoff : First.blockOffset l =
      if m.gBootLoader = 0#8 then (m.temp <<< 5) + m.fp24 else m.temp <<< 5 := by
    unfold First.blockOffset
    rw [shiftLeft_five, h.temp, h.baseOffset]
    by_cases hbbl : l.ctx.includeBootloader = true
    · rw [if_neg (by simp [hbbl]), if_neg (h.included.mp hbbl)]
    · have hclear : m.gBootLoader = 0#8 := by
        by_contra hset
        exact hbbl (h.included.mpr hset)
      rw [if_pos (by simp [hbbl]), if_pos hclear]
  have hseek : block90bc m = block9110 { m with fp32 := m.fp32.fseek (First.blockOffset l) } := by
    unfold block90bc
    rw [hoff]
    split <;> rfl
  have hread : Streaming (First.loadBlock l)
      { m with
        fp32 := ((m.fp32.fseek (First.blockOffset l)).fill lowByte 32).2
        dataArray := ((m.fp32.fseek (First.blockOffset l)).fill lowByte 32).1
        fp16 := 0 } := by
    refine { h with fp := ?_, block := ?_, length := ?_ }
    · simp only [First.loadBlock, store_eq, h.fp]
    · simp only [First.loadBlock, store_eq, h.fp]
    · rw [CFile.fill_fst, Image.length_block]
  rw [hseek]
  exact matches_block91f4 hread rfl rfl

/-- The reply `1` counts a block, whatever it leaves of the file. -/
theorem matches_block908c (h : Looping l m) (hr : l.resp.1 = 1#8) {left : Word} {wanted : Byte}
    (hleft : (First.advance l).remaining = left)
    (hwanted : (First.advance l).needRejump = true ↔ wanted ≠ 0#8) :
    Matches (First.streamBlock (First.advance l)).1
      (block908c { m with fp28 := left, fp34 := wanted }).1 := by
  apply matches_block90bc
  rw [First.advance, if_pos hr] at hleft hwanted ⊢
  refine { h with remaining := hleft, needRejump := hwanted, temp := ?_, firstTemp := by simp }
  show (if l.firstTemp = true then l.temp + 1#32 else l.temp) = _
  simp only [h.temp, h.firstTemp]

/-- The counters move alike. -/
theorem matches_block9034 (h : Looping l m) :
    Matches (First.streamBlock (First.advance l)).1 (block9034 m).1 := by
  unfold block9034
  have hresp := h.resp
  by_cases hr : l.resp.1 = 1#8
  · have hr' : m.reData.1 = 1#8 := by rwa [← hresp]
    have hleft : (First.advance l).remaining =
        if m.filesize - m.fp24 = m.fp28 - 32#32 then m.fp28 - 32#32
        else if m.fp28 - 32#32 < 0x4001#32 then 0#32
        else m.fp28 - 32#32 := by
      rw [First.advance, if_pos hr]
      simp only [h.fileSize, h.baseOffset, h.remaining]
      rfl
    have hwanted : (First.advance l).needRejump =
        if m.filesize - m.fp24 = m.fp28 - 32#32 then true else l.needRejump := by
      rw [First.advance, if_pos hr]
      simp only [h.fileSize, h.baseOffset, h.remaining]
      rfl
    simp only [if_pos hr']
    by_cases hboundary : m.filesize - m.fp24 = m.fp28 - 32#32
    · rw [if_pos hboundary] at hleft hwanted
      rw [if_pos hboundary]
      exact matches_block908c h hr hleft (by simp [hwanted])
    · rw [if_neg hboundary] at hleft hwanted
      rw [if_neg hboundary]
      -- `bhi 0x4000` keeps what the C program compares with `0x4001`.
      by_cases hkept : 16384#32 < m.fp28 - 32#32
      · rw [if_neg (by bv_omega)] at hleft
        rw [if_pos hkept]
        exact matches_block908c h hr hleft (by rw [hwanted]; exact h.needRejump)
      · rw [if_pos (by bv_omega)] at hleft
        rw [if_neg hkept]
        exact matches_block908c h hr hleft (by rw [hwanted]; exact h.needRejump)
  · have hr' : ¬ m.reData.1 = 1#8 := by rwa [← hresp]
    rw [if_neg hr', First.advance, if_neg hr]
    exact matches_block90bc h

theorem matches_block8ff4 (h : Looping l m)
    (hr : l.resp.1 = 0#8 ∨ l.resp.1 = 1#8 ∨ l.resp.1 = 2#8) :
    Matches (First.afterPoll l).1 (block8ff4 m).1 := by
  unfold First.afterPoll block8ff4
  rw [if_pos hr]
  by_cases hempty : l.ctx.fileSize = 0#32
  · rw [if_pos hempty, if_pos (h.fileSize ▸ hempty)]
    exact ⟨rfl, trivial⟩
  · rw [if_neg hempty, if_neg (h.fileSize ▸ hempty)]
    exact matches_block9034 h

theorem matches_block8fc4 (h : Looping l m) :
    Matches (First.afterPoll l).1 (block8fc4 m).1 := by
  unfold block8fc4
  rw [← h.resp]
  by_cases h0 : l.resp.1 = 0#8
  · rw [if_pos h0]
    exact matches_block8ff4 h (.inl h0)
  · by_cases h1 : l.resp.1 = 1#8
    · rw [if_neg h0, if_pos h1]
      exact matches_block8ff4 h (.inr (.inl h1))
    · by_cases h2 : l.resp.1 = 2#8
      · rw [if_neg h0, if_neg h1, if_pos h2]
        exact matches_block8ff4 h (.inr (.inr h2))
      · have hr : ¬ (l.resp.1 = 0#8 ∨ l.resp.1 = 1#8 ∨ l.resp.1 = 2#8) := by simp [h0, h1, h2]
        rw [if_neg h0, if_neg h1, if_neg h2, First.afterPoll, if_neg hr]
        exact matches_block9254 h

/-- The flag of the re-jump is cleared before the loop. -/
theorem matches_block8e58 (h : Agree l m) (hwanted : l.needRejump = false)
    (hbase : l.baseOffset = m.fp24) (hleft : l.remaining = m.fp28) :
    Matches (First.afterPhaseCtrl l).1 (block8e58 m).1 := by
  have hstored : Looping l { m with fp34 := 0#8, fp20 := m.filesize - m.fp28 } :=
    { h with baseOffset := hbase, remaining := hleft, needRejump := by simp [hwanted] }
  have hoff : l.ctx.fileSize - l.remaining = m.filesize - m.fp28 := by
    rw [h.fileSize, hleft]
  exact ⟨rfl, hstored.send (offsetBytes_eq hoff)⟩

theorem matches_block8de0 (h : Agree l m) (hwanted : l.needRejump = false)
    (hbase : l.baseOffset = m.fp24) : Matches (First.choosePhase l).1 (block8de0 m).1 := by
  unfold First.choosePhase block8de0
  by_cases hbbl : l.ctx.includeBootloader = true
  · rw [if_neg (by simp [hbbl]), if_pos (h.included.mp hbbl)]
    exact ⟨rfl, { h with io := congrArg (Prod.mk 2#8) h.eraseMask }, hwanted, hbase, h.fileSize⟩
  · have hclear : ¬ m.gBootLoader ≠ 0#8 := h.included.not.mp hbbl
    have hleft : l.ctx.fileSize - l.baseOffset = m.filesize - m.fp24 := by
      rw [h.fileSize, hbase]
    rw [if_pos (by simp [hbbl]), if_neg hclear]
    exact ⟨rfl, { h with io := congrArg (Prod.mk 1#8) h.eraseMask }, hwanted, hbase, hleft⟩

theorem matches_block8da4 (h : Agree l m) (hwanted : l.needRejump = false)
    (hbase : l.baseOffset = m.fp24) : Matches (First.afterStatus l).1 (block8da4 m).1 := by
  unfold First.afterStatus block8da4
  have hresp := h.resp
  have hstored : Agree l { m with fp33 := m.reData.1 } := { h with }
  by_cases hstatus : l.resp.1 = 0x55#8
  · have hstatus' : m.reData.1 = 0x55#8 := by rwa [← hresp]
    by_cases hbbl : l.ctx.includeBootloader = true
    · simp only [if_pos (And.intro hstatus hbbl), if_pos hstatus', if_pos (h.included.mp hbbl)]
      have hkept : Agree { l with ctx := { l.ctx with includeBootloader := false } }
          { m with fp33 := m.reData.1, gBootLoader := 0#8 } :=
        { h with included := by simp }
      exact matches_block8de0 hkept hwanted hbase
    · have hclear : ¬ m.gBootLoader ≠ 0#8 := h.included.not.mp hbbl
      simp only [if_pos hstatus', if_neg hclear, if_neg (fun hboth => hbbl (And.right hboth))]
      exact matches_block8de0 hstored hwanted hbase
  · have hstatus' : ¬ m.reData.1 = 0x55#8 := by rwa [← hresp]
    simp only [if_neg hstatus', if_neg (fun hboth => hstatus (And.left hboth))]
    exact matches_block8de0 hstored hwanted hbase

theorem matches_block8d6c (h : Agree l m) (hwanted : l.needRejump = false) :
    Matches (First.afterBaseOff l).1 (block8d6c m).1 := by
  refine ⟨rfl, { h with }, hwanted, ?_⟩
  show (l.resp.1.setWidth 32 <<< 8 : Word) ||| l.resp.2.setWidth 32 = _
  rw [← add_eq_or, h.resp]
  rfl

/-- The guard of the original is the negation of the C program's. -/
theorem matches_block8d04 (h : Agree l m) (hwanted : l.needRejump = false) :
    Matches (First.romGuard l).1 (block8d04 m).1 := by
  unfold First.romGuard block8d04
  by_cases hrom : m.gRom.getD 0 0#8 = m.gRamId ∧ m.filesize = 0x20000#32
  · have hpass : ¬ ((l.ctx.romHdr.getD 0 0#8 ≠ l.ctx.ramId ∨
        l.ctx.fileSize ≠ First.romExpectedSize) ∧ l.ctx.ignoreNid = false) := by
      rw [h.rom, h.ramId, h.fileSize]
      rintro ⟨hid | hsize, -⟩
      · exact hid hrom.1
      · exact hsize hrom.2
    rw [if_neg hpass, if_pos hrom]
    exact ⟨rfl, h, hwanted⟩
  · rw [if_neg hrom]
    by_cases hnid : l.ctx.ignoreNid = true
    · rw [if_neg (by simp [hnid]), if_pos (h.ignoreNid.mp hnid)]
      exact ⟨rfl, h, hwanted⟩
    · have hfail : (l.ctx.romHdr.getD 0 0#8 ≠ l.ctx.ramId ∨
          l.ctx.fileSize ≠ First.romExpectedSize) ∧ l.ctx.ignoreNid = false := by
        rw [h.rom, h.ramId, h.fileSize]
        exact ⟨not_and_or.mp hrom, by simpa using hnid⟩
      rw [if_pos hfail, if_neg (h.ignoreNid.not.mp hnid)]
      exact ⟨rfl, trivial⟩

end Blocks

section Step

variable {s : First.State} {t : State} {a : Transfer}

/-- A successful read fills both reply buffers. -/
theorem Agree.read {l : First.Locals} {m : Memory} (h : Agree l m) (r : Byte × Byte) :
    Agree { l with resp := r } { m with reData := r } :=
  { h with resp := rfl }

theorem Looping.read {l : First.Locals} {m : Memory} (h : Looping l m) (r : Byte × Byte) :
    Looping { l with resp := r } { m with reData := r } :=
  { h with resp := rfl }

/-- While no call fails the two programs stay at the same point. -/
theorem matches_resume (h : Matches s t) (hc : First.pending s ≠ none) (hok : a ≠ none) :
    Matches (First.resume s a).1 (resume t a).1 := by
  obtain ⟨r, rfl⟩ := Option.ne_none_iff_exists'.mp hok
  obtain ⟨hpc, hholds⟩ := h
  rcases s with ⟨pc, l⟩
  rcases t with ⟨pc', m⟩
  change pc = pc'.first m at hpc
  change Holds l m pc' at hholds
  subst hpc
  cases pc' with
  | kbc8c4c => exact ⟨rfl, { hholds.1.read r with ramId := rfl }, hholds.2⟩
  | kbc8c90 =>
      have hstored : Agree
          { l with resp := r, ctx := { l.ctx with ramSver := r.1, ramTver := r.2 } }
          { m with reData := r, gRamSVer := r.1, gRamTVer := r.2 } :=
        { hholds.1.read r with }
      exact matches_block8d04 hstored hholds.2
  | kbc8d68 => exact matches_block8d6c (hholds.1.read r) hholds.2
  | kbc8da0 => exact matches_block8da4 (hholds.1.read r) hholds.2.1 hholds.2.2
  | kbc8e54 =>
      obtain ⟨hagree, hwanted, hbase, hleft⟩ := hholds
      exact matches_block8e58 hagree hwanted hbase hleft
  | kbc8eb8 | kbc9248 => exact matches_block9254 hholds
  | kbc8f10 | kbc8f8c => exact ⟨rfl, hholds⟩
  | kbc8f34 => exact matches_block8f38 (hholds.read r)
  | kbc8fc0 => exact matches_block8fc4 (hholds.read r)
  | kbc91e4 =>
      obtain ⟨hstreaming, hle, hodd⟩ := hholds
      have hnext : Streaming l { m with fp16 := m.fp16 + 1 } := { hstreaming with }
      have hi : m.fp16 + 1 = m.fp16 - 1 + 2 := by omega
      exact matches_block91f4 hnext hi (by omega)
  | kbc92ac =>
      refine ⟨rfl, hholds.send ?_⟩
      have hota := hholds.otaMode
      have hsd := hholds.sdMode
      simp only [hota, hsd]
  | kbc9328 => exact ⟨rfl, trivial⟩
  | exited rc | sigfpe => simp [First.pending, Pc.first] at hc

/-- At the same point they make the same call. -/
theorem matches_pending (h : Matches s t) : First.pending s = pending t := by
  obtain ⟨hpc, hholds⟩ := h
  rcases s with ⟨pc, l⟩
  rcases t with ⟨pc', m⟩
  change pc = pc'.first m at hpc
  change Holds l m pc' at hholds
  subst hpc
  cases pc' with
  | exited rc | sigfpe => rfl
  | kbc8c4c | kbc8c90 | kbc8d68 | kbc8da0 | kbc8e54 =>
      have hio : l.io = m.sendData := hholds.1.io
      simp only [First.pending, pending, Pc.first, hio]
      rfl
  | kbc91e4 =>
      have hio : l.io = m.sendData := hholds.1.io
      simp only [First.pending, pending, Pc.first, hio]
      rfl
  | _ =>
      have hio : l.io = m.sendData := hholds.io
      simp only [First.pending, pending, Pc.first, hio]
      rfl

end Step

theorem flag_iff (b : Bool) : b = true ↔ flag b ≠ 0#8 := by
  cases b <;> simp [flag]

/-- The first implementation and the original run in lock step. -/
theorem lockStep (opts : First.Options) (img : Image) (stack : Slots) :
    LockStep (First.main opts img) (main opts img stack) id (· ≠ none) Matches where
  start := by
    -- Of the frame only the stream has been stored into yet.
    refine ⟨rfl, ?_, rfl⟩
    exact ⟨rfl, flag_iff _, flag_iff _, flag_iff _, flag_iff _, rfl, rfl, rfl, rfl, rfl, rfl, rfl,
      by simp [First.main, main, First.openRom, openRom, First.goto, goto]⟩
  pending := fun _ _ h => congrArg (Option.map id) (matches_pending h)
  resume := fun _ _ _ h hc hok => matches_resume h hc hok

/-- The exits correspond. -/
theorem exited_iff {s : First.State} {t : State} (h : Matches s t) (rc : Nat) :
    s.pc = .returned rc ↔ t.pc = .exited rc := by
  rw [h.pc]
  cases t.pc <;> simp [Pc.first]

/-- While no call fails the two programs make the same calls, wait on the same
call or have both stopped, and return the same. -/
theorem refines (opts : First.Options) (img : Image) (stack : Slots) (as : List Transfer)
    (hok : ∀ a ∈ as, a ≠ none) :
    calls ((First.main opts img).run as).trace = calls ((main opts img stack).run as).trace ∧
      First.pending ((First.main opts img).run as).state =
        pending ((main opts img stack).run as).state ∧
      ∀ rc, ((First.main opts img).run as).state.pc = .returned rc ↔
        ((main opts img stack).run as).state.pc = .exited rc := by
  have hmatches := (lockStep opts img stack).state as hok
  exact ⟨LockStep.calls_eq (h := lockStep opts img stack) as hok, matches_pending hmatches,
    exited_iff hmatches⟩

/-- What the frame might hold. -/
def sampleSlots (img : Image) : Slots :=
  ⟨7, 0xBEEF#32, 0xBEEF#32, 0xBEEF#32, ⟨img, 0⟩, 0x55#8, 1#8⟩

/-- Two blocks over a file that passes the guard. -/
theorem refines_sample :
    let as := First.handshakeReplies 0x80#8 0#8 0#8 ++ First.pollAndBlock 1#8 ++
      First.pollAndBlock 1#8
    let first := (First.main (First.sampleOptions false) First.sampleImage).run as
    let original := (main (First.sampleOptions false) First.sampleImage
      (sampleSlots First.sampleImage)).run as
    (∀ a ∈ as, a ≠ none) ∧
      calls first.trace = calls original.trace ∧
      First.pending first.state = pending original.state ∧
      ∀ rc, first.state.pc = .returned rc ↔ original.state.pc = .exited rc :=
  have hok : ∀ a ∈ First.handshakeReplies 0x80#8 0#8 0#8 ++ First.pollAndBlock 1#8 ++
      First.pollAndBlock 1#8, a ≠ none := by
    simp [First.handshakeReplies, First.pollAndBlock]
  ⟨hok, refines _ _ _ _ hok⟩

end Original
end EcFlash
