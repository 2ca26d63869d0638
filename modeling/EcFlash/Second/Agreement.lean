import EcFlash.First.Coverage
import EcFlash.Second.FailStop
import EcFlash.Second.LockStep

/-!
# Agreement of the two implementations

In lock step the runs differ at most in the data of the blocks, and that in two
ways.  The block counter of the second implementation is a byte, so its block `t`
is the block `t % 256` of the file, and beyond the end of the file it sends
zeroes instead of `0xFF`.  So the runs agree exactly when each block that the EC
asks for reads the same in both ways.
-/

namespace EcFlash
namespace Second

open Reactive

/-- The first `n` bytes of block `t` from `start` on read the same in both
programs. -/
def SameBytes (img : Image) (start : Word) (t n : Nat) : Prop :=
  (img.block First.store 32 (BitVec.ofNat 32 t * First.blockSize + start).toNat).take n =
    (img.block store 32 (start.toNat + 32 * (t % 256))).take n

/-- The blocks that the polls have asked for so far, without the one under way. -/
def completed (xs : Exchanges) (s : First.State) : List Nat :=
  if s.pc.streaming then (blockIndices (pollReplies xs)).dropLast
  else blockIndices (pollReplies xs)

/-- What has been sent of the file reads the same in both programs: all of the
completed blocks, and the words of the current one that have gone out. -/
structure BlocksAgree (img : Image) (start : Word) (xs : Exchanges) (s : First.State) : Prop where
  completed : ∀ t ∈ completed xs s, SameBytes img start t 32
  current : s.pc.streaming = true → SameBytes img start (ackCount xs - 1) (2 * s.pc.round)

/-- What the second program keeps about the block it sends. -/
structure Sending (img : Image) (t : State) : Prop where
  image : t.vars.fp.image = img
  loaded : t.pc.first.streaming = true →
    t.vars.gDataArray = img.block store 32 (blockOffset t.vars).toNat
  word : ∀ i, t.pc = .writeData i → i < 32 ∧ i % 2 = 0 ∧
    t.vars.gSendData = (t.vars.gDataArray.getD i 0#8, t.vars.gDataArray.getD (i + 1) 0#8)
  trailer : t.pc = .writeTrailer →
    t.vars.gSendData = (crc8Calculator t.vars.gDataArray 32, t.vars.temp)

section Sending

variable {img : Image} {t : State} {l : Locals} {c : Call}

/-- The seek never fails: a byte of counter does not reach far. -/
theorem blockOffset_toNat (l : Locals) :
    (blockOffset l).toNat =
      (if l.gBootLoader then 0 else l.flashBase.toNat) + 32 * l.temp.toNat := by
  have htemp := l.temp.isLt
  have hbase := l.flashBase.isLt
  unfold blockOffset
  cases l.gBootLoader <;>
    simp only [Bool.not_false, Bool.not_true, Bool.false_eq_true, if_true, if_false,
      BitVec.toNat_add, BitVec.toNat_mul, BitVec.toNat_setWidth, blockSize, BitVec.toNat_ofNat] <;>
    omega

theorem loadBlock_spec (himage : l.fp.image = img) :
    (loadBlock l).gDataArray = img.block store 32 (blockOffset l).toNat := by
  have hoff := blockOffset_toNat l
  have htemp := l.temp.isLt
  have hbase := l.flashBase.isLt
  have hlt : (blockOffset l).toNat < 2 ^ 31 := by
    split at hoff <;> omega
  simp only [loadBlock]
  rw [CFile.fill_fst, CFile.fseek_image, himage, CFile.fseek_pos_of_lt hlt]

/-- A point at which no block is sent. -/
theorem sending_of_quiet (himage : t.vars.fp.image = img)
    (hquiet : t.pc.first.streaming = false) : Sending img t := by
  refine ⟨himage, by simp [hquiet], ?_, ?_⟩
  · intro i hpc
    simp [hpc, Pc.first, First.Pc.streaming] at hquiet
  · intro hpc
    simp [hpc, Pc.first, First.Pc.streaming] at hquiet

theorem sending_afterLoop (himage : l.fp.image = img) : Sending img (afterLoop l).1 :=
  sending_of_quiet himage rfl

theorem sending_loopHead (himage : l.fp.image = img) : Sending img (loopHead l).1 := by
  unfold loopHead
  split
  · split <;> exact sending_of_quiet himage rfl
  · exact sending_afterLoop himage

theorem sending_trailer (himage : l.fp.image = img)
    (hloaded : l.gDataArray = img.block store 32 (blockOffset l).toNat) :
    Sending img (sendTrailer l).1 :=
  ⟨himage, fun _ => hloaded, nofun, fun _ => rfl⟩

theorem sending_sendFrom (himage : l.fp.image = img)
    (hloaded : l.gDataArray = img.block store 32 (blockOffset l).toNat) (i : Nat)
    (hi : i % 2 = 0) : Sending img (sendFrom i l).1 := by
  unfold sendFrom
  split
  · rename_i hlt
    refine ⟨himage, fun _ => hloaded, fun j hj => ?_, nofun⟩
    obtain rfl : i = j := Pc.writeData.inj hj
    exact ⟨hlt, hi, rfl⟩
  · exact sending_trailer himage hloaded

theorem advance_fp (l : Locals) : (advance l).fp = l.fp := by
  unfold advance
  split <;> rfl

/-- One answered call, failed or not, keeps what is known about the block. -/
theorem sending_resume (h : Sending img t) (a : Transfer) : Sending img (resume t a).1 := by
  obtain ⟨himage, hloaded, hword, -⟩ := h
  rcases t with ⟨pc, l⟩
  change l.fp.image = img at himage
  cases pc with
  | getIdMainVer | getFlashBase | setPhase =>
      cases a <;> exact sending_of_quiet himage rfl
  | getSubTestVer =>
      cases a with
      | none => exact sending_of_quiet himage rfl
      | some r =>
          simp only [resume, onRead, afterSubTestVer, romGuard]
          split <;> exact sending_of_quiet himage rfl
  | getBootStatus =>
      cases a with
      | none => exact sending_of_quiet himage rfl
      | some r =>
          simp only [resume, onRead, afterBootStatus, choosePhase]
          split <;> split <;> exact sending_of_quiet himage rfl
  | setOffset =>
      cases a with
      | none => exact sending_of_quiet himage rfl
      | some r =>
          show Sending img (loopHead l).1
          exact sending_loopHead himage
  | rejumpPhase | rejumpOffset | finalPhase | rebootMode =>
      cases a <;> exact sending_of_quiet himage rfl
  | rejumpStatus =>
      cases a with
      | none => exact sending_of_quiet himage rfl
      | some r =>
          simp only [resume, onRead, afterJump]
          split <;> exact sending_of_quiet himage rfl
  | pollProgress =>
      cases a with
      | none => exact sending_of_quiet himage rfl
      | some r =>
          simp only [resume, onRead, afterPoll]
          split
          · split
            · exact sending_of_quiet himage rfl
            · have himage' : (advance { l with reData := r }).fp.image = img := by
                rw [advance_fp]
                exact himage
              exact sending_sendFrom (l := loadBlock (advance { l with reData := r }))
                (by simpa [loadBlock] using himage') (loadBlock_spec himage') 0 rfl
          · exact sending_loopHead himage
  | writeData i =>
      cases a with
      -- A `break` out of the word loop: the trailer of the same block follows.
      | none =>
          show Sending img (sendTrailer l).1
          exact sending_trailer himage (hloaded rfl)
      | some r =>
          obtain ⟨-, heven, -⟩ := hword i rfl
          show Sending img (sendFrom (i + 2) l).1
          exact sending_sendFrom himage (hloaded rfl) (i + 2) (by omega)
  | writeTrailer =>
      cases a with
      | none =>
          show Sending img (afterLoop l).1
          exact sending_afterLoop himage
      | some r =>
          show Sending img (loopHead l).1
          exact sending_loopHead himage
  | returned rc | sigfpe => exact sending_of_quiet himage rfl

theorem sending_run (opts : First.Options) (img : Image) (as : List Transfer) :
    Sending img ((main opts img).run as).state := by
  refine Machine.run_invariant (P := fun cfg : Moment => Sending img cfg.state) ?_ ?_ as
  · exact sending_of_quiet rfl rfl
  · intro cfg c a h _
    exact sending_resume h a

/-- The checksum of the second program is the one of the first. -/
theorem crc8Calculator_eq (buf : List Byte) (len : Nat) :
    crc8Calculator buf len = EcFlash.crc8Calculator buf len := by
  have hbits : crc8Bits 8 = EcFlash.crc8Bits 8 := by
    have hrounds (n : Nat) (crc d : Byte) : crc8Bits n crc d = EcFlash.crc8Bits n crc d := by
      induction n generalizing crc d with
      | zero => rfl
      | succ n ih => exact ih _ _
    funext crc d
    exact hrounds 8 crc d
  unfold crc8Calculator EcFlash.crc8Calculator
  rw [hbits]

/-- The call of a block in progress carries the send buffer. -/
theorem payload_of_streaming (hc : pending t = some c)
    (hstreaming : t.pc.first.streaming = true) : (c.io0, c.io1) = t.vars.gSendData := by
  rcases t with ⟨pc, l⟩
  cases pc with
  | writeData i | writeTrailer =>
      simp only [pending, Option.some.injEq] at hc
      rw [← hc]
  | _ => simp [Pc.first, First.Pc.streaming] at hstreaming

end Sending

section Joint

variable {opts : First.Options} {img : Image} {xs : Exchanges} {s : First.State} {t : State}
  {c c' : Call} {a : Transfer}

/-- The start offset as the second program keeps it. -/
theorem startOffset_toNat (h : Matches s t) :
    (First.startOffset s.vars).toNat = if t.vars.gBootLoader then 0 else t.vars.flashBase.toNat := by
  unfold First.startOffset
  rw [h.vars.included, h.vars.baseOffset]
  split
  · rfl
  · rw [BitVec.toNat_setWidth]
    have := t.vars.flashBase.isLt
    omega

/-- The two buffers in terms of the block that the replies `1` count. -/
theorem sameBytes_iff (hinv : First.Inv opts img xs s) (hsending : Sending img t)
    (h : Matches s t) (hstreaming : s.pc.streaming = true) (n : Nat) :
    SameBytes img (First.startOffset s.vars) (ackCount xs - 1) n ↔
      s.vars.dataBlock.take n = t.vars.gDataArray.take n := by
  have htracked := hinv.tracked_of_streaming hstreaming
  have hfirst : s.vars.dataBlock = img.block First.store 32
      (BitVec.ofNat 32 (ackCount xs - 1) * First.blockSize + First.startOffset s.vars).toNat := by
    have hloaded := hinv.loaded hstreaming
    unfold First.Loaded at hloaded
    rw [hloaded, First.blockOffset_eq, htracked.temp]
  have hsecond : t.vars.gDataArray = img.block store 32
      ((First.startOffset s.vars).toNat + 32 * ((ackCount xs - 1) % 256)) := by
    have htemp : t.vars.temp.toNat = (ackCount xs - 1) % 256 := by
      rw [← h.vars.temp, htracked.temp, BitVec.toNat_setWidth, BitVec.toNat_ofNat]
      omega
    rw [hsending.loaded (h.pc ▸ hstreaming), blockOffset_toNat, startOffset_toNat h, htemp]
  unfold SameBytes
  rw [← hfirst, ← hsecond]

theorem length_dataBlock (hinv : First.Inv opts img xs s) (hstreaming : s.pc.streaming = true) :
    s.vars.dataBlock.length = 32 := by
  have hloaded := hinv.loaded hstreaming
  unfold First.Loaded at hloaded
  rw [hloaded, Image.length_block]

theorem length_gDataArray (hsending : Sending img t) (hstreaming : t.pc.first.streaming = true) :
    t.vars.gDataArray.length = 32 := by
  rw [hsending.loaded hstreaming, Image.length_block]

/-- Waiting on the same command, the two programs send the same as long as the
words of the file are the same. -/
theorem command_eq_iff (h : Matches s t) (hc : First.pending s = some c)
    (hc' : pending t = some c') :
    command c = command c' ↔ (s.pc.streaming = true → (c.io0, c.io1) = (c'.io0, c'.io1)) := by
  have hcontrol := matches_pending h
  rw [hc, hc', Option.map_some, Option.map_some, Option.some.injEq] at hcontrol
  have hcmd := First.pending_cmd hc
  cases hstreaming : s.pc.streaming with
  | true =>
      -- Both call for data, so only the words can differ.
      have hmode : c.mode = 2 ∧ c'.mode = 2 := by
        have hpc := h.pc
        rcases s with ⟨pc, l⟩
        rcases t with ⟨pc', l'⟩
        cases pc' <;> simp_all [Pc.first, First.Pc.streaming, First.pending, pending] <;>
          simp [← hc, ← hc']
      have hdata : c.cmd = cmdWriteData := by
        rw [hcmd]
        cases hpc : s.pc <;> simp_all [First.Pc.streaming] <;> rfl
      have hdata' : c'.cmd = cmdWriteData := by
        have hfst := congrArg Prod.fst hcontrol
        by_contra hne
        simp [control, command, hdata, hne] at hfst
        exact hne hfst.symm
      simp [command, hmode, hdata, hdata']
  | false =>
      -- The lock step has compared the whole call.
      have hother : c.cmd ≠ cmdWriteData := by
        rw [hcmd]
        exact First.command_ne_stream hstreaming
      have hother' : c'.cmd ≠ cmdWriteData := by
        intro hdata
        have hfst := congrArg Prod.fst hcontrol
        simp only [control, hother, hdata, if_true, if_false, command] at hfst
      simpa [control, hother, hother'] using hcontrol

/-- Two buffers agree in one more word. -/
theorem take_word_iff {d d' : List Byte} (hlen : d.length = 32) (hlen' : d'.length = 32) {i : Nat}
    (hi : i + 1 < 32) :
    d.take (i + 2) = d'.take (i + 2) ↔ d.take i = d'.take i ∧
      (d.getD i 0#8, d.getD (i + 1) 0#8) = (d'.getD i 0#8, d'.getD (i + 1) 0#8) := by
  have hword (e : List Byte) (he : e.length = 32) :
      e.take (i + 2) = e.take i ++ [e.getD i 0#8, e.getD (i + 1) 0#8] := by
    have h0 : i < e.length := by omega
    have h1 : i + 1 < e.length := by omega
    rw [List.take_add_one, List.take_add_one, List.getD_eq_getElem?_getD,
      List.getD_eq_getElem?_getD, List.getElem?_eq_getElem h0, List.getElem?_eq_getElem h1,
      List.append_assoc]
    rfl
  rw [hword d hlen, hword d' hlen']
  constructor
  · intro h
    obtain ⟨htake, htail⟩ := List.append_inj' h rfl
    simp only [List.cons.injEq, and_true] at htail
    exact ⟨htake, Prod.ext htail.1 htail.2⟩
  · rintro ⟨htake, htail⟩
    obtain ⟨h0, h1⟩ := Prod.mk.inj htail
    rw [htake, h0, h1]

/-- What is known of the two runs at the same moment. -/
structure Joint (opts : First.Options) (img : Image) (cfg : First.Moment) (t : State) : Prop where
  inv : First.Inv opts img (exchanges cfg.trace) cfg.state
  paced : First.Paced cfg
  bounded : First.Bounded (exchanges cfg.trace) cfg.state
  selected : First.Selected cfg
  sending : Sending img t
  agree : Matches cfg.state t

/-- The block under way is the one asked for last. -/
theorem asked_eq_of_streaming {cfg : First.Moment} (h : Joint opts img cfg t)
    (hstreaming : cfg.state.pc.streaming = true) :
    blockIndices (pollReplies (exchanges cfg.trace)) =
      (blockIndices (pollReplies (exchanges cfg.trace))).dropLast ++
        [ackCount (exchanges cfg.trace) - 1] := by
  have htracked := h.inv.tracked_of_streaming hstreaming
  have hlast := h.paced.lastSeek_of_streaming hstreaming
  rw [First.lastSeek, h.selected, List.getLast?_map] at hlast
  obtain ⟨t, ht, heq⟩ := Option.map_eq_some_iff.mp hlast
  have hle := le_of_mem_blockIndices (List.mem_of_getLast? ht)
  have hbound := h.bounded.2
  have htemp := congrArg BitVec.toNat (Prod.mk.inj heq).1
  rw [htracked.temp, BitVec.toNat_ofNat, BitVec.toNat_ofNat] at htemp
  unfold ackCount at hbound htemp ⊢
  obtain rfl : t = (pollReplies (exchanges cfg.trace)).count 1#8 - 1 := by omega
  exact (List.dropLast_append_getLast? _ ht).symm

section Answer

variable {cfg : First.Moment} (h : Joint opts img cfg t) (hsize : 0 < img.size)
  (hc : First.pending cfg.state = some c) (hc' : pending t = some c')
include hc

/-- A block that is asked for has not begun to go out. -/
theorem blocksAgree_selects (hpoll : cfg.state.pc = .poll)
    (hfile : cfg.state.vars.ctx.fileSize ≠ 0#32) {r : Byte × Byte} (hr : AsksBlock r.1) :
    BlocksAgree img (First.startOffset (First.resume cfg.state (some r)).1.vars)
        (exchanges cfg.trace ++ [(c, some r)]) (First.resume cfg.state (some r)).1 ↔
      BlocksAgree img (First.startOffset cfg.state.vars) (exchanges cfg.trace) cfg.state := by
  have hpc : (First.resume cfg.state (some r)).1.pc = .streamWord 0 := by
    rw [First.resume_asks hpoll hr hfile]
    rfl
  have hnow : completed (exchanges cfg.trace ++ [(c, some r)])
      (First.resume cfg.state (some r)).1 = completed (exchanges cfg.trace) cfg.state := by
    simp only [completed, hpc, hpoll, First.Pc.streaming]
    rw [First.blockIndices_selects hc hpoll hr]
    simp
  rw [First.resume_startOffset (by simp [hpoll, First.Pc.early])]
  constructor
  · intro hagree
    refine ⟨?_, by simp [hpoll, First.Pc.streaming]⟩
    rw [← hnow]
    exact hagree.completed
  · intro hagree
    refine ⟨by rw [hnow]; exact hagree.completed, fun _ => ?_⟩
    simp [hpc, First.Pc.round, SameBytes]

include h hsize

/-- Between the blocks nothing is compared. -/
theorem blocksAgree_idle (hselects : ¬ First.Selects cfg.state a)
    (hstreaming : cfg.state.pc.streaming = false) :
    BlocksAgree img (First.startOffset (First.resume cfg.state a).1.vars)
        (exchanges cfg.trace ++ [(c, a)]) (First.resume cfg.state a).1 ↔
      BlocksAgree img (First.startOffset cfg.state.vars) (exchanges cfg.trace) cfg.state := by
  have hasked := First.blockIndices_quiet h.inv hsize hc hselects
  have hnext : (First.resume cfg.state a).1.pc.streaming = false := by
    by_contra hnot
    simp [First.streaming_quiet hselects (by simpa using hnot)] at hstreaming
  have hnow : completed (exchanges cfg.trace ++ [(c, a)]) (First.resume cfg.state a).1 =
      completed (exchanges cfg.trace) cfg.state := by
    rw [completed, completed, hnext, hstreaming, hasked]
  -- Before the start offset is settled no block has been asked for.
  have hstart : ∀ n ∈ completed (exchanges cfg.trace) cfg.state,
      First.startOffset (First.resume cfg.state a).1.vars = First.startOffset cfg.state.vars := by
    intro n hn
    cases hearly : cfg.state.pc.early with
    | false => exact First.resume_startOffset hearly a
    | true =>
        have hhand := First.handshake_of_early hearly
        simp [completed, hstreaming, (h.inv.handshake hhand).1] at hn
  constructor
  · intro hagree
    refine ⟨fun n hn => ?_, by simp [hstreaming]⟩
    rw [← hstart n hn]
    exact hagree.completed n (by rwa [hnow])
  · intro hagree
    refine ⟨fun n hn => ?_, by simp [hnext]⟩
    rw [hnow] at hn
    rw [hstart n hn]
    exact hagree.completed n hn

include hc'

/-- One more word of the current block is compared. -/
theorem blocksAgree_word {i : Nat} (hpc : cfg.state.pc = .streamWord i) (r : Byte × Byte) :
    BlocksAgree img (First.startOffset (First.resume cfg.state (some r)).1.vars)
        (exchanges cfg.trace ++ [(c, some r)]) (First.resume cfg.state (some r)).1 ↔
      BlocksAgree img (First.startOffset cfg.state.vars) (exchanges cfg.trace) cfg.state ∧
        (c.io0, c.io1) = (c'.io0, c'.io1) := by
  have hstreaming : cfg.state.pc.streaming = true := by simp [hpc, First.Pc.streaming]
  have hselects : ¬ First.Selects cfg.state (some r) := by
    rintro ⟨hpoll, -⟩
    simp [hpoll] at hpc
  have hasked := First.blockIndices_quiet h.inv hsize hc hselects
  have hacks : ackCount (exchanges cfg.trace ++ [(c, some r)]) = ackCount (exchanges cfg.trace) :=
    First.ackCount_of_ne_poll hc (by simp [hpc]) _
  obtain ⟨hlt, heven, hio⟩ := h.inv.word i hpc
  have hpc' : t.pc = .writeData i := first_injective (h.agree.pc.symm.trans hpc)
  obtain ⟨-, -, hio'⟩ := h.sending.word i hpc'
  have hcall := First.payload_of_streaming hc hstreaming
  have hcall' := payload_of_streaming hc' (h.agree.pc ▸ hstreaming)
  have hnext : (First.resume cfg.state (some r)).1.pc.streaming = true ∧
      2 * (First.resume cfg.state (some r)).1.pc.round = i + 2 := by
    simp only [First.resume, hpc, First.onWrite, First.streamFrom]
    split <;> simp only [First.goto, First.Pc.streaming, First.Pc.round, true_and] <;> omega
  have hnow : completed (exchanges cfg.trace ++ [(c, some r)])
      (First.resume cfg.state (some r)).1 = completed (exchanges cfg.trace) cfg.state := by
    rw [completed, completed, hnext.1, hstreaming, hasked]
  have hround : 2 * cfg.state.pc.round = i := by
    simp only [hpc, First.Pc.round]
    omega
  have hlen : cfg.state.vars.dataBlock.length = 32 := length_dataBlock h.inv hstreaming
  have hlen' : t.vars.gDataArray.length = 32 :=
    length_gDataArray h.sending (h.agree.pc ▸ hstreaming)
  -- The word that goes out is the next one of the two buffers.
  have hword := take_word_iff hlen hlen' (i := i) (by omega)
  have hbytes := sameBytes_iff h.inv h.sending h.agree hstreaming
  rw [← hbytes, ← hbytes, ← hio, ← hio', ← hcall, ← hcall'] at hword
  rw [First.resume_startOffset (by simp [hpc, First.Pc.early])]
  constructor
  · intro hagree
    have hcurrent := hagree.current hnext.1
    rw [hacks, hnext.2, hword] at hcurrent
    refine ⟨⟨by rw [← hnow]; exact hagree.completed, fun _ => ?_⟩, hcurrent.2⟩
    rw [hround]
    exact hcurrent.1
  · rintro ⟨hagree, hcommand⟩
    refine ⟨by rw [hnow]; exact hagree.completed, fun _ => ?_⟩
    have hcurrent := hagree.current hstreaming
    rw [hround] at hcurrent
    rw [hacks, hnext.2, hword]
    exact ⟨hcurrent, hcommand⟩

/-- The trailer completes the current block, and is the same when the block is. -/
theorem blocksAgree_trailer (hpc : cfg.state.pc = .streamTrailer) (r : Byte × Byte) :
    BlocksAgree img (First.startOffset (First.resume cfg.state (some r)).1.vars)
        (exchanges cfg.trace ++ [(c, some r)]) (First.resume cfg.state (some r)).1 ↔
      BlocksAgree img (First.startOffset cfg.state.vars) (exchanges cfg.trace) cfg.state ∧
        (c.io0, c.io1) = (c'.io0, c'.io1) := by
  have hstreaming : cfg.state.pc.streaming = true := by simp [hpc, First.Pc.streaming]
  have hselects : ¬ First.Selects cfg.state (some r) := by
    rintro ⟨hpoll, -⟩
    simp [hpoll] at hpc
  have hasked := First.blockIndices_quiet h.inv hsize hc hselects
  have hlast := asked_eq_of_streaming h hstreaming
  have hresume : First.resume cfg.state (some r) = First.loopHead cfg.state.vars := by
    simp only [First.resume, hpc, First.onWrite]
  have hnext : (First.resume cfg.state (some r)).1.pc.streaming = false := by
    rw [hresume]
    exact First.loopHead_streaming _
  have hpc' : t.pc = .writeTrailer := first_injective (h.agree.pc.symm.trans hpc)
  have hcall := First.payload_of_streaming hc hstreaming
  have hcall' := payload_of_streaming hc' (h.agree.pc ▸ hstreaming)
  have hbytes := sameBytes_iff h.inv h.sending h.agree hstreaming 32
  rw [List.take_of_length_le (Nat.le_of_eq (length_dataBlock h.inv hstreaming)), List.take_of_length_le
    (Nat.le_of_eq (length_gDataArray h.sending (h.agree.pc ▸ hstreaming)))] at hbytes
  rw [First.resume_startOffset (by simp [hpc, First.Pc.early]), hcall, hcall',
    h.inv.trailer hpc, h.sending.trailer hpc', crc8Calculator_eq, h.agree.vars.temp]
  constructor
  · intro hagree
    have hall := hagree.completed
    rw [completed, hnext, hasked] at hall
    -- The block under way is now one of those asked for.
    have hcurrent := hall _ (hlast ▸ List.mem_append_right _ (List.mem_singleton_self _))
    refine ⟨⟨fun n hn => hall n ?_, fun _ => ?_⟩, ?_⟩
    · rw [completed, hstreaming] at hn
      exact (List.dropLast_prefix _).subset hn
    · rw [hpc]
      exact hcurrent
    · rw [hbytes.mp hcurrent]
  · rintro ⟨hagree, -⟩
    have hcurrent := hagree.current hstreaming
    rw [hpc] at hcurrent
    refine ⟨fun n hn => ?_, by simp [hnext]⟩
    rw [completed, hnext, hasked] at hn
    change n ∈ blockIndices _ at hn
    rw [hlast, List.mem_append] at hn
    rcases hn with hn | hn
    · apply hagree.completed
      rw [completed, hstreaming]
      exact hn
    · rw [List.mem_singleton.mp hn]
      exact hcurrent

/-- What an answered call adds is the same in both programs exactly when the
commands of the call are. -/
theorem blocksAgree_answer (ha : a ≠ none) :
    BlocksAgree img (First.startOffset (First.resume cfg.state a).1.vars)
        (exchanges cfg.trace ++ [(c, a)]) (First.resume cfg.state a).1 ↔
      BlocksAgree img (First.startOffset cfg.state.vars) (exchanges cfg.trace) cfg.state ∧
        command c = command c' := by
  rw [command_eq_iff h.agree hc hc']
  by_cases hselects : First.Selects cfg.state a
  · obtain ⟨hpoll, hfile, r, rfl, hr⟩ := hselects
    rw [blocksAgree_selects hc hpoll hfile hr]
    simp [hpoll, First.Pc.streaming]
  · cases hstreaming : cfg.state.pc.streaming with
    | false =>
        rw [blocksAgree_idle h hsize hc hselects hstreaming]
        simp
    | true =>
        obtain ⟨r, rfl⟩ := Option.ne_none_iff_exists'.mp ha
        cases hpc : cfg.state.pc with
        | streamWord i =>
            rw [blocksAgree_word h hsize hc hc' hpc]
            simp
        | streamTrailer =>
            rw [blocksAgree_trailer h hsize hc hc' hpc]
            simp
        | _ => simp [hpc, First.Pc.streaming] at hstreaming

end Answer

end Joint

/-- The commands of a run as the EC sees them. -/
def commands {Out : Type} (tr : List (Event Call Transfer Out)) : List (Byte × Option (Byte × Byte)) :=
  (calls tr).map command

section Run

variable (opts : First.Options) {img : Image} (hsize : 0 < img.size) (as : List Transfer)
  (hok : ∀ a ∈ as, a ≠ none)
include hsize hok

theorem joint_run : Joint opts img ((First.main opts img).run as) ((main opts img).run as).state where
  inv := First.inv_run opts img as
  paced := First.paced_run opts img as
  bounded := First.bounded_run opts img as
  selected := First.selected_run opts hsize as
  sending := sending_run opts img as
  agree := (lockStep opts img).state as hok

/-- The two runs send the same commands exactly when the file reads the same. -/
theorem commands_eq_iff :
    commands ((First.main opts img).run as).trace = commands ((main opts img).run as).trace ↔
      BlocksAgree img (First.startOffset ((First.main opts img).run as).state.vars)
        (exchanges ((First.main opts img).run as).trace) ((First.main opts img).run as).state := by
  refine (lockStep opts img).calls_eq_iff (f := command) (I := Joint opts img)
    (P := fun cfg => BlocksAgree img (First.startOffset cfg.state.vars) (exchanges cfg.trace)
      cfg.state)
    (joint_run opts hsize) ⟨nofun, nofun⟩ ?_ as hok
  intro cfg t c c' a h hc hc' ha
  rw [Machine.exchanges_answer]
  exact blocksAgree_answer h hsize hc hc' ha

end Run

/-- On a non-empty image the two implementations send the same commands, payloads
included, exactly when what has been sent of the file reads the same in both. -/
theorem agreement_iff (opts : First.Options) (img : Image) (hsize : 0 < img.size)
    (as : List Transfer) (hok : ∀ a ∈ as, a ≠ none) :
    commands ((First.main opts img).run as).trace = commands ((main opts img).run as).trace ↔
      BlocksAgree img
        (if First.bootBlockIncluded opts (exchanges ((First.main opts img).run as).trace) then 0#32
          else First.reportedBaseOffset (exchanges ((First.main opts img).run as).trace))
        (exchanges ((First.main opts img).run as).trace) ((First.main opts img).run as).state := by
  have hsettled := First.settled_run opts img as
  rw [commands_eq_iff opts hsize as hok, First.startOffset, hsettled.included,
    hsettled.baseOffset]

/-- Block `1` is sent twice. -/
theorem agreement_iff_resent :
    let as := First.handshakeReplies 0x80#8 0#8 0#8 ++ First.pollAndBlock 1#8 ++
      First.pollAndBlock 1#8 ++ First.pollAndBlock 2#8
    let tr := ((First.main (First.sampleOptions false) First.sampleImage).run as).trace
    (∀ a ∈ as, a ≠ none) ∧
      (commands tr = commands ((main (First.sampleOptions false) First.sampleImage).run as).trace ↔
        BlocksAgree First.sampleImage
          (if First.bootBlockIncluded (First.sampleOptions false) (exchanges tr) then 0#32
            else First.reportedBaseOffset (exchanges tr))
          (exchanges tr) ((First.main (First.sampleOptions false) First.sampleImage).run as).state) :=
  have hok : ∀ a ∈ First.handshakeReplies 0x80#8 0#8 0#8 ++ First.pollAndBlock 1#8 ++
      First.pollAndBlock 1#8 ++ First.pollAndBlock 2#8, a ≠ none := by
    simp [First.handshakeReplies, First.pollAndBlock]
  ⟨hok, agreement_iff _ _ (by decide) _ hok⟩

/-- A file of one byte, which only `-nid` admits. -/
def tinyImage : Image :=
  ⟨1, fun _ => 0x5A#8, by decide⟩

/-- The second byte of the first block is `0xFF` in one run and `0` in the other. -/
theorem agreement_fails :
    ¬ ∀ (opts : First.Options) (img : Image) (as : List Transfer), opts.ignoreNid = true →
      (∀ a ∈ as, a ≠ none) →
      (First.reportedBaseOffset (exchanges ((First.main opts img).run as).trace)).toNat <
        img.size →
      commands ((First.main opts img).run as).trace =
        commands ((main opts img).run as).trace := by
  intro h
  have hsame := h { First.sampleOptions false with ignoreNid := true } tinyImage
    (First.handshakeReplies 0#8 0#8 0#8 ++ [some (0#8, 0#8), some (0#8, 0#8)]) rfl
    (by simp [First.handshakeReplies]) (by decide +kernel)
  exact absurd hsame (by decide +kernel)

end Second
end EcFlash
