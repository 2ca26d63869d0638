import EcFlash.First.Delivery
import EcFlash.Second.Agreement

/-!
# What the second implementation delivers

The receiver cannot tell the two implementations apart, except for the data: it
expects the same blocks at the same moments.  The second one takes them from the file
by the low byte of its counter, so from the 257th block on the receiver stores the
first 8 KiB of the area again, with checksums that are right.
-/

namespace EcFlash
namespace Second

open Reactive

/-- Where the second implementation takes the byte for `pos` from. -/
def sourceOffset (start pos : Nat) : Nat :=
  start + (pos - start) % 0x2000

/-- The receivers of the two runs differ in the data only. -/
structure Twins (img : Image) (cfg : First.Moment) (cfg' : Moment) : Prop where
  offset : (received (exchanges cfg'.trace)).offset = (received (exchanges cfg.trace)).offset
  fresh : (received (exchanges cfg'.trace)).fresh = (received (exchanges cfg.trace)).fresh
  words : cfg.state.pc.looping = true → (received (exchanges cfg'.trace)).words =
    (dataWords cfg'.state.vars.gDataArray).take cfg.state.pc.round
  flash : ∀ pos, (received (exchanges cfg'.trace)).flash pos =
    ((received (exchanges cfg.trace)).flash pos).map fun _ =>
      store (img.getc (sourceOffset (First.startOffset cfg.state.vars).toNat pos))

section Step

variable {opts : First.Options} {img : Image} {cfg : First.Moment} {cfg' : Moment} {c c' : Call}

/-- A payload that does not come from the file is the same in both programs. -/
theorem payload_eq (h : Matches cfg.state cfg'.state) (hc : First.pending cfg.state = some c)
    (hc' : pending cfg'.state = some c') (hsends : cfg'.state.pc.sends = true) :
    (c'.io0, c'.io1) = (c.io0, c.io1) := by
  have hio := h.io hsends
  have hpc := h.pc
  rcases hs : cfg.state with ⟨pc, l⟩
  rcases ht : cfg'.state with ⟨pc', l'⟩
  rw [hs] at hc hpc hio
  rw [ht] at hc' hpc hio hsends
  change pc = pc'.first at hpc
  change l.io = l'.gSendData at hio
  subst hpc
  cases pc' with
  | setPhase | setOffset | rejumpPhase | rejumpOffset | finalPhase | rebootMode =>
      simp only [pending, First.pending, Pc.first, Option.some.injEq] at hc hc'
      rw [← hc, ← hc', hio]
  | _ => simp [Pc.sends] at hsends

/-- The commands of two matching calls are the same. -/
theorem cmd_eq (h : Matches cfg.state cfg'.state) (hc : First.pending cfg.state = some c)
    (hc' : pending cfg'.state = some c') : c'.cmd = c.cmd := by
  have hcontrol := matches_pending h
  rw [hc, hc', Option.map_some, Option.map_some, Option.some.injEq] at hcontrol
  have hfst (d : Call) : (control d).1 = d.cmd := by
    unfold control
    split <;> rfl
  rw [← hfst c', ← hcontrol, hfst]

/-- What has been stored keeps its source: once something is stored, the start offset
is fixed. -/
theorem flash_source (hdelivering : First.Delivering img cfg) (h : Twins img cfg cfg')
    (a : Transfer)
    (pos : Nat) : (received (exchanges cfg'.trace)).flash pos =
      ((received (exchanges cfg.trace)).flash pos).map fun _ =>
        store (img.getc (sourceOffset
          (First.startOffset (First.resume cfg.state a).1.vars).toNat pos)) := by
  cases hearly : cfg.state.pc.early with
  | false => rw [h.flash, First.resume_startOffset hearly]
  | true =>
      rw [h.flash, hdelivering.opening (First.handshake_of_early hearly)]
      rfl

/-- A call that the two receivers take alike and that stores nothing. -/
theorem twins_of_alike (hdelivering : First.Delivering img cfg) (h : Twins img cfg cfg')
    {r : Byte × Byte} (f : Receiver → Receiver)
    (hreceived : (received (exchanges cfg.trace)).receive (c, some r) =
      f (received (exchanges cfg.trace)))
    (hreceived' : (received (exchanges cfg'.trace)).receive (c', some r) =
      f (received (exchanges cfg'.trace)))
    (hoffset : (f (received (exchanges cfg'.trace))).offset =
      (f (received (exchanges cfg.trace))).offset)
    (hfresh : (f (received (exchanges cfg'.trace))).fresh =
      (f (received (exchanges cfg.trace))).fresh)
    (hflash : ∀ r, (f r).flash = r.flash)
    (hwords : (First.resume cfg.state (some r)).1.pc.looping = true →
      (f (received (exchanges cfg'.trace))).words = [])
    (hround : (First.resume cfg.state (some r)).1.pc.round = 0) :
    Twins img ((First.main opts img).answer cfg c (some r))
      ((main opts img).answer cfg' c' (some r)) := by
  constructor
  · rw [received_answer, received_answer, hreceived, hreceived', hoffset]
  · rw [received_answer, received_answer, hreceived, hreceived', hfresh]
  · intro hlooping
    rw [received_answer, hreceived', hwords hlooping]
    show [] = List.take (First.resume cfg.state (some r)).1.pc.round _
    rw [hround, List.take_zero]
  · intro pos
    rw [received_answer, received_answer, hreceived, hreceived', hflash, hflash]
    exact flash_source hdelivering h (some r) pos

/-- An announcement, of the start or the base offset. -/
theorem twins_of_announce (hdelivering : First.Delivering img cfg) (h : Twins img cfg cfg')
    (hmatches : Matches cfg.state cfg'.state) (hc : First.pending cfg.state = some c)
    (hc' : pending cfg'.state = some c') (r : Byte × Byte)
    (hpc : cfg.state.pc = .setOffset ∨ cfg.state.pc = .rejumpOffset) :
    Twins img ((First.main opts img).answer cfg c (some r))
      ((main opts img).answer cfg' c' (some r)) := by
  have hcmd : c.cmd = cmdSetOffset := by
    rw [First.pending_cmd hc]
    rcases hpc with hpc | hpc <;> rw [hpc] <;> rfl
  have hpayload := payload_eq hmatches hc hc' (by
    have hfirst := hmatches.pc
    cases hpc' : cfg'.state.pc <;> simp_all [Pc.first, Pc.sends])
  obtain ⟨hlo, hhi⟩ := Prod.mk.inj hpayload
  have hnone : (First.resume cfg.state (some r)).1.pc.streaming = false :=
    First.resume_streaming (by rcases hpc with hpc | hpc <;> simp [hpc])
      (by rcases hpc with hpc | hpc <;> simp [hpc]) _
  refine twins_of_alike hdelivering h (fun e => e.announce c.io0 c.io1)
    (receive_setOffset hcmd) ?_ rfl rfl (fun _ => rfl) (fun _ => rfl)
    (First.round_of_streaming hnone)
  rw [receive_setOffset ((cmd_eq hmatches hc hc').trans hcmd), hlo, hhi]

/-- A poll. -/
theorem twins_of_poll (hdelivering : First.Delivering img cfg) (h : Twins img cfg cfg')
    (hmatches : Matches cfg.state cfg'.state) (hc : First.pending cfg.state = some c)
    (hc' : pending cfg'.state = some c') (r : Byte × Byte) (hpoll : cfg.state.pc = .poll) :
    Twins img ((First.main opts img).answer cfg c (some r))
      ((main opts img).answer cfg' c' (some r)) := by
  have hcmd := First.cmd_of_poll hc hpoll
  have hround : (First.resume cfg.state (some r)).1.pc.round = 0 := by
    by_cases hstreaming : (First.resume cfg.state (some r)).1.pc.streaming = true
    · simp only [First.resume, hpoll, First.onRead, First.afterPoll]
      split <;> [split; skip]
      · rfl
      · rfl
      · exact First.round_of_streaming (First.loopHead_streaming _)
    · exact First.round_of_streaming (by simpa using hstreaming)
  refine twins_of_alike hdelivering h (fun e => e.poll r.1) (receive_poll hcmd)
    (receive_poll ((cmd_eq hmatches hc hc').trans hcmd)) ?_ ?_ ?_ ?_ hround
  · rw [offset_poll, offset_poll, h.offset, h.fresh]
  · rw [fresh_poll, fresh_poll, h.fresh]
  · exact fun e => flash_poll e r.1
  · exact fun _ => words_poll _ _

/-- A command without a meaning to the receiver. -/
theorem twins_of_other (hdelivering : First.Delivering img cfg) (h : Twins img cfg cfg')
    (hmatches : Matches cfg.state cfg'.state) (hc : First.pending cfg.state = some c)
    (hc' : pending cfg'.state = some c') (r : Byte × Byte)
    (hstreaming : cfg.state.pc.streaming = false) (hset : cfg.state.pc ≠ .setOffset)
    (hrejump : cfg.state.pc ≠ .rejumpOffset) (hpoll : cfg.state.pc ≠ .poll) :
    Twins img ((First.main opts img).answer cfg c (some r))
      ((main opts img).answer cfg' c' (some r)) := by
  have hcmd := First.pending_cmd hc
  have hother : c.cmd ≠ cmdSetOffset ∧ c.cmd ≠ cmdPollProgress ∧ c.cmd ≠ cmdStreamData := by
    rw [hcmd]
    cases hpc : cfg.state.pc <;>
      simp_all [First.Pc.streaming, First.pending, First.Pc.command] <;> decide
  have hsame := cmd_eq hmatches hc hc'
  have hnone : (First.resume cfg.state (some r)).1.pc.streaming = false :=
    First.resume_streaming hpoll (fun i hpc => by simp [hpc, First.Pc.streaming] at hstreaming) _
  refine twins_of_alike hdelivering h id
    (receive_other hother.1 hother.2.1 hother.2.2 _)
    (receive_other (hsame ▸ hother.1) (hsame ▸ hother.2.1) (hsame ▸ hother.2.2) _)
    h.offset h.fresh (fun _ => rfl) ?_ (First.round_of_streaming hnone)
  intro hnext
  have hlooping := (First.looping_of_resume hnext).resolve_right hset
  show (received (exchanges cfg'.trace)).words = []
  rw [h.words hlooping, First.round_of_streaming hstreaming, List.take_zero]

/-- A data word. -/
theorem twins_of_word (hsending : Sending img cfg'.state) (hdelivering : First.Delivering img cfg)
    (h : Twins img cfg cfg') (hmatches : Matches cfg.state cfg'.state)
    (hc : First.pending cfg.state = some c) (hc' : pending cfg'.state = some c')
    (r : Byte × Byte) {i : Nat} (hpc : cfg.state.pc = .streamWord i) :
    Twins img ((First.main opts img).answer cfg c (some r))
      ((main opts img).answer cfg' c' (some r)) := by
  have hstreaming : cfg.state.pc.streaming = true := by simp [hpc, First.Pc.streaming]
  have hlooping := First.looping_of_streaming hstreaming
  have hpc' : cfg'.state.pc = .writeData i := first_injective (hmatches.pc.symm.trans hpc)
  obtain ⟨hlt, heven, hdata⟩ := hsending.word i hpc'
  have hcmd := First.cmd_of_streaming hc hstreaming
  have hround : cfg.state.pc.round = i / 2 := by simp [hpc, First.Pc.round]
  have hwords := hdelivering.words hlooping
  have hwords' := h.words hlooping
  rw [hround] at hwords hwords'
  have hlength : (received (exchanges cfg.trace)).words.length = i / 2 := by
    rw [hwords, List.length_take, length_dataWords]
    omega
  have hlength' : (received (exchanges cfg'.trace)).words.length = i / 2 := by
    rw [hwords', List.length_take, length_dataWords]
    omega
  have hword : (dataWords cfg'.state.vars.gDataArray)[i / 2]? = some (c'.io0, c'.io1) := by
    have hi : 2 * (i / 2) = i := by omega
    rw [payload_of_streaming hc' (hmatches.pc ▸ hstreaming), hdata]
    simp [dataWords, List.getElem?_range (show i / 2 < 16 by omega), hi]
  have hreceived : (received (exchanges cfg.trace)).receive (c, some r) =
      { received (exchanges cfg.trace) with
        words := (received (exchanges cfg.trace)).words ++ [(c.io0, c.io1)] } := by
    rw [receive_streamData hcmd, take_word (by omega)]
  have hreceived' : (received (exchanges cfg'.trace)).receive (c', some r) =
      { received (exchanges cfg'.trace) with
        words := (dataWords cfg'.state.vars.gDataArray).take (i / 2 + 1) } := by
    rw [receive_streamData ((cmd_eq hmatches hc hc').trans hcmd), take_word (by omega), hwords',
      List.take_add_one, hword, Option.toList_some]
  constructor
  · rw [received_answer, received_answer, hreceived, hreceived']
    exact h.offset
  · rw [received_answer, received_answer, hreceived, hreceived']
    exact h.fresh
  · intro _
    have hnext : (First.resume cfg.state (some r)).1.pc.round = i / 2 + 1 := by
      simp only [First.resume, hpc, First.onWrite, First.streamFrom]
      split <;> simp only [First.goto, First.Pc.round] <;> omega
    have hbuffer : (resume cfg'.state (some r)).1.vars.gDataArray =
        cfg'.state.vars.gDataArray := by
      simp only [resume, hpc', onWrite, sendFrom]
      split <;> rfl
    rw [received_answer, hreceived']
    show _ = List.take (First.resume cfg.state (some r)).1.pc.round
      (dataWords (resume cfg'.state (some r)).1.vars.gDataArray)
    rw [hnext, hbuffer]
  · intro pos
    rw [received_answer, received_answer, hreceived, hreceived']
    exact flash_source hdelivering h (some r) pos

/-- The trailer: both receivers store a block at the place of the same block, and in
the second run it is the block that the low byte of the counter selects. -/
theorem twins_of_trailer (hinv : First.Inv opts img (exchanges cfg.trace) cfg.state)
    (hmeasured : First.Measured (exchanges cfg.trace) cfg.state.vars)
    (hsending : Sending img cfg'.state) (hdelivering : First.Delivering img cfg)
    (h : Twins img cfg cfg') (hmatches : Matches cfg.state cfg'.state)
    (hc : First.pending cfg.state = some c) (hc' : pending cfg'.state = some c')
    (r : Byte × Byte) (hpc : cfg.state.pc = .streamTrailer) :
    Twins img ((First.main opts img).answer cfg c (some r))
      ((main opts img).answer cfg' c' (some r)) := by
  have hstreaming : cfg.state.pc.streaming = true := by simp [hpc, First.Pc.streaming]
  have hlooping := First.looping_of_streaming hstreaming
  have hpc' : cfg'.state.pc = .writeTrailer := first_injective (hmatches.pc.symm.trans hpc)
  have hstreaming' : cfg'.state.pc.first.streaming = true := hmatches.pc ▸ hstreaming
  have htracked := hinv.tracked_of_streaming hstreaming
  have hlength' := length_gDataArray hsending hstreaming'
  have hcmd := First.cmd_of_streaming hc hstreaming
  have hreceived := First.receive_trailer hinv hdelivering hc r hpc
  have hreceived' : (received (exchanges cfg'.trace)).receive (c', some r) =
      (received (exchanges cfg'.trace)).stored cfg'.state.vars.gDataArray := by
    have hwords : (received (exchanges cfg'.trace)).words =
        dataWords cfg'.state.vars.gDataArray := by
      rw [h.words hlooping, hpc]
      exact List.take_of_length_le (by simp [First.Pc.round])
    rw [receive_streamData ((cmd_eq hmatches hc hc').trans hcmd),
      payload_of_streaming hc' hstreaming',
      hsending.trailer hpc', crc8Calculator_eq,
      take_trailer (by rw [hwords, wordBytes_dataWords hlength']) (by simp [hwords])]
  have hresume : First.resume cfg.state (some r) = First.loopHead cfg.state.vars := by
    simp only [First.resume, hpc, First.onWrite]
  constructor
  · rw [received_answer, received_answer, hreceived, hreceived']
    exact h.offset
  · rw [received_answer, received_answer, hreceived, hreceived']
    exact h.fresh
  · intro _
    rw [received_answer, hreceived']
    show [] = List.take (First.resume cfg.state (some r)).1.pc.round _
    rw [hresume, First.round_of_streaming (First.loopHead_streaming _), List.take_zero]
  · intro pos
    have hquiet := flash_source hdelivering h (some r) pos
    have hoffset := hdelivering.offset_of_streaming hstreaming
    have hstart : First.startOffset (First.resume cfg.state (some r)).1.vars =
        First.startOffset cfg.state.vars :=
      First.resume_startOffset (by simp [hpc, First.Pc.early]) _
    have hoff := First.toNat_blockOffset htracked hmeasured
    have hoff' : (blockOffset cfg'.state.vars).toNat =
        (First.startOffset cfg.state.vars).toNat + 32 * (cfg.state.vars.temp.toNat % 256) := by
      rw [blockOffset_toNat, startOffset_toNat hmatches, ← hmatches.vars.temp,
        BitVec.toNat_setWidth]
    have hboth : (received (exchanges cfg'.trace)).offset = First.blockOffset cfg.state.vars :=
      h.offset.trans hoffset
    rw [received_answer, received_answer, hreceived, hreceived', Receiver.stored, Receiver.stored,
      hoffset, hboth, hsending.loaded hstreaming', hinv.loaded hstreaming]
    show storeBytes _ _ _ pos = Option.map _ (storeBytes _ _ _ pos)
    by_cases hin : (First.blockOffset cfg.state.vars).toNat ≤ pos ∧
        pos < (First.blockOffset cfg.state.vars).toNat + 32
    · rw [storeBytes_block img _ _ hin, storeBytes_block img _ _ hin, Option.map_some, hoff',
        Option.some.injEq]
      show _ = store (img.getc (sourceOffset
        (First.startOffset (First.resume cfg.state (some r)).1.vars).toNat pos))
      rw [hstart, sourceOffset]
      congr 2
      omega
    · rw [storeBytes_of_not_mem (by rwa [Image.length_block]),
        storeBytes_of_not_mem (by rwa [Image.length_block])]
      exact hquiet

/-- One answered call keeps the two receivers together. -/
theorem twins_answer (hinv : First.Inv opts img (exchanges cfg.trace) cfg.state)
    (hmeasured : cfg.state.pc.chosen = true →
      First.Measured (exchanges cfg.trace) cfg.state.vars)
    (hsending : Sending img cfg'.state) (hdelivering : First.Delivering img cfg)
    (h : Twins img cfg cfg') (hmatches : Matches cfg.state cfg'.state)
    (hc : First.pending cfg.state = some c) (hc' : pending cfg'.state = some c')
    (r : Byte × Byte) : Twins img ((First.main opts img).answer cfg c (some r))
      ((main opts img).answer cfg' c' (some r)) := by
  cases hpc : cfg.state.pc with
  | setOffset | rejumpOffset =>
      exact twins_of_announce hdelivering h hmatches hc hc' r (by simp [hpc])
  | poll => exact twins_of_poll hdelivering h hmatches hc hc' r hpc
  | streamWord i => exact twins_of_word hsending hdelivering h hmatches hc hc' r hpc
  | streamTrailer =>
      exact twins_of_trailer hinv (hmeasured (by simp [hpc, First.Pc.chosen])) hsending hdelivering
        h hmatches hc hc' r hpc
  | _ =>
      exact twins_of_other hdelivering h hmatches hc hc' r (by simp [hpc, First.Pc.streaming])
        (by simp [hpc]) (by simp [hpc]) (by simp [hpc])

end Step

section Run

variable (opts : First.Options) {img : Image} (hsize : img.size = 0x20000) (as : List Transfer)
  (hok : ∀ a ∈ as, a ≠ none)
include hsize hok

theorem twins_run (hagrees : (First.main opts img).AllSteps First.StepAgrees as) :
    Twins img ((First.main opts img).run as) ((main opts img).run as) := by
  have hpos : 0 < img.size := by omega
  refine ((lockStep opts img).induction
    (I := fun cfg t => (First.Inv opts img (exchanges cfg.trace) cfg.state ∧ First.Paced cfg ∧
      First.Announcing cfg ∧ First.Outcome cfg) ∧
      (cfg.state.pc.chosen = true → First.Measured (exchanges cfg.trace) cfg.state.vars) ∧
      Sending img t)
    (P := fun cfg cfg' => First.Delivering img cfg ∧ Twins img cfg cfg') ?_ ?_ ?_ as hok
    hagrees).2
  · exact fun bs _ => ⟨⟨First.inv_run opts img bs, First.paced_run opts img bs,
      First.announcing_run opts img bs, First.outcome_run opts img bs⟩,
      First.measured_run opts hsize bs, sending_run opts img bs⟩
  · exact ⟨First.delivering_run opts hpos [] (by simp), rfl, rfl, nofun, fun _ => rfl⟩
  · rintro cfg cfg' c c' a ⟨⟨hinv, hpaced, hannouncing, houtcome⟩, hmeasured, hsending⟩ hmatches
      ⟨hdelivering, h⟩ hc hc' ha hstep
    obtain ⟨r, rfl⟩ := Option.ne_none_iff_exists'.mp ha
    exact ⟨First.delivering_answer hinv hpaced hannouncing houtcome hpos hdelivering hc hstep,
      twins_answer hinv hmeasured hsending hdelivering h hmatches hc hc' r⟩

end Run

/-- A byte of the file stays what it is. -/
theorem store_getc (img : Image) (pos : Nat) :
    store (img.getc pos) = (img.byte? pos).getD 0#8 := by
  unfold Image.getc
  cases img.byte? pos with
  | none => rfl
  | some b =>
      have hne : (b.setWidth 32 : Word) ≠ eof := by
        intro h
        have hlt := b.isLt
        have htoNat := congrArg BitVec.toNat h
        rw [BitVec.toNat_setWidth, Nat.mod_eq_of_lt (by omega)] at htoNat
        simp [eof] at htoNat
        omega
      show store (b.setWidth 32) = b
      rw [store, if_neg hne]
      simp

/-- What the receiver has behind a flash that has finished on both sides. -/
theorem flash_shifted (opts : First.Options) {img : Image} (hsize : img.size = 0x20000)
    {as : List Transfer} (hok : ∀ a ∈ as, a ≠ none)
    (hsteps : (First.main opts img).AllSteps First.StepAgrees as)
    (hfinished : First.LoopFinished ((First.main opts img).run as)) {start : Nat}
    (hstart : (First.startOffset ((First.main opts img).run as).state.vars).toNat = start)
    (pos : Nat) :
    (received (exchanges ((main opts img).run as).trace)).flash pos =
      if start ≤ pos ∧ pos < start + 32 * ((0x1C000 - start + 31) / 32) then
        img.byte? (sourceOffset start pos)
      else none := by
  rw [(twins_run opts hsize as hok hsteps).flash,
    First.flash_of_finished opts hsize hsteps hfinished hstart, hstart]
  split
  · rename_i hin
    have hpos : pos < img.size := by omega
    have hsource : sourceOffset start pos < img.size := by
      unfold sourceOffset
      have hle := Nat.mod_le (pos - start) 0x2000
      omega
    rw [store_getc]
    simp [Image.byte?, hpos, hsource]
  · rfl

/-- On the same replies, a finished flash with the second implementation has filled the
same places as one with the first, but from the first 8 KiB of the area over and over. -/
theorem received_shifted (opts : First.Options) (img : Image) (hsize : img.size = 0x20000)
    (as : List Transfer) (hok : ∀ a ∈ as, a ≠ none)
    (hagrees : opts.includeBootloader = false ∨
      (First.main opts img).AllSteps First.StepAgrees as)
    (hfinished : First.LoopFinished ((First.main opts img).run as)) (pos : Nat) :
    let start := (if First.bootBlockIncluded opts
        (exchanges ((First.main opts img).run as).trace) then 0#32
      else First.reportedBaseOffset (exchanges ((First.main opts img).run as).trace)).toNat
    (received (exchanges ((main opts img).run as).trace)).flash pos =
      if start ≤ pos ∧ pos < start + 32 * ((0x1C000 - start + 31) / 32) then
        img.byte? (sourceOffset start pos)
      else none := by
  intro start
  have hsteps : (First.main opts img).AllSteps First.StepAgrees as :=
    hagrees.elim (fun hbbl => First.agrees_of_keptBootBlock hsize hbbl as) id
  have hsettled := First.settled_run opts img as
  apply flash_shifted opts hsize hok hsteps hfinished
  simp [start, First.startOffset, hsettled.baseOffset, hsettled.included]

/-- Calls fail only behind the end of a run that has not failed. -/
theorem run_answered (opts : First.Options) (img : Image) (as : List Transfer)
    (h : ((First.main opts img).run as).state.pc ≠ .returned 1) :
    (First.main opts img).run (as.filter (·.isSome)) = (First.main opts img).run as := by
  induction as using List.reverseRecOn with
  | nil => rfl
  | append_singleton as a ih =>
      rw [List.filter_append, Machine.run_concat]
      rw [Machine.run_concat] at h
      cases hc : (First.main opts img).pending ((First.main opts img).run as).state with
      | none =>
          rw [Machine.step_of_stopped hc] at h ⊢
          have hsame := ih h
          cases a with
          | none => simpa using hsame
          | some r =>
              show (First.main opts img).run (_ ++ [some r]) = _
              rw [Machine.run_concat, hsame, Machine.step_of_stopped hc]
      | some c =>
          rw [Machine.step_of_pending hc] at h ⊢
          cases a with
          | none =>
              refine absurd ?_ h
              rw [First.answer_state, First.resume_none hc]
          | some r =>
              have hsame := ih fun hpc => by
                change First.pending _ = some c at hc
                simp [First.pending, hpc] at hc
              show (First.main opts img).run (_ ++ [some r]) = _
              rw [Machine.run_concat, hsame, Machine.step_of_pending hc]

theorem received_shifted_unaligned :
    ∃ as, (∀ a ∈ as, a ≠ none) ∧
      First.LoopFinished ((First.main (First.sampleOptions false) First.sampleImage).run as) ∧
      ∀ pos,
        let first := (First.main (First.sampleOptions false) First.sampleImage).run as
        let xs := exchanges first.trace
        let start := (if First.bootBlockIncluded (First.sampleOptions false) xs then 0#32
          else First.reportedBaseOffset xs).toNat
        (received (exchanges
          ((main (First.sampleOptions false) First.sampleImage).run as).trace)).flash pos =
          if start ≤ pos ∧ pos < start + 32 * ((0x1C000 - start + 31) / 32) then
            First.sampleImage.byte? (sourceOffset start pos)
          else none := by
  have hsize : First.sampleImage.size = 0x20000 := rfl
  obtain ⟨bs, hgets, hfinished⟩ := First.exists_finished (First.sampleOptions false) hsize _
    (First.getsOn_reads _ hsize 0x80#8 0x10#8 0#8)
  -- The answers that no call was made for do not matter.
  rw [← run_answered _ _ _ fun hpc => by
    simpa [hpc, First.Pc.chosen] using hgets.chosen] at hfinished
  have hok : ∀ a ∈ (First.reads First.sampleImage 0x80#8 0x10#8 0#8 ++ bs).filter (·.isSome),
      a ≠ none := by
    intro a ha
    obtain ⟨-, hsome⟩ := List.mem_filter.mp ha
    exact Option.isSome_iff_ne_none.mp hsome
  exact ⟨_, hok, hfinished, received_shifted _ _ rfl _ hok (.inl rfl) hfinished⟩

end Second
end EcFlash
