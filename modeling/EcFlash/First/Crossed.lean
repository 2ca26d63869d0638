import EcFlash.First.Ending
import EcFlash.Passage

/-!
# What arrives crossed

An EC that takes the payload bytes the other way round starts at the swapped offset and
collects the words swapped.  Its trailer has the checksum where the tag belongs and the
tag where the checksum belongs, so it stores a block only when the swapped block happens
to have its own number as its checksum.  The program cannot tell such a block from one
that was damaged on the way: as long as a truthful EC drops it, it sends it again.
-/

namespace EcFlash
namespace First

open Reactive

/-- A block that is taken although it is crossed. -/
def Accidental (img : Image) (start t : Nat) : Prop :=
  crc8Calculator (swapPairs (img.block store 32 (start + 32 * t))) 32 = BitVec.ofNat 8 t

instance (img : Image) (start t : Nat) : Decidable (Accidental img start t) :=
  inferInstanceAs (Decidable (_ = _))

/-- What of the flash of a receiver arrives crossed. -/
def crossedFlash (img : Image) (start : Nat) (flash : Nat → Option Byte) (pos : Nat) :
    Option Byte :=
  if swapWord start ≤ pos ∧ Accidental img start ((pos - swapWord start) / 32) then
    flash (start + partner (pos - swapWord start))
  else none

/-- The receiver of the crossed payloads beside the one of the calls. -/
structure CrossedAlong (img : Image) (cfg : Moment) : Prop where
  offset : cfg.state.pc.looping = true →
    (received (crossed (exchanges cfg.trace))).offset + startOffset cfg.state.vars =
      (received (exchanges cfg.trace)).offset +
        BitVec.ofNat 32 (swapWord (startOffset cfg.state.vars).toNat)
  flash : (received (crossed (exchanges cfg.trace))).flash =
    crossedFlash img (startOffset cfg.state.vars).toNat (received (exchanges cfg.trace)).flash

/-- The EC reports its base offset in a read, which nobody crosses. -/
theorem reportedBaseOffset_crossed (xs : Exchanges) :
    reportedBaseOffset (crossed xs) = reportedBaseOffset xs := by
  have hreply : firstReply? cmdReadBaseOff (crossed xs) = firstReply? cmdReadBaseOff xs := by
    unfold firstReply? crossed
    rw [List.find?_map]
    show ((xs.find? fun x => x.1.cmd = cmdReadBaseOff).map _).bind _ = _
    cases xs.find? fun x => x.1.cmd = cmdReadBaseOff <;> rfl
  rw [reportedBaseOffset, reportedBaseOffset, hreply]

theorem reportedBaseOffset_of_heardAs {xs ys : Exchanges} (h : List.Forall₂ HeardAs xs ys) :
    reportedBaseOffset xs = reportedBaseOffset ys := by
  have hreply : firstReply? cmdReadBaseOff xs = firstReply? cmdReadBaseOff ys := by
    unfold firstReply?
    induction h with
    | nil => rfl
    | @cons x y xs ys hxy _ ih =>
        rw [List.find?_cons, List.find?_cons, hxy.cmd]
        by_cases hcmd : y.1.cmd = cmdReadBaseOff
        · simp [hcmd, hxy.reply (.inl hcmd)]
        · simpa [hcmd] using ih
  rw [reportedBaseOffset, reportedBaseOffset, hreply]

section Step

variable {opts : Options} {img : Image} {cfg : Moment} {c : Call} {a : Transfer}

/-- An empty flash arrives empty. -/
theorem crossedFlash_none (img : Image) (start : Nat) :
    crossedFlash img start (fun _ => none) = fun _ => none := by
  funext pos
  unfold crossedFlash
  split <;> rfl

/-- What is stored keeps its place: once something is stored, the start offset is fixed. -/
theorem crossedFlash_resume (hdelivering : Delivering img cfg) (a : Transfer) :
    crossedFlash img (startOffset (resume cfg.state a).1.vars).toNat
        (received (exchanges cfg.trace)).flash =
      crossedFlash img (startOffset cfg.state.vars).toNat
        (received (exchanges cfg.trace)).flash := by
  cases hearly : cfg.state.pc.early with
  | false => rw [resume_startOffset hearly]
  | true =>
      rw [hdelivering.opening (handshake_of_early hearly)]
      exact (crossedFlash_none _ _).trans (crossedFlash_none _ _).symm

/-- A block that is stored arrives when it is accidental, at its own place and swapped. -/
theorem crossedFlash_storeBytes (img : Image) (start t : Nat) (flash : Nat → Option Byte)
    {block : List Byte} (hlength : block.length = 32) :
    crossedFlash img start (storeBytes flash (start + 32 * t) block) =
      if Accidental img start t then
        storeBytes (crossedFlash img start flash) (swapWord start + 32 * t) (swapPairs block)
      else crossedFlash img start flash := by
  funext pos
  rw [apply_ite (fun flash : Nat → Option Byte => flash pos)]
  generalize hplace : swapWord start = place
  unfold crossedFlash
  rw [hplace]
  by_cases hin : place + 32 * t ≤ pos ∧ pos < place + 32 * t + 32
  · -- Inside the block both sides have the other byte of the pair.
    have hblock : (pos - place) / 32 = t := by omega
    have hpartner : start + partner (pos - place) - (start + 32 * t) =
        partner (pos - (place + 32 * t)) := by
      unfold partner
      split <;> split <;> omega
    have hmem : start + 32 * t ≤ start + partner (pos - place) ∧
        start + partner (pos - place) < start + 32 * t + block.length := by
      unfold partner
      split <;> omega
    rw [hblock]
    by_cases haccidental : Accidental img start t
    · rw [if_pos ⟨by omega, haccidental⟩, if_pos haccidental, storeBytes_of_mem hmem,
        storeBytes_of_mem (by rw [length_swapPairs]; omega), getElem?_swapPairs (by omega),
        hpartner]
    · rw [if_neg fun h => haccidental h.2, if_neg haccidental,
        if_neg fun h => haccidental h.2]
  · have hother : place ≤ pos → storeBytes flash (start + 32 * t) block
        (start + partner (pos - place)) = flash (start + partner (pos - place)) := by
      intro hle
      apply storeBytes_of_not_mem
      unfold partner
      split <;> omega
    have hswapped (f : Nat → Option Byte) :
        storeBytes f (place + 32 * t) (swapPairs block) pos = f pos :=
      storeBytes_of_not_mem (by rw [length_swapPairs]; omega)
    rw [hswapped, ite_self]
    by_cases hle : place ≤ pos
    · rw [hother hle]
    · rw [if_neg fun h => hle h.1, if_neg fun h => hle h.1]

/-- A call that stores nothing. -/
theorem crossed_of_quiet (hdelivering : Delivering img cfg) (h : CrossedAlong img cfg)
    (hflash : ((received (exchanges cfg.trace)).receive (c, a)).flash =
      (received (exchanges cfg.trace)).flash)
    (hflash' : ((received (crossed (exchanges cfg.trace))).receive (c.crossed, a)).flash =
      (received (crossed (exchanges cfg.trace))).flash)
    (hoffset : (resume cfg.state a).1.pc.looping = true →
      ((received (crossed (exchanges cfg.trace))).receive (c.crossed, a)).offset +
          startOffset (resume cfg.state a).1.vars =
        ((received (exchanges cfg.trace)).receive (c, a)).offset +
          BitVec.ofNat 32 (swapWord (startOffset (resume cfg.state a).1.vars).toNat)) :
    CrossedAlong img ((main opts img).answer cfg c a) := by
  constructor
  · rw [received_crossed_answer, received_answer]
    exact hoffset
  · rw [received_crossed_answer, received_answer, hflash, hflash', h.flash]
    exact (crossedFlash_resume hdelivering a).symm

/-- The start offset is announced. -/
theorem crossed_of_setOffset (hinv : Inv opts img (exchanges cfg.trace) cfg.state)
    (hannouncing : Announcing cfg) (hdelivering : Delivering img cfg) (h : CrossedAlong img cfg)
    (hc : pending cfg.state = some c) (r : Byte × Byte) (hset : cfg.state.pc = .setOffset) :
    CrossedAlong img ((main opts img).answer cfg c (some r)) := by
  have hcall : c = ⟨cmdSetOffset, cfg.state.vars.io.1, cfg.state.vars.io.2, 2⟩ := by
    simpa [pending, hset, eq_comm] using hc
  have hlow := (hinv.tracked_of_pending hc).startOffset_lt
  have hoffset : cfg.state.vars.io.1.toNat + 256 * cfg.state.vars.io.2.toNat =
      (startOffset cfg.state.vars).toNat := by
    rw [← announcedOffset_offsetBytes hlow, ← hannouncing.initial hset]
    rfl
  have hswap : cfg.state.vars.io.2.toNat + 256 * cfg.state.vars.io.1.toNat =
      swapWord (startOffset cfg.state.vars).toNat := by
    have hbyte := cfg.state.vars.io.1.isLt
    rw [← hoffset, swapWord]
    omega
  have hcmd : c.cmd = cmdSetOffset := by rw [hcall]
  refine crossed_of_quiet hdelivering h ?_ ?_ fun _ => ?_
  · rw [receive_setOffset hcmd]
    rfl
  · rw [receive_setOffset (c := c.crossed) hcmd]
    rfl
  · rw [receive_setOffset hcmd, receive_setOffset (c := c.crossed) hcmd, hcall,
      resume_startOffset (by rw [hset]; rfl)]
    show BitVec.ofNat 32 (cfg.state.vars.io.2.toNat + 256 * cfg.state.vars.io.1.toNat) + _ =
      BitVec.ofNat 32 (cfg.state.vars.io.1.toNat + 256 * cfg.state.vars.io.2.toNat) + _
    rw [hoffset, hswap, BitVec.ofNat_toNat, BitVec.setWidth_eq, BitVec.add_comm]

/-- A poll takes both receivers on, or neither. -/
theorem crossed_of_poll (hdelivering : Delivering img cfg) (h : CrossedAlong img cfg)
    (hc : pending cfg.state = some c) (r : Byte × Byte) (hpoll : cfg.state.pc = .poll) :
    CrossedAlong img ((main opts img).answer cfg c (some r)) := by
  have hcmd := cmd_of_poll hc hpoll
  have hcomm (x y z : Word) : x + y + z = x + z + y := by ac_rfl
  have hplace := h.offset (by rw [hpoll]; rfl)
  have hfresh := (inStep_crossed (exchanges cfg.trace)).fresh
  refine crossed_of_quiet hdelivering h ?_ ?_ fun _ => ?_
  · rw [receive_poll hcmd, flash_poll]
  · rw [receive_poll (c := c.crossed) hcmd, flash_poll]
  · rw [receive_poll hcmd, receive_poll (c := c.crossed) hcmd, offset_poll, offset_poll, hfresh,
      resume_startOffset (by rw [hpoll]; rfl), hcomm, hplace, hcomm]

/-- A data word. -/
theorem crossed_of_word (hinv : Inv opts img (exchanges cfg.trace) cfg.state)
    (hdelivering : Delivering img cfg) (h : CrossedAlong img cfg)
    (hc : pending cfg.state = some c) (r : Byte × Byte) {i : Nat}
    (hpc : cfg.state.pc = .streamWord i) :
    CrossedAlong img ((main opts img).answer cfg c (some r)) := by
  obtain ⟨hlt, -, -⟩ := hinv.word i hpc
  have hstreaming : cfg.state.pc.streaming = true := by rw [hpc]; rfl
  have hlooping := looping_of_streaming hstreaming
  have hcmd := cmd_of_streaming hc hstreaming
  have hwords : (received (exchanges cfg.trace)).words.length < 16 := by
    rw [hdelivering.words hlooping, List.length_take, hpc]
    simp only [Pc.round]
    omega
  have hwords' : (received (crossed (exchanges cfg.trace))).words.length < 16 := by
    rwa [(inStep_crossed _).words, List.length_map]
  refine crossed_of_quiet hdelivering h ?_ ?_ fun _ => ?_
  · rw [receive_streamData hcmd, take_word hwords]
  · rw [receive_streamData (c := c.crossed) hcmd, take_word hwords']
  · rw [receive_streamData hcmd, receive_streamData (c := c.crossed) hcmd, take_word hwords,
      take_word hwords', resume_startOffset (by rw [hpc]; rfl)]
    exact h.offset hlooping

/-- Where the receiver of the crossed payloads is, when the other one is at the current
block. -/
theorem toNat_crossedOffset (htracked : Tracked opts img (exchanges cfg.trace) cfg.state.vars)
    (hmeasured : Measured (exchanges cfg.trace) cfg.state.vars) (h : CrossedAlong img cfg)
    (hlooping : cfg.state.pc.looping = true)
    (hoffset : (received (exchanges cfg.trace)).offset = blockOffset cfg.state.vars) :
    (received (crossed (exchanges cfg.trace))).offset.toNat =
      swapWord (startOffset cfg.state.vars).toNat + 32 * cfg.state.vars.temp.toNat := by
  have hsum := congrArg BitVec.toNat (h.offset hlooping)
  have hoff := toNat_blockOffset htracked hmeasured
  have hlow := htracked.startOffset_lt
  have hcounter := temp_lt htracked hmeasured
  have hswap : swapWord (startOffset cfg.state.vars).toNat < 2 ^ 16 := by
    unfold swapWord
    omega
  rw [hoffset, BitVec.toNat_add, BitVec.toNat_add, BitVec.toNat_ofNat, hoff] at hsum
  omega

/-- The trailer: the block arrives when the tag in place of the checksum is right. -/
theorem crossed_of_trailer (hinv : Inv opts img (exchanges cfg.trace) cfg.state)
    (hmeasured : Measured (exchanges cfg.trace) cfg.state.vars)
    (hdelivering : Delivering img cfg) (h : CrossedAlong img cfg)
    (hc : pending cfg.state = some c) (r : Byte × Byte) (hpc : cfg.state.pc = .streamTrailer) :
    CrossedAlong img ((main opts img).answer cfg c (some r)) := by
  have hstreaming : cfg.state.pc.streaming = true := by rw [hpc]; rfl
  have hlooping := looping_of_streaming hstreaming
  have htracked := hinv.tracked_of_streaming hstreaming
  have hloaded := hinv.loaded hstreaming
  have hlength : cfg.state.vars.dataBlock.length = 32 := by rw [hloaded, Image.length_block]
  have hcmd := cmd_of_streaming hc hstreaming
  have hoff := toNat_blockOffset htracked hmeasured
  have hstart : startOffset (resume cfg.state (some r)).1.vars = startOffset cfg.state.vars :=
    resume_startOffset (early_of_looping hlooping) _
  have hoffset := hdelivering.offset_of_streaming hstreaming
  have hplace := h.offset hlooping
  have hreceived : (received (exchanges cfg.trace)).receive (c, some r) =
      (received (exchanges cfg.trace)).stored cfg.state.vars.dataBlock :=
    receive_trailer hinv hdelivering hc r hpc
  have hwords : wordBytes (received (crossed (exchanges cfg.trace))).words =
      swapPairs cfg.state.vars.dataBlock := by
    rw [(inStep_crossed _).words, wordBytes_swap, hdelivering.words hlooping, hpc]
    show swapPairs (wordBytes ((dataWords _).take 16)) = _
    rw [List.take_of_length_le (by simp), wordBytes_dataWords hlength]
  have hcount : (received (crossed (exchanges cfg.trace))).words.length = 16 := by
    rw [(inStep_crossed _).words, List.length_map, hdelivering.words hlooping, hpc]
    simp [Pc.round]
  have hpayload : (c.crossed.io0, c.crossed.io1) =
      (cfg.state.vars.temp.setWidth 8, crc8Calculator cfg.state.vars.dataBlock 32) := by
    have hcall : (c.io0, c.io1) = _ := (payload_of_streaming hc hstreaming).trans (hinv.trailer hpc)
    obtain ⟨h0, h1⟩ := Prod.mk.inj hcall
    exact Prod.ext h1 h0
  -- The number of the block stands where its checksum is expected.
  have hreceived' : (received (crossed (exchanges cfg.trace))).receive (c.crossed, some r) =
      if Accidental img (startOffset cfg.state.vars).toNat cfg.state.vars.temp.toNat then
        (received (crossed (exchanges cfg.trace))).stored (swapPairs cfg.state.vars.dataBlock)
      else { received (crossed (exchanges cfg.trace)) with words := [] } := by
    have htag : Accidental img (startOffset cfg.state.vars).toNat cfg.state.vars.temp.toNat ↔
        cfg.state.vars.temp.setWidth 8 =
          crc8Calculator (swapPairs cfg.state.vars.dataBlock) 32 := by
      rw [Accidental, ← hoff, ← hloaded, BitVec.ofNat_toNat]
      exact eq_comm
    rw [receive_streamData (c := c.crossed) hcmd, hpayload, Receiver.take, if_neg (by omega),
      hwords]
    simp only [htag]
  have hoffset' := toNat_crossedOffset htracked hmeasured h hlooping hoffset
  constructor
  · rw [received_crossed_answer, received_answer, receive_streamData hcmd,
      receive_streamData (c := c.crossed) hcmd, offset_take, offset_take]
    intro _
    show _ + startOffset (resume cfg.state (some r)).1.vars = _ +
      BitVec.ofNat 32 (swapWord (startOffset (resume cfg.state (some r)).1.vars).toNat)
    rw [hstart]
    exact hplace
  · have hflash : ((received (exchanges cfg.trace)).stored cfg.state.vars.dataBlock).flash =
        storeBytes (received (exchanges cfg.trace)).flash
          ((startOffset cfg.state.vars).toNat + 32 * cfg.state.vars.temp.toNat)
          cfg.state.vars.dataBlock := by
      rw [← hoff, ← hoffset]
      rfl
    rw [received_crossed_answer, received_answer, hreceived, hreceived', hflash]
    show _ = crossedFlash img (startOffset (resume cfg.state (some r)).1.vars).toNat _
    rw [hstart, crossedFlash_storeBytes img _ _ _ hlength, ← h.flash, ← hoffset']
    split <;> rfl

/-- A call without a meaning to a receiver, or one that has failed. -/
theorem crossed_of_other (hdelivering : Delivering img cfg) (h : CrossedAlong img cfg)
    (hsame : ∀ e : Receiver, ∀ d : Call, d.cmd = c.cmd → e.receive (d, a) = e)
    (hnext : (resume cfg.state a).1.pc.looping = true → cfg.state.pc.looping = true) :
    CrossedAlong img ((main opts img).answer cfg c a) := by
  have hcrossed : c.crossed.cmd = c.cmd := rfl
  refine crossed_of_quiet hdelivering h ?_ ?_ fun hlooping => ?_
  · rw [hsame _ c rfl]
  · rw [hsame _ c.crossed hcrossed]
  · have hbefore := hnext hlooping
    rw [hsame _ c rfl, hsame _ c.crossed hcrossed,
      resume_startOffset (early_of_looping hbefore)]
    exact h.offset hbefore

/-- One answered call keeps the two receivers together. -/
theorem crossed_answer (hinv : Inv opts img (exchanges cfg.trace) cfg.state)
    (hmeasured : cfg.state.pc.chosen = true → Measured (exchanges cfg.trace) cfg.state.vars)
    (hannouncing : Announcing cfg) (hdelivering : Delivering img cfg)
    (hbbl : opts.includeBootloader = false) (h : CrossedAlong img cfg)
    (hc : pending cfg.state = some c) (a : Transfer) :
    CrossedAlong img ((main opts img).answer cfg c a) := by
  cases a with
  | none =>
      refine crossed_of_other hdelivering h (fun _ d _ => receive_failed d) ?_
      rw [resume_none hc]
      rintro ⟨⟩
  | some r =>
      have hcmd := pending_cmd hc
      have hjump := not_rejumping hinv hmeasured hannouncing hbbl hc
      cases hpc : cfg.state.pc with
      | setOffset => exact crossed_of_setOffset hinv hannouncing hdelivering h hc r hpc
      | poll => exact crossed_of_poll hdelivering h hc r hpc
      | streamWord i => exact crossed_of_word hinv hdelivering h hc r hpc
      | streamTrailer =>
          exact crossed_of_trailer hinv (hmeasured (by rw [hpc]; rfl)) hdelivering h hc r hpc
      | rejumpPhase | rejumpStatus | rejumpOffset => simp [hpc, Pc.rejumping] at hjump
      | returned rc | sigfpe => simp [pending, hpc] at hc
      | _ =>
          refine crossed_of_other hdelivering h (fun e d hd => ?_) fun hnext =>
            (looping_of_resume hnext).resolve_right (by simp [hpc])
          rw [hcmd, hpc] at hd
          apply receive_other <;> rw [hd] <;> decide

/-- Whatever was acknowledged has arrived: of the blocks up to the last reply `1`, all but
the current one are accidental. -/
def Earned (img : Image) (cfg : Moment) : Prop :=
  ∀ t, t + 1 < ackCount (exchanges cfg.trace) →
    Accidental img (startOffset cfg.state.vars).toNat t

/-- An EC that is ready for the next block has the current one. -/
theorem accidental_of_ready (htracked : Tracked opts img (exchanges cfg.trace) cfg.state.vars)
    (hmeasured : Measured (exchanges cfg.trace) cfg.state.vars) (hdelivering : Delivering img cfg)
    (hcrossed : CrossedAlong img cfg) (hlooping : cfg.state.pc.looping = true)
    (hfirst : cfg.state.vars.firstTemp = true) (hnone : announced cfg.trace = none)
    (hready : (received (crossed (exchanges cfg.trace))).Ready) :
    Accidental img (startOffset cfg.state.vars).toNat cfg.state.vars.temp.toNat := by
  have hfresh : (received (crossed (exchanges cfg.trace))).fresh = false := by
    rw [(inStep_crossed _).fresh, hdelivering.fresh hlooping, hfirst, hnone]
    rfl
  have hoffset : (received (exchanges cfg.trace)).offset = blockOffset cfg.state.vars := by
    rw [hdelivering.offset hlooping, hnone]
    simp
  have hstored := hready.resolve_left (by simp [hfresh])
  rw [hcrossed.flash, toNat_crossedOffset htracked hmeasured hcrossed hlooping hoffset,
    crossedFlash, Nat.add_sub_cancel_left, Nat.mul_div_cancel_left _ (by decide)] at hstored
  by_contra hdropped
  exact hstored (if_neg fun hhere => hdropped hhere.2)

/-- Behind the first block nothing is announced any more. -/
theorem announced_of_firstTemp (hpaced : Paced cfg)
    (hannounced : announced cfg.trace ≠ none → lastSeek cfg.trace = none)
    (hfirst : cfg.state.vars.firstTemp = true) : announced cfg.trace = none := by
  by_contra hsome
  rcases hpaced.last with ⟨-, -, hnot⟩ | ⟨-, hseek⟩
  · simp [hfirst] at hnot
  · simp [hannounced hsome] at hseek

/-- A truthful EC goes on only when the current block has arrived. -/
theorem earned_answer (hinv : Inv opts img (exchanges cfg.trace) cfg.state)
    (hmeasured : cfg.state.pc.chosen = true → Measured (exchanges cfg.trace) cfg.state.vars)
    (hpaced : Paced cfg) (hannounced : announced cfg.trace ≠ none → lastSeek cfg.trace = none)
    (hdelivering : Delivering img cfg) (hcrossed : CrossedAlong img cfg) (h : Earned img cfg)
    (hc : pending cfg.state = some c) (hready : c.cmd = cmdPollProgress →
      a.map Prod.fst = some 1#8 → (received (crossed (exchanges cfg.trace))).Ready) :
    Earned img ((main opts img).answer cfg c a) := by
  intro t ht
  rw [Machine.exchanges_answer] at ht
  rw [answer_state]
  by_cases hpoll : cfg.state.pc = .poll
  · rw [resume_startOffset (by rw [hpoll]; rfl)]
    by_cases hold : t + 1 < ackCount (exchanges cfg.trace)
    · exact h t hold
    have hcmd := cmd_of_poll hc hpoll
    have hlooping : cfg.state.pc.looping = true := by rw [hpoll]; rfl
    have htracked := hinv.tracked_of_pending hc
    have hcount := hmeasured (chosen_of_looping hlooping)
    -- The reply is `1`, and `t` is the current block.
    have hone : a.map Prod.fst = some 1#8 ∧ ackCount (exchanges cfg.trace) = t + 1 := by
      cases a with
      | none =>
          rw [ackCount_failed] at ht
          exact absurd ht hold
      | some r =>
          rw [ackCount_poll hcmd] at ht
          by_cases hr : r.1 = 1#8
          · rw [if_pos hr] at ht
            exact ⟨by simp [hr], by omega⟩
          · rw [if_neg hr] at ht
            exact absurd ht hold
    have htemp : cfg.state.vars.temp.toNat = t := by
      have hle := hcount.le
      unfold blockCount areaSize at hle
      rw [htracked.temp, hone.2, BitVec.toNat_ofNat]
      omega
    have hfirst : cfg.state.vars.firstTemp = true := by
      rw [htracked.firstTemp, hone.2]
      simp
    rw [← htemp]
    exact accidental_of_ready htracked hcount hdelivering hcrossed hlooping hfirst
      (announced_of_firstTemp hpaced hannounced hfirst) (hready hcmd hone.1)
  · rw [ackCount_of_ne_poll hc hpoll] at ht
    cases hearly : cfg.state.pc.early with
    | true =>
        have hnone := (hinv.handshake (handshake_of_early hearly)).1
        simp [ackCount, hnone] at ht
    | false =>
        rw [resume_startOffset hearly]
        exact h t ht

end Step

section Run

variable (opts : Options) {img : Image} (hsize : img.size = 0x20000)
  (hbbl : opts.includeBootloader = false)
include hsize hbbl

theorem crossed_run (as : List Transfer) : CrossedAlong img ((main opts img).run as) := by
  have hpos : 0 < img.size := by omega
  refine Machine.run_invariant_under (I := fun cfg =>
    Inv opts img (exchanges cfg.trace) cfg.state ∧
      (cfg.state.pc.chosen = true → Measured (exchanges cfg.trace) cfg.state.vars) ∧
      Announcing cfg ∧ Delivering img cfg) (P := CrossedAlong img) ?_ ?_ ?_ as
  · exact fun bs => ⟨inv_run opts img bs, measured_run opts hsize bs, announcing_run opts img bs,
      delivering_run opts hpos bs (agrees_of_keptBootBlock hsize hbbl bs)⟩
  · exact ⟨nofun, (crossedFlash_none img _).symm⟩
  · rintro cfg c a ⟨hinv, hmeasured, hannouncing, hdelivering⟩ h hc
    exact crossed_answer hinv hmeasured hannouncing hdelivering hbbl h hc a

omit hsize in
/-- Without the boot block the area starts at the base offset. -/
theorem toNat_startOffset (as : List Transfer) :
    (startOffset ((main opts img).run as).state.vars).toNat =
      (reportedBaseOffset (exchanges ((main opts img).run as).trace)).toNat := by
  have hsettled := settled_run opts img as
  simp [startOffset, hsettled.baseOffset, hsettled.included, bootBlockIncluded, hbbl]

/-! ## With a truthful EC -/

theorem earned_run {as : List Transfer}
    (htruthful : Truthful (crossed (exchanges ((main opts img).run as).trace))) :
    Earned img ((main opts img).run as) := by
  revert htruthful
  have hpos : 0 < img.size := by omega
  refine Machine.run_invariant_under (I := fun cfg =>
    Inv opts img (exchanges cfg.trace) cfg.state ∧
      (cfg.state.pc.chosen = true → Measured (exchanges cfg.trace) cfg.state.vars) ∧
      Paced cfg ∧ (announced cfg.trace ≠ none → lastSeek cfg.trace = none) ∧
      Delivering img cfg ∧ CrossedAlong img cfg)
    (P := fun cfg => Truthful (crossed (exchanges cfg.trace)) → Earned img cfg) ?_ ?_ ?_ as
  · exact fun bs => ⟨inv_run opts img bs, measured_run opts hsize bs, paced_run opts img bs,
      lastSeek_of_announced hsize hbbl bs,
      delivering_run opts hpos bs (agrees_of_keptBootBlock hsize hbbl bs),
      crossed_run opts hsize hbbl bs⟩
  · exact fun _ t ht => absurd ht (Nat.not_lt_zero _)
  · rintro cfg c a ⟨hinv, hmeasured, hpaced, hannounced, hdelivering, hcrossed⟩ h hc htruthful
    rw [Machine.exchanges_answer, crossed_concat] at htruthful
    obtain ⟨hbefore, hready⟩ := always_concat.mp htruthful
    exact earned_answer hinv hmeasured hpaced hannounced hdelivering hcrossed (h hbefore) hc hready

/-- A block that does not arrive is never left. -/
theorem temp_le_of_dropped {as : List Transfer}
    (htruthful : Truthful (crossed (exchanges ((main opts img).run as).trace))) {t : Nat}
    (hdropped : ¬ Accidental img
      (reportedBaseOffset (exchanges ((main opts img).run as).trace)).toNat t) :
    ((main opts img).run as).state.vars.temp.toNat ≤ t := by
  have hearned := earned_run opts hsize hbbl htruthful
  have htracked := (inv_run opts img as).tracked (ne_sigfpe_run opts (by omega) as)
  rw [← toNat_startOffset opts hbbl] at hdropped
  have hacks : ackCount (exchanges ((main opts img).run as).trace) ≤ t + 1 :=
    Nat.le_of_not_lt fun hlt => hdropped (hearned t hlt)
  rw [htracked.temp, BitVec.toNat_ofNat]
  exact Nat.le_trans (Nat.mod_le ..) (by omega)

/-- And a flash with such a block in front of the last one does not return `0`. -/
theorem accidental_of_returned {as : List Transfer}
    (htruthful : Truthful (crossed (exchanges ((main opts img).run as).trace)))
    (hpc : ((main opts img).run as).state.pc = .returned 0) {t : Nat}
    (ht : t + 1 < (0x1C000 -
      (reportedBaseOffset (exchanges ((main opts img).run as).trace)).toNat + 31) / 32) :
    Accidental img (reportedBaseOffset (exchanges ((main opts img).run as).trace)).toNat t := by
  have hearned := earned_run opts hsize hbbl htruthful
  have hcount := ackCount_of_finished opts hsize (loopFinished_of_returned opts hpc
    (jumped_run opts (jumps_of_keptBootBlock opts hsize hbbl as)))
  have htracked := (inv_run opts img as).tracked (by simp [hpc])
  rw [← toNat_startOffset opts hbbl] at ht ⊢
  apply hearned
  have hlow := htracked.startOffset_lt
  rw [hcount]
  unfold blockCount areaSize
  omega

/-- What arrives crossed: blocks in front of which all others have arrived, too. -/
theorem crossed_flash {as : List Transfer}
    (htruthful : Truthful (crossed (exchanges ((main opts img).run as).trace))) {pos : Nat}
    {b : Byte} :
    let xs := exchanges ((main opts img).run as).trace
    let start := (reportedBaseOffset xs).toNat
    let n := pos - swapWord start
    (received (crossed xs)).flash pos = some b →
      swapWord start ≤ pos ∧ (∀ t, t ≤ n / 32 → Accidental img start t) ∧
        img.byte? (start + partner n) = some b := by
  intro xs start n hb
  have hstart : _ = start := toNat_startOffset opts hbbl as
  have hearned := earned_run opts hsize hbbl htruthful
  have htracked := (inv_run opts img as).tracked (ne_sigfpe_run opts (by omega) as)
  have hdelivering := delivering_run opts (by omega) as (agrees_of_keptBootBlock hsize hbbl as)
  rw [(crossed_run opts hsize hbbl as).flash, hstart, crossedFlash] at hb
  by_cases hhere : swapWord start ≤ pos ∧ Accidental img start (n / 32)
  · rw [if_pos hhere] at hb
    change (received xs).flash (start + partner n) = some b at hb
    -- The byte was selected with its block, so the blocks before it are acknowledged.
    obtain ⟨k, off, hmem, hfrom, hto⟩ := hdelivering.within _ (by rw [hb]; simp)
    obtain ⟨t, hcount, hlast, -, hoff⟩ := exists_of_fseek_mem opts hsize htracked hmem
    rw [hstart] at hoff
    unfold blockCount areaSize at hcount
    rw [hstart] at hcount
    have hpartner : partner n / 32 = n / 32 := by
      unfold partner
      split <;> omega
    have hblock : n / 32 = t := by omega
    refine ⟨hhere.1, fun j hj => ?_, ?_⟩
    · rcases Nat.lt_or_eq_of_le hj with hlt | rfl
      · rw [← hstart]
        exact hearned j (by omega)
      · exact hhere.2
    · have hlt : start + partner n < img.size := by
        rw [← hstart]
        omega
      rw [hdelivering.correct _ b hb, store_getc]
      simp [Image.byte?, hlt]
  · rw [if_neg hhere] at hb
    cases hb

end Run

end First
end EcFlash
