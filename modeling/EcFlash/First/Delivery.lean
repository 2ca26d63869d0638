import EcFlash.First.Coverage
import EcFlash.Receiver

/-!
# What arrives

The receiver follows the announcements and its own replies, the program its counters.
`Delivering` ties the two together: at every point of the loop the receiver expects
the block that the program selects, so every block is stored where it stands in the
file.  It rests on the condition that is needed for the announcements: behind a
re-jump the first reply that asks for a block is `1`.
-/

namespace EcFlash
namespace First

open Reactive

/-- The receiver and the program agree. -/
structure Delivering (img : Image) (cfg : Moment) : Prop where
  opening : cfg.state.pc.handshake = true → received (exchanges cfg.trace) = .initial
  fresh : cfg.state.pc.looping = true → (received (exchanges cfg.trace)).fresh =
    (!cfg.state.vars.firstTemp || (announced cfg.trace).isSome)
  /-- Behind a re-jump the receiver is one block ahead. -/
  offset : cfg.state.pc.looping = true → (received (exchanges cfg.trace)).offset =
    if cfg.state.vars.firstTemp = true ∧ (announced cfg.trace).isSome = true then
      blockOffset cfg.state.vars + 32#32
    else blockOffset cfg.state.vars
  taken : cfg.state.pc.streaming = true → announced cfg.trace = none
  words : cfg.state.pc.looping = true → (received (exchanges cfg.trace)).words =
    (dataWords cfg.state.vars.dataBlock).take cfg.state.pc.round
  correct : ∀ pos b, (received (exchanges cfg.trace)).flash pos = some b →
    b = store (img.getc pos)
  within : ∀ pos, (received (exchanges cfg.trace)).flash pos ≠ none →
    ∃ k off, .fseek k off ∈ outputs cfg.trace ∧ off.toNat ≤ pos ∧ pos < off.toNat + 32
  /-- A selected block is stored, unless it is under way or a call failed. -/
  complete : (cfg.state.pc = .returned 1 ∧ .flashComplete ∉ outputs cfg.trace) ∨
    ∀ k off, .fseek k off ∈ outputs cfg.trace →
      (∀ pos, off.toNat ≤ pos → pos < off.toNat + 32 →
        (received (exchanges cfg.trace)).flash pos ≠ none) ∨
      cfg.state.pc.streaming = true ∧ off = blockOffset cfg.state.vars

section Step

variable {opts : Options} {img : Image} {cfg : Moment} {c : Call} {a : Transfer}

theorem Delivering.offset_of_streaming (h : Delivering img cfg)
    (hstreaming : cfg.state.pc.streaming = true) :
    (received (exchanges cfg.trace)).offset = blockOffset cfg.state.vars := by
  rw [h.offset (looping_of_streaming hstreaming), h.taken hstreaming]
  simp

/-- Words and trailers go out under one command. -/
theorem cmd_of_streaming (hc : pending cfg.state = some c)
    (hstreaming : cfg.state.pc.streaming = true) : c.cmd = cmdStreamData := by
  rw [pending_cmd hc]
  cases hpc : cfg.state.pc <;> simp_all [Pc.streaming, Pc.command]

/-- The area has less than `2 ^ 12` blocks. -/
theorem temp_lt {xs : Exchanges} {l : Locals} (htracked : Tracked opts img xs l)
    (hmeasured : Measured xs l) : l.temp.toNat < 2 ^ 12 := by
  have hle := hmeasured.le
  unfold blockCount areaSize at hle
  rw [htracked.temp, BitVec.toNat_ofNat]
  omega

/-- An offset does not come around in 32 bits. -/
theorem toNat_blockOffset {xs : Exchanges} {l : Locals} (htracked : Tracked opts img xs l)
    (hmeasured : Measured xs l) :
    (blockOffset l).toNat = (startOffset l).toNat + 32 * l.temp.toNat := by
  have hlow := htracked.startOffset_lt
  have hcounter := temp_lt htracked hmeasured
  rw [blockOffset_eq, BitVec.toNat_add, BitVec.toNat_mul]
  show (l.temp.toNat * 32 % 2 ^ 32 + _) % 2 ^ 32 = _
  omega

/-- Behind a re-jump only the reply `1` asks for a block. -/
theorem not_announced_of_agrees (hpaced : Paced cfg) (hpoll : cfg.state.pc = .poll)
    {r : Byte × Byte} (hr : AsksBlock r.1) (hagrees : StepAgrees cfg (some r)) (hne : r.1 ≠ 1#8) :
    ¬ (cfg.state.vars.firstTemp = true ∧ (announced cfg.trace).isSome = true) := by
  rintro ⟨hfirst, hsome⟩
  have hseek : lastSeek cfg.trace ≠ none := by
    rcases hpaced.last with ⟨-, -, hnot⟩ | ⟨-, hseek⟩
    · simp [hfirst] at hnot
    · simp [hseek]
  exact hne (hagrees hpoll (by simpa [← Option.isSome_iff_ne_none] using hsome) hseek r rfl hr)

/-- A poll that selects a block finds the receiver at that block. -/
theorem delivering_of_selects (hpaced : Paced cfg) (h : Delivering img cfg)
    (hc : pending cfg.state = some c) (hpoll : cfg.state.pc = .poll) {r : Byte × Byte}
    (hr : AsksBlock r.1) (hfile : cfg.state.vars.ctx.fileSize ≠ 0#32)
    (hagrees : StepAgrees cfg (some r)) :
    Delivering img ((main opts img).answer cfg c (some r)) := by
  have hcmd := cmd_of_poll hc hpoll
  have hstate := answer_asks_state opts img c hpoll hr hfile
  have htrace := answer_asks_trace opts img c hpoll hr hfile
  have hoff := blockOffset_advance { cfg.state.vars with resp := r }
  have hfirst := advance_firstTemp { cfg.state.vars with resp := r }
  have hsame : blockOffset { cfg.state.vars with resp := r } = blockOffset cfg.state.vars := rfl
  have hreceived : received (exchanges ((main opts img).answer cfg c (some r)).trace) =
      (received (exchanges cfg.trace)).poll r.1 := by
    rw [received_answer, receive_poll hcmd]
  have hannounced : announced ((main opts img).answer cfg c (some r)).trace = none := by
    rw [htrace]
    simp [announced, announceStep]
  have hlooping : cfg.state.pc.looping = true := by simp [hpoll, Pc.looping]
  have hfresh := h.fresh hlooping
  have hat := h.offset hlooping
  have hone := not_announced_of_agrees hpaced hpoll hr hagrees
  have hflash : (received (exchanges ((main opts img).answer cfg c (some r)).trace)).flash =
      (received (exchanges cfg.trace)).flash := by
    rw [hreceived, flash_poll]
  rw [hsame] at hoff
  generalize advance { cfg.state.vars with resp := r } = l' at hstate htrace hoff hfirst
  have hloaded : (streamFrom 0 (loadBlock l')).1.vars.firstTemp = l'.firstTemp ∧
      blockOffset (streamFrom 0 (loadBlock l')).1.vars = blockOffset l' := ⟨rfl, rfl⟩
  have houtputs : outputs ((main opts img).answer cfg c (some r)).trace = outputs cfg.trace ++
      [.progress (percentage cfg.state.vars.ctx.fileSize cfg.state.vars.remaining),
        .fseek l'.temp (blockOffset l')] := by
    rw [htrace, outputs_append]
    rfl
  constructor
  · rw [hstate]
    rintro ⟨⟩
  · intro _
    rw [hreceived, hannounced, hstate, hloaded.1, hfirst, fresh_poll, hfresh]
    by_cases hr1 : r.1 = 1#8
    · simp [hr1]
    · have hnot := hone hr1
      cases hf : cfg.state.vars.firstTemp <;> simp_all
  · intro _
    rw [hreceived, hannounced, hstate, hloaded.2, hoff, offset_poll, hfresh, hat]
    by_cases hr1 : r.1 = 1#8
    · cases hf : cfg.state.vars.firstTemp <;> cases hs : (announced cfg.trace).isSome <;> simp [hr1]
    · rw [if_neg (hone hr1)]
      simp [hr1]
  · exact fun _ => hannounced
  · intro _
    rw [hreceived, hstate, words_poll]
    rfl
  · rw [hflash]
    exact h.correct
  · rw [hflash, houtputs]
    intro pos hpos
    obtain ⟨k, off, hmem, hrange⟩ := h.within pos hpos
    exact ⟨k, off, List.mem_append_left _ hmem, hrange⟩
  · right
    rw [hflash, houtputs, hstate]
    have hcomplete := h.complete.resolve_left (by simp [hpoll])
    intro k off hmem
    rcases List.mem_append.mp hmem with hmem | hmem
    · exact .inl ((hcomplete k off hmem).resolve_right (by simp [hpoll, Pc.streaming]))
    · obtain ⟨-, rfl⟩ : k = l'.temp ∧ off = blockOffset l' := by simpa using hmem
      exact .inr ⟨rfl, rfl⟩

theorem round_of_streaming {pc : Pc} (h : pc.streaming = false) : pc.round = 0 := by
  cases pc <;> first | rfl | simp [Pc.streaming] at h

theorem fseek_mem_quiet (hquiet : ¬ Selects cfg.state a) {k off : Word} :
    .fseek k off ∈ outputs ((main opts img).answer cfg c a).trace ↔
      .fseek k off ∈ outputs cfg.trace := by
  rw [outputs_answer, ← mem_seeks, seeks_append]
  show _ ∈ _ ++ seeks (resume cfg.state a).2 ↔ _
  rw [seeks_quiet hquiet, List.append_nil, mem_seeks]

/-- What a call keeps that neither selects a block nor completes one. -/
theorem delivering_of_quiet (h : Delivering img cfg) (hquiet : ¬ Selects cfg.state a)
    (hopening : (resume cfg.state a).1.pc.handshake = true →
      received (exchanges ((main opts img).answer cfg c a).trace) = .initial)
    (hflash : (received (exchanges ((main opts img).answer cfg c a).trace)).flash =
      (received (exchanges cfg.trace)).flash)
    (hplace : (resume cfg.state a).1.pc.looping = true →
      (received (exchanges ((main opts img).answer cfg c a).trace)).fresh =
        (!(resume cfg.state a).1.vars.firstTemp ||
          (announced ((main opts img).answer cfg c a).trace).isSome) ∧
      (received (exchanges ((main opts img).answer cfg c a).trace)).offset =
        (if (resume cfg.state a).1.vars.firstTemp = true ∧
            (announced ((main opts img).answer cfg c a).trace).isSome = true then
          blockOffset (resume cfg.state a).1.vars + 32#32
        else blockOffset (resume cfg.state a).1.vars) ∧
      (received (exchanges ((main opts img).answer cfg c a).trace)).words =
        (dataWords (resume cfg.state a).1.vars.dataBlock).take (resume cfg.state a).1.pc.round)
    (htaken : (resume cfg.state a).1.pc.streaming = true →
      announced ((main opts img).answer cfg c a).trace = none)
    (hcomplete : (cfg.state.pc.streaming = true → (resume cfg.state a).1.pc.streaming = true ∧
        blockOffset (resume cfg.state a).1.vars = blockOffset cfg.state.vars) ∨
      (resume cfg.state a).1.pc = .returned 1 ∧
        .flashComplete ∉ outputs ((main opts img).answer cfg c a).trace)
    (hrunning : cfg.state.pc ≠ .returned 1) :
    Delivering img ((main opts img).answer cfg c a) := by
  constructor
  · exact hopening
  · exact fun hlooping => (hplace hlooping).1
  · exact fun hlooping => (hplace hlooping).2.1
  · exact htaken
  · exact fun hlooping => (hplace hlooping).2.2
  · rw [hflash]
    exact h.correct
  · rw [hflash]
    intro pos hpos
    obtain ⟨k, off, hmem, hrange⟩ := h.within pos hpos
    exact ⟨k, off, (fseek_mem_quiet hquiet).mpr hmem, hrange⟩
  · rw [hflash]
    rcases hcomplete with hcomplete | hfailed
    · right
      intro k off hmem
      have hbefore := h.complete.resolve_left (fun hreturned => hrunning hreturned.1)
      rcases hbefore k off ((fseek_mem_quiet hquiet).mp hmem) with hstored | ⟨hstreaming, hoff⟩
      · exact .inl hstored
      · obtain ⟨hnext, hsame⟩ := hcomplete hstreaming
        exact .inr ⟨hnext, hoff.trans hsame.symm⟩
    · exact .inl hfailed

/-- A failed call does not arrive. -/
theorem delivering_failed (houtcome : Outcome cfg) (h : Delivering img cfg)
    (hc : pending cfg.state = some c) : Delivering img ((main opts img).answer cfg c none) := by
  have hresume := resume_none hc
  have hquiet : ¬ Selects cfg.state none := by
    rintro ⟨-, -, r, hr, -⟩
    cases hr
  have hrunning : cfg.state.pc ≠ .returned 1 := by
    intro hpc
    simp [pending, hpc] at hc
  have hsame : received (exchanges ((main opts img).answer cfg c none).trace) =
      received (exchanges cfg.trace) := by
    rw [received_answer, receive_failed]
  refine delivering_of_quiet h hquiet ?_ (by rw [hsame]) ?_ ?_ ?_ hrunning
  · rw [hresume]
    rintro ⟨⟩
  · rw [hresume]
    rintro ⟨⟩
  · rw [hresume]
    rintro ⟨⟩
  · cases hstreaming : cfg.state.pc.streaming with
    | false => exact .inl fun h => absurd h Bool.false_ne_true
    | true =>
        refine .inr ⟨by rw [hresume], fun hdone => ?_⟩
        rw [outputs_answer] at hdone
        have hbehind := (houtcome.complete (by simpa [main, hresume] using hdone)).1
        cases hpc : cfg.state.pc <;> simp_all [Pc.streaming, Pc.behindLoop]

/-- Before the offset is announced nothing arrives that matters. -/
theorem delivering_of_handshake (h : Delivering img cfg) (hc : pending cfg.state = some c)
    (r : Byte × Byte)
    (hhand : cfg.state.pc.handshake = true) (hset : cfg.state.pc ≠ .setOffset) :
    Delivering img ((main opts img).answer cfg c (some r)) := by
  have hcmd := pending_cmd hc
  have hsame : received (exchanges ((main opts img).answer cfg c (some r)).trace) =
      received (exchanges cfg.trace) := by
    rw [received_answer]
    apply receive_other <;> rw [hcmd] <;> cases hpc : cfg.state.pc <;>
      simp_all [Pc.handshake, Pc.command] <;> decide
  have hquiet : ¬ Selects cfg.state (some r) := by
    rintro ⟨hpoll, -⟩
    simp [hpoll, Pc.handshake] at hhand
  have hnext := (resume_before_setOffset hhand hset (some r)).1
  have hlooping : (resume cfg.state (some r)).1.pc.looping = false := by
    by_contra hnot
    simp [counting_of_looping (by simpa using hnot)] at hnext
  refine delivering_of_quiet h hquiet ?_ (by rw [hsame]) ?_ ?_ (.inl ?_) ?_
  · intro _
    rw [hsame, h.opening hhand]
  · simp [hlooping]
  · intro hstreaming
    simp [looping_of_streaming hstreaming] at hlooping
  · intro hstreaming
    simp [streaming_of_handshake hhand] at hstreaming
  · intro hpc
    simp [hpc, Pc.handshake] at hhand

/-- The start offset is announced. -/
theorem delivering_of_setOffset (hinv : Inv opts img (exchanges cfg.trace) cfg.state)
    (hpaced : Paced cfg) (hannouncing : Announcing cfg) (h : Delivering img cfg)
    (hc : pending cfg.state = some c) (r : Byte × Byte) (hset : cfg.state.pc = .setOffset) :
    Delivering img ((main opts img).answer cfg c (some r)) := by
  have hhand : cfg.state.pc.handshake = true := by simp [hset, Pc.handshake]
  have htracked := hinv.tracked_of_pending hc
  have hcall : c = ⟨cmdSetOffset, cfg.state.vars.io.1, cfg.state.vars.io.2, 2⟩ := by
    simpa [pending, hset, eq_comm] using hc
  have hreceived : received (exchanges ((main opts img).answer cfg c (some r)).trace) =
      Receiver.initial.announce cfg.state.vars.io.1 cfg.state.vars.io.2 := by
    rw [received_answer, h.opening hhand, hcall]
    exact receive_setOffset rfl
  have hresume : resume cfg.state (some r) = loopHead cfg.state.vars := by
    simp [resume, hset, onWrite]
  obtain ⟨io, needRejump, hframe⟩ := loopHead_frame cfg.state.vars
  obtain ⟨-, htemp, hfirst⟩ := hpaced.last.resolve_right fun hsome => by
    simp [(hannouncing.fresh hhand).2] at hsome
  have hquiet : ¬ Selects cfg.state (some r) := by
    rintro ⟨hpoll, -⟩
    simp [hpoll] at hset
  have hnone := loopHead_streaming cfg.state.vars
  refine delivering_of_quiet h hquiet ?_ ?_ ?_ ?_ (.inl ?_) ?_
  · rw [hresume, loopHead_handshake]
    rintro ⟨⟩
  · rw [hreceived, h.opening hhand]
    rfl
  · rw [hresume, hreceived, hframe]
    intro _
    have hzero : blockOffset cfg.state.vars = startOffset cfg.state.vars := by
      simp [blockOffset_eq, htemp]
    have hoff : (blockOffset cfg.state.vars).toNat =
        cfg.state.vars.io.1.toNat + 256 * cfg.state.vars.io.2.toNat := by
      rw [hzero, ← announcedOffset_offsetBytes htracked.startOffset_lt, ← hannouncing.initial hset]
      rfl
    refine ⟨by simp [hfirst, Receiver.announce], ?_, by
      simp [round_of_streaming hnone, Receiver.announce]⟩
    rw [if_neg (by simp [hfirst])]
    apply BitVec.eq_of_toNat_eq
    show (BitVec.ofNat 32 _).toNat = (blockOffset cfg.state.vars).toNat
    rw [hoff, BitVec.toNat_ofNat, Nat.mod_eq_of_lt]
    omega
  · rw [hresume, hnone]
    rintro ⟨⟩
  · rw [hset]
    rintro ⟨⟩
  · rw [hset]
    rintro ⟨⟩

/-- Commands without a meaning to the receiver. -/
theorem delivering_of_other (h : Delivering img cfg) (hc : pending cfg.state = some c)
    (r : Byte × Byte) (hpc : cfg.state.pc = .rejumpPhase ∨ cfg.state.pc = .rejumpStatus ∨
      cfg.state.pc = .finalize ∨ cfg.state.pc = .finishMode) :
    Delivering img ((main opts img).answer cfg c (some r)) := by
  have hcmd := pending_cmd hc
  have hset : c.cmd ≠ cmdSetOffset := by
    rcases hpc with hpc | hpc | hpc | hpc <;> rw [hcmd, hpc] <;> decide
  have hsame : received (exchanges ((main opts img).answer cfg c (some r)).trace) =
      received (exchanges cfg.trace) := by
    rw [received_answer]
    apply receive_other hset <;>
      rcases hpc with hpc | hpc | hpc | hpc <;> rw [hcmd, hpc] <;> decide
  have hpoll : cfg.state.pc ≠ .poll := by
    rcases hpc with hpc | hpc | hpc | hpc <;> simp [hpc]
  have hearly : cfg.state.pc.early = false := by
    rcases hpc with hpc | hpc | hpc | hpc <;> simp [hpc, Pc.early]
  have hstreaming : cfg.state.pc.streaming = false := by
    rcases hpc with hpc | hpc | hpc | hpc <;> simp [hpc, Pc.streaming]
  have hnone : (resume cfg.state (some r)).1.pc.streaming = false :=
    resume_streaming hpoll (by rcases hpc with hpc | hpc | hpc | hpc <;> simp [hpc]) _
  have hquiet : ¬ Selects cfg.state (some r) := fun hselects => hpoll hselects.1
  have hannounced : announced ((main opts img).answer cfg c (some r)).trace =
      announced cfg.trace := by
    rw [announced_quiet hquiet, if_neg hset]
  obtain ⟨io, resp, needRejump, hframe⟩ := frame_quiet hquiet hearly
  refine delivering_of_quiet h hquiet ?_ (by rw [hsame]) ?_ ?_ (.inl ?_) ?_
  · rw [resume_handshake (by rcases hpc with hpc | hpc | hpc | hpc <;> simp [hpc, Pc.handshake])]
    rintro ⟨⟩
  · intro hnext
    have hlooping := (looping_of_resume hnext).resolve_right
      (by rcases hpc with hpc | hpc | hpc | hpc <;> simp [hpc])
    rw [hsame, hannounced, hframe, round_of_streaming hnone, ← round_of_streaming hstreaming]
    exact ⟨h.fresh hlooping, h.offset hlooping, h.words hlooping⟩
  · rw [hnone]
    rintro ⟨⟩
  · rw [hstreaming]
    rintro ⟨⟩
  · rcases hpc with hpc | hpc | hpc | hpc <;> simp [hpc]

/-- The base offset is announced, one block ahead of the counter. -/
theorem delivering_of_rejumpOffset (hinv : Inv opts img (exchanges cfg.trace) cfg.state)
    (hannouncing : Announcing cfg) (h : Delivering img cfg) (hc : pending cfg.state = some c)
    (r : Byte × Byte) (hpc : cfg.state.pc = .rejumpOffset) :
    Delivering img ((main opts img).answer cfg c (some r)) := by
  have htracked := hinv.tracked_of_pending hc
  have hcall : c = ⟨cmdSetOffset, cfg.state.vars.io.1, cfg.state.vars.io.2, 2⟩ := by
    simpa [pending, hpc, eq_comm] using hc
  have hreceived : received (exchanges ((main opts img).answer cfg c (some r)).trace) =
      (received (exchanges cfg.trace)).announce cfg.state.vars.io.1 cfg.state.vars.io.2 := by
    rw [received_answer, hcall]
    exact receive_setOffset rfl
  have hquiet : ¬ Selects cfg.state (some r) := by
    rintro ⟨hpoll, -⟩
    simp [hpoll] at hpc
  have hannounced : (announced ((main opts img).answer cfg c (some r)).trace).isSome = true := by
    rw [announced_quiet hquiet, if_pos (by rw [hcall])]
    rfl
  have hresume : resume cfg.state (some r) = goto .poll cfg.state.vars := by
    simp [resume, hpc, onWrite]
  obtain ⟨hfirst, -, hnext⟩ := hannouncing.jump (by simp [hpc, Pc.looping])
    (.inr (by simp [hpc, Pc.rejumping]))
  have hoff : (blockOffset cfg.state.vars + 32#32).toNat =
      cfg.state.vars.io.1.toNat + 256 * cfg.state.vars.io.2.toNat := by
    rw [hnext, ← announcedOffset_offsetBytes htracked.baseOffset_lt, ← hannouncing.again hpc]
    rfl
  refine delivering_of_quiet h hquiet ?_ ?_ ?_ ?_ (.inl ?_) ?_
  · rw [hresume]
    rintro ⟨⟩
  · rw [hreceived]
    rfl
  · rw [hresume, hreceived, hannounced]
    intro _
    refine ⟨by simp [Receiver.announce], ?_, by simp [Receiver.announce, goto, Pc.round]⟩
    rw [if_pos ⟨hfirst, rfl⟩]
    apply BitVec.eq_of_toNat_eq
    show (BitVec.ofNat 32 _).toNat = (blockOffset cfg.state.vars + 32#32).toNat
    rw [hoff, BitVec.toNat_ofNat, Nat.mod_eq_of_lt]
    omega
  · rw [hresume]
    rintro ⟨⟩
  · rw [hpc]
    rintro ⟨⟩
  · rw [hpc]
    rintro ⟨⟩

/-- A poll that asks for no block. -/
theorem delivering_of_poll (hinv : Inv opts img (exchanges cfg.trace) cfg.state)
    (hsize : 0 < img.size) (h : Delivering img cfg) (hc : pending cfg.state = some c)
    {r : Byte × Byte} (hpoll : cfg.state.pc = .poll) (hquiet : ¬ Selects cfg.state (some r)) :
    Delivering img ((main opts img).answer cfg c (some r)) := by
  have htracked := hinv.tracked_of_pending hc
  have hlooping : cfg.state.pc.looping = true := by simp [hpoll, Pc.looping]
  have hr : ¬ AsksBlock r.1 := fun hr =>
    hquiet ⟨hpoll, htracked.fileSize_ne_zero hsize, r, rfl, hr⟩
  have hcmd := cmd_of_poll hc hpoll
  have hwords : (received (exchanges cfg.trace)).words = [] := by
    rw [h.words hlooping, hpoll]
    rfl
  have hsame : received (exchanges ((main opts img).answer cfg c (some r)).trace) =
      received (exchanges cfg.trace) := by
    have hone : ¬ r.1 = 1#8 := fun hr' => hr (.inr (.inl hr'))
    rw [received_answer, receive_poll hcmd, Receiver.poll, if_neg hone,
      ← hwords]
  have hannounced : announced ((main opts img).answer cfg c (some r)).trace =
      announced cfg.trace := by
    rw [announced_quiet hquiet, hcmd, if_neg (by decide)]
  have hresume := resume_not_asks hpoll hr
  obtain ⟨io, needRejump, hframe⟩ := loopHead_frame { cfg.state.vars with resp := r }
  have hnone := loopHead_streaming { cfg.state.vars with resp := r }
  refine delivering_of_quiet h hquiet ?_ (by rw [hsame]) ?_ ?_ (.inl ?_) (by simp [hpoll])
  · rw [hresume, loopHead_handshake]
    rintro ⟨⟩
  · rw [hresume, hsame, hannounced, hframe, round_of_streaming hnone]
    intro _
    refine ⟨h.fresh hlooping, h.offset hlooping, hwords⟩
  · rw [hresume, hnone]
    rintro ⟨⟩
  · rw [hpoll]
    rintro ⟨⟩

/-- A data word arrives. -/
theorem delivering_of_word (hinv : Inv opts img (exchanges cfg.trace) cfg.state)
    (h : Delivering img cfg) (hc : pending cfg.state = some c) (r : Byte × Byte) {i : Nat}
    (hpc : cfg.state.pc = .streamWord i) :
    Delivering img ((main opts img).answer cfg c (some r)) := by
  have hstreaming : cfg.state.pc.streaming = true := by simp [hpc, Pc.streaming]
  have hlooping := looping_of_streaming hstreaming
  obtain ⟨hlt, heven, -⟩ := hinv.word i hpc
  have hcmd := cmd_of_streaming hc hstreaming
  have hround : cfg.state.pc.round = i / 2 := by simp [hpc, Pc.round]
  have hwords := h.words hlooping
  rw [hround] at hwords
  have hlength : (received (exchanges cfg.trace)).words.length = i / 2 := by
    rw [hwords, List.length_take, length_dataWords]
    omega
  -- The call carries the next word of the block.
  have hword : (dataWords cfg.state.vars.dataBlock)[i / 2]? = some (c.io0, c.io1) := by
    have hcall := call_streams hinv hc hstreaming
    rwa [hround, blockPayload, List.getElem?_append_left (by simp; omega)] at hcall
  have hreceived : received (exchanges ((main opts img).answer cfg c (some r)).trace) =
      { received (exchanges cfg.trace) with
        words := (dataWords cfg.state.vars.dataBlock).take (i / 2 + 1) } := by
    rw [received_answer, receive_streamData hcmd,
      take_word (by omega), hwords, List.take_add_one, hword, Option.toList_some]
  have hquiet : ¬ Selects cfg.state (some r) := by
    rintro ⟨hpoll, -⟩
    simp [hpoll] at hpc
  have hannounced : announced ((main opts img).answer cfg c (some r)).trace =
      announced cfg.trace := by
    rw [announced_quiet hquiet, hcmd, if_neg (by decide)]
  obtain ⟨io, resp, needRejump, hframe⟩ := frame_quiet hquiet (early_of_streaming hstreaming)
  have hnext : (resume cfg.state (some r)).1.pc.streaming = true ∧
      (resume cfg.state (some r)).1.pc.round = i / 2 + 1 := by
    simp only [resume, hpc, onWrite, streamFrom]
    split <;> simp only [goto, Pc.streaming, Pc.round, true_and] <;> omega
  refine delivering_of_quiet h hquiet ?_ (by rw [hreceived]) ?_ ?_ (.inl ?_) (by simp [hpc])
  · rw [resume_handshake (by simp [hpc, Pc.handshake])]
    rintro ⟨⟩
  · rw [hreceived, hannounced, hframe, hnext.2]
    exact fun _ => ⟨h.fresh hlooping, h.offset hlooping, rfl⟩
  · rw [hannounced]
    exact fun _ => h.taken hstreaming
  · rw [hframe]
    exact fun _ => ⟨hnext.1, rfl⟩

/-- The receiver has the whole block when the trailer arrives. -/
theorem receive_trailer (hinv : Inv opts img (exchanges cfg.trace) cfg.state)
    (h : Delivering img cfg) (hc : pending cfg.state = some c) (r : Byte × Byte)
    (hpc : cfg.state.pc = .streamTrailer) :
    (received (exchanges cfg.trace)).receive (c, some r) =
      (received (exchanges cfg.trace)).stored cfg.state.vars.dataBlock := by
  have hstreaming : cfg.state.pc.streaming = true := by simp [hpc, Pc.streaming]
  have hlength : cfg.state.vars.dataBlock.length = 32 := by
    rw [hinv.loaded hstreaming, Image.length_block]
  have hwords : (received (exchanges cfg.trace)).words = dataWords cfg.state.vars.dataBlock := by
    rw [h.words (looping_of_streaming hstreaming), hpc]
    exact List.take_of_length_le (by simp [Pc.round])
  have hcmd := cmd_of_streaming hc hstreaming
  rw [receive_streamData hcmd, payload_of_streaming hc hstreaming, hinv.trailer hpc,
    take_trailer (by rw [hwords, wordBytes_dataWords hlength]) (by simp [hwords])]

/-- The trailer arrives, and the block is stored where it stands in the file. -/
theorem delivering_of_trailer (hinv : Inv opts img (exchanges cfg.trace) cfg.state)
    (hpaced : Paced cfg) (h : Delivering img cfg) (hc : pending cfg.state = some c)
    (r : Byte × Byte) (hpc : cfg.state.pc = .streamTrailer) :
    Delivering img ((main opts img).answer cfg c (some r)) := by
  have hstreaming : cfg.state.pc.streaming = true := by simp [hpc, Pc.streaming]
  have hlooping := looping_of_streaming hstreaming
  have hcmd := cmd_of_streaming hc hstreaming
  have hreceived : received (exchanges ((main opts img).answer cfg c (some r)).trace) =
      (received (exchanges cfg.trace)).stored cfg.state.vars.dataBlock := by
    rw [received_answer, receive_trailer hinv h hc r hpc]
  have hflash : (received (exchanges ((main opts img).answer cfg c (some r)).trace)).flash =
      storeBytes (received (exchanges cfg.trace)).flash (blockOffset cfg.state.vars).toNat
        (img.block store 32 (blockOffset cfg.state.vars).toNat) := by
    rw [hreceived, Receiver.stored, h.offset_of_streaming hstreaming, hinv.loaded hstreaming]
  have hinside (pos : Nat) (hin : (blockOffset cfg.state.vars).toNat ≤ pos ∧
      pos < (blockOffset cfg.state.vars).toNat + 32) :
      (received (exchanges ((main opts img).answer cfg c (some r)).trace)).flash pos =
        some (store (img.getc pos)) := by
    rw [hflash, storeBytes_block img store _ hin, Nat.add_sub_cancel' hin.1]
  have houtside (pos : Nat) (hout : ¬ ((blockOffset cfg.state.vars).toNat ≤ pos ∧
      pos < (blockOffset cfg.state.vars).toNat + 32)) :
      (received (exchanges ((main opts img).answer cfg c (some r)).trace)).flash pos =
        (received (exchanges cfg.trace)).flash pos := by
    rw [hflash]
    exact storeBytes_of_not_mem (by rwa [Image.length_block])
  have hquiet : ¬ Selects cfg.state (some r) := by
    rintro ⟨hpoll, -⟩
    simp [hpoll] at hpc
  have hannounced : announced ((main opts img).answer cfg c (some r)).trace =
      announced cfg.trace := by
    rw [announced_quiet hquiet, hcmd, if_neg (by decide)]
  have hresume : resume cfg.state (some r) = loopHead cfg.state.vars := by
    simp [resume, hpc, onWrite]
  have hstate : ((main opts img).answer cfg c (some r)).state = (loopHead cfg.state.vars).1 := by
    rw [answer_state, hresume]
  obtain ⟨io, needRejump, hframe⟩ := loopHead_frame cfg.state.vars
  have hnone := loopHead_streaming cfg.state.vars
  obtain ⟨before, after, hsplit, -⟩ := exists_of_lastSeek (hpaced.lastSeek_of_streaming hstreaming)
  have hcurrent : .fseek cfg.state.vars.temp (blockOffset cfg.state.vars) ∈ outputs cfg.trace := by
    rw [hsplit]
    simp [outputs]
  constructor
  · rw [hstate, loopHead_handshake]
    rintro ⟨⟩
  · rw [hstate, hreceived, hannounced, hframe]
    exact fun _ => h.fresh hlooping
  · rw [hstate, hreceived, hannounced, hframe]
    exact fun _ => h.offset hlooping
  · rw [hstate, hnone]
    rintro ⟨⟩
  · rw [hstate, hreceived, round_of_streaming hnone]
    exact fun _ => rfl
  · intro pos b hb
    by_cases hin : (blockOffset cfg.state.vars).toNat ≤ pos ∧
        pos < (blockOffset cfg.state.vars).toNat + 32
    · rw [hinside pos hin, Option.some.injEq] at hb
      exact hb.symm
    · rw [houtside pos hin] at hb
      exact h.correct pos b hb
  · intro pos hpos
    by_cases hin : (blockOffset cfg.state.vars).toNat ≤ pos ∧
        pos < (blockOffset cfg.state.vars).toNat + 32
    · exact ⟨_, _, (fseek_mem_quiet hquiet).mpr hcurrent, hin⟩
    · rw [houtside pos hin] at hpos
      obtain ⟨k, off, hmem, hrange⟩ := h.within pos hpos
      exact ⟨k, off, (fseek_mem_quiet hquiet).mpr hmem, hrange⟩
  · right
    intro k off hmem
    left
    intro pos hlow hhigh
    by_cases hin : (blockOffset cfg.state.vars).toNat ≤ pos ∧
        pos < (blockOffset cfg.state.vars).toNat + 32
    · rw [hinside pos hin]
      exact Option.some_ne_none _
    · rw [houtside pos hin]
      have hbefore := h.complete.resolve_left (by simp [hpc])
      rcases hbefore k off ((fseek_mem_quiet hquiet).mp hmem) with hstored | ⟨-, rfl⟩
      · exact hstored pos hlow hhigh
      · exact absurd ⟨hlow, hhigh⟩ hin

/-- One answered call keeps the agreement when it meets the condition. -/
theorem delivering_answer (hinv : Inv opts img (exchanges cfg.trace) cfg.state)
    (hpaced : Paced cfg) (hannouncing : Announcing cfg) (houtcome : Outcome cfg)
    (hsize : 0 < img.size) (h : Delivering img cfg) (hc : pending cfg.state = some c)
    (hagrees : StepAgrees cfg a) : Delivering img ((main opts img).answer cfg c a) := by
  cases a with
  | none => exact delivering_failed houtcome h hc
  | some r =>
      by_cases hselects : Selects cfg.state (some r)
      · obtain ⟨hpoll, hfile, r', hr', hr⟩ := hselects
        obtain rfl := Option.some.inj hr'
        exact delivering_of_selects hpaced h hc hpoll hr hfile hagrees
      · cases hpc : cfg.state.pc with
        | readIdVerA | readIdVerB | readBaseOff | readStatus | phaseCtrl =>
            exact delivering_of_handshake h hc r (by simp [hpc, Pc.handshake]) (by simp [hpc])
        | setOffset => exact delivering_of_setOffset hinv hpaced hannouncing h hc r hpc
        | rejumpPhase | rejumpStatus | finalize | finishMode =>
            exact delivering_of_other h hc r (by simp [hpc])
        | rejumpOffset => exact delivering_of_rejumpOffset hinv hannouncing h hc r hpc
        | poll => exact delivering_of_poll hinv hsize h hc hpc hselects
        | streamWord i => exact delivering_of_word hinv h hc r hpc
        | streamTrailer => exact delivering_of_trailer hinv hpaced h hc r hpc
        | returned rc | sigfpe => simp [pending, hpc] at hc

theorem delivering_run (opts : Options) {img : Image} (hsize : 0 < img.size) (as : List Transfer)
    (hagrees : (main opts img).AllSteps StepAgrees as) :
    Delivering img ((main opts img).run as) := by
  refine hagrees.induction (I := fun cfg => Inv opts img (exchanges cfg.trace) cfg.state ∧
    Paced cfg ∧ Announcing cfg ∧ Outcome cfg) ?_ ?_ ?_
  · exact fun bs => ⟨inv_run opts img bs, paced_run opts img bs, announcing_run opts img bs,
      outcome_run opts img bs⟩
  · exact ⟨fun _ => rfl, nofun, nofun, nofun, nofun, nofun, nofun, .inr nofun⟩
  · rintro cfg c a ⟨hinv, hpaced, hannouncing, houtcome⟩ h hc ha
    exact delivering_answer hinv hpaced hannouncing houtcome hsize h hc ha

/-! ## Without the boot block -/

/-- The base offset is never in front of the first block, so there is no re-jump. -/
theorem not_rejumping (hinv : Inv opts img (exchanges cfg.trace) cfg.state)
    (hmeasured : cfg.state.pc.chosen = true → Measured (exchanges cfg.trace) cfg.state.vars)
    (hannouncing : Announcing cfg) (hbbl : opts.includeBootloader = false)
    (hc : pending cfg.state = some c) : cfg.state.pc.rejumping = false := by
  by_contra hnot
  have hrejumping : cfg.state.pc.rejumping = true := by simpa using hnot
  have htracked := hinv.tracked_of_pending hc
  have hlooping : cfg.state.pc.looping = true := by
    cases hpc : cfg.state.pc <;> simp_all [Pc.rejumping, Pc.looping]
  have hchosen := chosen_of_looping hlooping
  obtain ⟨hfirst, -, hnext⟩ := hannouncing.jump hlooping (.inr hrejumping)
  have hnot : cfg.state.vars.ctx.includeBootloader = false := by
    cases hincluded : cfg.state.vars.ctx.includeBootloader with
    | false => rfl
    | true => exact absurd (htracked.bbl hincluded) (by simp [hbbl])
  have hstart : startOffset cfg.state.vars = cfg.state.vars.baseOffset := by
    simp [startOffset, hnot]
  -- The counter would have to come around.
  have hacks : 0 < ackCount (exchanges cfg.trace) := by simpa [htracked.firstTemp] using hfirst
  have hle := (hmeasured hchosen).le
  rw [blockOffset_eq, hstart, htracked.temp] at hnext
  have hnat := congrArg BitVec.toNat hnext
  unfold blockCount areaSize at hle
  simp only [BitVec.toNat_add, BitVec.toNat_mul, blockSize, BitVec.toNat_ofNat] at hnat
  have hbase := htracked.baseOffset_lt
  omega

/-- The only announcement stands in front of the first block. -/
theorem lastSeek_of_announced (hsize : img.size = 0x20000) (hbbl : opts.includeBootloader = false)
    (as : List Transfer) (h : announced ((main opts img).run as).trace ≠ none) :
    lastSeek ((main opts img).run as).trace = none := by
  revert h
  refine Machine.run_invariant_under (I := fun cfg =>
    Inv opts img (exchanges cfg.trace) cfg.state ∧ Announcing cfg ∧
      (cfg.state.pc.chosen = true → Measured (exchanges cfg.trace) cfg.state.vars))
    (P := fun cfg => announced cfg.trace ≠ none → lastSeek cfg.trace = none) ?_ ?_ ?_ as
  · exact fun bs => ⟨inv_run opts img bs, announcing_run opts img bs, measured_run opts hsize bs⟩
  · exact fun h => absurd rfl h
  · rintro cfg c a ⟨hinv, hannouncing, hmeasured⟩ h hc hsome
    by_cases hselects : Selects cfg.state a
    · obtain ⟨hpoll, hfile, r, rfl, hr⟩ := hselects
      rw [answer_asks_trace opts img c hpoll hr hfile] at hsome
      simp [announced, announceStep] at hsome
    · rw [lastSeek_quiet hselects]
      rw [announced_quiet hselects] at hsome
      by_cases hset : c.cmd = cmdSetOffset
      · have hjump := not_rejumping hinv hmeasured hannouncing hbbl hc
        have hpc : cfg.state.pc = .setOffset := by
          rw [pending_cmd hc] at hset
          cases hpc : cfg.state.pc <;> simp_all [Pc.command, Pc.rejumping] <;>
            exact absurd hset (by decide)
        exact (hannouncing.fresh (by simp [hpc, Pc.handshake])).2
      · rw [if_neg hset] at hsome
        exact h hsome

theorem agrees_of_keptBootBlock (hsize : img.size = 0x20000)
    (hbbl : opts.includeBootloader = false) (as : List Transfer) :
    (main opts img).AllSteps StepAgrees as :=
  fun n _ _ _ hsome hseek =>
    absurd (lastSeek_of_announced hsize hbbl (as.take n) hsome) hseek

end Step

/-! ## The flash of the receiver -/

theorem store_getc (img : Image) (pos : Nat) :
    store (img.getc pos) = (img.byte? pos).getD 0xFF#8 := by
  unfold Image.getc
  cases img.byte? pos with
  | none => rfl
  | some b => exact store_byte b

/-- Whatever the receiver has stored at a point of a run is the byte of the file
there, or the filler behind its end. -/
theorem received_correct (opts : Options) (img : Image) (hsize : 0 < img.size)
    (as : List Transfer) (hagrees : (main opts img).AllSteps StepAgrees as) (pos : Nat) (b : Byte)
    (hb : (received (exchanges ((main opts img).run as).trace)).flash pos = some b) :
    b = (img.byte? pos).getD 0xFF#8 := by
  rw [← store_getc]
  exact (delivering_run opts hsize as hagrees).correct pos b hb

instance (cfg : Moment) (a : Transfer) : Decidable (StepAgrees cfg a) :=
  match a with
  | none => .isTrue fun _ _ _ _ hr => by cases hr
  | some r =>
      decidable_of_iff (cfg.state.pc = .poll → announced cfg.trace ≠ none →
          lastSeek cfg.trace ≠ none → AsksBlock r.1 → r.1 = 1#8) <| by
        constructor
        · rintro h hpoll hsome hseek r' ⟨⟩ hr
          exact h hpoll hsome hseek hr
        · exact fun h hpoll hsome hseek hr => h hpoll hsome hseek r rfl hr

/-- With `-bbl` and base offset `0x20`, the second block goes out behind the re-jump. -/
theorem received_correct_rejump : 1#8 = (sampleImage.byte? 0x20).getD 0xFF#8 :=
  received_correct (sampleOptions true) sampleImage (by decide)
    (handshakeReplies 0#8 0x20#8 0#8 ++ pollAndBlock 1#8 ++
      [some (0#8, 0#8), some (0x55#8, 0#8), some (0#8, 0#8)] ++ pollAndBlock 1#8)
    (by decide +kernel) 0x20 1#8 (by decide +kernel)

/-- What the receiver has when the loop has finished. -/
theorem flash_of_finished (opts : Options) {img : Image} (hsize : img.size = 0x20000)
    {as : List Transfer} (hsteps : (main opts img).AllSteps StepAgrees as)
    (hfinished : LoopFinished ((main opts img).run as)) {start : Nat}
    (hstart : (startOffset ((main opts img).run as).state.vars).toNat = start) (pos : Nat) :
    (received (exchanges ((main opts img).run as).trace)).flash pos =
      if start ≤ pos ∧ pos < start + 32 * ((0x1C000 - start + 31) / 32) then img.byte? pos
      else none := by
  have hdelivering := delivering_run opts (by omega) as hsteps
  have hselected := fseek_mem_iff opts hsize hfinished
  have houtcome := outcome_run opts img as
  have hinv := inv_run opts img as
  generalize (main opts img).run as = cfg at *
  have hend := (houtcome.complete hfinished.behind).1
  have hquiet := streaming_of_behindLoop hend
  have hlow := (hinv.tracked fun hpc => by simp [hpc, Pc.behindLoop] at hend).startOffset_lt
  have hcount : blockCount cfg.state.vars = (0x1C000 - start + 31) / 32 := by
    unfold blockCount areaSize
    omega
  rw [hstart, hcount] at hselected
  have hcomplete := hdelivering.complete.resolve_left fun h => h.2 hfinished.behind
  split
  · rename_i hin
    -- The block around the byte was selected.
    obtain ⟨t, ht⟩ : ∃ t, (pos - start) / 32 = t := ⟨_, rfl⟩
    have hoff : (BitVec.ofNat 32 (start + 32 * t)).toNat = start + 32 * t := by
      rw [BitVec.toNat_ofNat, Nat.mod_eq_of_lt (by omega)]
    have hmem := (hselected (BitVec.ofNat 32 t) _).mpr ⟨t, by omega, rfl, hoff⟩
    have hstored := (hcomplete _ _ hmem).resolve_right (by simp [hquiet]) pos (by omega) (by omega)
    obtain ⟨b, hb⟩ := Option.ne_none_iff_exists'.mp hstored
    have hlt : pos < img.size := by omega
    rw [hb, hdelivering.correct pos b hb, store_getc]
    simp [Image.byte?, hlt]
  · rename_i hout
    by_contra hstored
    obtain ⟨k, off, hmem, hfrom, hto⟩ := hdelivering.within pos hstored
    obtain ⟨t, ht, -, hoff⟩ := (hselected k off).mp hmem
    exact hout ⟨by omega, by omega⟩

/-- A finished flash of a full-size image has put exactly the blocks of the file from
the start offset up to the cut-off into the receiver, and has stored no block outside. -/
theorem received_finished (opts : Options) (img : Image) (hsize : img.size = 0x20000)
    (as : List Transfer)
    (hagrees : opts.includeBootloader = false ∨ (main opts img).AllSteps StepAgrees as)
    (hfinished : LoopFinished ((main opts img).run as)) (pos : Nat) :
    let start := (if bootBlockIncluded opts (exchanges ((main opts img).run as).trace) then 0#32
      else reportedBaseOffset (exchanges ((main opts img).run as).trace)).toNat
    (received (exchanges ((main opts img).run as).trace)).flash pos =
      if start ≤ pos ∧ pos < start + 32 * ((0x1C000 - start + 31) / 32) then img.byte? pos
      else none := by
  intro start
  have hsteps : (main opts img).AllSteps StepAgrees as :=
    hagrees.elim (fun hbbl => agrees_of_keptBootBlock hsize hbbl as) id
  have hsettled := settled_run opts img as
  apply flash_of_finished opts hsize hsteps hfinished
  simp [start, startOffset, hsettled.baseOffset, hsettled.included]

theorem received_finished_unaligned :
    ∃ as, LoopFinished ((main (sampleOptions false) sampleImage).run as) ∧ ∀ pos,
      let xs := exchanges ((main (sampleOptions false) sampleImage).run as).trace
      let start := (if bootBlockIncluded (sampleOptions false) xs then 0#32
        else reportedBaseOffset xs).toNat
      (received xs).flash pos =
        if start ≤ pos ∧ pos < start + 32 * ((0x1C000 - start + 31) / 32) then sampleImage.byte? pos
        else none := by
  have hsize : sampleImage.size = 0x20000 := rfl
  obtain ⟨bs, -, hfinished⟩ := exists_finished (sampleOptions false) hsize _
    (getsOn_reads _ hsize 0x80#8 0x10#8 0#8)
  exact ⟨_, hfinished, received_finished _ _ rfl _ (.inl rfl) hfinished⟩

end First
end EcFlash
