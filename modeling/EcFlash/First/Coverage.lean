import EcFlash.First.Announce
import EcFlash.First.Completion

/-!
# The area that is written

A byte is written when the block around it was selected and all its words were
sent.  On a full-size image a run that finishes writes exactly the blocks from
the announced start offset up to the cut-off, which lies `0x4000` bytes before
the end of the file, rounded up to whole blocks.
-/

namespace EcFlash
namespace First

open Reactive

/-- The block at `off` was selected, with number `k`, and its words and the
trailer were sent after that. -/
def BlockSent (img : Image) (tr : History) (k off : Word) : Prop :=
  ∃ before mid after, tr = before ++ .out (.fseek k off) :: (mid ++ after) ∧
    streamed (exchanges mid) = blockPayload (img.block store 32 off.toNat) (k.setWidth 8)

/-- The byte of the file at `pos` was streamed in some block. -/
def StreamsByte (img : Image) (tr : History) (pos : Nat) : Prop :=
  ∃ k off, BlockSent img tr k off ∧ off.toNat ≤ pos ∧ pos < off.toNat + 32

/-- The offset announced by the first `CMD_SET_OFFSET`. -/
def firstAnnounced? (xs : Exchanges) : Option Nat :=
  (xs.find? fun x => x.1.cmd = cmdSetOffset).map fun x => announcedOffset (x.1.io0, x.1.io1)

/-- The current block has been sent up to the point, and the blocks before it
completely, unless a call failed on the way. -/
structure Sent (img : Image) (cfg : Moment) : Prop where
  current : cfg.state.pc.streaming = true → ∃ before mid,
    cfg.trace = before ++
      .out (.fseek cfg.state.vars.temp (blockOffset cfg.state.vars)) :: mid ∧
    streamed (exchanges mid) =
      (blockPayload cfg.state.vars.dataBlock (cfg.state.vars.temp.setWidth 8)).take
        cfg.state.pc.round
  earlier : (cfg.state.pc = .returned 1 ∧ .flashComplete ∉ outputs cfg.trace) ∨
    ∀ k off, .fseek k off ∈ outputs cfg.trace → BlockSent img cfg.trace k off ∨
      cfg.state.pc.streaming = true ∧ k = cfg.state.vars.temp ∧
        off = blockOffset cfg.state.vars

/-- The blocks selected so far are those that the poll replies ask for. -/
def Selected (cfg : Moment) : Prop :=
  seeks (outputs cfg.trace) =
    (blockIndices (pollReplies (exchanges cfg.trace))).map fun t =>
      (BitVec.ofNat 32 t, BitVec.ofNat 32 t * blockSize + startOffset cfg.state.vars)

/-- The first announcement is the last call of the handshake. -/
structure Opened (cfg : Moment) : Prop where
  fresh : cfg.state.pc.handshake = true → cmdSetOffset ∉ cmds (exchanges cfg.trace)
  start : cfg.state.pc.counting = true ∨ .flashComplete ∈ outputs cfg.trace →
    firstAnnounced? (exchanges cfg.trace) = some (startOffset cfg.state.vars).toNat

section Step

variable {opts : Options} {img : Image} {cfg : Moment} {s : State} {c : Call} {a : Transfer}

theorem BlockSent.append {tr : History} {k off : Word} (h : BlockSent img tr k off)
    (es : History) : BlockSent img (tr ++ es) k off := by
  obtain ⟨before, mid, after, rfl, hmid⟩ := h
  exact ⟨before, mid, after ++ es, by simp, hmid⟩

/-- The words of the current block follow its seek. -/
theorem current_quiet (hinv : Inv opts img (exchanges cfg.trace) cfg.state) (h : Sent img cfg)
    (hc : pending cfg.state = some c) (hstreaming : cfg.state.pc.streaming = true)
    (r : Byte × Byte) :
    ∃ before mid, ((main opts img).answer cfg c (some r)).trace = before ++
        .out (.fseek cfg.state.vars.temp (blockOffset cfg.state.vars)) :: mid ∧
      streamed (exchanges mid) =
        (blockPayload cfg.state.vars.dataBlock (cfg.state.vars.temp.setWidth 8)).take
          (cfg.state.pc.round + 1) := by
  obtain ⟨before, mid, htr, hmid⟩ := h.current hstreaming
  refine ⟨before, mid ++ .call c (some r) :: (resume cfg.state (some r)).2.map .out, ?_, ?_⟩
  · rw [answer_trace, htr]
    simp
  · have hword : streamed (exchanges (.call c (some r) ::
        (resume cfg.state (some r)).2.map .out : History)) = [(c.io0, c.io1)] := by
      have hcmd : c.cmd = cmdStreamData := by
        rw [pending_cmd hc]
        cases hpc : cfg.state.pc <;> simp_all [Pc.streaming, Pc.command]
      simp [streamWord?, hcmd]
    rw [exchanges_append, streamed_append, hmid, hword, List.take_add_one,
      call_streams hinv hc hstreaming, Option.toList_some]

/-- A selected block is the current one from then on. -/
theorem sent_of_selects (h : Sent img cfg) (hpoll : cfg.state.pc = .poll) {r : Byte × Byte}
    (hr : AsksBlock r.1) (hfile : cfg.state.vars.ctx.fileSize ≠ 0#32) :
    Sent img ((main opts img).answer cfg c (some r)) := by
  have hstate := answer_asks_state opts img c hpoll hr hfile
  have htrace := answer_asks_trace opts img c hpoll hr hfile
  generalize advance { cfg.state.vars with resp := r } = l' at hstate htrace
  have hearlier := h.earlier.resolve_left (by simp [hpoll])
  constructor
  · rw [hstate, htrace]
    intro _
    refine ⟨cfg.trace ++ [.call c (some r),
      .out (.progress (percentage cfg.state.vars.ctx.fileSize cfg.state.vars.remaining))],
      [], ?_, rfl⟩
    rw [List.append_assoc]
    rfl
  · right
    rw [hstate, htrace]
    intro k off hmem
    rw [outputs_append, List.mem_append] at hmem
    rcases hmem with hmem | hmem
    · have hsent := (hearlier k off hmem).resolve_right (by simp [hpoll, Pc.streaming])
      exact .inl (hsent.append _)
    · obtain ⟨rfl, rfl⟩ : k = l'.temp ∧ off = blockOffset l' := by simpa [outputs] using hmem
      exact .inr ⟨rfl, rfl, rfl⟩

/-- The trailer completes the current block. -/
theorem blockSent_of_trailer (hinv : Inv opts img (exchanges cfg.trace) cfg.state)
    (h : Sent img cfg) (hc : pending cfg.state = some c) (hpc : cfg.state.pc = .streamTrailer)
    (r : Byte × Byte) :
    BlockSent img ((main opts img).answer cfg c (some r)).trace cfg.state.vars.temp
      (blockOffset cfg.state.vars) := by
  have hstreaming : cfg.state.pc.streaming = true := by simp [hpc, Pc.streaming]
  obtain ⟨before, mid, htr, hmid⟩ := current_quiet hinv h hc hstreaming r
  refine ⟨before, mid, [], by rw [htr, List.append_nil], ?_⟩
  have hloaded := hinv.loaded hstreaming
  unfold Loaded at hloaded
  rw [hmid, ← hloaded, hpc, List.take_of_length_le (by simp [Pc.round])]

/-- The other calls send the current block on. -/
theorem sent_of_quiet (hinv : Inv opts img (exchanges cfg.trace) cfg.state)
    (houtcome : Outcome cfg) (h : Sent img cfg) (hc : pending cfg.state = some c)
    (hquiet : ¬ Selects cfg.state a) : Sent img ((main opts img).answer cfg c a) := by
  have hstate : ((main opts img).answer cfg c a).state = _ := answer_state cfg c a
  have hearlier := h.earlier.resolve_left (by
    rintro ⟨hpc, -⟩
    simp [pending, hpc] at hc)
  have hseek {k off : Word}
      (hmem : .fseek k off ∈ outputs ((main opts img).answer cfg c a).trace) :
      .fseek k off ∈ outputs cfg.trace := by
    rw [outputs_answer, ← mem_seeks, seeks_append, seeks_quiet hquiet, List.append_nil] at hmem
    exact mem_seeks.mp hmem
  cases hstreaming : cfg.state.pc.streaming with
  | false =>
      have hnext : (resume cfg.state a).1.pc.streaming = false := by
        by_contra hnot
        simp [streaming_quiet hquiet (by simpa using hnot)] at hstreaming
      refine ⟨by simp [hstate, hnext], .inr fun k off hmem => .inl ?_⟩
      have hsent := (hearlier k off (hseek hmem)).resolve_right (by simp [hstreaming])
      rw [answer_trace]
      exact hsent.append _
  | true =>
      have hearly := early_of_streaming hstreaming
      cases a with
      | none =>
          -- The block stays unfinished, but so does the loop.
          rw [show (main opts img).answer cfg c none =
            ⟨cfg.trace ++ [.call c none], ⟨.returned 1, cfg.state.vars⟩⟩ by
              simp [Machine.answer, main, resume_none hc]]
          refine ⟨by simp [Pc.streaming], .inl ⟨rfl, fun hdone => ?_⟩⟩
          have hbehind := (houtcome.complete (by simpa [outputs] using hdone)).1
          cases hpc : cfg.state.pc <;> simp_all [Pc.streaming, Pc.behindLoop]
      | some r =>
          obtain ⟨io, resp, needRejump, hframe⟩ := frame_quiet hquiet hearly
          have hearlier' (k off : Word)
              (hmem : .fseek k off ∈ outputs ((main opts img).answer cfg c (some r)).trace) :
              BlockSent img ((main opts img).answer cfg c (some r)).trace k off ∨
                k = cfg.state.vars.temp ∧ off = blockOffset cfg.state.vars := by
            rcases hearlier k off (hseek hmem) with hsent | ⟨-, hk, hoff⟩
            · exact .inl (hsent.append _)
            · exact .inr ⟨hk, hoff⟩
          cases hpc : cfg.state.pc with
          | streamWord i =>
              -- One more word of the current block.
              obtain ⟨hlt, heven, -⟩ := hinv.word i hpc
              have hnext : (resume cfg.state (some r)).1.pc.streaming = true ∧
                  (resume cfg.state (some r)).1.pc.round = cfg.state.pc.round + 1 := by
                simp only [resume, hpc, onWrite, streamFrom]
                split <;> simp only [goto, Pc.streaming, Pc.round, true_and] <;> omega
              constructor
              · rw [hstate, hnext.2, hframe]
                exact fun _ => current_quiet hinv h hc hstreaming r
              · right
                rw [hstate, hnext.1, hframe]
                exact fun k off hmem => (hearlier' k off hmem).imp_right fun heq => ⟨rfl, heq⟩
          | streamTrailer =>
              have hnext : (resume cfg.state (some r)).1.pc.streaming = false := by
                simpa [resume, hpc, onWrite] using loopHead_streaming _
              refine ⟨by simp [hstate, hnext], .inr fun k off hmem => .inl ?_⟩
              -- With the trailer the current block is complete as well.
              rcases hearlier' k off hmem with hsent | ⟨rfl, rfl⟩
              · exact hsent
              · exact blockSent_of_trailer hinv h hc hpc r
          | _ => simp [hpc, Pc.streaming] at hstreaming

theorem sent_answer (hinv : Inv opts img (exchanges cfg.trace) cfg.state)
    (houtcome : Outcome cfg) (h : Sent img cfg) (hc : pending cfg.state = some c) (a : Transfer) :
    Sent img ((main opts img).answer cfg c a) := by
  by_cases hselects : Selects cfg.state a
  · obtain ⟨hpoll, hfile, r, rfl, hr⟩ := hselects
    exact sent_of_selects h hpoll hr hfile
  · exact sent_of_quiet hinv houtcome h hc hselects

theorem sent_run (opts : Options) (img : Image) (as : List Transfer) :
    Sent img ((main opts img).run as) := by
  refine Machine.run_invariant_under
    (I := fun cfg => Inv opts img (exchanges cfg.trace) cfg.state ∧ Outcome cfg)
    (fun as => ⟨inv_run opts img as, outcome_run opts img as⟩) ⟨nofun, .inr nofun⟩ ?_ as
  rintro cfg c a ⟨hinv, houtcome⟩ h hc
  exact sent_answer hinv houtcome h hc a

/-- An answer that selects a block asks for the one that the number of replies
`1` names. -/
theorem blockIndices_selects (hc : pending s = some c) {xs : Exchanges} (hpoll : s.pc = .poll)
    {r : Byte × Byte} (hr : AsksBlock r.1) :
    blockIndices (pollReplies (xs ++ [(c, some r)])) =
      blockIndices (pollReplies xs) ++ [ackCount (xs ++ [(c, some r)]) - 1] := by
  have hcmd := cmd_of_poll hc hpoll
  have hreplies : pollReplies (xs ++ [(c, some r)]) = pollReplies xs ++ [r.1] := by
    simp [pollReply?, hcmd]
  rw [ackCount, hreplies, blockIndices_concat, if_pos hr]

/-- Any other answer asks for nothing. -/
theorem blockIndices_quiet {xs : Exchanges} (hinv : Inv opts img xs s) (hsize : 0 < img.size)
    (hc : pending s = some c) (hquiet : ¬ Selects s a) :
    blockIndices (pollReplies (xs ++ [(c, a)])) = blockIndices (pollReplies xs) := by
  by_cases hpoll : s.pc = .poll
  · cases a with
    | none => simp [pollReply?]
    | some r =>
        have htracked := hinv.tracked (by simp [hpoll])
        have hr : ¬ AsksBlock r.1 := fun hr =>
          hquiet ⟨hpoll, htracked.fileSize_ne_zero hsize, r, rfl, hr⟩
        have hcmd := cmd_of_poll hc hpoll
        have hreplies : pollReplies (xs ++ [(c, some r)]) = pollReplies xs ++ [r.1] := by
          simp [pollReply?, hcmd]
        rw [hreplies, blockIndices_concat, if_neg hr, List.append_nil]
  · rw [pollReplies_write (by rw [pending_cmd hc]; exact command_ne_poll hpoll)]

/-- A poll selects the block that the number of replies `1` names. -/
theorem selected_answer (hinv : Inv opts img (exchanges cfg.trace) cfg.state)
    (h : Selected cfg) (hsize : 0 < img.size) (hc : pending cfg.state = some c) (a : Transfer) :
    Selected ((main opts img).answer cfg c a) := by
  unfold Selected at h ⊢
  have htracked := hinv.tracked_of_pending hc
  rw [outputs_answer, Machine.exchanges_answer, seeks_append, h, answer_state]
  by_cases hselects : Selects cfg.state a
  · obtain ⟨hpoll, hfile, r, rfl, hr⟩ := hselects
    have hcmd := cmd_of_poll hc hpoll
    have hstart := resume_startOffset (s := cfg.state) (by simp [hpoll, Pc.early]) (some r)
    have hnext := tracked_load (htracked.reply r) hcmd
    have htemp : (advance { cfg.state.vars with resp := r }).temp = _ := hnext.temp
    rw [hstart, blockIndices_selects hc hpoll hr, List.map_append, resume_asks hpoll hr hfile]
    -- The new seek is the one for the block that the reply counts.
    congr 1
    have hoff : blockOffset (advance { cfg.state.vars with resp := r }) =
        (advance { cfg.state.vars with resp := r }).temp * blockSize +
          startOffset cfg.state.vars := by
      rw [blockOffset_eq, advance_startOffset]
      rfl
    show [((advance { cfg.state.vars with resp := r }).temp,
      blockOffset (advance { cfg.state.vars with resp := r }))] = _
    rw [hoff, htemp]
    rfl
  · rw [seeks_quiet hselects, List.append_nil]
    rw [blockIndices_quiet hinv hsize hc hselects]
    cases hearly : cfg.state.pc.early with
    | false => rw [resume_startOffset hearly]
    | true => simp [(hinv.handshake (handshake_of_early hearly)).1]

theorem selected_run (opts : Options) (hsize : 0 < img.size) (as : List Transfer) :
    Selected ((main opts img).run as) := by
  exact Machine.run_invariant_under (P := Selected)
    (I := fun cfg => Inv opts img (exchanges cfg.trace) cfg.state) (inv_run opts img) rfl
    (fun cfg c a hinv h hc => selected_answer hinv h hsize hc a) as

/-- Only the last call of the handshake leads into the loop. -/
theorem setOffset_of_opening (houtcome : Outcome cfg) (hhand : cfg.state.pc.handshake = true)
    (hc : pending cfg.state = some c) (a : Transfer)
    (hopen : (resume cfg.state a).1.pc.counting = true ∨
      .flashComplete ∈ outputs ((main opts img).answer cfg c a).trace) :
    cfg.state.pc = .setOffset := by
  have hfront := behindLoop_of_handshake hhand
  have hleads := leads_resume hfront hc (by
    intro hpc
    simp [hpc, Pc.handshake] at hhand) a
  have hnext : (resume cfg.state a).1.pc.counting = true := by
    rcases hopen with hnext | hdone
    · exact hnext
    · rw [outputs_answer, List.mem_append] at hdone
      rcases hdone with hdone | hdone
      · exact absurd hdone (houtcome.fresh hfront)
      · simp [hleads.complete.mp hdone, Pc.counting]
  by_contra hset
  simp [(resume_before_setOffset hhand hset a).1] at hnext

/-- Before the last call of the handshake nothing is announced, and it announces
the start offset. -/
theorem opened_answer (hinv : Inv opts img (exchanges cfg.trace) cfg.state)
    (hannouncing : Announcing cfg) (houtcome : Outcome cfg) (h : Opened cfg)
    (hc : pending cfg.state = some c) (a : Transfer) :
    Opened ((main opts img).answer cfg c a) := by
  have htracked := hinv.tracked_of_pending hc
  constructor
  · rw [answer_state, Machine.exchanges_answer]
    intro hnext
    cases hhand : cfg.state.pc.handshake with
    | false => simp [resume_handshake hhand a] at hnext
    | true =>
        have hset : cfg.state.pc ≠ .setOffset := by
          intro hpc
          cases a with
          | none => simp [resume, hpc, onWrite, goto, Pc.handshake] at hnext
          | some r => simp [resume, hpc, onWrite, loopHead_handshake] at hnext
        have hcmd : cmdSetOffset ≠ c.cmd := by
          rw [pending_cmd hc]
          cases hpc : cfg.state.pc <;> simp_all [Pc.handshake, Pc.command] <;> decide
        simpa [hcmd] using h.fresh hhand
  · rw [answer_state, Machine.exchanges_answer]
    intro hopen
    by_cases hcounting : cfg.state.pc.counting = true
    · have hearly := early_of_counting hcounting
      obtain ⟨x, hx, hoff⟩ := Option.map_eq_some_iff.mp (h.start (.inl hcounting))
      rw [resume_startOffset hearly, firstAnnounced?, List.find?_append, hx]
      simpa using hoff
    · have hhand : cfg.state.pc.handshake = true := by
        cases hpc : cfg.state.pc <;>
          simp_all [Pc.counting, Pc.looping, Pc.handshake, pending]
      have hnone := h.fresh hhand
      have hpc : cfg.state.pc = .setOffset :=
        setOffset_of_opening houtcome hhand hc a hopen
      have hmiss : ((exchanges cfg.trace).find? fun x => x.1.cmd = cmdSetOffset) = none := by
        simpa using hnone
      have hcall : c = ⟨cmdSetOffset, cfg.state.vars.io.1, cfg.state.vars.io.2, 2⟩ := by
        simpa [pending, hpc, eq_comm] using hc
      rw [resume_startOffset (by simp [hpc, Pc.early]), firstAnnounced?, List.find?_append, hmiss,
        hcall, ← announcedOffset_offsetBytes htracked.startOffset_lt, ← hannouncing.initial hpc]
      simp

theorem opened_run (opts : Options) (img : Image) (as : List Transfer) :
    Opened ((main opts img).run as) := by
  have hstart : Opened (main opts img).initial := by
    refine ⟨fun _ => by rintro ⟨⟩, ?_⟩
    simp [main, Machine.initial, goto, Pc.counting, Pc.looping, outputs]
  -- The step reads three invariants that every run is known to keep.
  refine Machine.run_invariant_under (I := fun cfg =>
    Inv opts img (exchanges cfg.trace) cfg.state ∧ Announcing cfg ∧ Outcome cfg) ?_ hstart ?_ as
  · exact fun bs => ⟨inv_run opts img bs, announcing_run opts img bs, outcome_run opts img bs⟩
  · rintro cfg c a ⟨hinv, hannouncing, houtcome⟩ h hc
    exact opened_answer hinv hannouncing houtcome h hc a

/-- The count is still right when a call of the tail fails. -/
theorem measured_complete (opts : Options) (hsize : img.size = 0x20000) (as : List Transfer)
    (hdone : .flashComplete ∈ outputs ((main opts img).run as).trace) :
    Measured (exchanges ((main opts img).run as).trace) ((main opts img).run as).state.vars := by
  induction as using List.reverseRecOn with
  | nil => simp [main, Machine.initial, goto, outputs] at hdone
  | append_singleton as a ih =>
      cases hchosen : ((main opts img).run (as ++ [a])).state.pc.chosen with
      | true => exact measured_run opts hsize _ hchosen
      | false =>
          have houtcome := outcome_run opts img as
          rw [Machine.run_concat] at hdone hchosen ⊢
          cases hc : pending ((main opts img).run as).state with
          | none =>
              rw [Machine.step_of_stopped hc] at hdone ⊢
              exact ih hdone
          | some c =>
              rw [Machine.step_of_pending hc] at hdone hchosen ⊢
              rw [outputs_answer, List.mem_append] at hdone
              have hinv := inv_run opts img as
              generalize (main opts img).run as = cfg at *
              cases hbehind : cfg.state.pc.behindLoop with
              | true =>
                  have hpc := tail_of_pending hc hbehind
                  obtain ⟨hpoll, io, resp, needRejump, hframe⟩ := tail_frame hc hbehind a
                  have hbefore := ih (houtcome.tail (by tauto))
                  rw [Machine.exchanges_answer, answer_state, hframe]
                  exact hbefore.congr (ackCount_of_ne_poll hc hpoll a) rfl rfl
              | false =>
                  -- The message is printed on the way to a point with a chosen area.
                  have hfresh := houtcome.fresh hbehind
                  have hleads := leads_resume hbehind hc (remaining_of_rejumpStatus hinv) a
                  have hfinal := hleads.complete.mp (hdone.resolve_left hfresh)
                  simp [answer_state, hfinal, Pc.chosen] at hchosen

/-- No more blocks are acknowledged than the area has. -/
theorem ackCount_le_blockCount (opts : Options) (hsize : img.size = 0x20000)
    (as : List Transfer) :
    ackCount (exchanges ((main opts img).run as).trace) ≤
      blockCount ((main opts img).run as).state.vars := by
  refine Machine.run_invariant_under (I := fun cfg =>
    Inv opts img (exchanges cfg.trace) cfg.state ∧
      (cfg.state.pc.chosen = true → Measured (exchanges cfg.trace) cfg.state.vars))
    (P := fun cfg => ackCount (exchanges cfg.trace) ≤ blockCount cfg.state.vars) ?_ ?_ ?_ as
  · exact fun bs => ⟨inv_run opts img bs, measured_run opts hsize bs⟩
  · exact Nat.zero_le _
  rintro cfg c a ⟨hinv, hmeasured⟩ h hc
  rw [Machine.exchanges_answer, answer_state]
  by_cases hpoll : cfg.state.pc = .poll
  · have hcount : blockCount (resume cfg.state a).1.vars = blockCount cfg.state.vars := by
      simp only [blockCount, areaSize, resume_startOffset (s := cfg.state) (by rw [hpoll]; rfl)]
    -- A program that polls still has a block to come.
    obtain ⟨hne, -⟩ := hinv.waiting (by rw [hpoll]; rfl) (by rw [hpoll]; rfl)
    have hlt := (hmeasured (by rw [hpoll]; rfl)).lt_iff.mpr hne
    rw [hcount]
    cases a with
    | none =>
        rw [ackCount_failed]
        exact h
    | some r =>
        rw [ackCount_poll (cmd_of_poll hc hpoll)]
        split <;> omega
  · rw [ackCount_of_ne_poll hc hpoll]
    cases hearly : cfg.state.pc.early with
    | true =>
        have hnone := (hinv.handshake (handshake_of_early hearly)).1
        simp [ackCount, hnone]
    | false =>
        simp only [blockCount, areaSize, resume_startOffset hearly] at h ⊢
        exact h

/-- An offset of the area does not come around in 32 bits. -/
theorem toNat_selectedOffset {xs : Exchanges} {l : Locals} (htracked : Tracked opts img xs l)
    {t : Nat} (ht : t < blockCount l) :
    (BitVec.ofNat 32 t * blockSize + startOffset l).toNat = (startOffset l).toNat + 32 * t := by
  have hstart := htracked.startOffset_lt
  have hlt := (lt_blockCount_iff t).mp ht
  unfold areaSize at hlt
  rw [BitVec.toNat_add, BitVec.toNat_mul]
  simp only [blockSize, BitVec.toNat_ofNat]
  omega

/-- What is selected in a run: blocks up to the last acknowledged one. -/
theorem exists_of_fseek_mem (opts : Options) (hsize : img.size = 0x20000) {as : List Transfer}
    (htracked : Tracked opts img (exchanges ((main opts img).run as).trace)
      ((main opts img).run as).state.vars) {k off : Word}
    (hmem : .fseek k off ∈ outputs ((main opts img).run as).trace) :
    ∃ t, t < blockCount ((main opts img).run as).state.vars ∧
      t ≤ ackCount (exchanges ((main opts img).run as).trace) - 1 ∧ k = BitVec.ofNat 32 t ∧
      off.toNat = (startOffset ((main opts img).run as).state.vars).toNat + 32 * t := by
  have hselected := selected_run opts (by omega : 0 < img.size) as
  have hle := ackCount_le_blockCount opts hsize as
  generalize (main opts img).run as = cfg at *
  have harea := (areaSize_bounds htracked).1
  have hfirst := (lt_blockCount_iff (l := cfg.state.vars) 0).mpr (by omega)
  rw [← mem_seeks, hselected, List.mem_map] at hmem
  obtain ⟨t, ht, heq⟩ := hmem
  obtain ⟨rfl, rfl⟩ := Prod.mk.inj heq
  have hlast : t ≤ ackCount (exchanges cfg.trace) - 1 := le_of_mem_blockIndices ht
  have hlt : t < blockCount cfg.state.vars := by omega
  exact ⟨t, hlt, hlast, rfl, toNat_selectedOffset htracked hlt⟩

end Step

section Finished

variable (opts : Options) {img : Image} (hsize : img.size = 0x20000) {as : List Transfer}
  (hfinished : LoopFinished ((main opts img).run as))
include hsize hfinished

/-- Behind a finished loop all blocks are acknowledged. -/
theorem ackCount_of_finished : ackCount (exchanges ((main opts img).run as).trace) =
    blockCount ((main opts img).run as).state.vars := by
  have hmeasured := measured_complete opts hsize as hfinished.behind
  have hle := hmeasured.le
  have hlt := hmeasured.lt_iff.not.mpr (by simpa using hfinished.remaining)
  omega

/-- A finished loop has selected the blocks in front of the cut-off. -/
theorem fseek_mem_iff (k off : Word) :
    .fseek k off ∈ outputs ((main opts img).run as).trace ↔
      ∃ t, t < blockCount ((main opts img).run as).state.vars ∧ k = BitVec.ofNat 32 t ∧
        off.toNat = (startOffset ((main opts img).run as).state.vars).toNat + 32 * t := by
  have houtcome := outcome_run opts img as
  have hend := (houtcome.complete hfinished.behind).1
  have htracked := (inv_run opts img as).tracked fun hpc => by simp [hpc, Pc.behindLoop] at hend
  have hselected := selected_run opts (by omega : 0 < img.size) as
  have hcount := ackCount_of_finished opts hsize hfinished
  constructor
  · intro hmem
    obtain ⟨t, ht, -, hk, hoff⟩ := exists_of_fseek_mem opts hsize htracked hmem
    exact ⟨t, ht, hk, hoff⟩
  · generalize (main opts img).run as = cfg at *
    rintro ⟨t, ht, rfl, hoff⟩
    unfold ackCount at hcount
    rw [← mem_seeks, hselected, List.mem_map]
    refine ⟨t, mem_blockIndices_of_lt (by omega), Prod.ext rfl (BitVec.eq_of_toNat_eq ?_)⟩
    rw [hoff, toNat_selectedOffset htracked ht]

/-- A finished loop has written whole blocks from the start offset on. -/
theorem streamsByte_iff (pos : Nat) :
    StreamsByte img ((main opts img).run as).trace pos ↔
      (startOffset ((main opts img).run as).state.vars).toNat ≤ pos ∧
        pos < (startOffset ((main opts img).run as).state.vars).toNat +
          32 * blockCount ((main opts img).run as).state.vars := by
  have hinv := inv_run opts img as
  have hselected := fseek_mem_iff opts hsize hfinished
  have hsent := sent_run opts img as
  have houtcome := outcome_run opts img as
  generalize (main opts img).run as = cfg at *
  have hend := (houtcome.complete hfinished.behind).1
  have hstart := (hinv.tracked fun hpc => by simp [hpc, Pc.behindLoop] at hend).startOffset_lt
  have hquiet := streaming_of_behindLoop hend
  constructor
  · rintro ⟨k, off, ⟨before, mid, after, htr, -⟩, hlow, hhigh⟩
    obtain ⟨t, ht, -, hoff⟩ := (hselected k off).mp (by simp [htr, outputs])
    omega
  · rintro ⟨hlow, hhigh⟩
    -- The block around a byte is given by its distance from the start.
    obtain ⟨t, ht⟩ : ∃ t, (pos - (startOffset cfg.state.vars).toNat) / 32 = t := ⟨_, rfl⟩
    have hoff : (BitVec.ofNat 32 ((startOffset cfg.state.vars).toNat + 32 * t)).toNat =
        (startOffset cfg.state.vars).toNat + 32 * t := by
      have hcount : blockCount cfg.state.vars ≤ 0x1000 := by
        unfold blockCount areaSize
        omega
      simp only [BitVec.toNat_ofNat]
      omega
    have hmem := (hselected _ _).mpr ⟨t, by omega, rfl, hoff⟩
    have hearlier := hsent.earlier.resolve_left fun h => h.2 hfinished.behind
    have hblock := (hearlier _ _ hmem).resolve_right (by simp [hquiet])
    exact ⟨_, _, hblock, by omega, by omega⟩

end Finished

/-- What a finished flash has written, from the first announced offset on. -/
structure Covered (img : Image) (tr : History) (start : Nat) : Prop where
  announced : firstAnnounced? (exchanges tr) = some start
  /-- Every byte in front of the cut-off. -/
  bytes : ∀ pos, start ≤ pos → pos < 0x1C000 → StreamsByte img tr pos
  /-- Nothing but whole blocks up to the cut-off. -/
  within : ∀ pos, StreamsByte img tr pos →
    start ≤ pos ∧ pos < start + 32 * ((0x1C000 - start + 31) / 32)

/-- On a full-size image a run that finishes its loop has written the area up to
`0x1C000`, whatever the EC replied. -/
theorem coverage (opts : Options) (img : Image) (hsize : img.size = 0x20000)
    (as : List Transfer) (hfinished : LoopFinished ((main opts img).run as)) :
    Covered img ((main opts img).run as).trace
      (if bootBlockIncluded opts (exchanges ((main opts img).run as).trace) then 0#32
        else reportedBaseOffset (exchanges ((main opts img).run as).trace)).toNat := by
  have hsettled := settled_run opts img as
  have hstart : startOffset ((main opts img).run as).state.vars =
      if bootBlockIncluded opts (exchanges ((main opts img).run as).trace) then 0#32
        else reportedBaseOffset (exchanges ((main opts img).run as).trace) := by
    simp [startOffset, hsettled.baseOffset, hsettled.included]
  rw [← hstart]
  have hcount : blockCount ((main opts img).run as).state.vars =
      (0x1C000 - (startOffset ((main opts img).run as).state.vars).toNat + 31) / 32 := by
    unfold blockCount areaSize
    omega
  have hbytes := streamsByte_iff opts hsize hfinished
  rw [hcount] at hbytes
  constructor
  · exact (opened_run opts img as).start (.inr hfinished.behind)
  · intro pos hlow hhigh
    exact (hbytes pos).mpr ⟨hlow, by omega⟩
  · exact fun pos => (hbytes pos).mp

theorem coverage_unaligned :
    ∃ as, LoopFinished ((main (sampleOptions false) sampleImage).run as) ∧
      Covered sampleImage ((main (sampleOptions false) sampleImage).run as).trace
        (if bootBlockIncluded (sampleOptions false)
            (exchanges ((main (sampleOptions false) sampleImage).run as).trace) then 0#32
          else reportedBaseOffset
            (exchanges ((main (sampleOptions false) sampleImage).run as).trace)).toNat := by
  have hsize : sampleImage.size = 0x20000 := rfl
  obtain ⟨bs, -, hfinished⟩ := exists_finished (sampleOptions false) hsize _
    (getsOn_reads _ hsize 0x80#8 0x10#8 0#8)
  exact ⟨_, hfinished, coverage _ _ rfl _ hfinished⟩

/-- A run with base offset `0` finishes, and the byte at `0x1C000` has not been
streamed. -/
theorem coverage_fails :
    ¬ ∀ opts img as, img.size = 0x20000 → LoopFinished ((main opts img).run as) →
      ∃ start, firstAnnounced? (exchanges ((main opts img).run as).trace) = some start ∧
        ∀ pos, start ≤ pos → pos < 0x1D000 →
          StreamsByte img ((main opts img).run as).trace pos := by
  intro h
  have hsize : sampleImage.size = 0x20000 := rfl
  obtain ⟨bs, hgets, hfinished⟩ := exists_finished (sampleOptions false) hsize _
    (getsOn_reads _ hsize 0#8 0#8 0#8)
  obtain ⟨start, hstart, hbytes⟩ := h _ _ _ rfl hfinished
  have hopened := (opened_run (sampleOptions false) sampleImage
    (reads sampleImage 0#8 0#8 0#8 ++ bs)).start (.inr hfinished.behind)
  have hzero : startOffset ((main (sampleOptions false) sampleImage).run
      (reads sampleImage 0#8 0#8 0#8 ++ bs)).state.vars = 0#32 := by
    simp [startOffset, hgets.baseOffset]
  obtain rfl : start = 0 := by simpa [hstart, hzero] using hopened
  have hbyte := (streamsByte_iff (sampleOptions false) rfl hfinished 0x1C000).mp
    (hbytes 0x1C000 (by omega) (by omega))
  simp [blockCount, areaSize, hzero] at hbyte

end First
end EcFlash
