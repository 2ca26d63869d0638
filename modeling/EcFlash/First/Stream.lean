import EcFlash.First.Invariant

/-!
# What has been streamed

The stream-data commands of a run on a non-empty image, in terms of the poll
replies alone: every reply `0`, `1` or `2` is followed by the sixteen words of
the block that the number of replies `1` selects and by its trailer, and nothing
else is streamed.  `unsent` is the part of the current block that is still to
go, and `streamed_run` the invariant that carries the induction over the run.
-/

namespace EcFlash
namespace First

open Reactive

/-- The part of the current block that is still to be sent. -/
def unsent (s : State) : List (Byte × Byte) :=
  let payload := blockPayload s.vars.dataBlock (s.vars.temp.setWidth 8)
  match s.pc with
  | .streamWord i => payload.drop (i / 2)
  | .streamTrailer => payload.drop 16
  | _ => []

/-- How many words of the current block have been sent at a point. -/
def Pc.round : Pc → Nat
  | .streamWord i => i / 2
  | .streamTrailer => 16
  | _ => 0

theorem unsent_eq_nil {s : State} (h : s.pc.streaming = false) : unsent s = [] := by
  rcases s with ⟨pc, l⟩
  cases pc <;> simp_all [unsent, Pc.streaming]

/-- Block `t` of the flashed area, as `main` reads it from the file. -/
def fileBlock (img : Image) (l : Locals) (t : Nat) : List Byte :=
  img.block store 32 (BitVec.ofNat 32 t * blockSize + startOffset l).toNat

/-- What the poll replies so far ask for. -/
def requested (img : Image) (l : Locals) (rs : List Byte) : List (Byte × Byte) :=
  (blockIndices rs).flatMap fun t => blockPayload (fileBlock img l t) (BitVec.ofNat 8 t)

/-- Everything asked for has been streamed or is about to be. -/
def InOrder (img : Image) (xs : Exchanges) (s : State) : Prop :=
  streamed xs ++ unsent s = requested img s.vars (pollReplies xs)

section Step

variable {opts : Options} {img : Image} {xs : Exchanges} {s : State} {l : Locals} {c : Call}

/-- The call of a block in progress carries the payload buffer. -/
theorem payload_of_streaming (hc : pending s = some c) (hstreaming : s.pc.streaming = true) :
    (c.io0, c.io1) = s.vars.io := by
  rcases s with ⟨pc, l⟩
  cases pc with
  | streamWord i | streamTrailer =>
      simp only [pending, Option.some.injEq] at hc
      rw [← hc]
  | _ => simp [Pc.streaming] at hstreaming

/-- It is the next word of the block, or the trailer. -/
theorem call_streams (h : Inv opts img xs s) (hc : pending s = some c)
    (hstreaming : s.pc.streaming = true) :
    (blockPayload s.vars.dataBlock (s.vars.temp.setWidth 8))[s.pc.round]? =
      some (c.io0, c.io1) := by
  rw [payload_of_streaming hc hstreaming]
  cases hpc : s.pc with
  | streamWord i =>
      obtain ⟨hlt, heven, hio⟩ := h.word i hpc
      have hi : 2 * (i / 2) = i := by omega
      have hdrop := drop_blockPayload (i := i / 2) (by omega) s.vars.dataBlock
        (s.vars.temp.setWidth 8)
      rw [hi, ← hio] at hdrop
      rw [Pc.round, ← List.head?_drop, hdrop]
      rfl
  | streamTrailer =>
      rw [h.trailer hpc, Pc.round, ← List.head?_drop]
      simp
  | _ => simp [hpc, Pc.streaming] at hstreaming

/-- Entering the word loop at an even round leaves the rest of the block to go. -/
theorem unsent_streamFrom (i : Nat) (l : Locals) (hi : i % 2 = 0) (hle : i ≤ 32) :
    unsent (streamFrom i l).1 =
      (blockPayload l.dataBlock (l.temp.setWidth 8)).drop (i / 2) := by
  unfold streamFrom
  split
  · rfl
  · have hend : i = 32 := by omega
    subst hend
    rfl

theorem setWidth_ofNat (n : Nat) : (BitVec.ofNat 32 n).setWidth 8 = BitVec.ofNat 8 n := by
  apply BitVec.eq_of_toNat_eq
  simp only [BitVec.toNat_setWidth, BitVec.toNat_ofNat]
  omega

/-- A reply that asks for a block puts exactly that block on its way. -/
theorem inOrder_afterPoll (h : Tracked opts img xs l) (hsize : 0 < img.size)
    (hc : c.cmd = cmdPollProgress)
    (hs : streamed xs = requested img l (pollReplies xs)) :
    InOrder img (xs ++ [(c, some l.resp)]) (afterPoll l).1 := by
  have hword : c.cmd ≠ cmdStreamData := by
    rw [hc]
    decide
  have hstreamed : streamed (xs ++ [(c, some l.resp)]) = streamed xs := by
    simp [streamWord?, hword]
  have hreplies : pollReplies (xs ++ [(c, some l.resp)]) = pollReplies xs ++ [l.resp.1] := by
    simp [pollReply?, hc]
  unfold InOrder requested
  rw [hstreamed, hreplies, blockIndices_concat, ← hreplies]
  by_cases hr : AsksBlock l.resp.1
  · -- The block in memory is the one that the updated counter names.
    have htracked := tracked_load h hc
    have hblock : (loadBlock (advance l)).dataBlock =
        fileBlock img l (ackCount (xs ++ [(c, some l.resp)]) - 1) := by
      rw [(advance_spec h).1, loadBlock_blockOffset, blockOffset_eq, advance_startOffset]
      have htemp := htracked.temp
      change (advance l).temp = _ at htemp
      rw [htemp]
      rfl
    rw [if_pos hr, afterPoll_of_asks hr (h.fileSize_ne_zero hsize)]
    show streamed xs ++ unsent (streamFrom 0 (loadBlock (advance l))).1 =
      (blockIndices (pollReplies xs) ++ [ackCount (xs ++ [(c, some l.resp)]) - 1]).flatMap
        fun t => blockPayload (fileBlock img (streamFrom 0 (loadBlock (advance l))).1.vars t) _
    have hstart : startOffset (streamFrom 0 (loadBlock (advance l))).1.vars = startOffset l := by
      simp [streamFrom, goto, startOffset, loadBlock]
    rw [unsent_streamFrom 0 _ rfl (by omega), hblock, htracked.temp, setWidth_ofNat, hs]
    simp [requested, fileBlock, hstart]
  · rw [if_neg hr, afterPoll_of_not_asks hr, unsent_eq_nil (loopHead_streaming l), hs]
    obtain ⟨io, needRejump, hvars⟩ := loopHead_frame l
    have hstart : startOffset (loopHead l).1.vars = startOffset l := by
      rw [hvars]
      rfl
    simp [requested, fileBlock, hstart]

/-- A call other than a poll asks for nothing: its word moves from `unsent` to `streamed`. -/
theorem streamed_unsent (h : Inv opts img xs s) (hc : pending s = some c) (hpoll : s.pc ≠ .poll)
    (r : Byte × Byte) :
    streamed [(c, some r)] ++ unsent (resume s (some r)).1 = unsent s := by
  have hcmd := pending_cmd hc
  cases hpc : s.pc with
  | streamWord i =>
      obtain ⟨hlt, heven, -⟩ := h.word i hpc
      have hword := call_streams h hc (by simp [hpc, Pc.streaming])
      have hnext : resume s (some r) = streamFrom (i + 2) s.vars := by
        simp [resume, hpc, onWrite]
      have hdiv : (i + 2) / 2 = i / 2 + 1 := by omega
      rw [hpc, Pc.round] at hword
      rw [hpc, Pc.command] at hcmd
      obtain ⟨hlen, hget⟩ := List.getElem?_eq_some_iff.mp hword
      rw [hnext, unsent_streamFrom _ _ (by omega) (by omega), hdiv]
      simp only [unsent, hpc, List.drop_eq_getElem_cons hlen, hget]
      simp [streamWord?, hcmd]
  | streamTrailer =>
      have hword := call_streams h hc (by simp [hpc, Pc.streaming])
      have hnone : (resume s (some r)).1.pc.streaming = false :=
        resume_streaming hpoll (by simp [hpc]) _
      rw [hpc, Pc.round, ← List.head?_drop, drop_blockPayload_trailer] at hword
      rw [hpc, Pc.command] at hcmd
      rw [unsent_eq_nil hnone]
      simp only [List.head?_cons, Option.some.injEq] at hword
      simp [unsent, hpc, streamWord?, hcmd, hword]
  | _ =>
      have hstream : s.pc.streaming = false := by simp [hpc, Pc.streaming]
      have hnone : (resume s (some r)).1.pc.streaming = false :=
        resume_streaming hpoll (by simp [hpc]) _
      have hword : c.cmd ≠ cmdStreamData := by
        rw [hcmd]
        exact command_ne_stream hstream
      rw [unsent_eq_nil hnone, unsent_eq_nil hstream]
      simp [streamWord?, hword]

/-- One answered call keeps the order. -/
theorem inOrder_resume (h : Inv opts img xs s) (hsize : 0 < img.size)
    (hs : InOrder img xs s) (hc : pending s = some c) (r : Byte × Byte) :
    InOrder img (xs ++ [(c, some r)]) (resume s (some r)).1 := by
  have hcmd := pending_cmd hc
  cases hhand : s.pc.handshake with
  | true =>
      -- In the handshake nothing is asked for and nothing is sent.
      obtain ⟨hpolls, hstreamed, -⟩ := handshake_exchange h hhand hc (some r)
      have hnone : (resume s (some r)).1.pc.streaming = false := by
        apply resume_streaming
        · intro hpc
          simp [hpc, Pc.handshake] at hhand
        · intro i hpc
          simp [hpc, Pc.handshake] at hhand
      simp [InOrder, hpolls, hstreamed, unsent_eq_nil hnone, requested]
  | false =>
      have hstart := resume_startOffset (early_of_handshake hhand) (some r)
      have hkeep (hpc : s.pc ≠ .poll) :
          requested img (resume s (some r)).1.vars (pollReplies (xs ++ [(c, some r)])) =
            requested img s.vars (pollReplies xs) := by
        rw [pollReplies_write (by rw [hcmd]; exact command_ne_poll hpc)]
        simp [requested, fileBlock, hstart]
      by_cases hpoll : s.pc = .poll
      · have htracked := (h.tracked_of_pending hc).reply r
        have hnone : unsent s = [] := unsent_eq_nil (by simp [hpoll, Pc.streaming])
        unfold InOrder at hs
        rw [hnone, List.append_nil] at hs
        rw [resume_poll hpoll]
        exact inOrder_afterPoll htracked hsize (cmd_of_poll hc hpoll) hs
      · unfold InOrder at hs ⊢
        rw [hkeep hpoll, ← hs, streamed_append, List.append_assoc, streamed_unsent h hc hpoll]

end Step

/-- Along every run without a failed call the requested blocks go out in order. -/
theorem streamed_run (opts : Options) {img : Image} (hsize : 0 < img.size)
    (as : List Transfer) (hok : ∀ a ∈ as, a ≠ none) :
    InOrder img (exchanges ((main opts img).run as).trace) ((main opts img).run as).state := by
  refine Machine.run_induction_under
    (I := fun cfg => Inv opts img (exchanges cfg.trace) cfg.state)
    (P := fun cfg => InOrder img (exchanges cfg.trace) cfg.state) (inv_run opts img) rfl ?_ as hok
  intro cfg c a hinv horder hc ha
  obtain ⟨r, rfl⟩ := Option.ne_none_iff_exists'.mp ha
  rw [Machine.exchanges_answer]
  exact inOrder_resume hinv hsize horder hc r

end First
end EcFlash
