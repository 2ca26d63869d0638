import EcFlash.First.AckBound
import EcFlash.First.Outcome
import EcFlash.First.Stream

/-!
# Stop and wait

A block is streamed right behind the seek that selects it, so the last seek of a
history names the block streamed last.  Read with the reply `1` as "accepted", a
run streams the next block only when a poll behind the last streaming of the
block before was answered `1`, and every reply `1` but the first one moves on by
one block.  The first reply `1` only says that the EC is ready: it selects block
`0` even when that was already streamed.  The last block is not waited for.
-/

namespace EcFlash
namespace First

open Reactive

/-- A seek: the number of the block it selects, and the offset. -/
def seek? : Out → Option (Word × Word)
  | .fseek temp off => some (temp, off)
  | _ => none

/-- The seeks among the outputs, in order. -/
def seeks (os : List Out) : List (Word × Word) :=
  os.filterMap seek?

/-- The block streamed last. -/
def lastSeek (tr : History) : Option (Word × Word) :=
  (seeks (outputs tr)).getLast?

/-- The last reply to a poll. -/
def lastReply (tr : History) : Option Byte :=
  (pollReplies (exchanges tr)).getLast?

/-- The number of stream-data commands behind the last seek, one event further. -/
def sentStep (n : Nat) : Event Call Transfer Out → Nat
  | .call c _ => if c.cmd = cmdStreamData then n + 1 else n
  | .out (.fseek _ _) => 0
  | .out _ => n

/-- How much of the block streamed last has been sent. -/
def sentSince (tr : History) : Nat :=
  tr.foldl sentStep 0

/-- The number of polls answered `1`. -/
def acks (tr : History) : Nat :=
  ackCount (exchanges tr)

/-- Some poll issued after block `k` was last streamed was answered `1`. -/
def AnsweredSince (k : Word) (tr : History) : Prop :=
  ∃ before off after, tr = before ++ .out (.fseek k off) :: after ∧
    (∀ off', .fseek k off' ∉ outputs after) ∧ 0 < acks after

section History

variable {tr es : History} {k : Word} {off : Word}

@[simp] theorem seeks_append (os os' : List Out) : seeks (os ++ os') = seeks os ++ seeks os' := by
  simp [seeks]

@[simp] theorem acks_append (tr es : History) : acks (tr ++ es) = acks tr + acks es := by
  simp [acks]

theorem mem_seeks {os : List Out} : (k, off) ∈ seeks os ↔ .fseek k off ∈ os := by
  unfold seeks
  rw [List.mem_filterMap]
  constructor
  · rintro ⟨o, ho, heq⟩
    cases o <;> simp_all [seek?]
  · intro ho
    exact ⟨_, ho, rfl⟩

theorem lastSeek_append (h : seeks (outputs es) = []) : lastSeek (tr ++ es) = lastSeek tr := by
  simp [lastSeek, h]

/-- The last seek splits the history. -/
theorem exists_of_lastSeek (h : lastSeek tr = some (k, off)) :
    ∃ before after, tr = before ++ .out (.fseek k off) :: after ∧ seeks (outputs after) = [] := by
  induction tr using List.reverseRecOn with
  | nil => simp [lastSeek, outputs, seeks] at h
  | append_singleton tr e ih =>
      have hkeep (hnone : seeks (outputs [e]) = []) :
          ∃ before after, tr ++ [e] = before ++ .out (.fseek k off) :: after ∧
            seeks (outputs after) = [] := by
        rw [lastSeek_append hnone] at h
        obtain ⟨before, after, rfl, hafter⟩ := ih h
        exact ⟨before, after ++ [e], by simp, by simp [hafter, hnone]⟩
      -- Any event but a seek is part of what comes behind the last one.
      cases e with
      | call c a => exact hkeep rfl
      | out o =>
          cases o with
          | fseek temp off' =>
              have hlast : lastSeek (tr ++ [.out (.fseek temp off')]) = some (temp, off') := by
                simp [lastSeek, outputs, seeks, seek?]
              rw [hlast, Option.some.injEq, Prod.mk.injEq] at h
              obtain ⟨rfl, rfl⟩ := h
              exact ⟨tr, [], rfl, rfl⟩
          | _ => exact hkeep rfl

theorem AnsweredSince.append (h : AnsweredSince k tr)
    (hno : ∀ off, .fseek k off ∉ outputs es) : AnsweredSince k (tr ++ es) := by
  obtain ⟨before, off, after, rfl, hafter, hacks⟩ := h
  refine ⟨before, off, after ++ es, by simp, ?_, ?_⟩
  · intro off' hmem
    rw [outputs_append, List.mem_append] at hmem
    exact hmem.elim (hafter off') (hno off')
  · rw [acks_append]
    omega

/-- A reply `1` answers the block streamed last. -/
theorem answeredSince_of_lastSeek (h : lastSeek tr = some (k, off))
    (hno : ∀ off, .fseek k off ∉ outputs es) (hacks : 0 < acks es) :
    AnsweredSince k (tr ++ es) := by
  obtain ⟨before, after, rfl, hafter⟩ := exists_of_lastSeek h
  refine ⟨before, off, after ++ es, by simp, ?_, ?_⟩
  · intro off' hmem
    rw [outputs_append, List.mem_append] at hmem
    rcases hmem with hmem | hmem
    · rw [← mem_seeks, hafter] at hmem
      simp at hmem
    · exact hno off' hmem
  · rw [acks_append]
    omega

/-- Whatever was answered since was answered behind the first seek. -/
theorem AnsweredSince.acks_pos {u v : History} {k' off : Word}
    (h : AnsweredSince k (u ++ .out (.fseek k' off) :: v)) (hu : seeks (outputs u) = []) :
    0 < acks v := by
  obtain ⟨before, off', after, heq, -, hpos⟩ := h
  rcases List.append_eq_append_iff.mp heq with ⟨mid, -, hmid⟩ | ⟨mid, hmid, -⟩
  · cases mid with
    | nil =>
        obtain ⟨-, rfl⟩ := List.cons.inj hmid
        exact hpos
    | cons e mid =>
        obtain ⟨-, rfl⟩ := List.cons.inj hmid
        have hout : acks (.out (.fseek k off') :: after) = acks after := rfl
        show 0 < acks (mid ++ .out (.fseek k off') :: after)
        rw [acks_append, hout]
        omega
  · cases mid with
    | nil =>
        simp only [List.append_nil] at hmid
        subst hmid
        obtain ⟨-, rfl⟩ := List.cons.inj (List.append_cancel_left heq)
        exact hpos
    | cons e mid =>
        -- The seek of `k` would stand in front of the first one.
        rw [hmid] at heq hu
        rw [List.append_assoc] at heq
        obtain ⟨rfl, -⟩ := List.cons.inj (List.append_cancel_left heq)
        simp [outputs, seeks, seek?] at hu

end History

/-- What every run keeps about the seeks. -/
structure Paced (cfg : Moment) : Prop where
  last : (lastSeek cfg.trace = none ∧ cfg.state.vars.temp = 0#32 ∧
      cfg.state.vars.firstTemp = false) ∨
    cfg.state.pc.early = false ∧
      lastSeek cfg.trace = some (cfg.state.vars.temp, blockOffset cfg.state.vars)
  streaming : cfg.state.pc.streaming = true →
    lastSeek cfg.trace ≠ none ∧ sentSince cfg.trace = cfg.state.pc.round
  /-- Every block in front of the current one has been answered. -/
  answered : ∀ j, j < cfg.state.vars.temp → AnsweredSince j cfg.trace

/-- The last seek is the one of the current block. -/
theorem Paced.eq_of_lastSeek {cfg : Moment} (h : Paced cfg) {k off : Word}
    (hlast : lastSeek cfg.trace = some (k, off)) :
    k = cfg.state.vars.temp ∧ off = blockOffset cfg.state.vars := by
  rcases h.last with ⟨hnone, -⟩ | ⟨-, hsome⟩
  · simp [hnone] at hlast
  · rw [hsome, Option.some.injEq, Prod.mk.injEq] at hlast
    exact ⟨hlast.1.symm, hlast.2.symm⟩

/-- While a block is being streamed there is one. -/
theorem Paced.lastSeek_of_streaming {cfg : Moment} (h : Paced cfg)
    (hstreaming : cfg.state.pc.streaming = true) :
    lastSeek cfg.trace = some (cfg.state.vars.temp, blockOffset cfg.state.vars) := by
  rcases h.last with ⟨hnone, -⟩ | ⟨-, hsome⟩
  · exact absurd hnone (h.streaming hstreaming).1
  · exact hsome

section Step

variable {opts : Options} {img : Image} {cfg : Moment} {s : State} {c : Call}

theorem seeks_loopHead (l : Locals) : seeks (loopHead l).2 = [] := by
  unfold loopHead
  split <;> [split; skip] <;> rfl

/-- The answer selects a block: a poll is answered `0`, `1` or `2`, and the file
is not empty. -/
def Selects (s : State) (a : Transfer) : Prop :=
  s.pc = .poll ∧ s.vars.ctx.fileSize ≠ 0#32 ∧ ∃ r, a = some r ∧ AsksBlock r.1

/-- The code behind any other answered poll. -/
theorem resume_poll_quiet (hpoll : s.pc = .poll) {a : Transfer} (h : ¬ Selects s a) :
    ∃ resp, resume s a = (⟨.returned 1, s.vars⟩, []) ∨
      resume s a = (⟨.sigfpe, { s.vars with resp }⟩, []) ∨
      resume s a = loopHead { s.vars with resp } := by
  cases a with
  | none => exact ⟨s.vars.resp, .inl (by simp [resume, hpoll, onRead, goto])⟩
  | some r =>
      refine ⟨r, .inr ?_⟩
      by_cases hr : AsksBlock r.1
      · left
        have hfile : s.vars.ctx.fileSize = 0#32 := by
          by_contra hfile
          exact h ⟨hpoll, hfile, r, rfl, hr⟩
        unfold AsksBlock at hr
        simp [resume_poll hpoll, afterPoll, hr, hfile, goto]
      · right
        exact resume_not_asks hpoll hr

/-- Without a selected block the counter stays, and behind the four reads so does
all that a block is computed from. -/
theorem frame_quiet {a : Transfer} (h : ¬ Selects s a) (hearly : s.pc.early = false) :
    ∃ io resp needRejump, (resume s a).1.vars = { s.vars with io, resp, needRejump } := by
  by_cases hpoll : s.pc = .poll
  · obtain ⟨resp, hnone | hstop | hhead⟩ := resume_poll_quiet hpoll h
    · exact ⟨_, _, _, by rw [hnone]⟩
    · exact ⟨_, resp, _, by rw [hstop]⟩
    · obtain ⟨io, needRejump, hvars⟩ := loopHead_frame { s.vars with resp }
      exact ⟨io, resp, needRejump, by rw [hhead, hvars]⟩
  · exact resume_frame hearly hpoll a

theorem temp_quiet {a : Transfer} (h : ¬ Selects s a) :
    (resume s a).1.vars.temp = s.vars.temp ∧
      (resume s a).1.vars.firstTemp = s.vars.firstTemp := by
  cases hearly : s.pc.early with
  | false =>
      obtain ⟨io, resp, needRejump, hframe⟩ := frame_quiet h hearly
      simp [hframe]
  | true =>
      rcases s with ⟨pc, l⟩
      cases a with
      | none => cases pc <;> exact ⟨rfl, rfl⟩
      | some r =>
          cases pc with
          | readIdVerB =>
              simp only [resume, onRead, afterIdVerB, romGuard]
              split <;> exact ⟨rfl, rfl⟩
          | readStatus =>
              simp only [resume, onRead, afterStatus, choosePhase]
              split <;> split <;> exact ⟨rfl, rfl⟩
          | readIdVerA | readBaseOff => exact ⟨rfl, rfl⟩
          | _ => simp [Pc.early] at hearly

/-- No other answer leads to a seek. -/
theorem seeks_quiet {a : Transfer} (h : ¬ Selects s a) : seeks (resume s a).2 = [] := by
  by_cases hpoll : s.pc = .poll
  · obtain ⟨resp, hnone | hstop | hhead⟩ := resume_poll_quiet hpoll h
    · rw [hnone]
      rfl
    · rw [hstop]
      rfl
    · rw [hhead]
      exact seeks_loopHead _
  · rcases s with ⟨pc, l⟩
    cases a with
    | none => cases pc <;> rfl
    | some r =>
        cases pc with
        | poll => exact absurd rfl hpoll
        | setOffset | streamTrailer => exact seeks_loopHead l
        | readIdVerB =>
            simp only [resume, onRead, afterIdVerB, romGuard]
            split <;> rfl
        | readStatus =>
            simp only [resume, onRead, afterStatus, choosePhase]
            split <;> split <;> rfl
        | rejumpStatus =>
            simp only [resume, onRead, afterJump]
            split <;> rfl
        | streamWord i =>
            simp only [resume, onWrite, streamFrom]
            split <;> rfl
        | _ => rfl

/-- No other answer begins a block. -/
theorem streaming_quiet {a : Transfer} (h : ¬ Selects s a)
    (hstreaming : (resume s a).1.pc.streaming = true) : s.pc.streaming = true := by
  by_cases hpoll : s.pc = .poll
  · obtain ⟨resp, hnone | hstop | hhead⟩ := resume_poll_quiet hpoll h
    · simp [hnone, Pc.streaming] at hstreaming
    · simp [hstop, Pc.streaming] at hstreaming
    · simp [hhead, loopHead_streaming] at hstreaming
  · by_contra hnot
    have hnext := resume_streaming hpoll (fun i hi => by simp [hi, Pc.streaming] at hnot) a
    simp [hnext] at hstreaming

theorem foldl_sentStep_of_seeks {os : List Out} (h : seeks os = []) (n : Nat) :
    (os.map Event.out : History).foldl sentStep n = n := by
  induction os with
  | nil => rfl
  | cons o os ih =>
      cases o with
      | fseek temp off => simp [seeks, seek?] at h
      | _ => exact ih h

/-- The words of a block are sent one after the other. -/
theorem sentSince_quiet (hinv : Inv opts img (exchanges cfg.trace) cfg.state) (h : Paced cfg)
    (hc : pending cfg.state = some c) {a : Transfer} (hquiet : ¬ Selects cfg.state a)
    (hstreaming : (resume cfg.state a).1.pc.streaming = true) :
    sentSince ((main opts img).answer cfg c a).trace = (resume cfg.state a).1.pc.round := by
  have hbefore := streaming_quiet hquiet hstreaming
  have hsent := (h.streaming hbefore).2
  have hcmd := pending_cmd hc
  rw [answer_trace, sentSince, List.foldl_append, List.foldl_cons,
    foldl_sentStep_of_seeks (seeks_quiet hquiet)]
  unfold sentSince at hsent
  rw [hsent]
  cases hpc : cfg.state.pc with
  | streamWord i =>
      obtain ⟨hlt, heven, -⟩ := hinv.word i hpc
      simp only [hpc, Pc.command] at hcmd
      cases a with
      | none => simp [resume, hpc, onWrite, goto, Pc.streaming] at hstreaming
      | some r =>
          simp only [resume, hpc, onWrite, streamFrom, sentStep, hcmd, if_true]
          split <;> simp only [goto, Pc.round] <;> omega
  | streamTrailer =>
      cases a with
      | none => simp [resume, hpc, onWrite, goto, Pc.streaming] at hstreaming
      | some r => simp [resume, hpc, onWrite, loopHead_streaming] at hstreaming
  | _ => simp [hpc, Pc.streaming] at hbefore

/-- An answer that selects no block keeps the pace. -/
theorem paced_of_quiet (hinv : Inv opts img (exchanges cfg.trace) cfg.state) (h : Paced cfg)
    (hc : pending cfg.state = some c) {a : Transfer} (hquiet : ¬ Selects cfg.state a) :
    Paced ((main opts img).answer cfg c a) := by
  have hseeks := seeks_quiet hquiet
  obtain ⟨htemp, hfirst⟩ := temp_quiet hquiet
  have hlast : lastSeek ((main opts img).answer cfg c a).trace = lastSeek cfg.trace := by
    rw [answer_trace]
    exact lastSeek_append (by simpa using hseeks)
  constructor
  · rw [hlast, answer_state, htemp, hfirst]
    rcases h.last with hnone | ⟨hearly, hsome⟩
    · exact .inl hnone
    · obtain ⟨io, resp, needRejump, hframe⟩ := frame_quiet hquiet hearly
      refine .inr ⟨resume_early hearly a, ?_⟩
      rw [hframe]
      exact hsome
  · rw [hlast, answer_state]
    exact fun hstreaming => ⟨(h.streaming (streaming_quiet hquiet hstreaming)).1,
      sentSince_quiet hinv h hc hquiet hstreaming⟩
  · rw [answer_state, htemp, answer_trace]
    intro j hj
    refine (h.answered j hj).append fun off hmem => ?_
    rw [outputs_call, outputs_outs, ← mem_seeks, hseeks] at hmem
    simp at hmem

/-- What lies below a successor. -/
theorem lt_or_eq_of_lt_succ {j k : Word} (h : j < k + 1#32) : j < k ∨ j = k := by
  bv_omega

/-- A poll that asks for a block selects it, and moves on by at most one. -/
theorem paced_of_asks (h : Paced cfg) (hpoll : cfg.state.pc = .poll) (hc : c.cmd = cmdPollProgress)
    {r : Byte × Byte} (hr : AsksBlock r.1) (hfile : cfg.state.vars.ctx.fileSize ≠ 0#32) :
    Paced ((main opts img).answer cfg c (some r)) := by
  have hstate := answer_asks_state opts img c hpoll hr hfile
  have htrace := answer_asks_trace opts img c hpoll hr hfile
  have htemp := advance_temp { cfg.state.vars with resp := r }
  generalize advance { cfg.state.vars with resp := r } = l' at hstate htrace htemp
  have hlast : lastSeek ((main opts img).answer cfg c (some r)).trace =
      some (l'.temp, blockOffset l') := by
    rw [htrace]
    simp [lastSeek, outputs, seeks, seek?, List.findSome?]
  have hother {k : Word} (hne : k ≠ l'.temp) (off : Word) : .fseek k off ∉ outputs
      ([.call c (some r),
        .out (.progress (percentage cfg.state.vars.ctx.fileSize cfg.state.vars.remaining)),
        .out (.fseek l'.temp (blockOffset l'))] : History) := by
    simp [outputs, hne]
  constructor
  · rw [hlast, hstate]
    exact .inr ⟨rfl, rfl⟩
  · rw [hlast, htrace, hstate, sentSince, List.foldl_append]
    exact fun _ => ⟨by simp, rfl⟩
  · rw [hstate, htrace]
    intro j hj
    change j < l'.temp at hj
    -- The new seek is not one of `j`.
    have hj' := hother (BitVec.ne_of_lt hj)
    by_cases hmove : r.1 = 1#8 ∧ cfg.state.vars.firstTemp = true
    · -- The reply `1` answers the block streamed last, and the counter moves on.
      have htemp' : l'.temp = cfg.state.vars.temp + 1#32 := by simpa [hmove] using htemp
      rcases lt_or_eq_of_lt_succ (htemp' ▸ hj) with hbelow | rfl
      · exact (h.answered j hbelow).append hj'
      rcases h.last with ⟨-, -, hfirst⟩ | ⟨-, hsome⟩
      · simp [hfirst] at hmove
      · refine answeredSince_of_lastSeek hsome hj' ?_
        simp [acks, exchanges, ackCount, pollReply?, hc, hmove]
    -- Any other reply stays with the block, and with what was answered before it.
    · have htemp' : l'.temp = cfg.state.vars.temp := by simpa [hmove] using htemp
      exact (h.answered j (htemp' ▸ hj)).append hj'

theorem paced_answer (hinv : Inv opts img (exchanges cfg.trace) cfg.state) (h : Paced cfg)
    (hc : pending cfg.state = some c) (a : Transfer) :
    Paced ((main opts img).answer cfg c a) := by
  by_cases hselects : Selects cfg.state a
  · obtain ⟨hpoll, hfile, r, rfl, hr⟩ := hselects
    exact paced_of_asks h hpoll (cmd_of_poll hc hpoll) hr hfile
  · exact paced_of_quiet hinv h hc hselects

theorem paced_run (opts : Options) (img : Image) (as : List Transfer) :
    Paced ((main opts img).run as) := by
  refine Machine.run_invariant_under (I := fun cfg => Inv opts img (exchanges cfg.trace) cfg.state)
    (inv_run opts img) ?_ (fun cfg c a hinv h hc => paced_answer hinv h hc a) as
  exact ⟨.inl ⟨rfl, rfl, rfl⟩, nofun, fun j hj => absurd hj (Nat.not_lt_zero j.toNat)⟩

end Step

/-- A stream-data command carries the next word of the block selected last, or
its trailer. -/
def StreamsBlock (img : Image) (before : History) (c : Call) (k : Word) : Prop :=
  ∃ off, lastSeek before = some (k, off) ∧
    (blockPayload (img.block store 32 off.toNat) (k.setWidth 8))[sentSince before]? =
      some (c.io0, c.io1)

/-- Block `k` was streamed and answered `1` later on, and that reply was not the
first one. -/
def Acknowledged (k : Word) (tr : History) : Prop :=
  ∃ tr₁ off tr₂, tr = tr₁ ++ tr₂ ∧ lastSeek tr₁ = some (k, off) ∧ 0 < acks tr₁ ∧ 0 < acks tr₂

/-- The discipline between the host and the EC. -/
structure StopAndWait (img : Image) (tr : History) : Prop where
  /-- A block but the first is streamed only when the block before was answered. -/
  streams : Always (fun before e => ∀ c a, e = .call c a → c.cmd = cmdStreamData →
    ∃ k, StreamsBlock img before c k ∧ (k ≠ 0#32 → AnsweredSince (k - 1#32) before)) tr
  /-- All blocks in front of the last are answered before `PHASE_FINALIZE`. -/
  finalizes : Always (fun before e => ∀ c a, e = .call c a → c.cmd = cmdPhaseCtrl →
    c.io0 = phaseFinalize → ∀ k off, lastSeek before = some (k, off) →
      ∀ j, j < k → AnsweredSince j before) tr
  /-- Every reply `1` but the first moves on to the successor; the other replies
  ask for the same block again. -/
  advances : Always (fun before e => ∀ k' off', e = .out (.fseek k' off') →
    ∀ k off, lastSeek before = some (k, off) →
      k' = if lastReply before = some 1#8 ∧ 2 ≤ acks before then k + 1#32 else k) tr
  /-- An acknowledged block is not streamed again. -/
  once : Always (fun before e => ∀ k' off', e = .out (.fseek k' off') →
    ∀ k, Acknowledged k before → k' ≠ k) tr

section Discipline

variable {opts : Options} {img : Image} {cfg : Moment} {c : Call}

/-- The data of a stream-data command belongs to the current block. -/
theorem streamsBlock_of_inv (hinv : Inv opts img (exchanges cfg.trace) cfg.state)
    (hpaced : Paced cfg) (hc : pending cfg.state = some c) (hcmd : c.cmd = cmdStreamData) :
    StreamsBlock img cfg.trace c cfg.state.vars.temp := by
  have hstreaming := streaming_of_cmd hc hcmd
  refine ⟨_, hpaced.lastSeek_of_streaming hstreaming, ?_⟩
  have hloaded := hinv.loaded hstreaming
  unfold Loaded at hloaded
  rw [(hpaced.streaming hstreaming).2, ← hloaded]
  exact call_streams hinv hc hstreaming

/-- When nothing was sought, a property of the seeks has nothing to say. -/
theorem always_of_seeks {Q : History → Word → Word → Prop} {os : List Out} (h : seeks os = [])
    {a : Transfer} : Always (fun before e => ∀ k off, e = .out (.fseek k off) → Q before k off)
      (.call c a :: os.map .out : History) := by
  refine always_cons.mpr ⟨nofun, always_of_mem fun e he before k off heq => ?_⟩
  rw [heq, List.mem_map_of_injective fun _ _ h => Event.out.inj h, ← mem_seeks, h] at he
  simp at he

/-- The seek behind a poll, in terms of the history before it. -/
theorem seek_spec (hinv : Inv opts img (exchanges cfg.trace) cfg.state) (hpaced : Paced cfg)
    (hbounded : Bounded (exchanges cfg.trace) cfg.state) (hc : pending cfg.state = some c)
    (a : Transfer) :
    Always (fun before e => ∀ k' off', e = .out (.fseek k' off') →
        k'.toNat = acks (cfg.trace ++ before) - 1 ∧
        ∀ k off, lastSeek (cfg.trace ++ before) = some (k, off) →
          k' = if lastReply (cfg.trace ++ before) = some 1#8 ∧ 2 ≤ acks (cfg.trace ++ before)
            then k + 1#32 else k)
      (.call c a :: (resume cfg.state a).2.map .out : History) := by
  by_cases hselects : Selects cfg.state a
  · obtain ⟨hpoll, hfile, r, rfl, hr⟩ := hselects
    have hcmd := cmd_of_poll hc hpoll
    have htracked := (hinv.tracked_of_pending hc).reply r
    have hbound := (bounded_resume hinv hbounded hc (some r)).2
    have hnext := tracked_load htracked hcmd
    rw [resume_asks hpoll hr hfile]
    show Always _ ([.call c (some r), .out (.progress _), .out (.fseek _ _)] : History)
    simp only [always_cons, always_nil, reduceCtorEq, false_implies, implies_true, true_and,
      and_true, Event.out.injEq, Out.fseek.injEq]
    rintro k' off' ⟨rfl, rfl⟩
    have hexchanges : exchanges (cfg.trace ++ ([.call c (some r), .out (.progress
        (percentage cfg.state.vars.ctx.fileSize cfg.state.vars.remaining))] : History)) =
        exchanges cfg.trace ++ [(c, some r)] := by
      simp [exchanges]
    have hseek : lastSeek (cfg.trace ++ ([.call c (some r), .out (.progress
        (percentage cfg.state.vars.ctx.fileSize cfg.state.vars.remaining))] : History)) =
        lastSeek cfg.trace := lastSeek_append rfl
    have hreply : (pollReplies (exchanges cfg.trace ++ [(c, some r)])).getLast? = some r.1 := by
      simp [pollReply?, hcmd]
    -- The counter in terms of the replies, and then in terms of the block before.
    constructor
    · have htemp : (advance { cfg.state.vars with resp := r }).temp = _ := hnext.temp
      show (advance { cfg.state.vars with resp := r }).temp.toNat = _
      rw [htemp]
      simp only [acks, hexchanges, BitVec.toNat_ofNat]
      omega
    · intro k off hlast
      rw [hseek] at hlast
      have hk := (hpaced.eq_of_lastSeek hlast).1
      simp only [lastReply, acks, hexchanges, hreply, ackCount_poll hcmd, hk]
      rw [advance_temp]
      have hfirst : cfg.state.vars.firstTemp = decide (0 < ackCount (exchanges cfg.trace)) :=
        htracked.firstTemp
      by_cases hr1 : r.1 = 1#8
      · by_cases hzero : 0 < ackCount (exchanges cfg.trace)
        · have htwo : 2 ≤ ackCount (exchanges cfg.trace) + 1 := by omega
          simp [hr1, hfirst, hzero, htwo]
        · have htwo : ¬ 2 ≤ ackCount (exchanges cfg.trace) + 1 := by omega
          simp [hr1, hfirst, hzero, htwo]
      · simp [hr1]
  · exact always_of_seeks (seeks_quiet hselects)

/-- In every run the stream-data commands carry the block selected last, and
wait for the one before it. -/
theorem streams_run (opts : Options) (img : Image) (as : List Transfer) :
    Always (fun before e => ∀ c a, e = .call c a → c.cmd = cmdStreamData →
      ∃ k, StreamsBlock img before c k ∧ (k ≠ 0#32 → AnsweredSince (k - 1#32) before))
      ((main opts img).run as).trace := by
  refine Machine.run_always (P := fun cfg => Inv opts img (exchanges cfg.trace) cfg.state ∧
    Paced cfg) (fun n => ⟨inv_run opts img _, paced_run opts img _⟩) always_nil ?_
  rintro cfg c a ⟨hinv, hpaced⟩ hc
  refine always_call fun hcmd => ?_
  rw [List.append_nil]
  refine ⟨_, streamsBlock_of_inv hinv hpaced hc hcmd, fun hne => hpaced.answered _ ?_⟩
  bv_omega

/-- A run keeps the discipline, whatever the EC replies and whichever calls
fail. -/
theorem stopAndWait_run (opts : Options) (img : Image) (as : List Transfer) :
    StopAndWait img ((main opts img).run as).trace := by
  have hseeks : Always (fun before e => ∀ k' off', e = .out (.fseek k' off') →
      k'.toNat = acks before - 1 ∧ ∀ k off, lastSeek before = some (k, off) →
        k' = if lastReply before = some 1#8 ∧ 2 ≤ acks before then k + 1#32 else k)
      ((main opts img).run as).trace := by
    refine Machine.run_always (P := fun cfg => Inv opts img (exchanges cfg.trace) cfg.state ∧
      Paced cfg ∧ Bounded (exchanges cfg.trace) cfg.state) (fun n => ?_) always_nil ?_
    · exact ⟨inv_run opts img _, paced_run opts img _, bounded_run opts img _⟩
    · rintro cfg c a ⟨hinv, hpaced, hbounded⟩ hc
      exact seek_spec hinv hpaced hbounded hc a
  constructor
  · exact streams_run opts img as
  · refine Machine.run_always (P := Paced) (fun n => paced_run opts img _) always_nil ?_
    intro cfg c a hpaced hc
    refine always_call fun _ _ k off hlast j hj => ?_
    rw [List.append_nil] at hlast ⊢
    obtain ⟨rfl, -⟩ := hpaced.eq_of_lastSeek hlast
    exact hpaced.answered j hj
  · exact hseeks.mono fun before e h k' off' heq => (h k' off' heq).2
  · -- Block numbers count the replies `1`, so an acknowledged one is behind.
    rintro before e after htr k' off' rfl k ⟨tr₁, off, tr₂, rfl, hlast, hpos₁, hpos₂⟩ rfl
    obtain ⟨u, v, rfl, -⟩ := exists_of_lastSeek hlast
    have hnow := (hseeks _ _ _ htr k' off' rfl).1
    have hthen := (hseeks u (.out (.fseek k' off)) (v ++ tr₂ ++ .out (.fseek k' off') :: after)
      (by rw [htr]; simp) k' off rfl).1
    have hout : acks (.out (.fseek k' off) :: v) = acks v := rfl
    simp only [acks_append, hout] at hnow hpos₁
    omega

end Discipline

/-- A file whose only block in front of the cut-off is block `0`. -/
def shortImage : Image :=
  ⟨0x4020, fun i => BitVec.ofNat 8 (i.val / 32), by decide⟩

/-- Neither is the last block answered before `PHASE_FINALIZE`, nor does the
first reply `1` move on from a block that was streamed on request. -/
theorem stopAndWait_fails :
    (¬ ∀ opts img as, Always (fun before e => ∀ c a, e = .call c a → c.cmd = cmdPhaseCtrl →
        c.io0 = phaseFinalize → ∀ k off, lastSeek before = some (k, off) → AnsweredSince k before)
        ((main opts img).run as).trace) ∧
      ¬ ∀ opts img as, Always (fun before e => ∀ k' off', e = .out (.fseek k' off') →
        ∀ k off, lastSeek before = some (k, off) → lastReply before = some 1#8 → k' = k + 1#32)
        ((main opts img).run as).trace := by
  constructor
  · intro h
    let tr := ((main { sampleOptions false with ignoreNid := true } shortImage).run
      (handshakeReplies 0#8 0#8 0#8 ++ pollAndBlock 1#8 ++ [some (0#8, 0#8)])).trace
    have htr : tr = tr.take 29 ++ .call ⟨cmdPhaseCtrl, phaseFinalize, 0#8, 2⟩ (some (0#8, 0#8)) ::
        tr.drop 30 := by decide +kernel
    have hbefore : tr.take 29 = tr.take 10 ++ .out (.fseek 0#32 0#32) :: (tr.take 29).drop 11 := by
      decide +kernel
    have hanswered := h _ _ _ _ _ _ htr _ _ rfl rfl rfl 0#32 0#32 (by decide +kernel)
    rw [hbefore] at hanswered
    exact absurd (hanswered.acks_pos (by decide +kernel)) (by decide +kernel)
  · intro h
    let tr := ((main (sampleOptions false) sampleImage).run
      (handshakeReplies 0#8 0#8 0#8 ++ pollAndBlock 0#8 ++ pollAndBlock 1#8)).trace
    have htr : tr = tr.take 30 ++ .out (.fseek 0#32 0#32) :: tr.drop 31 := by decide +kernel
    have hsame := h _ _ _ _ _ _ htr 0#32 0#32 rfl 0#32 0#32 (by decide +kernel) (by decide +kernel)
    exact absurd hsame (by decide)

end First
end EcFlash
