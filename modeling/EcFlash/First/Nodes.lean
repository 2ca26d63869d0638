import EcFlash.First.Area
import EcFlash.Reactive.Environment
import EcFlash.Reactive.History

/-!
# Stale replies

Between `main` and the device nodes `kbc_cmd_datas` tests the results of `read` and
`write` for being negative only.  An access that moves fewer bytes than it was asked
to reports success, and of the reply buffer, which all commands share, it overwrites
what it has read.  What `main` then decides on is left from an earlier command.

Over the nodes a run is driven by what the system answers to each access.
`neverStale_iff` says that a run keeps clear of stale replies exactly when none of
its accesses is short, and `decrements_le` bounds what a stale reply can do to the
block counter.
-/

namespace EcFlash
namespace First

open Reactive

/-- A run of `main` over the nodes at one moment. -/
abbrev NodeMoment := Config Call NodeAnswer Out State

/-- What `kbc_cmd_datas` returns to `main`, whose reply buffer is `resp`. -/
def serve (s : State) (c : Call) (a : NodeAnswer) : Transfer :=
  (kbcCmdDatas c s.vars.resp a).transfer

/-- `main` over the device nodes. -/
def overNodes (opts : Options) (img : Image) : Machine Call NodeAnswer Out State :=
  (main opts img).through serve

/-- The result of the pending call. -/
def result (s : State) (a : NodeAnswer) : Transfer :=
  (pending s).bind fun c => serve s c a

/-- `remaining -= BLOCK_SIZE` runs: `main` finds the reply `1` to a poll in its
buffer, and the percentage before did not trap. -/
def Decrements (cfg : NodeMoment) (a : NodeAnswer) : Prop :=
  cfg.state.pc = .poll ∧ cfg.state.vars.ctx.fileSize ≠ 0#32 ∧
    (result cfg.state a).map Prod.fst = some 1#8

/-- The device delivers the status `1` to a poll. -/
def DeliversOne (cfg : NodeMoment) (a : NodeAnswer) : Prop :=
  cfg.state.pc = .poll ∧ a.delivers.head? = some 1#8

/-- A poll succeeds without a reply. -/
def EmptyPoll (cfg : NodeMoment) (a : NodeAnswer) : Prop :=
  cfg.state.pc = .poll ∧ result cfg.state a ≠ none ∧ a.delivers = []

instance (cfg : NodeMoment) (a : NodeAnswer) : Decidable (Decrements cfg a) :=
  inferInstanceAs (Decidable (_ ∧ _ ∧ _))

instance (cfg : NodeMoment) (a : NodeAnswer) : Decidable (DeliversOne cfg a) :=
  inferInstanceAs (Decidable (_ ∧ _))

instance (cfg : NodeMoment) (a : NodeAnswer) : Decidable (EmptyPoll cfg a) :=
  inferInstanceAs (Decidable (_ ∧ _ ∧ _))

/-- The pending call reports success only with all its bytes, and a reply that
`main` decides on is the one delivered for it. -/
structure StepFresh (cfg : NodeMoment) (a : NodeAnswer) : Prop where
  success : ∀ c, pending cfg.state = some c → serve cfg.state c a ≠ none → Full c a
  decision : ∀ c r, pending cfg.state = some c → c.mode < 1 → serve cfg.state c a = some r →
    a.delivers = [r.1, r.2]

/-- The run never goes by a stale reply. -/
structure NeverStale (opts : Options) (img : Image) (es : List NodeAnswer) : Prop where
  steps : (overNodes opts img).AllSteps StepFresh es
  decrements : ∀ n, (overNodes opts img).countSteps Decrements (es.take n) ≤
    (overNodes opts img).countSteps DeliversOne (es.take n)

section Step

variable {s : State} {c : Call} {a : NodeAnswer} {r : Byte × Byte}

theorem serve_read (hmode : c.mode < 1) :
    serve s c a =
      if a.opened = true ∧ a.cmdWritten ≠ none ∧ a.seeked = true ∧ a.delivered ≠ .error then
        some (overwrite s.vars.resp a.delivers)
      else none := by
  unfold serve kbcCmdDatas
  rw [if_pos hmode]
  exact transfer_readNode c.cmd s.vars.resp a

theorem serve_write (hmode : ¬ c.mode < 1) :
    serve s c a =
      if a.opened = true ∧ a.frameWritten ≠ none then some s.vars.resp else none := by
  unfold serve kbcCmdDatas
  rw [if_neg hmode]
  exact transfer_writeNode_eq _ s.vars.resp a

/-- A short access succeeds all the same. -/
theorem serve_of_short (h : Short c a) : serve s c a ≠ none ∧ ¬ Full c a := by
  unfold Short at h
  unfold Full
  by_cases hmode : c.mode < 1
  · rw [if_pos hmode] at h ⊢
    obtain ⟨hopen, hshort⟩ := h
    rw [serve_read hmode, if_pos hopen]
    refine ⟨by simp, ?_⟩
    rintro ⟨hcmd, hlength⟩
    rcases hshort with ⟨n, hn, hshort⟩ | hshort
    · rw [hshort, Option.some.injEq] at hcmd
      exact absurd hcmd (Fin.ne_of_lt hn)
    · omega
  · rw [if_neg hmode] at h ⊢
    obtain ⟨hopen, n, hn, hframe⟩ := h
    rw [serve_write hmode, if_pos ⟨hopen, by simp [hframe]⟩]
    refine ⟨by simp, ?_⟩
    rintro ⟨-, hfull⟩
    rw [hframe, Option.some.injEq] at hfull
    exact absurd hfull (Fin.ne_of_lt hn)

/-- A count that is neither negative nor too small is the one asked for. -/
theorem eq_some_last {k : Nat} {count : Option (Fin (k + 1))} (h : count ≠ none)
    (hshort : ¬ ∃ n, n < Fin.last k ∧ count = some n) : count = some (Fin.last k) := by
  obtain ⟨n, hn⟩ := Option.ne_none_iff_exists'.mp h
  have hlast : ¬ n < Fin.last k := fun hlt => hshort ⟨n, hlt, hn⟩
  rw [hn, Fin.eq_last_of_not_lt hlast]

/-- Any other access that succeeds has moved all its bytes. -/
theorem full_of_serve (h : serve s c a ≠ none) (hshort : ¬ Short c a) : Full c a := by
  unfold Short at hshort
  unfold Full
  by_cases hmode : c.mode < 1
  · rw [if_pos hmode] at hshort ⊢
    rw [serve_read hmode] at h
    have hopen := of_not_not fun hrefused => h (if_neg hrefused)
    have hle := length_delivers_le a
    have hlength : ¬ a.delivers.length < 2 := fun hlt => hshort ⟨hopen, .inr hlt⟩
    exact ⟨eq_some_last hopen.2.1 fun hcmd => hshort ⟨hopen, .inl hcmd⟩, by omega⟩
  · rw [if_neg hmode] at hshort ⊢
    rw [serve_write hmode] at h
    have hopen := of_not_not fun hrefused => h (if_neg hrefused)
    exact ⟨hopen.1, eq_some_last hopen.2 fun hframe => hshort ⟨hopen.1, hframe⟩⟩

/-- The reply of a read with all its bytes is the one that was delivered. -/
theorem delivers_of_full (hmode : c.mode < 1) (hfull : Full c a) (h : serve s c a = some r) :
    a.delivers = [r.1, r.2] := by
  rw [Full, if_pos hmode] at hfull
  rw [serve_read hmode] at h
  split at h
  · obtain ⟨b0, b1, hbytes⟩ := List.length_eq_two.mp hfull.2
    rw [hbytes, overwrite, Option.some.injEq] at h
    rw [hbytes, ← h]
  · simp at h

/-- A step is fresh exactly when its access is not short. -/
theorem stepFresh_iff (cfg : NodeMoment) (a : NodeAnswer) :
    StepFresh cfg a ↔ ∀ c, pending cfg.state = some c → ¬ Short c a := by
  constructor
  · intro h c hc hshort
    obtain ⟨hsome, hnot⟩ := serve_of_short (s := cfg.state) hshort
    exact hnot (h.success c hc hsome)
  · intro h
    have hfull (c : Call) (hc : pending cfg.state = some c) (hsome : serve cfg.state c a ≠ none) :
        Full c a := full_of_serve hsome (h c hc)
    refine ⟨hfull, fun c r hc hmode hr => ?_⟩
    exact delivers_of_full hmode (hfull c hc (by simp [hr])) hr

theorem pending_poll (hpoll : s.pc = .poll) : ∃ c, pending s = some c ∧ c.mode < 1 := by
  simp [pending, hpoll]

/-- The status that a poll is taken to report was delivered, or nothing was. -/
theorem deliversOne_or_emptyPoll {cfg : NodeMoment} (h : Decrements cfg a) :
    DeliversOne cfg a ∨ EmptyPoll cfg a := by
  obtain ⟨hpoll, -, hone⟩ := h
  obtain ⟨c, hc, hmode⟩ := pending_poll hpoll
  have hresult : result cfg.state a = serve cfg.state c a := by simp [result, hc]
  cases hbytes : a.delivers with
  | nil => exact .inr ⟨hpoll, fun hnone => by simp [hnone] at hone, hbytes⟩
  | cons b0 bs =>
      rw [hresult, serve_read hmode] at hone
      split at hone
      · rw [hbytes] at hone
        refine .inl ⟨hpoll, ?_⟩
        -- The buffer begins with the byte that was read first.
        cases bs <;> simpa [hbytes, overwrite] using hone
      · simp at hone

/-- An empty poll is short. -/
theorem not_emptyPoll {cfg : NodeMoment} (h : StepFresh cfg a) : ¬ EmptyPoll cfg a := by
  rintro ⟨hpoll, hsome, hempty⟩
  obtain ⟨c, hc, hmode⟩ := pending_poll hpoll
  have hresult : result cfg.state a = serve cfg.state c a := by simp [result, hc]
  rw [hresult] at hsome
  have hfull := h.success c hc hsome
  rw [Full, if_pos hmode, hempty] at hfull
  simp at hfull

/-- The counter changes in no other step behind the handshake, and there as the code
behind the reply `1` says. -/
theorem resume_remaining {cfg : NodeMoment} (hc : pending cfg.state = some c)
    (hearly : cfg.state.pc.early = false) (a : NodeAnswer) :
    (resume cfg.state (serve cfg.state c a)).1.vars.remaining =
      if Decrements cfg a then (advance { cfg.state.vars with resp := (1#8, 0#8) }).remaining
      else cfg.state.vars.remaining := by
  have hresult : result cfg.state a = serve cfg.state c a := by simp [result, hc]
  simp only [Decrements, hresult]
  by_cases hpoll : cfg.state.pc = .poll
  · cases hserve : serve cfg.state c a with
    | none => simp [resume_none hc]
    | some r =>
        by_cases hr : AsksBlock r.1
        · by_cases hfile : cfg.state.vars.ctx.fileSize = 0#32
          · unfold AsksBlock at hr
            simp [resume_poll hpoll, afterPoll, hr, hfile, goto]
          · rw [resume_asks hpoll hr hfile]
            by_cases hone : r.1 = 1#8 <;>
              simp [hpoll, hfile, hone, advance, emit, streamBlock, streamFrom, goto, loadBlock]
        · obtain ⟨io, needRejump, hframe⟩ := loopHead_frame { cfg.state.vars with resp := r }
          have hone : r.1 ≠ 1#8 := fun hone => hr (.inr (.inl hone))
          rw [resume_not_asks hpoll hr, hframe]
          simp [hone]
  · obtain ⟨io, resp, needRejump, hframe⟩ := resume_frame hearly hpoll (serve cfg.state c a)
    rw [hframe, if_neg fun h => hpoll h.1]

/-- The loop test leaves the reply buffer alone. -/
theorem loopHead_resp (l : Locals) : (loopHead l).1.vars.resp = l.resp := by
  obtain ⟨io, needRejump, hframe⟩ := loopHead_frame l
  rw [hframe]

theorem afterPoll_resp (l : Locals) : (afterPoll l).1.vars.resp = l.resp := by
  by_cases hr : AsksBlock l.resp.1
  · by_cases hfile : l.ctx.fileSize = 0#32
    · unfold AsksBlock at hr
      simp [afterPoll, hr, hfile, goto]
    · rw [afterPoll_of_asks hr hfile]
      simp [emit, streamBlock, streamFrom, goto, loadBlock]
  · rw [afterPoll_of_not_asks hr, loopHead_resp]

/-- The result of a read is what `main` finds in the buffer. -/
theorem resume_resp (hc : pending s = some c) (t : Transfer) :
    (resume s t).1.vars.resp = if c.mode < 1 then t.getD s.vars.resp else s.vars.resp := by
  cases t with
  | none =>
      rw [resume_none hc]
      simp
  | some r =>
      rcases s with ⟨pc, l⟩
      cases pc with
      | readIdVerB =>
          obtain rfl := Option.some.inj hc
          simp only [resume, onRead, afterIdVerB, romGuard]
          split <;> rfl
      | readStatus =>
          obtain rfl := Option.some.inj hc
          simp only [resume, onRead, afterStatus, choosePhase]
          split <;> split <;> rfl
      | rejumpStatus =>
          obtain rfl := Option.some.inj hc
          simp only [resume, onRead, afterJump]
          split <;> rfl
      | poll =>
          obtain rfl := Option.some.inj hc
          exact afterPoll_resp { l with resp := r }
      | setOffset | streamTrailer =>
          obtain rfl := Option.some.inj hc
          exact loopHead_resp l
      | streamWord i =>
          obtain rfl := Option.some.inj hc
          simp only [resume, onWrite, streamFrom]
          split <;> rfl
      | returned rc => simp [pending] at hc
      | sigfpe => simp [pending] at hc
      | _ =>
          obtain rfl := Option.some.inj hc
          rfl

/-- What an access leaves in the reply buffer. -/
def receive (out : Byte × Byte) (x : Call × NodeAnswer) : Byte × Byte :=
  if x.1.mode < 1 then overwrite out x.2.delivers else out

/-- A read that fails has delivered nothing. -/
theorem receive_eq (hc : pending s = some c) (a : NodeAnswer) :
    (resume s (serve s c a)).1.vars.resp = receive s.vars.resp (c, a) := by
  rw [resume_resp hc, receive]
  by_cases hmode : c.mode < 1
  · rw [if_pos hmode, if_pos hmode, serve_read hmode]
    split
    · rfl
    · rename_i hrefused
      have hnothing : a.delivers = [] := by
        unfold NodeAnswer.delivers
        split
        · rename_i hopen
          cases hread : a.delivered <;> simp_all
        · rfl
      rw [hnothing]
      rfl
  · rw [if_neg hmode, if_neg hmode]

end Step

section Run

variable (opts : Options) (img : Image)

/-- The reply buffer holds what the reads of the run have delivered, each from the
front, and what it held before where they delivered nothing. -/
theorem resp_run (es : List NodeAnswer) :
    ((overNodes opts img).run es).state.vars.resp =
      (exchanges ((overNodes opts img).run es).trace).foldl receive (0#8, 0#8) := by
  refine Machine.run_invariant (P := fun cfg : NodeMoment =>
    cfg.state.vars.resp = (exchanges cfg.trace).foldl receive (0#8, 0#8)) rfl ?_ es
  intro cfg c a h hc
  have hresume : (overNodes opts img).resume cfg.state a = _ :=
    Machine.through_resume (m := main opts img) hc a
  rw [Machine.exchanges_answer, List.foldl_append, List.foldl_cons, List.foldl_nil, ← h,
    ← receive_eq hc]
  exact congrArg (fun next => next.1.vars.resp) hresume

/-- A block is taken off at most once for each status `1` delivered and each poll
that delivered nothing. -/
theorem decrements_le (es : List NodeAnswer) :
    (overNodes opts img).countSteps Decrements es ≤
      (overNodes opts img).countSteps DeliversOne es +
        (overNodes opts img).countSteps EmptyPoll es :=
  Machine.countSteps_le_add fun _ _ _ => deliversOne_or_emptyPoll

/-- A run goes by no stale reply exactly when none of its accesses is short. -/
theorem neverStale_iff (es : List NodeAnswer) :
    NeverStale opts img es ↔ (overNodes opts img).AllSteps
      (fun cfg a => ∀ c, pending cfg.state = some c → ¬ Short c a) es := by
  constructor
  · intro h n a hn
    exact (stepFresh_iff _ _).mp (h.steps n a hn)
  · intro h
    have hsteps : (overNodes opts img).AllSteps StepFresh es :=
      fun n a hn => (stepFresh_iff _ _).mpr (h n a hn)
    refine ⟨hsteps, fun n => ?_⟩
    have hnone : (overNodes opts img).countSteps EmptyPoll (es.take n) = 0 :=
      Machine.countSteps_eq_zero fun k a hk => not_emptyPoll (hsteps.take n k a hk)
    have hle := decrements_le opts img (es.take n)
    omega

end Run

/-- An access that moves all its bytes. -/
def completeAccess (b0 b1 : Byte) : NodeAnswer :=
  ⟨true, some (Fin.last 1), some (Fin.last 3), true, .two b0 b1⟩

/-- A poll that delivers nothing repeats the reply before it: one status `1` takes two
blocks off. -/
theorem neverStale_fails :
    ¬ NeverStale (sampleOptions false) sampleImage
      (List.replicate 6 (completeAccess 0#8 0#8) ++
        List.replicate 18 (completeAccess 1#8 0#8) ++
        [{ completeAccess 0#8 0#8 with delivered := .zero }]) := by
  intro h
  have hcount := h.decrements 25
  exact absurd hcount (by decide +kernel)

end First
end EcFlash
