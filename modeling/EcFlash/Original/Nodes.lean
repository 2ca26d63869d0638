import EcFlash.Original.Refinement
import EcFlash.Reactive.Environment

/-!
# The programs over the device nodes

Between `main` and the two device nodes stands `kbc_cmd_datas` with what it calls.
Put in between, it carries the refinement down to the bytes on the wire: while no
access fails, the original hands the same bytes to the nodes in a run as the first
implementation, with the two payload bytes of every frame the other way round.
-/

namespace EcFlash
namespace Original

open Reactive

/-- What one call meets: the answers of the system, and what the stack holds where
the original builds its frame. -/
structure Surroundings where
  answer : NodeAnswer
  stack : StackFrame

/-- What a call returns to the first implementation, whose reply buffer is `resp`. -/
def firstServe (s : First.State) (c : Call) (e : Surroundings) : Transfer :=
  (First.kbcCmdDatas c s.vars.resp e.answer).transfer

/-- What it returns to the original, with the reply buffer `ReData`. -/
def serve (t : State) (c : Call) (e : Surroundings) : Transfer :=
  (kbcCmdDatas e.stack c t.mem.reData e.answer).transfer

/-- The first implementation over the device nodes. -/
def firstOverNodes (opts : First.Options) (img : Image) :
    Machine Call Surroundings First.Out First.State :=
  (First.main opts img).through firstServe

/-- The original over the device nodes. -/
def overNodes (opts : First.Options) (img : Image) (stack : Slots) :
    Machine Call Surroundings Out State :=
  (main opts img stack).through serve

/-- The calls of a run, with all that they meet. -/
def invocations {Out : Type} (tr : List (Event Call Surroundings Out)) : List Invocation :=
  (exchanges tr).map fun x => ⟨x.1, x.2.answer, x.2.stack⟩

section Serve

variable {s : First.State} {t : State} {c : Call} {e : Surroundings}

theorem firstServe_ne_none (s : First.State) (c : Call) (h : e.answer.Succeeds) :
    firstServe s c e ≠ none := by
  unfold firstServe First.kbcCmdDatas
  split
  · exact h.transfer_readNode c.cmd s.vars.resp
  · exact h.transfer_writeNode _ s.vars.resp

/-- A program that waits on a call finds the reply buffer of the other one. -/
theorem Matches.resp (h : Matches s t) (hc : pending t = some c) :
    s.vars.resp = t.mem.reData := by
  have hholds := h.holds
  rcases t with ⟨pc, m⟩
  change Holds s.vars m pc at hholds
  cases pc with
  | kbc8c4c | kbc8c90 | kbc8d68 | kbc8da0 | kbc8e54 | kbc91e4 => exact hholds.1.resp
  | exited rc | sigfpe => simp [pending] at hc
  | _ => exact hholds.resp

/-- A short read leaves the same bytes in both buffers. -/
theorem serve_eq (h : Matches s t) (hc : pending t = some c) :
    firstServe s c e = serve t c e := by
  unfold firstServe serve
  rw [h.resp hc]
  exact transfer_kbcCmdDatas ⟨c, e.answer, e.stack⟩ t.mem.reData

end Serve

/-- Over the nodes the two programs run in lock step, too. -/
theorem lockStep_overNodes (opts : First.Options) (img : Image) (stack : Slots) :
    LockStep (firstOverNodes opts img) (overNodes opts img stack) id
      (fun e => e.answer.Succeeds) Matches := by
  apply (lockStep opts img stack).through
  intro s t c c' e h hc hc' hok
  have hsame : c = c' := by
    have hpending := matches_pending h
    change First.pending s = some c at hc
    change pending t = some c' at hc'
    rw [hc, hc'] at hpending
    exact Option.some.inj hpending
  subst hsame
  exact ⟨serve_eq h hc', firstServe_ne_none s c hok⟩

/-- A run over the nodes without a failed access is one of the runs without a failed
call. -/
theorem exists_run_firstOverNodes (opts : First.Options) (img : Image) (es : List Surroundings)
    (hok : ∀ e ∈ es, e.answer.Succeeds) :
    ∃ as, (∀ a ∈ as, a ≠ none) ∧
      ((firstOverNodes opts img).run es).state = ((First.main opts img).run as).state ∧
      calls ((firstOverNodes opts img).run es).trace =
        calls ((First.main opts img).run as).trace ∧
      outputs ((firstOverNodes opts img).run es).trace =
        outputs ((First.main opts img).run as).trace :=
  Machine.exists_run_through (m := First.main opts img) (P := fun e => e.answer.Succeeds)
    (Q := fun a => a ≠ none) (fun s c _ he => firstServe_ne_none s c he) es hok

/-- While no access fails, the original hands to the nodes what the first
implementation does, with the payload bytes swapped. -/
theorem frames_overNodes (opts : First.Options) (img : Image) (stack : Slots)
    (out : Byte × Byte) (es : List Surroundings) (hok : ∀ e ∈ es, e.answer.Succeeds) :
    originalFrames out (invocations ((overNodes opts img stack).run es).trace) =
      (firstFrames out (invocations ((firstOverNodes opts img).run es).trace)).map
        swapPayload := by
  have hexchanges := LockStep.exchanges_eq (h := lockStep_overNodes opts img stack) es hok
  unfold invocations originalFrames firstFrames frames
  rw [← hexchanges, List.map_map, List.map_map, List.map_map]
  exact List.map_congr_left fun x _ => sent_eq_swap ⟨x.1, x.2.answer, x.2.stack⟩ out

end Original
end EcFlash
