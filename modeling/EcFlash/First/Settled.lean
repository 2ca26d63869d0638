import EcFlash.First.Stream

/-!
# What the EC settles

The base offset and the decision about the boot block come from two replies of
the handshake.  `settled_run` reads both off the exchanges: after every run the
variables hold what the first reply to each of the two commands says, and what
`parse_args` left as long as there is none.
-/

namespace EcFlash
namespace First

open Reactive

/-- The reply to the first call of `cmd`. -/
def firstReply? (cmd : Byte) (xs : Exchanges) : Option (Byte × Byte) :=
  (xs.find? fun x => x.1.cmd = cmd).bind Prod.snd

/-- The base offset that the EC reports, big-endian. -/
def reportedBaseOffset (xs : Exchanges) : Word :=
  match firstReply? cmdReadBaseOff xs with
  | some r => (r.1.setWidth 32 <<< 8) ||| r.2.setWidth 32
  | none => 0#32

/-- The boot block is flashed when `-bbl` asks for it and the EC does not report
status `0x55` in the handshake. -/
def bootBlockIncluded (opts : Options) (xs : Exchanges) : Bool :=
  opts.includeBootloader && (firstReply? cmdReadStatus xs).map Prod.fst ≠ some 0x55#8

/-- The commands that are answered before a point is reached; behind the four
reads more of them follow. -/
def Pc.prelude : Pc → List Byte
  | .readIdVerA => []
  | .readIdVerB => [cmdReadIdVerA]
  | .readBaseOff => [cmdReadIdVerA, cmdReadIdVerB]
  | .readStatus => [cmdReadIdVerA, cmdReadIdVerB, cmdReadBaseOff]
  | _ => [cmdReadIdVerA, cmdReadIdVerB, cmdReadBaseOff, cmdReadStatus]

/-- The commands of the exchanges. -/
abbrev cmds (xs : Exchanges) : List Byte :=
  xs.map fun x => x.1.cmd

/-- The variables hold what the EC reported. -/
structure Settled (opts : Options) (xs : Exchanges) (s : State) : Prop where
  baseOffset : s.vars.baseOffset = reportedBaseOffset xs
  included : s.vars.ctx.includeBootloader = bootBlockIncluded opts xs
  early : s.pc.early = true → cmds xs = s.pc.prelude
  late : s.pc.early = false → pending s ≠ none → s.pc.prelude <+: cmds xs

section FirstReply

variable {cmd : Byte} {xs : Exchanges} {x : Call × Transfer}

/-- Later calls of a command do not count. -/
theorem firstReply?_concat_of_mem (h : cmd ∈ cmds xs) :
    firstReply? cmd (xs ++ [x]) = firstReply? cmd xs := by
  obtain ⟨y, hy, hcmd⟩ := List.mem_map.mp h
  have hfound : (xs.find? fun z => z.1.cmd = cmd).isSome := by
    rw [List.find?_isSome]
    exact ⟨y, hy, by simpa using hcmd⟩
  obtain ⟨z, hz⟩ := Option.isSome_iff_exists.mp hfound
  simp [firstReply?, List.find?_append, hz]

theorem firstReply?_concat_of_ne (h : x.1.cmd ≠ cmd) :
    firstReply? cmd (xs ++ [x]) = firstReply? cmd xs := by
  simp [firstReply?, List.find?_append, h]

theorem firstReply?_concat_of_eq (hnone : cmd ∉ cmds xs) (h : x.1.cmd = cmd) :
    firstReply? cmd (xs ++ [x]) = x.2 := by
  have hmiss : (xs.find? fun z => z.1.cmd = cmd) = none := by
    simpa using hnone
  simp [firstReply?, List.find?_append, hmiss, h]

theorem firstReply?_eq_none (hnone : cmd ∉ cmds xs) : firstReply? cmd xs = none := by
  have hmiss : (xs.find? fun z => z.1.cmd = cmd) = none := by
    simpa using hnone
  simp [firstReply?, hmiss]

end FirstReply

section Step

variable {opts : Options} {xs : Exchanges} {s : State} {c : Call}

theorem prelude_late {pc : Pc} (h : pc.early = false) :
    pc.prelude = [cmdReadIdVerA, cmdReadIdVerB, cmdReadBaseOff, cmdReadStatus] := by
  cases pc <;> first | rfl | exact absurd h (by decide)

/-- A point of the four reads, with the commands before it answered. -/
theorem settled_early {pc : Pc} {l : Locals} (hearly : pc.early = true)
    (hbase : l.baseOffset = reportedBaseOffset xs)
    (hincluded : l.ctx.includeBootloader = bootBlockIncluded opts xs)
    (hcmds : cmds xs = pc.prelude) : Settled opts xs ⟨pc, l⟩ := by
  refine ⟨hbase, hincluded, fun _ => hcmds, fun hlate => ?_⟩
  simp [hearly] at hlate

/-- A failed call leaves both values as they are. -/
theorem settled_failed (h : Settled opts xs s) (hc : pending s = some c) :
    Settled opts (xs ++ [(c, none)]) (resume s none).1 := by
  have hreply (cmd : Byte) :
      firstReply? cmd (xs ++ [(c, none)]) = firstReply? cmd xs := by
    cases hx : xs.find? fun x => x.1.cmd = cmd with
    | none =>
        by_cases hcmd : c.cmd = cmd <;> simp [firstReply?, List.find?_append, hx, hcmd]
    | some x => simp [firstReply?, List.find?_append, hx]
  rw [resume_none hc]
  constructor
  · simpa [reportedBaseOffset, hreply] using h.baseOffset
  · simpa [bootBlockIncluded, hreply] using h.included
  · simp [Pc.early]
  · simp [pending]

/-- Once the four reads are answered only their first replies count. -/
theorem settled_late (h : Settled opts xs s) (hearly : s.pc.early = false)
    (hc : pending s = some c) (a : Transfer) :
    Settled opts (xs ++ [(c, a)]) (resume s a).1 := by
  obtain ⟨hctx, hbase⟩ := resume_fixed hearly a
  have hbehind := h.late hearly (by simp [hc])
  rw [prelude_late hearly] at hbehind
  have hreply (cmd : Byte) (hmem : cmd ∈ [cmdReadIdVerA, cmdReadIdVerB,
      cmdReadBaseOff, cmdReadStatus]) :
      firstReply? cmd (xs ++ [(c, a)]) = firstReply? cmd xs :=
    firstReply?_concat_of_mem (hbehind.subset hmem)
  have hnext := resume_early hearly a
  constructor
  · rw [hbase, h.baseOffset]
    simp [reportedBaseOffset, hreply cmdReadBaseOff (by simp)]
  · rw [hctx, h.included]
    simp [bootBlockIncluded, hreply cmdReadStatus (by simp)]
  · simp [hnext]
  · intro _ _
    rw [prelude_late hnext, cmds, List.map_append]
    exact hbehind.trans (List.prefix_append _ _)

/-- One answered call keeps the variables settled. -/
theorem settled_resume (h : Settled opts xs s) (hc : pending s = some c) (a : Transfer) :
    Settled opts (xs ++ [(c, a)]) (resume s a).1 := by
  have hcmd := pending_cmd hc
  cases a with
  | none => exact settled_failed h hc
  | some r =>
      cases hearly : s.pc.early with
      | false => exact settled_late h hearly hc (some r)
      | true =>
          rcases s with ⟨pc, l⟩
          have hpc : c.cmd = pc.command := hcmd
          have hbegun : cmds xs = pc.prelude := h.early hearly
          -- The four reads are answered one after the other.
          have hcmds : cmds (xs ++ [(c, some r)]) = pc.prelude ++ [pc.command] := by
            simp [← hbegun, ← hpc]
          have hother (cmd : Byte) (hne : pc.command ≠ cmd) :
              firstReply? cmd (xs ++ [(c, some r)]) = firstReply? cmd xs :=
            firstReply?_concat_of_ne (by rwa [hpc])
          have hfirst (hnew : pc.command ∉ pc.prelude) :
              firstReply? pc.command (xs ++ [(c, some r)]) = some r :=
            firstReply?_concat_of_eq (by rwa [hbegun]) hpc
          have hbase : l.baseOffset = _ := h.baseOffset
          have hincluded : l.ctx.includeBootloader = _ := h.included
          unfold reportedBaseOffset at hbase
          unfold bootBlockIncluded at hincluded
          cases pc with
          | readIdVerA =>
              rw [← hother _ (by decide)] at hbase hincluded
              exact settled_early rfl hbase hincluded hcmds
          | readIdVerB =>
              rw [← hother _ (by decide)] at hbase hincluded
              simp only [resume, onRead, afterIdVerB, romGuard]
              split
              · exact ⟨hbase, hincluded, by simp [emit, goto, Pc.early], fun _ h => absurd rfl h⟩
              · exact settled_early rfl hbase hincluded hcmds
          | readBaseOff =>
              rw [← hother _ (by decide)] at hincluded
              refine settled_early rfl ?_ hincluded hcmds
              have hreply := hfirst (by decide)
              simp only [Pc.command] at hreply
              simp [reportedBaseOffset, hreply]
          | readStatus =>
              rw [← hother _ (by decide)] at hbase
              have hreply := hfirst (by decide)
              have hnone : firstReply? cmdReadStatus xs = none := by
                apply firstReply?_eq_none
                rw [hbegun]
                decide
              simp only [Pc.command] at hreply
              simp only [hnone, Option.map_none] at hincluded
              simp only [resume, onRead, afterStatus, choosePhase]
              -- The reply decides about the boot block, the options about the phase.
              split <;> rename_i hkept <;> split <;>
                refine ⟨hbase, ?_, by simp [emit, goto, Pc.early],
                  fun _ _ => hcmds ▸ List.prefix_refl _⟩
              all_goals simp_all [bootBlockIncluded, emit, goto]
          | _ => simp [Pc.early] at hearly

end Step

/-- After every run the variables hold what the EC reported. -/
theorem settled_run (opts : Options) (img : Image) (as : List Transfer) :
    Settled opts (exchanges ((main opts img).run as).trace) ((main opts img).run as).state := by
  apply Machine.run_invariant (P := fun cfg => Settled opts (exchanges cfg.trace) cfg.state)
  · refine ⟨rfl, ?_, fun _ => rfl, nofun⟩
    have hnone : firstReply? cmdReadStatus [] = none := rfl
    simp [bootBlockIncluded, hnone, main, Machine.initial, goto, openRom, exchanges]
  · intro cfg c a h hc
    rw [Machine.exchanges_answer]
    exact settled_resume h hc a

end First
end EcFlash
