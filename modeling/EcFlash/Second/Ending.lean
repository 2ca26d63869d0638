import EcFlash.First.Ending
import EcFlash.Second.Args
import EcFlash.Second.Delivery
import EcFlash.Second.FailStop

/-!
# The second implementation ends

A failed call of the flash loop is a `break`, and the tail looks at no result.  So the
program ends as the first one does, but with `0` whatever fails, once it has polled.
A failed data word breaks only the word loop and a run with failures is no run of the
first implementation, so the number of blocks to come is bounded by what `remaining`
is, and not by what has been answered.

Without failures it returns `0` where the first one does, although the EC then holds
the first 8 KiB of the area over and over.
-/

namespace EcFlash
namespace Second

open Reactive

/-! ## The blocks to come -/

/-- A bound on the replies `1` to come, by what is left behind the base offset and what
remains.  Below one block `remaining` wraps, and from then on it gets below the cut-off
before it gets to a boundary there. -/
def turns (boundary remaining : Nat) : Nat :=
  if remaining = 0 then 0
  else if remaining < 32 then 2 ^ 28
  else if remaining = boundary + 32 ∧ boundary < 32 then 2 ^ 28 + 1
  else remaining / 32

theorem turns_le {boundary remaining : Nat} (h : remaining < 2 ^ 32) :
    turns boundary remaining ≤ 2 ^ 28 + 1 := by
  unfold turns
  split <;> [skip; split <;> [skip; split]] <;> omega

theorem turns_pos {boundary remaining : Nat} (hpos : 0 < remaining) :
    turns boundary 0 < turns boundary remaining := by
  unfold turns
  rw [if_pos rfl, if_neg (Nat.ne_of_gt hpos)]
  split <;> [skip; split] <;> omega

/-- What the loop goes on with has fewer turns. -/
theorem turns_lt {boundary remaining next : Nat} (hpos : 0 < remaining)
    (hnext : next = if 32 ≤ remaining then remaining - 32 else remaining + 2 ^ 32 - 32)
    (hgoes : next = boundary ∨ 0x4001 ≤ next) :
    turns boundary next < turns boundary remaining := by
  unfold turns
  split at hnext <;> grind

/-- The bound in the state of the program. -/
def turnsLeft (l : Locals) : Nat :=
  turns (l.gFileSize - l.flashBase.setWidth 32).toNat l.remaining.toNat

section Turns

variable {l : Locals}

/-- A reply `1` takes a turn. -/
theorem turnsLeft_advance (hne : l.remaining ≠ 0#32) (hr : l.reData.1 = 1#8) :
    turnsLeft (advance l) < turnsLeft l := by
  have hlt := l.remaining.isLt
  have hpos : 0 < l.remaining.toNat :=
    Nat.pos_of_ne_zero fun h => hne (BitVec.eq_of_toNat_eq h)
  have hnext : (l.remaining - blockSize).toNat =
      if 32 ≤ l.remaining.toNat then l.remaining.toNat - 32
      else l.remaining.toNat + 2 ^ 32 - 32 := by
    rw [BitVec.toNat_sub]
    show (2 ^ 32 - 32 + l.remaining.toNat) % 2 ^ 32 = _
    split <;> omega
  have hadvance : turnsLeft (advance l) = turns (l.gFileSize - l.flashBase.setWidth 32).toNat
      (advance l).remaining.toNat := by
    simp [turnsLeft, advance, hr]
  have hremaining : (advance l).remaining =
      if l.gFileSize - l.flashBase.setWidth 32 = l.remaining - blockSize then
        l.remaining - blockSize
      else if l.remaining - blockSize < 0x4001#32 then 0#32 else l.remaining - blockSize := by
    simp [advance, hr]
  rw [hadvance, hremaining, turnsLeft]
  -- At the boundary, below the cut-off, or above it.
  split
  · rename_i hat
    exact turns_lt hpos hnext (.inl (congrArg BitVec.toNat hat.symm))
  · split
    · exact turns_pos hpos
    · rename_i hcut
      exact turns_lt hpos hnext (.inr (BitVec.le_def.mp (BitVec.not_lt.mp hcut)))

end Turns

/-! ## How far a run has come -/

/-- Where the points stand in the code. -/
inductive Stage where
  | handshake
  | loop
  | behind
  deriving DecidableEq

/-- The stage of a point; only the handshake returns an error. -/
def Pc.stage : Pc → Stage
  | .getIdMainVer | .getSubTestVer | .getFlashBase | .getBootStatus | .setPhase | .setOffset =>
      .handshake
  | .rejumpPhase | .rejumpStatus | .rejumpOffset | .pollProgress | .writeData _
  | .writeTrailer => .loop
  | .finalPhase | .rebootMode | .sigfpe => .behind
  | .returned rc => if rc = 0 then .behind else .handshake

/-- What has been done of what there is to do; it never goes down. -/
def done (s : State) : Nat :=
  match s.pc.stage with
  | .handshake => 0
  | .loop => 2 ^ 28 + 2 - turnsLeft s.vars
  | .behind => 2 ^ 28 + 3

theorem done_le (s : State) : done s ≤ 2 ^ 28 + 3 := by
  unfold done
  split <;> omega

/-- In the handshake nothing has been done, and nowhere else. -/
theorem done_eq_zero_iff (s : State) : done s = 0 ↔ s.pc.stage = .handshake := by
  have hle : turnsLeft s.vars ≤ 2 ^ 28 + 1 := turns_le s.vars.remaining.isLt
  unfold done
  cases s.pc.stage <;> simp
  omega

section Step

variable {s : State} {c : Call}

/-- The loop test goes on in the loop, with the same turns, or leaves it. -/
theorem done_loopHead (l : Locals) : 2 ^ 28 + 2 - turnsLeft l ≤ done (loopHead l).1 := by
  unfold loopHead
  split <;> [split; skip]
  · exact Nat.le_refl _
  · exact Nat.le_refl _
  · show _ ≤ 2 ^ 28 + 3
    omega

/-- Behind an answered poll, the turn that a reply `1` takes included. -/
theorem done_afterPoll {l : Locals} (hne : l.remaining ≠ 0#32) :
    (2 ^ 28 + 2 - turnsLeft l) + (if l.reData.1 = 1#8 then 1 else 0) ≤ done (afterPoll l).1 := by
  have hle : turnsLeft l ≤ 2 ^ 28 + 1 := turns_le l.remaining.isLt
  unfold afterPoll
  by_cases hasks : l.reData.1 = 0#8 ∨ l.reData.1 = 1#8 ∨ l.reData.1 = 2#8
  · rw [if_pos hasks]
    by_cases hfile : l.gFileSize = 0#32
    · rw [if_pos hfile]
      show _ ≤ 2 ^ 28 + 3
      split <;> omega
    · rw [if_neg hfile]
      show _ ≤ 2 ^ 28 + 2 - turnsLeft (advance l)
      by_cases hr : l.reData.1 = 1#8
      · have hlt := turnsLeft_advance hne hr
        rw [if_pos hr]
        omega
      · rw [if_neg hr, advance, if_neg hr, Nat.add_zero]
  · rw [if_neg hasks, if_neg fun hr => hasks (.inr (.inl hr)), Nat.add_zero]
    exact done_loopHead l

/-- No answer takes the program back. -/
theorem done_resume (hc : pending s = some c)
    (hpoll : s.pc = .pollProgress → s.vars.remaining ≠ 0#32) (a : Transfer) :
    done s ≤ done (resume s a).1 := by
  have hbehind (l : Locals) : done s ≤ done (afterLoop l).1 := done_le s
  rcases s with ⟨pc, l⟩
  cases pc with
  | rejumpPhase | rejumpOffset => cases a <;> first | exact hbehind l | exact Nat.le_refl _
  | rejumpStatus =>
      cases a with
      | none => exact hbehind l
      | some r =>
          simp only [resume, onRead, afterJump]
          split
          · exact hbehind _
          · exact Nat.le_refl _
  | pollProgress =>
      cases a with
      | none => exact hbehind l
      | some r =>
          have hpolled := done_afterPoll (l := { l with reData := r }) (hpoll rfl)
          exact Nat.le_trans (Nat.le_add_right _ _) hpolled
  | writeData i =>
      cases a with
      | none => exact Nat.le_refl _
      | some r =>
          simp only [resume, onWrite, sendFrom]
          split <;> exact Nat.le_refl _
  | writeTrailer =>
      cases a with
      | none => exact hbehind l
      | some r => exact done_loopHead l
  | finalPhase | rebootMode => exact Nat.le_refl _
  | returned rc | sigfpe => simp [pending] at hc
  | _ => exact Nat.zero_le _

/-- A granted poll takes it on. -/
theorem done_granted (hpoll : s.pc = .pollProgress) (hne : s.vars.remaining ≠ 0#32)
    {a : Transfer} (hgranted : First.Accepts a) : done s < done (resume s a).1 := by
  obtain ⟨r, rfl, hr⟩ := Option.map_eq_some_iff.mp hgranted
  rcases s with ⟨pc, l⟩
  subst hpoll
  have hpolled := done_afterPoll (l := { l with reData := r }) hne
  rw [if_pos hr] at hpolled
  exact hpolled

/-- Apart from a poll, every answer brings the program closer to the next one. -/
theorem toPoll_resume (hc : pending s = some c) (hpoll : s.pc ≠ .pollProgress) (a : Transfer) :
    (resume s a).1.pc.first.toPoll < s.pc.first.toPoll := by
  have hhead (l : Locals) : (loopHead l).1.pc.first.toPoll ≤ 6 := by
    unfold loopHead
    split <;> [split; skip] <;> simp [goto, afterLoop, emit, Pc.first, First.Pc.toPoll,
      First.Pc.distance]
  rcases s with ⟨pc, l⟩
  cases pc with
  | getSubTestVer =>
      cases a with
      | none => simp [resume, onRead, exitPro, goto, Pc.first, First.Pc.toPoll, First.Pc.distance]
      | some r =>
          simp only [resume, onRead, afterSubTestVer, romGuard]
          split <;> simp [emit, exitPro, goto, Pc.first, First.Pc.toPoll, First.Pc.distance]
  | getBootStatus =>
      cases a with
      | none => simp [resume, onRead, exitPro, goto, Pc.first, First.Pc.toPoll, First.Pc.distance]
      | some r =>
          simp only [resume, onRead, afterBootStatus, choosePhase]
          split <;> split <;> simp [emit, goto, Pc.first, First.Pc.toPoll, First.Pc.distance]
  | rejumpStatus =>
      cases a with
      | none => simp [resume, onRead, afterLoop, emit, goto, Pc.first, First.Pc.toPoll,
          First.Pc.distance]
      | some r =>
          simp only [resume, onRead, afterJump]
          split <;> simp [emit, afterLoop, goto, Pc.first, First.Pc.toPoll, First.Pc.distance]
  | writeData i =>
      cases a with
      | none =>
          simp only [resume, onWrite, sendTrailer, goto, Pc.first, First.Pc.toPoll,
            First.Pc.distance]
          omega
      | some r =>
          simp only [resume, onWrite, sendFrom]
          split <;> simp only [sendTrailer, goto, Pc.first, First.Pc.toPoll, First.Pc.distance] <;>
            omega
  | setOffset | writeTrailer =>
      cases a with
      | none => simp [resume, onWrite, exitPro, afterLoop, emit, goto, Pc.first, First.Pc.toPoll,
          First.Pc.distance]
      | some r => exact Nat.lt_of_le_of_lt (hhead l) (by simp [Pc.first, First.Pc.toPoll,
          First.Pc.distance])
  | pollProgress => exact absurd rfl hpoll
  | returned rc | sigfpe => simp [pending] at hc
  | _ => cases a <;> simp [resume, onRead, onWrite, goto, emit, exitPro, afterIdMainVer,
      afterFlashBase, afterSetPhase, afterLoop, afterFinalPhase, afterRebootMode, Pc.first,
      First.Pc.toPoll, First.Pc.distance]

end Step

/-! ## Runs -/

/-- The points of the loop body up to the poll. -/
def Pc.waits : Pc → Bool
  | .rejumpPhase | .rejumpStatus | .rejumpOffset | .pollProgress => true
  | _ => false

/-- What every state of a run has: in front of a poll there is something left, and a
file that is not empty does not trap. -/
structure Steady (img : Image) (t : State) : Prop where
  fileSize : t.vars.gFileSize = BitVec.ofNat 32 img.size
  waiting : t.pc.waits = true → t.vars.remaining ≠ 0#32
  alive : 0 < img.size → t.pc ≠ .sigfpe

section Steady

variable {img : Image} {t : State} {l : Locals}

theorem steady_of_quiet (hfile : t.vars.gFileSize = BitVec.ofNat 32 img.size)
    (hwaits : t.pc.waits = false) (halive : decide (t.pc = .sigfpe) = false) : Steady img t :=
  ⟨hfile, fun h => by simp [hwaits] at h, fun _ => of_decide_eq_false halive⟩

theorem steady_loopHead (hfile : l.gFileSize = BitVec.ofNat 32 img.size) :
    Steady img (loopHead l).1 := by
  unfold loopHead
  split
  · rename_i hne
    split <;> exact ⟨hfile, fun _ => hne, fun _ => of_decide_eq_false rfl⟩
  · exact steady_of_quiet hfile rfl rfl

theorem advance_gFileSize (l : Locals) : (advance l).gFileSize = l.gFileSize := by
  unfold advance
  split <;> rfl

theorem steady_resume (h : Steady img t) (a : Transfer) : Steady img (resume t a).1 := by
  obtain ⟨hfile, hwaiting, halive⟩ := h
  rcases t with ⟨pc, l⟩
  change l.gFileSize = _ at hfile
  cases pc with
  | getIdMainVer | getFlashBase | setPhase | finalPhase | rebootMode =>
      cases a <;> exact steady_of_quiet hfile rfl rfl
  | getSubTestVer =>
      cases a with
      | none => exact steady_of_quiet hfile rfl rfl
      | some r =>
          simp only [resume, onRead, afterSubTestVer, romGuard]
          split <;> exact steady_of_quiet hfile rfl rfl
  | getBootStatus =>
      cases a with
      | none => exact steady_of_quiet hfile rfl rfl
      | some r =>
          simp only [resume, onRead, afterBootStatus, choosePhase]
          split <;> split <;> exact steady_of_quiet hfile rfl rfl
  | setOffset | writeTrailer =>
      cases a with
      | none => exact steady_of_quiet hfile rfl rfl
      | some r => exact steady_loopHead hfile
  | rejumpPhase | rejumpOffset =>
      cases a with
      | none => exact steady_of_quiet hfile rfl rfl
      | some r => exact ⟨hfile, fun _ => hwaiting rfl, fun _ => of_decide_eq_false rfl⟩
  | rejumpStatus =>
      cases a with
      | none => exact steady_of_quiet hfile rfl rfl
      | some r =>
          simp only [resume, onRead, afterJump]
          split
          · exact steady_of_quiet hfile rfl rfl
          · exact ⟨hfile, fun _ => hwaiting rfl, fun _ => of_decide_eq_false rfl⟩
  | pollProgress =>
      cases a with
      | none => exact steady_of_quiet hfile rfl rfl
      | some r =>
          simp only [resume, onRead, afterPoll]
          split
          · split
            · rename_i hzero
              refine ⟨hfile, fun h => absurd h Bool.false_ne_true, fun hsize =>
                absurd ?_ (Nat.ne_of_gt hsize)⟩
              have htoNat := congrArg BitVec.toNat (hfile.symm.trans hzero)
              rwa [BitVec.toNat_ofNat, Nat.mod_eq_of_lt (by have := img.size_lt; omega)] at htoNat
            · refine steady_of_quiet ?_ rfl rfl
              show (advance { l with reData := r }).gFileSize = _
              rw [advance_gFileSize]
              exact hfile
          · exact steady_loopHead hfile
  | writeData i =>
      cases a with
      | none => exact steady_of_quiet hfile rfl rfl
      | some r =>
          simp only [resume, onWrite, sendFrom]
          split <;> exact steady_of_quiet hfile rfl rfl
  | returned rc | sigfpe => exact ⟨hfile, hwaiting, halive⟩

end Steady

section Run

variable (opts : First.Options) (img : Image)

theorem steady_run (as : List Transfer) : Steady img ((main opts img).run as).state := by
  refine Machine.run_invariant (P := fun cfg : Moment => Steady img cfg.state) ?_ ?_ as
  · exact steady_of_quiet rfl rfl rfl
  · intro cfg c a h _
    exact steady_resume h a

/-- An error is reported before the first poll. -/
theorem polled_run (as : List Transfer)
    (hstage : ((main opts img).run as).state.pc.stage = .handshake) :
    ∀ c ∈ calls ((main opts img).run as).trace, c.cmd ≠ cmdPollProgress := by
  revert hstage
  refine Machine.run_invariant_under (I := fun cfg => Steady img cfg.state)
    (P := fun cfg : Moment => cfg.state.pc.stage = .handshake →
      ∀ c ∈ calls cfg.trace, c.cmd ≠ cmdPollProgress)
    (steady_run opts img) (fun _ => by simp [main, Machine.initial, goto, calls, exchanges]) ?_ as
  intro cfg c a hsteady h hc hnext
  have hle := done_resume hc (fun hpoll => hsteady.waiting (by rw [hpoll]; rfl)) a
  have hbefore : cfg.state.pc.stage = .handshake := by
    rw [← done_eq_zero_iff] at hnext ⊢
    exact Nat.le_zero.mp (Nat.le_trans hle (Nat.le_of_eq hnext))
  rw [Machine.calls_answer]
  intro c' hc'
  rcases List.mem_append.mp hc' with hmem | hmem
  · exact h hbefore c' hmem
  · rw [List.mem_singleton.mp hmem, pending_cmd hc]
    change pending cfg.state = some c at hc
    cases hpc : cfg.state.pc with
    | returned rc => simp [pending, hpc] at hc
    | _ => simp [hpc, Pc.stage] at hbefore <;> decide

end Run

/-- Against an EC that accepts one of the polls, whenever it is polled again and again,
a flash of a file that is not empty returns, whichever calls fail; and once the EC has
been polled, it returns `0`. -/
theorem main_returns (img : Image) (hsize : 0 < img.size) (opts : First.Options)
    (answers : Nat → Transfer)
    (hfair : (main opts img).Responsive (fun t => t.pc = .pollProgress) First.Accepts answers) :
    ∃ n rc,
      let cfg := (main opts img).run ((List.range n).map answers)
      cfg.state.pc = .returned rc ∧
        ((∃ c ∈ calls cfg.trace, c.cmd = cmdPollProgress) → rc = 0) := by
  obtain ⟨n, hstopped⟩ : ∃ n, pending ((main opts img).upTo answers n).state = none := by
    refine Machine.exists_stopped_of_responsive (I := fun cfg => Steady img cfg.state)
      (fun cfg => cfg.state.pc.first.toPoll) (fun cfg => done cfg.state) (2 ^ 28 + 3)
      (steady_run opts img) ?_ ?_ ?_ ?_ hfair
    · exact fun cfg c a _ hc hpoll => toPoll_resume hc hpoll a
    · exact fun cfg c a hsteady hc =>
        done_resume hc (fun hpoll => hsteady.waiting (by rw [hpoll]; rfl)) a
    · exact fun cfg c a hsteady _ hpoll hgranted =>
        done_granted hpoll (hsteady.waiting (by rw [hpoll]; rfl)) hgranted
    · exact fun as => done_le _
  have halive := (steady_run opts img ((List.range n).map answers)).alive hsize
  have hpolled := polled_run opts img ((List.range n).map answers)
  change pending ((main opts img).run ((List.range n).map answers)).state = none at hstopped
  cases hpc : ((main opts img).run ((List.range n).map answers)).state.pc with
  | returned rc =>
      refine ⟨n, rc, hpc, ?_⟩
      rintro ⟨c, hmem, hcmd⟩
      by_contra hrc
      exact hpolled (by rw [hpc]; exact if_neg hrc) c hmem hcmd
  | sigfpe => exact absurd hpc halive
  | _ => simp [pending, hpc] at hstopped

/-- An EC that accepts everything, while one data word of the first block fails. -/
def oneFailure (n : Nat) : Transfer :=
  if n = 10 then none else some (1#8, 0#8)

theorem main_returns_failing :
    ∃ n rc,
      let opts := { First.sampleOptions false with ignoreNid := true }
      let cfg := (main opts First.sampleImage).run ((List.range n).map oneFailure)
      cfg.state.pc = .returned rc ∧
        ((∃ c ∈ calls cfg.trace, c.cmd = cmdPollProgress) → rc = 0) := by
  refine main_returns _ (by decide) _ oneFailure
    (Machine.responsive_of_eventually 11 fun k hle => ?_)
  unfold oneFailure
  rw [if_neg (by omega)]
  rfl

/-! ## Success without delivery -/

/-- The first reply to a command does not depend on what only one of them sends. -/
theorem firstReply?_congr {xs ys : Exchanges}
    (h : xs.map (Prod.map control id) = ys.map (Prod.map control id)) (cmd : Byte) :
    First.firstReply? cmd xs = First.firstReply? cmd ys := by
  have hcontrol (zs : Exchanges) : First.firstReply? cmd zs =
      ((zs.map (Prod.map control id)).find? fun x => x.1.1 = cmd).bind Prod.snd := by
    have hfst (c : Call) : (control c).1 = c.cmd := by
      unfold control
      split <;> rfl
    rw [List.find?_map]
    simp only [First.firstReply?, Function.comp_def, Prod.map_fst, hfst]
    cases zs.find? fun x => x.1.cmd = cmd <;> rfl
  rw [hcontrol, hcontrol, h]

/-- A command line without `-d` and `-bbl`, whose last file name opens a full-size
image: with an EC that fits and no failed call the second implementation returns `0`,
and from the 257th block on the EC holds the first 8 KiB of the area again.  The EC is told
the calls of `kbc_cmd_datas`; what the frames are at the nodes is left aside here. -/
theorem program_repeats {argv : List CString} {fs : CString → Option Image}
    (hdump : ¬ AsksDump argv.tail) (hbbl : occurs .bbl argv.tail = false) {file : CString}
    {img : Image} (hfile : lastFile? argv.tail = some file)
    (hopens : fs (fileName file) = some img) (hsize : img.size = 0x20000)
    (answers : Nat → Transfer) (hok : ∀ k, answers k ≠ none)
    (hadmits : occurs .nid argv.tail = true ∨ (answers 0).map Prod.fst = img.byte? 0x4000)
    (hfair : (main (settings argv.tail) img).Responsive (fun t => t.pc = .pollProgress)
      First.Accepts answers) :
    ∃ m k, program fs argv = .ok m ∧
      let cfg := m.run ((List.range k).map answers)
      let start := (First.reportedBaseOffset (exchanges cfg.trace)).toNat
      cfg.state.pc = .returned 0 ∧ ∀ pos, (received (exchanges cfg.trace)).flash pos =
        if start ≤ pos ∧ pos < start + 32 * ((0x1C000 - start + 31) / 32) then
          img.byte? (sourceOffset start pos)
        else none := by
  have hprogram : program fs argv = .ok (main (settings argv.tail) img) := by
    rw [program, start_eq_opens hdump hfile, Start.run, hopens]
  have hopts : (settings argv.tail).includeBootloader = false := hbbl
  have hnid : (settings argv.tail).ignoreNid = occurs .nid argv.tail := rfl
  rw [← hnid] at hadmits
  generalize settings argv.tail = opts at *
  have hresponsive : (First.main opts img).Responsive (fun s => s.pc = .poll) First.Accepts
      answers := by
    refine (lockStep opts img).responsive (fun s t hmatches => ?_) hok hfair
    rw [hmatches.pc]
    cases t.pc <;> simp [Pc.first]
  obtain ⟨k, hpc⟩ := First.exists_returned opts hsize hok hadmits hresponsive
  refine ⟨_, k, hprogram, ?_⟩
  have hanswers : ∀ a ∈ (List.range k).map answers, a ≠ none := by simp [hok]
  generalize (List.range k).map answers = as at *
  obtain ⟨hmatches, hcontrol⟩ := (lockStep opts img).run as hanswers
  have hfinished := First.loopFinished_of_returned opts hpc
    (First.jumped_run opts (First.jumps_of_keptBootBlock opts hsize hopts as))
  have hsettled := First.settled_run opts img as
  have hbase : First.reportedBaseOffset (exchanges ((main opts img).run as).trace) =
      First.reportedBaseOffset (exchanges ((First.main opts img).run as).trace) := by
    unfold First.reportedBaseOffset
    rw [firstReply?_congr hcontrol]
  intro cfg start
  constructor
  · apply first_injective
    rw [← hmatches.pc, hpc]
    rfl
  · intro pos
    apply flash_shifted opts hsize hanswers (First.agrees_of_keptBootBlock hsize hopts as)
      hfinished
    simp [cfg, start, First.startOffset, hsettled.baseOffset, hsettled.included,
      First.bootBlockIncluded, hopts, hbase]

/-- An EC that accepts everything. -/
theorem program_repeats_accepting :
    ∃ m k, program (fun _ => some First.sampleImage) nidArgv = .ok m ∧
      let cfg := m.run ((List.range k).map fun _ => some (1#8, 0#8))
      let start := (First.reportedBaseOffset (exchanges cfg.trace)).toNat
      cfg.state.pc = .returned 0 ∧ ∀ pos, (received (exchanges cfg.trace)).flash pos =
        if start ≤ pos ∧ pos < start + 32 * ((0x1C000 - start + 31) / 32) then
          First.sampleImage.byte? (sourceOffset start pos)
        else none := by
  exact program_repeats (by decide) (by decide) rfl rfl rfl (fun _ => some (1#8, 0#8))
    (fun _ => nofun) (.inl (by decide)) (Machine.responsive_of_eventually 0 fun _ _ => rfl)

end Second
end EcFlash
