import EcFlash.Original.Args
import EcFlash.Original.Nodes

/-!
# Failed calls of the original

`<main>` never looks at what `KBC_CMD_DATAS` returns.  A read that fails leaves in
`ReData` what the read before it has put there, and the program goes on with that, so
the original does with failed calls what the first implementation does when each of
them succeeds and returns the last reply once more.
-/

namespace EcFlash
namespace Original

open Reactive

/-- What the original hears of an answer: the reply, or what `ReData` holds. -/
def stale (t : State) (a : Transfer) : Transfer :=
  some (a.getD t.mem.reData)

theorem hears_stale (opts : First.Options) (img : Image) (stack : Slots) :
    (main opts img stack).Hears (main opts img stack) stale where
  start := rfl
  pending := rfl
  resume := by
    rintro ⟨pc, m⟩ a -
    cases a with
    | some r => rfl
    | none => cases pc <;> rfl

/-- Every run of the original, whichever calls fail, makes the calls of the run of the
first implementation on the replies that the original hears, waits on the same call or
has stopped, and returns the same. -/
theorem refines_stale (opts : First.Options) (img : Image) (stack : Slots) (as : List Transfer) :
    let original := (main opts img stack).run as
    let first := (First.main opts img).run ((main opts img stack).heard stale as)
    calls first.trace = calls original.trace ∧
      First.pending first.state = pending original.state ∧
      ∀ rc, first.state.pc = .returned rc ↔ original.state.pc = .exited rc := by
  intro original first
  have hheard : ∀ a ∈ (main opts img stack).heard stale as, a ≠ none :=
    Machine.always_heard (Q := fun _ => True) (fun _ _ _ => nofun) as fun _ _ => trivial
  obtain ⟨hstate, hcalls, -⟩ := Machine.run_heard (hears_stale opts img stack) as
  have hmatches := (lockStep opts img stack).state _ hheard
  have hsame := LockStep.calls_eq (h := lockStep opts img stack) _ hheard
  rw [hstate] at hmatches
  exact ⟨hsame.trans hcalls, matches_pending hmatches, exited_iff hmatches⟩

/-! ## What the original returns -/

/-- The points behind the guard, up to the last call. -/
def Pc.behindGuard : Pc → Bool
  | .kbc8c4c | .kbc8c90 | .exited _ => false
  | _ => true

section Step

variable {m : Memory} {t : State} {cfg : Config Call Transfer Out State} {c : Call} {a : Transfer}

theorem behindGuard_block9254 (m : Memory) : (block9254 m).1.pc.behindGuard = true := by
  unfold block9254 block8ec0
  split <;> [split; skip] <;> rfl

theorem behindGuard_block8f38 (m : Memory) : (block8f38 m).1.pc.behindGuard = true := by
  simp only [block8f38]
  split <;> rfl

theorem behindGuard_block91f4 (m : Memory) : (block91f4 m).1.pc.behindGuard = true := by
  fun_induction block91f4 m with
  | case1 m _ _ ih => exact ih
  | case2 m => rfl
  | case3 m => rfl

theorem behindGuard_block90bc (m : Memory) : (block90bc m).1.pc.behindGuard = true := by
  unfold block90bc
  split <;> exact behindGuard_block91f4 _

theorem behindGuard_block9034 (m : Memory) : (block9034 m).1.pc.behindGuard = true := by
  simp only [block9034]
  split
  · split
    · exact behindGuard_block90bc _
    · split <;> exact behindGuard_block90bc _
  · exact behindGuard_block90bc m

theorem behindGuard_block8ff4 (m : Memory) : (block8ff4 m).1.pc.behindGuard = true := by
  unfold block8ff4
  split
  · rfl
  · exact behindGuard_block9034 m

theorem behindGuard_block8fc4 (m : Memory) : (block8fc4 m).1.pc.behindGuard = true := by
  unfold block8fc4
  split
  · exact behindGuard_block8ff4 m
  · split
    · exact behindGuard_block8ff4 m
    · split
      · exact behindGuard_block8ff4 m
      · exact behindGuard_block9254 m

theorem behindGuard_block8de0 (m : Memory) : (block8de0 m).1.pc.behindGuard = true := by
  unfold block8de0
  split <;> rfl

theorem behindGuard_block8da4 (m : Memory) : (block8da4 m).1.pc.behindGuard = true := by
  simp only [block8da4]
  split
  · split
    · exact behindGuard_block8de0 _
    · exact behindGuard_block8de0 _
  · exact behindGuard_block8de0 _

/-- A read leads where the code behind it does. -/
theorem onRead_of_forall {P : Next → Prop} {k : Memory → Next} (hk : ∀ m, P (k m)) (m : Memory)
    (a : Transfer) : P (onRead m a k) := by
  cases a with
  | none => exact hk m
  | some r => exact hk _

/-- Where the program goes from a call. -/
theorem resume_leads (t : State) (hc : pending t = some c) (a : Transfer) :
    (resume t a).1.pc.behindGuard = true ∨
      t.pc = .kbc8c4c ∧ (resume t a).1.pc = .kbc8c90 ∨
      t.pc = .kbc8c90 ∧ (resume t a).1.pc = .exited 1 ∨
      (resume t a).1.pc = .exited 0 := by
  rcases t with ⟨pc, m⟩
  have hread {k : Memory → Next} (hk : ∀ m, (k m).1.pc.behindGuard = true) :
      (onRead m a k).1.pc.behindGuard = true :=
    onRead_of_forall (P := fun next => next.1.pc.behindGuard = true) hk m a
  cases pc with
  | kbc8c4c =>
      right
      left
      cases a <;> exact ⟨rfl, rfl⟩
  | kbc8c90 =>
      -- The guard lets through or exits with 1.
      have hguard (m : Memory) :
          (block8c94 m).1.pc = .kbc8d68 ∨ (block8c94 m).1.pc = .exited 1 := by
        simp only [block8c94, block8d04, emit]
        split
        · exact .inl rfl
        · split
          · exact .inl rfl
          · exact .inr rfl
      have hnext : (resume ⟨.kbc8c90, m⟩ a).1.pc = .kbc8d68 ∨
          (resume ⟨.kbc8c90, m⟩ a).1.pc = .exited 1 :=
        onRead_of_forall (P := fun next => next.1.pc = .kbc8d68 ∨ next.1.pc = .exited 1)
          hguard m a
      rcases hnext with h | h
      · exact .inl (by rw [h]; rfl)
      · exact .inr (.inr (.inl ⟨rfl, h⟩))
  | kbc8d68 => exact .inl (hread fun _ => rfl)
  | kbc8da0 => exact .inl (hread behindGuard_block8da4)
  | kbc8e54 | kbc8f10 | kbc8f8c | kbc92ac => exact .inl rfl
  | kbc8eb8 | kbc9248 => exact .inl (behindGuard_block9254 m)
  | kbc8f34 => exact .inl (hread behindGuard_block8f38)
  | kbc8fc0 => exact .inl (hread behindGuard_block8fc4)
  | kbc91e4 => exact .inl (behindGuard_block91f4 _)
  | kbc9328 => exact .inr (.inr (.inr rfl))
  | exited rc | sigfpe => simp [pending] at hc

/-- What every run keeps about the exits: `1` comes from the guard, behind the second
call. -/
def Exiting (cfg : Config Call Transfer Out State) : Prop :=
  match cfg.state.pc with
  | .kbc8c4c => (calls cfg.trace).length = 0
  | .kbc8c90 => (calls cfg.trace).length = 1
  | .exited rc => rc = 0 ∨ rc = 1 ∧ (calls cfg.trace).length = 2
  | _ => True

theorem exiting_run (opts : First.Options) (img : Image) (stack : Slots) (as : List Transfer) :
    Exiting ((main opts img stack).run as) := by
  refine Machine.run_invariant (m := main opts img stack) (P := Exiting) rfl ?_ as
  intro cfg c a h hc
  have hlength : (calls ((main opts img stack).answer cfg c a).trace).length =
      (calls cfg.trace).length + 1 := by
    rw [Machine.calls_answer, List.length_append, List.length_singleton]
  have hleads := resume_leads cfg.state hc a
  unfold Exiting at h ⊢
  rw [hlength]
  change match (resume cfg.state a).1.pc with
    | .kbc8c4c => _
    | .kbc8c90 => _
    | .exited rc => _
    | _ => True
  rcases hleads with hlate | ⟨hpc, hnext⟩ | ⟨hpc, hnext⟩ | hnext
  · cases hpc : (resume cfg.state a).1.pc <;> simp [hpc, Pc.behindGuard] at hlate ⊢
  · rw [hpc] at h
    rw [hnext]
    exact congrArg (· + 1) h
  · rw [hpc] at h
    rw [hnext]
    exact .inr ⟨rfl, congrArg (· + 1) h⟩
  · rw [hnext]
    exact .inl rfl

end Step

/-- A run that has ended beyond the version queries has returned `0`, whichever calls
have failed in it, or has divided by the size of an empty file. -/
theorem stopped_exits (opts : First.Options) (img : Image) (stack : Slots) (as : List Transfer)
    (hlong : (calls ((main opts img stack).run as).trace).length ≠ 2)
    (hstopped : pending ((main opts img stack).run as).state = none) :
    ((main opts img stack).run as).state.pc = .exited 0 ∨
      ((main opts img stack).run as).state.pc = .sigfpe := by
  have hexiting := exiting_run opts img stack as
  unfold Exiting at hexiting
  cases hpc : ((main opts img stack).run as).state.pc with
  | exited rc =>
      rw [hpc] at hexiting
      obtain rfl : rc = 0 := hexiting.resolve_right fun h => hlong h.2
      exact .inl rfl
  | sigfpe => exact .inr rfl
  | _ => simp [pending, hpc] at hstopped

/-- A file that ends where the area begins. -/
def shortImage : Image :=
  ⟨0x20, fun _ => 0#8, by decide⟩

/-- Six of the eight calls fail. -/
def failingAnswers : List Transfer :=
  [some (0#8, 0#8), none, some (0#8, 0x20#8), none, none, none, none, none]

theorem stopped_exits_failing :
    let opts := { First.sampleOptions false with ignoreNid := true }
    let cfg := (main opts shortImage (sampleSlots shortImage)).run failingAnswers
    cfg.state.pc = .exited 0 ∨ cfg.state.pc = .sigfpe :=
  stopped_exits { First.sampleOptions false with ignoreNid := true } shortImage
    (sampleSlots shortImage) failingAnswers (by decide +kernel) (by decide +kernel)

end Original
end EcFlash
