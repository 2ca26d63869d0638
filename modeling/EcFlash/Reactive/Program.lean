import EcFlash.Reactive.History

/-!
# Structured programs

A program written with sequencing, loops and busy-waits, as a tree of what it does
next: put out a message, ask the environment, or repeat a question until the answer
lets it go on.  `Program.machine` cuts such a tree at its calls, so a run is again
driven by a list of answers.

The tree branches over the answers and is well founded, so waiting is all that can
keep a program from ending: `Program.exists_finished` shows that it ends when the
environment lets every wait end.
-/

namespace Reactive

universe u v w x y

/-- What a program does next.  `spin` asks again as long as the answer says so. -/
inductive Program (Call : Type u) (Ans : Type v) (Out : Type w) (α : Type x) where
  | pure (x : α)
  | emit (o : Out) (k : Program Call Ans Out α)
  | ask (c : Call) (k : Ans → Program Call Ans Out α)
  | spin (c : Call) (again : Ans → Bool) (k : Ans → Program Call Ans Out α)

namespace Program

variable {Call : Type u} {Ans : Type v} {Out : Type w} {α β : Type x}

/-- Run `p`, then `f` on its result. -/
def bind {α : Type x} {β : Type y} (p : Program Call Ans Out α)
    (f : α → Program Call Ans Out β) : Program Call Ans Out β :=
  match p with
  | .pure x => f x
  | .emit o k => .emit o (k.bind f)
  | .ask c k => .ask c fun a => (k a).bind f
  | .spin c again k => .spin c again fun a => (k a).bind f

instance : Monad (Program Call Ans Out) where
  pure := .pure
  bind := bind

/-- Put out one message. -/
def put (o : Out) : Program Call Ans Out PUnit :=
  .emit o (.pure ⟨⟩)

/-- Ask once, and return the answer. -/
def get (c : Call) : Program Call Ans Out Ans :=
  .ask c .pure

/-- Ask until the answer lets the program go on. -/
def await (c : Call) (again : Ans → Bool) : Program Call Ans Out PUnit :=
  .spin c again fun _ => .pure ⟨⟩

/-! ## Running a program -/

/-- The program at its next call, and the messages put out on the way. -/
def settle : Program Call Ans Out α → Program Call Ans Out α × List Out
  | .emit o k => (k.settle.1, o :: k.settle.2)
  | p => (p, [])

/-- The call a program waits on. -/
def pending : Program Call Ans Out α → Option Call
  | .ask c _ => some c
  | .spin c _ _ => some c
  | _ => none

/-- The program after its call is answered. -/
def resume : Program Call Ans Out α → Ans → Program Call Ans Out α × List Out
  | .ask _ k, a => (k a).settle
  | .spin c again k, a => if again a then (.spin c again k, []) else (k a).settle
  | p, _ => (p, [])

/-- A program, cut at its calls. -/
def machine (p : Program Call Ans Out α) : Machine Call Ans Out (Program Call Ans Out α) where
  start := p.settle
  pending := pending
  resume := resume

/-! ## Termination -/

/-- Every wait of the program ends with an answer that satisfies `idle`. -/
inductive WaitsFor (idle : Ans → Prop) : Program Call Ans Out α → Prop
  | pure (x : α) : WaitsFor idle (.pure x)
  | emit {o : Out} {k : Program Call Ans Out α} (h : WaitsFor idle k) : WaitsFor idle (.emit o k)
  | ask {c : Call} {k : Ans → Program Call Ans Out α} (h : ∀ a, WaitsFor idle (k a)) :
      WaitsFor idle (.ask c k)
  | spin {c : Call} {again : Ans → Bool} {k : Ans → Program Call Ans Out α}
      (hidle : ∀ a, idle a → again a = false) (h : ∀ a, WaitsFor idle (k a)) :
      WaitsFor idle (.spin c again k)

theorem WaitsFor.bind {α : Type x} {β : Type y} {idle : Ans → Prop}
    {p : Program Call Ans Out α} {f : α → Program Call Ans Out β} (hp : p.WaitsFor idle)
    (hf : ∀ x, (f x).WaitsFor idle) : (p.bind f).WaitsFor idle := by
  induction hp with
  | pure x => exact hf x
  | emit _ ih => exact .emit ih
  | ask _ ih => exact .ask ih
  | spin hidle _ ih => exact .spin hidle ih

section Fair

variable {p q : Program Call Ans Out α} {answers : Nat → Ans} {n : Nat}

/-- One more answer, given to a program that waits on a call. -/
theorem run_succ (hq : (p.machine.run ((List.range n).map answers)).state = q)
    (hc : q.pending ≠ none) :
    (p.machine.run ((List.range (n + 1)).map answers)).state = (q.resume (answers n)).1 := by
  obtain ⟨c, hc⟩ := Option.ne_none_iff_exists'.mp hc
  have hcall : p.machine.pending (p.machine.run ((List.range n).map answers)).state = some c := by
    rw [hq]
    exact hc
  rw [List.range_succ, List.map_append, List.map_singleton, Machine.run_concat,
    Machine.step_of_pending hcall, Machine.answer, hq]
  rfl

/-- A wait ends, at the latest when the answer is idle. -/
theorem exists_waited {idle : Ans → Prop} {c : Call} {again : Ans → Bool}
    {k : Ans → Program Call Ans Out α} (hidle : ∀ a, idle a → again a = false)
    (hfair : ∀ n, ∃ n', n ≤ n' ∧ idle (answers n'))
    (hq : (p.machine.run ((List.range n).map answers)).state = .spin c again k) :
    ∃ n' a, (p.machine.run ((List.range n').map answers)).state = (k a).settle.1 := by
  obtain ⟨n', hle, hend⟩ := hfair n
  -- By induction on the distance to the idle answer.
  induction hd : n' - n generalizing n with
  | zero =>
      obtain rfl : n' = n := by omega
      have hnext := run_succ hq (by simp [pending])
      rw [resume, hidle _ hend] at hnext
      exact ⟨n' + 1, answers n', by simpa using hnext⟩
  | succ d ih =>
      have hnext := run_succ hq (by simp [pending])
      rw [resume] at hnext
      cases hagain : again (answers n) with
      | true => exact ih (by simpa [hagain] using hnext) (by omega) (by omega)
      | false => exact ⟨n + 1, answers n, by simpa [hagain] using hnext⟩

/-- A program ends when the answers let every wait end. -/
theorem exists_finished {idle : Ans → Prop} (hp : p.WaitsFor idle)
    (hfair : ∀ n, ∃ n', n ≤ n' ∧ idle (answers n')) :
    ∃ n x, (p.machine.run ((List.range n).map answers)).state = .pure x := by
  suffices h : ∀ {q : Program Call Ans Out α}, q.WaitsFor idle → ∀ n,
      (p.machine.run ((List.range n).map answers)).state = q.settle.1 →
      ∃ n' x, (p.machine.run ((List.range n').map answers)).state = .pure x from h hp 0 rfl
  intro q hq
  induction hq with
  | pure x => exact fun n hstate => ⟨n, x, hstate⟩
  | emit _ ih => exact fun n hstate => ih n hstate
  | ask _ ih => exact fun n hstate => ih _ (n + 1) (run_succ hstate (by simp [settle, pending]))
  | spin hidle _ ih =>
      intro n hstate
      obtain ⟨n', a, hended⟩ := exists_waited hidle hfair hstate
      exact ih a n' hended

end Fair

end Program

end Reactive
