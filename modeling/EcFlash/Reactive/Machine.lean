import Mathlib.Data.List.Induction

/-!
# Reactive machines

A reactive machine is a program cut at the calls it makes into its
environment.  A state either waits on one call or has stopped; the answer of
the environment moves the machine to its next call, and on the way it may put
out messages that nobody answers.

A run is driven by a finite list of answers, so quantifying over all lists is
quantifying over every finite prefix of every behaviour of the environment.
`Machine.run_invariant` is the invariant rule: what holds at the start and is
kept by one answered call holds after every run.  `Machine.run_induction_under`
lets the step use an invariant that is known already, and restricts the answers.
-/

namespace Reactive

/-- One observable event of a run: an answered call, or an output. -/
inductive Event (Call Ans Out : Type*) where
  | call (c : Call) (a : Ans)
  | out (o : Out)
  deriving DecidableEq

/-- A program cut at the calls it makes into its environment. -/
structure Machine (Call Ans Out State : Type*) where
  /-- The first state, and the outputs made on the way to it. -/
  start : State × List Out
  /-- The call a state waits on; `none` for a stopped program. -/
  pending : State → Option Call
  /-- The state after the pending call is answered, and the outputs made. -/
  resume : State → Ans → State × List Out

/-- A run seen at one moment: everything observed so far, and the state. -/
structure Config (Call Ans Out State : Type*) where
  trace : List (Event Call Ans Out)
  state : State

variable {Call Ans Out State : Type*}

/-- The answered calls of a trace, in order. -/
def exchanges (tr : List (Event Call Ans Out)) : List (Call × Ans) :=
  tr.filterMap fun
    | .call c a => some (c, a)
    | .out _ => none

/-- The calls of a trace, in order. -/
def calls (tr : List (Event Call Ans Out)) : List Call :=
  (exchanges tr).map Prod.fst

/-- The outputs of a trace, in order. -/
def outputs (tr : List (Event Call Ans Out)) : List Out :=
  tr.filterMap fun
    | .call _ _ => none
    | .out o => some o

@[simp] theorem exchanges_append (tr es : List (Event Call Ans Out)) :
    exchanges (tr ++ es) = exchanges tr ++ exchanges es := by
  simp [exchanges]

@[simp] theorem exchanges_call (c : Call) (a : Ans) (es : List (Event Call Ans Out)) :
    exchanges (.call c a :: es) = (c, a) :: exchanges es := rfl

@[simp] theorem exchanges_outs (os : List Out) :
    exchanges (os.map Event.out : List (Event Call Ans Out)) = [] := by
  simp [exchanges, List.filterMap_map]

@[simp] theorem calls_append (tr es : List (Event Call Ans Out)) :
    calls (tr ++ es) = calls tr ++ calls es := by
  simp [calls]

@[simp] theorem calls_call (c : Call) (a : Ans) (es : List (Event Call Ans Out)) :
    calls (.call c a :: es) = c :: calls es := rfl

@[simp] theorem calls_outs (os : List Out) :
    calls (os.map Event.out : List (Event Call Ans Out)) = [] := by
  simp [calls]

@[simp] theorem outputs_append (tr es : List (Event Call Ans Out)) :
    outputs (tr ++ es) = outputs tr ++ outputs es := by
  simp [outputs]

@[simp] theorem outputs_call (c : Call) (a : Ans) (es : List (Event Call Ans Out)) :
    outputs (.call c a :: es) = outputs es := rfl

@[simp] theorem outputs_outs (os : List Out) :
    outputs (os.map Event.out : List (Event Call Ans Out)) = os := by
  unfold outputs
  rw [List.filterMap_map]
  exact List.filterMap_some

namespace Machine

/-- The configuration before any call is answered. -/
def initial (m : Machine Call Ans Out State) : Config Call Ans Out State :=
  ⟨m.start.2.map .out, m.start.1⟩

/-- The configuration after the pending call `c` is answered with `a`. -/
def answer (m : Machine Call Ans Out State) (cfg : Config Call Ans Out State)
    (c : Call) (a : Ans) : Config Call Ans Out State :=
  ⟨cfg.trace ++ .call c a :: (m.resume cfg.state a).2.map .out,
    (m.resume cfg.state a).1⟩

/-- One answer of the environment.  A stopped program takes none. -/
def step (m : Machine Call Ans Out State) (cfg : Config Call Ans Out State)
    (a : Ans) : Config Call Ans Out State :=
  match m.pending cfg.state with
  | none => cfg
  | some c => m.answer cfg c a

/-- The run driven by a finite list of answers. -/
def run (m : Machine Call Ans Out State) (as : List Ans) :
    Config Call Ans Out State :=
  as.foldl m.step m.initial

@[simp] theorem run_nil (m : Machine Call Ans Out State) : m.run [] = m.initial := rfl

@[simp] theorem run_concat (m : Machine Call Ans Out State) (as : List Ans) (a : Ans) :
    m.run (as ++ [a]) = m.step (m.run as) a := by
  simp [run]

theorem run_append (m : Machine Call Ans Out State) (as bs : List Ans) :
    m.run (as ++ bs) = bs.foldl m.step (m.run as) := by
  simp [run]

theorem step_of_pending {m : Machine Call Ans Out State} {cfg : Config Call Ans Out State}
    {c : Call} (h : m.pending cfg.state = some c) (a : Ans) :
    m.step cfg a = m.answer cfg c a := by
  simp [step, h]

theorem step_of_stopped {m : Machine Call Ans Out State} {cfg : Config Call Ans Out State}
    (h : m.pending cfg.state = none) (a : Ans) : m.step cfg a = cfg := by
  simp [step, h]

/-- A stopped program stays as it is, whatever the environment offers. -/
theorem foldl_step_of_stopped {m : Machine Call Ans Out State}
    {cfg : Config Call Ans Out State} (h : m.pending cfg.state = none) (as : List Ans) :
    as.foldl m.step cfg = cfg := by
  induction as with
  | nil => rfl
  | cons a as ih => rw [List.foldl_cons, step_of_stopped h, ih]

@[simp] theorem calls_answer (m : Machine Call Ans Out State)
    (cfg : Config Call Ans Out State) (c : Call) (a : Ans) :
    calls (m.answer cfg c a).trace = calls cfg.trace ++ [c] := by
  simp [answer]

@[simp] theorem exchanges_answer (m : Machine Call Ans Out State)
    (cfg : Config Call Ans Out State) (c : Call) (a : Ans) :
    exchanges (m.answer cfg c a).trace = exchanges cfg.trace ++ [(c, a)] := by
  simp [answer]

theorem outputs_answer (m : Machine Call Ans Out State)
    (cfg : Config Call Ans Out State) (c : Call) (a : Ans) :
    outputs (m.answer cfg c a).trace = outputs cfg.trace ++ (m.resume cfg.state a).2 := by
  simp [answer]

/-- The invariant rule, on top of an invariant `I` that every run is known to
keep.  `ok` restricts the answers of the environment. -/
theorem run_induction_under {m : Machine Call Ans Out State}
    {I P : Config Call Ans Out State → Prop} {ok : Ans → Prop} (hI : ∀ as, I (m.run as))
    (hstart : P m.initial)
    (hstep : ∀ cfg c a, I cfg → P cfg → m.pending cfg.state = some c → ok a →
      P (m.answer cfg c a))
    (as : List Ans) (hok : ∀ a ∈ as, ok a) : P (m.run as) := by
  -- From the back: the last answer is given in the configuration of the run before.
  induction as using List.reverseRecOn with
  | nil => exact hstart
  | append_singleton as a ih =>
      have hprev : P (m.run as) := ih fun b hb => hok b (by simp [hb])
      rw [run_concat]
      cases hpending : m.pending (m.run as).state with
      | none => rwa [step_of_stopped hpending]
      | some c =>
          rw [step_of_pending hpending]
          exact hstep _ c a (hI as) hprev hpending (hok a (by simp))

/-- The same when nothing is assumed of the environment. -/
theorem run_invariant_under {m : Machine Call Ans Out State}
    {I P : Config Call Ans Out State → Prop} (hI : ∀ as, I (m.run as)) (hstart : P m.initial)
    (hstep : ∀ cfg c a, I cfg → P cfg → m.pending cfg.state = some c → P (m.answer cfg c a))
    (as : List Ans) : P (m.run as) :=
  have hstep' : ∀ cfg c a, I cfg → P cfg → m.pending cfg.state = some c → True →
      P (m.answer cfg c a) := fun cfg c a hI h hc _ => hstep cfg c a hI h hc
  run_induction_under hI hstart hstep' as fun _ _ => trivial

/-- The invariant rule on its own. -/
theorem run_invariant {m : Machine Call Ans Out State}
    {P : Config Call Ans Out State → Prop} (hstart : P m.initial)
    (hstep : ∀ cfg c a, P cfg → m.pending cfg.state = some c → P (m.answer cfg c a))
    (as : List Ans) : P (m.run as) :=
  run_invariant_under (I := fun _ => True) (fun _ => trivial) hstart
    (fun cfg c a _ => hstep cfg c a) as

/-- The progress rule: when every running configuration has an answer that takes
a measure down, some continuation of the run stops. -/
theorem exists_stopped {m : Machine Call Ans Out State} {P : List Ans → Prop}
    (measure : Config Call Ans Out State → Nat)
    (hstep : ∀ as c, P as → m.pending (m.run as).state = some c →
      ∃ a, P (as ++ [a]) ∧ measure (m.run (as ++ [a])) < measure (m.run as))
    (as : List Ans) (h : P as) :
    ∃ bs, P (as ++ bs) ∧ m.pending (m.run (as ++ bs)).state = none := by
  induction hn : measure (m.run as) using Nat.strongRecOn generalizing as with
  | ind n ih =>
      cases hpending : m.pending (m.run as).state with
      | none => exact ⟨[], by simpa using h, by simpa using hpending⟩
      | some c =>
          -- One more answer takes the measure down; the induction continues from there.
          obtain ⟨a, hnext, hlt⟩ := hstep as c h hpending
          obtain ⟨bs, hbs, hstopped⟩ := ih _ (hn ▸ hlt) (as ++ [a]) hnext rfl
          exact ⟨a :: bs, by simpa using hbs, by simpa using hstopped⟩

end Machine

end Reactive
