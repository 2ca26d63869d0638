import Mathlib.Data.List.Forall2
import EcFlash.Reactive.Simulation

/-!
# Machines over a lower environment

What a machine takes for the answer of a call is often computed itself, by code
that runs against a lower environment.  `Machine.through` puts that code between
the two, so that a run is driven by the answers of the lower environment and its
trace records them.

`Machine.exists_run_through` says that such a run is a run of the machine, which
carries the properties of all runs down.  `LockStep.through` carries a lock step
down, when the code in between gives both machines the same answers.

What is heard of an answer may depend on the state, and leave a part of it out.
`Machine.heard` are the answers that a run hears, and `Machine.run_heard` says that two
machines that go on alike, one on what happens and one on what is heard of it, do the
same.
-/

namespace Reactive

variable {Call Ans Env View Out Out₁ Out₂ State State₁ State₂ : Type*}

namespace Machine

/-- The machine over the environment whose answers `serve` turns into those of the
call; `serve` may look at the state, where the buffers of the call are. -/
def through (m : Machine Call Ans Out State) (serve : State → Call → Env → Ans) :
    Machine Call Env Out State where
  start := m.start
  pending := m.pending
  resume s e :=
    match m.pending s with
    | none => (s, [])
    | some c => m.resume s (serve s c e)

section Through

variable {m : Machine Call Ans Out State} {serve : State → Call → Env → Ans}

theorem through_resume {s : State} {c : Call} (h : m.pending s = some c) (e : Env) :
    (m.through serve).resume s e = m.resume s (serve s c e) := by
  simp [through, h]

/-- A run over the environment goes through the states of a run of the machine,
with the same calls and outputs. -/
theorem exists_run_through {P : Env → Prop} {Q : Ans → Prop}
    (hserve : ∀ s c e, P e → Q (serve s c e)) (es : List Env) (hes : ∀ e ∈ es, P e) :
    ∃ as, (∀ a ∈ as, Q a) ∧ ((m.through serve).run es).state = (m.run as).state ∧
      calls ((m.through serve).run es).trace = calls (m.run as).trace ∧
      outputs ((m.through serve).run es).trace = outputs (m.run as).trace := by
  induction es using List.reverseRecOn with
  | nil => exact ⟨[], nofun, rfl, by simp [initial, through], by simp [initial, through]⟩
  | append_singleton es e ih =>
      obtain ⟨as, has, hstate, hcalls, houts⟩ := ih fun e' he' => hes e' (by simp [he'])
      rw [run_concat]
      cases hpending : m.pending (m.run as).state with
      | none =>
          have hstopped : (m.through serve).pending ((m.through serve).run es).state = none := by
            rw [hstate]
            exact hpending
          rw [step_of_stopped hstopped]
          exact ⟨as, has, hstate, hcalls, houts⟩
      | some c =>
          have hwaits : (m.through serve).pending ((m.through serve).run es).state = some c := by
            rw [hstate]
            exact hpending
          have hresume : (m.through serve).resume ((m.through serve).run es).state e =
              m.resume (m.run as).state (serve (m.run as).state c e) := by
            rw [hstate, through_resume hpending]
          -- The call is served the answer that the code computes in this state.
          refine ⟨as ++ [serve (m.run as).state c e], ?_, ?_⟩
          · intro a ha
            rcases List.mem_append.mp ha with ha | ha
            · exact has a ha
            · rw [List.mem_singleton.mp ha]
              exact hserve _ c e (hes e (by simp))
          · rw [run_concat, step_of_pending hpending, step_of_pending hwaits]
            refine ⟨congrArg Prod.fst hresume, ?_, ?_⟩
            · rw [calls_answer, calls_answer, hcalls]
            · rw [outputs_answer, outputs_answer, houts, hresume]

end Through

/-- The machine `m'` does on its answers what `m` does on what `f` makes of them. -/
structure Hears (m : Machine Call Ans Out State) (m' : Machine Call Env Out State)
    (f : State → Env → Ans) : Prop where
  start : m'.start = m.start
  pending : m'.pending = m.pending
  resume : ∀ s e, m.pending s ≠ none → m.resume s (f s e) = m'.resume s e

/-- What `f` makes of the answers of a run, in the states in which they arrive. -/
def heard (m : Machine Call Env Out State) (f : State → Env → Ans) (es : List Env) : List Ans :=
  es.mapIdx fun i e => f (m.run (es.take i)).state e

section Heard

variable {m : Machine Call Ans Out State} {m' : Machine Call Env Out State} {f : State → Env → Ans}

@[simp] theorem heard_nil (m : Machine Call Env Out State) (f : State → Env → Ans) :
    m.heard f [] = [] := rfl

theorem heard_concat (es : List Env) (e : Env) :
    m'.heard f (es ++ [e]) = m'.heard f es ++ [f (m'.run es).state e] := by
  unfold heard
  rw [List.mapIdx_concat, List.take_left]
  congr 1
  apply List.ext_getElem?
  intro i
  rw [List.getElem?_mapIdx, List.getElem?_mapIdx]
  cases h : es[i]? with
  | none => rfl
  | some b =>
      obtain ⟨hlt, -⟩ := List.getElem?_eq_some_iff.mp h
      rw [List.take_append_of_le_length (Nat.le_of_lt hlt)]

theorem always_heard {P : Ans → Prop} {Q : Env → Prop} (hP : ∀ s e, Q e → P (f s e))
    (es : List Env) (hes : ∀ e ∈ es, Q e) : ∀ a ∈ m'.heard f es, P a := by
  intro a ha
  obtain ⟨i, hi, rfl⟩ := List.mem_mapIdx.mp ha
  exact hP _ _ (hes _ (List.getElem_mem hi))

/-- What is heard of an endless sequence is an endless sequence. -/
theorem heard_range (es : Nat → Env) (n : Nat) :
    m'.heard f ((List.range n).map es) =
      (List.range n).map fun k => f (m'.run ((List.range k).map es)).state (es k) := by
  induction n with
  | zero => rfl
  | succ n ih =>
      rw [List.range_succ, List.map_append, List.map_append, List.map_singleton,
        List.map_singleton, heard_concat, ih]

/-- A machine does the same as another one on what that one hears. -/
theorem run_heard (h : Hears m m' f) (es : List Env) :
    (m.run (m'.heard f es)).state = (m'.run es).state ∧
      calls (m.run (m'.heard f es)).trace = calls (m'.run es).trace ∧
      outputs (m.run (m'.heard f es)).trace = outputs (m'.run es).trace := by
  induction es using List.reverseRecOn with
  | nil =>
      unfold run initial
      rw [h.start]
      exact ⟨rfl, by simp, by simp⟩
  | append_singleton es e ih =>
      obtain ⟨hstate, hcalls, houts⟩ := ih
      rw [heard_concat, run_concat, run_concat]
      cases hwaits : m'.pending (m'.run es).state with
      | none =>
          rw [step_of_stopped hwaits, step_of_stopped (by rw [hstate, ← h.pending, hwaits])]
          exact ⟨hstate, hcalls, houts⟩
      | some c =>
          have hwaits' : m.pending (m'.run es).state = some c := by
            rw [← h.pending, hwaits]
          have hresume : m.resume (m.run (m'.heard f es)).state (f (m'.run es).state e) =
              m'.resume (m'.run es).state e := by
            rw [hstate, h.resume _ _ (by simp [hwaits'])]
          rw [step_of_pending hwaits, step_of_pending (by rw [hstate, hwaits'])]
          refine ⟨congrArg Prod.fst hresume, ?_, ?_⟩
          · rw [calls_answer, calls_answer, hcalls]
          · rw [outputs_answer, outputs_answer, houts, hresume]

/-- The exchanges of the two runs, one by one: the same call, and what is heard of its
answer in some state that waits on it. -/
theorem exchanges_heard {P : Env → Prop} (h : Hears m m' f) (es : List Env)
    (hes : ∀ e ∈ es, P e) :
    List.Forall₂ (fun x y => x.1 = y.1 ∧ P x.2 ∧ ∃ s, m.pending s = some x.1 ∧ y.2 = f s x.2)
      (exchanges (m'.run es).trace) (exchanges (m.run (m'.heard f es)).trace) := by
  induction es using List.reverseRecOn with
  | nil => simp [initial]
  | append_singleton es e ih =>
      have ih := ih fun e' he' => hes e' (by simp [he'])
      obtain ⟨hstate, -, -⟩ := run_heard h es
      rw [heard_concat, run_concat, run_concat]
      cases hwaits : m'.pending (m'.run es).state with
      | none =>
          rwa [step_of_stopped hwaits, step_of_stopped (by rw [hstate, ← h.pending, hwaits])]
      | some c =>
          have hwaits' : m.pending (m'.run es).state = some c := by
            rw [← h.pending, hwaits]
          rw [step_of_pending hwaits, step_of_pending (by rw [hstate, hwaits']), exchanges_answer,
            exchanges_answer]
          exact List.rel_append ih (.cons ⟨rfl, hes e (by simp), _, hwaits', rfl⟩ .nil)

end Heard

/-- What the code in between answers in a state; where no call is waited on, `d`. -/
def served (m : Machine Call Ans Out State) (serve : State → Call → Env → Ans) (d : Ans)
    (s : State) (e : Env) : Ans :=
  match m.pending s with
  | none => d
  | some c => serve s c e

section Served

variable {m : Machine Call Ans Out State} {serve : State → Call → Env → Ans} {s : State} {c : Call}

theorem served_of_pending (hc : m.pending s = some c) (d : Ans) (e : Env) :
    m.served serve d s e = serve s c e := by
  rw [served, hc]

/-- The code in between is heard as what it serves. -/
theorem hears_served (m : Machine Call Ans Out State) (serve : State → Call → Env → Ans)
    (d : Ans) : Hears m (m.through serve) (m.served serve d) where
  start := rfl
  pending := rfl
  resume := by
    intro s e hwaits
    obtain ⟨c, hc⟩ := Option.ne_none_iff_exists'.mp hwaits
    rw [served_of_pending hc, through_resume hc]

end Served

end Machine

/-- Machines in lock step stay so over a common environment. -/
theorem LockStep.through {m₁ : Machine Call Ans Out₁ State₁} {m₂ : Machine Call Ans Out₂ State₂}
    {view : Call → View} {ok : Ans → Prop} {R : State₁ → State₂ → Prop}
    (h : LockStep m₁ m₂ view ok R) {serve₁ : State₁ → Call → Env → Ans}
    {serve₂ : State₂ → Call → Env → Ans} {ok' : Env → Prop}
    (hserve : ∀ s t c₁ c₂ e, R s t → m₁.pending s = some c₁ → m₂.pending t = some c₂ → ok' e →
      serve₁ s c₁ e = serve₂ t c₂ e ∧ ok (serve₁ s c₁ e)) :
    LockStep (m₁.through serve₁) (m₂.through serve₂) view ok' R where
  start := h.start
  pending := h.pending
  resume := by
    intro s t e hR hwaits hok
    change m₁.pending s ≠ none at hwaits
    obtain ⟨c₁, hc₁⟩ := Option.ne_none_iff_exists'.mp hwaits
    have hwaits' : m₂.pending t ≠ none := (h.pending_eq_none_iff hR).not.mp hwaits
    obtain ⟨c₂, hc₂⟩ := Option.ne_none_iff_exists'.mp hwaits'
    obtain ⟨hsame, hok'⟩ := hserve s t c₁ c₂ e hR hc₁ hc₂ hok
    rw [Machine.through_resume hc₁, Machine.through_resume hc₂, ← hsame]
    exact h.resume s t _ hR hwaits hok'

end Reactive
