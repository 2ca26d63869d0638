import EcFlash.Reactive.History

/-!
# Simulation of reactive machines

Two machines over the same answers run in lock step when some relation between
their states is kept by every admissible answer and related states wait on the
same call.  `view` says how much of a call is compared: the identity compares
whole calls, a projection compares only what the two machines have in common.

Because the driven runs answer the same list, lock step transfers the sequence
of calls and the point at which the program stops.  `LockStep.calls_eq_iff`
compares the calls of such runs in more detail than the lock step does.
-/

namespace Reactive

variable {Call Ans View Out₁ Out₂ State₁ State₂ : Type*}

/-- `R` keeps the two machines in lock step, as far as `view` can see, under
every answer that satisfies `ok`. -/
structure LockStep (m₁ : Machine Call Ans Out₁ State₁) (m₂ : Machine Call Ans Out₂ State₂)
    (view : Call → View) (ok : Ans → Prop) (R : State₁ → State₂ → Prop) : Prop where
  start : R m₁.start.1 m₂.start.1
  pending : ∀ s t, R s t → (m₁.pending s).map view = (m₂.pending t).map view
  resume : ∀ s t a, R s t → m₁.pending s ≠ none → ok a →
    R (m₁.resume s a).1 (m₂.resume t a).1

namespace LockStep

variable {m₁ : Machine Call Ans Out₁ State₁} {m₂ : Machine Call Ans Out₂ State₂}
  {view : Call → View} {ok : Ans → Prop} {R : State₁ → State₂ → Prop}

/-- Related states stop together. -/
theorem pending_eq_none_iff (h : LockStep m₁ m₂ view ok R) {s : State₁} {t : State₂}
    (hR : R s t) : m₁.pending s = none ↔ m₂.pending t = none := by
  have hview := h.pending s t hR
  cases hs : m₁.pending s <;> cases ht : m₂.pending t <;> simp_all

/-- Runs on the same admissible answers end in related states and show the same
calls, with the same answers. -/
theorem run (h : LockStep m₁ m₂ view ok R) (as : List Ans) (hok : ∀ a ∈ as, ok a) :
    R (m₁.run as).state (m₂.run as).state ∧
      (exchanges (m₁.run as).trace).map (Prod.map view id) =
        (exchanges (m₂.run as).trace).map (Prod.map view id) := by
  induction as using List.reverseRecOn with
  | nil => exact ⟨h.start, by simp [Machine.initial]⟩
  | append_singleton as a ih =>
      obtain ⟨hR, hexchanges⟩ := ih fun b hb => hok b (by simp [hb])
      rw [Machine.run_concat, Machine.run_concat]
      -- Related states wait on calls that look the same, so the runs stop together.
      have hview := h.pending _ _ hR
      cases hs : m₁.pending (m₁.run as).state with
      | none =>
          have ht := (h.pending_eq_none_iff hR).mp hs
          rw [Machine.step_of_stopped hs, Machine.step_of_stopped ht]
          exact ⟨hR, hexchanges⟩
      | some c₁ =>
          cases ht : m₂.pending (m₂.run as).state with
          | none => simp [hs, ht] at hview
          | some c₂ =>
              have hc : view c₁ = view c₂ := by simpa [hs, ht] using hview
              rw [Machine.step_of_pending hs, Machine.step_of_pending ht]
              constructor
              · exact h.resume _ _ a hR (by simp [hs]) (hok a (by simp))
              · simp [hexchanges, hc]

theorem state (h : LockStep m₁ m₂ view ok R) (as : List Ans) (hok : ∀ a ∈ as, ok a) :
    R (m₁.run as).state (m₂.run as).state :=
  (h.run as hok).1

theorem length_calls_eq (h : LockStep m₁ m₂ view ok R) (as : List Ans)
    (hok : ∀ a ∈ as, ok a) :
    (calls (m₁.run as).trace).length = (calls (m₂.run as).trace).length := by
  simpa [calls] using congrArg List.length (h.run as hok).2

/-- The invariant rule for two runs in lock step whose steps all meet a condition on
the first machine. -/
theorem induction (h : LockStep m₁ m₂ view ok R)
    {I : Config Call Ans Out₁ State₁ → State₂ → Prop}
    {P : Config Call Ans Out₁ State₁ → Config Call Ans Out₂ State₂ → Prop}
    {Q : Config Call Ans Out₁ State₁ → Ans → Prop}
    (hI : ∀ as, (∀ a ∈ as, ok a) → I (m₁.run as) (m₂.run as).state)
    (hstart : P m₁.initial m₂.initial)
    (hstep : ∀ cfg₁ cfg₂ c₁ c₂ a, I cfg₁ cfg₂.state → R cfg₁.state cfg₂.state → P cfg₁ cfg₂ →
      m₁.pending cfg₁.state = some c₁ → m₂.pending cfg₂.state = some c₂ → ok a → Q cfg₁ a →
      P (m₁.answer cfg₁ c₁ a) (m₂.answer cfg₂ c₂ a))
    (as : List Ans) (hok : ∀ a ∈ as, ok a) (hQ : m₁.AllSteps Q as) :
    P (m₁.run as) (m₂.run as) := by
  induction as using List.reverseRecOn with
  | nil => exact hstart
  | append_singleton as a ih =>
      have hbefore : ∀ b ∈ as, ok b := fun b hb => hok b (by simp [hb])
      obtain ⟨hsteps, hlast⟩ := (Machine.allSteps_concat _ _ _ _).mp hQ
      have hprev := ih hbefore hsteps
      have hR := (h.run as hbefore).1
      rw [Machine.run_concat, Machine.run_concat]
      cases hs : m₁.pending (m₁.run as).state with
      | none =>
          have ht := (h.pending_eq_none_iff hR).mp hs
          rwa [Machine.step_of_stopped hs, Machine.step_of_stopped ht]
      | some c₁ =>
          cases ht : m₂.pending (m₂.run as).state with
          | none => simp [(h.pending_eq_none_iff hR).mpr ht] at hs
          | some c₂ =>
              rw [Machine.step_of_pending hs, Machine.step_of_pending ht]
              exact hstep _ _ c₁ c₂ a (hI as hbefore) hR hprev hs ht (hok a (by simp)) hlast

/-- A property of the first run, which each answered call keeps exactly when the
two calls look the same under `f`, characterises the runs whose calls do.
`I` is what is known of the two runs at the same moment. -/
theorem calls_eq_iff {Fine : Type*} {f : Call → Fine} (h : LockStep m₁ m₂ view ok R)
    {I : Config Call Ans Out₁ State₁ → State₂ → Prop} {P : Config Call Ans Out₁ State₁ → Prop}
    (hI : ∀ as, (∀ a ∈ as, ok a) → I (m₁.run as) (m₂.run as).state) (hstart : P m₁.initial)
    (hstep : ∀ cfg t c₁ c₂ a, I cfg t → m₁.pending cfg.state = some c₁ →
      m₂.pending t = some c₂ → ok a → (P (m₁.answer cfg c₁ a) ↔ P cfg ∧ f c₁ = f c₂))
    (as : List Ans) (hok : ∀ a ∈ as, ok a) :
    (calls (m₁.run as).trace).map f = (calls (m₂.run as).trace).map f ↔
      P (m₁.run as) := by
  induction as using List.reverseRecOn with
  | nil =>
      refine iff_of_true ?_ hstart
      simp [Machine.initial]
  | append_singleton as a ih =>
      have hbefore : ∀ b ∈ as, ok b := fun b hb => hok b (by simp [hb])
      have ih := ih hbefore
      have hstop := h.pending_eq_none_iff (h.run as hbefore).1
      rw [Machine.run_concat, Machine.run_concat]
      cases hs : m₁.pending (m₁.run as).state with
      | none => rwa [Machine.step_of_stopped hs, Machine.step_of_stopped (hstop.mp hs)]
      | some c₁ =>
          cases ht : m₂.pending (m₂.run as).state with
          | none => simp [hstop.mpr ht] at hs
          | some c₂ =>
              have hlen := h.length_calls_eq as hbefore
              rw [Machine.step_of_pending hs, Machine.step_of_pending ht,
                hstep _ _ c₁ c₂ a (hI as hbefore) hs ht (hok a (by simp)), ← ih]
              simp only [Machine.calls_answer, List.map_append, List.map_singleton]
              -- The sequences before the call have the same length.
              constructor
              · intro heq
                obtain ⟨hcalls, hlast⟩ := List.append_inj heq (by simpa using hlen)
                exact ⟨hcalls, List.singleton_inj.mp hlast⟩
              · rintro ⟨hcalls, hlast⟩
                rw [hcalls, hlast]

/-- When whole calls are compared, the exchanges are the same. -/
theorem exchanges_eq {h : LockStep m₁ m₂ id ok R} (as : List Ans) (hok : ∀ a ∈ as, ok a) :
    exchanges (m₁.run as).trace = exchanges (m₂.run as).trace := by
  simpa using (h.run as hok).2

theorem calls_eq {h : LockStep m₁ m₂ id ok R} (as : List Ans) (hok : ∀ a ∈ as, ok a) :
    calls (m₁.run as).trace = calls (m₂.run as).trace :=
  congrArg (List.map Prod.fst) (exchanges_eq (h := h) as hok)

end LockStep

end Reactive
