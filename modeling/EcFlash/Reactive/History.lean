import EcFlash.Reactive.Machine

/-!
# Properties of histories

A safety property of a trace often says of every event what must have come
before it.  `Always Q tr` is that shape: `Q before e` holds of every event `e`
of `tr` and the events `before` it.  `Machine.run_always` reduces such a
property of all runs to an invariant which implies `Q` of the events one
answered call adds.

A condition on the steps of a run is `AllSteps`: every answer of the list meets it
in the configuration it is given in.  `Machine.run_iff_allSteps` characterises the
runs with a property by such a condition, and `Machine.countSteps` counts the steps
that meet one.
-/

namespace Reactive

/-- Every event of `tr` is related by `Q` to the events before it. -/
def Always {E : Type*} (Q : List E → E → Prop) (tr : List E) : Prop :=
  ∀ before e after, tr = before ++ e :: after → Q before e

section Always

variable {E : Type*} {Q R : List E → E → Prop} {tr es : List E}

@[simp] theorem always_nil : Always Q [] := by
  intro before e after h
  simp at h

theorem always_append : Always Q (tr ++ es) ↔
    Always Q tr ∧ Always (fun before e => Q (tr ++ before) e) es := by
  constructor
  · intro h
    constructor
    · rintro before e after rfl
      exact h before e (after ++ es) (by simp)
    · rintro before e after rfl
      exact h (tr ++ before) e after (by simp)
  · rintro ⟨htr, hes⟩ before e after h
    -- The event stands either in `es` or in `tr`.
    rcases List.append_eq_append_iff.mp h with ⟨mid, hbefore, hmid⟩ | ⟨mid, htrace, hmid⟩
    · rw [hbefore]
      exact hes mid e after hmid
    · cases mid with
      | nil =>
          have h' : Q (tr ++ []) e := hes [] e after (by simpa using hmid.symm)
          simpa [htrace] using h'
      | cons e' mid =>
          obtain ⟨rfl, -⟩ := List.cons.inj hmid
          exact htr before e mid htrace

@[simp] theorem always_cons {e : E} : Always Q (e :: es) ↔
    Q [] e ∧ Always (fun before e' => Q (e :: before) e') es := by
  have hsplit : Always Q ([e] ++ es) ↔
      Always Q [e] ∧ Always (fun before e' => Q ([e] ++ before) e') es := always_append
  have hsingle : Always Q [e] ↔ Q [] e := by
    constructor
    · intro h
      exact h [] e [] rfl
    · intro h before e' after heq
      cases before with
      | nil =>
          obtain ⟨rfl, -⟩ := List.cons.inj heq
          exact h
      | cons b before => simp at heq
  simpa [hsingle] using hsplit

theorem Always.mono (h : Always Q tr) (hQR : ∀ before e, Q before e → R before e) :
    Always R tr :=
  fun before e after heq => hQR before e (h before e after heq)

/-- One element more. -/
theorem always_concat {e : E} : Always Q (tr ++ [e]) ↔ Always Q tr ∧ Q tr e := by
  rw [always_append, always_cons]
  simp

instance [∀ before e, Decidable (Q before e)] (tr : List E) : Decidable (Always Q tr) :=
  decidable_of_iff (∀ n : Fin tr.length, Q (tr.take n) (tr.get n)) <| by
    constructor
    · rintro h before e after rfl
      simpa using h ⟨before.length, by simp⟩
    · intro h n
      exact h _ _ (tr.drop (n + 1)) (by simp)

/-- A property that does not depend on what came before. -/
theorem always_of_mem (h : ∀ e ∈ tr, ∀ before, Q before e) : Always Q tr := by
  rintro before e after rfl
  exact h e (by simp) before

/-- A property of calls, of the events that one answered call adds. -/
theorem always_call {Call Ans Out : Type*} {Q : List (Event Call Ans Out) → Call → Ans → Prop}
    {c : Call} {a : Ans} {os : List Out} (h : Q [] c a) :
    Always (fun before e => ∀ c a, e = .call c a → Q before c a) (.call c a :: os.map .out) := by
  refine always_cons.mpr ⟨?_, always_of_mem fun e he before c' a' heq => ?_⟩
  · intro c' a' heq
    obtain ⟨rfl, rfl⟩ := Event.call.inj heq
    exact h
  · simp [heq] at he

end Always

namespace Machine

variable {Call Ans Out State : Type*}

/-- Every answer of the run satisfies `Q` in the configuration before it. -/
def AllSteps (m : Machine Call Ans Out State) (Q : Config Call Ans Out State → Ans → Prop)
    (as : List Ans) : Prop :=
  ∀ n a, as[n]? = some a → Q (m.run (as.take n)) a

@[simp] theorem allSteps_nil (m : Machine Call Ans Out State)
    (Q : Config Call Ans Out State → Ans → Prop) : m.AllSteps Q [] := by
  intro n a h
  simp at h

/-- The same over the positions of the list. -/
theorem allSteps_iff_fin {m : Machine Call Ans Out State}
    {Q : Config Call Ans Out State → Ans → Prop} {as : List Ans} :
    m.AllSteps Q as ↔ ∀ n : Fin as.length, Q (m.run (as.take n)) (as.get n) := by
  constructor
  · intro h n
    exact h n (as.get n) (by simp)
  · intro h n a hn
    obtain ⟨hlt, rfl⟩ := List.getElem?_eq_some_iff.mp hn
    exact h ⟨n, hlt⟩

instance (m : Machine Call Ans Out State) (Q : Config Call Ans Out State → Ans → Prop)
    [∀ cfg a, Decidable (Q cfg a)] (as : List Ans) : Decidable (m.AllSteps Q as) :=
  decidable_of_iff _ allSteps_iff_fin.symm

/-- A condition on all steps is a condition on the steps of every prefix. -/
theorem AllSteps.take {m : Machine Call Ans Out State}
    {Q : Config Call Ans Out State → Ans → Prop} {as : List Ans} (h : m.AllSteps Q as) (n : Nat) :
    m.AllSteps Q (as.take n) := by
  intro k a hk
  rw [List.getElem?_take] at hk
  split at hk
  · rename_i hlt
    rw [List.take_take, Nat.min_eq_left (Nat.le_of_lt hlt)]
    exact h k a hk
  · simp at hk

theorem allSteps_concat (m : Machine Call Ans Out State)
    (Q : Config Call Ans Out State → Ans → Prop) (as : List Ans) (a : Ans) :
    m.AllSteps Q (as ++ [a]) ↔ m.AllSteps Q as ∧ Q (m.run as) a := by
  constructor
  · intro h
    constructor
    · intro n b hn
      obtain ⟨hlt, -⟩ := List.getElem?_eq_some_iff.mp hn
      have hstep := h n b (by rw [List.getElem?_append_left hlt, hn])
      rwa [List.take_append_of_le_length (Nat.le_of_lt hlt)] at hstep
    · simpa using h as.length a (by simp)
  · rintro ⟨hbefore, hlast⟩ n b hn
    obtain ⟨hlt, -⟩ := List.getElem?_eq_some_iff.mp hn
    -- A step of the shorter run, or the last one.
    by_cases hn' : n < as.length
    · rw [List.getElem?_append_left hn'] at hn
      rw [List.take_append_of_le_length (Nat.le_of_lt hn')]
      exact hbefore n b hn
    · have heq : n = as.length := by
        simp at hlt
        omega
      subst heq
      simp at hn
      simpa [hn] using hlast

/-- A step condition which says when one answered call keeps a property says when
a whole run keeps it. -/
theorem run_iff_allSteps {m : Machine Call Ans Out State}
    {I P : Config Call Ans Out State → Prop} {Q : Config Call Ans Out State → Ans → Prop}
    (hI : ∀ as, I (m.run as)) (hstart : P m.initial)
    (hstopped : ∀ cfg a, m.pending cfg.state = none → Q cfg a)
    (hstep : ∀ cfg c a, I cfg → m.pending cfg.state = some c →
      (P (m.answer cfg c a) ↔ P cfg ∧ Q cfg a))
    (as : List Ans) : P (m.run as) ↔ m.AllSteps Q as := by
  induction as using List.reverseRecOn with
  | nil => simp [hstart]
  | append_singleton as a ih =>
      rw [allSteps_concat, ← ih, run_concat]
      cases hpending : m.pending (m.run as).state with
      | none => simp [step_of_stopped hpending, hstopped _ a hpending]
      | some c =>
          rw [step_of_pending hpending]
          exact hstep _ c a (hI as) hpending

/-- The invariant rule for runs whose steps all meet a condition, on top of an
invariant that every run is known to keep. -/
theorem AllSteps.induction {m : Machine Call Ans Out State}
    {I P : Config Call Ans Out State → Prop} {Q : Config Call Ans Out State → Ans → Prop}
    {as : List Ans} (h : m.AllSteps Q as) (hI : ∀ as, I (m.run as)) (hstart : P m.initial)
    (hstep : ∀ cfg c a, I cfg → P cfg → m.pending cfg.state = some c → Q cfg a →
      P (m.answer cfg c a)) :
    P (m.run as) := by
  induction as using List.reverseRecOn with
  | nil => exact hstart
  | append_singleton as a ih =>
      obtain ⟨hbefore, hlast⟩ := (allSteps_concat _ _ _ _).mp h
      have hprev := ih hbefore
      rw [run_concat]
      cases hpending : m.pending (m.run as).state with
      | none => rwa [step_of_stopped hpending]
      | some c =>
          rw [step_of_pending hpending]
          exact hstep _ c a (hI as) hprev hpending hlast

section Count

variable {m : Machine Call Ans Out State} {Q R T : Config Call Ans Out State → Ans → Prop}
  [∀ cfg a, Decidable (Q cfg a)] [∀ cfg a, Decidable (R cfg a)] [∀ cfg a, Decidable (T cfg a)]

/-- One more answer, counted when it satisfies `Q`. -/
def countStep (m : Machine Call Ans Out State) (Q : Config Call Ans Out State → Ans → Prop)
    [∀ cfg a, Decidable (Q cfg a)] (counted : Config Call Ans Out State × Nat) (a : Ans) :
    Config Call Ans Out State × Nat :=
  (m.step counted.1 a, if Q counted.1 a then counted.2 + 1 else counted.2)

/-- The number of answers of the run that satisfy `Q` in the configuration before
them. -/
def countSteps (m : Machine Call Ans Out State) (Q : Config Call Ans Out State → Ans → Prop)
    [∀ cfg a, Decidable (Q cfg a)] (as : List Ans) : Nat :=
  (as.foldl (m.countStep Q) (m.initial, 0)).2

theorem foldl_countStep_fst (as : List Ans) :
    (as.foldl (m.countStep Q) (m.initial, 0)).1 = m.run as := by
  induction as using List.reverseRecOn with
  | nil => rfl
  | append_singleton as a ih =>
      rw [List.foldl_append, run_concat, ← ih]
      rfl

@[simp] theorem countSteps_nil : m.countSteps Q [] = 0 := rfl

@[simp] theorem countSteps_concat (as : List Ans) (a : Ans) :
    m.countSteps Q (as ++ [a]) = m.countSteps Q as + if Q (m.run as) a then 1 else 0 := by
  unfold countSteps
  rw [List.foldl_append, List.foldl_cons, List.foldl_nil, countStep, foldl_countStep_fst]
  split <;> rfl

/-- Steps of one kind are at most as many as those of the two kinds they fall into. -/
theorem countSteps_le_add {as : List Ans}
    (h : m.AllSteps (fun cfg a => Q cfg a → R cfg a ∨ T cfg a) as) :
    m.countSteps Q as ≤ m.countSteps R as + m.countSteps T as := by
  induction as using List.reverseRecOn with
  | nil => simp
  | append_singleton as a ih =>
      obtain ⟨hbefore, hlast⟩ := (allSteps_concat _ _ _ _).mp h
      have hle := ih hbefore
      simp only [countSteps_concat]
      by_cases hQ : Q (m.run as) a
      · rcases hlast hQ with hkind | hkind <;> simp only [hQ, hkind, if_true] <;> split <;> omega
      · rw [if_neg hQ]
        omega

theorem countSteps_eq_zero {as : List Ans} (h : m.AllSteps (fun cfg a => ¬ Q cfg a) as) :
    m.countSteps Q as = 0 := by
  induction as using List.reverseRecOn with
  | nil => rfl
  | append_singleton as a ih =>
      obtain ⟨hbefore, hlast⟩ := (allSteps_concat _ _ _ _).mp h
      rw [countSteps_concat, ih hbefore, if_neg hlast]

end Count

/-- A history property of every run, from an invariant which implies it of the
events that one answered call adds. -/
theorem run_always {m : Machine Call Ans Out State}
    {Q : List (Event Call Ans Out) → Event Call Ans Out → Prop}
    {P : Config Call Ans Out State → Prop} {as : List Ans}
    (hinv : ∀ n, P (m.run (as.take n)))
    (hinitial : Always Q m.initial.trace)
    (hstep : ∀ cfg c a, P cfg → m.pending cfg.state = some c →
      Always (fun before e => Q (cfg.trace ++ before) e)
        (.call c a :: (m.resume cfg.state a).2.map .out)) :
    Always Q (m.run as).trace := by
  -- For all prefixes, since the invariant is needed at each of them.
  suffices h : ∀ n, Always Q (m.run (as.take n)).trace by
    simpa using h as.length
  intro n
  induction n with
  | zero => simpa using hinitial
  | succ n ih =>
      cases hn : as[n]? with
      | none => rwa [List.take_add_one, hn, Option.toList_none, List.append_nil]
      | some a =>
          rw [List.take_add_one, hn, Option.toList_some, run_concat]
          cases hpending : m.pending (m.run (as.take n)).state with
          | none => rwa [step_of_stopped hpending]
          | some c =>
              rw [step_of_pending hpending, answer]
              exact always_append.mpr ⟨ih, hstep _ c a (hinv n) hpending⟩

end Machine

end Reactive
