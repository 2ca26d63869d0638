import Mathlib.Order.Monotone.Basic
import EcFlash.Reactive.Environment

/-!
# Ending against a fair environment

A program that polls may go on for ever.  It ends when an environment that is polled
again and again must at some time grant what the polls are for, when the grants of a
run are bounded, and when the way from one poll to the next is.  The runs are those on
an endless sequence of answers, of which a program takes as many as it needs.
-/

namespace Reactive

namespace Machine

variable {Call Ans Out State : Type*}

/-- The run on the first `n` answers of an endless sequence. -/
def upTo (m : Machine Call Ans Out State) (answers : Nat → Ans) (n : Nat) :
    Config Call Ans Out State :=
  m.run ((List.range n).map answers)

/-- An environment that a program waits for again and again grants what it waits for. -/
def Responsive (m : Machine Call Ans Out State) (waits : State → Prop) (granted : Ans → Prop)
    (answers : Nat → Ans) : Prop :=
  ∀ n, (∀ n', n ≤ n' → ∃ k, n' ≤ k ∧ waits (m.upTo answers k).state) →
    ∃ k, n ≤ k ∧ waits (m.upTo answers k).state ∧ granted (answers k)

section Fair

variable {m : Machine Call Ans Out State} {answers : Nat → Ans} {waits : State → Prop}
  {granted : Ans → Prop} {I : Config Call Ans Out State → Prop}

/-- An environment that grants from some answer on. -/
theorem responsive_of_eventually (n₀ : Nat) (h : ∀ k, n₀ ≤ k → granted (answers k)) :
    m.Responsive waits granted answers := by
  intro n hwaits
  obtain ⟨k, hle, hk⟩ := hwaits (n + n₀) (Nat.le_add_right n n₀)
  exact ⟨k, by omega, hk, h k (by omega)⟩

theorem upTo_succ (m : Machine Call Ans Out State) (answers : Nat → Ans) (n : Nat) :
    m.upTo answers (n + 1) = m.step (m.upTo answers n) (answers n) := by
  unfold upTo
  rw [List.range_succ, List.map_append, List.map_singleton, run_concat]

/-- A stopped program takes no more answers. -/
theorem upTo_of_stopped {n : Nat} (h : m.pending (m.upTo answers n).state = none) (k : Nat) :
    m.upTo answers (n + k) = m.upTo answers n := by
  induction k with
  | zero => rfl
  | succ k ih => rw [← Nat.add_assoc, upTo_succ, ih, step_of_stopped h]

/-- A condition on the steps of the endless run. -/
theorem allSteps_of_upTo {Q : Config Call Ans Out State → Ans → Prop}
    (h : ∀ k, Q (m.upTo answers k) (answers k)) (n : Nat) :
    m.AllSteps Q ((List.range n).map answers) := by
  intro k a hk
  rw [List.getElem?_map] at hk
  obtain ⟨j, hj, rfl⟩ := Option.map_eq_some_iff.mp hk
  obtain ⟨hlt, rfl⟩ := List.getElem?_eq_some_iff.mp hj
  rw [List.length_range] at hlt
  rw [← List.map_take, List.take_range, Nat.min_eq_left (Nat.le_of_lt hlt), List.getElem_range]
  exact h k

/-- The way from one wait to the next is bounded by the rank, so a run that never stops
waits again. -/
theorem exists_waits {rank : Config Call Ans Out State → Nat} (hI : ∀ as, I (m.run as))
    (hrank : ∀ cfg c a, I cfg → m.pending cfg.state = some c → ¬ waits cfg.state →
      rank (m.answer cfg c a) < rank cfg)
    (hrunning : ∀ n, m.pending (m.upTo answers n).state ≠ none) (n : Nat) :
    ∃ k, n ≤ k ∧ waits (m.upTo answers k).state := by
  induction hd : rank (m.upTo answers n) using Nat.strongRecOn generalizing n with
  | ind d ih =>
      by_cases hwaits : waits (m.upTo answers n).state
      · exact ⟨n, Nat.le_refl n, hwaits⟩
      · obtain ⟨c, hc⟩ := Option.ne_none_iff_exists'.mp (hrunning n)
        have hlt := hrank (m.upTo answers n) c (answers n) (hI _) hc hwaits
        rw [← step_of_pending hc, ← upTo_succ, hd] at hlt
        obtain ⟨k, hle, hk⟩ := ih _ hlt (n + 1) rfl
        exact ⟨k, by omega, hk⟩

/-- A run against a responsive environment stops, as the grants are bounded. -/
theorem exists_stopped_of_responsive (rank count : Config Call Ans Out State → Nat) (bound : Nat)
    (hI : ∀ as, I (m.run as))
    (hrank : ∀ cfg c a, I cfg → m.pending cfg.state = some c → ¬ waits cfg.state →
      rank (m.answer cfg c a) < rank cfg)
    (hcount : ∀ cfg c a, I cfg → m.pending cfg.state = some c →
      count cfg ≤ count (m.answer cfg c a))
    (hgranted : ∀ cfg c a, I cfg → m.pending cfg.state = some c → waits cfg.state → granted a →
      count cfg < count (m.answer cfg c a))
    (hbound : ∀ as, count (m.run as) ≤ bound) (hfair : m.Responsive waits granted answers) :
    ∃ n, m.pending (m.upTo answers n).state = none := by
  by_contra hnever
  have hrunning : ∀ n, m.pending (m.upTo answers n).state ≠ none :=
    fun n hstopped => hnever ⟨n, hstopped⟩
  -- The count never goes down.
  have hmono : Monotone fun n => count (m.upTo answers n) := by
    refine monotone_nat_of_le_succ fun n => ?_
    obtain ⟨c, hc⟩ := Option.ne_none_iff_exists'.mp (hrunning n)
    rw [upTo_succ, step_of_pending hc]
    exact hcount (m.upTo answers n) c (answers n) (hI _) hc
  -- One grant after the other takes it beyond the bound.
  have hgrows : ∀ b, ∃ n, b ≤ count (m.upTo answers n) := by
    intro b
    induction b with
    | zero => exact ⟨0, Nat.zero_le _⟩
    | succ b ih =>
        obtain ⟨n, hn⟩ := ih
        obtain ⟨k, hle, hwaits, hgrant⟩ := hfair n fun n' _ => exists_waits hI hrank hrunning n'
        obtain ⟨c, hc⟩ := Option.ne_none_iff_exists'.mp (hrunning k)
        have hlt := hgranted (m.upTo answers k) c (answers k) (hI _) hc hwaits hgrant
        rw [← step_of_pending hc, ← upTo_succ] at hlt
        have hle : count (m.upTo answers n) ≤ count (m.upTo answers k) := hmono hle
        exact ⟨k + 1, by omega⟩
  obtain ⟨n, hn⟩ := hgrows (bound + 1)
  have hle : count (m.upTo answers n) ≤ bound := hbound _
  omega

end Fair

/-! ## What is heard of an endless sequence -/

/-- What `f` makes of an endless sequence of answers. -/
def heardOn {Env : Type*} (m' : Machine Call Env Out State) (f : State → Env → Ans)
    (es : Nat → Env) (k : Nat) : Ans :=
  f (m'.upTo es k).state (es k)

section Heard

variable {Env : Type*} {m : Machine Call Ans Out State} {m' : Machine Call Env Out State}
  {f : State → Env → Ans} {es : Nat → Env} {waits : State → Prop}

theorem heard_heardOn (n : Nat) :
    m'.heard f ((List.range n).map es) = (List.range n).map (m'.heardOn f es) :=
  heard_range es n

theorem state_heardOn (h : Hears m m' f) (es : Nat → Env) (n : Nat) :
    (m.upTo (m'.heardOn f es) n).state = (m'.upTo es n).state := by
  obtain ⟨hstate, -, -⟩ := run_heard h ((List.range n).map es)
  rwa [heard_heardOn] at hstate

/-- An environment is as responsive as what is heard of it. -/
theorem Hears.responsive (h : Hears m m' f) {granted : Env → Prop} {granted' : Ans → Prop}
    (hfair : m'.Responsive waits granted es)
    (hgranted : ∀ s k, waits s → granted (es k) → granted' (f s (es k))) :
    m.Responsive waits granted' (m'.heardOn f es) := by
  intro n hpolls
  obtain ⟨k, hle, hwaits, hgrant⟩ := hfair n fun n' hn' => by
    obtain ⟨k, hle, hk⟩ := hpolls n' hn'
    exact ⟨k, hle, by rwa [← state_heardOn h es]⟩
  exact ⟨k, hle, by rwa [state_heardOn h es], hgranted _ _ hwaits hgrant⟩

end Heard

end Machine

/-- An environment is as responsive to one machine as to another one in lock step with
it, when both wait for it in related states. -/
theorem LockStep.responsive {Call Ans View Out₁ Out₂ State₁ State₂ : Type*}
    {m₁ : Machine Call Ans Out₁ State₁} {m₂ : Machine Call Ans Out₂ State₂}
    {view : Call → View} {ok : Ans → Prop} {R : State₁ → State₂ → Prop}
    (h : LockStep m₁ m₂ view ok R) {waits₁ : State₁ → Prop} {waits₂ : State₂ → Prop}
    (hwaits : ∀ s t, R s t → (waits₁ s ↔ waits₂ t)) {granted : Ans → Prop}
    {answers : Nat → Ans} (hok : ∀ n, ok (answers n))
    (hfair : m₂.Responsive waits₂ granted answers) : m₁.Responsive waits₁ granted answers := by
  have hiff (k : Nat) : waits₁ (m₁.upTo answers k).state ↔ waits₂ (m₂.upTo answers k).state := by
    refine hwaits _ _ (h.state _ fun a ha => ?_)
    obtain ⟨n, -, rfl⟩ := List.mem_map.mp ha
    exact hok n
  intro n hpolls
  obtain ⟨k, hle, hk, hgranted⟩ := hfair n fun n' hn' => by
    obtain ⟨k, hle, hk⟩ := hpolls n' hn'
    exact ⟨k, hle, (hiff k).mp hk⟩
  exact ⟨k, hle, (hiff k).mpr hk, hgranted⟩

end Reactive
