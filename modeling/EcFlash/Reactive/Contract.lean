import EcFlash.Reactive.Program

/-!
# Contracts for structured programs

A contract follows a run with a state of its own.  It says what the program may rely
on in an answer, and what it has to guarantee of every event.  `Contract.wlp` is the
weakest precondition of a program under a contract: it is computed along the tree,
with an invariant at each wait, and composes through sequencing.

`Contract.run_sound` brings it back to runs: as long as the answers are as relied on,
every event is as guaranteed, and when the program ends the postcondition holds.
Whether it ends is a different matter, see `Program.exists_finished`.
-/

namespace Reactive

universe u v w x y

/-- What is relied on and guaranteed in a run, in terms of a state that follows it. -/
structure Contract (Call : Type u) (Ans : Type v) (Out : Type w) (Obs : Type y) where
  /-- The state after one more event. -/
  observe : Obs → Event Call Ans Out → Obs
  rely : Obs → Call → Ans → Prop
  guarantee : Obs → Event Call Ans Out → Prop

namespace Contract

variable {Call : Type u} {Ans : Type v} {Out : Type w} {Obs : Type y} {α β : Type x}

/-- The same guarantees, with another assumption about the answers. -/
def relying (K : Contract Call Ans Out Obs) (rely : Obs → Call → Ans → Prop) :
    Contract Call Ans Out Obs :=
  { K with rely }

/-- The state after a history. -/
def after (K : Contract Call Ans Out Obs) (s : Obs) (tr : List (Event Call Ans Out)) : Obs :=
  tr.foldl K.observe s

/-- Every event of a history, observed from `s` on, is as guaranteed. -/
def Keeps (K : Contract Call Ans Out Obs) (s : Obs) (tr : List (Event Call Ans Out)) : Prop :=
  Always (fun before e => K.guarantee (K.after s before) e) tr

/-- The weakest precondition under which the program keeps the contract and, if it
ends, ends with `Q`. -/
def wlp (K : Contract Call Ans Out Obs) (p : Program Call Ans Out α) (Q : α → Obs → Prop)
    (s : Obs) : Prop :=
  match p with
  | .pure x => Q x s
  | .emit o k => K.guarantee s (.out o) ∧ K.wlp k Q (K.observe s (.out o))
  | .ask c k => ∀ a, K.rely s c a →
      K.guarantee s (.call c a) ∧ K.wlp (k a) Q (K.observe s (.call c a))
  | .spin c again k => ∃ I : Obs → Prop, I s ∧ ∀ s a, I s → K.rely s c a →
      K.guarantee s (.call c a) ∧
        if again a = true then I (K.observe s (.call c a))
        else K.wlp (k a) Q (K.observe s (.call c a))

section Rules

variable {K : Contract Call Ans Out Obs} {p : Program Call Ans Out α}
  {Q : α → Obs → Prop} {s : Obs}

@[simp] theorem wlp_pure (x : α) : K.wlp (Pure.pure x : Program Call Ans Out α) Q s ↔ Q x s :=
  Iff.rfl

theorem wlp_mono {R : α → Obs → Prop} (h : K.wlp p Q s) (hQR : ∀ x s, Q x s → R x s) :
    K.wlp p R s := by
  induction p generalizing s with
  | pure x => exact hQR x s h
  | emit o k ih => exact ⟨h.1, ih h.2⟩
  | ask c k ih =>
      intro a ha
      obtain ⟨hnow, hnext⟩ := h a ha
      exact ⟨hnow, ih a hnext⟩
  | spin c again k ih =>
      obtain ⟨I, hstart, hstep⟩ := h
      refine ⟨I, hstart, fun s a hI ha => ?_⟩
      obtain ⟨hnow, hnext⟩ := hstep s a hI ha
      refine ⟨hnow, ?_⟩
      split
      · rename_i hagain
        rwa [if_pos hagain] at hnext
      · rename_i hagain
        rw [if_neg hagain] at hnext
        exact ih a hnext

/-- The rule of sequencing. -/
theorem wlp_bind {α β : Type x} {p : Program Call Ans Out α} {f : α → Program Call Ans Out β}
    {Q : β → Obs → Prop} {s : Obs} (h : K.wlp p (fun x s => K.wlp (f x) Q s) s) :
    K.wlp (p >>= f) Q s := by
  induction p generalizing s with
  | pure x => exact h
  | emit o k ih => exact ⟨h.1, ih h.2⟩
  | ask c k ih =>
      intro a ha
      obtain ⟨hnow, hnext⟩ := h a ha
      exact ⟨hnow, ih a hnext⟩
  | spin c again k ih =>
      obtain ⟨I, hstart, hstep⟩ := h
      refine ⟨I, hstart, fun s a hI ha => ?_⟩
      obtain ⟨hnow, hnext⟩ := hstep s a hI ha
      refine ⟨hnow, ?_⟩
      split
      · rename_i hagain
        rwa [if_pos hagain] at hnext
      · rename_i hagain
        rw [if_neg hagain] at hnext
        exact ih a hnext

/-- A wait, with an invariant. -/
theorem wlp_await {Q : PUnit → Obs → Prop} {c : Call} {again : Ans → Bool} {s : Obs}
    (I : Obs → Prop) (hstart : I s)
    (hstep : ∀ s a, I s → K.rely s c a → K.guarantee s (.call c a) ∧
      if again a = true then I (K.observe s (.call c a)) else Q ⟨⟩ (K.observe s (.call c a))) :
    K.wlp (Program.await c again : Program Call Ans Out PUnit) Q s :=
  ⟨I, hstart, hstep⟩

end Rules

/-! ## Soundness -/

section Sound

variable {K : Contract Call Ans Out Obs} {p : Program Call Ans Out α} {Q : α → Obs → Prop}
  {s : Obs}

/-- The answer is as relied on. -/
def Answers (K : Contract Call Ans Out Obs) (s : Obs)
    (cfg : Config Call Ans Out (Program Call Ans Out α)) (a : Ans) : Prop :=
  ∀ c, cfg.state.pending = some c → K.rely (K.after s cfg.trace) c a

instance [∀ s c a, Decidable (K.rely s c a)] (cfg : Config Call Ans Out (Program Call Ans Out α))
    (a : Ans) : Decidable (K.Answers s cfg a) :=
  match hc : cfg.state.pending with
  | none => .isTrue fun c h => absurd (hc.symm.trans h) (by simp)
  | some c =>
      decidable_of_iff (K.rely (K.after s cfg.trace) c a)
        ⟨fun h _ hc' => Option.some.inj (hc.symm.trans hc') ▸ h, fun h => h c hc⟩

/-- What is put out on the way to the next call is as guaranteed. -/
theorem wlp_settle (p : Program Call Ans Out α) (tr : List (Event Call Ans Out))
    (h : K.wlp p Q (K.after s tr)) (hkeeps : K.Keeps s tr) :
    K.Keeps s (tr ++ p.settle.2.map .out) ∧
      K.wlp p.settle.1 Q (K.after s (tr ++ p.settle.2.map .out)) := by
  induction p generalizing tr with
  | emit o k ih =>
      have hnow : K.Keeps s (tr ++ [.out o]) := by
        refine always_append.mpr ⟨hkeeps, ?_⟩
        simpa [after] using h.1
      have hnext : K.wlp k Q (K.after s (tr ++ [.out o])) := by
        simpa [after] using h.2
      simpa [Program.settle] using ih _ hnext hnow
  | pure x => simpa [Program.settle] using And.intro hkeeps h
  | ask c k => simpa [Program.settle] using And.intro hkeeps h
  | spin c again k => simpa [Program.settle] using And.intro hkeeps h

/-- One answered call keeps the contract. -/
theorem wlp_answer {cfg : Config Call Ans Out (Program Call Ans Out α)} {c : Call} {a : Ans}
    (hkeeps : K.Keeps s cfg.trace) (h : K.wlp cfg.state Q (K.after s cfg.trace))
    (hc : cfg.state.pending = some c) (ha : K.rely (K.after s cfg.trace) c a) :
    K.Keeps s (p.machine.answer cfg c a).trace ∧
      K.wlp (p.machine.answer cfg c a).state Q (K.after s (p.machine.answer cfg c a).trace) := by
  have hevent (hnow : K.guarantee (K.after s cfg.trace) (.call c a)) :
      K.Keeps s (cfg.trace ++ [.call c a]) := by
    refine always_append.mpr ⟨hkeeps, ?_⟩
    simpa using hnow
  rcases cfg with ⟨tr, q⟩
  cases q with
  | pure x => simp [Program.pending] at hc
  | emit o k => simp [Program.pending] at hc
  | ask c' k =>
      obtain rfl : c' = c := by simpa [Program.pending] using hc
      obtain ⟨hnow, hnext⟩ := h a ha
      have hsettled := wlp_settle (k a) (tr ++ [.call c' a])
        (by simpa [after] using hnext) (hevent hnow)
      simpa [Machine.answer, Program.machine, Program.resume] using hsettled
  | spin c' again k =>
      obtain rfl : c' = c := by simpa [Program.pending] using hc
      obtain ⟨I, hI, hstep⟩ := h
      obtain ⟨hnow, hnext⟩ := hstep _ a hI ha
      cases hagain : again a with
      | true =>
          rw [if_pos hagain] at hnext
          have hwaits : K.wlp (.spin c' again k) Q (K.after s (tr ++ [.call c' a])) :=
            ⟨I, by simpa [after] using hnext, hstep⟩
          simpa [Machine.answer, Program.machine, Program.resume, hagain] using
            And.intro (hevent hnow) hwaits
      | false =>
          rw [if_neg (by simp [hagain])] at hnext
          have hsettled := wlp_settle (k a) (tr ++ [.call c' a])
            (by simpa [after] using hnext) (hevent hnow)
          simpa [Machine.answer, Program.machine, Program.resume, hagain] using hsettled

/-- A program that meets its weakest precondition keeps the contract in every run
whose answers are as relied on, and ends, if at all, with the postcondition. -/
theorem run_sound (h : K.wlp p Q s) (as : List Ans)
    (hanswers : p.machine.AllSteps (K.Answers s) as) :
    K.Keeps s (p.machine.run as).trace ∧
      ∀ x, (p.machine.run as).state = .pure x → Q x (K.after s (p.machine.run as).trace) := by
  have hrun := hanswers.induction (I := fun _ => True) (P := fun cfg => K.Keeps s cfg.trace ∧
      K.wlp cfg.state Q (K.after s cfg.trace)) (fun _ => trivial)
    (by simpa [Machine.initial, Program.machine] using wlp_settle p [] h always_nil)
    (fun cfg c a _ hcfg hc ha => wlp_answer hcfg.1 hcfg.2 hc (ha c hc))
  refine ⟨hrun.1, fun x hx => ?_⟩
  have hend := hrun.2
  rw [hx] at hend
  exact hend

/-- A program that keeps a contract without relying on anything keeps it in every run. -/
theorem keeps_of_relying (h : (K.relying fun _ _ _ => True).wlp p Q s) (as : List Ans) :
    K.Keeps s (p.machine.run as).trace :=
  (run_sound h as fun _ _ _ _ _ => trivial).1

end Sound

/-! ## Runs as relied on -/

/-- Some answers as relied on lead the program to its end, and to `R` there; every
wait ends at once. -/
def reaches (K : Contract Call Ans Out Obs) (p : Program Call Ans Out α) (R : α → Obs → Prop)
    (s : Obs) : Prop :=
  match p with
  | .pure x => R x s
  | .emit o k => K.reaches k R (K.observe s (.out o))
  | .ask c k => ∃ a, K.rely s c a ∧ K.reaches (k a) R (K.observe s (.call c a))
  | .spin c again k => ∃ a, K.rely s c a ∧ again a = false ∧
      K.reaches (k a) R (K.observe s (.call c a))

section Reach

variable {K : Contract Call Ans Out Obs} {p : Program Call Ans Out α} {R : α → Obs → Prop}
  {s : Obs}

theorem reaches_mono {R' : α → Obs → Prop} (h : K.reaches p R s) (hRR' : ∀ x s, R x s → R' x s) :
    K.reaches p R' s := by
  induction p generalizing s with
  | pure x => exact hRR' x s h
  | emit o k ih => exact ih h
  | ask c k ih =>
      obtain ⟨a, ha, hnext⟩ := h
      exact ⟨a, ha, ih a hnext⟩
  | spin c again k ih =>
      obtain ⟨a, ha, hend, hnext⟩ := h
      exact ⟨a, ha, hend, ih a hnext⟩

/-- The rule of sequencing. -/
theorem reaches_bind {α β : Type x} {p : Program Call Ans Out α} {f : α → Program Call Ans Out β}
    {R : β → Obs → Prop} {s : Obs} (h : K.reaches p (fun x s => K.reaches (f x) R s) s) :
    K.reaches (p >>= f) R s := by
  induction p generalizing s with
  | pure x => exact h
  | emit o k ih => exact ih h
  | ask c k ih =>
      obtain ⟨a, ha, hnext⟩ := h
      exact ⟨a, ha, ih a hnext⟩
  | spin c again k ih =>
      obtain ⟨a, ha, hend, hnext⟩ := h
      exact ⟨a, ha, hend, ih a hnext⟩

theorem reaches_settle (h : K.reaches p R s) :
    K.reaches p.settle.1 R (K.after s (p.settle.2.map .out)) := by
  induction p generalizing s with
  | emit o k ih => exact ih h
  | pure x => exact h
  | ask c k => exact h
  | spin c again k => exact h

/-- There is such a run. -/
theorem exists_run (h : K.reaches p R s) : ∃ as x, p.machine.AllSteps (K.Answers s) as ∧
    (p.machine.run as).state = .pure x ∧ R x (K.after s (p.machine.run as).trace) := by
  suffices hrun : ∀ (q : Program Call Ans Out α) as, p.machine.AllSteps (K.Answers s) as →
      (p.machine.run as).state = q.settle.1 →
      K.reaches q.settle.1 R (K.after s (p.machine.run as).trace) →
      ∃ as x, p.machine.AllSteps (K.Answers s) as ∧ (p.machine.run as).state = .pure x ∧
        R x (K.after s (p.machine.run as).trace) from
    hrun p [] (Machine.allSteps_nil _ _) rfl (reaches_settle h)
  intro q
  -- One answer, which takes the program to the next call of `q`.
  have hanswer : ∀ {as : List Ans} {c : Call} {a : Ans} {k : Program Call Ans Out α},
      p.machine.AllSteps (K.Answers s) as → (p.machine.run as).state.pending = some c →
      (p.machine.run as).state.resume a = k.settle →
      K.rely (K.after s (p.machine.run as).trace) c a →
      K.reaches k R (K.observe (K.after s (p.machine.run as).trace) (.call c a)) →
      p.machine.AllSteps (K.Answers s) (as ++ [a]) ∧
        (p.machine.run (as ++ [a])).state = k.settle.1 ∧
        K.reaches k.settle.1 R (K.after s (p.machine.run (as ++ [a])).trace) := by
    intro as c a k hsteps hc hk ha hreach
    have hcall : p.machine.pending (p.machine.run as).state = some c := hc
    have hresume : p.machine.resume (p.machine.run as).state a = k.settle := hk
    rw [Machine.allSteps_concat, Machine.run_concat, Machine.step_of_pending hcall, Machine.answer,
      hresume]
    refine ⟨⟨hsteps, fun c' hc' => ?_⟩, rfl, ?_⟩
    · obtain rfl : c = c' := Option.some.inj (hc.symm.trans hc')
      exact ha
    · simpa [after] using reaches_settle hreach
  induction q with
  | pure x => exact fun as hsteps hstate hreach => ⟨as, x, hsteps, hstate, hreach⟩
  | emit o k ih => exact fun as hsteps hstate hreach => ih as hsteps hstate hreach
  | ask c k ih =>
      intro as hsteps hstate hreach
      obtain ⟨a, ha, hnext⟩ := hreach
      obtain ⟨hsteps', hstate', hreach'⟩ := hanswer hsteps (c := c) (k := k a)
        (by rw [hstate]; rfl) (by rw [hstate]; rfl) ha hnext
      exact ih a _ hsteps' hstate' hreach'
  | spin c again k ih =>
      intro as hsteps hstate hreach
      obtain ⟨a, ha, hend, hnext⟩ := hreach
      obtain ⟨hsteps', hstate', hreach'⟩ := hanswer hsteps (c := c) (k := k a)
        (by rw [hstate]; rfl) (by rw [hstate]; exact if_neg (by simp [hend])) ha hnext
      exact ih a _ hsteps' hstate' hreach'

end Reach

end Contract

end Reactive
