import Mathlib.Algebra.Group.Int.Defs
import EcFlash.First.Invariant

/-!
# The block counter never wraps

For every image and every base offset, also one beyond the end of the file, the
loop ends before the 32-bit block counter wraps.  While it runs, every value that
`remaining` has had is either the one at the base offset or above the cut-off,
and going down in steps of 32 it would otherwise pass the last 64 values before
zero within `2 ^ 27` steps.
-/

namespace EcFlash
namespace First

open Reactive

/-- What is left to flash after `n` replies `1`, before the cut-off. -/
def leftAfter (l : Locals) (n : Nat) : Word :=
  l.ctx.fileSize - startOffset l - blockSize * BitVec.ofNat 32 n

/-- Every value of `remaining` so far let the loop go on. -/
def Above (xs : Exchanges) (l : Locals) : Prop :=
  ∀ m, 1 ≤ m → m ≤ ackCount xs →
    leftAfter l m = l.ctx.fileSize - l.baseOffset ∨ ¬ leftAfter l m < 0x4001#32

section Bound

variable {opts : Options} {img : Image} {xs ys : Exchanges} {s : State} {l l' : Locals} {c : Call}

theorem leftAfter_toNat (l : Locals) (n : Nat) :
    ((leftAfter l n).toNat : Int) =
      ((l.ctx.fileSize - startOffset l).toNat - 32 * n) % 2 ^ 32 := by
  unfold leftAfter
  rw [BitVec.toNat_sub, BitVec.toNat_mul]
  simp only [blockSize, BitVec.toNat_ofNat]
  omega

/-- Two values below the cut-off lie within `2 ^ 27` steps, and only one of them
can be the one at the base offset. -/
theorem Above.lt (h : Above xs l) : ackCount xs < 2 ^ 27 := by
  by_contra hge
  have harea := (l.ctx.fileSize - startOffset l).isLt
  -- The steps at which 0 to 31 and 32 to 63 bytes are left.
  obtain ⟨m₁, hlow₁, hhigh₁, hleft₁⟩ : ∃ m₁, 1 ≤ m₁ ∧ m₁ ≤ 2 ^ 27 ∧
      (leftAfter l m₁).toNat = (l.ctx.fileSize - startOffset l).toNat % 32 := by
    by_cases hq : 1 ≤ (l.ctx.fileSize - startOffset l).toNat / 32
    · refine ⟨_, hq, by omega, ?_⟩
      have := leftAfter_toNat l ((l.ctx.fileSize - startOffset l).toNat / 32)
      omega
    · refine ⟨2 ^ 27, by omega, by omega, ?_⟩
      have := leftAfter_toNat l (2 ^ 27)
      omega
  obtain ⟨m₂, hlow₂, hhigh₂, hleft₂⟩ : ∃ m₂, 1 ≤ m₂ ∧ m₂ ≤ 2 ^ 27 ∧
      (leftAfter l m₂).toNat = (l.ctx.fileSize - startOffset l).toNat % 32 + 32 := by
    by_cases hq : 2 ≤ (l.ctx.fileSize - startOffset l).toNat / 32
    · refine ⟨(l.ctx.fileSize - startOffset l).toNat / 32 - 1, by omega, by omega, ?_⟩
      have := leftAfter_toNat l ((l.ctx.fileSize - startOffset l).toNat / 32 - 1)
      omega
    · refine ⟨2 ^ 27 + (l.ctx.fileSize - startOffset l).toNat / 32 - 1, by omega, by omega, ?_⟩
      have := leftAfter_toNat l (2 ^ 27 + (l.ctx.fileSize - startOffset l).toNat / 32 - 1)
      omega
  have hcut (m : Nat) (hlow : 1 ≤ m) (hhigh : m ≤ 2 ^ 27) (hsmall : (leftAfter l m).toNat < 64) :
      leftAfter l m = l.ctx.fileSize - l.baseOffset := by
    apply (h m hlow (by omega)).resolve_right
    intro hnot
    apply hnot
    rw [BitVec.lt_def]
    simp only [BitVec.toNat_ofNat]
    omega
  have heq := (hcut m₁ hlow₁ hhigh₁ (by omega)).trans (hcut m₂ hlow₂ hhigh₂ (by omega)).symm
  have := congrArg BitVec.toNat heq
  omega

theorem Above.congr (h : Above xs l) (hacks : ackCount ys = ackCount xs) (hctx : l'.ctx = l.ctx)
    (hbase : l'.baseOffset = l.baseOffset) : Above ys l' := by
  intro m hlow hhigh
  rw [hacks] at hhigh
  simpa [leftAfter, startOffset, hctx, hbase] using h m hlow hhigh

/-- The cut-off leaves only values above it. -/
theorem above_advance (h : Above xs l) (hleft : l.remaining = left xs l)
    (hc : c.cmd = cmdPollProgress) (hne : (advance l).remaining ≠ 0#32) :
    Above (xs ++ [(c, some l.resp)]) (advance l) := by
  by_cases hr : l.resp.1 = 1#8
  · intro m hlow hhigh
    rw [ackCount_poll hc, if_pos hr] at hhigh
    by_cases hold : m ≤ ackCount xs
    · simpa [leftAfter] using h m hlow hold
    · have hm : m = ackCount xs + 1 := by omega
      have hnext : leftAfter l m = l.remaining - blockSize := by
        rw [hm, hleft, leftAfter, left, BitVec.ofNat_add]
        simp only [blockSize]
        grind
      have hsame : leftAfter (advance l) m = leftAfter l m := by simp [leftAfter]
      rw [hsame, hnext, advance_ctx, advance_baseOffset]
      simp only [advance, hr, if_true] at hne
      -- At the base offset, below the cut-off, or above it.
      split at hne
      · rename_i heq
        exact .inl heq.symm
      · split at hne
        · exact absurd rfl hne
        · rename_i hcut
          exact .inr hcut
  · have hacks : ackCount (xs ++ [(c, some l.resp)]) = ackCount xs := by
      simp [ackCount_poll hc, hr]
    exact h.congr hacks (advance_ctx l) (advance_baseOffset l)

/-- What one answered call keeps: inside the loop the values are above the
cut-off, and the number of replies `1` is bounded. -/
def Bounded (xs : Exchanges) (s : State) : Prop :=
  (s.pc.looping = true → s.vars.remaining ≠ 0#32 → Above xs s.vars) ∧ ackCount xs ≤ 2 ^ 27

theorem bounded_resume (hinv : Inv opts img xs s) (h : Bounded xs s) (hc : pending s = some c)
    (a : Transfer) : Bounded (xs ++ [(c, a)]) (resume s a).1 := by
  obtain ⟨habove, hbound⟩ := h
  constructor
  · apply loop_resume (F := Above) _ _ _ hinv habove hc a
    · exact fun h hacks hctx hbase _ => h.congr hacks hctx hbase
    · -- The loop is entered with no poll answered yet.
      intro hset _ m hlow hhigh
      have hpolls := (hinv.handshake (by simp [hset, Pc.handshake])).1
      simp [ackCount, hpolls] at hhigh
      omega
    · intro r hpoll hne hnow _ hnext
      have hleft := (hinv.counted (by simp [hpoll, Pc.counting, Pc.looping])).eq_left hne
      exact above_advance (l := { s.vars with resp := r }) hnow hleft (cmd_of_poll hc hpoll) hnext
  -- Only a poll counts, and a value above the cut-off leaves room for one more.
  · by_cases hpoll : s.pc = .poll
    · obtain ⟨hne, -⟩ := hinv.waiting (by simp [hpoll, Pc.looping])
        (by simp [hpoll, Pc.streaming])
      have hlt := (habove (by simp [hpoll, Pc.looping]) hne).lt
      cases a with
      | none =>
          rw [ackCount_failed]
          exact hbound
      | some r =>
          rw [ackCount_poll (cmd_of_poll hc hpoll)]
          split <;> omega
    · rw [ackCount_of_ne_poll hc hpoll a]
      exact hbound

/-- In every run at most `2 ^ 27` polls are answered `1`. -/
theorem bounded_run (opts : Options) (img : Image) (as : List Transfer) :
    Bounded (exchanges ((main opts img).run as).trace) ((main opts img).run as).state := by
  refine Machine.run_invariant_under (I := fun cfg => Inv opts img (exchanges cfg.trace) cfg.state)
    (P := fun cfg => Bounded (exchanges cfg.trace) cfg.state) (inv_run opts img) ?_ ?_ as
  · exact ⟨nofun, by simp [main, Machine.initial, goto, exchanges]⟩
  · intro cfg c a hinv h hc
    rw [Machine.exchanges_answer]
    exact bounded_resume hinv h hc a

end Bound

end First
end EcFlash
