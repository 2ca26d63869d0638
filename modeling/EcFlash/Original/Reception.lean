import EcFlash.First.Crossed
import EcFlash.Original.Delivery
import EcFlash.Original.Nodes

/-!
# What the EC gets

From the bytes at the device nodes on: an EC that reads a frame as the original lays it
out gets the image from the original.  The first implementation sends the payload bytes
the other way round.  Against an EC that goes on only when a block is stored it gets past
the accidental blocks and no other.
-/

namespace EcFlash
namespace Original

open Reactive

/-- What the accesses of a run of the original do at the nodes.  What is sent does not
depend on the reply buffer. -/
def passages {Out : Type} (tr : List (Event Call Surroundings Out)) : List Passage :=
  (exchanges tr).map fun x =>
    ⟨(kbcCmdDatas x.2.stack x.1 (0#8, 0#8) x.2.answer).sent, x.2.answer.delivers⟩

/-- What those of the first implementation do. -/
def firstPassages {Out : Type} (tr : List (Event Call Surroundings Out)) : List Passage :=
  (exchanges tr).map fun x =>
    ⟨(First.kbcCmdDatas x.1 (0#8, 0#8) x.2.answer).sent, x.2.answer.delivers⟩

/-- The EC answers `1`. -/
def Grants (e : Surroundings) : Prop :=
  e.answer.delivers.head? = some 1#8

section Access

variable {c : Call} {e : Surroundings}

/-- The calls of the original. -/
theorem pending_ordinary {t : State} (hc : pending t = some c) : c.Ordinary := by
  rcases t with ⟨pc, m⟩
  cases pc <;> simp only [pending, Option.some.injEq, reduceCtorEq] at hc
  all_goals rw [← hc]; simp only [Call.Ordinary]; decide

theorem first_pending_ordinary {s : First.State} (hc : First.pending s = some c) :
    c.Ordinary := by
  rcases s with ⟨pc, l⟩
  cases pc <;> simp only [First.pending, Option.some.injEq, reduceCtorEq] at hc
  all_goals rw [← hc]; simp only [Call.Ordinary]; decide

/-- The EC hears the call that the original makes. -/
theorem heardAs_serve (hordinary : c.Ordinary) (h : e.answer.Complete) (t : State) :
    ∃ x, Passage.call? ⟨(kbcCmdDatas e.stack c (0#8, 0#8) e.answer).sent, e.answer.delivers⟩ =
      some x ∧ HeardAs x (c, serve t c e) := by
  obtain ⟨b0, b1, hdelivers, hread⟩ := h.exists_readNode
  unfold serve kbcCmdDatas
  by_cases hmode : c.mode ≤ 0
  · rw [if_pos hmode, if_pos hmode, readEcDevice, readEcDevice, hread, hread, hdelivers]
    exact heardAs_read hordinary (by omega) b0 b1
  · have hone : c.mode ≠ 1 := by
      rcases hordinary with ⟨hmode, -⟩ | ⟨hmode, -⟩ <;> omega
    rw [if_neg hmode, if_neg hmode, writeEcDevice, writeEcDevice, h.writeNode_eq, h.writeNode_eq,
      bytesFrom_buildFrame, if_neg hone]
    exact heardAs_write hordinary (by omega) _ _

/-- From the first implementation it hears the call crossed. -/
theorem heardAs_firstServe (hordinary : c.Ordinary) (h : e.answer.Complete) (s : First.State) :
    ∃ x, Passage.call? ⟨(First.kbcCmdDatas c (0#8, 0#8) e.answer).sent, e.answer.delivers⟩ =
      some x ∧ HeardAs x (c.crossed, firstServe s c e) := by
  obtain ⟨b0, b1, hdelivers, hread⟩ := h.exists_readNode
  have hcrossed : c.crossed.Ordinary := hordinary
  unfold firstServe First.kbcCmdDatas
  by_cases hmode : c.mode < 1
  · rw [if_pos hmode, if_pos hmode, First.readEcDevice, First.readEcDevice, hread, hread, hdelivers]
    exact heardAs_read hcrossed hmode b0 b1
  · have hone : c.mode ≠ 1 := by
      rcases hordinary with ⟨hmode, -⟩ | ⟨hmode, -⟩ <;> omega
    rw [if_neg hmode, if_neg hmode, First.writeEcDevice, First.writeEcDevice, h.writeNode_eq,
      h.writeNode_eq, First.writeFrame, if_neg hone]
    exact heardAs_write hcrossed (by change 1 ≤ c.mode; omega) _ _

end Access

/-- A complete access is served, a read with what is delivered for it. -/
structure ServesComplete {State : Type} (serve : State → Call → Surroundings → Transfer) :
    Prop where
  ne_none : ∀ s c e, e.answer.Complete → serve s c e ≠ none
  read : ∀ s c e, e.answer.Complete → c.mode < 1 →
    (serve s c e).map Prod.fst = e.answer.delivers.head?

theorem servesComplete_serve : ServesComplete serve where
  ne_none t c e h := by
    obtain ⟨b0, b1, -, hread⟩ := h.exists_readNode
    unfold serve kbcCmdDatas
    split
    · rw [readEcDevice, hread]
      nofun
    · rw [writeEcDevice, h.writeNode_eq]
      nofun
  read t c e h hmode := by
    obtain ⟨b0, b1, hdelivers, hread⟩ := h.exists_readNode
    unfold serve kbcCmdDatas
    rw [if_pos (by omega), readEcDevice, hread, hdelivers]
    rfl

theorem servesComplete_firstServe : ServesComplete firstServe where
  ne_none s c e h := firstServe_ne_none s c h.succeeds
  read s c e h hmode := by
    obtain ⟨b0, b1, hdelivers, hread⟩ := h.exists_readNode
    unfold firstServe First.kbcCmdDatas
    rw [if_pos hmode, First.readEcDevice, hread, hdelivers]
    rfl

section Served

variable {Out State : Type} {m : Machine Call Transfer Out State}
  {serve : State → Call → Surroundings → Transfer} {es : Nat → Surroundings}
  {waits : State → Prop}

/-- The answers of `kbc_cmd_datas` over an EC with complete accesses. -/
def transfers (m : Machine Call Transfer Out State)
    (serve : State → Call → Surroundings → Transfer) (es : Nat → Surroundings) (k : Nat) :
    Transfer :=
  (m.through serve).heardOn (m.served serve (some (0#8, 0#8))) es k

theorem transfers_ne_none (hserve : ServesComplete serve) (hcomplete : ∀ k, (es k).answer.Complete)
    (k : Nat) : transfers m serve es k ≠ none := by
  unfold transfers Machine.heardOn Machine.served
  split
  · nofun
  · exact hserve.ne_none _ _ _ (hcomplete k)

/-- An EC that answers `1` to a poll accepts it. -/
theorem responsive_transfers (hserve : ServesComplete serve)
    (hcomplete : ∀ k, (es k).answer.Complete)
    (hwaits : ∀ s, waits s → ∃ c, m.pending s = some c ∧ c.mode < 1)
    (hfair : (m.through serve).Responsive waits Grants es) :
    m.Responsive waits First.Accepts (transfers m serve es) := by
  refine (Machine.hears_served m serve _).responsive hfair fun s k hpoll hgrants => ?_
  obtain ⟨c, hc, hmode⟩ := hwaits s hpoll
  rw [Machine.served_of_pending hc]
  exact (hserve.read s c _ (hcomplete k) hmode).trans hgrants

/-- A run over the nodes, and what the EC hears of it: the calls of the run on those
answers, each as `view` has it. -/
theorem heardAs_transfers {sent : Call → Surroundings → List Byte} {view : Call → Call}
    (hheard : ∀ s c e, m.pending s = some c → e.answer.Complete →
      ∃ x, Passage.call? ⟨sent c e, e.answer.delivers⟩ = some x ∧ HeardAs x (view c, serve s c e))
    (hcomplete : ∀ k, (es k).answer.Complete) (n : Nat) :
    let low := (m.through serve).run ((List.range n).map es)
    let high := m.run ((List.range n).map (transfers m serve es))
    high.state = low.state ∧ List.Forall₂ HeardAs
      (understood ((exchanges low.trace).map fun x => ⟨sent x.1 x.2, x.2.answer.delivers⟩))
      ((exchanges high.trace).map fun y => (view y.1, y.2)) := by
  refine ⟨Machine.state_heardOn (Machine.hears_served m serve _) es n, ?_⟩
  have hpairs := Machine.exchanges_heard (P := fun e => e.answer.Complete)
    (Machine.hears_served m serve (some (0#8, 0#8))) ((List.range n).map es) (by simp [hcomplete])
  rw [Machine.heard_heardOn] at hpairs
  apply understood_heardAs
  rw [List.forall₂_map_left_iff, List.forall₂_map_right_iff]
  refine hpairs.imp ?_
  rintro ⟨c, e⟩ ⟨-, -⟩ ⟨rfl, hanswer, s, hc, rfl⟩
  show ∃ x, _ ∧ HeardAs x (view c, m.served serve _ s e)
  rw [Machine.served_of_pending hc]
  exact hheard s c e hc hanswer

end Served

/-- With an EC behind the nodes that fits, and reads frames as the original writes them,
the original returns `0`, and the EC has got the blocks of the image, when all accesses
are complete and the boot block is left out. -/
theorem nodes_deliver (opts : First.Options) (hbbl : opts.includeBootloader = false)
    (img : Image) (hsize : img.size = 0x20000) (slots : Slots) (es : Nat → Surroundings)
    (hcomplete : ∀ k, (es k).answer.Complete)
    (hadmits : opts.ignoreNid = true ∨ (es 0).answer.delivers.head? = img.byte? 0x4000)
    (hfair : (overNodes opts img slots).Responsive (fun t => t.pc = .kbc8fc0) Grants es) :
    ∃ n,
      let cfg := (overNodes opts img slots).run ((List.range n).map es)
      let xs := understood (passages cfg.trace)
      let start := (First.reportedBaseOffset xs).toNat
      cfg.state.pc = .exited 0 ∧ ∀ pos, (received xs).flash pos =
        if start ≤ pos ∧ pos < start + 32 * ((0x1C000 - start + 31) / 32) then img.byte? pos
        else none := by
  have hok := transfers_ne_none (m := main opts img slots) servesComplete_serve hcomplete
  have hfirst : (transfers (main opts img slots) serve es 0).map Prod.fst =
      (es 0).answer.delivers.head? :=
    servesComplete_serve.read _ _ _ (hcomplete 0) Int.zero_lt_one
  have hresponsive := responsive_transfers (m := main opts img slots) servesComplete_serve hcomplete
    (fun t hpoll => by simp [main, pending, hpoll]) hfair
  obtain ⟨n, hexit, hflash⟩ := exists_delivered hbbl hsize hok (by rwa [hfirst]) hresponsive
  obtain ⟨hstate, hheard⟩ := heardAs_transfers (m := main opts img slots)
    (fun t c e hc hcomplete => heardAs_serve (pending_ordinary hc) hcomplete t) hcomplete n
  rw [List.map_id'] at hheard
  refine ⟨n, ?_⟩
  intro cfg xs start
  have hreceived : received xs = _ := received_of_heardAs hheard
  have hstart : First.reportedBaseOffset xs = _ := First.reportedBaseOffset_of_heardAs hheard
  change _ = cfg.state at hstate
  rw [← hstate]
  refine ⟨hexit, fun pos => ?_⟩
  simp only [start, hreceived, hstart]
  exact hflash pos

/-- An EC that answers everything with `1` and `0`. -/
def acceptingEc : Surroundings :=
  ⟨⟨true, some (Fin.last 1), some (Fin.last 3), true, .two 1#8 0#8⟩, fun _ => 0#8⟩

theorem complete_acceptingEc : acceptingEc.answer.Complete :=
  ⟨rfl, rfl, rfl, rfl, 1#8, 0#8, rfl⟩

theorem nodes_deliver_accepting :
    ∃ n,
      let opts := { First.sampleOptions false with ignoreNid := true }
      let cfg := (overNodes opts First.sampleImage (sampleSlots First.sampleImage)).run
        ((List.range n).map fun _ => acceptingEc)
      let xs := understood (passages cfg.trace)
      let start := (First.reportedBaseOffset xs).toNat
      cfg.state.pc = .exited 0 ∧ ∀ pos, (received xs).flash pos =
        if start ≤ pos ∧ pos < start + 32 * ((0x1C000 - start + 31) / 32) then
          First.sampleImage.byte? pos
        else none := by
  exact nodes_deliver _ rfl _ rfl _ (fun _ => acceptingEc) (fun _ => complete_acceptingEc)
    (.inl rfl) (Machine.responsive_of_eventually 0 fun _ _ => rfl)

/-- The first implementation, and an EC that is truthful: whatever is in the EC comes from
accidental blocks, counted from the swapped base offset on, with their bytes swapped pair
by pair.  The program gets past no other block, and when there is one in front of the last
it does not end. -/
theorem nodes_stall (opts : First.Options) (hbbl : opts.includeBootloader = false)
    (img : Image) (hsize : img.size = 0x20000) (es : Nat → Surroundings)
    (hcomplete : ∀ k, (es k).answer.Complete)
    (hadmits : opts.ignoreNid = true ∨ (es 0).answer.delivers.head? = img.byte? 0x4000)
    (n : Nat) (htruthful : Truthful (understood (firstPassages
      ((firstOverNodes opts img).run ((List.range n).map es)).trace))) :
    let cfg := (firstOverNodes opts img).run ((List.range n).map es)
    let xs := understood (firstPassages cfg.trace)
    let start := (First.reportedBaseOffset xs).toNat
    (∀ pos b, (received xs).flash pos = some b → swapWord start ≤ pos ∧
        (∀ t, t ≤ (pos - swapWord start) / 32 → First.Accidental img start t) ∧
        img.byte? (start + partner (pos - swapWord start)) = some b) ∧
      ∀ t, ¬ First.Accidental img start t → cfg.state.vars.temp.toNat ≤ t ∧
        (t + 1 < (0x1C000 - start + 31) / 32 →
          (firstOverNodes opts img).pending cfg.state ≠ none) := by
  intro cfg xs start
  have hok := transfers_ne_none (m := First.main opts img) servesComplete_firstServe hcomplete
  have hfirst : (transfers (First.main opts img) firstServe es 0).map Prod.fst =
      (es 0).answer.delivers.head? :=
    servesComplete_firstServe.read _ _ _ (hcomplete 0) Int.zero_lt_one
  obtain ⟨hstate, hheard⟩ := heardAs_transfers (m := First.main opts img)
    (fun s c e hc hcomplete => heardAs_firstServe (first_pending_ordinary hc) hcomplete s)
    hcomplete n
  change _ = cfg.state at hstate
  have htruthful' := truthful_of_heardAs hheard htruthful
  have hreceived : received xs = received (crossed _) := received_of_heardAs hheard
  have hstart : First.reportedBaseOffset xs = First.reportedBaseOffset (crossed _) :=
    First.reportedBaseOffset_of_heardAs hheard
  rw [First.reportedBaseOffset_crossed] at hstart
  simp only [start, hreceived, hstart, ← hstate]
  refine ⟨fun pos b => First.crossed_flash opts hsize hbbl htruthful', fun t hdropped => ?_⟩
  refine ⟨First.temp_le_of_dropped opts hsize hbbl htruthful' hdropped, fun ht hstopped => ?_⟩
  have hpc := First.returned_of_stopped opts hsize hok (by rwa [hfirst]) hstopped
  exact hdropped (First.accidental_of_returned opts hsize hbbl htruthful' hpc ht)

/-- An EC that is ready for the first block, and asks for it again and again. -/
def droppingEc (k : Nat) : Surroundings :=
  ⟨⟨true, some (Fin.last 1), some (Fin.last 3), true, .two (if k = 6 then 1#8 else 2#8) 0#8⟩,
    fun _ => 0#8⟩

theorem nodes_stall_dropping :
    let cfg := (firstOverNodes { First.sampleOptions false with ignoreNid := true }
      First.sampleImage).run ((List.range 45).map droppingEc)
    let xs := understood (firstPassages cfg.trace)
    let start := (First.reportedBaseOffset xs).toNat
    (∀ pos b, (received xs).flash pos = some b → swapWord start ≤ pos ∧
        (∀ t, t ≤ (pos - swapWord start) / 32 → First.Accidental First.sampleImage start t) ∧
        First.sampleImage.byte? (start + partner (pos - swapWord start)) = some b) ∧
      ∀ t, ¬ First.Accidental First.sampleImage start t → cfg.state.vars.temp.toNat ≤ t ∧
        (t + 1 < (0x1C000 - start + 31) / 32 →
          (firstOverNodes { First.sampleOptions false with ignoreNid := true }
            First.sampleImage).pending cfg.state ≠ none) := by
  exact nodes_stall _ rfl _ rfl droppingEc (fun _ => ⟨rfl, rfl, rfl, rfl, _, _, rfl⟩) (.inl rfl) 45
    (by decide +kernel)

end Original
end EcFlash
