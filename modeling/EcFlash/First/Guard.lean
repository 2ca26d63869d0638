import EcFlash.First.Args
import EcFlash.First.Outcome

/-!
# The guard

Flashing the wrong file ruins the EC, so the program compares the file with the EC that
is running before it changes anything: unless `-nid` is given, nothing but the two
version queries goes out when the file has another size than the ROM or another
identification than the EC.
-/

namespace EcFlash
namespace First

open Reactive

/-- The file may be flashed to an EC that identifies itself as `id`. -/
def Admits (opts : Options) (img : Image) (id : Byte) : Prop :=
  opts.ignoreNid = true ∨ img.size = 0x20000 ∧ img.byte? 0x4000 = some id

/-- A version query. -/
def Query (c : Call) : Prop :=
  c.cmd = cmdReadIdVerA ∨ c.cmd = cmdReadIdVerB

/-- The variables behind the first version query. -/
def identified (opts : Options) (img : Image) (r : Byte × Byte) : Locals :=
  (afterIdVerA { openRom opts img with resp := r }).1.vars

/-- What every run keeps about the guard. -/
structure Guarding (opts : Options) (img : Image) (cfg : Moment) : Prop where
  first : cfg.state.pc = .readIdVerA →
    cfg.state.vars = openRom opts img ∧ exchanges cfg.trace = []
  second : cfg.state.pc = .readIdVerB → ∃ c r, exchanges cfg.trace = [(c, some r)] ∧
    cfg.state.vars = identified opts img r
  behind : (∃ c ∈ issued cfg, ¬ Query c) →
    ∃ c r rest, exchanges cfg.trace = (c, some r) :: rest ∧ Admits opts img r.1

section Step

variable {opts : Options} {img : Image} {cfg : Moment} {c : Call} {a : Transfer}

/-- What the guard tests: `fread` has put the identification of the file in front. -/
theorem broken_iff (opts : Options) (img : Image) (r : Byte × Byte) :
    ((identified opts img r).ctx.romHdr.getD 0 0#8 ≠ (identified opts img r).ctx.ramId ∨
      (identified opts img r).ctx.fileSize ≠ romExpectedSize) ∧
      (identified opts img r).ctx.ignoreNid = false ↔ ¬ Admits opts img r.1 := by
  have hsize : BitVec.ofNat 32 img.size = romExpectedSize ↔ img.size = 0x20000 := by
    have hlt := img.size_lt
    constructor
    · intro h
      have hnat := congrArg BitVec.toNat h
      simp [romExpectedSize] at hnat
      omega
    · rintro h
      rw [h]
      rfl
  have hheader : (identified opts img r).ctx.romHdr.getD 0 0#8 = (img.byte? 0x4000).getD 0#8 := rfl
  show (_ ≠ r.1 ∨ BitVec.ofNat 32 img.size ≠ romExpectedSize) ∧ opts.ignoreNid = false ↔ _
  rw [hheader, ne_eq, ne_eq, hsize]
  unfold Admits Image.byte?
  cases opts.ignoreNid with
  | true => simp
  | false =>
      by_cases h : img.size = 0x20000
      · simp [h]
      · simp [h]

/-- Behind the second query the guard decides. -/
theorem resume_second (opts : Options) (img : Image) (r : Byte × Byte) (a : Transfer) :
    (pending (resume ⟨.readIdVerB, identified opts img r⟩ a).1).toList = [] ∨
      Admits opts img r.1 := by
  cases a with
  | none => exact .inl rfl
  | some r' =>
      by_cases hadmits : Admits opts img r.1
      · exact .inr hadmits
      · have hbroken := (broken_iff opts img r).mpr hadmits
        left
        simp only [resume, onRead, afterIdVerB, romGuard]
        rw [if_pos hbroken]
        rfl

theorem query_of_first {s : State} (hc : pending s = some c)
    (h : s.pc = .readIdVerA ∨ s.pc = .readIdVerB) : Query c := by
  unfold Query
  rw [pending_cmd hc]
  rcases h with h | h <;> rw [h]
  · exact .inl rfl
  · exact .inr rfl

/-- Every other call is behind the guard. -/
theorem not_query (hc : pending cfg.state = some c) (hfirst : cfg.state.pc ≠ .readIdVerA)
    (hsecond : cfg.state.pc ≠ .readIdVerB) : ¬ Query c := by
  unfold Query
  rw [pending_cmd hc]
  cases hpc : cfg.state.pc <;> simp_all [Pc.command] <;> decide

/-- The points of the two version queries. -/
def Pc.queries : Pc → Bool
  | .readIdVerA | .readIdVerB => true
  | _ => false

theorem queries_of_handshake {pc : Pc} (h : pc.handshake = false) : pc.queries = false := by
  cases pc <;> simp_all [Pc.handshake, Pc.queries]

theorem behind_queries {t : State} {P : Prop} (h : t.pc.queries = false) :
    t.pc ≠ .readIdVerA ∧ (t.pc = .readIdVerB → P) := by
  constructor
  · intro hpc
    simp [hpc, Pc.queries] at h
  · intro hpc
    simp [hpc, Pc.queries] at h

/-- The first query is made once, and the second one behind its reply. -/
theorem resume_queries (hc : pending cfg.state = some c) (a : Transfer) :
    (resume cfg.state a).1.pc ≠ .readIdVerA ∧
      ((resume cfg.state a).1.pc = .readIdVerB → cfg.state.pc = .readIdVerA ∧ ∃ r, a = some r ∧
        (resume cfg.state a).1.vars = (afterIdVerA { cfg.state.vars with resp := r }).1.vars) := by
  cases hhand : cfg.state.pc.handshake with
  | false => exact behind_queries (queries_of_handshake (resume_handshake hhand a))
  | true =>
      cases a with
      | none =>
          rw [resume_none hc]
          exact behind_queries rfl
      | some r =>
          rcases hs : cfg.state with ⟨pc, l⟩
          rw [hs] at hhand
          change pc.handshake = true at hhand
          cases pc with
          | readIdVerA => exact ⟨of_decide_eq_false rfl, fun _ => ⟨rfl, r, rfl, rfl⟩⟩
          | readIdVerB =>
              simp only [resume, onRead, afterIdVerB, romGuard]
              split <;> exact behind_queries rfl
          | readStatus =>
              simp only [resume, onRead, afterStatus, choosePhase]
              split <;> split <;> exact behind_queries rfl
          | setOffset => exact behind_queries (queries_of_handshake (loopHead_handshake l))
          | readBaseOff | phaseCtrl => exact behind_queries rfl
          | _ => simp [Pc.handshake] at hhand

/-- One answered call keeps the guard. -/
theorem guarding_answer (h : Guarding opts img cfg) (hc : pending cfg.state = some c)
    (a : Transfer) : Guarding opts img ((main opts img).answer cfg c a) := by
  have hissued : issued ((main opts img).answer cfg c a) =
      issued cfg ++ (pending (resume cfg.state a).1).toList := by
    unfold issued
    rw [Machine.calls_answer, hc]
    rfl
  obtain ⟨hnotFirst, hsecond⟩ := resume_queries hc a
  constructor
  · exact fun hpc => absurd hpc hnotFirst
  · intro hpc
    obtain ⟨hfirst, r, rfl, hvars⟩ := hsecond hpc
    obtain ⟨hopen, hnil⟩ := h.first hfirst
    refine ⟨c, r, by rw [Machine.exchanges_answer, hnil]; rfl, ?_⟩
    show (resume cfg.state (some r)).1.vars = _
    rw [hvars, hopen]
    rfl
  · rintro ⟨d, hd, hquery⟩
    rw [hissued, List.mem_append] at hd
    rw [Machine.exchanges_answer]
    rcases hd with hd | hd
    · obtain ⟨c₀, r, rest, hxs, hadmits⟩ := h.behind ⟨d, hd, hquery⟩
      exact ⟨c₀, r, rest ++ [(c, a)], by rw [hxs]; rfl, hadmits⟩
    · -- The call that the answer leads to is the first one that is no query.
      by_cases hother : Query c
      · have hfirst : cfg.state.pc = .readIdVerA ∨ cfg.state.pc = .readIdVerB := by
          by_contra hno
          rw [not_or] at hno
          exact not_query hc hno.1 hno.2 hother
        rcases hfirst with hpc | hpc
        · cases a with
          | none => simp [resume_none hc, pending] at hd
          | some r =>
              have hnext : (resume cfg.state (some r)).1.pc = .readIdVerB := by
                simp [resume, hpc, onRead, afterIdVerA, goto]
              rw [Option.mem_toList] at hd
              refine absurd ?_ hquery
              exact query_of_first hd (.inr hnext)
        · obtain ⟨c₀, r, hxs, hvars⟩ := h.second hpc
          have hstate : cfg.state = ⟨.readIdVerB, identified opts img r⟩ := by
            rw [← hpc, ← hvars]
          rw [hstate] at hd
          refine ⟨c₀, r, [(c, a)], by rw [hxs]; rfl, ?_⟩
          exact (resume_second opts img r a).resolve_left (List.ne_nil_of_mem hd)
      · obtain ⟨c₀, r, rest, hxs, hadmits⟩ := h.behind
          ⟨c, by simp [issued, hc], hother⟩
        exact ⟨c₀, r, rest ++ [(c, a)], by rw [hxs]; rfl, hadmits⟩

theorem guarding_run (opts : Options) (img : Image) (as : List Transfer) :
    Guarding opts img ((main opts img).run as) := by
  refine Machine.run_invariant (P := Guarding opts img) ?_ ?_ as
  · refine ⟨fun _ => ⟨rfl, rfl⟩, nofun, ?_⟩
    rintro ⟨c, hc, hquery⟩
    -- Nothing is called yet, and the first query is waited on.
    have hcall : c ∈ [(⟨cmdReadIdVerA, 0#8, 0#8, 0⟩ : Call)] := hc
    rw [List.mem_singleton] at hcall
    exact absurd (.inl (by rw [hcall])) hquery
  · exact fun cfg c a h hc => guarding_answer h hc a

end Step

/-- Whatever the EC answers, a command line makes nothing but the two version queries
unless it has `-nid` or names a file of the size of the ROM that bears the
identification the EC has given. -/
theorem program_guarded {fs : CString → Option Image} {argv : List CString}
    {m : Machine Call Transfer Out State} (hm : program fs argv = .ok m) (as : List Transfer)
    {c : Call} (hc : c ∈ issued (m.run as)) (hquery : ¬ Query c) :
    occurs .nid argv.tail = true ∨ ∃ f img c₀ r rest, lastFile? argv.tail = some f ∧
      fs (fileName f) = some img ∧ exchanges (m.run as).trace = (c₀, some r) :: rest ∧
      img.size = 0x20000 ∧ img.byte? 0x4000 = some r.1 := by
  have htarget := start_target? argv
  unfold program at hm
  cases hstart : start argv with
  | exits rc =>
      rw [hstart] at hm
      cases hm
  | opens file opts =>
      rw [hstart] at hm htarget
      cases hfile : fs file with
      | none => simp [Start.run, hfile] at hm
      | some img =>
          obtain rfl : main opts img = m := by simpa [Start.run, hfile] using hm
          -- The file and the settings are those of the command line.
          cases hlast : lastFile? argv.tail with
          | none => simp [Start.target?, hlast] at htarget
          | some f =>
              by_cases hempty : f = .empty
              · simp [Start.target?, hlast, hempty] at htarget
              · obtain ⟨rfl, rfl⟩ : file = fileName f ∧ opts = settings argv.tail := by
                  simpa [Start.target?, hlast, hempty] using htarget
                obtain ⟨c₀, r, rest, hxs, hadmits⟩ := (guarding_run _ img as).behind ⟨c, hc, hquery⟩
                rcases hadmits with hnid | ⟨hsize, hbyte⟩
                · exact .inl hnid
                · exact .inr ⟨f, img, c₀, r, rest, rfl, hfile, hxs, hsize, hbyte⟩

/-- `EC_flash ec.rom` -/
def plainArgv : List CString :=
  [programName, romName]

/-- An EC with the identification of the file gets the phase. -/
theorem program_guarded_matching :
    let m := main (settings plainArgv.tail) sampleImage
    let as := handshakeReplies 0x80#8 0#8 0#8
    (⟨cmdPhaseCtrl, phaseNormal, 0#8, 2⟩ ∈ issued (m.run as)) ∧
      (occurs .nid plainArgv.tail = true ∨ ∃ f img c₀ r rest,
        lastFile? plainArgv.tail = some f ∧ some sampleImage = some img ∧
        exchanges (m.run as).trace = (c₀, some r) :: rest ∧
        img.size = 0x20000 ∧ img.byte? 0x4000 = some r.1) :=
  have hm : program (fun _ => some sampleImage) plainArgv =
      .ok (main (settings plainArgv.tail) sampleImage) := rfl
  have hcall : (⟨cmdPhaseCtrl, phaseNormal, 0#8, 2⟩ : Call) ∈
      issued ((main (settings plainArgv.tail) sampleImage).run
        (handshakeReplies 0x80#8 0#8 0#8)) := by decide +kernel
  ⟨hcall, program_guarded hm _ hcall (by unfold Query; decide)⟩

end First
end EcFlash
