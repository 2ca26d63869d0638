import EcFlash.ByteMemory
import EcFlash.Original.Refinement
import EcFlash.Second.Args

/-!
# The argument loop of the original

`<main>` of `EC_flash.asm` from its entry to the opened file, `8894` to `8bc4`.  Each
argument is lower-cased in place and copied with `strcpy` into the 80 bytes from
`fp-128` on; above them lie the mode at `fp-48`, the loop index at `fp-44` and the flag
at `fp-35`, so a longer argument writes over the variables of the loop.  The frame is
bytes, addressed by their distance from `fp-128`, and what it holds at first is a
parameter.
-/

namespace EcFlash
namespace Original

open First (Options)
open Reactive
open ByteMemory (word storeWord storeString)

/-- The slots behind the buffer. -/
def fp48 : Nat := 80
def fp44 : Nat := 84
def fp35 : Nat := 93

/-- What the argument loop works on. -/
structure Parse where
  frame : ByteMemory.Memory
  argv : List CString
  gEraseBlock : Byte
  gBootLoader : Byte
  gNid : Byte
  gOta : Byte
  gFlashSd : Byte
  gFileName : CString

/-- `8944` to `8954`: mode 2. -/
def block8944 (p : Parse) : Parse :=
  { p with frame := Function.update (storeWord p.frame fp48 2#32) fp35 1#8 }

/-- `8984` to `8994`, and again `8acc` to `8adc`: mode 1, unless it is 2. -/
def raise (frame : ByteMemory.Memory) : ByteMemory.Memory :=
  if word frame fp48 = 2#32 then frame else storeWord frame fp48 1#32

/-- `8978` to `8998` -/
def block8978 (p : Parse) : Parse :=
  { p with gBootLoader := 1#8, frame := raise p.frame }

/-- `8abc` to `8ae8`: the file name.  What a name of 80 characters or more writes behind
the 80 bytes of `FileName` is left out. -/
def block8abc (p : Parse) (buffer : CString) : Parse :=
  { p with gFileName := buffer, frame := Function.update (raise p.frame) fp35 1#8 }

/-- `8924` to `8aec`: the chain of comparisons on the copy. -/
def block8924 (p : Parse) (buffer : CString) : Parse :=
  if strncmp optD buffer.bytes 2 = 0 then block8944 p
  else if strncmp optBbl buffer.bytes 4 = 0 then block8978 p
  else if strncmp optE1 buffer.bytes 3 = 0 then { p with gEraseBlock := p.gEraseBlock ||| 1#8 }
  else if strncmp optE2 buffer.bytes 3 = 0 then { p with gEraseBlock := p.gEraseBlock ||| 2#8 }
  else if strncmp optNid buffer.bytes 4 = 0 then { p with gNid := 1#8 }
  else if strncmp optOta buffer.bytes 4 = 0 then { p with gOta := 1#8 }
  else if strncmp optSd buffer.bytes 3 = 0 then { p with gFlashSd := 1#8 }
  else if dash = buffer.first then p
  else block8abc p buffer

/-- `8af0` to `8af8`: the next index. -/
def block8af0 (p : Parse) : Parse :=
  { p with frame := storeWord p.frame fp44 (word p.frame fp44 + 1#32) }

/-- `890c` to `8920`: `strlwr` in place, and `strcpy` to the buffer. -/
def block890c (p : Parse) (i : Nat) (arg : CString) : Parse :=
  { p with argv := p.argv.set i arg.lower, frame := storeString p.frame 0 arg.lower.bytes }

/-- `88f4` to `8af8`: one round of the loop.  There is no argument behind the last
one. -/
def block88f4 (p : Parse) : Option Parse :=
  let i := (word p.frame fp44 <<< 2).toNat / 4
  p.argv[i]?.map fun arg => block8af0 (block8924 (block890c p i arg) arg.lower)

/-- How the loop ends. -/
inductive Looped where
  | left (p : Parse)
  | faults

/-- `8afc` to `8b08`: the loop test, a signed one, with `n` tests left. -/
def block8afc : Nat → Parse → Option Looped
  | 0, _ => none
  | n + 1, p =>
      if (word p.frame fp44).toInt < p.argv.length then
        match block88f4 p with
        | some p => block8afc n p
        | none => some .faults
      else some (.left p)

/-- `8894` to `88f0`: the globals and the three slots at the entry. -/
def entry (stack : ByteMemory.Memory) (argv : List CString) : Parse where
  frame := storeWord (Function.update (storeWord stack fp48 0#32) fp35 0#8) fp44 1#32
  argv := argv
  gEraseBlock := 0#8
  gBootLoader := 0#8
  gNid := 0#8
  gOta := 0#8
  gFlashSd := 0#8
  gFileName := .empty

/-- The settings for the rest of `<main>`. -/
def Parse.options (p : Parse) : Options where
  eraseMask := p.gEraseBlock
  includeBootloader := p.gBootLoader ≠ 0#8
  ignoreNid := p.gNid ≠ 0#8
  otaMode := p.gOta ≠ 0#8
  sdMode := p.gFlashSd ≠ 0#8

/-- `8b0c` to `8b30`: the usage exits with 1, and mode 2 ends at `9334`. -/
def block8b0c (p : Parse) : Start :=
  if p.frame fp35 = 0#8 ∨ word p.frame fp48 = 0#32 then .exits 1
  else if word p.frame fp48 = 1#32 then .opens p.gFileName p.options
  else .exits 0

/-- How `<main>` ends before the version query. -/
inductive Exit where
  | code (rc : Nat)
  | fault

/-- `8b34` to `8bc4`, where `fopen` finds the files `fs`.  The file is read before the
pointer is tested, so `fseek` faults on a file that does not open. -/
def block8b34 (slots : Slots) (fs : CString → Option Image) :
    Start → Except Exit (Machine Call Transfer Out State)
  | .exits rc => .error (.code rc)
  | .opens file opts =>
      match fs file with
      | none => .error .fault
      | some img => .ok (main opts img slots)

/-- `<main>` with `n` tests of the argument loop. -/
def program (n : Nat) (stack : ByteMemory.Memory) (slots : Slots)
    (fs : CString → Option Image) (argv : List CString) :
    Option (Except Exit (Machine Call Transfer Out State)) :=
  (block8afc n (entry stack argv)).map fun
    | .faults => .error .fault
    | .left p => block8b34 slots fs (block8b0c p)

/-- What an argument does in each arm. -/
def Parse.take (p : Parse) (a : CString) : Arg → Parse
  | .dump => block8944 p
  | .bbl => block8978 p
  | .e1 => { p with gEraseBlock := p.gEraseBlock ||| 1#8 }
  | .e2 => { p with gEraseBlock := p.gEraseBlock ||| 2#8 }
  | .nid => { p with gNid := 1#8 }
  | .ota => { p with gOta := 1#8 }
  | .sd => { p with gFlashSd := 1#8 }
  | .file => block8abc p a.lower
  | .dropped => p

/-! ## Arguments that fit into the buffer -/

/-- What the frame and the globals say about the variables of the second
implementation, in front of argument `i`. -/
structure Shows (p : Parse) (q : Second.Parse) (i : Nat) : Prop where
  mode : (word p.frame fp48).toNat = q.mode
  index : (word p.frame fp44).toNat = i
  gotArg : p.frame fp35 = flag q.gotArg
  gEraseBlock : p.gEraseBlock = q.gEraseBlock
  gBootLoader : p.gBootLoader = flag q.gBootLoader
  gNid : p.gNid = flag q.gNid
  gOta : p.gOta = flag q.gOta
  gFlashSd : p.gFlashSd = flag q.gFlashSd
  gFileName : p.gFileName = q.gFileName

section Fitting

variable {p : Parse} {q : Second.Parse} {i : Nat} {a : CString}

/-- A copy that fits leaves the variables alone. -/
theorem Shows.copied (h : Shows p q i) (ha : a.bytes.length ≤ 79) (j : Nat) :
    Shows (block890c p j a) q i where
  mode := by
    rw [← h.mode, block890c,
      ByteMemory.word_storeString (by rw [CString.length_lower]; unfold fp48; omega)]
  index := by
    rw [← h.index, block890c,
      ByteMemory.word_storeString (by rw [CString.length_lower]; unfold fp44; omega)]
  gotArg := by
    rw [← h.gotArg]
    exact ByteMemory.storeString_of_not_mem (by rw [CString.length_lower]; unfold fp35; omega)
  gEraseBlock := h.gEraseBlock
  gBootLoader := h.gBootLoader
  gNid := h.gNid
  gOta := h.gOta
  gFlashSd := h.gFlashSd
  gFileName := h.gFileName

/-- A new mode leaves the other two slots alone. -/
theorem Shows.setMode (h : Shows p q i) (w : Word) :
    Shows { p with frame := storeWord p.frame fp48 w } { q with mode := w.toNat } i :=
  { h with
    mode := by rw [ByteMemory.word_storeWord]
    index := by
      rw [← h.index, ByteMemory.word_storeWord_of_disjoint (by unfold fp48 fp44; omega)]
    gotArg := by
      rw [← h.gotArg]
      show storeWord p.frame fp48 w fp35 = p.frame fp35
      exact ByteMemory.storeWord_of_not_mem (by unfold fp48 fp35; omega) }

theorem Shows.setGot (h : Shows p q i) :
    Shows { p with frame := Function.update p.frame fp35 1#8 } { q with gotArg := true } i :=
  { h with
    mode := by
      rw [← h.mode, ByteMemory.word_update_of_not_mem (by unfold fp48 fp35; omega)]
    index := by
      rw [← h.index, ByteMemory.word_update_of_not_mem (by unfold fp44 fp35; omega)]
    gotArg := by
      show Function.update p.frame fp35 1#8 fp35 = _
      rw [Function.update_self]
      rfl }

theorem Shows.raise (h : Shows p q i) :
    Shows { p with frame := Original.raise p.frame }
      { q with mode := if q.mode ≠ 2 then 1 else q.mode } i := by
  have hmode : word p.frame fp48 = 2#32 ↔ q.mode = 2 := by
    rw [← h.mode]
    exact BitVec.toNat_inj.symm
  unfold Original.raise
  by_cases htwo : q.mode = 2
  · rw [if_pos (hmode.mpr htwo), if_neg (not_not.mpr htwo)]
    exact h
  · rw [if_neg (mt hmode.mp htwo), if_pos htwo]
    exact h.setMode 1#32

/-- The arm of the chain, without the comparisons that lead to it. -/
theorem block8924_eq (p : Parse) (a : CString) : block8924 p a.lower = p.take a (Arg.of a) := by
  have hcopy (lit : List Byte) (n : Nat) (hlen : lit.length = n) (hnul : 0#8 ∉ lit) :
      strncmp lit a.lower.bytes n = 0 ↔ lit <+: a.lower.bytes := by
    rw [strncmp_eq_zero_comm]
    exact strncmp_eq_zero_iff hlen hnul
  have hdash : dash = a.lower.first ↔ ¬ a.first ≠ dash := by
    rw [eq_comm, CString.first_lower_eq_dash_iff, not_not]
  unfold block8924 Arg.of
  simp (disch := decide) only [hcopy, hdash, apply_ite (p.take a), ite_not]
  rfl

/-- The chain takes the same arm as in the second implementation. -/
theorem Shows.compared (h : Shows p q i) (ha : a.bytes.length ≤ 79) :
    Shows (block8924 p a.lower) (Second.parseArg q a) i := by
  have hname : Second.fileName a = a.lower := by
    rw [Second.fileName_eq, (CString.truncate_eq_self_iff a 79).mpr ha]
  rw [block8924_eq, Second.parseArg_eq]
  cases Arg.of a with
  | dump => exact (h.setMode 2#32).setGot
  | bbl => exact { h.raise with gBootLoader := rfl }
  | e1 => exact { h with gEraseBlock := congrArg (· ||| 1#8) h.gEraseBlock }
  | e2 => exact { h with gEraseBlock := congrArg (· ||| 2#8) h.gEraseBlock }
  | nid => exact { h with gNid := rfl }
  | ota => exact { h with gOta := rfl }
  | sd => exact { h with gFlashSd := rfl }
  | file => exact { h.raise.setGot with gFileName := hname.symm }
  | dropped => exact h

/-- The chain works on the mode and the flag, not on the index or the arguments. -/
theorem block8924_fixed (p : Parse) (a : CString) :
    (block8924 p a.lower).argv = p.argv ∧
      word (block8924 p a.lower).frame fp44 = word p.frame fp44 := by
  have hmode (m : ByteMemory.Memory) (w : Word) : word (storeWord m fp48 w) fp44 = word m fp44 :=
    ByteMemory.word_storeWord_of_disjoint (by unfold fp48 fp44; omega)
  have hgot (m : ByteMemory.Memory) : word (Function.update m fp35 1#8) fp44 = word m fp44 :=
    ByteMemory.word_update_of_not_mem (by unfold fp44 fp35; omega)
  have hraise (m : ByteMemory.Memory) : word (raise m) fp44 = word m fp44 := by
    unfold raise
    split
    · rfl
    · exact hmode m _
  rw [block8924_eq]
  cases Arg.of a <;> simp [Parse.take, block8944, block8978, block8abc, hmode, hgot, hraise]

/-- The index of the argument that is read, as long as `argv` fits into memory. -/
theorem toNat_shiftLeft_div {w : Word} (h : w.toNat < 2 ^ 30) : (w <<< 2).toNat / 4 = w.toNat := by
  rw [BitVec.toNat_shiftLeft, Nat.shiftLeft_eq]
  omega

/-- The next index leaves the other two slots alone. -/
theorem Shows.next (h : Shows p q i) (hi : i < 2 ^ 30) : Shows (block8af0 p) q (i + 1) :=
  { h with
    mode := by
      rw [← h.mode, block8af0,
        ByteMemory.word_storeWord_of_disjoint (by unfold fp48 fp44; omega)]
    index := by
      have hindex := h.index
      rw [block8af0, ByteMemory.word_storeWord, BitVec.toNat_add, hindex]
      simp only [BitVec.toNat_ofNat]
      omega
    gotArg := by
      rw [← h.gotArg]
      show storeWord p.frame fp44 (word p.frame fp44 + 1#32) fp35 = p.frame fp35
      exact ByteMemory.storeWord_of_not_mem (by unfold fp44 fp35; omega) }

/-- One round with an argument that fits is one round of the second implementation. -/
theorem Shows.round (h : Shows p q i) (hi : i < 2 ^ 30) (ha : p.argv[i]? = some a)
    (hfits : a.bytes.length ≤ 79) :
    ∃ p', block88f4 p = some p' ∧ Shows p' (Second.parseArg q a) (i + 1) ∧
      p'.argv = p.argv.set i a.lower := by
  have hindex := toNat_shiftLeft_div (w := word p.frame fp44) (by rw [h.index]; exact hi)
  rw [h.index] at hindex
  refine ⟨block8af0 (block8924 (block890c p i a) a.lower), ?_, ?_, ?_⟩
  · simp only [block88f4, hindex, ha, Option.map_some]
  · exact ((h.copied hfits i).compared hfits).next hi
  · exact (block8924_fixed (block890c p i a) a).1

/-- The loop test while the index is one of the arguments. -/
theorem toInt_lt_iff {w : Word} {n : Nat} (hw : w.toNat < 2 ^ 30) :
    w.toInt < (n : Int) ↔ w.toNat < n := by
  rw [BitVec.toInt_eq_toNat_of_lt (by omega)]
  omega

/-- Over arguments that fit the loop is the one of the second implementation. -/
theorem Shows.loop {rest : List CString} (h : Shows p q i) (hrest : p.argv.drop i = rest)
    (hlen : p.argv.length < 2 ^ 30) (hi : i ≤ p.argv.length)
    (hfits : ∀ a ∈ rest, a.bytes.length ≤ 79) :
    ∃ p' j, block8afc (rest.length + 1) p = some (.left p') ∧
      Shows p' (rest.foldl Second.parseArg q) j := by
  induction rest generalizing p q i with
  | nil =>
      have hend : p.argv.length ≤ i := List.drop_eq_nil_iff.mp hrest
      have hstop : ¬ (word p.frame fp44).toInt < p.argv.length := by
        rw [toInt_lt_iff (by rw [h.index]; omega), h.index]
        omega
      exact ⟨p, i, by rw [block8afc, if_neg hstop], h⟩
  | cons a rest ih =>
      have hlt : i < p.argv.length := by
        by_contra hge
        rw [List.drop_eq_nil_of_le (by omega)] at hrest
        cases hrest
      rw [List.drop_eq_getElem_cons hlt] at hrest
      obtain ⟨ha, htail⟩ := List.cons.inj hrest
      obtain ⟨p', hround, hnext, hargv⟩ := h.round (a := a) (by omega)
        (by rw [List.getElem?_eq_getElem hlt, ha]) (hfits a (by simp))
      have hgoes : (word p.frame fp44).toInt < p.argv.length := by
        rw [toInt_lt_iff (by rw [h.index]; omega), h.index]
        exact hlt
      have hlength : p'.argv.length = p.argv.length := by rw [hargv, List.length_set]
      obtain ⟨p'', j, hloop, hend⟩ := ih hnext
        (by rw [hargv, List.drop_set_of_lt (Nat.lt_succ_self i), htail])
        (by rw [hlength]; exact hlen) (by rw [hlength]; exact hlt)
        fun b hb => hfits b (List.mem_cons_of_mem a hb)
      refine ⟨p'', j, ?_, hend⟩
      rw [List.length_cons, block8afc, if_pos hgoes, hround]
      exact hloop

/-- At the entry the three slots are stored, and the globals are zero. -/
theorem shows_entry (stack : ByteMemory.Memory) (argv : List CString) :
    Shows (entry stack argv) Second.cleared 1 where
  mode := by
    rw [entry, ByteMemory.word_storeWord_of_disjoint (by unfold fp48 fp44; omega),
      ByteMemory.word_update_of_not_mem (by unfold fp48 fp35; omega), ByteMemory.word_storeWord]
    rfl
  index := by
    rw [entry, ByteMemory.word_storeWord]
    rfl
  gotArg := by
    have hkept : storeWord (Function.update (storeWord stack fp48 0#32) fp35 0#8) fp44 1#32 fp35 =
        Function.update (storeWord stack fp48 0#32) fp35 0#8 fp35 :=
      ByteMemory.storeWord_of_not_mem (by unfold fp44 fp35; omega)
    show storeWord (Function.update (storeWord stack fp48 0#32) fp35 0#8) fp44 1#32 fp35 = _
    rw [hkept, Function.update_self]
    rfl
  gEraseBlock := rfl
  gBootLoader := rfl
  gNid := rfl
  gOta := rfl
  gFlashSd := rfl
  gFileName := rfl

theorem decide_flag (b : Bool) : decide (flag b = 0#8) = !b := by
  cases b <;> rfl

/-- Behind the loop the two programs decide alike. -/
theorem Shows.decides {argv : List CString}
    (h : Shows p (argv.tail.foldl Second.parseArg Second.cleared) i) :
    block8b0c p = Second.start argv := by
  unfold Second.start
  generalize argv.tail.foldl Second.parseArg Second.cleared = q at h
  have hmode (w : Word) : word p.frame fp48 = w ↔ q.mode = w.toNat := by
    rw [← h.mode]
    exact BitVec.toNat_inj.symm
  have hgot : p.frame fp35 = 0#8 ↔ q.gotArg = false := by
    rw [h.gotArg]
    cases q.gotArg <;> simp [flag]
  have hoptions : p.options = q.options := by
    simp [Parse.options, Second.Parse.options, h.gEraseBlock, h.gBootLoader, h.gNid, h.gOta,
      h.gFlashSd, decide_flag]
  simp only [block8b0c, hmode, hgot, h.gFileName, hoptions]
  simp

/-- More tests change nothing. -/
theorem block8afc_mono {n : Nat} {x : Looped} (h : block8afc n p = some x) (k : Nat) :
    block8afc (n + k) p = some x := by
  induction n generalizing p with
  | zero => cases h
  | succ n ih =>
      rw [Nat.succ_add]
      unfold block8afc at h ⊢
      split at h
      · rename_i hgoes
        rw [if_pos hgoes]
        cases hround : block88f4 p with
        | none => simpa [hround] using h
        | some p' =>
            rw [hround] at h
            exact ih h
      · rename_i hstop
        rw [if_neg hstop]
        exact h

/-- A command line whose arguments fit is taken as in the second implementation. -/
theorem exists_left {argv : List CString} (hlen : argv.length < 2 ^ 30)
    (hfits : ∀ a ∈ argv.tail, a.bytes.length ≤ 79) (stack : ByteMemory.Memory) :
    ∃ p, block8afc (argv.tail.length + 1) (entry stack argv) = some (.left p) ∧
      block8b0c p = Second.start argv := by
  have hentry := shows_entry stack argv
  cases argv with
  | nil =>
      refine ⟨entry stack [], ?_, hentry.decides⟩
      have hstop : ¬ (word (entry stack []).frame fp44).toInt <
          ((entry stack []).argv.length : Int) := by
        rw [toInt_lt_iff (by rw [hentry.index]; omega), hentry.index]
        exact Nat.not_lt.mpr (Nat.zero_le 1)
      rw [block8afc, if_neg hstop]
  | cons a rest =>
      obtain ⟨p, j, hloop, hend⟩ := hentry.loop
        (show (entry stack (a :: rest)).argv.drop 1 = rest from rfl) hlen
        (Nat.succ_le_succ (Nat.zero_le rest.length)) hfits
      exact ⟨p, hloop, hend.decides⟩

/-- Enough tests of the loop lead to the start of the second implementation. -/
theorem program_eq {argv : List CString} {n : Nat} (hlen : argv.length < 2 ^ 30)
    (hfits : ∀ a ∈ argv.tail, a.bytes.length ≤ 79) (hn : argv.tail.length < n)
    (stack : ByteMemory.Memory) (slots : Slots) (fs : CString → Option Image) :
    program n stack slots fs argv = some (block8b34 slots fs (Second.start argv)) := by
  obtain ⟨p, hloop, hend⟩ := exists_left hlen hfits stack
  obtain ⟨k, rfl⟩ := Nat.exists_eq_add_of_lt hn
  have hmore := block8afc_mono hloop k
  rw [program, show argv.tail.length + k + 1 = argv.tail.length + 1 + k by omega, hmore, ← hend]
  rfl

end Fitting

/-- The two programs start on the same file, and any run without failures makes the same
exchanges, waits on the same call or has stopped, and returns the same. -/
def Alike (first : Machine Call Transfer First.Out First.State)
    (original : Machine Call Transfer Out State) : Prop :=
  ∀ as : List Transfer, (∀ a ∈ as, a ≠ none) →
    exchanges (first.run as).trace = exchanges (original.run as).trace ∧
      First.pending (first.run as).state = pending (original.run as).state ∧
      ∀ rc, (first.run as).state.pc = .returned rc ↔ (original.run as).state.pc = .exited rc

theorem alike_main (opts : Options) (img : Image) (slots : Slots) :
    Alike (First.main opts img) (main opts img slots) := by
  intro as hok
  have hmatches := (lockStep opts img slots).state as hok
  exact ⟨LockStep.exchanges_eq (h := lockStep opts img slots) as hok, matches_pending hmatches,
    exited_iff hmatches⟩

/-- From the argument vector on, with arguments that fit: where `-d` occurs the original
stops before its first call, and else it does what the first implementation does. -/
theorem program_refines {argv : List CString} {fs : CString → Option Image} {n : Nat}
    (hempty : fs .empty = none) (hlen : argv.length < 2 ^ 30)
    (hfits : ∀ a ∈ argv.tail, a.bytes.length ≤ 79) (hn : argv.tail.length < n)
    (stack : ByteMemory.Memory) (slots : Slots) :
    (Second.AsksDump argv.tail ∧ program n stack slots fs argv = some (.error (.code 0))) ∨
      (¬ Second.AsksDump argv.tail ∧
        ((∃ first original, First.program fs argv = .ok first ∧
            program n stack slots fs argv = some (.ok original) ∧ Alike first original) ∨
          ∃ rc e, First.program fs argv = .error rc ∧
            program n stack slots fs argv = some (.error e))) := by
  rw [program_eq hlen hfits hn, ← Second.occurs_dump_iff, First.program]
  have hfirst := First.start_target? argv
  have hsecond := Second.start_target? argv
  cases hdump : occurs .dump argv.tail with
  | true =>
      have hexits : Second.start argv = .exits 0 := by
        rw [Second.start, Second.foldl_parseArg]
        simp [hdump]
      exact .inl ⟨rfl, by rw [hexits]; rfl⟩
  | false =>
      refine .inr ⟨Bool.false_ne_true, ?_⟩
      rw [hdump, if_neg Bool.false_ne_true] at hsecond
      cases hfile : lastFile? argv.tail with
      | none =>
          rw [hfile] at hfirst hsecond
          obtain ⟨rc, hfirst⟩ := Start.exists_exits hfirst
          obtain ⟨rc', hsecond⟩ := Start.exists_exits hsecond
          rw [hfirst, hsecond]
          exact .inr ⟨rc, .code rc', rfl, rfl⟩
      | some f =>
          rw [hfile, Option.map_some] at hsecond
          rw [hfile, Option.bind_some] at hfirst
          rw [Start.eq_opens hsecond]
          by_cases hf : f = .empty
          · -- `fopen` finds no file without a name, and the first program does not ask it.
            obtain ⟨rc, hfirst⟩ := Start.exists_exits (by rw [hfirst, if_pos hf])
            have hname : Second.fileName f = .empty := by
              rw [hf]
              rfl
            rw [hfirst, block8b34, hname, hempty]
            exact .inr ⟨rc, .fault, rfl, rfl⟩
          · have hfits : f.bytes.length ≤ 79 := 
              hfits f (List.mem_of_mem_filter (List.mem_of_getLast? hfile))
            rw [if_neg hf, (Second.fileName_eq_iff f).mpr hfits] at hfirst
            rw [Start.eq_opens hfirst, Start.run, block8b34]
            cases fs (Second.fileName f) with
            | none => exact .inr ⟨1, .fault, rfl, rfl⟩
            | some img =>
                exact .inl ⟨First.main (settings argv.tail) img,
                  main (settings argv.tail) img slots, rfl, rfl, alike_main _ _ _⟩

/-- `EC_flash -bbl ec.rom` -/
def bblArgv : List CString :=
  [programName, ⟨ascii ['-', 'b', 'b', 'l'], by decide⟩, romName]

/-- A frame that was used before. -/
def usedFrame : ByteMemory.Memory := fun _ => 0xA5#8

theorem program_refines_bbl :
    let fs : CString → Option Image := fun file =>
      if file = .empty then none else some First.sampleImage
    let slots := sampleSlots First.sampleImage
    ¬ Second.AsksDump bblArgv.tail ∧
      ((Second.AsksDump bblArgv.tail ∧
          program 3 usedFrame slots fs bblArgv = some (.error (.code 0))) ∨
        (¬ Second.AsksDump bblArgv.tail ∧
          ((∃ first original, First.program fs bblArgv = .ok first ∧
              program 3 usedFrame slots fs bblArgv = some (.ok original) ∧ Alike first original) ∨
            ∃ rc e, First.program fs bblArgv = .error rc ∧
              program 3 usedFrame slots fs bblArgv = some (.error e)))) :=
  ⟨by decide,
    program_refines rfl (by decide) (by decide) (by decide) usedFrame _⟩

/-! ## An argument whose NUL falls on the loop index

A copy of 84 bytes ends right below the index, and its NUL clears the low byte of it.
-/

section Endless

variable {p : Parse} {argv : List CString} {k : Nat}

/-- Between two rounds, when argument `k` takes the index back. -/
structure Circling (argv : List CString) (k : Nat) (p : Parse) : Prop where
  pos : 1 ≤ (word p.frame fp44).toNat
  le : (word p.frame fp44).toNat ≤ k
  lengths : p.argv.map (·.bytes.length) = argv.map (·.bytes.length)

/-- The index behind a round. -/
theorem index_round (p : Parse) (i : Nat) (a : CString) :
    word (block8af0 (block8924 (block890c p i a) a.lower)).frame fp44 =
      word (storeString p.frame 0 a.lower.bytes) fp44 + 1#32 := by
  rw [block8af0, ByteMemory.word_storeWord, (block8924_fixed (block890c p i a) a).2]
  rfl

/-- Every round ends in front of argument `k` or an earlier one. -/
theorem Circling.round (h : Circling argv k p) (hk : k < 2 ^ 30) (hlow : k % 256 ≠ 0)
    (hlen : (argv.map (·.bytes.length))[k]? = some 84)
    (hbefore : ∀ j n, 1 ≤ j → j < k → (argv.map (·.bytes.length))[j]? = some n → n ≤ 83) :
    (word p.frame fp44).toInt < p.argv.length ∧
      ∃ p', block88f4 p = some p' ∧ Circling argv k p' := by
  obtain ⟨hpos, hle, hlengths⟩ := h
  have hin : k < p.argv.length := by
    have hmap := (List.getElem?_eq_some_iff.mp hlen).1
    rwa [← hlengths, List.length_map] at hmap
  generalize hi : (word p.frame fp44).toNat = i at hpos hle
  have hlt : i < p.argv.length := by omega
  have hindex := toNat_shiftLeft_div (w := word p.frame fp44) (by omega)
  rw [hi] at hindex
  refine ⟨(toInt_lt_iff (by omega)).mpr (by omega), ?_⟩
  let a := p.argv[i]
  have hsize : (argv.map (·.bytes.length))[i]? = some a.bytes.length := by
    rw [← hlengths, List.getElem?_map, List.getElem?_eq_getElem hlt, Option.map_some]
  -- The copy keeps the index, or clears its low byte.
  have hstored : (word (storeString p.frame 0 a.lower.bytes) fp44).toNat < k := by
    rcases Nat.lt_or_ge i k with hik | hki
    · have hshort := hbefore i _ hpos hik hsize
      rw [ByteMemory.word_storeString (by rw [CString.length_lower]; unfold fp44; omega), hi]
      exact hik
    · obtain rfl : i = k := by omega
      have heighty : a.lower.bytes.length = 84 := by
        rw [CString.length_lower]
        exact Option.some.inj (hsize.symm.trans hlen)
      have hend := ByteMemory.toNat_word_storeString_end p.frame 0 a.lower.bytes
      rw [show 0 + a.lower.bytes.length = fp44 from (Nat.zero_add _).trans heighty, hi] at hend
      omega
  have hnext : (word (storeString p.frame 0 a.lower.bytes) fp44 + 1#32).toNat =
      (word (storeString p.frame 0 a.lower.bytes) fp44).toNat + 1 := by
    rw [BitVec.toNat_add, BitVec.toNat_ofNat]
    omega
  refine ⟨block8af0 (block8924 (block890c p i a) a.lower), ?_, ?_, ?_, ?_⟩
  · simp only [block88f4, hindex, List.getElem?_eq_getElem hlt, Option.map_some]
    rfl
  · rw [index_round, hnext]
    omega
  · rw [index_round, hnext]
    omega
  · have hargv : (block8af0 (block8924 (block890c p i a) a.lower)).argv = p.argv.set i a.lower :=
      (block8924_fixed (block890c p i a) a).1
    obtain ⟨hlt, hself⟩ := List.getElem?_eq_some_iff.mp hsize
    rw [hargv, List.map_set, CString.length_lower, hlengths, ← hself, List.set_getElem_self]

/-- No number of tests is enough. -/
theorem block8afc_eq_none (h : Circling argv k p) (hk : k < 2 ^ 30) (hlow : k % 256 ≠ 0)
    (hlen : (argv.map (·.bytes.length))[k]? = some 84)
    (hbefore : ∀ j n, 1 ≤ j → j < k → (argv.map (·.bytes.length))[j]? = some n → n ≤ 83)
    (n : Nat) : block8afc n p = none := by
  induction n generalizing p with
  | zero => rfl
  | succ n ih =>
      obtain ⟨hgoes, p', hround, hnext⟩ := h.round hk hlow hlen hbefore
      rw [block8afc, if_pos hgoes, hround]
      exact ih hnext

end Endless

/-- An argument of 84 characters behind ones that do not reach the index is read again
and again, unless its position is a multiple of 256. -/
theorem program_endless {argv : List CString} {k : Nat} (hk : k < 2 ^ 30) (hlow : k % 256 ≠ 0)
    (hlen : (argv.map (·.bytes.length))[k]? = some 84)
    (hbefore : ∀ j n, 1 ≤ j → j < k → (argv.map (·.bytes.length))[j]? = some n → n ≤ 83)
    (n : Nat) (stack : ByteMemory.Memory) (slots : Slots) (fs : CString → Option Image) :
    program n stack slots fs argv = none := by
  have hindex := (shows_entry stack argv).index
  have hentry : Circling argv k (entry stack argv) := ⟨by omega, by omega, rfl⟩
  rw [program, block8afc_eq_none hentry hk hlow hlen hbefore, Option.map_none]

/-- `EC_flash -bbl a…a`, with 84 letters. -/
def longArgv : List CString :=
  [programName,
    ⟨ascii ['-', 'b', 'b', 'l'], by decide⟩,
    ⟨List.replicate 84 97#8, by decide⟩]

theorem program_endless_long :
    program 1000 usedFrame (sampleSlots First.sampleImage) (fun _ => none) longArgv = none :=
  program_endless (k := 2) (by decide) (by decide) (by decide)
    (by
      intro j m hj hlt
      obtain rfl : j = 1 := by omega
      rintro ⟨⟩
      decide)
    1000 _ _ _

end Original
end EcFlash
