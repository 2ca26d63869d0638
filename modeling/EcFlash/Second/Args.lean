import EcFlash.First.Args
import EcFlash.Second.Main

/-!
# The argument loop of the second implementation

It takes the same arms as `parse_args`, but keeps a mode: `-d` sets it to 2 for good,
and then no file is opened.  Its copies hold 79 characters, those of `parse_args` 127,
and it does not look at the file name before opening the file.  The two parsers agree
exactly where none of this matters.
-/

namespace EcFlash
namespace Second

open First (Options)
open Reactive

/-- The globals that the argument loop sets, with its two local variables. -/
structure Parse where
  gEraseBlock : Byte
  gBootLoader : Bool
  gNid : Bool
  gOta : Bool
  gFlashSd : Bool
  gFileName : CString
  mode : Nat
  gotArg : Bool

/-- The copy in `local`: at most 79 characters. -/
def localCopy (arg : CString) : CString :=
  let n := arg.bytes.length
  let n := if 80 ≤ n then 80 - 1 else n
  arg.truncate n

/-- The body of the argument loop. -/
def parseArg (p : Parse) (arg : CString) : Parse :=
  let buf := (localCopy arg).lower
  if strncmp optD buf.bytes 2 = 0 then { p with mode := 2, gotArg := true }
  else if strncmp optBbl buf.bytes 4 = 0 then
    { p with gBootLoader := true, mode := if p.mode ≠ 2 then 1 else p.mode }
  else if strncmp optE1 buf.bytes 3 = 0 then { p with gEraseBlock := p.gEraseBlock ||| 0x01#8 }
  else if strncmp optE2 buf.bytes 3 = 0 then { p with gEraseBlock := p.gEraseBlock ||| 0x02#8 }
  else if strncmp optNid buf.bytes 4 = 0 then { p with gNid := true }
  else if strncmp optOta buf.bytes 4 = 0 then { p with gOta := true }
  else if strncmp optSd buf.bytes 3 = 0 then { p with gFlashSd := true }
  else if buf.first ≠ dash then
    { p with
      gFileName := buf.truncate 255
      mode := if p.mode ≠ 2 then 1 else p.mode
      gotArg := true }
  -- Anything else is skipped.
  else p

/-- The globals are zero at the start. -/
def cleared : Parse where
  gEraseBlock := 0#8
  gBootLoader := false
  gNid := false
  gOta := false
  gFlashSd := false
  gFileName := .empty
  mode := 0
  gotArg := false

/-- The settings for the rest of `main`. -/
def Parse.options (p : Parse) : Options where
  eraseMask := p.gEraseBlock
  includeBootloader := p.gBootLoader
  ignoreNid := p.gNid
  otaMode := p.gOta
  sdMode := p.gFlashSd

/-- `main` up to `fopen`; in mode 2 both blocks behind are skipped. -/
def start (argv : List CString) : Start :=
  let p := argv.tail.foldl parseArg cleared
  if !p.gotArg ∨ p.mode = 0 then .exits 1
  else if p.mode = 1 then .opens p.gFileName p.options
  else .exits 0

/-- `main(argc, argv)`, where `fopen` finds the files `fs`. -/
def program (fs : CString → Option Image) (argv : List CString) :
    Except Nat (Machine Call Transfer Out State) :=
  (start argv).run fs main

/-- The copy of an argument from which the file name is taken. -/
def fileName (a : CString) : CString :=
  (localCopy a).lower.truncate 255

/-- What an argument does in each arm. -/
def Parse.take (p : Parse) (a : CString) : Arg → Parse
  | .dump => { p with mode := 2, gotArg := true }
  | .bbl => { p with gBootLoader := true, mode := if p.mode ≠ 2 then 1 else p.mode }
  | .e1 => { p with gEraseBlock := p.gEraseBlock ||| 0x01#8 }
  | .e2 => { p with gEraseBlock := p.gEraseBlock ||| 0x02#8 }
  | .nid => { p with gNid := true }
  | .ota => { p with gOta := true }
  | .sd => { p with gFlashSd := true }
  | .file =>
      { p with
        gFileName := fileName a
        mode := if p.mode ≠ 2 then 1 else p.mode
        gotArg := true }
  | .dropped => p

section Parse

variable {a : CString} {xs : List CString}

theorem localCopy_eq (a : CString) : localCopy a = a.truncate 79 := by
  simp only [localCopy]
  split
  · rfl
  · rw [(CString.truncate_eq_self_iff a _).mpr (by omega),
      (CString.truncate_eq_self_iff a _).mpr (by omega)]

theorem fileName_eq (a : CString) : fileName a = (a.truncate 79).lower := by
  rw [fileName, localCopy_eq, CString.truncate_eq_self_iff, CString.length_lower,
    CString.truncate, List.length_take]
  omega

/-- The arm of the chain, without the comparisons that lead to it. -/
theorem parseArg_eq (p : Parse) (a : CString) : parseArg p a = p.take a (Arg.of a) := by
  have hdash : (a.truncate 79).lower.first ≠ dash ↔ a.first ≠ dash := by
    rw [ne_eq, CString.first_lower_eq_dash_iff, CString.first_truncate a 79 (by decide)]
  -- Here the option comes first in the comparison.
  have hcopy (lit : List Byte) (n : Nat) (hlen : lit.length = n) (hnul : 0#8 ∉ lit) (h : n ≤ 79) :
      strncmp lit (a.truncate 79).lower.bytes n = 0 ↔ lit <+: a.lower.bytes := by
    rw [strncmp_eq_zero_comm]
    exact strncmp_copy lit n hlen hnul a h
  unfold parseArg Arg.of
  simp (disch := decide) only [localCopy_eq, hcopy, hdash, apply_ite (p.take a)]
  simp only [Parse.take, fileName, localCopy_eq]

/-- What the loop makes of the arguments. -/
theorem foldl_parseArg (xs : List CString) :
    xs.foldl parseArg cleared =
      { gEraseBlock := (settings xs).eraseMask
        gBootLoader := (settings xs).includeBootloader
        gNid := (settings xs).ignoreNid
        gOta := (settings xs).otaMode
        gFlashSd := (settings xs).sdMode
        gFileName := ((lastFile? xs).map fileName).getD .empty
        mode :=
          if occurs .dump xs then 2
          else if occurs .bbl xs || occurs .file xs then 1
          else 0
        gotArg := occurs .dump xs || occurs .file xs } := by
  induction xs using List.reverseRecOn with
  | nil => rfl
  | append_singleton xs a ih =>
      rw [List.foldl_concat, ih, parseArg_eq, lastFile?_concat]
      cases harg : Arg.of a with
      | e1 | e2 =>
          simp only [Parse.take, settings, occurs_concat, harg]
          cases occurs .e1 xs <;> cases occurs .e2 xs <;> simp
      | bbl | file =>
          simp only [Parse.take, settings, occurs_concat, harg]
          cases occurs .dump xs <;> cases occurs .bbl xs <;> cases occurs .file xs <;> simp
      | _ => simp [Parse.take, settings, harg]

/-- Without `-d` the last file name is opened, whatever it is. -/
theorem start_target? (argv : List CString) :
    (start argv).target? =
      if occurs .dump argv.tail then none
      else (lastFile? argv.tail).map fun f => (fileName f, settings argv.tail) := by
  unfold start
  rw [foldl_parseArg]
  cases hdump : occurs .dump argv.tail with
  | true => simp [Start.target?]
  | false =>
      cases hfile : lastFile? argv.tail with
      | none =>
          have hiff : occurs .file argv.tail = true ↔ lastFile? argv.tail ≠ none := occurs_file_iff
          have hnone : occurs .file argv.tail = false := by
            simpa [hfile] using hiff
          simp [hnone, Start.target?]
      | some f =>
          have hsome : occurs .file argv.tail = true := occurs_file_iff.mpr (by simp [hfile])
          simp [hsome, Start.target?, Parse.options]

end Parse

section Agreement

variable {argv : List CString}

/-- Some argument begins with `-d`, in either case. -/
def AsksDump (xs : List CString) : Prop :=
  ∃ a ∈ xs, optD <+: a.lower.bytes

instance (xs : List CString) : Decidable (AsksDump xs) :=
  inferInstanceAs (Decidable (∃ a ∈ xs, optD <+: a.lower.bytes))

theorem occurs_dump_iff (xs : List CString) : occurs .dump xs = true ↔ AsksDump xs := by
  simp only [occurs_iff, of_eq_dump_iff, AsksDump]

theorem start_eq_opens {file : CString} (hdump : ¬ AsksDump argv.tail)
    (hfile : lastFile? argv.tail = some file) :
    start argv = .opens (fileName file) (settings argv.tail) := by
  apply Start.eq_opens
  rw [start_target?, if_neg (by rwa [occurs_dump_iff]), hfile, Option.map_some]

/-- Both parsers hand on the same name when it fits into the shorter buffer. -/
theorem fileName_eq_iff (f : CString) : First.fileName f = fileName f ↔ f.bytes.length ≤ 79 := by
  rw [First.fileName_eq, fileName_eq]
  constructor
  · intro h
    have hlen := congrArg (fun s : CString => s.bytes.length) h
    simp [CString.truncate] at hlen
    omega
  · intro h
    rw [(CString.truncate_eq_self_iff f 127).mpr (by omega),
      (CString.truncate_eq_self_iff f 79).mpr h]

/-- The two implementations open the same file with the same settings, or both open
none, exactly when the last argument without a dash, if there is one, is empty and
`-d` occurs, or is not empty, fits into 79 characters, and `-d` does not occur. -/
theorem start_agree_iff (argv : List CString) :
    (First.start argv).target? = (start argv).target? ↔
      ∀ f, lastFile? argv.tail = some f →
        (AsksDump argv.tail ∧ f = .empty) ∨
          (¬ AsksDump argv.tail ∧ f ≠ .empty ∧ f.bytes.length ≤ 79) := by
  rw [First.start_target?, start_target?, ← occurs_dump_iff]
  cases hfile : lastFile? argv.tail with
  | none => simp
  | some f =>
      cases occurs .dump argv.tail with
      | true =>
          by_cases hf : f = .empty <;> simp [hf]
      | false =>
          by_cases hf : f = .empty
          · simp [hf]
          · simp [hf, fileName_eq_iff]

/-- Parsers that agree start the two implementations on the same file with the same
settings, or neither of them. -/
theorem program_of_agree (fs : CString → Option Image)
    (h : (First.start argv).target? = (start argv).target?) :
    (∃ opts img, First.program fs argv = .ok (First.main opts img) ∧
        program fs argv = .ok (main opts img)) ∨
      ∃ rc rc', First.program fs argv = .error rc ∧ program fs argv = .error rc' := by
  unfold First.program program
  cases hfirst : First.start argv with
  | exits rc =>
      cases hsecond : start argv with
      | exits rc' => exact .inr ⟨rc, rc', rfl, rfl⟩
      | opens file opts => simp [hfirst, hsecond, Start.target?] at h
  | opens file opts =>
      cases hsecond : start argv with
      | exits rc' => simp [hfirst, hsecond, Start.target?] at h
      | opens file' opts' =>
          simp only [hfirst, hsecond, Start.target?, Option.some.injEq, Prod.mk.injEq] at h
          obtain ⟨rfl, rfl⟩ := h
          simp only [Start.run]
          cases fs file with
          | none => exact .inr ⟨1, 1, rfl, rfl⟩
          | some img => exact .inl ⟨opts, img, rfl, rfl⟩

/-- `EC_flash -d rom.bin` -/
def dumpArgv : List CString :=
  [programName,
    ⟨ascii ['-', 'd'], by decide⟩,
    ⟨ascii ['r', 'o', 'm', '.', 'b', 'i', 'n'], by decide⟩]

/-- The first implementation flashes the file where the second one does nothing. -/
theorem start_agree_fails :
    ¬ ∀ argv : List CString, (First.start argv).target? = (start argv).target? := by
  intro h
  have hfirst : ((First.start dumpArgv).target?).isSome = true := by decide
  have hsecond : ((start dumpArgv).target?).isSome = false := by decide
  rw [h dumpArgv, hsecond] at hfirst
  exact Bool.false_ne_true hfirst

end Agreement

end Second
end EcFlash
