import EcFlash.CommandLine

/-!
# The argument parser of the first implementation

`parse_args` and the start of `main` up to the opened file.  Each argument is copied
into a buffer of 128 bytes and lower-cased there, and the file name is taken from the
buffer.
-/

namespace EcFlash
namespace First

open Reactive

/-- The fields of `flash_ctx_t` that `parse_args` sets, with its flag. -/
structure Parse extends Options where
  romFile : CString
  haveAction : Bool

/-- The body of the argument loop. -/
def parseArg (p : Parse) (arg : CString) : Parse :=
  let tmp := (arg.truncate 127).lower
  if strncmp tmp.bytes optD 2 = 0 then { p with haveAction := true }
  else if strncmp tmp.bytes optBbl 4 = 0 then
    { p with includeBootloader := true, haveAction := true }
  else if strncmp tmp.bytes optE1 3 = 0 then { p with eraseMask := p.eraseMask ||| 0x01#8 }
  else if strncmp tmp.bytes optE2 3 = 0 then { p with eraseMask := p.eraseMask ||| 0x02#8 }
  else if strncmp tmp.bytes optNid 4 = 0 then { p with ignoreNid := true }
  else if strncmp tmp.bytes optOta 4 = 0 then { p with otaMode := true }
  else if strncmp tmp.bytes optSd 3 = 0 then { p with sdMode := true }
  else if tmp.first ≠ dash then { p with romFile := tmp.truncate 255, haveAction := true }
  -- Anything else is skipped.
  else p

/-- `memset(ctx, 0, sizeof(*ctx))` -/
def cleared : Parse where
  eraseMask := 0#8
  includeBootloader := false
  ignoreNid := false
  otaMode := false
  sdMode := false
  romFile := .empty
  haveAction := false

/-- `parse_args(argc, argv, ctx)`: its result, and the context. -/
def parseArgs (argv : List CString) : Bool × Parse :=
  let p := argv.tail.foldl parseArg cleared
  (p.haveAction && p.romFile.first ≠ 0#8, p)

/-- Lines 296-302. -/
def start (argv : List CString) : Start :=
  if !(parseArgs argv).1 then .exits 1
  else .opens (parseArgs argv).2.romFile (parseArgs argv).2.toOptions

/-- `main(argc, argv)`, where `fopen` finds the files `fs`. -/
def program (fs : CString → Option Image) (argv : List CString) :
    Except Nat (Machine Call Transfer Out State) :=
  (start argv).run fs main

/-- The copy of an argument from which the file name is taken. -/
def fileName (a : CString) : CString :=
  (a.truncate 127).lower.truncate 255

/-- What an argument does in each arm. -/
def Parse.take (p : Parse) (a : CString) : Arg → Parse
  | .dump => { p with haveAction := true }
  | .bbl => { p with includeBootloader := true, haveAction := true }
  | .e1 => { p with eraseMask := p.eraseMask ||| 0x01#8 }
  | .e2 => { p with eraseMask := p.eraseMask ||| 0x02#8 }
  | .nid => { p with ignoreNid := true }
  | .ota => { p with otaMode := true }
  | .sd => { p with sdMode := true }
  | .file => { p with romFile := fileName a, haveAction := true }
  | .dropped => p

section Parse

variable {a : CString} {xs : List CString}

theorem fileName_eq (a : CString) : fileName a = (a.truncate 127).lower := by
  rw [fileName, CString.truncate_eq_self_iff, CString.length_lower, CString.truncate,
    List.length_take]
  omega

/-- The arm of the chain, without the comparisons that lead to it. -/
theorem parseArg_eq (p : Parse) (a : CString) : parseArg p a = p.take a (Arg.of a) := by
  have hdash : (a.truncate 127).lower.first ≠ dash ↔ a.first ≠ dash := by
    rw [ne_eq, CString.first_lower_eq_dash_iff, CString.first_truncate a 127 (by decide)]
  unfold parseArg Arg.of
  simp (disch := decide) only [strncmp_copy, hdash, apply_ite (p.take a)]
  rfl

/-- What the loop makes of the arguments. -/
theorem foldl_parseArg (xs : List CString) :
    xs.foldl parseArg cleared =
      { settings xs with
        romFile := ((lastFile? xs).map fileName).getD .empty
        haveAction := occurs .dump xs || occurs .bbl xs || occurs .file xs } := by
  induction xs using List.reverseRecOn with
  | nil => rfl
  | append_singleton xs a ih =>
      rw [List.foldl_concat, ih, parseArg_eq, lastFile?_concat]
      cases harg : Arg.of a with
      | e1 | e2 =>
          simp only [Parse.take, settings, occurs_concat, harg]
          cases occurs .e1 xs <;> cases occurs .e2 xs <;> simp
      | _ => simp [Parse.take, settings, harg]

theorem fileName_eq_empty_iff (a : CString) : fileName a = .empty ↔ a = .empty := by
  rw [fileName_eq, CString.ext_iff, CString.ext_iff]
  simp [CString.truncate, CString.lower, CString.empty]

/-- Only a file name that is not empty makes the parser accept. -/
theorem parseArgs_fst_iff (argv : List CString) :
    (parseArgs argv).1 = true ↔ ∃ f, lastFile? argv.tail = some f ∧ f ≠ .empty := by
  simp only [parseArgs, foldl_parseArg, Bool.and_eq_true, decide_eq_true_eq, ne_eq,
    CString.first_eq_zero_iff]
  constructor
  · rintro ⟨-, hname⟩
    cases hfile : lastFile? argv.tail with
    | none => simp [hfile] at hname
    | some f => exact ⟨f, rfl, by simpa [hfile, fileName_eq_empty_iff] using hname⟩
  · rintro ⟨f, hfile, hne⟩
    have hoccurs : occurs .file argv.tail = true := occurs_file_iff.mpr (by simp [hfile])
    simp [hfile, hoccurs, fileName_eq_empty_iff, hne]

/-- The last file name is opened, unless it is empty. -/
theorem start_target? (argv : List CString) :
    (start argv).target? =
      (lastFile? argv.tail).bind fun f =>
        if f = .empty then none else some (fileName f, settings argv.tail) := by
  have haccepts := parseArgs_fst_iff argv
  unfold start
  cases hfile : lastFile? argv.tail with
  | none =>
      rw [hfile] at haccepts
      simp [Start.target?, Bool.eq_false_iff.mpr (mt haccepts.mp (by simp))]
  | some f =>
      rw [hfile] at haccepts
      by_cases hf : f = .empty
      · simp [Start.target?, hf, Bool.eq_false_iff.mpr (mt haccepts.mp (by simp [hf]))]
      · have htrue : (parseArgs argv).1 = true := haccepts.mpr ⟨f, rfl, hf⟩
        have hparse : (parseArgs argv).2.romFile = fileName f ∧
            (parseArgs argv).2.toOptions = settings argv.tail := by
          simp [parseArgs, foldl_parseArg, hfile]
        simp [Start.target?, hf, htrue, hparse]

end Parse

end First
end EcFlash
