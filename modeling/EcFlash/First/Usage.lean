import EcFlash.First.Args

/-!
# The documented command line

The usage text promises options in full, a file name, and nothing about their order.
`parse_args` accepts by prefix, skips what it does not know, and hands on a lower-cased
and truncated file name; this file says for which argument vectors none of that shows.
-/

namespace EcFlash

/-- The option that an arm of the chain stands for. -/
def Arg.literal? : Arg → Option (List Byte)
  | .dump => some optD
  | .bbl => some optBbl
  | .e1 => some optE1
  | .e2 => some optE2
  | .nid => some optNid
  | .ota => some optOta
  | .sd => some optSd
  | .file => none
  | .dropped => none

/-- The options that the tool knows, in lower case. -/
def documentedOptions : List (List Byte) :=
  [optD, optBbl, optE1, optE2, optNid, optOta, optSd]

/-- Every argument that begins with a dash is one of the options in full. -/
def OnlyOptions (xs : List CString) : Prop :=
  ∀ a ∈ xs, a.first = dash → a.lower.bytes ∈ documentedOptions

section Chain

variable {a : CString} {xs : List CString} {k : Arg} {lit : List Byte}

theorem literal_isPrefix_of (h : Arg.of a = k) (hlit : k.literal? = some lit) :
    lit <+: a.lower.bytes := by
  subst h
  unfold Arg.of at hlit
  repeat' split at hlit
  all_goals
    simp only [Arg.literal?, Option.some.injEq, reduceCtorEq] at hlit
  all_goals
    subst hlit
    assumption

/-- An option in full takes its own arm. -/
theorem of_eq_of_lower (hlit : k.literal? = some lit) (h : a.lower.bytes = lit) :
    Arg.of a = k := by
  cases k <;> simp only [Arg.literal?, Option.some.injEq, reduceCtorEq] at hlit <;>
    · subst hlit
      unfold Arg.of
      rw [h]
      rfl

theorem literal?_cases (hlit : k.literal? = some lit) :
    lit ∈ documentedOptions ∧ lit.head? = some dash := by
  cases k <;> simp only [Arg.literal?, Option.some.injEq, reduceCtorEq] at hlit <;>
    · subst hlit
      decide

/-- None of the options is a prefix of another one. -/
theorem eq_of_isPrefix_of_documented {o : List Byte} (hlit : lit ∈ documentedOptions)
    (ho : o ∈ documentedOptions) (h : lit <+: o) : o = lit := by
  revert o
  revert lit
  decide

/-- Where only options in full occur, an arm is taken exactly by its option. -/
theorem occurs_iff_of_onlyOptions (hxs : OnlyOptions xs) (hlit : k.literal? = some lit) :
    occurs k xs = true ↔ ∃ a ∈ xs, a.lower.bytes = lit := by
  obtain ⟨hmem, hdash⟩ := literal?_cases hlit
  rw [occurs_iff]
  constructor
  · rintro ⟨a, ha, hk⟩
    have hpre := literal_isPrefix_of hk hlit
    have hdocumented := hxs a ha (first_eq_dash_of_option hdash hpre)
    exact ⟨a, ha, eq_of_isPrefix_of_documented hmem hdocumented hpre⟩
  · rintro ⟨a, ha, heq⟩
    exact ⟨a, ha, of_eq_of_lower hlit heq⟩

end Chain

namespace First

/-- What the usage text promises of an accepted argument vector. -/
structure Documented (argv : List CString) : Prop where
  options : OnlyOptions argv.tail
  includeBootloader : (parseArgs argv).2.includeBootloader = true ↔
    ∃ a ∈ argv.tail, a.lower.bytes = optBbl
  ignoreNid : (parseArgs argv).2.ignoreNid = true ↔ ∃ a ∈ argv.tail, a.lower.bytes = optNid
  otaMode : (parseArgs argv).2.otaMode = true ↔ ∃ a ∈ argv.tail, a.lower.bytes = optOta
  sdMode : (parseArgs argv).2.sdMode = true ↔ ∃ a ∈ argv.tail, a.lower.bytes = optSd
  erase1 : (parseArgs argv).2.eraseMask.getLsbD 0 = true ↔
    ∃ a ∈ argv.tail, a.lower.bytes = optE1
  erase2 : (parseArgs argv).2.eraseMask.getLsbD 1 = true ↔
    ∃ a ∈ argv.tail, a.lower.bytes = optE2
  eraseOther : ∀ i, 2 ≤ i → (parseArgs argv).2.eraseMask.getLsbD i = false
  /-- The file opened is the one the user named last. -/
  romFile : lastFile? argv.tail = some (parseArgs argv).2.romFile
  /-- Moving options around changes nothing. -/
  order : ∀ argv', argv'.tail.Perm argv.tail →
    argv'.tail.filter (fun a => a.first ≠ dash) = argv.tail.filter (fun a => a.first ≠ dash) →
    parseArgs argv' = parseArgs argv

section Documented

variable {argv argv' : List CString}

theorem settings_perm {xs ys : List CString} (h : ys.Perm xs) : settings ys = settings xs := by
  have hoccurs (k : Arg) : occurs k ys = occurs k xs := by
    unfold occurs
    exact h.any_eq
  simp [settings, hoccurs]

/-- The order of the options never matters, documented or not. -/
theorem parseArgs_perm (h : argv'.tail.Perm argv.tail)
    (hfiles : argv'.tail.filter (fun a => a.first ≠ dash) =
      argv.tail.filter (fun a => a.first ≠ dash)) :
    parseArgs argv' = parseArgs argv := by
  have hoccurs (k : Arg) : occurs k argv'.tail = occurs k argv.tail := by
    unfold occurs
    exact h.any_eq
  have hfile : lastFile? argv'.tail = lastFile? argv.tail := congrArg List.getLast? hfiles
  simp only [parseArgs, foldl_parseArg, settings_perm h, hfile, hoccurs]

/-- A file name comes through unchanged when it is short and in lower case. -/
theorem fileName_eq_self_iff (f : CString) :
    fileName f = f ↔ f.bytes.length ≤ 127 ∧ f.lower = f := by
  rw [fileName_eq]
  constructor
  · intro h
    have hlen : f.bytes.length ≤ 127 := by
      have hbytes := congrArg (fun s : CString => s.bytes.length) h
      simp [CString.truncate] at hbytes
      omega
    refine ⟨hlen, ?_⟩
    rwa [(CString.truncate_eq_self_iff f 127).mpr hlen] at h
  · rintro ⟨hlen, hlower⟩
    rw [(CString.truncate_eq_self_iff f 127).mpr hlen, hlower]

theorem documented_of_onlyOptions {f : CString} (hoptions : OnlyOptions argv.tail)
    (hfile : lastFile? argv.tail = some f) (hname : fileName f = f) : Documented argv := by
  have hiff {k : Arg} {lit : List Byte} (hlit : k.literal? = some lit) :=
    occurs_iff_of_onlyOptions hoptions hlit
  have hmask : (parseArgs argv).2.eraseMask =
      (if occurs .e1 argv.tail then 1#8 else 0#8) |||
        (if occurs .e2 argv.tail then 2#8 else 0#8) := by
    simp [parseArgs, foldl_parseArg, settings]
  constructor
  · exact hoptions
  · rw [← hiff (k := .bbl) rfl]
    simp [parseArgs, foldl_parseArg, settings]
  · rw [← hiff (k := .nid) rfl]
    simp [parseArgs, foldl_parseArg, settings]
  · rw [← hiff (k := .ota) rfl]
    simp [parseArgs, foldl_parseArg, settings]
  · rw [← hiff (k := .sd) rfl]
    simp [parseArgs, foldl_parseArg, settings]
  · rw [← hiff (k := .e1) rfl, hmask]
    cases occurs .e1 argv.tail <;> cases occurs .e2 argv.tail <;> decide
  · rw [← hiff (k := .e2) rfl, hmask]
    cases occurs .e1 argv.tail <;> cases occurs .e2 argv.tail <;> decide
  · intro i hi
    rw [hmask]
    by_cases hlt : i < 8
    · have hcases : i = 2 ∨ i = 3 ∨ i = 4 ∨ i = 5 ∨ i = 6 ∨ i = 7 := by omega
      rcases hcases with rfl | rfl | rfl | rfl | rfl | rfl <;>
        cases occurs .e1 argv.tail <;> cases occurs .e2 argv.tail <;> decide
    · exact BitVec.getLsbD_of_ge _ _ (by omega)
  · simp [parseArgs, foldl_parseArg, hfile, hname]
  · intro argv' hperm hfiles
    exact parseArgs_perm hperm hfiles

/-- What is accepted is documented exactly when the arguments that begin with a dash
are options in full, and the last other one is short and in lower case; without a
file name nothing is accepted. -/
theorem documented_iff (argv : List CString) :
    ((parseArgs argv).1 = true → Documented argv) ↔
      ∀ f, lastFile? argv.tail = some f → f ≠ .empty →
        OnlyOptions argv.tail ∧ f.bytes.length ≤ 127 ∧ f.lower = f := by
  rw [parseArgs_fst_iff]
  constructor
  · intro h f hfile hne
    have hdocumented := h ⟨f, hfile, hne⟩
    have hname := hdocumented.romFile
    rw [hfile, Option.some.injEq] at hname
    refine ⟨hdocumented.options, (fileName_eq_self_iff f).mp ?_⟩
    simpa [parseArgs, foldl_parseArg, hfile] using hname.symm
  · rintro h ⟨f, hfile, hne⟩
    obtain ⟨hoptions, hname⟩ := h f hfile hne
    exact documented_of_onlyOptions hoptions hfile ((fileName_eq_self_iff f).mpr hname)

/-- `EC_flash -nidx ROM.bin` -/
def sloppyArgv : List CString :=
  [programName,
    ⟨ascii ['-', 'n', 'i', 'd', 'x'], by decide⟩,
    ⟨ascii ['R', 'O', 'M', '.', 'b', 'i', 'n'], by decide⟩]

/-- Not everything that is accepted is documented: here the ROM guard is off, and the
file `rom.bin` is opened. -/
theorem documented_fails :
    ¬ ∀ argv : List CString, (parseArgs argv).1 = true → Documented argv := by
  intro h
  have hdocumented := h sloppyArgv (by decide)
  have hname : lastFile? sloppyArgv.tail ≠ some (parseArgs sloppyArgv).2.romFile := by decide
  exact hname hdocumented.romFile

end Documented

end First
end EcFlash
