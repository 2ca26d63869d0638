import EcFlash.CString
import EcFlash.First.Main

/-!
# What the arguments of a command line mean

Both argument loops compare a lower-cased copy of each argument with the options in
the same order, by prefix, and take what does not begin with a dash for the file
name.  `Arg.of` is that chain as a function of the argument alone.  The two loops
differ only in what they do with its result.
-/

namespace EcFlash

open First (Options)

/-- How `main` goes on behind the argument loop: it exits, or it opens a file. -/
inductive Start where
  | exits (rc : Nat)
  | opens (file : CString) (opts : Options)

/-- The file that is opened, with the settings for it. -/
def Start.target? : Start → Option (CString × Options)
  | .exits _ => none
  | .opens file opts => some (file, opts)

/-- What a start without a file, and one with a file, is. -/
theorem Start.exists_exits {s : Start} (h : s.target? = none) : ∃ rc, s = .exits rc := by
  cases s with
  | exits rc => exact ⟨rc, rfl⟩
  | opens file opts => cases h

theorem Start.eq_opens {s : Start} {file : CString} {opts : Options}
    (h : s.target? = some (file, opts)) : s = .opens file opts := by
  cases s with
  | exits rc => cases h
  | opens file' opts' =>
      obtain ⟨rfl, rfl⟩ := Prod.mk.inj (Option.some.inj h)
      rfl

/-- The rest of `main`, where `fopen` finds the files `fs`; a file that does not open
is an error. -/
def Start.run {Program : Type*} (fs : CString → Option Image)
    (main : Options → Image → Program) : Start → Except Nat Program
  | .exits rc => .error rc
  | .opens file opts =>
      match fs file with
      | none => .error 1
      | some img => .ok (main opts img)

/-- The options, as the argument loops spell them. -/
def optD : List Byte := ascii ['-', 'd']
def optBbl : List Byte := ascii ['-', 'b', 'b', 'l']
def optE1 : List Byte := ascii ['-', 'e', '1']
def optE2 : List Byte := ascii ['-', 'e', '2']
def optNid : List Byte := ascii ['-', 'n', 'i', 'd']
def optOta : List Byte := ascii ['-', 'o', 't', 'a']
def optSd : List Byte := ascii ['-', 's', 'd']

/-- What the shell passes as `argv[0]`. -/
def programName : CString :=
  ⟨ascii ['E', 'C', '_', 'f', 'l', 'a', 's', 'h'], by decide⟩

/-- The name of a file. -/
def romName : CString :=
  ⟨ascii ['e', 'c', '.', 'r', 'o', 'm'], by decide⟩

/-- `EC_flash -nid ec.rom` -/
def nidArgv : List CString :=
  [programName, ⟨ascii ['-', 'n', 'i', 'd'], by decide⟩, romName]

/-- What becomes of an argument. -/
inductive Arg where
  | dump
  | bbl
  | e1
  | e2
  | nid
  | ota
  | sd
  | file
  | dropped
  deriving DecidableEq

/-- The arm of the chain that an argument takes. -/
def Arg.of (a : CString) : Arg :=
  if optD <+: a.lower.bytes then .dump
  else if optBbl <+: a.lower.bytes then .bbl
  else if optE1 <+: a.lower.bytes then .e1
  else if optE2 <+: a.lower.bytes then .e2
  else if optNid <+: a.lower.bytes then .nid
  else if optOta <+: a.lower.bytes then .ota
  else if optSd <+: a.lower.bytes then .sd
  else if a.first ≠ dash then .file
  else .dropped

/-- Some argument takes the arm `k`. -/
def occurs (k : Arg) (xs : List CString) : Bool :=
  xs.any fun a => Arg.of a = k

/-- The settings that the arguments make. -/
def settings (xs : List CString) : Options where
  eraseMask := (if occurs .e1 xs then 1#8 else 0#8) ||| (if occurs .e2 xs then 2#8 else 0#8)
  includeBootloader := occurs .bbl xs
  ignoreNid := occurs .nid xs
  otaMode := occurs .ota xs
  sdMode := occurs .sd xs

/-- The last argument that does not begin with a dash. -/
def lastFile? (xs : List CString) : Option CString :=
  (xs.filter fun a => a.first ≠ dash).getLast?

section Chain

variable {a : CString} {xs : List CString}

/-- Truncating the copy does not change the outcome of a comparison. -/
theorem strncmp_copy (lit : List Byte) (n : Nat) (hlen : lit.length = n) (hnul : 0#8 ∉ lit)
    (a : CString) {m : Nat} (h : n ≤ m) :
    strncmp (a.truncate m).lower.bytes lit n = 0 ↔ lit <+: a.lower.bytes := by
  rw [strncmp_eq_zero_iff hlen hnul, CString.lower_truncate, CString.truncate,
    List.prefix_take_iff]
  exact and_iff_left (by omega)

/-- An option begins with a dash. -/
theorem first_eq_dash_of_option {lit : List Byte} (hlit : lit.head? = some dash)
    (h : lit <+: a.lower.bytes) : a.first = dash := by
  obtain ⟨rest, hrest⟩ := h
  rw [← CString.first_lower_eq_dash_iff, CString.first, ← hrest]
  cases lit with
  | nil => simp at hlit
  | cons b lit => simpa using hlit

/-- What does not begin with a dash is a file name, and nothing else is. -/
theorem Arg.of_eq_file_iff : Arg.of a = .file ↔ a.first ≠ dash := by
  constructor
  · intro h
    unfold Arg.of at h
    repeat' split at h
    all_goals first | assumption | simp at h
  · intro h
    have hno {lit : List Byte} (hlit : lit.head? = some dash) : ¬ lit <+: a.lower.bytes :=
      mt (first_eq_dash_of_option hlit) h
    unfold Arg.of
    rw [if_neg (hno rfl), if_neg (hno rfl), if_neg (hno rfl), if_neg (hno rfl), if_neg (hno rfl),
      if_neg (hno rfl), if_neg (hno rfl), if_pos h]

@[simp] theorem occurs_nil (k : Arg) : occurs k [] = false := rfl

@[simp] theorem occurs_concat (k : Arg) (xs : List CString) (a : CString) :
    occurs k (xs ++ [a]) = (occurs k xs || decide (Arg.of a = k)) := by
  simp [occurs]

theorem of_eq_dump_iff : Arg.of a = .dump ↔ optD <+: a.lower.bytes := by
  constructor
  · intro h
    unfold Arg.of at h
    split at h
    · assumption
    · repeat' split at h
      all_goals simp at h
  · intro h
    rw [Arg.of, if_pos h]

theorem occurs_iff (k : Arg) : occurs k xs = true ↔ ∃ a ∈ xs, Arg.of a = k := by
  simp [occurs]

@[simp] theorem lastFile?_nil : lastFile? [] = none := rfl

theorem lastFile?_concat (xs : List CString) (a : CString) :
    lastFile? (xs ++ [a]) = if Arg.of a = .file then some a else lastFile? xs := by
  unfold lastFile?
  by_cases h : a.first = dash <;> simp [Arg.of_eq_file_iff, h]

theorem occurs_file_iff : occurs .file xs = true ↔ lastFile? xs ≠ none := by
  simp [occurs, lastFile?, Arg.of_eq_file_iff]

end Chain

end EcFlash
