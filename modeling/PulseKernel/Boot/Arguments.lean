/-
# Boot arguments

The boot line is a list of words. A word `key=value` with a known key
overrides one setting, a later word winning over an earlier one; all other
words belong to someone else and are passed over.

Key definitions: `Override`, `Override.ofWord`, `Settings.ofBootLine`,
`Settings.overrides`.
Key theorems: `BootKey.ofName?_name`.
-/
import PulseKernel.Boot.Settings
import PulseKernel.Text.Blank
import PulseKernel.Text.Decimal

namespace PulseKernel

theorem BootKey.ofName?_name (k : BootKey) : BootKey.ofName? k.name = some k := by
  cases k <;> decide

/-- A new value for one setting. -/
inductive Override where
  | ticksPerSecond (value : UInt32)
  | sourceHz (value : UInt32)
  | remainder (value : UInt32)
  | quantum (value : UInt32)
  | maxThreads (value : UInt32)
  | sleepSlots (value : UInt32)
  | logFilter (value : Log.Filter)
deriving DecidableEq, Repr

namespace Override

/-- The override that sets `key` to the value written in `text`. -/
def read? (key : BootKey) (text : List Char) : Option Override :=
  match key with
  | .ticksPerSecond => (Text.word32? text).map ticksPerSecond
  | .sourceHz => (Text.word32? text).map sourceHz
  | .remainder => (Text.word32? text).map remainder
  | .quantum => (Text.word32? text).map quantum
  | .maxThreads => (Text.word32? text).map maxThreads
  | .sleepSlots => (Text.word32? text).map sleepSlots
  | .logFilter => (Log.Filter.ofName? (String.ofList text)).map logFilter

/-- The key of a word and the text of its value, if the word has an equals sign and its key is
known. The key ends at the first equals sign. -/
def split? (word : List Char) : Option (BootKey × List Char) :=
  match word.dropWhile (· != '=') with
  | [] => none
  | _ :: text =>
    (BootKey.ofName? (String.ofList (word.takeWhile (· != '=')))).map fun key => (key, text)

/-- The override of a word: none if the word is not for these settings, an error if its value
cannot be read. -/
def ofWord (word : List Char) : Except SettingsError (Option Override) :=
  match split? word with
  | none => .ok none
  | some (key, text) =>
    match read? key text with
    | some override => .ok (some override)
    | none => .error (.invalidValue key)

/-- The key that the override sets. -/
def key : Override → BootKey
  | ticksPerSecond _ => .ticksPerSecond
  | sourceHz _ => .sourceHz
  | remainder _ => .remainder
  | quantum _ => .quantum
  | maxThreads _ => .maxThreads
  | sleepSlots _ => .sleepSlots
  | logFilter _ => .logFilter

/-- The value of the override as the boot line writes it. -/
def value : Override → List Char
  | ticksPerSecond v | sourceHz v | remainder v | quantum v | maxThreads v | sleepSlots v =>
    Text.numeral v.toNat
  | logFilter f => f.name.toList

/-- The override as a word of the boot line. -/
def word (o : Override) : List Char := o.key.name.toList ++ '=' :: o.value

end Override

namespace Settings

/-- The settings with one value replaced. -/
def apply (s : Settings) : Override → Settings
  | .ticksPerSecond v => { s with ticksPerSecond := v }
  | .sourceHz v => { s with sourceHz := v }
  | .remainder v => { s with remainder := v }
  | .quantum v => { s with quantum := v }
  | .maxThreads v => { s with maxThreads := v.toNat }
  | .sleepSlots v => { s with sleepSlots := v.toNat }
  | .logFilter f => { s with logFilter := f }

/-- The settings after the words of a boot line. Reading stops at the first value that cannot be
read. -/
def applyWords (s : Settings) : List (List Char) → Except SettingsError Settings
  | [] => .ok s
  | word :: rest => do
    match ← Override.ofWord word with
    | none => s.applyWords rest
    | some override => (s.apply override).applyWords rest

/-- The settings of a boot line: the defaults with its overrides, if they pass the check. -/
def ofBootLine (line : String) : Except SettingsError Settings := do
  let settings ← ({} : Settings).applyWords (Text.words line.toList)
  settings.check
  return settings

/-- The overrides that set every field to its value here. -/
def overrides (s : Settings) : List Override :=
  [.ticksPerSecond s.ticksPerSecond, .sourceHz s.sourceHz, .remainder s.remainder,
    .quantum s.quantum, .maxThreads (UInt32.ofNat s.maxThreads),
    .sleepSlots (UInt32.ofNat s.sleepSlots), .logFilter s.logFilter]

end Settings

end PulseKernel
