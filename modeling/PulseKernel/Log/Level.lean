/-
# Log levels

A record has a level, and a filter says up to which level records are let
through.

Key definitions: `Level`, `Filter`, `Filter.allows`.
Key theorems: `Level.ofName?_name`, `Filter.ofName?_name`.
-/

namespace PulseKernel
namespace Log

/-- How much a record matters, the gravest level first. -/
inductive Level where
  | error
  | warn
  | info
  | debug
  | trace
deriving DecidableEq, Repr

namespace Level

/-- The place of the level, counted from one for the gravest. -/
def rank : Level → Nat
  | error => 1
  | warn => 2
  | info => 3
  | debug => 4
  | trace => 5

/-- The name of the level, as settings write it. -/
def name : Level → String
  | error => "error"
  | warn => "warn"
  | info => "info"
  | debug => "debug"
  | trace => "trace"

/-- The level as a line shows it, padded to five characters. -/
def label : Level → String
  | error => "ERROR"
  | warn => "WARN "
  | info => "INFO "
  | debug => "DEBUG"
  | trace => "TRACE"

/-- The level of a name; names are in lower case. -/
def ofName? : String → Option Level
  | "error" => some error
  | "warn" => some warn
  | "info" => some info
  | "debug" => some debug
  | "trace" => some trace
  | _ => none

theorem ofName?_name (l : Level) : ofName? l.name = some l := by
  cases l <;> rfl

end Level

/-- Which records are let through: none, or those up to a level. -/
inductive Filter where
  | off
  | upTo (level : Level)
deriving DecidableEq, Repr

namespace Filter

/-- Whether a record of this level is let through. -/
def allows : Filter → Level → Bool
  | off, _ => false
  | upTo most, l => l.rank ≤ most.rank

/-- The name of the filter: that of its level, or `off`. -/
def name : Filter → String
  | off => "off"
  | upTo l => l.name

/-- The filter of a name. -/
def ofName? (s : String) : Option Filter :=
  if s = "off" then some off else (Level.ofName? s).map upTo

theorem ofName?_name (f : Filter) : ofName? f.name = some f := by
  cases f with
  | off => rfl
  | upTo l => cases l <;> rfl

end Filter

end Log
end PulseKernel
