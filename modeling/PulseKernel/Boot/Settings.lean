/-
# Boot settings

What the kernel's timer and scheduler are told at boot, and the reasons for
which settings are rejected. The values are checked in a fixed order, and the
first that is wrong is the one reported.

Key definitions: `Settings`, `SettingsError`, `Settings.check`.
Key theorems: `Settings.check_eq_ok`, `Settings.check_default`.
-/
import PulseKernel.Log.Level
import PulseKernel.Pulse.Rate

namespace PulseKernel

/-- The arguments of the boot line that set a value. -/
inductive BootKey where
  | ticksPerSecond
  | sourceHz
  | remainder
  | quantum
  | maxThreads
  | sleepSlots
  | logFilter
deriving DecidableEq, Repr

namespace BootKey

/-- The key as the boot line writes it. -/
def name : BootKey → String
  | ticksPerSecond => "timer.hz"
  | sourceHz => "timer.source_hz"
  | remainder => "timer.remainder_ns"
  | quantum => "sched.quantum"
  | maxThreads => "sched.max_threads"
  | sleepSlots => "sched.sleep_slots"
  | logFilter => "log"

/-- All keys. -/
def all : List BootKey :=
  [ticksPerSecond, sourceHz, remainder, quantum, maxThreads, sleepSlots, logFilter]

/-- The key of a name. -/
def ofName? (s : String) : Option BootKey :=
  all.find? fun k => k.name == s

end BootKey

/-- Why settings are rejected. -/
inductive SettingsError where
  /-- A quantum of no ticks. -/
  | zeroQuantum
  /-- A remainder of a full tick or more. -/
  | remainderOutOfRange (remainder : Nat)
  /-- The interval timer has no divisor for the rate. -/
  | invalidDivisor (sourceHz ticksPerSecond : Nat)
  /-- A thread table without slots, or with more slots than thread ids. -/
  | noThreadSlots
  /-- A sleep queue without slots. -/
  | noSleepSlots
  /-- A boot argument whose value cannot be read. -/
  | invalidValue (key : BootKey)
deriving DecidableEq, Repr

namespace SettingsError

/-- The message shown for the error. -/
def message : SettingsError → String
  | zeroQuantum => "quantum must be at least one tick"
  | remainderOutOfRange r => s!"pulse remainder {r} ns must be < {nanosPerTick}"
  | invalidDivisor s t => s!"no 16-bit PIT divisor for {s} Hz / {t} per second"
  | noThreadSlots => "thread table needs at least one slot"
  | noSleepSlots => "sleep queue needs at least one slot"
  | invalidValue k => s!"invalid value for boot argument '{k.name}'"

end SettingsError

/-- The boot settings; a field that is not given has its default. -/
structure Settings where
  /-- The input clock of the interval timer, in hertz. -/
  sourceHz : UInt32 := 1193180
  /-- The pulses wanted per second. -/
  ticksPerSecond : UInt32 := 1000
  /-- The nanoseconds that the tick clock adds at each pulse. -/
  remainder : UInt32 := 193180
  /-- The ticks from one rotation to the next. -/
  quantum : UInt32 := 10
  /-- The slots of the thread table. -/
  maxThreads : Nat := 256
  /-- The slots of the sleep queue. -/
  sleepSlots : Nat := 256
  /-- The records that the log lets through. -/
  logFilter : Log.Filter := .upTo .info
deriving DecidableEq, Repr

namespace Settings

/-- The largest thread table, whose slots still all have a 32-bit id. -/
def mostThreads : Nat := UInt32.size - 1

/-- The rate that the settings ask for. -/
def rate (s : Settings) : Except SettingsError PulseRate :=
  match PulseRate.ofFrequencies? s.sourceHz s.ticksPerSecond with
  | some rate => .ok rate
  | none => .error (.invalidDivisor s.sourceHz.toNat s.ticksPerSecond.toNat)

/-- Checks the settings, and reports the first that is wrong. -/
def check (s : Settings) : Except SettingsError Unit := do
  if s.quantum = 0 then throw .zeroQuantum
  if nanosPerTick ≤ s.remainder.toNat then throw (.remainderOutOfRange s.remainder.toNat)
  let _ ← s.rate
  if s.maxThreads = 0 ∨ mostThreads < s.maxThreads then throw .noThreadSlots
  if s.sleepSlots = 0 then throw .noSleepSlots

/-- What comes after a check is reached only if the check is passed. -/
theorem ite_throw_eq_ok {ε α β : Type} {c : Prop} [Decidable c] {e : ε} {f : β → Except ε α}
    {x : Except ε α} {a : α} : (if c then throw e >>= f else x) = .ok a ↔ ¬ c ∧ x = .ok a := by
  by_cases h : c <;> simp [h, throw, throwThe, MonadExceptOf.throw, bind, Except.bind]

theorem ite_throw_pure_eq_ok {ε α : Type} {c : Prop} [Decidable c] {e : ε} {a : α} :
    (if c then throw e else pure a : Except ε α) = .ok a ↔ ¬ c := by
  by_cases h : c <;> simp [h, throw, throwThe, MonadExceptOf.throw, pure, Except.pure]

/-- The settings that are accepted. -/
theorem check_eq_ok {s : Settings} :
    s.check = .ok () ↔ s.quantum ≠ 0 ∧ s.remainder.toNat < nanosPerTick ∧
      (∃ rate, s.rate = .ok rate) ∧ ¬ (s.maxThreads = 0 ∨ mostThreads < s.maxThreads) ∧
      s.sleepSlots ≠ 0 := by
  unfold check
  rw [ite_throw_eq_ok, ite_throw_eq_ok, Nat.not_le]
  cases s.rate with
  | error e => simp [bind, Except.bind]
  | ok rate =>
    have hrest : ∀ f : PulseRate → Except SettingsError Unit, (Except.ok rate >>= f) = f rate :=
      fun _ => rfl
    rw [hrest, ite_throw_eq_ok, ite_throw_pure_eq_ok]
    simp

theorem check_default : ({} : Settings).check = .ok () := by rfl

end Settings

end PulseKernel
