/-
# Starting the machine

At boot the settings are checked, the interval timer is programmed, and the
scheduler is made. Settings that are rejected leave the board untouched.

Key definitions: `Machine.programTimer`, `Machine.boot`.
Key theorems: `Machine.programTimer_of_rejected`, `Machine.programTimer_of_accepted`,
`Machine.boot_of_rejected`, `Machine.boot_of_accepted`.
-/
import PulseKernel.Machine.Basic

namespace PulseKernel
namespace Machine

variable {π : Type}

/-- What boot tells the log. -/
def bootNotices (settings : Settings) (rate : PulseRate) : List Notice :=
  .rateSet rate.divisor.toNat rate.period rate.drift settings.quantum.toNat ::
    if rate.tracks settings.remainder.toNat then []
    else [.remainderOffRate settings.remainder.toNat rate.drift]

/-- What boot does with the board: the settings are checked, and the interval timer is programmed to
the rate they ask for. What has been done with the board stays, also if the settings are rejected. -/
def programTimer (settings : Settings) : ExceptT SettingsError (StateM Board) PulseRate := do
  settings.check
  let rate ← settings.rate
  modify (·.write rate.program)
  return rate

/-- The machine started with the settings. -/
def boot (settings : Settings) (policy : π) (handoff : QueueId) (board : Board) :
    Except SettingsError (Machine π) :=
  let (outcome, board) := (programTimer settings).run board
  outcome.map fun rate => {
    board := board
    rate := rate
    scheduler := .ofSettings settings policy handoff
    told := (bootNotices settings rate).reverse }

theorem programTimer_of_rejected {settings : Settings} {e : SettingsError} (board : Board)
    (h : settings.check = .error e) : (programTimer settings).run board = (.error e, board) := by
  rw [programTimer, h]
  rfl

theorem programTimer_of_accepted {settings : Settings} {rate : PulseRate} (board : Board)
    (hcheck : settings.check = .ok ()) (hrate : settings.rate = .ok rate) :
    (programTimer settings).run board = (.ok rate, board.write rate.program) := by
  rw [programTimer, hcheck, hrate]
  rfl

theorem boot_of_rejected {settings : Settings} {e : SettingsError} (policy : π)
    (handoff : QueueId) (board : Board) (h : settings.check = .error e) :
    boot settings policy handoff board = .error e := by
  rw [boot, programTimer_of_rejected board h]
  rfl

theorem boot_of_accepted {settings : Settings} {rate : PulseRate} (policy : π) (handoff : QueueId)
    (board : Board) (hcheck : settings.check = .ok ()) (hrate : settings.rate = .ok rate) :
    boot settings policy handoff board = .ok {
      board := board.write rate.program
      rate := rate
      scheduler := .ofSettings settings policy handoff
      told := (bootNotices settings rate).reverse } := by
  rw [boot, programTimer_of_accepted board hcheck hrate]
  rfl

end Machine
end PulseKernel
