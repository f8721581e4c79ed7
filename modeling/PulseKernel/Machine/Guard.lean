/-
# Interrupt guards

A guard keeps interrupts out while it is held. It remembers whether they were
let in before and lets them in again only then, so guards nest.

Key definitions: `InterruptGuard`, `InterruptGuard.acquire`,
`InterruptGuard.release`.
Key theorems: `InterruptGuard.interrupts_acquire`,
`InterruptGuard.interrupts_release_acquire`.
-/
import PulseKernel.Machine.Board

namespace PulseKernel

/-- A guard that is held. -/
structure InterruptGuard where
  /-- Whether the interrupt flag was set before. -/
  wasEnabled : Bool
deriving DecidableEq, Repr

namespace InterruptGuard

/-- Clears the interrupt flag, if it is set, for as long as the guard is held. -/
def acquire (b : Board) : InterruptGuard × Board :=
  (⟨b.interrupts⟩, if b.interrupts then b.mask else b)

/-- Gives the guard back: the flag is set if it was set before. -/
def release (g : InterruptGuard) (b : Board) : Board :=
  if g.wasEnabled then b.unmask else b

theorem interrupts_acquire (b : Board) : (acquire b).2.interrupts = false := by
  cases h : b.interrupts <;> simp [acquire, h]

theorem interrupts_release_acquire (b : Board) :
    ((acquire b).1.release (acquire b).2).interrupts = b.interrupts := by
  cases h : b.interrupts <;> simp [acquire, release, h]

end InterruptGuard

end PulseKernel
