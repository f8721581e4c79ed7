/-
# The first frame of a thread

A new thread starts by being switched to, so its stack has to look as if it
had been switched away from: the registers that a switch saves, all zero, then
the address of its entry, then a return address of zero, under which the entry
finds the stack aligned as a called function does.

Key definitions: `Frame`, `Frame.prepare?`.
-/
import PulseKernel.Thread.Basic

namespace PulseKernel

/-- A prepared stack and the context that resumes on it. -/
structure Frame where
  context : SavedContext
  /-- The words of the stack, the lowest address first. -/
  stack : Array UInt64
deriving DecidableEq, Repr

namespace Frame

/-- The bytes of a stack word. -/
def wordBytes : Nat := 8

/-- What the stack pointer is aligned to, in bytes. -/
def alignment : Nat := 16

/-- The number of registers that a switch saves. -/
def savedRegisters : Nat := 6

/-- The words of the frame, from the stack pointer upwards. -/
def words (entry : UInt64) : List UInt64 := List.replicate savedRegisters 0 ++ [entry, 0]

/-- The stack with the words of a list written over those from `index` on. -/
def overwrite (stack : Array UInt64) (index : Nat) : List UInt64 → Array UInt64
  | [] => stack
  | w :: ws => overwrite (stack.setIfInBounds index w) (index + 1) ws

/-- Writes the first frame at the highest aligned address of a stack that starts at address
`base`. A stack with no room for it is left alone. -/
def prepare? (base : Nat) (stack : Array UInt64) (entry : UInt64) : Option Frame :=
  let stop := base + stack.size * wordBytes
  let top := stop - stop % alignment
  let frame := words entry
  if top < base ∨ (top - base) / wordBytes < frame.length then none
  else
    some {
      context := ⟨UInt64.ofNat (top - frame.length * wordBytes)⟩
      stack := overwrite stack ((top - base) / wordBytes - frame.length) frame }

end Frame

end PulseKernel
