/-
# Control words of the interval timer

The command byte of the programmable interval timer is a set of named bits;
some names cover more than one bit.

Key definitions: `ControlWord`, `ControlWord.names`, `ControlWord.rateGenerator`.
-/

namespace PulseKernel

/-- A command byte. -/
structure ControlWord where
  bits : UInt8
deriving DecidableEq, Repr

namespace ControlWord

/-- Counting in decimal digits and not in binary. -/
def decimal : ControlWord := ⟨0x01⟩

/-- Mode 2, a pulse at a fixed rate. -/
def rateMode : ControlWord := ⟨0x04⟩

/-- Mode 3, a square wave. -/
def squareMode : ControlWord := ⟨0x06⟩

/-- Access to the low byte of the counter only. -/
def lowByte : ControlWord := ⟨0x10⟩

/-- Access to the high byte of the counter only. -/
def highByte : ControlWord := ⟨0x20⟩

/-- Access to the low byte and then the high byte. -/
def bothBytes : ControlWord := ⟨0x30⟩

/-- Selects channel 1. -/
def channel1 : ControlWord := ⟨0x40⟩

/-- Selects channel 2. -/
def channel2 : ControlWord := ⟨0x80⟩

/-- The named control words, in the order in which they are listed. -/
def named : List (String × ControlWord) :=
  [("BCD", decimal), ("MODE_RATE", rateMode), ("MODE_SQUARE", squareMode), ("ACCESS_LO", lowByte),
    ("ACCESS_HI", highByte), ("ACCESS_LOHI", bothBytes), ("CHANNEL1", channel1),
    ("CHANNEL2", channel2)]

/-- The bits of either word. -/
def union (a b : ControlWord) : ControlWord := ⟨a.bits ||| b.bits⟩

/-- The bits of both words. -/
def inter (a b : ControlWord) : ControlWord := ⟨a.bits &&& b.bits⟩

/-- The bits of the first word that the second does not have. -/
def diff (a b : ControlWord) : ControlWord := ⟨a.bits &&& ~~~b.bits⟩

/-- Whether the word has all bits of the other. -/
def contains (a b : ControlWord) : Bool := a.bits &&& b.bits == b.bits

/-- Whether the words share a bit. -/
def intersects (a b : ControlWord) : Bool := a.bits &&& b.bits != 0

/-- All bits that have a name. -/
def known : ControlWord := named.foldl (fun w n => w.union n.2) ⟨0⟩

/-- Whether all bits of the word have a name. -/
def isKnown (w : ControlWord) : Bool := known.contains w

/-- The word without the bits that have no name. -/
def truncated (w : ControlWord) : ControlWord := w.inter known

/-- The names listed for the bits `rest` of the word, from `candidates`: a name is listed if the
word has all its bits and one of them has not been listed before. -/
def namesFrom (w : ControlWord) : List (String × ControlWord) → ControlWord → List String
  | [], _ => []
  | (name, bits) :: candidates, rest =>
    if w.contains bits && rest.intersects bits then
      name :: namesFrom w candidates (rest.diff bits)
    else namesFrom w candidates rest

/-- The names of the word's bits. -/
def names (w : ControlWord) : List String := namesFrom w named w

/-- Channel 0, both bytes, mode 2, counting in binary. -/
def rateGenerator : ControlWord := bothBytes.union rateMode

example : rateGenerator.bits = 0x34 := rfl

end ControlWord

end PulseKernel
