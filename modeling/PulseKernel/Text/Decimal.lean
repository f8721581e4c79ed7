/-
# Decimal numerals

Unsigned numerals in base ten, over the ASCII digits only: `numeral` writes
one, `value?` reads one, and `word32?` reads one that may carry a plus sign
and has to fit 32 bits.

Key definitions: `numeral`, `value?`, `word32?`.
Key theorems: `value?_nil`.
-/

namespace PulseKernel
namespace Text

/-- The value of an ASCII digit. -/
def digit? (c : Char) : Option Nat :=
  if '0' ≤ c ∧ c ≤ '9' then some (c.toNat - '0'.toNat) else none

/-- The numeral of a number, without leading zeros. -/
def numeral (n : Nat) : List Char :=
  if n < 10 then [Char.ofNat (n + '0'.toNat)]
  else numeral (n / 10) ++ [Char.ofNat (n % 10 + '0'.toNat)]

/-- The number that digits continue from `n`, most significant digit first. -/
def valueFrom? (n : Nat) : List Char → Option Nat
  | [] => some n
  | c :: cs => (digit? c).bind fun d => valueFrom? (10 * n + d) cs

/-- The number a numeral denotes. A numeral has at least one digit, and may start with zeros. -/
def value? : List Char → Option Nat
  | [] => none
  | c :: cs => valueFrom? 0 (c :: cs)

@[simp] theorem value?_nil : value? [] = none := rfl

/-- The 32-bit number that a numeral with an optional plus sign denotes. -/
def word32? (cs : List Char) : Option UInt32 :=
  let digits := match cs with
    | '+' :: rest => rest
    | _ => cs
  (value? digits).bind fun n => if n < UInt32.size then some (UInt32.ofNat n) else none

end Text
end PulseKernel
