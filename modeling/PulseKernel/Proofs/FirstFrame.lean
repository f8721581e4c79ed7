/-
# Where a first frame leads

A switch to a thread pops its registers off its stack and returns to the address behind them
(`Stack.resume?`). A first frame is made for this: the thread arrives at its entry with all
registers zero, and its stack pointer stands as it does behind a call.

A stack may end between two boundaries of 16 bytes. The frame lies right below the highest
boundary that is not above its end (`Frame.boundary`), so one word at most stays above the frame;
and where that boundary is too low, be it below the stack itself, there is no frame.

The frame is placed by a byte address and written by an index of words. Both count from the base
of the stack, which is a multiple of a word, and so they agree (`Frame.prepare?_eq`).

Key definitions: `Stack`, `Stack.resume?`, `Frame.boundary`, `Frame.Begins`.
Key theorems: `Frame.toList_overwrite`, `Stack.resume?_eq`, `Frame.prepare?_begins`.
-/
import Mathlib.Order.Bounds.Basic
import PulseKernel.Thread.Frame

namespace PulseKernel

/-- A stack in memory. -/
structure Stack where
  /-- The address of its lowest word. -/
  base : Nat
  /-- Its words, the lowest address first. -/
  words : Array UInt64

/-- Where a thread goes on after it has been switched to. -/
structure Arrival where
  /-- The registers, in the order in which they were popped. -/
  registers : List UInt64
  /-- The address of the next instruction. -/
  target : UInt64
  stackPointer : Nat
deriving DecidableEq, Repr

namespace Stack

/-- The word at an address. -/
def word? (s : Stack) (address : Nat) : Option UInt64 :=
  if s.base ≤ address ∧ Frame.wordBytes ∣ address - s.base then
    s.words[(address - s.base) / Frame.wordBytes]?
  else none

/-- So many words from an address on, and the address behind them. -/
def pop? (s : Stack) (address : Nat) : Nat → Option (List UInt64 × Nat)
  | 0 => some ([], address)
  | count + 1 => do
    let word ← s.word? address
    let (rest, behind) ← s.pop? (address + Frame.wordBytes) count
    return (word :: rest, behind)

/-- Switches to a context that was saved on this stack: pops the saved registers and returns. -/
def resume? (s : Stack) (context : SavedContext) : Option Arrival := do
  let (registers, behind) ← s.pop? context.stackPointer.toNat Frame.savedRegisters
  let target ← s.word? behind
  return ⟨registers, target, behind + Frame.wordBytes⟩

variable {s : Stack} {below l above : List UInt64}

/-- Behind so many words lies the next one. -/
theorem word?_of_append {word : UInt64} (h : s.words.toList = below ++ word :: above) :
    s.word? (s.base + 8 * below.length) = some word := by
  have hbytes : Frame.wordBytes = 8 := rfl
  have hindex : (s.base + 8 * below.length - s.base) / 8 = below.length := by omega
  have hbase : s.base ≤ s.base + 8 * below.length ∧
      8 ∣ s.base + 8 * below.length - s.base := by omega
  rw [word?, hbytes, if_pos hbase, hindex, ← Array.getElem?_toList, h]
  simp

theorem pop?_of_append (h : s.words.toList = below ++ l ++ above) :
    s.pop? (s.base + 8 * below.length) l.length =
      some (l, s.base + 8 * (below.length + l.length)) := by
  induction l generalizing below with
  | nil => rfl
  | cons word l ih =>
    have hhead : s.words.toList = below ++ word :: (l ++ above) := by simpa using h
    have htail : s.words.toList = below ++ [word] ++ l ++ above := by simpa using h
    have hword := word?_of_append hhead
    have hnext : s.base + 8 * below.length + Frame.wordBytes =
        s.base + 8 * (below ++ [word]).length := by
      simp only [List.length_append, List.length_singleton, Frame.wordBytes]
      omega
    have hrest := ih htail
    have hlength : (below ++ [word]).length + l.length = below.length + (l.length + 1) := by
      simp only [List.length_append, List.length_singleton]
      omega
    rw [hlength] at hrest
    rw [List.length_cons, pop?, hword, hnext]
    simp only [Option.bind_eq_bind, Option.bind_some, hrest, Option.pure_def]

/-- A context saved where the registers lie, with an address behind them, leads to that address. -/
theorem resume?_eq {context : SavedContext} {target : UInt64}
    (h : s.words.toList = below ++ l ++ target :: above) (hl : l.length = Frame.savedRegisters)
    (hcontext : context.stackPointer.toNat = s.base + 8 * below.length) :
    s.resume? context = some ⟨l, target, context.stackPointer.toNat + 56⟩ := by
  have hpop := pop?_of_append (s := s) h
  have hword : s.word? (s.base + 8 * (below.length + l.length)) = some target := by
    have := word?_of_append h
    rwa [List.length_append] at this
  have hbehind : s.base + 8 * (below.length + l.length) + Frame.wordBytes =
      s.base + 8 * below.length + 56 := by
    rw [hl, Frame.wordBytes, Frame.savedRegisters]
    omega
  rw [resume?, ← hl, hcontext, hpop]
  simp [hword, hbehind]

end Stack

namespace Frame

/-! ### Where the frame is put -/

/-- The highest aligned address that is not above another one. -/
def boundary (stop : Nat) : Nat := stop - stop % alignment

theorem boundary_isGreatest (stop : Nat) : IsGreatest {a | 16 ∣ a ∧ a ≤ stop} (boundary stop) := by
  have hboundary : boundary stop = stop - stop % 16 := rfl
  constructor
  · show 16 ∣ boundary stop ∧ boundary stop ≤ stop
    omega
  · rintro a ⟨haligned, hle⟩
    omega

variable {base : Nat} {stack : Array UInt64} {entry : UInt64}

theorem length_words (entry : UInt64) : (words entry).length = 8 := rfl

/-- The frame is refused if it does not fit between the base and the boundary, and lies right
below the boundary otherwise. -/
theorem prepare?_eq (base : Nat) (stack : Array UInt64) (entry : UInt64) :
    prepare? base stack entry =
      if boundary (base + 8 * stack.size) < base + 64 then none
      else some {
        context := ⟨UInt64.ofNat (boundary (base + 8 * stack.size) - 64)⟩
        stack := overwrite stack ((boundary (base + 8 * stack.size) - base) / 8 - 8)
          (words entry) } := by
  have hbytes : wordBytes = 8 := rfl
  have hrefused : ∀ top, (top < base ∨ (top - base) / 8 < 8) ↔ top < base + 64 := by
    intro top
    omega
  simp only [prepare?, length_words, hbytes, Nat.mul_comm stack.size, Nat.reduceMul,
    ← boundary.eq_def, hrefused]

/-- Words that are written within the stack replace those which were there. -/
theorem toList_overwrite {l : List UInt64} {index : Nat} (h : index + l.length ≤ stack.size) :
    (overwrite stack index l).toList =
      stack.toList.take index ++ l ++ stack.toList.drop (index + l.length) := by
  induction l generalizing stack index with
  | nil => simp [overwrite]
  | cons word l ih =>
    rw [List.length_cons] at h
    have hindex : index < stack.toList.length := by
      rw [Array.length_toList]
      omega
    have htake : (stack.toList.set index word).take (index + 1) =
        stack.toList.take index ++ [word] := by
      rw [List.take_add_one, List.take_set_of_le (Nat.le_refl index),
        List.getElem?_set_self hindex]
      rfl
    have hdrop : (stack.toList.set index word).drop (index + 1 + l.length) =
        stack.toList.drop (index + (l.length + 1)) := by
      rw [List.drop_set_of_lt (by omega)]
      congr 1
      omega
    rw [overwrite, ih (by rw [Array.size_setIfInBounds]; omega), Array.toList_setIfInBounds,
      htake, hdrop, List.length_cons]
    simp

/-! ### What the frame is -/

/-- The words of a stack after a first frame was asked for. -/
def wordsAfter (base : Nat) (stack : Array UInt64) (entry : UInt64) : Array UInt64 :=
  ((prepare? base stack entry).map (·.stack)).getD stack

/-- A first frame on a stack that starts at `base`, for a thread that starts at `entry`. -/
structure Begins (f : Frame) (base : Nat) (stack : Array UInt64) (entry : UInt64) : Prop where
  aligned : 16 ∣ f.context.stackPointer.toNat
  inside : base ≤ f.context.stackPointer.toNat ∧
    f.context.stackPointer.toNat < base + 8 * stack.size
  /-- Eight words are replaced, from the stack pointer upwards, with one word at most above. -/
  replaced : ∃ below old above, stack.toList = below ++ old ++ above ∧
    f.stack.toList = below ++ (List.replicate 6 0 ++ [entry, 0]) ++ above ∧
    f.context.stackPointer.toNat = base + 8 * below.length ∧ old.length = 8 ∧ above.length ≤ 1
  /-- A switch to the frame arrives at the entry, with the stack as a call leaves it. -/
  arrives : ∃ a, (Stack.mk base f.stack).resume? f.context = some a ∧
    a.registers = List.replicate 6 0 ∧ a.target = entry ∧
    a.stackPointer = f.context.stackPointer.toNat + 56 ∧ 16 ∣ a.stackPointer + 8

/-- A frame is a first frame if it takes the place of eight words at an aligned stack pointer. -/
theorem begins_of_replaced {f : Frame} {below old above : List UInt64}
    (haligned : 16 ∣ f.context.stackPointer.toNat) (hstack : stack.toList = below ++ old ++ above)
    (hframe : f.stack.toList = below ++ (List.replicate 6 0 ++ [entry, 0]) ++ above)
    (hcontext : f.context.stackPointer.toNat = base + 8 * below.length) (hold : old.length = 8)
    (habove : above.length ≤ 1) : f.Begins base stack entry := by
  have hsize : stack.size = below.length + 8 + above.length := by
    rw [← Array.length_toList, hstack, List.length_append, List.length_append, hold]
  have hwords : (Stack.mk base f.stack).words.toList =
      below ++ List.replicate 6 0 ++ entry :: 0 :: above := by
    rw [hframe]
    simp
  have harrival : (Stack.mk base f.stack).resume? f.context =
      some ⟨List.replicate 6 0, entry, f.context.stackPointer.toNat + 56⟩ :=
    Stack.resume?_eq hwords rfl hcontext
  exact {
    aligned := haligned
    inside := by omega
    replaced := ⟨below, old, above, hstack, hframe, hcontext, hold, habove⟩
    arrives := ⟨_, harrival, rfl, rfl, rfl, by show 16 ∣ _ + 56 + 8; omega⟩ }

/-- A frame that was prepared is a first frame. -/
theorem begins_of_prepare? {f : Frame} (hbase : 8 ∣ base)
    (hspace : base + 8 * stack.size < UInt64.size) (h : prepare? base stack entry = some f) :
    f.Begins base stack entry := by
  obtain ⟨⟨haligned, htop⟩, hgreatest⟩ := boundary_isGreatest (base + 8 * stack.size)
  have hnear : base + 8 * stack.size < boundary (base + 8 * stack.size) + 16 := by
    by_contra hfar
    have := hgreatest (show boundary (base + 8 * stack.size) + 16 ∈ _ from ⟨by omega, by omega⟩)
    omega
  rw [prepare?_eq] at h
  generalize boundary (base + 8 * stack.size) = top at h haligned htop hnear
  split at h
  · cases h
  rename_i hroom
  obtain rfl := Option.some.inj h
  -- the number of words below the frame
  obtain ⟨k, hk⟩ : ∃ k, top = base + 8 * k + 64 := ⟨(top - base) / 8 - 8, by omega⟩
  have hindex : (top - base) / 8 - 8 = k := by omega
  have hfits : k + (words entry).length ≤ stack.size := by
    rw [length_words]
    omega
  have hcontext : (UInt64.ofNat (top - 64)).toNat = base + 8 * k := by
    rw [UInt64.toNat_ofNat_of_lt' (by omega)]
    omega
  have hbelow : (stack.toList.take k).length = k := by
    rw [List.length_take, Array.length_toList]
    omega
  have hstack : stack.toList =
      stack.toList.take k ++ (stack.toList.drop k).take 8 ++ stack.toList.drop (k + 8) := by
    rw [← List.drop_drop, List.append_assoc, List.take_append_drop, List.take_append_drop]
  refine begins_of_replaced ?_ hstack ?_ ?_ ?_ ?_
  · rw [hcontext]
    omega
  · rw [hindex]
    exact toList_overwrite hfits
  · rw [hcontext, hbelow]
  · rw [length_words] at hfits
    rw [List.length_take, List.length_drop, Array.length_toList]
    omega
  · rw [List.length_drop, Array.length_toList]
    omega

/-- On a stack of whole words there is a first frame exactly if eight words fit between its base
and the highest boundary of 16 bytes that is not above its end. Without one, the stack stays as it
was. -/
theorem prepare?_begins (base : Nat) (stack : Array UInt64) (entry : UInt64) (hbase : 8 ∣ base)
    (hspace : base + 8 * stack.size < UInt64.size) :
    ∃ top, IsGreatest {a | 16 ∣ a ∧ a ≤ base + 8 * stack.size} top ∧
      (prepare? base stack entry = none ↔ top < base + 8 * 8) ∧
      (prepare? base stack entry = none → wordsAfter base stack entry = stack) ∧
      ∀ f, prepare? base stack entry = some f → f.Begins base stack entry := by
  refine ⟨_, boundary_isGreatest _, ?_, fun hnone => ?_,
    fun f hf => begins_of_prepare? hbase hspace hf⟩
  · rw [prepare?_eq]
    simp
  · rw [wordsAfter, hnone]
    rfl

example : prepare? 65544 #[] 4096 = none := by decide

/-- Nine words from an address that is 8 above a boundary: the lowest one is left over. -/
theorem prepare?_begins_nine_words :
    8 ∣ 65544 ∧ 65544 + 8 * (Array.replicate 9 (7 : UInt64)).size < UInt64.size ∧
      ∃ f, prepare? 65544 (Array.replicate 9 7) 4096 = some f ∧
        f.stack = #[7, 0, 0, 0, 0, 0, 0, 4096, 0] ∧
        f.Begins 65544 (Array.replicate 9 7) 4096 := by
  have hbase : 8 ∣ 65544 := by decide
  have hspace : 65544 + 8 * (Array.replicate 9 (7 : UInt64)).size < UInt64.size := by decide
  have hframe : prepare? 65544 (Array.replicate 9 7) 4096 =
      some ⟨⟨65552⟩, #[7, 0, 0, 0, 0, 0, 0, 4096, 0]⟩ := by decide
  obtain ⟨top, -, -, -, hbegins⟩ :=
    prepare?_begins 65544 (Array.replicate 9 7) 4096 hbase hspace
  exact ⟨hbase, hspace, _, hframe, rfl, hbegins _ hframe⟩

end Frame
end PulseKernel
