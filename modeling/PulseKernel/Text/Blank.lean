/-
# Blanks and words

A blank is a character with the Unicode property White_Space, and a word is a
maximal run of characters that are not blank.

Key definitions: `isBlank`, `words`.
Key theorems: `isBlank_of_isWhitespace`, `words_cons_blank`, `words_cons_nonblank`.
-/

namespace PulseKernel
namespace Text

/-- The code points of the property White_Space, as ranges with both ends in. -/
def blankRanges : List (Nat × Nat) :=
  [(0x0009, 0x000D), (0x0020, 0x0020), (0x0085, 0x0085), (0x00A0, 0x00A0), (0x1680, 0x1680),
    (0x2000, 0x200A), (0x2028, 0x2029), (0x202F, 0x202F), (0x205F, 0x205F), (0x3000, 0x3000)]

/-- Whether the character separates words. -/
def isBlank (c : Char) : Bool :=
  blankRanges.any fun r => r.1 ≤ c.toNat && c.toNat ≤ r.2

/-- Every character that the core library calls whitespace is a blank. -/
theorem isBlank_of_isWhitespace {c : Char} (h : c.isWhitespace = true) : isBlank c = true := by
  simp only [Char.isWhitespace, Bool.or_eq_true, decide_eq_true_eq] at h
  rcases h with ((rfl | rfl) | rfl) | rfl <;> decide

/-- The words of a text, in order. -/
def words : List Char → List (List Char)
  | [] => []
  | c :: cs =>
    if isBlank c then words cs
    else (c :: cs.takeWhile fun d => !isBlank d) :: words (cs.dropWhile fun d => !isBlank d)
termination_by cs => cs.length
decreasing_by
  · simp
  · exact Nat.lt_succ_of_le (List.dropWhile_suffix _).length_le

@[simp] theorem words_nil : words [] = [] := by
  rw [words]

theorem words_cons_blank {c : Char} (cs : List Char) (h : isBlank c = true) :
    words (c :: cs) = words cs := by
  rw [words, if_pos h]

theorem words_cons_nonblank {c : Char} (cs : List Char) (h : isBlank c = false) :
    words (c :: cs) =
      (c :: cs.takeWhile fun d => !isBlank d) :: words (cs.dropWhile fun d => !isBlank d) := by
  rw [words, if_neg (by simp [h])]

end Text
end PulseKernel
