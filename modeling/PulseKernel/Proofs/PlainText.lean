/-
# What words and numerals are

The functions that take a text apart scan it from left to right. Here it is said without
them what they find: the words of a text are its maximal runs of characters that are not
blank (`Runs`), and a numeral is an optional plus sign and one or more ASCII digits, with
the value of these in base ten (`Denotes`). The words are all of them and there are no
others (`runs_iff`), and a numeral is read exactly if its number fits 32 bits
(`word32?_eq_some_iff`).

Key definitions: `Text.Runs`, `Text.Denotes`.
Key theorems: `Text.runs_iff`, `Text.valueFrom?_eq_some_iff`, `Text.word32?_eq_some_iff`.
-/
import Mathlib.Data.List.TakeWhile
import Mathlib.Data.Nat.Digits.Defs
import PulseKernel.Text.Blank
import PulseKernel.Text.Decimal

namespace PulseKernel
namespace Text

/-! ### Words -/

/-- The words are the maximal runs of characters that are not blank, in order: none is empty, and
after each the text ends or goes on with a blank. -/
inductive Runs : List Char → List (List Char) → Prop where
  | nil : Runs [] []
  | blank {c : Char} {cs : List Char} {ws : List (List Char)} (hc : isBlank c = true)
      (h : Runs cs ws) : Runs (c :: cs) ws
  | word {w cs : List Char} {ws : List (List Char)} (hne : w ≠ [])
      (hw : ∀ c ∈ w, isBlank c = false) (hend : ∀ c ∈ cs.head?, isBlank c = true)
      (h : Runs cs ws) : Runs (w ++ cs) (w :: ws)

/-- A run is found whole, and what comes after it is looked at next. -/
theorem words_append {w cs : List Char} (hne : w ≠ []) (hw : ∀ c ∈ w, isBlank c = false)
    (hend : ∀ c ∈ cs.head?, isBlank c = true) : words (w ++ cs) = w :: words cs := by
  obtain ⟨c, w, rfl⟩ := List.exists_cons_of_ne_nil hne
  obtain ⟨hc, hw⟩ := List.forall_mem_cons.mp hw
  have hall : ∀ d ∈ w, (!isBlank d) = true := fun d hd => by simp [hw d hd]
  have htake : cs.takeWhile (fun d => !isBlank d) = [] := by
    cases cs with
    | nil => rfl
    | cons d cs => simp [hend d (by simp)]
  have hdrop : cs.dropWhile (fun d => !isBlank d) = cs := by
    cases cs with
    | nil => rfl
    | cons d cs => simp [hend d (by simp)]
  rw [List.cons_append, words_cons_nonblank _ hc, List.takeWhile_append_of_pos hall,
    List.dropWhile_append_of_pos hall, htake, hdrop, List.append_nil]

theorem runs_words (cs : List Char) : Runs cs (words cs) := by
  fun_induction words cs with
  | case1 => exact .nil
  | case2 c cs hc ih => exact .blank hc ih
  | case3 c cs hc ih =>
    have hsplit : c :: cs = (c :: cs.takeWhile fun d => !isBlank d) ++
        cs.dropWhile fun d => !isBlank d := by
      rw [List.cons_append, List.takeWhile_append_dropWhile]
    rw [hsplit]
    refine .word (List.cons_ne_nil _ _) ?_ ?_ ih
    · refine List.forall_mem_cons.mpr ⟨by simpa using hc, fun d hd => ?_⟩
      simpa using List.mem_takeWhile_imp hd
    · intro d hd
      have hstop := List.head?_dropWhile_not (fun d => !isBlank d) cs
      rw [Option.mem_def.mp hd] at hstop
      simpa using hstop

/-- The words of a text are its maximal runs. -/
theorem runs_iff {cs : List Char} {ws : List (List Char)} : Runs cs ws ↔ words cs = ws := by
  refine ⟨fun h => ?_, fun h => h ▸ runs_words cs⟩
  induction h with
  | nil => exact words_nil
  | blank hc _ ih => rw [words_cons_blank _ hc, ih]
  | word hne hw hend _ ih => rw [words_append hne hw hend, ih]

/-! ### Numerals -/

/-- The value of digits in base ten, the most significant one first. -/
def digitsValue (digits : List Char) : Nat :=
  Nat.ofDigits 10 (digits.reverse.map fun c => c.toNat - '0'.toNat)

/-- The text is a numeral of the number. -/
def Denotes (text : List Char) (n : Nat) : Prop :=
  ∃ digits, (text = digits ∨ text = '+' :: digits) ∧ digits ≠ [] ∧
    (∀ c ∈ digits, '0' ≤ c ∧ c ≤ '9') ∧ digitsValue digits = n

theorem digitsValue_cons (c : Char) (digits : List Char) :
    digitsValue (c :: digits) =
      (c.toNat - '0'.toNat) * 10 ^ digits.length + digitsValue digits := by
  simp only [digitsValue, List.reverse_cons, List.map_append, List.map_cons, List.map_nil,
    Nat.ofDigits_append, Nat.ofDigits_singleton, List.length_map, List.length_reverse]
  ring

theorem digit?_eq_some_iff {c : Char} {d : Nat} :
    digit? c = some d ↔ ('0' ≤ c ∧ c ≤ '9') ∧ c.toNat - '0'.toNat = d := by
  unfold digit?
  split <;> simp_all

/-- The digits that go on from a number have their value, and the number the place before them. -/
theorem valueFrom?_eq_some_iff : ∀ {digits : List Char} {n m : Nat},
    valueFrom? n digits = some m ↔
      (∀ c ∈ digits, '0' ≤ c ∧ c ≤ '9') ∧ n * 10 ^ digits.length + digitsValue digits = m
  | [], n, m => by simp [valueFrom?, digitsValue]
  | c :: digits, n, m => by
    have hvalue : n * 10 ^ (c :: digits).length + digitsValue (c :: digits) =
        (10 * n + (c.toNat - '0'.toNat)) * 10 ^ digits.length + digitsValue digits := by
      rw [digitsValue_cons, List.length_cons]
      ring
    rw [hvalue, List.forall_mem_cons, and_assoc, ← valueFrom?_eq_some_iff, valueFrom?,
      Option.bind_eq_some_iff]
    simp only [digit?_eq_some_iff]
    constructor
    · rintro ⟨d, ⟨hc, rfl⟩, hrest⟩
      exact ⟨hc, hrest⟩
    · rintro ⟨hc, hrest⟩
      exact ⟨_, ⟨hc, rfl⟩, hrest⟩

theorem value?_eq_some_iff {digits : List Char} {n : Nat} :
    value? digits = some n ↔
      digits ≠ [] ∧ (∀ c ∈ digits, '0' ≤ c ∧ c ≤ '9') ∧ digitsValue digits = n := by
  cases digits with
  | nil => simp
  | cons c digits =>
    rw [value?, valueFrom?_eq_some_iff, Nat.zero_mul, Nat.zero_add]
    simp

/-- A numeral without its plus sign. -/
theorem denotes_iff {text : List Char} {n : Nat} :
    Denotes text n ↔
      value? (match text with | '+' :: rest => rest | _ => text) = some n := by
  rw [value?_eq_some_iff]
  constructor
  · rintro ⟨digits, rfl | rfl, hne, hdigits, hvalue⟩
    · split
      · -- a plus sign is no digit
        exact absurd (hdigits '+' List.mem_cons_self) (by decide)
      · exact ⟨hne, hdigits, hvalue⟩
    · exact ⟨hne, hdigits, hvalue⟩
  · intro h
    split at h
    · exact ⟨_, Or.inr rfl, h⟩
    · exact ⟨_, Or.inl rfl, h⟩

/-- A numeral is read exactly if its number fits 32 bits. -/
theorem word32?_eq_some_iff {text : List Char} {v : UInt32} :
    word32? text = some v ↔ Denotes text v.toNat := by
  unfold word32?
  rw [denotes_iff, Option.bind_eq_some_iff]
  constructor
  · rintro ⟨n, hn, hfits⟩
    split at hfits
    · rename_i hlt
      obtain rfl := Option.some.inj hfits
      rwa [UInt32.toNat_ofNat_of_lt' hlt]
    · cases hfits
  · intro h
    refine ⟨_, h, ?_⟩
    rw [if_pos v.toNat_lt_size, UInt32.ofNat_toNat]

end Text
end PulseKernel
