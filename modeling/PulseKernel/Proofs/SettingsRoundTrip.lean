/-
# Settings survive the boot line

Settings are written on a boot line as one word for every field. The words may stand in any
order, with any blanks between them, and words that are somebody else's may stand among
them. Reading the line gives the settings back (`Settings.ofBootLine_written`).

Reading undoes the writing in three places. The blanks that keep the words apart are where
the line is cut (`Text.Spaced.runs`), a numeral denotes the number that it was made from
(`Text.denotes_numeral`), and since there is one word for every key, the settings follow
the words in whatever order these stand (`Settings.follows_written`).

Key definitions: `Text.IsWord`, `Text.Piece`, `Text.written`, `Text.Spaced`.
Key theorems: `Text.Spaced.runs`, `Text.denotes_numeral`, `Override.sets_word`,
`Settings.follows_written`, `Settings.ofBootLine_written`.
-/
import PulseKernel.Proofs.BootLine

namespace PulseKernel
namespace Text

/-! ### Words with blanks between them -/

/-- What a line can hold as one word. -/
structure IsWord (w : List Char) : Prop where
  nonempty : w ≠ []
  solid : ∀ c ∈ w, isBlank c = false

theorem forall_solid_iff {w : List Char} :
    (∀ c ∈ w, isBlank c = false) ↔ w.any isBlank = false := by
  simp only [List.any_eq_false, Bool.not_eq_true]

theorem isWord_iff {w : List Char} : IsWord w ↔ w ≠ [] ∧ w.any isBlank = false := by
  rw [← forall_solid_iff]
  exact ⟨fun h => ⟨h.nonempty, h.solid⟩, fun h => ⟨h.1, h.2⟩⟩

instance {w : List Char} : Decidable (IsWord w) := decidable_of_iff _ isWord_iff.symm

/-- A word and what stands between it and the word before. -/
structure Piece where
  gap : List Char
  word : List Char
deriving DecidableEq, Repr

/-- The text of some pieces, and what comes behind the last one. -/
def written : List Piece → List Char → List Char
  | [], trail => trail
  | p :: rest, trail => p.gap ++ (p.word ++ written rest trail)

/-- Between two words there are blanks and at least one of them; there may be blanks in front of the
first word and behind the last one. -/
structure Spaced (pieces : List Piece) (trail : List Char) : Prop where
  gaps : ∀ p ∈ pieces, ∀ c ∈ p.gap, isBlank c = true
  apart : ∀ p ∈ pieces.tail, p.gap ≠ []
  trail : ∀ c ∈ trail, isBlank c = true

variable {p : Piece} {rest : List Piece} {trail cs : List Char} {ws : List (List Char)}

theorem spaced_iff {pieces : List Piece} : Spaced pieces trail ↔
    (pieces.all fun p => p.gap.all isBlank) = true ∧ (∀ p ∈ pieces.tail, p.gap ≠ []) ∧
      trail.all isBlank = true := by
  simp only [List.all_eq_true]
  exact ⟨fun h => ⟨h.gaps, h.apart, h.trail⟩, fun h => ⟨h.1, h.2.1, h.2.2⟩⟩

instance {pieces : List Piece} : Decidable (Spaced pieces trail) :=
  decidable_of_iff _ spaced_iff.symm

theorem Spaced.tail (h : Spaced (p :: rest) trail) : Spaced rest trail where
  gaps q hq := h.gaps q (List.mem_cons_of_mem p hq)
  apart q hq := h.apart q (List.mem_of_mem_tail hq)
  trail := h.trail

/-- The text ends behind a word, or goes on with a blank. -/
theorem Spaced.head?_blank (h : Spaced (p :: rest) trail) :
    ∀ c ∈ (written rest trail).head?, isBlank c = true := by
  intro c hc
  cases rest with
  | nil => exact h.trail c (List.mem_of_head? hc)
  | cons q rest =>
    have hq : q.gap ≠ [] := h.apart q List.mem_cons_self
    obtain ⟨b, gap, hgap⟩ := List.exists_cons_of_ne_nil hq
    have hbc : b = c := by simpa [written, hgap] using hc
    have hb : b ∈ q.gap := by rw [hgap]; exact List.mem_cons_self
    exact hbc ▸ h.gaps q (by simp) b hb

theorem Runs.blanks : ∀ {gap : List Char}, (∀ c ∈ gap, isBlank c = true) → Runs cs ws →
    Runs (gap ++ cs) ws
  | [], _, h => h
  | c :: gap, hgap, h => by
    obtain ⟨hc, hgap⟩ := List.forall_mem_cons.mp hgap
    exact .blank hc (Runs.blanks hgap h)

/-- The words that were written are the runs of the text. -/
theorem Spaced.runs : ∀ {pieces : List Piece}, Spaced pieces trail →
    (∀ p ∈ pieces, IsWord p.word) → Runs (written pieces trail) (pieces.map (·.word))
  | [], h, _ => by
    have hblanks : Runs (trail ++ []) [] := Runs.blanks h.trail .nil
    rwa [List.append_nil] at hblanks
  | p :: rest, h, hwords => by
    obtain ⟨hp, hrest⟩ := List.forall_mem_cons.mp hwords
    have ih := h.tail.runs hrest
    have hgap : ∀ c ∈ p.gap, isBlank c = true := h.gaps p List.mem_cons_self
    exact Runs.blanks hgap (.word hp.nonempty hp.solid h.head?_blank ih)

/-! ### Numerals -/

theorem digit_ofNat : ∀ d < 10, '0' ≤ Char.ofNat (d + '0'.toNat) ∧
    Char.ofNat (d + '0'.toNat) ≤ '9' ∧ (Char.ofNat (d + '0'.toNat)).toNat - '0'.toNat = d := by
  decide

theorem digitsValue_concat (digits : List Char) (c : Char) :
    digitsValue (digits ++ [c]) = 10 * digitsValue digits + (c.toNat - '0'.toNat) := by
  rw [digitsValue, digitsValue, List.reverse_concat, List.map_cons, Nat.ofDigits_cons]
  exact Nat.add_comm _ _

theorem numeral_ne_nil (n : Nat) : numeral n ≠ [] := by
  unfold numeral
  split <;> simp

theorem digit_of_mem_numeral {n : Nat} : ∀ c ∈ numeral n, '0' ≤ c ∧ c ≤ '9' := by
  fun_induction numeral n with
  | case1 n hn =>
    obtain ⟨hlow, hhigh, -⟩ := digit_ofNat n hn
    exact List.forall_mem_singleton.mpr ⟨hlow, hhigh⟩
  | case2 n hn ih =>
    have hlast : n % 10 < 10 := Nat.mod_lt n (by decide)
    obtain ⟨hlow, hhigh, -⟩ := digit_ofNat (n % 10) hlast
    exact List.forall_mem_append.mpr ⟨ih, List.forall_mem_singleton.mpr ⟨hlow, hhigh⟩⟩

theorem digitsValue_numeral (n : Nat) : digitsValue (numeral n) = n := by
  fun_induction numeral n with
  | case1 n hn =>
    obtain ⟨-, -, hvalue⟩ := digit_ofNat n hn
    calc digitsValue [Char.ofNat (n + '0'.toNat)]
        = 10 * digitsValue [] + ((Char.ofNat (n + '0'.toNat)).toNat - '0'.toNat) :=
          digitsValue_concat [] _
      _ = n := by rw [hvalue]; simp [digitsValue]
  | case2 n hn ih =>
    have hlast : n % 10 < 10 := Nat.mod_lt n (by decide)
    obtain ⟨-, -, hvalue⟩ := digit_ofNat (n % 10) hlast
    rw [digitsValue_concat, ih, hvalue]
    exact Nat.div_add_mod n 10

/-- A numeral denotes the number that it was made from. -/
theorem denotes_numeral (n : Nat) : Denotes (numeral n) n :=
  ⟨numeral n, Or.inl rfl, numeral_ne_nil n, digit_of_mem_numeral, digitsValue_numeral n⟩

theorem isBlank_of_digit {c : Char} (hlow : '0' ≤ c) (hhigh : c ≤ '9') : isBlank c = false := by
  have h₁ : 48 ≤ c.toNat := hlow
  have h₂ : c.toNat ≤ 57 := hhigh
  rw [isBlank, Bool.eq_false_iff]
  intro hblank
  simp only [blankRanges, List.any_cons, List.any_nil, Bool.or_eq_true, Bool.and_eq_true,
    decide_eq_true_eq, Bool.false_eq_true, or_false] at hblank
  omega

end Text

/-! ### The words of settings -/

namespace Override

theorem isWord_word (o : Override) : Text.IsWord o.word where
  nonempty := by simp [word]
  solid := by
    have hkey : o.key.name.toList.any Text.isBlank = false := by
      cases o.key <;> decide
    have hfilter : ∀ f : Log.Filter, f.name.toList.any Text.isBlank = false := by
      rintro (_ | l)
      · decide
      · cases l <;> decide
    have hvalue : ∀ c ∈ o.value, Text.isBlank c = false := by
      cases o with
      | logFilter f => exact Text.forall_solid_iff.mpr (hfilter f)
      | _ v =>
        intro c hc
        obtain ⟨hlow, hhigh⟩ := Text.digit_of_mem_numeral c hc
        exact Text.isBlank_of_digit hlow hhigh
    have hequals : Text.isBlank '=' = false := by decide
    refine List.forall_mem_append.mpr ⟨Text.forall_solid_iff.mpr hkey, ?_⟩
    exact List.forall_mem_cons.mpr ⟨hequals, hvalue⟩

/-- The word of an override sets its key to its value. -/
theorem sets_word (o : Override) : Sets o.word o := by
  have hkey : '=' ∉ o.key.name.toList := by cases o.key <;> decide
  refine ⟨o.value, ⟨o.key.name.toList, rfl, hkey, String.ofList_toList⟩, ?_⟩
  cases o with
  | logFilter f => exact String.ofList_toList
  | _ v => exact Text.denotes_numeral v.toNat

end Override

namespace Settings

open Override

variable {s start : Settings} {words foreign : List (List Char)}

/-- Settings have the values that their overrides give. -/
theorem setting_of_mem_overrides (hthreads : s.maxThreads < UInt32.size)
    (hslots : s.sleepSlots < UInt32.size) {o : Override} (ho : o ∈ s.overrides) :
    s.setting o.key = o.setting := by
  have hthreads' : (UInt32.ofNat s.maxThreads).toNat = s.maxThreads :=
    UInt32.toNat_ofNat_of_lt' hthreads
  have hslots' : (UInt32.ofNat s.sleepSlots).toNat = s.sleepSlots :=
    UInt32.toNat_ofNat_of_lt' hslots
  simp only [overrides, List.mem_cons, List.not_mem_nil, or_false] at ho
  rcases ho with rfl | rfl | rfl | rfl | rfl | rfl | rfl
  all_goals simp [key, setting, Override.setting, hthreads', hslots']

/-- There is an override for every key. -/
theorem exists_mem_overrides (s : Settings) (key : BootKey) : ∃ o ∈ s.overrides, o.key = key := by
  cases key <;> simp [overrides, Override.key]

/-- A word that is written for some settings is one of their overrides or somebody else's. -/
theorem written_cases (hwords : words.Perm (s.overrides.map Override.word ++ foreign))
    {w : List Char} (hw : w ∈ words) : (∃ o ∈ s.overrides, o.word = w) ∨ w ∈ foreign := by
  rcases List.mem_append.mp (hwords.mem_iff.mp hw) with hown | hforeign
  · exact Or.inl (List.mem_map.mp hown)
  · exact Or.inr hforeign

/-- None of the words that are written for some settings is malformed. -/
theorem not_malformed_written (hwords : words.Perm (s.overrides.map Override.word ++ foreign))
    (hforeign : ∀ w ∈ foreign, Foreign w) : ∀ w ∈ words, ∀ key, ¬ Malformed w key := by
  rintro w hw key ⟨text, hgives, hnone⟩
  rcases written_cases hwords hw with ⟨o, -, rfl⟩ | hf
  · obtain ⟨value, hgives', hwrites⟩ := o.sets_word
    obtain ⟨hkey, rfl⟩ := hgives.unique hgives'
    exact hnone o hkey hwrites
  · exact hforeign w hf key text hgives

/-- Settings follow the words that are written for them, whatever the order of these. -/
theorem follows_written (hthreads : s.maxThreads < UInt32.size)
    (hslots : s.sleepSlots < UInt32.size)
    (hwords : words.Perm (s.overrides.map Override.word ++ foreign))
    (hforeign : ∀ w ∈ foreign, Foreign w) : s.Follows start words where
  given := by
    rintro o ⟨before, w, after, rfl, hsets, -⟩
    have hw : w ∈ before ++ w :: after := by simp
    rcases written_cases hwords hw with ⟨o', ho', rfl⟩ | hf
    · obtain rfl := o'.sets_word.unique hsets
      exact setting_of_mem_overrides hthreads hslots ho'
    · obtain ⟨text, hgives, -⟩ := hsets
      exact absurd hgives (hforeign w hf o.key text)
  unset := by
    -- every key has a word, so none is left as it was
    intro key hunset
    obtain ⟨o, ho, rfl⟩ := s.exists_mem_overrides key
    have hw : o.word ∈ words :=
      hwords.mem_iff.mpr (List.mem_append_left _ (List.mem_map_of_mem ho))
    obtain ⟨text, hgives, -⟩ := o.sets_word
    exact absurd hgives (hunset o.word hw text)

/-- Settings that pass the check and whose numbers fit 32 bits survive the boot line. Each of their
fields is written as a word, and the words stand in any order, among any words that are somebody
else's and with any blanks between them; reading this line gives the settings back. -/
theorem ofBootLine_written (hcheck : s.check = .ok ()) (hthreads : s.maxThreads < UInt32.size)
    (hslots : s.sleepSlots < UInt32.size) {pieces : List Text.Piece} {trail : List Char}
    (hspaced : Text.Spaced pieces trail)
    (hwords : (pieces.map (·.word)).Perm (s.overrides.map Override.word ++ foreign))
    (hforeign : ∀ w ∈ foreign, Text.IsWord w ∧ Foreign w) :
    ofBootLine (String.ofList (Text.written pieces trail)) = .ok s := by
  have hothers : ∀ w ∈ foreign, Foreign w := fun w hw => (hforeign w hw).2
  have hisWord : ∀ p ∈ pieces, Text.IsWord p.word := by
    intro p hp
    rcases written_cases hwords (List.mem_map_of_mem hp) with ⟨o, -, ho⟩ | hf
    · exact ho ▸ o.isWord_word
    · exact (hforeign p.word hf).1
  have hruns : Text.words (String.ofList (Text.written pieces trail)).toList =
      pieces.map (·.word) := by
    rw [String.toList_ofList]
    exact Text.runs_iff.mp (hspaced.runs hisWord)
  have hwell := not_malformed_written hwords hothers
  obtain ⟨s', hs', hfollows⟩ := exists_follows {} hwell
  have hs : s.Follows {} (pieces.map (·.word)) :=
    follows_written hthreads hslots hwords hothers
  obtain rfl : s = s' := hfollows.unique hs hwell
  rw [ofBootLine_of_ok (hruns ▸ hs'), hcheck]
  rfl

/-- The words stand in another order than the fields, with tabs and a line end between and behind
them, and with two words that are somebody else's. -/
theorem ofBootLine_written_shuffled :
    let s : Settings := { quantum := 20, maxThreads := 4, logFilter := .off }
    s.check = .ok () ∧ s.maxThreads < UInt32.size ∧ s.sleepSlots < UInt32.size ∧
      ofBootLine ("log=off\tsched.quantum=20  quiet timer.hz=1000 root=/dev/ram0 \t" ++
        "sched.max_threads=4 timer.source_hz=1193180 timer.remainder_ns=193180 " ++
        "sched.sleep_slots=256\n") = .ok s := by
  intro s
  have hcheck : s.check = .ok () := by decide
  have hthreads : s.maxThreads < UInt32.size := by decide
  have hslots : s.sleepSlots < UInt32.size := by decide
  let pieces : List Text.Piece :=
    [⟨[], "log=off".toList⟩, ⟨['\t'], "sched.quantum=20".toList⟩, ⟨[' ', ' '], "quiet".toList⟩,
      ⟨[' '], "timer.hz=1000".toList⟩, ⟨[' '], "root=/dev/ram0".toList⟩,
      ⟨[' ', '\t'], "sched.max_threads=4".toList⟩, ⟨[' '], "timer.source_hz=1193180".toList⟩,
      ⟨[' '], "timer.remainder_ns=193180".toList⟩, ⟨[' '], "sched.sleep_slots=256".toList⟩]
  have hspaced : Text.Spaced pieces ['\n'] := by decide +kernel
  have hwords : (pieces.map (·.word)).Perm
      (s.overrides.map Override.word ++ ["quiet".toList, "root=/dev/ram0".toList]) := by
    decide +kernel
  have hforeign : ∀ w ∈ ["quiet".toList, "root=/dev/ram0".toList],
      Text.IsWord w ∧ Foreign w := by
    intro w hw
    have hsplit : split? w = none ∧ Text.IsWord w := by
      revert w
      decide +kernel
    exact ⟨hsplit.2, foreign_iff.mpr hsplit.1⟩
  refine ⟨hcheck, hthreads, hslots, ?_⟩
  convert ofBootLine_written hcheck hthreads hslots hspaced hwords hforeign using 2
  decide +kernel

end Settings
end PulseKernel
