/-
# What a boot line means

The boot line is read from left to right, and reading stops at the first value that is
malformed. What it means does not depend on that order: if no value is malformed, every
setting has the value that the last word with its key gives, and its default if no word
has its key (`Settings.Follows`). These settings are then checked. If some values are
malformed, the leftmost of them is reported, whatever stands behind it
(`FirstMalformed`). Words without an equals sign and words with another key are somebody
else's, and can stand anywhere (`Override.Foreign`).

A word is for a key if what stands before its first equals sign is the key's name
(`Override.Gives`); of the text behind it is said what it is to look like, and not how
it is read (`Override.Writes`).

Key definitions: `Override.Gives`, `Override.Writes`, `Override.Malformed`,
`Override.Sets`, `Override.Foreign`, `FirstMalformed`, `LastSets`, `Settings.setting`,
`Settings.Follows`.
Key theorems: `Override.split?_eq_some_iff`, `Override.read?_eq_some_iff`,
`Settings.applyWords_of_firstMalformed`, `Settings.exists_follows`,
`Settings.Follows.unique`, `Settings.ofBootLine_follows`.
-/
import PulseKernel.Boot.Arguments
import PulseKernel.Proofs.PlainText

namespace PulseKernel

theorem BootKey.ofName?_eq_some_iff {s : String} {key : BootKey} :
    BootKey.ofName? s = some key ↔ s = key.name := by
  constructor
  · intro h
    have hname := List.find?_some h
    exact (eq_of_beq hname).symm
  · rintro rfl
    exact BootKey.ofName?_name key

theorem Log.Filter.ofName?_eq_some_iff {s : String} {f : Log.Filter} :
    Log.Filter.ofName? s = some f ↔ s = f.name := by
  constructor
  · intro h
    unfold Log.Filter.ofName? Log.Level.ofName? at h
    split at h
    · rename_i hoff
      obtain rfl := Option.some.inj h
      exact hoff
    · split at h
      all_goals
        cases h
        try rfl
  · rintro rfl
    exact Log.Filter.ofName?_name f

/-! ### A word -/

namespace Override

variable {word text : List Char} {key : BootKey} {o : Override}

/-- The word gives the key this text: split at its first equals sign, it is the name of the key and
the text. -/
def Gives (word : List Char) (key : BootKey) (text : List Char) : Prop :=
  ∃ name, word = name ++ '=' :: text ∧ '=' ∉ name ∧ String.ofList name = key.name

/-- The text writes the value of the override: a number as a numeral, a filter as its name. -/
def Writes (text : List Char) : Override → Prop
  | ticksPerSecond v | sourceHz v | remainder v | quantum v | maxThreads v | sleepSlots v =>
    Text.Denotes text v.toNat
  | logFilter f => String.ofList text = f.name

/-- The word gives the key a text that is not a value for it. -/
def Malformed (word : List Char) (key : BootKey) : Prop :=
  ∃ text, Gives word key text ∧ ∀ o : Override, o.key = key → ¬ o.Writes text

/-- The word gives its key the value of the override. -/
def Sets (word : List Char) (o : Override) : Prop := ∃ text, Gives word o.key text ∧ o.Writes text

/-- The word has no equals sign, or what stands before the first one is not the name of a key. -/
def Foreign (word : List Char) : Prop := ∀ key text, ¬ Gives word key text

theorem split?_eq_some_iff : split? word = some (key, text) ↔ Gives word key text := by
  constructor
  · intro h
    unfold split? at h
    split at h
    · cases h
    · rename_i c rest hdrop
      obtain ⟨key', hkey, heq⟩ := Option.map_eq_some_iff.mp h
      obtain ⟨rfl, rfl⟩ := Prod.mk.inj heq
      have hstop := List.head?_dropWhile_not (· != '=') word
      rw [hdrop] at hstop
      obtain rfl : c = '=' := by simpa using hstop
      refine ⟨word.takeWhile (· != '='), ?_, fun hmem => ?_, BootKey.ofName?_eq_some_iff.mp hkey⟩
      · rw [← hdrop, List.takeWhile_append_dropWhile]
      · simpa using List.mem_takeWhile_imp hmem
  · rintro ⟨name, rfl, hname, hkey⟩
    have hall : ∀ c ∈ name, (c != '=') = true := fun c hc =>
      bne_iff_ne.mpr (ne_of_mem_of_not_mem hc hname)
    have htake : (name ++ '=' :: text).takeWhile (· != '=') = name := by
      rw [List.takeWhile_append_of_pos hall]
      simp
    have hdrop : (name ++ '=' :: text).dropWhile (· != '=') = '=' :: text := by
      rw [List.dropWhile_append_of_pos hall]
      simp
    rw [split?, hdrop, htake, BootKey.ofName?_eq_some_iff.mpr hkey]
    rfl

theorem read?_eq_some_iff : read? key text = some o ↔ o.key = key ∧ o.Writes text := by
  cases key <;> cases o <;>
    simp [read?, Override.key, Writes, Text.word32?_eq_some_iff, Log.Filter.ofName?_eq_some_iff]

/-- A word gives one key one text. -/
theorem Gives.unique {key' : BootKey} {text' : List Char} (h : Gives word key text)
    (h' : Gives word key' text') : key' = key ∧ text' = text := by
  rw [← split?_eq_some_iff] at h h'
  exact Prod.mk.inj (Option.some.inj (h'.symm.trans h))

theorem ofWord_of_sets (h : Sets word o) : ofWord word = .ok (some o) := by
  obtain ⟨text, hgives, hwrites⟩ := h
  simp only [ofWord, split?_eq_some_iff.mpr hgives, read?_eq_some_iff.mpr ⟨rfl, hwrites⟩]

theorem ofWord_of_malformed (h : Malformed word key) :
    ofWord word = .error (.invalidValue key) := by
  obtain ⟨text, hgives, hnone⟩ := h
  have hread : read? key text = none := by
    rw [Option.eq_none_iff_forall_ne_some]
    intro o ho
    obtain ⟨hkey, hwrites⟩ := read?_eq_some_iff.mp ho
    exact hnone o hkey hwrites
  simp only [ofWord, split?_eq_some_iff.mpr hgives, hread]

theorem foreign_iff : Foreign word ↔ split? word = none := by
  rw [Option.eq_none_iff_forall_ne_some]
  constructor
  · rintro hforeign ⟨key, text⟩ hsplit
    exact hforeign key text (split?_eq_some_iff.mp hsplit)
  · intro hnone key text hgives
    exact hnone (key, text) (split?_eq_some_iff.mpr hgives)

theorem ofWord_of_foreign (h : Foreign word) : ofWord word = .ok none := by
  simp only [ofWord, foreign_iff.mp h]

/-- A word for a key sets it, unless its text is malformed. -/
theorem Gives.sets (h : Gives word key text) (hword : ¬ Malformed word key) :
    ∃ o : Override, o.key = key ∧ Sets word o := by
  by_contra hnone
  refine hword ⟨text, h, fun o hkey hwrites => hnone ⟨o, hkey, text, hkey ▸ h, hwrites⟩⟩

/-- A word is somebody else's, or sets a key, or is malformed. -/
theorem foreign_or_sets (hword : ∀ key, ¬ Malformed word key) :
    Foreign word ∨ ∃ o, Sets word o := by
  by_cases hforeign : Foreign word
  · exact Or.inl hforeign
  · simp only [Foreign, not_forall, not_not] at hforeign
    obtain ⟨key, text, hgives⟩ := hforeign
    obtain ⟨o, -, hsets⟩ := hgives.sets (hword key)
    exact Or.inr ⟨o, hsets⟩

theorem Sets.unique {o' : Override} (h : Sets word o) (h' : Sets word o') : o' = o := by
  have heq := (ofWord_of_sets h').symm.trans (ofWord_of_sets h)
  exact Option.some.inj (Except.ok.inj heq)

end Override

/-! ### The words of a line -/

open Override

/-- The leftmost word with a malformed value is for this key. -/
def FirstMalformed (words : List (List Char)) (key : BootKey) : Prop :=
  ∃ before word after, words = before ++ word :: after ∧ Malformed word key ∧
    ∀ w ∈ before, ∀ k, ¬ Malformed w k

/-- No word is for the key. -/
def Unset (words : List (List Char)) (key : BootKey) : Prop :=
  ∀ w ∈ words, ∀ text, ¬ Gives w key text

/-- The last word for the key of the override gives it the value of the override. -/
def LastSets (words : List (List Char)) (o : Override) : Prop :=
  ∃ before word after, words = before ++ word :: after ∧ Sets word o ∧ Unset after o.key

section

variable {words rest : List (List Char)} {word : List Char} {key : BootKey} {o : Override}

theorem exists_firstMalformed : ∀ {words : List (List Char)},
    (∃ w ∈ words, ∃ k, Malformed w k) → ∃ key, FirstMalformed words key
  | [], h => by simp at h
  | word :: rest, h => by
    by_cases hword : ∃ k, Malformed word k
    · obtain ⟨k, hk⟩ := hword
      exact ⟨k, [], word, rest, rfl, hk, by simp⟩
    · have hrest : ∃ w ∈ rest, ∃ k, Malformed w k := by simpa [hword] using h
      obtain ⟨key, before, w, after, rfl, hw, hbefore⟩ := exists_firstMalformed hrest
      refine ⟨key, word :: before, w, after, rfl, hw, List.forall_mem_cons.mpr ⟨?_, hbefore⟩⟩
      exact not_exists.mp hword

theorem lastSets_cons :
    LastSets (word :: rest) o ↔ LastSets rest o ∨ Sets word o ∧ Unset rest o.key := by
  constructor
  · rintro ⟨before, w, after, heq, hsets, hunset⟩
    cases before with
    | nil =>
      obtain ⟨rfl, rfl⟩ := List.cons.inj heq
      exact Or.inr ⟨hsets, hunset⟩
    | cons _ before =>
      obtain ⟨rfl, rfl⟩ := List.cons.inj heq
      exact Or.inl ⟨before, w, after, rfl, hsets, hunset⟩
  · rintro (⟨before, w, after, rfl, hsets, hunset⟩ | ⟨hsets, hunset⟩)
    · exact ⟨word :: before, w, after, rfl, hsets, hunset⟩
    · exact ⟨[], word, rest, rfl, hsets, hunset⟩

/-- If no word is malformed, the last word for a key gives it a value. -/
theorem unset_or_lastSets (key : BootKey) : ∀ {words : List (List Char)},
    (∀ w ∈ words, ∀ k, ¬ Malformed w k) → Unset words key ∨ ∃ o, o.key = key ∧ LastSets words o
  | [], _ => Or.inl (by simp [Unset])
  | word :: rest, h => by
    obtain ⟨hword, hrest⟩ := List.forall_mem_cons.mp h
    rcases unset_or_lastSets key hrest with hunset | ⟨o, hkey, hlast⟩
    · by_cases hgives : ∃ text, Gives word key text
      · obtain ⟨text, hgives⟩ := hgives
        obtain ⟨o, rfl, hsets⟩ := hgives.sets (hword key)
        exact Or.inr ⟨o, rfl, lastSets_cons.mpr (Or.inr ⟨hsets, hunset⟩)⟩
      · exact Or.inl (List.forall_mem_cons.mpr ⟨not_exists.mp hgives, hunset⟩)
    · exact Or.inr ⟨o, hkey, lastSets_cons.mpr (Or.inl hlast)⟩

end

/-! ### Settings that follow the words -/

/-- The value of an override: a number, or a filter. -/
def Override.setting : Override → Nat ⊕ Log.Filter
  | .ticksPerSecond v | .sourceHz v | .remainder v | .quantum v | .maxThreads v | .sleepSlots v =>
    .inl v.toNat
  | .logFilter f => .inr f

namespace Settings

variable {s s' start : Settings} {words rest : List (List Char)} {word : List Char} {key : BootKey}
  {o : Override}

/-- The value that the settings have for a key. -/
def setting (s : Settings) : BootKey → Nat ⊕ Log.Filter
  | .ticksPerSecond => .inl s.ticksPerSecond.toNat
  | .sourceHz => .inl s.sourceHz.toNat
  | .remainder => .inl s.remainder.toNat
  | .quantum => .inl s.quantum.toNat
  | .maxThreads => .inl s.maxThreads
  | .sleepSlots => .inl s.sleepSlots
  | .logFilter => .inr s.logFilter

theorem setting_apply (s : Settings) (o : Override) (key : BootKey) :
    (s.apply o).setting key = if key = o.key then o.setting else s.setting key := by
  cases o <;> cases key <;> rfl

/-- Settings are known by their values. -/
theorem eq_of_setting (h : ∀ key, s.setting key = s'.setting key) : s = s' := by
  obtain ⟨a, b, c, d, e, f, g⟩ := s
  obtain ⟨a', b', c', d', e', f', g'⟩ := s'
  have ha := h .sourceHz
  have hb := h .ticksPerSecond
  have hc := h .remainder
  have hd := h .quantum
  have he := h .maxThreads
  have hf := h .sleepSlots
  have hg := h .logFilter
  simp only [setting, Sum.inl.injEq, Sum.inr.injEq, UInt32.toNat_inj] at ha hb hc hd he hf hg
  simp [ha, hb, hc, hd, he, hf, hg]

/-- For every key the settings have the value that the last word for it gives, or that of the start
if no word is for it. -/
structure Follows (s start : Settings) (words : List (List Char)) : Prop where
  given : ∀ o, LastSets words o → s.setting o.key = o.setting
  unset : ∀ key, Unset words key → s.setting key = start.setting key

theorem Follows.unique (h : s.Follows start words) (h' : s'.Follows start words)
    (hwords : ∀ w ∈ words, ∀ k, ¬ Malformed w k) : s' = s := by
  refine eq_of_setting fun key => ?_
  rcases unset_or_lastSets key hwords with hunset | ⟨o, rfl, hlast⟩
  · rw [h.unset key hunset, h'.unset key hunset]
  · rw [h.given o hlast, h'.given o hlast]

theorem Follows.cons_foreign (h : s.Follows start rest) (hword : Foreign word) :
    s.Follows start (word :: rest) where
  given o hlast := by
    refine h.given o ((lastSets_cons.mp hlast).resolve_right ?_)
    rintro ⟨⟨text, hgives, -⟩, -⟩
    exact hword _ _ hgives
  unset key hunset := h.unset key (List.forall_mem_cons.mp hunset).2

theorem Follows.cons_sets (h : s.Follows (start.apply o) rest) (hword : Sets word o) :
    s.Follows start (word :: rest) where
  given o' hlast := by
    rcases lastSets_cons.mp hlast with hrest | ⟨hsets, hunset⟩
    · exact h.given o' hrest
    · obtain rfl := hword.unique hsets
      rw [h.unset _ hunset, setting_apply, if_pos rfl]
  unset key hunset := by
    obtain ⟨hfirst, hrest⟩ := List.forall_mem_cons.mp hunset
    obtain ⟨text, hgives, -⟩ := hword
    rw [h.unset key hrest, setting_apply, if_neg]
    rintro rfl
    exact hfirst text hgives

/-! ### Reading the words -/

theorem applyWords_cons_foreign (h : Foreign word) (s : Settings) (rest : List (List Char)) :
    s.applyWords (word :: rest) = s.applyWords rest := by
  rw [applyWords, ofWord_of_foreign h]
  rfl

theorem applyWords_cons_sets (h : Sets word o) (s : Settings) (rest : List (List Char)) :
    s.applyWords (word :: rest) = (s.apply o).applyWords rest := by
  rw [applyWords, ofWord_of_sets h]
  rfl

/-- If no word is malformed, reading comes to its end with settings that follow the words. -/
theorem exists_follows : ∀ {words : List (List Char)} (start : Settings),
    (∀ w ∈ words, ∀ k, ¬ Malformed w k) →
      ∃ s : Settings, start.applyWords words = .ok s ∧ s.Follows start words
  | [], start, _ => by
    refine ⟨start, rfl, ?_, fun _ _ => rfl⟩
    rintro o ⟨before, w, after, heq, -⟩
    simp at heq
  | word :: rest, start, h => by
    obtain ⟨hword, hrest⟩ := List.forall_mem_cons.mp h
    rcases foreign_or_sets hword with hforeign | ⟨o, hsets⟩
    · obtain ⟨s, hs, hfollows⟩ := exists_follows start hrest
      exact ⟨s, (applyWords_cons_foreign hforeign _ _).trans hs, hfollows.cons_foreign hforeign⟩
    · obtain ⟨s, hs, hfollows⟩ := exists_follows (start.apply o) hrest
      exact ⟨s, (applyWords_cons_sets hsets _ _).trans hs, hfollows.cons_sets hsets⟩

/-- Reading stops at the leftmost word with a malformed value. -/
theorem applyWords_of_firstMalformed (h : FirstMalformed words key) (start : Settings) :
    start.applyWords words = .error (.invalidValue key) := by
  obtain ⟨before, word, after, rfl, hword, hbefore⟩ := h
  induction before generalizing start with
  | nil =>
    rw [List.nil_append, applyWords, ofWord_of_malformed hword]
    rfl
  | cons w before ih =>
    obtain ⟨hw, hbefore⟩ := List.forall_mem_cons.mp hbefore
    rw [List.cons_append]
    rcases foreign_or_sets hw with hforeign | ⟨o, hsets⟩
    · rw [applyWords_cons_foreign hforeign, ih start hbefore]
    · rw [applyWords_cons_sets hsets, ih (start.apply o) hbefore]

/-- Reading passes over words that are somebody else's. -/
theorem applyWords_append_foreign (h : Foreign word) (after : List (List Char)) :
    ∀ (before : List (List Char)) (start : Settings),
      start.applyWords (before ++ word :: after) = start.applyWords (before ++ after)
  | [], start => applyWords_cons_foreign h start after
  | w :: before, start => by
    simp only [List.cons_append, applyWords]
    congr 1
    funext override?
    cases override? with
    | none => exact applyWords_append_foreign h after before start
    | some o => exact applyWords_append_foreign h after before (start.apply o)

/-! ### The line -/

/-- The check finds nothing wrong with how a value is written. -/
theorem check_ne_invalidValue (s : Settings) (key : BootKey) :
    s.check ≠ .error (.invalidValue key) := by
  intro h
  unfold check rate at h
  cases hrate : PulseRate.ofFrequencies? s.sourceHz s.ticksPerSecond
  all_goals
    simp only [hrate, throw, throwThe, MonadExceptOf.throw, bind, Except.bind, pure,
      Except.pure] at h
    repeat' split at h
    all_goals cases h

theorem ofBootLine_of_ok {line : String}
    (h : ({} : Settings).applyWords (Text.words line.toList) = .ok s) :
    ofBootLine line = s.check.map fun _ => s := by
  rw [ofBootLine, h]
  show (s.check >>= fun _ => pure s) = _
  cases s.check <;> rfl

theorem ofBootLine_of_firstMalformed {line : String}
    (h : FirstMalformed (Text.words line.toList) key) :
    ofBootLine line = .error (.invalidValue key) := by
  rw [ofBootLine, applyWords_of_firstMalformed h]
  rfl

theorem ofBootLine_eq_invalidValue_iff {line : String} :
    ofBootLine line = .error (.invalidValue key) ↔
      FirstMalformed (Text.words line.toList) key := by
  refine ⟨fun h => ?_, ofBootLine_of_firstMalformed⟩
  by_cases hwords : ∃ w ∈ Text.words line.toList, ∃ k, Malformed w k
  · obtain ⟨key', hfirst⟩ := exists_firstMalformed hwords
    have heq := h.symm.trans (ofBootLine_of_firstMalformed hfirst)
    obtain rfl := SettingsError.invalidValue.inj (Except.error.inj heq)
    exact hfirst
  · obtain ⟨s, hs, -⟩ := exists_follows {} (by simpa using hwords)
    rw [ofBootLine_of_ok hs] at h
    cases hcheck : s.check with
    | ok => simp [hcheck, Except.map] at h
    | error e =>
      rw [hcheck] at h
      have herror : (Except.error e : Except SettingsError Settings) = .error (.invalidValue key) :=
        h
      obtain rfl := Except.error.inj herror
      exact absurd hcheck (check_ne_invalidValue s key)

theorem ofBootLine_congr_foreign {line line' : String} {before after : List (List Char)}
    (hline : Text.words line.toList = before ++ word :: after) (hword : Foreign word)
    (hline' : Text.words line'.toList = before ++ after) : ofBootLine line' = ofBootLine line := by
  rw [ofBootLine, ofBootLine, hline, hline', applyWords_append_foreign hword]

/-- What a boot line means. Its words are its maximal runs of characters that are not blank. It is
refused for a malformed value of a key exactly if the leftmost malformed value is for that key. If
no value is malformed, the line gives the only settings that follow its words, with the default for
every key without a word, or what is wrong with these settings. Words that are somebody else's make
no difference. -/
theorem ofBootLine_follows (line : String) :
    ∃ words, Text.Runs line.toList words ∧
      (∀ words', Text.Runs line.toList words' → words' = words) ∧
      (∀ key, ofBootLine line = .error (.invalidValue key) ↔ FirstMalformed words key) ∧
      ((∃ w ∈ words, ∃ key, Malformed w key) → ∃ key, FirstMalformed words key) ∧
      ((∀ w ∈ words, ∀ key, ¬ Malformed w key) →
        ∃ s : Settings, s.Follows {} words ∧ (∀ s' : Settings, s'.Follows {} words → s' = s) ∧
          ofBootLine line = s.check.map fun _ => s) ∧
      ∀ before word after (line' : String), words = before ++ word :: after → Foreign word →
        Text.Runs line'.toList (before ++ after) → ofBootLine line' = ofBootLine line := by
  refine ⟨_, Text.runs_words _, fun words' h => (Text.runs_iff.mp h).symm,
    fun key => ofBootLine_eq_invalidValue_iff, exists_firstMalformed, fun hwords => ?_,
    fun before word after line' hline hword hline' => ?_⟩
  · obtain ⟨s, hs, hfollows⟩ := exists_follows {} hwords
    exact ⟨s, hfollows, fun s' h => hfollows.unique h hwords, ofBootLine_of_ok hs⟩
  · exact ofBootLine_congr_foreign hline hword (Text.runs_iff.mp hline')

end Settings
end PulseKernel
