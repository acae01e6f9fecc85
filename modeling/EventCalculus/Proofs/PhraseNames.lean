import EventCalculus.Proofs.TermText
import EventCalculus.Statement.Naming

/-!
# Names of phrases

The name of a phrase consists of words of small letters and digits with one underscore between
neighbours, unless no such character is left of the phrase.  A text of this form is its own name.
-/

namespace EventCalculus

/-- A small letter or a digit of the ASCII range. -/
def IsNameChar (c : Char) : Prop :=
  'a' ≤ c ∧ c ≤ 'z' ∨ '0' ≤ c ∧ c ≤ '9'

/-- A word of small letters and digits. -/
structure IsNameWord (word : List Char) : Prop where
  nonempty : word ≠ []
  chars : forall c, c ∈ word -> IsNameChar c

/-- The text consists of words of small letters and digits that single underscores join. -/
def IsPhraseName (s : String) : Prop :=
  exists words, words ≠ [] ∧ (forall word, word ∈ words -> IsNameWord word) ∧
    s.toList = ['_'].intercalate words

theorem isLower_iff (c : Char) : c.isLower = true ↔ 'a' ≤ c ∧ c ≤ 'z' := by
  have hrange : c.isLower = (decide ('a' ≤ c) && decide (c ≤ 'z')) := rfl
  rw [hrange, Bool.and_eq_true, decide_eq_true_eq, decide_eq_true_eq]

theorem isPhraseChar_iff (c : Char) : isPhraseChar c = true ↔ IsNameChar c := by
  have hdigit : c.isDigit = (decide ('0' ≤ c) && decide (c ≤ '9')) := rfl
  rw [isPhraseChar, IsNameChar, Bool.or_eq_true, isLower_iff, hdigit, Bool.and_eq_true,
    decide_eq_true_eq, decide_eq_true_eq]

theorem isNameChar_underscore : ¬ IsNameChar '_' := by
  rw [← isPhraseChar_iff]
  decide

theorem IsNameWord.not_mem {word : List Char} (h : IsNameWord word) : '_' ∉ word :=
  fun hmem => isNameChar_underscore (h.chars '_' hmem)

/-!
# Pieces
-/

namespace Text

variable {separator : Char}

theorem joinPieces_eq_intercalate (separator : Char) (words : List (List Char)) :
    joinPieces separator words = [separator].intercalate words := by
  fun_induction joinPieces separator words with
  | case1 => rfl
  | case2 piece => simp
  | case3 piece others hne ih =>
      cases others with
      | nil => exact absurd rfl hne
      | cons next rest => simp [ih]

theorem pieces_ne_nil (separator : Char) (cs : List Char) : pieces separator cs ≠ [] := by
  cases cs with
  | nil => exact List.cons_ne_nil _ _
  | cons c rest =>
      rw [pieces]
      split
      · exact List.cons_ne_nil _ _
      · split
        · exact List.cons_ne_nil _ _
        · exact List.cons_ne_nil _ _

theorem pieces_append_cons (separator : Char) (cs rest : List Char) :
    pieces separator (cs ++ separator :: rest) = pieces separator cs ++ pieces separator rest := by
  induction cs with
  | nil =>
      show pieces separator (separator :: rest) = [] :: pieces separator rest
      rw [pieces, if_pos rfl]
  | cons c cs ih =>
      rw [List.cons_append, pieces, pieces, ih]
      split
      · rfl
      · cases hpieces : pieces separator cs with
        | nil => exact absurd hpieces (pieces_ne_nil separator cs)
        | cons piece others => rfl

theorem pieces_append_separator {word : List Char} (h : separator ∉ word) (rest : List Char) :
    pieces separator (word ++ separator :: rest) = word :: pieces separator rest := by
  rw [pieces_append_cons, pieces_of_not_mem h, List.singleton_append]

/-- Words that were joined are found again. -/
theorem pieces_joinPieces {words : List (List Char)} (hne : words ≠ [])
    (h : forall word, word ∈ words -> separator ∉ word) :
    pieces separator (joinPieces separator words) = words := by
  fun_induction joinPieces separator words with
  | case1 => exact absurd rfl hne
  | case2 piece => exact pieces_of_not_mem (h piece List.mem_cons_self)
  | case3 piece others hothers ih =>
      rcases List.forall_mem_cons.mp h with ⟨hpiece, hrest⟩
      rw [pieces_append_separator hpiece, ih hothers hrest]

theorem joinPieces_cons (piece : List Char) {others : List (List Char)} (h : others ≠ []) :
    joinPieces separator (piece :: others) =
      piece ++ separator :: joinPieces separator others := by
  cases others with
  | nil => exact absurd rfl h
  | cons next rest => rfl

/-- The pieces of a text are joined to the text again. -/
theorem joinPieces_pieces (separator : Char) (cs : List Char) :
    joinPieces separator (pieces separator cs) = cs := by
  induction cs with
  | nil => rfl
  | cons c rest ih =>
      rw [pieces]
      split
      · rename_i hc
        rw [joinPieces_cons _ (pieces_ne_nil separator rest), ih, hc]
        rfl
      · split
        · rename_i hnone
          exact absurd hnone (pieces_ne_nil separator rest)
        · rename_i piece others hpieces
          rw [hpieces] at ih
          cases others with
          | nil => exact congrArg (c :: ·) ih
          | cons next more => exact congrArg (c :: ·) ih

/-- A piece consists of characters of the text, and the separator is not among them. -/
theorem mem_of_mem_pieces {cs piece : List Char} (h : piece ∈ pieces separator cs) {c : Char}
    (hc : c ∈ piece) : c ∈ cs ∧ c ≠ separator := by
  induction cs generalizing piece with
  | nil =>
      rw [List.mem_singleton.mp h] at hc
      cases hc
  | cons d rest ih =>
      rw [pieces] at h
      split at h
      · rcases List.mem_cons.mp h with rfl | hmore
        · cases hc
        · exact (ih hmore hc).imp_left (List.mem_cons_of_mem d)
      · rename_i hd
        split at h
        · rw [List.mem_singleton.mp h, List.mem_singleton] at hc
          exact ⟨hc ▸ List.mem_cons_self, hc ▸ hd⟩
        · rename_i first others hpieces
          rw [hpieces] at ih
          rcases List.mem_cons.mp h with rfl | hmore
          · rcases List.mem_cons.mp hc with rfl | hfirst
            · exact ⟨List.mem_cons_self, hd⟩
            · exact (ih List.mem_cons_self hfirst).imp_left (List.mem_cons_of_mem d)
          · exact (ih (List.mem_cons_of_mem first hmore) hc).imp_left (List.mem_cons_of_mem d)

/-!
# Lower case
-/

/-- Below the Latin-1 letters only the capital letters are lowered. -/
theorem bounds_of_mem_lowercaseSegments :
    forall s, s ∈ lowercaseSegments -> 0xC0 ≤ s.1 ∨ s.1 = 0x41 ∧ s.2.1 = 0x5A := by
  decide +kernel

theorem lowerSimple_eq_self {c : Char} (hrange : c.toNat < 0xC0)
    (hcapital : c.toNat < 0x41 ∨ 0x5A < c.toNat) : lowerSimple c = c := by
  unfold lowerSimple
  simp only
  split
  · rename_i first last step shift hfind
    have hbounds := bounds_of_mem_lowercaseSegments _ (List.mem_of_find?_eq_some hfind)
    have hfound := List.find?_some hfind
    simp only [Bool.and_eq_true, decide_eq_true_eq] at hbounds hfound
    omega
  · rfl

end Text

theorem Text.lowerInContext_of_isNameChar {c : Char} (h : IsNameChar c ∨ c = '_')
    (before after : List Char) : lowerInContext before c after = [c] := by
  have hbounds : c.toNat < 0xC0 ∧ (c.toNat < 0x41 ∨ 0x5A < c.toNat) := by
    rcases h with h | rfl
    · rcases h with ⟨hlow, hhigh⟩ | ⟨hlow, hhigh⟩
      · have hlow' : 97 ≤ c.toNat := hlow
        have hhigh' : c.toNat ≤ 122 := hhigh
        omega
      · have hlow' : 48 ≤ c.toNat := hlow
        have hhigh' : c.toNat ≤ 57 := hhigh
        omega
    · decide
  rw [lowerInContext, if_neg (by omega), if_neg (by omega),
    lowerSimple_eq_self hbounds.left hbounds.right]

theorem Text.lowerFrom_of_isNameChar {cs : List Char}
    (h : forall c, c ∈ cs -> IsNameChar c ∨ c = '_') (before : List Char) :
    lowerFrom before cs = cs := by
  induction cs generalizing before with
  | nil => rfl
  | cons c rest ih =>
      rcases List.forall_mem_cons.mp h with ⟨hc, hrest⟩
      rw [lowerFrom, lowerInContext_of_isNameChar hc, ih hrest]
      rfl

/-!
# Words
-/

theorem isNameWord_of_mem_phraseWords {cs word : List Char} (h : word ∈ phraseWords cs) :
    IsNameWord word := by
  rcases List.mem_filter.mp h with ⟨hpiece, hne⟩
  constructor
  case nonempty =>
    rintro rfl
    cases hne
  case chars =>
    intro c hc
    rcases Text.mem_of_mem_pieces hpiece hc with ⟨hmem, hunderscore⟩
    rcases List.mem_map.mp hmem with ⟨d, _, hd⟩
    split at hd
    · rename_i hchar
      exact (isPhraseChar_iff c).mp (hd ▸ hchar)
    · exact absurd hd.symm hunderscore

section
variable {words : List (List Char)}

theorem isNameChar_of_mem_joinPieces (h : forall word, word ∈ words -> IsNameWord word) {c : Char}
    (hc : c ∈ Text.joinPieces '_' words) : IsNameChar c ∨ c = '_' := by
  fun_induction Text.joinPieces '_' words with
  | case1 => cases hc
  | case2 piece => exact Or.inl ((h piece List.mem_cons_self).chars c hc)
  | case3 piece others _ ih =>
      rcases List.forall_mem_cons.mp h with ⟨hpiece, hothers⟩
      rcases List.mem_append.mp hc with hfirst | hmore
      · exact Or.inl (hpiece.chars c hfirst)
      · rcases List.mem_cons.mp hmore with hunderscore | hrest
        · exact Or.inr hunderscore
        · exact ih hothers hrest

/-- The words of a name are the ones that it was joined from. -/
theorem phraseWords_joinPieces (hne : words ≠ [])
    (h : forall word, word ∈ words -> IsNameWord word) :
    phraseWords (Text.joinPieces '_' words) = words := by
  have hkept : (Text.joinPieces '_' words).map (fun c => if isPhraseChar c then c else '_') =
      Text.joinPieces '_' words := by
    refine (List.map_congr_left fun c hc => ?_).trans (List.map_id' _)
    rcases isNameChar_of_mem_joinPieces h hc with hchar | rfl
    · rw [if_pos ((isPhraseChar_iff c).mpr hchar)]
    · rfl
  rw [phraseWords, hkept, Text.pieces_joinPieces hne fun word hword => (h word hword).not_mem]
  apply List.filter_eq_self.mpr
  intro word hword
  cases hempty : word with
  | nil => exact absurd hempty (h word hword).nonempty
  | cons c rest => rfl

end

/-!
# Names
-/

theorem toList_snakeCase (phrase : String) :
    (snakeCase phrase).toList = snakeCaseChars phrase.toList :=
  String.toList_ofList

/-- The name of a phrase is empty or of the form of names. -/
theorem snakeCase_eq_empty_or (phrase : String) :
    snakeCase phrase = "" ∨ IsPhraseName (snakeCase phrase) := by
  cases hwords : phraseWords (Text.lowerChars phrase.toList) with
  | nil =>
      left
      rw [snakeCase, snakeCaseChars, hwords]
      rfl
  | cons word rest =>
      right
      refine ⟨word :: rest, List.cons_ne_nil _ _, ?_, ?_⟩
      · exact fun w hw => isNameWord_of_mem_phraseWords (hwords ▸ hw)
      · rw [toList_snakeCase, snakeCaseChars, hwords, Text.joinPieces_eq_intercalate]

theorem isPhraseName_snakeCase {phrase : String} (h : snakeCase phrase ≠ "") :
    IsPhraseName (snakeCase phrase) :=
  (snakeCase_eq_empty_or phrase).resolve_left h

/-- A text of the form of names is its own name. -/
theorem IsPhraseName.snakeCase_eq {s : String} (h : IsPhraseName s) : snakeCase s = s := by
  rcases h with ⟨words, hne, hwords, hs⟩
  rw [← Text.joinPieces_eq_intercalate] at hs
  have hlower : Text.lowerChars s.toList = s.toList :=
    Text.lowerFrom_of_isNameChar (fun c hc => isNameChar_of_mem_joinPieces hwords (hs ▸ hc)) []
  rw [snakeCase, snakeCaseChars, hlower, hs, phraseWords_joinPieces hne hwords, ← hs,
    String.ofList_toList]

theorem snakeCase_snakeCase (phrase : String) :
    snakeCase (snakeCase phrase) = snakeCase phrase := by
  rcases snakeCase_eq_empty_or phrase with hempty | hname
  · rw [hempty]
    rfl
  · exact hname.snakeCase_eq

theorem IsPhraseName.isNameChar {s : String} (h : IsPhraseName s) {c : Char} (hc : c ∈ s.toList) :
    IsNameChar c ∨ c = '_' := by
  rcases h with ⟨words, _, hwords, hs⟩
  rw [hs, ← Text.joinPieces_eq_intercalate] at hc
  exact isNameChar_of_mem_joinPieces hwords hc

end EventCalculus
