import EventCalculus.Proofs.CharPatterns

/-!
# Lexemes

A text is cut into lexemes by one pattern for each kind of lexeme, of which the first one that
matches decides.  A numeral that runs into a word is cut where the pattern of numerals gives up, but
then what is left cannot be cut into lexemes.
-/

namespace EventCalculus

inductive LexemeKind where
  | blank
  | number
  | name
  | text
  | quoted
  | punctuation
deriving DecidableEq

/-- A piece of a text with its kind. -/
structure Lexeme where
  kind : LexemeKind
  chars : List Char
deriving DecidableEq

theorem digitZeros_apart : forall z, z ∈ Text.digitZeros -> forall b, b ∈ Text.blankCodePoints ->
    b < z ∨ z + 9 < b := by
  decide

/-- No digit of any script is blank. -/
theorem isBlank_of_textIsDigit {c : Char} (h : Text.isDigit c = true) :
    Text.isBlank c = false := by
  rw [Text.isDigit, Text.digitValue?, Option.isSome_map] at h
  rcases Option.isSome_iff_exists.mp h with ⟨z, hfound⟩
  have hrange := List.find?_some hfound
  simp only [Bool.and_eq_true, decide_eq_true_eq] at hrange
  apply Bool.eq_false_iff.mpr
  intro hblank
  have hapart := digitZeros_apart z (List.mem_of_find?_eq_some hfound) c.toNat
    (List.contains_iff_mem.mp hblank)
  omega

namespace Lexeme

open Pattern

/-!
# Cutting a text
-/

def digits : Pattern :=
  oneOrMore (char Text.isDigit)

def fraction : Pattern :=
  seq (char (· = '.')) digits

/-- A numeral without its sign.  It does not run into a letter or an underscore. -/
def magnitude : Pattern :=
  seq digits (seq (optional fraction) (notBefore isWordStart))

def number : Pattern :=
  seq (optional (char (· = '-'))) magnitude

def name : Pattern :=
  seq (char isWordStart) (many (char isWordChar))

/-- A character between quotes.  A backslash takes the next one with it, but no line feed. -/
def inner (quote : Char) : Pattern :=
  either (char fun c => c ≠ quote ∧ c ≠ '\\') (seq (char (· = '\\')) (char (· ≠ '\n')))

def enclosed (quote : Char) : Pattern :=
  seq (char (· = quote)) (seq (many (inner quote)) (char (· = quote)))

/-- The pattern of each kind, in the order in which they are tried. -/
def patterns : List (LexemeKind × Pattern) :=
  [(.blank, oneOrMore (char Text.isBlank)), (.number, number), (.name, name),
    (.text, enclosed '"'), (.quoted, enclosed '\''),
    (.punctuation, char fun c => c = '(' ∨ c = ')' ∨ c = ',')]

/-- What the first of some patterns that matches cuts off a text, and the rest behind it. -/
def firstOf? (patterns : List (LexemeKind × Pattern)) (cs : List Char) :
    Option (Lexeme × List Char) :=
  patterns.findSome? fun p => (p.2.match? cs).map fun cut => (⟨p.1, cut.1⟩, cut.2)

/-- The lexeme at the front of a text. -/
def first? (cs : List Char) : Option (Lexeme × List Char) :=
  firstOf? patterns cs

/-- A text is cut into lexemes, to its end. -/
inductive Cuts : List Char -> List Lexeme -> Prop where
  | nil : Cuts [] []
  | cons {cs rest : List Char} {lexeme : Lexeme} {lexemes : List Lexeme} :
      first? cs = some (lexeme, rest) -> Cuts rest lexemes -> Cuts cs (lexeme :: lexemes)

/-- The lexemes that are not blank. -/
def shown (lexemes : List Lexeme) : List Lexeme :=
  lexemes.filter fun lexeme => lexeme.kind ≠ .blank

theorem first?_nil : first? [] = none := by
  decide

section
variable {kind : LexemeKind} {p : Pattern} {others : List (LexemeKind × Pattern)} {cs : List Char}

theorem firstOf?_cons_of_nil (h : p.cuts cs = []) :
    firstOf? ((kind, p) :: others) cs = firstOf? others cs := by
  rw [firstOf?, List.findSome?_cons, match?_eq_none h]
  rfl

theorem firstOf?_cons_of_match {cut : Cut} (h : p.match? cs = some cut) :
    firstOf? ((kind, p) :: others) cs = some (⟨kind, cut.1⟩, cut.2) := by
  rw [firstOf?, List.findSome?_cons, h]
  rfl

end

/-!
# First characters

A pattern that begins with a character of some class matches no text that does not.
-/

section
variable {c : Char} (rest : List Char)

theorem cuts_blank_eq_nil (h : Text.isBlank c = false) :
    (oneOrMore (char Text.isBlank)).cuts (c :: rest) = [] :=
  cuts_oneOrMore_char_eq_nil (List.takeWhile_cons_of_neg (by simp [h]))

theorem cuts_digits_eq_nil (h : Text.isDigit c = false) : digits.cuts (c :: rest) = [] :=
  cuts_oneOrMore_char_eq_nil (List.takeWhile_cons_of_neg (by simp [h]))

theorem cuts_number_eq_nil (hsign : c ≠ '-') (h : Text.isDigit c = false) :
    number.cuts (c :: rest) = [] := by
  have hnone : (char (· = '-')).cuts (c :: rest) = [] := by
    rw [cuts_char_cons, decide_eq_false hsign, if_neg Bool.false_ne_true]
  rw [number, cuts, cuts_optional_of_nil hnone, andThen, List.flatMap_cons, magnitude,
    cuts_seq_eq_nil (cuts_digits_eq_nil rest h)]
  rfl

theorem cuts_name_eq_nil (h : isWordStart c = false) : name.cuts (c :: rest) = [] := by
  apply cuts_seq_eq_nil
  rw [cuts_char_cons, h, if_neg Bool.false_ne_true]

theorem cuts_enclosed_eq_nil {quote : Char} (h : c ≠ quote) :
    (enclosed quote).cuts (c :: rest) = [] := by
  apply cuts_seq_eq_nil
  rw [cuts_char_cons, decide_eq_false h, if_neg Bool.false_ne_true]

end

/-!
# Numerals
-/

theorem any_isWordStart_head? (cs : List Char) :
    cs.head?.any isWordStart = Token.startsWord cs := by
  cases cs <;> rfl

theorem match?_notBefore {cs : List Char} (h : Token.startsWord cs = false) :
    (notBefore isWordStart).match? cs = some ([], cs) := by
  rw [match?, cuts, any_isWordStart_head?, h, if_neg Bool.false_ne_true]
  rfl

theorem match?_fraction {cs : List Char} (hpoint : cs.head? = some '.')
    (hdigits : (cs.drop 1).takeWhile Text.isDigit ≠ []) :
    fraction.match? cs =
      some ('.' :: (cs.drop 1).takeWhile Text.isDigit, (cs.drop 1).dropWhile Text.isDigit) := by
  rcases List.head?_eq_some_iff.mp hpoint with ⟨rest, rfl⟩
  exact match?_seq (match?_char rfl rest) (match?_oneOrMore_char hdigits)

theorem cuts_fraction_eq_nil {cs : List Char}
    (h : ¬ (cs.head? = some '.' ∧ (cs.drop 1).takeWhile Text.isDigit ≠ [])) :
    fraction.cuts cs = [] := by
  by_cases hpoint : cs.head? = some '.'
  · rcases List.head?_eq_some_iff.mp hpoint with ⟨rest, rfl⟩
    have hnone : rest.takeWhile Text.isDigit = [] := by
      cases hdigits : rest.takeWhile Text.isDigit with
      | nil => rfl
      | cons d more =>
          refine absurd ⟨rfl, ?_⟩ h
          rw [List.drop_succ_cons, List.drop_zero, hdigits]
          exact List.cons_ne_nil d more
    rw [fraction, cuts, cuts_char_cons, decide_eq_true rfl, if_pos rfl, andThen,
      List.flatMap_cons, digits, cuts_oneOrMore_char_eq_nil hnone]
    rfl
  · apply cuts_seq_eq_nil
    apply cuts_char_eq_nil
    intro c hc
    apply decide_eq_false
    intro heq
    rw [heq] at hc
    exact hpoint hc

section
variable {cs : List Char} (hwhole : cs.takeWhile Text.isDigit ≠ [])
include hwhole

theorem match?_magnitude_fraction (hpoint : (cs.dropWhile Text.isDigit).head? = some '.')
    (hfraction : ((cs.dropWhile Text.isDigit).drop 1).takeWhile Text.isDigit ≠ [])
    (hend : Token.startsWord (((cs.dropWhile Text.isDigit).drop 1).dropWhile Text.isDigit) = false) :
    magnitude.match? cs =
      some (cs.takeWhile Text.isDigit ++
          '.' :: ((cs.dropWhile Text.isDigit).drop 1).takeWhile Text.isDigit,
        ((cs.dropWhile Text.isDigit).drop 1).dropWhile Text.isDigit) := by
  have hmatch := match?_seq (match?_oneOrMore_char hwhole)
    (match?_seq (match?_optional (match?_fraction hpoint hfraction)) (match?_notBefore hend))
  rw [List.append_nil] at hmatch
  exact hmatch

theorem match?_magnitude_whole
    (hpoint : ¬ ((cs.dropWhile Text.isDigit).head? = some '.' ∧
      ((cs.dropWhile Text.isDigit).drop 1).takeWhile Text.isDigit ≠ []))
    (hend : Token.startsWord (cs.dropWhile Text.isDigit) = false) :
    magnitude.match? cs = some (cs.takeWhile Text.isDigit, cs.dropWhile Text.isDigit) := by
  have hoptional : (optional fraction).match? (cs.dropWhile Text.isDigit) =
      some ([], cs.dropWhile Text.isDigit) := by
    rw [match?, cuts_optional_of_nil (cuts_fraction_eq_nil hpoint)]
    rfl
  have hmatch := match?_seq (match?_oneOrMore_char hwhole)
    (match?_seq hoptional (match?_notBefore hend))
  rw [List.append_nil, List.append_nil] at hmatch
  exact hmatch

end

/-- A numeral that is read is the first one to be tried, and no other is. -/
theorem match?_magnitude {negative : Bool} {cs after : List Char} {token : Token}
    (h : Token.readNumeral negative cs = .ok (token, after)) :
    exists whole fraction, token = .numeral ⟨negative, whole, fraction⟩ ∧
      (forall c, c ∈ whole ++ fraction -> Text.isDigit c = true) ∧
      magnitude.match? cs =
        some (whole ++ if fraction.isEmpty then [] else '.' :: fraction, after) := by
  unfold Token.readNumeral at h
  simp only [Bool.and_eq_true, decide_eq_true_eq, Bool.not_eq_true', List.isEmpty_eq_false_iff,
    List.isEmpty_iff] at h
  split at h
  · cases h
  · rename_i hwhole
    split at h
    · rename_i hpoint
      split at h
      · rename_i hend
        cases h
        refine ⟨_, _, rfl, ?_, ?_⟩
        · intro c hc
          cases List.mem_append.mp hc with
          | inl hmem => exact List.mem_takeWhile_imp hmem
          | inr hmem => exact List.mem_takeWhile_imp hmem
        · rw [List.isEmpty_eq_false_iff.mpr hpoint.right, if_neg Bool.false_ne_true]
          exact match?_magnitude_fraction hwhole hpoint.left hpoint.right hend
      · split at h <;> cases h
    · rename_i hpoint
      split at h
      · rename_i hend
        cases h
        refine ⟨_, [], rfl, ?_, ?_⟩
        · intro c hc
          rw [List.append_nil] at hc
          exact List.mem_takeWhile_imp hc
        · rw [List.isEmpty_nil, if_pos rfl, List.append_nil]
          exact match?_magnitude_whole hwhole hpoint hend
      · split at h <;> cases h

/-!
# Numerals that run into a word

Where a numeral is read no further, its pattern may still match in front of its last digits or of
its point.  What is left then begins with digits that run into the same word, or with the point.
-/

/-- Digits, and maybe a point and more digits, in front of a letter or an underscore. -/
def RunsIntoWord (cs : List Char) : Prop :=
  exists whole tail, cs = whole ++ tail ∧ whole ≠ [] ∧
    (forall c, c ∈ whole -> Text.isDigit c = true) ∧
    (Token.startsWord tail = true ∨ exists fraction more, tail = '.' :: (fraction ++ more) ∧
      fraction ≠ [] ∧ (forall c, c ∈ fraction -> Text.isDigit c = true) ∧
      Token.startsWord more = true)

theorem isDigit_of_startsWord {cs : List Char} (h : Token.startsWord cs = true) (c : Char)
    (hc : cs.head? = some c) : Text.isDigit c = false := by
  rcases List.head?_eq_some_iff.mp hc with ⟨rest, rfl⟩
  exact textIsDigit_of_isWordStart h

/-- Digits in front of no digit begin with all digits that the same text begins with. -/
theorem exists_digits_of_append_eq {front rest whole tail : List Char}
    (heq : front ++ rest = whole ++ tail) (hfront : forall c, c ∈ front -> Text.isDigit c = true)
    (htail : forall c, tail.head? = some c -> Text.isDigit c = false) :
    exists others, whole = front ++ others ∧ rest = others ++ tail := by
  cases List.append_eq_append_iff.mp heq with
  | inl h => exact h
  | inr h =>
      rcases h with ⟨more, hmore, htail'⟩
      cases more with
      | nil =>
          rw [List.append_nil] at hmore
          exact ⟨[], by rw [hmore, List.append_nil], htail'.symm⟩
      | cons d others =>
          have hdigit := hfront d (by rw [hmore]; simp)
          rw [htail d (by rw [htail']; rfl)] at hdigit
          cases hdigit

theorem runsIntoWord_of_readNumeral {negative : Bool} {cs suffix : List Char}
    (h : Token.readNumeral negative cs = .error suffix) :
    cs.takeWhile Text.isDigit = [] ∨ RunsIntoWord cs := by
  by_cases hwhole : cs.takeWhile Text.isDigit = []
  · exact Or.inl hwhole
  · refine Or.inr ⟨cs.takeWhile Text.isDigit, cs.dropWhile Text.isDigit,
      List.takeWhile_append_dropWhile.symm, hwhole, fun c hc => List.mem_takeWhile_imp hc, ?_⟩
    have hempty : (cs.takeWhile Text.isDigit).isEmpty = false :=
      List.isEmpty_eq_false_iff.mpr hwhole
    unfold Token.readNumeral at h
    simp only [hempty, Bool.false_eq_true, ↓reduceIte] at h
    split at h
    · rename_i hpoint
      simp only [Bool.and_eq_true, decide_eq_true_eq, Bool.not_eq_true',
        List.isEmpty_eq_false_iff] at hpoint
      rcases List.head?_eq_some_iff.mp hpoint.left with ⟨rest, hrest⟩
      rw [hrest, List.drop_succ_cons, List.drop_zero] at h hpoint
      refine Or.inr ⟨rest.takeWhile Text.isDigit, rest.dropWhile Text.isDigit, ?_, hpoint.right,
        fun c hc => List.mem_takeWhile_imp hc, ?_⟩
      · rw [hrest, List.takeWhile_append_dropWhile]
      · cases hend : Token.startsWord (rest.dropWhile Text.isDigit) with
        | true => rfl
        | false =>
            rw [hend] at h
            cases h
    · cases hend : Token.startsWord (cs.dropWhile Text.isDigit) with
      | true => exact Or.inl rfl
      | false =>
          rw [hend] at h
          cases h

/-- Any way to match a numeral without its sign takes digits, and maybe a point and more digits, and
leaves no word. -/
theorem mem_cuts_magnitude {cs : List Char} {cut : Cut} (h : cut ∈ magnitude.cuts cs) :
    exists whole point, cs = whole ++ (point ++ cut.2) ∧ whole ≠ [] ∧
      (forall c, c ∈ whole -> Text.isDigit c = true) ∧
      (point = [] ∨ exists fraction, point = '.' :: fraction ∧ fraction ≠ [] ∧
        forall c, c ∈ fraction -> Text.isDigit c = true) ∧
      Token.startsWord cut.2 = false := by
  rcases (mem_andThen_iff _ _ _).mp h with ⟨whole, hwhole, others, hothers, rfl⟩
  rcases mem_cuts_oneOrMore_char hwhole with ⟨hne, hdigits, hcs⟩
  rcases (mem_andThen_iff _ _ _).mp hothers with ⟨point, hpoint, last, hlast, rfl⟩
  rw [cuts, any_isWordStart_head?] at hlast
  split at hlast
  · cases hlast
  · rename_i hend
    rw [List.mem_singleton.mp hlast]
    refine ⟨whole.1, point.1, ?_, hne, hdigits, ?_, by simpa using hend⟩
    · rw [hcs]
      cases List.mem_append.mp hpoint with
      | inl hsome =>
          rcases (mem_andThen_iff _ _ _).mp hsome with ⟨dot, hdot, more, hmore, rfl⟩
          rcases mem_cuts_char hdot with ⟨c, _, hone, hrest⟩
          rw [hrest, (mem_cuts_oneOrMore_char hmore).right.right, hone]
          rfl
      | inr hnone =>
          rw [List.mem_singleton.mp hnone]
          rfl
    · cases List.mem_append.mp hpoint with
      | inl hsome =>
          rcases (mem_andThen_iff _ _ _).mp hsome with ⟨dot, hdot, more, hmore, rfl⟩
          rcases mem_cuts_char hdot with ⟨c, hc, hone, _⟩
          rcases mem_cuts_oneOrMore_char hmore with ⟨hfraction, hdigits, _⟩
          refine Or.inr ⟨more.1, ?_, hfraction, hdigits⟩
          rw [hone, of_decide_eq_true hc]
          rfl
      | inr hnone =>
          rw [List.mem_singleton.mp hnone]
          exact Or.inl rfl

/-- Digits that are left in front of a word run into it. -/
theorem runsIntoWord_of_append {digits tail : List Char}
    (hdigits : forall c, c ∈ digits -> Text.isDigit c = true) (htail : Token.startsWord tail = true)
    (hend : Token.startsWord (digits ++ tail) = false) : RunsIntoWord (digits ++ tail) := by
  refine ⟨digits, tail, rfl, ?_, hdigits, Or.inl htail⟩
  intro hnil
  rw [hnil, List.nil_append, htail] at hend
  cases hend

theorem RunsIntoWord.of_mem_cuts_magnitude {cs : List Char} (h : RunsIntoWord cs) {cut : Cut}
    (hcut : cut ∈ magnitude.cuts cs) : RunsIntoWord cut.2 ∨ cut.2.head? = some '.' := by
  rcases h with ⟨whole, tail, hcs, _, hdigits, htail⟩
  rcases mem_cuts_magnitude hcut with ⟨front, point, heq, _, hfront, hpoint, hend⟩
  rw [hcs] at heq
  have hstop : forall c, tail.head? = some c -> Text.isDigit c = false := by
    intro c hc
    rcases htail with hword | ⟨fraction, more, rfl, _⟩
    · exact isDigit_of_startsWord hword c hc
    · cases hc
      exact textIsDigit_point
  rcases exists_digits_of_append_eq heq.symm hfront hstop with ⟨others, rfl, hrest⟩
  have hothers : forall c, c ∈ others -> Text.isDigit c = true :=
    fun c hc => hdigits c (List.mem_append_right front hc)
  rcases hpoint with rfl | ⟨digits, rfl, _, hafter⟩
  · rw [List.nil_append] at hrest
    rw [hrest] at hend ⊢
    rcases htail with hword | ⟨fraction, more, htail, hfraction⟩
    · exact Or.inl (runsIntoWord_of_append hothers hword hend)
    · cases others with
      | nil => exact Or.inr (by rw [htail]; rfl)
      | cons d others =>
          exact Or.inl ⟨d :: others, tail, rfl, List.cons_ne_nil d others, hothers,
            Or.inr ⟨fraction, more, htail, hfraction⟩⟩
  · cases others with
    | cons d others =>
        have hd := hothers d List.mem_cons_self
        rw [← (List.cons.inj hrest).left, textIsDigit_point] at hd
        cases hd
    | nil =>
        rcases htail with hword | ⟨fraction, more, rfl, _, hfraction, hword⟩
        · rw [List.nil_append] at hrest
          rw [← hrest] at hword
          cases hword
        · have hmore := (List.cons.inj hrest).right
          rcases exists_digits_of_append_eq hmore hafter (isDigit_of_startsWord hword) with
            ⟨others, rfl, hcut⟩
          rw [hcut] at hend ⊢
          exact Or.inl (runsIntoWord_of_append
            (fun c hc => hfraction c (List.mem_append_right digits hc)) hword hend)

/-!
# Signs
-/

theorem cuts_number_signed (cs : List Char) :
    number.cuts ('-' :: cs) =
      (magnitude.cuts cs).map fun cut => ('-' :: cut.1, cut.2) := by
  have hunsigned : magnitude.cuts ('-' :: cs) = [] :=
    cuts_seq_eq_nil (cuts_digits_eq_nil cs (textIsDigit_eq_false (by decide) (by decide))) _
  have hsign : (Pattern.optional (char (· = '-'))).cuts ('-' :: cs) =
      [(['-'], cs)] ++ [([], '-' :: cs)] := rfl
  rw [number, cuts, hsign, andThen_append, andThen_here, hunsigned, List.append_nil,
    andThen_singleton]
  rfl

theorem cuts_number_unsigned {c : Char} (hsign : c ≠ '-') (cs : List Char) :
    number.cuts (c :: cs) = magnitude.cuts (c :: cs) := by
  have hnone : (char (· = '-')).cuts (c :: cs) = [] := by
    rw [cuts_char_cons, decide_eq_false hsign, if_neg Bool.false_ne_true]
  rw [number, cuts, cuts_optional_of_nil hnone, andThen_here]

/-- Whatever begins like a numeral is a numeral or nothing. -/
theorem first?_eq_number {c : Char} (rest : List Char) (hblank : Text.isBlank c = false)
    (hword : isWordStart c = false) (hother : c ∉ ['"', '\'', '(', ')', ',']) :
    first? (c :: rest) =
      (number.match? (c :: rest)).map fun cut => (⟨.number, cut.1⟩, cut.2) := by
  simp only [List.mem_cons, List.not_mem_nil, or_false, not_or] at hother
  rcases hother with ⟨htext, hquoted, hpunctuation⟩
  have hnone : (char fun c => c = '(' ∨ c = ')' ∨ c = ',').cuts (c :: rest) = [] := by
    rw [cuts_char_cons, if_neg (by simpa using hpunctuation)]
  rw [first?, patterns, firstOf?_cons_of_nil (cuts_blank_eq_nil rest hblank)]
  cases hnumber : number.match? (c :: rest) with
  | some cut => exact firstOf?_cons_of_match hnumber
  | none =>
      rw [firstOf?_cons_of_nil (List.head?_eq_none_iff.mp hnumber),
        firstOf?_cons_of_nil (cuts_name_eq_nil rest hword),
        firstOf?_cons_of_nil (cuts_enclosed_eq_nil rest htext),
        firstOf?_cons_of_nil (cuts_enclosed_eq_nil rest hquoted), firstOf?_cons_of_nil hnone]
      rfl

theorem first?_sign (rest : List Char) :
    first? ('-' :: rest) =
      (number.match? ('-' :: rest)).map fun cut => (⟨.number, cut.1⟩, cut.2) :=
  first?_eq_number rest (by decide) (by decide) (by decide)

theorem first?_digit {c : Char} (hc : Text.isDigit c = true) (rest : List Char) :
    first? (c :: rest) =
      (number.match? (c :: rest)).map fun cut => (⟨.number, cut.1⟩, cut.2) := by
  apply first?_eq_number
  · exact isBlank_of_textIsDigit hc
  · cases hword : isWordStart c with
    | false => rfl
    | true =>
        rw [textIsDigit_of_isWordStart hword] at hc
        cases hc
  · intro hmem
    have hall : (['"', '\'', '(', ')', ','].all fun d => d.toNat < 0x30) = true := by decide
    have hlow : c.toNat < 0x30 := of_decide_eq_true (List.all_eq_true.mp hall c hmem)
    rw [textIsDigit_eq_false (Or.inl hlow) (by omega)] at hc
    cases hc

/-!
# What cannot be cut
-/

theorem first?_point (rest : List Char) : first? ('.' :: rest) = none := by
  have hdigit : Text.isDigit '.' = false := textIsDigit_point
  rw [first?_eq_number rest (by decide) (by decide) (by decide),
    match?_eq_none (cuts_number_eq_nil rest (by decide) hdigit)]
  rfl

theorem cuts_cons_iff {c : Char} {cs : List Char} {lexemes : List Lexeme} :
    Cuts (c :: cs) lexemes ↔ exists lexeme rest others,
      first? (c :: cs) = some (lexeme, rest) ∧ Cuts rest others ∧ lexemes = lexeme :: others := by
  constructor
  · intro h
    cases h with
    | cons hfirst hrest => exact ⟨_, _, _, hfirst, hrest, rfl⟩
  · intro h
    rcases h with ⟨lexeme, rest, others, hfirst, hrest, rfl⟩
    exact .cons hfirst hrest

theorem not_cuts_point {cs : List Char} (h : cs.head? = some '.') {lexemes : List Lexeme} :
    ¬ Cuts cs lexemes := by
  rcases List.head?_eq_some_iff.mp h with ⟨rest, rfl⟩
  intro hcuts
  rcases cuts_cons_iff.mp hcuts with ⟨lexeme, after, others, hfirst, _⟩
  rw [first?_point] at hfirst
  cases hfirst

/-- Digits that run into a word cannot be cut, however many of them are cut off. -/
theorem RunsIntoWord.not_cuts {cs : List Char} (h : RunsIntoWord cs) {lexemes : List Lexeme} :
    ¬ Cuts cs lexemes := by
  intro hcuts
  induction hcuts with
  | nil =>
      rcases h with ⟨whole, tail, heq, hne, _⟩
      exact hne (List.append_eq_nil_iff.mp heq.symm).left
  | @cons cs rest lexeme others hfirst hrest ih =>
      have hnext : RunsIntoWord rest ∨ rest.head? = some '.' := by
        rcases id h with ⟨whole, tail, heq, hne, hdigits, _⟩
        cases whole with
        | nil => exact absurd rfl hne
        | cons d whole =>
            have hd := hdigits d List.mem_cons_self
            have hsign : d ≠ '-' := by
              intro hsign
              rw [hsign, textIsDigit_eq_false (by decide) (by decide)] at hd
              cases hd
            rw [heq, List.cons_append] at hfirst h
            rw [first?_digit hd, match?, cuts_number_unsigned hsign] at hfirst
            rcases Option.map_eq_some_iff.mp hfirst with ⟨cut, hcut, hlexeme⟩
            cases hlexeme
            exact h.of_mem_cuts_magnitude (List.mem_of_head? hcut)
      cases hnext with
      | inl hword => exact ih hword
      | inr hpoint => exact not_cuts_point hpoint hrest

theorem not_cuts_of_readNumeral {negative : Bool} {cs suffix : List Char}
    (h : Token.readNumeral negative cs = .error suffix) {cut : Cut}
    (hcut : cut ∈ magnitude.cuts cs) {lexemes : List Lexeme} : ¬ Cuts cut.2 lexemes := by
  cases runsIntoWord_of_readNumeral h with
  | inl hnone =>
      have hdigits : digits.cuts cs = [] := cuts_oneOrMore_char_eq_nil hnone
      rw [magnitude, cuts_seq_eq_nil hdigits] at hcut
      cases hcut
  | inr hword =>
      cases hword.of_mem_cuts_magnitude hcut with
      | inl hnext => exact hnext.not_cuts
      | inr hpoint => exact not_cuts_point hpoint

/-!
# Quotes
-/

section
variable {quote c : Char} (rest : List Char)

theorem cuts_inner_plain (hquote : c ≠ quote) (hescape : c ≠ '\\') :
    (inner quote).cuts (c :: rest) = [([c], rest)] := by
  simp [inner, cuts, andThen, hquote, hescape]

theorem cuts_inner_escaped (hc : c ≠ '\n') :
    (inner quote).cuts ('\\' :: c :: rest) = [(['\\', c], rest)] := by
  simp [inner, cuts, andThen, hc]

theorem cuts_inner_lineFeed : (inner quote).cuts ('\\' :: '\n' :: rest) = [] := by
  simp [inner, cuts, andThen]

theorem cuts_inner_quote (hquote : quote ≠ '\\') : (inner quote).cuts (quote :: rest) = [] := by
  simp [inner, cuts, andThen, hquote]

theorem cuts_quote_eq_nil (hc : c ≠ quote) : (char (· = quote)).cuts (c :: rest) = [] := by
  simp [cuts, hc]

end

/-- Between quotes there is one way to match, up to the quote that is not behind a backslash. -/
theorem cuts_body {quote : Char} (hquote : quote ≠ '\\') (n : Nat) (cs : List Char)
    (hn : cs.length ≤ n) :
    andThen (rounds (inner quote).cuts n cs) (char (· = quote)).cuts =
      ((Token.readBody? quote cs).map fun read => (read.1 ++ [quote], read.2)).toList := by
  induction n generalizing cs with
  | zero =>
      rw [List.length_eq_zero_iff.mp (Nat.le_zero.mp hn)]
      rfl
  | succ n ih =>
      rw [andThen_rounds_succ]
      fun_cases Token.readBody? quote cs with
      | case1 => rfl
      | case2 rest =>
          rw [cuts_inner_lineFeed, cuts_quote_eq_nil _ hquote.symm]
          rfl
      | case3 c rest hc =>
          have hrest := ih rest (Nat.le_of_succ_le (Nat.le_of_succ_le_succ hn))
          rw [cuts_inner_escaped rest hc, cuts_quote_eq_nil _ hquote.symm, andThen_singleton, hrest]
          cases Token.readBody? quote rest <;> rfl
      | case4 rest =>
          rw [cuts_inner_quote rest hquote]
          simp [andThen, cuts]
      | case5 rest hend =>
          cases rest with
          | nil => 
              rw [cuts_quote_eq_nil _ hquote.symm]
              simp [inner, cuts, andThen]
          | cons c more => exact absurd rfl (hend c more rfl)
      | case6 c rest _ hc hescape =>
          have hrest := ih rest (Nat.le_of_succ_le_succ hn)
          rw [cuts_inner_plain rest hc hescape, cuts_quote_eq_nil _ hc, andThen_singleton, hrest]
          cases Token.readBody? quote rest <;> rfl

/-- What is enclosed in quotes is read up to its closing quote, or it is not matched at all. -/
theorem cuts_enclosed {quote : Char} (hquote : quote ≠ '\\') (rest : List Char) :
    (enclosed quote).cuts (quote :: rest) =
      ((Token.readBody? quote rest).map fun read =>
        (quote :: read.1 ++ [quote], read.2)).toList := by
  have hopen : (char (· = quote)).cuts (quote :: rest) = [([quote], rest)] := by
    rw [cuts_char_cons, decide_eq_true rfl, if_pos rfl]
  rw [enclosed, cuts, hopen, andThen_singleton, cuts, cuts, cuts_body hquote _ _ (Nat.le_refl _)]
  cases Token.readBody? quote rest <;> rfl

end Lexeme
end EventCalculus
