import EventCalculus.Proofs.Lexemes
import EventCalculus.Proofs.Outcomes
import EventCalculus.Proofs.SurfaceTokens

/-!
# Tokens as lexemes

What is read at the front of a text is the lexeme there, class by class of the first character.  The
tokens of a text are read exactly if the text can be cut into lexemes.
-/

namespace EventCalculus
namespace Token

open Pattern

/-- The kind of lexeme that a token is read from. -/
def kind : Token -> LexemeKind
  | .variable _ | .name _ => .name
  | .numeral _ => .number
  | .text _ => .text
  | .quoted _ => .quoted
  | .openParen | .closeParen | .comma => .punctuation

def lexeme (t : Token) : Lexeme :=
  ⟨t.kind, t.chars⟩

/-- A numeral is written with digits, the other tokens carry their own form. -/
def IsWritten : Token -> Prop
  | .numeral n => forall c, c ∈ n.whole ++ n.fraction -> Text.isDigit c = true
  | _ => True

theorem kind_ne_blank (t : Token) : t.kind ≠ .blank := by
  cases t <;> exact fun h => by cases h

theorem shown_lexeme (t : Token) : Lexeme.shown [t.lexeme] = [t.lexeme] := by
  rw [Lexeme.shown, List.filter_cons_of_pos]
  · rfl
  · exact decide_eq_true t.kind_ne_blank

/-- Letters, digits and underscores behind a letter or an underscore are a variable or a name. -/
theorem exists_ofWord? {c : Char} {word : List Char} (hc : isWordStart c = true)
    (hword : forall d, d ∈ word -> isWordChar d = true) :
    exists token, ofWord? (c :: word) = some token ∧ token.lexeme = ⟨.name, c :: word⟩ ∧
      token.IsWritten := by
  have hstart : isVariableStart c = true ∨ c.isLower = true := by
    simp only [isWordStart_eq, isVariableStart, Bool.or_eq_true] at hc ⊢
    tauto
  unfold ofWord?
  by_cases hvariable : isVariableText (String.ofList (c :: word)) = true
  · rw [VariableName.ofText?, dif_pos hvariable]
    exact ⟨_, rfl, congrArg (Lexeme.mk .name) String.toList_ofList, trivial⟩
  · have hfunctor : isFunctorText (String.ofList (c :: word)) = true := by
      rw [isFunctorText, String.toList_ofList]
      cases hstart with
      | inl hupper =>
          rw [isVariableText, String.toList_ofList] at hvariable
          exact absurd (isIdentifier_of_isWordChar hupper hword) hvariable
      | inr hlower => exact isIdentifier_of_isWordChar hlower hword
    rw [VariableName.ofText?, dif_neg hvariable, Functor.ofText?, dif_pos hfunctor]
    exact ⟨_, rfl, congrArg (Lexeme.mk .name) String.toList_ofList, trivial⟩

/-- What is read at the front of a text is the lexeme there, and where nothing can be read the text
cannot be cut. -/
def ReadsFirst (cs : List Char) : Except (List Char) (Option Token × List Char) -> Prop
  | .ok (token, after) => (exists lexeme, Lexeme.first? cs = some (lexeme, after) ∧
      Lexeme.shown [lexeme] = token.toList.map Token.lexeme) ∧
      forall t, t ∈ token.toList -> t.IsWritten
  | .error _ => forall lexemes, ¬ Lexeme.Cuts cs lexemes

section
variable {cs after : List Char}

theorem readsFirst_token {token : Token} (h : Lexeme.first? cs = some (token.lexeme, after))
    (hwritten : token.IsWritten) : ReadsFirst cs (.ok (some token, after)) :=
  ⟨⟨token.lexeme, h, token.shown_lexeme⟩, fun _ ht => List.mem_singleton.mp ht ▸ hwritten⟩

theorem readsFirst_error {c : Char} (h : Lexeme.first? (c :: cs) = none) (suffix : List Char) :
    ReadsFirst (c :: cs) (.error suffix) := by
  intro lexemes hcuts
  rcases Lexeme.cuts_cons_iff.mp hcuts with ⟨lexeme, rest, others, hfirst, _⟩
  rw [h] at hfirst
  cases hfirst

end

theorem readsFirst_blank {c : Char} (hc : Text.isBlank c = true) (rest : List Char) :
    ReadsFirst (c :: rest) (.ok (none, rest.dropWhile Text.isBlank)) := by
  have hmatch : (oneOrMore (char Text.isBlank)).match? (c :: rest) =
      some (c :: rest.takeWhile Text.isBlank, rest.dropWhile Text.isBlank) :=
    match?_seq (match?_char hc rest) (match?_many_char rest)
  exact ⟨⟨⟨.blank, _⟩, Lexeme.firstOf?_cons_of_match hmatch, rfl⟩,
    fun _ ht => absurd ht List.not_mem_nil⟩

/-- A numeral is read as the pattern of numerals matches, if it is read. -/
theorem readsFirst_numeral {c : Char} {rest cs : List Char} {negative : Bool}
    (h : Lexeme.first? (c :: rest) = (Lexeme.magnitude.match? cs).map fun cut =>
      (⟨.number, (if negative then ['-'] else []) ++ cut.1⟩, cut.2)) :
    ReadsFirst (c :: rest)
      ((readNumeral negative cs).map fun (token, after) => (some token, after)) := by
  cases hread : readNumeral negative cs with
  | ok result =>
      rcases result with ⟨token, after⟩
      rcases Lexeme.match?_magnitude hread with ⟨whole, fraction, rfl, hdigits, hmatch⟩
      refine readsFirst_token ?_ hdigits
      rw [h, hmatch, Option.map_some, ← List.append_assoc]
      rfl
  | error suffix =>
      intro lexemes hcuts
      rcases Lexeme.cuts_cons_iff.mp hcuts with ⟨lexeme, after, others, hfirst, hrest, _⟩
      rw [h] at hfirst
      rcases Option.map_eq_some_iff.mp hfirst with ⟨cut, hcut, hlexeme⟩
      cases hlexeme
      exact Lexeme.not_cuts_of_readNumeral hread (List.mem_of_head? hcut) hrest

theorem readsFirst_signed (rest : List Char) :
    ReadsFirst ('-' :: rest)
      ((readNumeral true rest).map fun (token, after) => (some token, after)) := by
  apply readsFirst_numeral
  rw [Lexeme.first?_sign, match?, Lexeme.cuts_number_signed, List.head?_map, Option.map_map]
  rfl

theorem readsFirst_unsigned {c : Char} (hc : Text.isDigit c = true) (rest : List Char) :
    ReadsFirst (c :: rest)
      ((readNumeral false (c :: rest)).map fun (token, after) => (some token, after)) := by
  apply readsFirst_numeral
  have hsign : c ≠ '-' := by
    intro heq
    rw [heq, textIsDigit_eq_false (by decide) (by decide)] at hc
    cases hc
  rw [Lexeme.first?_digit hc, match?, Lexeme.cuts_number_unsigned hsign]
  rfl

section
variable {c : Char} (rest : List Char) (hblank : Text.isBlank c = false) (hsign : c ≠ '-')
  (hdigit : Text.isDigit c = false)
include hblank hsign hdigit

theorem first?_eq_firstOf? : Lexeme.first? (c :: rest) =
    Lexeme.firstOf? [(.name, Lexeme.name), (.text, Lexeme.enclosed '"'),
      (.quoted, Lexeme.enclosed '\''),
      (.punctuation, char fun c => c = '(' ∨ c = ')' ∨ c = ',')] (c :: rest) := by
  rw [Lexeme.first?, Lexeme.patterns,
    Lexeme.firstOf?_cons_of_nil (Lexeme.cuts_blank_eq_nil rest hblank),
    Lexeme.firstOf?_cons_of_nil (Lexeme.cuts_number_eq_nil rest hsign hdigit)]

theorem readsFirst_word (hc : isWordStart c = true) {suffix : List Char} :
    ReadsFirst (c :: rest) (match ofWord? (c :: rest.takeWhile isWordChar) with
      | some token => .ok (some token, rest.dropWhile isWordChar)
      | none => .error suffix) := by
  have hname : Lexeme.name.match? (c :: rest) =
      some (c :: rest.takeWhile isWordChar, rest.dropWhile isWordChar) :=
    match?_seq (match?_char hc rest) (match?_many_char rest)
  rcases exists_ofWord? hc (fun d hd => List.mem_takeWhile_imp hd) with
    ⟨token, htoken, hlexeme, hwritten⟩
  rw [htoken]
  refine readsFirst_token ?_ hwritten
  rw [first?_eq_firstOf? rest hblank hsign hdigit, Lexeme.firstOf?_cons_of_match hname, hlexeme]

variable (hword : isWordStart c = false)
include hword

theorem first?_eq_firstOf?_enclosed : Lexeme.first? (c :: rest) =
    Lexeme.firstOf? [(.text, Lexeme.enclosed '"'), (.quoted, Lexeme.enclosed '\''),
      (.punctuation, char fun c => c = '(' ∨ c = ')' ∨ c = ',')] (c :: rest) := by
  rw [first?_eq_firstOf? rest hblank hsign hdigit,
    Lexeme.firstOf?_cons_of_nil (Lexeme.cuts_name_eq_nil rest hword)]

theorem first?_eq_firstOf?_punctuation (htext : c ≠ '"') (hquoted : c ≠ '\'') :
    Lexeme.first? (c :: rest) =
      Lexeme.firstOf? [(.punctuation, char fun c => c = '(' ∨ c = ')' ∨ c = ',')] (c :: rest) := by
  rw [first?_eq_firstOf?_enclosed rest hblank hsign hdigit hword,
    Lexeme.firstOf?_cons_of_nil (Lexeme.cuts_enclosed_eq_nil rest htext),
    Lexeme.firstOf?_cons_of_nil (Lexeme.cuts_enclosed_eq_nil rest hquoted)]

end

theorem firstOf?_punctuation_eq_none {c : Char} (rest : List Char)
    (hc : ¬ (c = '(' ∨ c = ')' ∨ c = ',')) :
    Lexeme.firstOf? [(.punctuation, char fun c => c = '(' ∨ c = ')' ∨ c = ',')] (c :: rest) =
      none := by
  rw [Lexeme.firstOf?_cons_of_nil]
  · rfl
  · rw [cuts_char_cons, decide_eq_false hc, if_neg Bool.false_ne_true]

theorem readsFirst_text (rest : List Char) :
    ReadsFirst ('"' :: rest) (match readBody? '"' rest with
      | some (body, after) => .ok (some (.text body), after)
      | none => .error ('"' :: rest)) := by
  have hdigit : Text.isDigit '"' = false := textIsDigit_eq_false (by decide) (by decide)
  have hescape : '"' ≠ '\\' := by decide
  have hfirst := first?_eq_firstOf?_enclosed rest (by decide) (by decide) hdigit (by decide)
  have hcuts := Lexeme.cuts_enclosed hescape rest
  cases hbody : readBody? '"' rest with
  | some read =>
      rw [hbody] at hcuts
      refine readsFirst_token ?_ trivial
      rw [hfirst, Lexeme.firstOf?_cons_of_match (by rw [match?, hcuts]; rfl)]
      rfl
  | none =>
      rw [hbody] at hcuts
      apply readsFirst_error
      rw [hfirst, Lexeme.firstOf?_cons_of_nil hcuts,
        Lexeme.firstOf?_cons_of_nil (Lexeme.cuts_enclosed_eq_nil rest (by decide)),
        firstOf?_punctuation_eq_none rest (by decide)]

theorem readsFirst_quoted (rest : List Char) :
    ReadsFirst ('\'' :: rest) (match readBody? '\'' rest with
      | some (body, after) => .ok (some (.quoted body), after)
      | none => .error ('\'' :: rest)) := by
  have hdigit : Text.isDigit '\'' = false := textIsDigit_eq_false (by decide) (by decide)
  have hescape : '\'' ≠ '\\' := by decide
  have hfirst := first?_eq_firstOf?_enclosed rest (by decide) (by decide) hdigit (by decide)
  have hcuts := Lexeme.cuts_enclosed hescape rest
  rw [Lexeme.firstOf?_cons_of_nil (Lexeme.cuts_enclosed_eq_nil rest (by decide))] at hfirst
  cases hbody : readBody? '\'' rest with
  | some read =>
      rw [hbody] at hcuts
      refine readsFirst_token ?_ trivial
      rw [hfirst, Lexeme.firstOf?_cons_of_match (by rw [match?, hcuts]; rfl)]
      rfl
  | none =>
      rw [hbody] at hcuts
      apply readsFirst_error
      rw [hfirst, Lexeme.firstOf?_cons_of_nil hcuts, firstOf?_punctuation_eq_none rest (by decide)]

theorem readsFirst_punctuation (token : Token) {c : Char}
    (htoken : token.lexeme = ⟨.punctuation, [c]⟩) (hwritten : token.IsWritten)
    (hc : c = '(' ∨ c = ')' ∨ c = ',') (rest : List Char) :
    ReadsFirst (c :: rest) (.ok (some token, rest)) := by
  have hdigit : Text.isDigit c = false := by
    rcases hc with rfl | rfl | rfl <;> exact textIsDigit_eq_false (by decide) (by decide)
  have hmatch : (char fun c => c = '(' ∨ c = ')' ∨ c = ',').match? (c :: rest) =
      some ([c], rest) :=
    match?_char (decide_eq_true hc) rest
  refine readsFirst_token ?_ hwritten
  rw [first?_eq_firstOf?_punctuation rest _ _ hdigit, Lexeme.firstOf?_cons_of_match hmatch, htoken]
  all_goals rcases hc with rfl | rfl | rfl <;> decide

theorem readsFirst_readFirst (c : Char) (rest : List Char) :
    ReadsFirst (c :: rest) (readFirst c rest) := by
  unfold readFirst
  split
  · rename_i hblank
    exact readsFirst_blank hblank rest
  rename_i hblank
  split
  · rename_i hsign
    rw [hsign]
    exact readsFirst_signed rest
  rename_i hsign
  split
  · rename_i hdigit
    exact readsFirst_unsigned hdigit rest
  rename_i hdigit
  rw [Bool.not_eq_true] at hblank hdigit
  split
  · rename_i hword
    exact readsFirst_word rest hblank hsign hdigit hword
  rename_i hword
  rw [Bool.not_eq_true] at hword
  split
  · rename_i htext
    rw [htext]
    exact readsFirst_text rest
  rename_i htext
  split
  · rename_i hquoted
    rw [hquoted]
    exact readsFirst_quoted rest
  rename_i hquoted
  split
  · rename_i hc
    exact readsFirst_punctuation .openParen (by rw [hc]; rfl) trivial (Or.inl hc) rest
  rename_i hopen
  split
  · rename_i hc
    exact readsFirst_punctuation .closeParen (by rw [hc]; rfl) trivial (Or.inr (Or.inl hc)) rest
  rename_i hclose
  split
  · rename_i hc
    exact readsFirst_punctuation .comma (by rw [hc]; rfl) trivial (Or.inr (Or.inr hc)) rest
  rename_i hcomma
  apply readsFirst_error
  rw [first?_eq_firstOf?_punctuation rest hblank hsign hdigit hword htext hquoted]
  exact firstOf?_punctuation_eq_none rest (by simp [hopen, hclose, hcomma])

/-!
# All tokens
-/

theorem readAll_cons (c : Char) (rest : List Char) :
    readAll (c :: rest) = (readFirst c rest).bind fun read =>
      (readAll read.2).map (read.1.toList ++ ·) := by
  rw [readAll]
  split
  · rename_i hread
    rw [hread]
    rfl
  · rename_i token after hread
    rw [hread]
    show _ = (readAll after).map _
    cases readAll after <;> rfl

/-- The tokens of a text are the lexemes that it is cut into, without the blank ones. -/
theorem exists_readAll_of_cuts {cs : List Char} {lexemes : List Lexeme}
    (h : Lexeme.Cuts cs lexemes) :
    exists tokens, readAll cs = .ok tokens ∧ Lexeme.shown lexemes = tokens.map Token.lexeme ∧
      forall t, t ∈ tokens -> t.IsWritten := by
  induction h with
  | nil => exact ⟨[], by rw [readAll], rfl, fun _ ht => absurd ht List.not_mem_nil⟩
  | @cons cs rest lexeme others hfirst hrest ih =>
      rcases ih with ⟨tokens, htokens, hshown, hwritten⟩
      cases cs with
      | nil =>
          rw [Lexeme.first?_nil] at hfirst
          cases hfirst
      | cons c more =>
          have hreads := readsFirst_readFirst c more
          rw [readAll_cons]
          cases hread : readFirst c more with
          | error suffix =>
              rw [hread] at hreads
              exact absurd (.cons hfirst hrest) (hreads _)
          | ok read =>
              rw [hread] at hreads
              rcases hreads with ⟨⟨found, hfound, hone⟩, hfirstWritten⟩
              rw [hfirst] at hfound
              cases hfound
              refine ⟨read.1.toList ++ tokens, ?_, ?_, ?_⟩
              · show (readAll read.2).map _ = _
                rw [htokens]
                rfl
              · rw [← List.singleton_append, Lexeme.shown, List.filter_append, List.map_append]
                exact congrArg₂ _ hone hshown
              · intro t ht
                cases List.mem_append.mp ht with
                | inl hmem => exact hfirstWritten t hmem
                | inr hmem => exact hwritten t hmem

theorem exists_cuts_of_readAll {cs : List Char} {tokens : List Token}
    (h : readAll cs = .ok tokens) : exists lexemes, Lexeme.Cuts cs lexemes := by
  induction hn : cs.length using Nat.strong_induction_on generalizing cs tokens with
  | h n ih =>
      cases cs with
      | nil => exact ⟨[], .nil⟩
      | cons c rest =>
          rw [readAll_cons] at h
          rcases exists_of_bind_eq_ok h with ⟨read, hread, hmap⟩
          rcases exists_of_map_eq_ok hmap with ⟨others, hothers, _⟩
          have hreads := readsFirst_readFirst c rest
          rw [hread] at hreads
          rcases hreads with ⟨⟨lexeme, hfirst, _⟩, _⟩
          rcases ih _ (hn ▸ readFirst_length hread) hothers rfl with ⟨lexemes, hcuts⟩
          exact ⟨lexeme :: lexemes, .cons hfirst hcuts⟩

end Token
end EventCalculus
