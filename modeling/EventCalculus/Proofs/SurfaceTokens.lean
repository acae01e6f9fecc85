import EventCalculus.Proofs.NumeralText
import EventCalculus.Proofs.Stems

/-!
# Tokens of a term's text

The text of a term is cut into the tokens that its parts show, in front of
whatever follows it.  If a number shows an exponent or is infinite and negative,
nothing behind it is reached and no tokens are read at all.
-/

namespace EventCalculus
namespace Token

/-!
# Reading in front of a rest
-/

/-- The tokens of a source, if there are any. -/
def scan? (cs : List Char) : Option (List Token) :=
  (readAll cs).toOption

/-- Tokens that are read before the rest of a source. -/
def before? (first : Option (List Token)) (rest : List Char) : Option (List Token) :=
  first.bind fun tokens => (scan? rest).map (tokens ++ ·)

@[simp] theorem before?_none (rest : List Char) : before? none rest = none := rfl

@[simp] theorem before?_nil (rest : List Char) : before? (some []) rest = scan? rest := by
  simp [before?]

theorem before?_append (first : Option (List Token)) {more : Option (List Token)}
    {rest after : List Char} (h : scan? rest = before? more after) :
    before? first rest =
      before? (first.bind fun tokens => more.map (tokens ++ ·)) after := by
  cases first with
  | none => rfl
  | some tokens =>
      cases more with
      | none => simp [before?, h]
      | some others =>
          simp only [before?, h, Option.bind_some, Option.map_some, Option.map_map]
          congr 1
          funext tail
          simp

theorem scan?_of_readFirst {c : Char} {rest after : List Char} (token : Option Token)
    (h : readFirst c rest = .ok (token, after)) :
    scan? (c :: rest) = before? (some token.toList) after := by
  unfold scan? before?
  rw [readAll]
  split
  · rename_i hread
    rw [h] at hread
    cases hread
  · rename_i hread
    rw [h] at hread
    cases hread
    cases hafter : readAll after with
    | error suffix => simp [Except.toOption, scan?, hafter]
    | ok tokens => simp [Except.toOption, scan?, hafter]

theorem scan?_of_readFirst_error {c : Char} {rest suffix : List Char}
    (h : readFirst c rest = .error suffix) : scan? (c :: rest) = none := by
  unfold scan?
  rw [readAll]
  split
  · rfl
  · rename_i hread
    rw [h] at hread
    cases hread

theorem scan?_open (rest : List Char) :
    scan? ('(' :: rest) = before? (some [.openParen]) rest :=
  scan?_of_readFirst (some .openParen) rfl

theorem scan?_close (rest : List Char) :
    scan? (')' :: rest) = before? (some [.closeParen]) rest :=
  scan?_of_readFirst (some .closeParen) rfl

theorem scan?_comma (rest : List Char) : scan? (',' :: rest) = before? (some [.comma]) rest :=
  scan?_of_readFirst (some .comma) rfl

theorem scan?_dropBlanks {blank : Char} (hblank : Text.isBlank blank = true) (rest : List Char) :
    scan? (blank :: rest) = scan? (rest.dropWhile Text.isBlank) := by
  have hread : readFirst blank rest = .ok (none, rest.dropWhile Text.isBlank) := by
    simp [readFirst, hblank]
  rw [scan?_of_readFirst _ hread]
  exact before?_nil _

/-- A blank character is dropped, and so are those after it. -/
theorem scan?_blank {blank : Char} (hblank : Text.isBlank blank = true) (rest : List Char) :
    scan? (blank :: rest) = scan? rest := by
  rw [scan?_dropBlanks hblank]
  cases rest with
  | nil => rfl
  | cons c more =>
      cases hc : Text.isBlank c with
      | false => rw [List.dropWhile_cons, hc, if_neg Bool.false_ne_true]
      | true => rw [scan?_dropBlanks hc, List.dropWhile_cons, if_pos hc]

/-!
# Words
-/

theorem readFirst_word {c : Char} (hc : isWordStart c = true) {word rest : List Char}
    (hword : forall d, d ∈ word -> isWordChar d = true)
    (hrest : forall d, rest.head? = some d -> isWordChar d = false) {token : Token}
    (htoken : ofWord? (c :: word) = some token) :
    readFirst c (word ++ rest) = .ok (some token, rest) := by
  have htake := takeWhile_run_append hword hrest
  have hdrop := dropWhile_run_append hword hrest
  have hsign : c ≠ '-' := by
    intro heq
    rw [heq] at hc
    cases hc
  simp [readFirst, isBlank_of_isWordStart hc, hsign, textIsDigit_of_isWordStart hc, hc, htake,
    htoken, hdrop]

/-- An identifier is read as its stem, with or without a line feed at its end. -/
theorem scan?_identifier {start : Char -> Bool} {cs : List Char}
    (hstart : forall c, start c = true -> isWordStart c = true)
    (hcs : isIdentifier start cs = true) {token : Token}
    (htoken : ofWord? (stemChars cs) = some token) {rest : List Char} (hrest : EndsWord rest) :
    scan? (cs ++ rest) = before? (some [token]) rest := by
  have hword : forall d, d ∈ stemChars cs -> isWordChar d = true :=
    fun _ => isWordChar_of_mem_stemChars hstart hcs
  rcases exists_start_of_isIdentifier (isIdentifier_stemChars hcs) with ⟨c, word, hcons, hc⟩
  rw [hcons] at htoken hword
  have hmore : forall d, d ∈ word -> isWordChar d = true :=
    fun d hd => hword d (List.mem_cons_of_mem c hd)
  cases eq_stemChars_or hcs with
  | inl heq =>
      rw [heq, hcons, List.cons_append]
      apply scan?_of_readFirst (some token)
      exact readFirst_word (hstart c hc) hmore (fun d hd => (hrest.not_isWordChar hd).left) htoken
  | inr hline =>
      rw [hline, hcons, List.append_assoc, List.cons_append]
      have hread : readFirst c (word ++ ('\n' :: rest)) = .ok (some token, '\n' :: rest) := by
        apply readFirst_word (hstart c hc) hmore _ htoken
        intro d hd
        cases hd
        exact isWordChar_lineFeed
      have hline : scan? ('\n' :: rest) = scan? rest := scan?_blank (by decide) rest
      rw [List.singleton_append, scan?_of_readFirst _ hread, before?, hline]
      rfl

theorem ofWord?_functor (f : Functor) :
    ofWord? (stemChars f.text.toList) = some (.name f.stem) := by
  have hfunctor : isFunctorText (String.ofList (stemChars f.text.toList)) = true := f.stem.valid
  simp [ofWord?, VariableName.ofText?, not_isVariableText hfunctor, Functor.ofText?, hfunctor,
    Functor.stem]

theorem ofWord?_variable (v : VariableName) :
    ofWord? (stemChars v.text.toList) = some (.variable v.stem) := by
  have hvariable : isVariableText (String.ofList (stemChars v.text.toList)) = true := v.stem.valid
  simp [ofWord?, VariableName.ofText?, hvariable, VariableName.stem]

theorem scan?_functor (f : Functor) {rest : List Char} (hrest : EndsWord rest) :
    scan? (f.text.toList ++ rest) = before? (some [.name f.stem]) rest :=
  scan?_identifier (fun _ => isWordStart_of_isLower) f.valid (ofWord?_functor f) hrest

theorem scan?_variable (v : VariableName) {rest : List Char} (hrest : EndsWord rest) :
    scan? (v.text.toList ++ rest) = before? (some [.variable v.stem]) rest :=
  scan?_identifier (fun _ => isWordStart_of_isVariableStart) v.valid (ofWord?_variable v) hrest

/-!
# Quoted bodies
-/

theorem readFirst_text (rest : List Char) :
    readFirst '"' rest = match readBody? '"' rest with
      | some (body, after) => .ok (some (.text body), after)
      | none => .error ('"' :: rest) := by
  have hblank : Text.isBlank '"' = false := rfl
  have hdigit : Text.isDigit '"' = false := textIsDigit_eq_false (by decide) (by decide)
  have hword : isWordStart '"' = false := rfl
  simp only [readFirst, hblank, hdigit, hword]
  rfl

theorem readFirst_quoted (rest : List Char) :
    readFirst '\'' rest = match readBody? '\'' rest with
      | some (body, after) => .ok (some (.quoted body), after)
      | none => .error ('\'' :: rest) := by
  have hblank : Text.isBlank '\'' = false := rfl
  have hdigit : Text.isDigit '\'' = false := textIsDigit_eq_false (by decide) (by decide)
  have hword : isWordStart '\'' = false := rfl
  simp only [readFirst, hblank, hdigit, hword]
  rfl

theorem scan?_text (body rest : List Char) :
    scan? (Term.enclose '"' body ++ rest) =
      before? (some [.text (body.flatMap (Term.escapeChar '"'))]) rest := by
  have hbody : readBody? '"' (body.flatMap (Term.escapeChar '"') ++ '"' :: rest) =
      some (body.flatMap (Term.escapeChar '"'), rest) :=
    readBody?_enclosed (by decide) (by decide) body rest
  rw [Term.enclose, List.append_assoc, List.cons_append, List.singleton_append]
  apply scan?_of_readFirst (some _)
  rw [readFirst_text, hbody]

theorem scan?_quoted (body rest : List Char) :
    scan? (Term.enclose '\'' body ++ rest) =
      before? (some [.quoted (body.flatMap (Term.escapeChar '\''))]) rest := by
  have hbody : readBody? '\'' (body.flatMap (Term.escapeChar '\'') ++ '\'' :: rest) =
      some (body.flatMap (Term.escapeChar '\''), rest) :=
    readBody?_enclosed (by decide) (by decide) body rest
  rw [Term.enclose, List.append_assoc, List.cons_append, List.singleton_append]
  apply scan?_of_readFirst (some _)
  rw [readFirst_quoted, hbody]

/-!
# Numbers
-/

/-- A sign in front of digits belongs to the numeral. -/
theorem readFirst_signed (negative : Bool) {magnitude : List Char} (rest : List Char) {c : Char}
    {more : List Char} (hcons : magnitude = c :: more) (hdigit : c.isDigit = true) :
    exists d after, (if negative then '-' :: magnitude else magnitude) ++ rest = d :: after ∧
      readFirst d after =
        (readNumeral negative (magnitude ++ rest)).map fun (token, after) =>
          (some token, after) := by
  cases negative with
  | true =>
      refine ⟨'-', magnitude ++ rest, rfl, ?_⟩
      have hblank : Text.isBlank '-' = false := rfl
      simp [readFirst, hblank]
  | false =>
      refine ⟨c, more ++ rest, ?_, ?_⟩
      · rw [hcons]
        rfl
      · have hsign : c ≠ '-' := by
          intro heq
          rw [heq] at hdigit
          cases hdigit
        simp [readFirst, isBlank_of_isDigit hdigit, hsign, textIsDigit_of_isDigit hdigit, hcons]

theorem scan?_signed (negative : Bool) {magnitude rest : List Char} {c : Char}
    {more : List Char} (hcons : magnitude = c :: more) (hdigit : c.isDigit = true)
    {numeral : Token} (hread : readNumeral negative (magnitude ++ rest) = .ok (numeral, rest)) :
    scan? ((if negative then '-' :: magnitude else magnitude) ++ rest) =
      before? (some [numeral]) rest := by
  rcases readFirst_signed negative rest hcons hdigit with ⟨d, after, hchars, hfirst⟩
  rw [hchars]
  rw [hread] at hfirst
  exact scan?_of_readFirst _ hfirst

theorem scan?_signed_error (negative : Bool) {magnitude rest suffix : List Char} {c : Char}
    {more : List Char} (hcons : magnitude = c :: more) (hdigit : c.isDigit = true)
    (hread : readNumeral negative (magnitude ++ rest) = .error suffix) :
    scan? ((if negative then '-' :: magnitude else magnitude) ++ rest) = none := by
  rcases readFirst_signed negative rest hcons hdigit with ⟨d, after, hchars, hfirst⟩
  rw [hchars]
  rw [hread] at hfirst
  exact scan?_of_readFirst_error hfirst

end Token

/-- The name that an infinite number shows. -/
def infinityName : Functor :=
  ⟨"inf", by decide +kernel⟩

/-- The token that a floating point number shows, if it shows one. -/
def Binary64.token? (x : Binary64) : Option Token :=
  if x.isFinite then
    if 'e' ∈ x.chars then
      none
    else
      some (.numeral ⟨x.negative, (magnitudeText x).takeWhile Char.isDigit,
        ((magnitudeText x).dropWhile Char.isDigit).drop 1⟩)
  else if x.negative then
    none
  else
    some (.name infinityName)

def Number.token? : Number -> Option Token
  | .int n => some (.numeral ⟨decide (n < 0), Nat.toDigits 10 n.natAbs, []⟩)
  | .float x => x.token?

namespace DecimalParts

theorem scale_mem_chars_iff (d : DecimalParts) : 'e' ∈ d.chars ↔ d.scale.isSome = true := by
  constructor
  · intro h
    cases List.mem_append.mp h with
    | inl hmantissa =>
        cases d.isDigit_or_point hmantissa with
        | inl hdigit => cases hdigit
        | inr hpoint => cases hpoint
    | inr hscale =>
        unfold scaleText at hscale
        cases hd : d.scale with
        | none =>
            rw [hd] at hscale
            cases hscale
        | some e => rfl
  · intro h
    rcases Option.isSome_iff_exists.mp h with ⟨e, he⟩
    simp [chars, scaleText, he]

theorem takeWhile_chars {d : DecimalParts} (hscale : d.scale = none) :
    d.chars.takeWhile Char.isDigit = d.whole ∧
      (d.chars.dropWhile Char.isDigit).drop 1 = d.fraction := by
  have hfraction : d.fraction ≠ [] := by
    have hshown := d.shown
    rw [hscale] at hshown
    simpa using hshown
  have hchars : d.chars = d.whole ++ '.' :: d.fraction := by
    simp [chars, pointText, scaleText, hscale, hfraction]
  rw [hchars, List.takeWhile_append_of_pos d.whole_digits,
    List.dropWhile_append_of_pos d.whole_digits]
  simp

end DecimalParts

namespace Binary64

/-- A finite number that shows no exponent shows digits around a point. -/
theorem exists_parts_of_not_mem {x : Binary64} (hfinite : x.isFinite = true)
    (hscale : 'e' ∉ x.chars) :
    exists d : DecimalParts, d.chars = magnitudeText x ∧ d.scale = none ∧
      x.token? = some (.numeral ⟨x.negative, d.whole, d.fraction⟩) ∧
      ofDecimal x.negative d.coefficient d.exponent = x := by
  rcases exists_parts_magnitudeText hfinite with ⟨d, hchars, hvalue⟩
  have hnone : d.scale = none := by
    cases hd : d.scale with
    | none => rfl
    | some e =>
        have hmem := d.scale_mem_chars_iff.mpr (by rw [hd]; rfl)
        rw [hchars] at hmem
        exact absurd (mem_chars_of_mem_magnitudeText hfinite hmem) hscale
  rcases DecimalParts.takeWhile_chars hnone with ⟨hwhole, hfraction⟩
  refine ⟨d, hchars, hnone, ?_, ?_⟩
  · simp [token?, hfinite, hscale, ← hchars, hwhole, hfraction]
  · rw [hvalue]

theorem exists_parts_of_mem {x : Binary64} (hfinite : x.isFinite = true)
    (hscale : 'e' ∈ x.chars) :
    exists (d : DecimalParts) (e : Int), d.chars = magnitudeText x ∧ d.scale = some e := by
  rcases exists_parts_magnitudeText hfinite with ⟨d, hchars, _⟩
  have hmem : 'e' ∈ d.chars := by
    rw [hchars]
    unfold chars at hscale
    simp only [hfinite, ↓reduceIte] at hscale
    split at hscale
    · cases List.mem_cons.mp hscale with
      | inl hsign => cases hsign
      | inr hmagnitude => exact hmagnitude
    · exact hscale
  rcases Option.isSome_iff_exists.mp (d.scale_mem_chars_iff.mp hmem) with ⟨e, he⟩
  exact ⟨d, e, hchars, he⟩

end Binary64

namespace Token

theorem scan?_infinity {x : Binary64} (hinfinite : x.isFinite = false) {rest : List Char}
    (hrest : EndsWord rest) :
    scan? (x.chars ++ rest) = before? (x.token?.map fun token => [token]) rest := by
  cases hnegative : x.negative with
  | true =>
      have hread : readFirst '-' (['i', 'n', 'f'] ++ rest) =
          .error ('-' :: 'i' :: 'n' :: 'f' :: rest) := by
        have hblank : Text.isBlank '-' = false := rfl
        have hletter : Text.isDigit 'i' = false := textIsDigit_eq_false (by decide) (by decide)
        simp [readFirst, hblank, readNumeral, hletter, Except.map]
      simp only [Binary64.chars, hinfinite, hnegative, Binary64.token?, Bool.false_eq_true,
        ↓reduceIte, Option.map_none, before?_none, List.cons_append]
      exact scan?_of_readFirst_error hread
  | false =>
      simp only [Binary64.chars, hinfinite, hnegative, Binary64.token?, Bool.false_eq_true,
        ↓reduceIte, Option.map_some]
      exact scan?_functor infinityName hrest

theorem scan?_float (x : Binary64) {rest : List Char} (hrest : EndsWord rest) :
    scan? (x.chars ++ rest) = before? (x.token?.map fun token => [token]) rest := by
  cases hfinite : x.isFinite with
  | false => exact scan?_infinity hfinite hrest
  | true =>
      have hchars : x.chars = if x.negative then '-' :: x.magnitudeText else x.magnitudeText := by
        simp [Binary64.chars, hfinite]
      rw [hchars]
      by_cases hscale : 'e' ∈ x.chars
      · rcases Binary64.exists_parts_of_mem hfinite hscale with ⟨d, e, hparts, he⟩
        rcases d.exists_digit_chars with ⟨c, more, hcons, hdigit⟩
        rcases readNumeral_exponent x.negative he rest with ⟨suffix, hread⟩
        rw [hparts] at hcons hread
        rw [scan?_signed_error x.negative hcons hdigit hread]
        simp [Binary64.token?, hfinite, hscale]
      · rcases Binary64.exists_parts_of_not_mem hfinite hscale with ⟨d, hparts, hd, htoken, _⟩
        rcases d.exists_digit_chars with ⟨c, more, hcons, hdigit⟩
        have hread := readNumeral_fraction x.negative hd hrest
        rw [hparts] at hcons hread
        rw [scan?_signed x.negative hcons hdigit hread, htoken]
        rfl

theorem scan?_int (n : Int) {rest : List Char} (hrest : EndsWord rest) :
    scan? (Number.intChars n ++ rest) =
      before? (some [.numeral ⟨decide (n < 0), Nat.toDigits 10 n.natAbs, []⟩]) rest := by
  have hdigits := AllDigits.toDigits n.natAbs
  have hread := readNumeral_digits (decide (n < 0)) Nat.toDigits_ne_nil hdigits hrest
  have hchars : Number.intChars n =
      if decide (n < 0) then '-' :: Nat.toDigits 10 n.natAbs else Nat.toDigits 10 n.natAbs := by
    simp [Number.intChars]
  rw [hchars]
  cases hcons : Nat.toDigits 10 n.natAbs with
  | nil => exact absurd hcons Nat.toDigits_ne_nil
  | cons c more =>
      rw [hcons] at hread hdigits
      exact scan?_signed _ rfl (hdigits c List.mem_cons_self) hread

theorem scan?_number (n : Number) {rest : List Char} (hrest : EndsWord rest) :
    scan? (n.chars ++ rest) = before? (n.token?.map fun token => [token]) rest := by
  cases n with
  | int n => exact scan?_int n hrest
  | float x => exact scan?_float x hrest

end Token

namespace Term

/-!
# Terms
-/

def atomToken (n : AtomName) : Token :=
  if h : n.isPlain = true then .name (n.toFunctor h).stem
  else .quoted (n.text.toList.flatMap (escapeChar '\''))

mutual

/-- The tokens that the text of a term shows, if all of its numbers show one. -/
def tokens? : Term -> Option (List Token)
  | .atom n => some [atomToken n]
  | .number n => n.token?.map fun token => [token]
  | .text s => some [.text (s.toList.flatMap (escapeChar '"'))]
  | .var v => some [.variable v.stem]
  | .compound f args =>
      (argumentTokens? args).map fun tokens =>
        [.name f.stem, .openParen] ++ tokens ++ [.closeParen]

def argumentTokens? : List Term -> Option (List Token)
  | [] => some []
  | [t] => tokens? t
  | t :: ts =>
      (tokens? t).bind fun first => (argumentTokens? ts).map fun more => first ++ .comma :: more

end

/-- The tokens of what follows the first of some arguments. -/
def moreTokens? : List Term -> Option (List Token)
  | [] => some []
  | t :: ts => (argumentTokens? (t :: ts)).map (.comma :: ·)

theorem argumentTokens?_cons (t : Term) (ts : List Term) :
    argumentTokens? (t :: ts) =
      t.tokens?.bind fun first => (moreTokens? ts).map (first ++ ·) := by
  cases ts with
  | nil => simp [argumentTokens?, moreTokens?]
  | cons u us => simp [argumentTokens?, moreTokens?, Option.map_map, Function.comp_def]

theorem exists_nonblank_chars (n : Number) :
    exists c rest, n.chars = c :: rest ∧ Text.isBlank c = false := by
  cases hfinite : n.isFinite with
  | true =>
      rcases Number.exists_start_chars hfinite with ⟨c, rest, hcons, hstart⟩
      refine ⟨c, rest, hcons, ?_⟩
      cases hstart with
      | inl hdigit => exact isBlank_of_isDigit hdigit
      | inr hsign =>
          rw [hsign]
          rfl
  | false =>
      cases n with
      | int n => cases hfinite
      | float x =>
          have hinfinite : x.isFinite = false := hfinite
          cases hnegative : x.negative with
          | true =>
              exact ⟨'-', ['i', 'n', 'f'], by
                simp [Number.chars, Binary64.chars, hinfinite, hnegative], rfl⟩
          | false =>
              exact ⟨'i', ['n', 'f'], by
                simp [Number.chars, Binary64.chars, hinfinite, hnegative], rfl⟩

theorem exists_nonblank_renderChars (t : Term) :
    exists c rest, t.renderChars = c :: rest ∧ Text.isBlank c = false := by
  cases t with
  | atom n =>
      cases hplain : n.isPlain with
      | true =>
          rcases exists_start_of_isIdentifier hplain with ⟨c, rest, hcons, hlower⟩
          refine ⟨c, rest, ?_, isBlank_of_isWordStart (isWordStart_of_isLower hlower)⟩
          simp [renderChars, hplain, hcons]
      | false =>
          exact ⟨'\'', _, by simp only [renderChars, hplain]; rfl, rfl⟩
  | text s => exact ⟨'"', _, rfl, rfl⟩
  | var v =>
      rcases exists_start_of_isIdentifier v.valid with ⟨c, rest, hcons, hstart⟩
      exact ⟨c, rest, hcons, isBlank_of_isWordStart (isWordStart_of_isVariableStart hstart)⟩
  | compound f args =>
      rcases exists_start_of_isIdentifier f.valid with ⟨c, rest, hcons, hlower⟩
      refine ⟨c, rest ++ '(' :: renderAll args ++ [')'], ?_,
        isBlank_of_isWordStart (isWordStart_of_isLower hlower)⟩
      simp [renderChars, hcons]
  | number n => exact exists_nonblank_chars n

theorem scan?_atom (n : AtomName) {rest : List Char} (hrest : EndsWord rest) :
    Token.scan? ((Term.atom n).renderChars ++ rest) =
      Token.before? (some [atomToken n]) rest := by
  unfold atomToken
  split
  · rename_i hplain
    simp only [renderChars, hplain, ↓reduceIte]
    exact Token.scan?_functor (n.toFunctor hplain) hrest
  · rename_i hplain
    simp only [renderChars, hplain, Bool.false_eq_true, ↓reduceIte]
    exact Token.scan?_quoted n.text.toList rest

mutual

/-- The text of a term is cut into its tokens, whatever goes on behind it. -/
theorem scan?_renderChars : (t : Term) -> (rest : List Char) -> EndsTerm rest ->
    Token.scan? (t.renderChars ++ rest) = Token.before? t.tokens? rest
  | .atom n, _, hrest => scan?_atom n hrest.endsWord
  | .number n, _, hrest => Token.scan?_number n hrest.endsWord
  | .text s, rest, _ => Token.scan?_text s.toList rest
  | .var v, _, hrest => Token.scan?_variable v hrest.endsWord
  | .compound f args, rest, hrest => by
      have hargs := scan?_renderAll args rest
      have hclosed := Token.before?_append (argumentTokens? args) (Token.scan?_close rest)
      rw [hclosed] at hargs
      have hopened := (Token.scan?_open _).trans
        (Token.before?_append (some [Token.openParen]) hargs)
      simp only [renderChars, List.append_assoc, List.cons_append, List.nil_append]
      rw [Token.scan?_functor f (endsWord_open _),
        Token.before?_append (some [Token.name f.stem]) hopened]
      congr 1
      cases hb : argumentTokens? args with
      | none => simp [tokens?, hb]
      | some tokens => simp [tokens?, hb]

theorem scan?_renderAll : (ts : List Term) -> (rest : List Char) ->
    Token.scan? (renderAll ts ++ ')' :: rest) = Token.before? (argumentTokens? ts) (')' :: rest)
  | [], rest => by
      simp [renderAll, argumentTokens?]
  | [t], rest => by
      have hends : EndsTerm (')' :: rest) := endsTerm_moreArguments [] rest
      exact scan?_renderChars t (')' :: rest) hends
  | t :: u :: us, rest => by
      have hmore := scan?_renderAll (u :: us) rest
      rw [← Token.scan?_blank (show Text.isBlank ' ' = true from rfl)] at hmore
      have hcomma : Token.scan? (moreArguments (u :: us) ++ ')' :: rest) =
          Token.before? (moreTokens? (u :: us)) (')' :: rest) :=
        (Token.scan?_comma _).trans (Token.before?_append (some [Token.comma]) hmore)
      have hends : EndsTerm (moreArguments (u :: us) ++ ')' :: rest) :=
        endsTerm_moreArguments (u :: us) rest
      have hall := scan?_renderChars t _ hends
      rw [Token.before?_append t.tokens? hcomma] at hall
      rw [renderAll_cons, List.append_assoc, hall, argumentTokens?_cons]

end

end Term
end EventCalculus
