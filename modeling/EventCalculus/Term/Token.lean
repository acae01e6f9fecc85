import EventCalculus.Numeric.Number
import EventCalculus.Term.Name
import EventCalculus.Text.Blank
import EventCalculus.Text.Digit

/-!
# Tokens of the surface form

A source is cut into numerals, words, quoted bodies and punctuation; blank
characters separate tokens and are dropped.  Where no token can be read, the
rest of the source from the offending character on is reported.

A numeral may not run into a letter or an underscore.  If it does, what can be
cut off in front of its last digit, or in front of its point, still counts as a
numeral, and the offending character is the one after it.
-/

namespace EventCalculus

/-- A numeral as written: a sign, whole digits and digits after the point, if any. -/
structure Numeral where
  negative : Bool
  whole : List Char
  fraction : List Char
deriving DecidableEq

namespace Numeral

/-- The characters of a numeral. -/
def chars (n : Numeral) : List Char :=
  (if n.negative then ['-'] else []) ++ n.whole ++
    (if n.fraction.isEmpty then [] else '.' :: n.fraction)

/-- The most digits that an integer may be written with. -/
def digitLimit : Nat := 4300

/-- The number that a numeral denotes, or the count of digits if an integer has too many. -/
def value (n : Numeral) : Except Nat Number :=
  if n.fraction.isEmpty then
    if digitLimit < n.whole.length then
      .error n.whole.length
    else
      let magnitude : Int := Text.digitsValue n.whole
      .ok (.int (if n.negative then -magnitude else magnitude))
  else
    .ok (.float (Binary64.ofDecimal n.negative (Text.digitsValue (n.whole ++ n.fraction))
      (-(n.fraction.length : Int))))

end Numeral

/-- A piece of the surface form. -/
inductive Token where
  | variable (name : VariableName)
  | name (functor : Functor)
  | numeral (value : Numeral)
  | text (body : List Char)
  | quoted (body : List Char)
  | openParen
  | closeParen
  | comma
deriving DecidableEq

namespace Token

/-- The source of a token. -/
def chars : Token -> List Char
  | .variable v => v.text.toList
  | .name f => f.text.toList
  | .numeral n => n.chars
  | .text body => '"' :: body ++ ['"']
  | .quoted body => '\'' :: body ++ ['\'']
  | .openParen => ['(']
  | .closeParen => [')']
  | .comma => [',']

/-- What an escaped character stands for. -/
def unescapeChar (c : Char) : Char :=
  if c = 'n' then '\n' else if c = 't' then '\t' else c

/-- The characters that the body of a quoted token stands for. -/
def unescape : List Char -> List Char
  | [] => []
  | '\\' :: c :: rest => unescapeChar c :: unescape rest
  | ['\\'] => []
  | c :: rest => c :: unescape rest

/-- The characters start with a letter or an underscore. -/
def startsWord : List Char -> Bool
  | [] => false
  | c :: _ => isWordStart c

/-- Reads a body up to its closing quote.  A backslash takes the next character with it,
which must not be a line feed. -/
def readBody? (quote : Char) : List Char -> Option (List Char × List Char)
  | [] => none
  | '\\' :: c :: rest =>
      if c = '\n' then none
      else (readBody? quote rest).map fun (body, after) => ('\\' :: c :: body, after)
  | c :: rest =>
      if c = quote then some ([], rest)
      else if c = '\\' then none
      else (readBody? quote rest).map fun (body, after) => (c :: body, after)

/-- Reads a numeral after its sign, or gives the rest from the offending character on. -/
def readNumeral (negative : Bool) (cs : List Char) : Except (List Char) (Token × List Char) :=
  let whole := cs.takeWhile Text.isDigit
  let after := cs.dropWhile Text.isDigit
  let sign := if negative then ['-'] else []
  if whole.isEmpty then
    .error (sign ++ cs)
  else
    let fraction := (after.drop 1).takeWhile Text.isDigit
    let rest := (after.drop 1).dropWhile Text.isDigit
    if after.head? = some '.' && !fraction.isEmpty then
      if !startsWord rest then
        .ok (.numeral ⟨negative, whole, fraction⟩, rest)
      else if fraction.length = 1 then
        .error after
      else
        .error (fraction.drop (fraction.length - 1) ++ rest)
    else if !startsWord after then
      .ok (.numeral ⟨negative, whole, []⟩, after)
    else if whole.length = 1 then
      .error (sign ++ cs)
    else
      .error (whole.drop (whole.length - 1) ++ after)

/-- The token of a word. -/
def ofWord? (word : List Char) : Option Token :=
  match VariableName.ofText? (String.ofList word) with
  | some v => some (.variable v)
  | none => (Functor.ofText? (String.ofList word)).map .name

/-- Reads the blank run or the token at the front of a source, or gives the rest from the
offending character on. -/
def readFirst (c : Char) (rest : List Char) :
    Except (List Char) (Option Token × List Char) :=
  if Text.isBlank c then
    .ok (none, rest.dropWhile Text.isBlank)
  else if c = '-' then
    (readNumeral true rest).map fun (token, after) => (some token, after)
  else if Text.isDigit c then
    (readNumeral false (c :: rest)).map fun (token, after) => (some token, after)
  else if isWordStart c then
    match ofWord? (c :: rest.takeWhile isWordChar) with
    | some token => .ok (some token, rest.dropWhile isWordChar)
    | none => .error (c :: rest)
  else if c = '"' then
    match readBody? c rest with
    | some (body, after) => .ok (some (.text body), after)
    | none => .error (c :: rest)
  else if c = '\'' then
    match readBody? c rest with
    | some (body, after) => .ok (some (.quoted body), after)
    | none => .error (c :: rest)
  else if c = '(' then .ok (some .openParen, rest)
  else if c = ')' then .ok (some .closeParen, rest)
  else if c = ',' then .ok (some .comma, rest)
  else .error (c :: rest)

/-!
# Each reading makes the source shorter
-/

theorem readBody?_length {quote : Char} {cs body after : List Char}
    (h : readBody? quote cs = some (body, after)) :
    after.length < cs.length := by
  fun_induction readBody? quote cs generalizing body after with
  | case1 => simp at h
  | case2 => simp at h
  | case3 c rest _ ih =>
      simp only [Option.map_eq_some_iff, Prod.exists, Prod.mk.injEq] at h
      obtain ⟨b, a, hba, _, rfl⟩ := h
      have := ih hba
      simp only [List.length_cons]
      omega
  | case4 rest =>
      simp only [Option.some.injEq, Prod.mk.injEq] at h
      obtain ⟨_, rfl⟩ := h
      simp
  | case5 => simp at h
  | case6 c rest _ _ _ ih =>
      simp only [Option.map_eq_some_iff, Prod.exists, Prod.mk.injEq] at h
      obtain ⟨b, a, hba, _, rfl⟩ := h
      have := ih hba
      simp only [List.length_cons]
      omega

theorem readNumeral_length {negative : Bool} {cs after : List Char} {token : Token}
    (h : readNumeral negative cs = .ok (token, after)) :
    after.length < cs.length := by
  have hsplit : (cs.takeWhile Text.isDigit).length + (cs.dropWhile Text.isDigit).length =
      cs.length := by
    rw [← List.length_append, List.takeWhile_append_dropWhile]
  have hdrop : (((cs.dropWhile Text.isDigit).drop 1).dropWhile Text.isDigit).length ≤
      ((cs.dropWhile Text.isDigit).drop 1).length :=
    (List.dropWhile_suffix _).length_le
  rw [List.length_drop] at hdrop
  unfold readNumeral at h
  simp only at h
  split at h
  · simp at h
  · rename_i hwhole
    have hpos : 0 < (cs.takeWhile Text.isDigit).length := by
      rw [List.length_pos_iff]
      intro hnil
      exact hwhole (by simp [hnil])
    split at h
    · split at h
      · simp only [Except.ok.injEq, Prod.mk.injEq] at h
        obtain ⟨_, rfl⟩ := h
        omega
      · split at h <;> simp at h
    · split at h
      · simp only [Except.ok.injEq, Prod.mk.injEq] at h
        obtain ⟨_, rfl⟩ := h
        omega
      · split at h <;> simp at h

theorem readFirst_length {c : Char} {rest after : List Char} {token : Option Token}
    (h : readFirst c rest = .ok (token, after)) :
    after.length < (c :: rest).length := by
  simp only [List.length_cons, Nat.lt_succ_iff]
  unfold readFirst at h
  split at h
  · simp only [Except.ok.injEq, Prod.mk.injEq] at h
    obtain ⟨_, rfl⟩ := h
    exact (List.dropWhile_suffix _).length_le
  split at h
  · cases hread : readNumeral true rest with
    | error _ => simp [hread, Except.map] at h
    | ok result =>
        simp only [hread, Except.map, Except.ok.injEq, Prod.mk.injEq] at h
        obtain ⟨_, rfl⟩ := h
        exact Nat.le_of_lt (readNumeral_length hread)
  split at h
  · cases hread : readNumeral false (c :: rest) with
    | error _ => simp [hread, Except.map] at h
    | ok result =>
        simp only [hread, Except.map, Except.ok.injEq, Prod.mk.injEq] at h
        obtain ⟨_, rfl⟩ := h
        exact Nat.lt_succ_iff.mp (readNumeral_length hread)
  split at h
  · split at h
    · simp only [Except.ok.injEq, Prod.mk.injEq] at h
      obtain ⟨_, rfl⟩ := h
      exact (List.dropWhile_suffix _).length_le
    · simp at h
  split at h
  · split at h
    · rename_i hbody
      simp only [Except.ok.injEq, Prod.mk.injEq] at h
      obtain ⟨_, rfl⟩ := h
      exact Nat.le_of_lt (readBody?_length hbody)
    · simp at h
  split at h
  · split at h
    · rename_i hbody
      simp only [Except.ok.injEq, Prod.mk.injEq] at h
      obtain ⟨_, rfl⟩ := h
      exact Nat.le_of_lt (readBody?_length hbody)
    · simp at h
  all_goals
    repeat' split at h
    all_goals
      first
        | (simp only [Except.ok.injEq, Prod.mk.injEq] at h
           obtain ⟨_, rfl⟩ := h
           exact Nat.le_refl _)
        | simp at h

/-!
# Token lists
-/

/-- The tokens of a source, or the rest from the first offending character on. -/
def readAll (cs : List Char) : Except (List Char) (List Token) :=
  match cs with
  | [] => .ok []
  | c :: rest =>
      match _h : readFirst c rest with
      | .error suffix => .error suffix
      | .ok (token, after) =>
          match readAll after with
          | .error suffix => .error suffix
          | .ok tokens => .ok (token.toList ++ tokens)
termination_by cs.length
decreasing_by exact readFirst_length ‹_›

end Token
end EventCalculus
