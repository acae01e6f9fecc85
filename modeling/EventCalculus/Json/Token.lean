import EventCalculus.Numeric.Number
import EventCalculus.Text.Digit
import EventCalculus.Value.Basic

/-!
# Tokens of JSON texts

A text is cut into tokens, each with its place: the number of characters from
its first one to the end of the text.  Where no token can be read the last token
is `junk`, and a text whose quotes or escapes are wrong gives a `broken` token;
nothing is read after either of them.
-/

namespace EventCalculus
namespace Json

/-- Why a text between quotes cannot be read. -/
inductive TextFault where
  | unterminated
  | control
  | escape
  | unicodeEscape
deriving DecidableEq

/-- A piece of a JSON text. -/
inductive Token where
  | openBrace
  | closeBrace
  | openBracket
  | closeBracket
  | colon
  | comma
  | text (value : String)
  | number (value : Except Nat Number)
  | word (value : Value)
  | broken (fault : TextFault) (place : Nat)
  | junk

/-- A token and its place. -/
structure Placed where
  token : Token
  place : Nat

/-- The characters between tokens. -/
def isSpace (c : Char) : Bool :=
  c == ' ' || c == '\t' || c == '\n' || c == '\r'

/-!
# Texts
-/

/-- A character as written, or a UTF-16 code unit given by an escape. -/
inductive Piece where
  | char (c : Char)
  | unit (code : Nat)

/-- The value of a hexadecimal digit. -/
def hexDigit? (c : Char) : Option Nat :=
  if c.isDigit then some (c.toNat - '0'.toNat)
  else if 'a' ≤ c && c ≤ 'f' then some (c.toNat - 'a'.toNat + 10)
  else if 'A' ≤ c && c ≤ 'F' then some (c.toNat - 'A'.toNat + 10)
  else none

/-- The value of hexadecimal digits. -/
def hexValue? (cs : List Char) : Option Nat :=
  cs.foldlM (fun n c => (hexDigit? c).map (16 * n + ·)) 0

/-- What a single escaped character stands for. -/
def unescape? (c : Char) : Option Char :=
  match c with
  | '"' | '\\' | '/' => some c
  | 'b' => some '\x08'
  | 'f' => some '\x0c'
  | 'n' => some '\n'
  | 'r' => some '\r'
  | 't' => some '\t'
  | _ => none

/-- A code unit that opens a pair. -/
def isHighSurrogate (n : Nat) : Bool :=
  0xD800 ≤ n && n ≤ 0xDBFF

/-- A code unit that closes a pair. -/
def isLowSurrogate (n : Nat) : Bool :=
  0xDC00 ≤ n && n ≤ 0xDFFF

/-- The character of a code point; half a pair has none and becomes the replacement character. -/
def charOfCode (n : Nat) : Char :=
  if isHighSurrogate n || isLowSurrogate n then Char.ofNat 0xFFFD else Char.ofNat n

/-- The characters of pieces, with every pair of code units joined. -/
def joinPairs : List Piece -> List Char
  | [] => []
  | .char c :: rest => c :: joinPairs rest
  | .unit high :: .unit low :: rest =>
      if isHighSurrogate high && isLowSurrogate low then
        Char.ofNat (0x10000 + (high - 0xD800) * 0x400 + (low - 0xDC00)) :: joinPairs rest
      else
        charOfCode high :: joinPairs (.unit low :: rest)
  | .unit n :: rest => charOfCode n :: joinPairs rest

/-- Reads the pieces of a text up to its closing quote; `opening` is the place of the opening
quote.  A fault comes with its place. -/
def readPieces (opening : Nat) : List Char -> Except (TextFault × Nat) (List Piece × List Char)
  | [] => .error (.unterminated, opening)
  | '"' :: rest => .ok ([], rest)
  | ['\\'] => .error (.unterminated, opening)
  | '\\' :: 'u' :: a :: b :: c :: d :: rest =>
      match rest, hexValue? [a, b, c, d] with
      | _ :: _, some n =>
          (readPieces opening rest).map fun (pieces, after) => (.unit n :: pieces, after)
      | _, _ => .error (.unicodeEscape, rest.length + 5)
  | '\\' :: c :: rest =>
      if c = 'u' then .error (.unicodeEscape, rest.length + 1)
      else
        match unescape? c with
        | some e =>
            (readPieces opening rest).map fun (pieces, after) => (.char e :: pieces, after)
        | none => .error (.escape, rest.length + 2)
  | c :: rest =>
      if c.toNat < 0x20 then .error (.control, rest.length + 1)
      else (readPieces opening rest).map fun (pieces, after) => (.char c :: pieces, after)

/-- The token of a text after its opening quote. -/
def readText (rest : List Char) : Token × List Char :=
  match readPieces (rest.length + 1) rest with
  | .ok (pieces, after) => (.text (String.ofList (joinPairs pieces)), after)
  | .error (fault, place) => (.broken fault place, [])

/-!
# Numbers and words
-/

/-- Takes a sign off, if there is one; a minus sign gives `true`. -/
def takeSign : List Char -> Bool × List Char
  | '-' :: rest => (true, rest)
  | '+' :: rest => (false, rest)
  | cs => (false, cs)

/-- Reads an exponent, if one stands here: its value and the rest. -/
def readExponent? : List Char -> Option (Int × List Char)
  | [] => none
  | e :: rest =>
      let (negative, digits) := takeSign rest
      if (e = 'e' || e = 'E') && !(digits.takeWhile Char.isDigit).isEmpty then
        let size : Int := Text.digitsValue (digits.takeWhile Char.isDigit)
        some (if negative then -size else size, digits.dropWhile Char.isDigit)
      else
        none

/-- Reads a fraction, if one stands here: its digits and the rest. -/
def readFraction (cs : List Char) : List Char × List Char :=
  if cs.head? = some '.' then
    let digits := (cs.drop 1).takeWhile Char.isDigit
    if digits.isEmpty then ([], cs) else (digits, (cs.drop 1).dropWhile Char.isDigit)
  else
    ([], cs)

/-- Reads the whole digits of a number: a single zero, or digits that start with another one. -/
def readWhole : List Char -> List Char × List Char
  | [] => ([], [])
  | c :: rest =>
      if c = '0' then (['0'], rest)
      else ((c :: rest).takeWhile Char.isDigit, (c :: rest).dropWhile Char.isDigit)

/-- Reads a number after its sign; an integer that is too long gives its count of digits. -/
def readNumber? (negative : Bool) (cs : List Char) :
    Option (Except Nat Number × List Char) :=
  let (whole, afterWhole) := readWhole cs
  if whole.isEmpty then
    none
  else
    let (fraction, afterFraction) := readFraction afterWhole
    match readExponent? afterFraction with
    | some (exponent, rest) =>
        some (.ok (.float (Binary64.ofDecimal negative (Text.digitsValue (whole ++ fraction))
          (exponent - fraction.length))), rest)
    | none =>
        if fraction.isEmpty then
          if 4300 < whole.length then
            some (.error whole.length, afterFraction)
          else
            let size : Int := Text.digitsValue whole
            some (.ok (.int (if negative then -size else size)), afterFraction)
        else
          some (.ok (.float (Binary64.ofDecimal negative (Text.digitsValue (whole ++ fraction))
            (-(fraction.length : Int)))), afterFraction)

/-- The words and the values that they stand for. -/
def words : List (List Char × Value) :=
  [
    ("null".toList, .null),
    ("true".toList, .bool true),
    ("false".toList, .bool false),
    ("NaN".toList, .nan),
    ("Infinity".toList, .number (.float (Binary64.infinity false))),
    ("-Infinity".toList, .number (.float (Binary64.infinity true)))]

/-- Reads a word or a number, or takes everything as junk. -/
def readScalar (cs : List Char) : Token × List Char :=
  match words.find? fun entry => entry.1.isPrefixOf cs with
  | some (word, value) => (.word value, cs.drop word.length)
  | none =>
      let negative := cs.head? = some '-'
      match readNumber? negative (if negative then cs.drop 1 else cs) with
      | some (value, rest) => (.number value, rest)
      | none => (.junk, [])

/-- Reads the space or the token at the front of a text. -/
def readFirst (c : Char) (rest : List Char) : Option Token × List Char :=
  if isSpace c then (none, rest.dropWhile isSpace)
  else
    let (token, after) : Token × List Char :=
      match c with
      | '\x7b' => (.openBrace, rest)
      | '\x7d' => (.closeBrace, rest)
      | '[' => (.openBracket, rest)
      | ']' => (.closeBracket, rest)
      | ':' => (.colon, rest)
      | ',' => (.comma, rest)
      | '"' => readText rest
      | _ => readScalar (c :: rest)
    (some token, after)

/-!
# Each reading makes the text shorter
-/

theorem map_eq_ok {f : α -> β} {x : Except ε α} {b : β} (h : x.map f = .ok b) :
    ∃ a, x = .ok a ∧ f a = b := by
  cases x with
  | error _ => simp [Except.map] at h
  | ok a => exact ⟨a, rfl, by simpa [Except.map] using h⟩

theorem readPieces_length {opening : Nat} {cs after : List Char} {pieces : List Piece}
    (h : readPieces opening cs = .ok (pieces, after)) :
    after.length < cs.length := by
  fun_induction readPieces opening cs generalizing pieces after with
  | case2 rest =>
      simp only [Except.ok.injEq, Prod.mk.injEq] at h
      obtain ⟨_, rfl⟩ := h
      simp
  | case4 a b c d n head tail _ ih =>
      obtain ⟨⟨read, left⟩, hread, hresult⟩ := map_eq_ok h
      simp only [Prod.mk.injEq] at hresult
      obtain ⟨_, rfl⟩ := hresult
      have := ih hread
      simp only [List.length_cons] at this ⊢
      omega
  | case7 c rest _ _ _ _ ih =>
      obtain ⟨⟨read, left⟩, hread, hresult⟩ := map_eq_ok h
      simp only [Prod.mk.injEq] at hresult
      obtain ⟨_, rfl⟩ := hresult
      have := ih hread
      simp only [List.length_cons]
      omega
  | case10 c rest _ _ _ _ _ ih =>
      obtain ⟨⟨read, left⟩, hread, hresult⟩ := map_eq_ok h
      simp only [Prod.mk.injEq] at hresult
      obtain ⟨_, rfl⟩ := hresult
      have := ih hread
      simp only [List.length_cons]
      omega
  | case1 | case3 | case5 | case6 | case8 | case9 => simp at h

theorem readText_length (rest : List Char) : (readText rest).2.length ≤ rest.length := by
  unfold readText
  split
  · rename_i hread
    exact Nat.le_of_lt (readPieces_length hread)
  · simp

theorem takeSign_length (cs : List Char) : (takeSign cs).2.length ≤ cs.length := by
  unfold takeSign
  split <;> simp

theorem readExponent?_length {cs rest : List Char} {size : Int}
    (h : readExponent? cs = some (size, rest)) : rest.length ≤ cs.length := by
  cases cs with
  | nil => simp [readExponent?] at h
  | cons e tail =>
      simp only [readExponent?] at h
      split at h
      · simp only [Option.some.injEq, Prod.mk.injEq] at h
        obtain ⟨_, rfl⟩ := h
        have hdigits : ((takeSign tail).2.dropWhile Char.isDigit).length ≤ (takeSign tail).2.length :=
          (List.dropWhile_suffix _).length_le
        have hsign := takeSign_length tail
        simp only [List.length_cons]
        omega
      · simp at h

theorem readFraction_length (cs : List Char) : (readFraction cs).2.length ≤ cs.length := by
  unfold readFraction
  split
  · simp only
    split
    · simp
    · refine Nat.le_trans ((List.dropWhile_suffix _).length_le) ?_
      simp
  · simp

theorem readWhole_length {cs : List Char} (h : (readWhole cs).1 ≠ []) :
    (readWhole cs).2.length < cs.length := by
  cases cs with
  | nil => simp [readWhole] at h
  | cons c rest =>
      by_cases hzero : c = '0'
      · simp [readWhole, hzero]
      · simp only [readWhole, hzero, ↓reduceIte] at h ⊢
        have hsplit := congrArg List.length
          (List.takeWhile_append_dropWhile (p := Char.isDigit) (l := c :: rest))
        rw [List.length_append] at hsplit
        have := List.length_pos_iff.mpr h
        omega

theorem readNumber?_length {negative : Bool} {cs rest : List Char}
    {value : Except Nat Number} (h : readNumber? negative cs = some (value, rest)) :
    rest.length < cs.length := by
  simp only [readNumber?] at h
  split at h
  · simp at h
  · rename_i hwhole
    have hfirst := @readWhole_length cs (by simpa using hwhole)
    have hsecond := readFraction_length (readWhole cs).2
    split at h
    · rename_i hexponent
      simp only [Option.some.injEq, Prod.mk.injEq] at h
      obtain ⟨_, rfl⟩ := h
      have := readExponent?_length hexponent
      omega
    · have hrest : rest = (readFraction (readWhole cs).2).2 := by
        split at h
        · split at h <;> simp_all
        · simp_all
      rw [hrest]
      omega

theorem words_ne_nil {entry : List Char × Value} (h : entry ∈ words) : entry.1 ≠ [] := by
  simp only [words, List.mem_cons, List.not_mem_nil, or_false] at h
  rcases h with rfl | rfl | rfl | rfl | rfl | rfl <;> decide

theorem readScalar_length (c : Char) (rest : List Char) :
    (readScalar (c :: rest)).2.length < (c :: rest).length := by
  unfold readScalar
  split
  · rename_i word value hfind
    have hpos := List.length_pos_iff.mpr (words_ne_nil (List.mem_of_find?_eq_some hfind))
    simp only [List.length_drop, List.length_cons] at hpos ⊢
    omega
  · simp only
    split
    · rename_i hread
      refine Nat.lt_of_lt_of_le (readNumber?_length hread) ?_
      split <;> simp
    · simp

theorem readFirst_length (c : Char) (rest : List Char) :
    (readFirst c rest).2.length < (c :: rest).length := by
  unfold readFirst
  split
  · exact Nat.lt_succ_of_le ((List.dropWhile_suffix _).length_le)
  · simp only
    split
    case h_7 => exact Nat.lt_succ_of_le (readText_length rest)
    case h_8 => exact readScalar_length c rest
    all_goals exact Nat.lt_succ_self _

/-- The tokens of a text with their places. -/
def readAll (cs : List Char) : List Placed :=
  match cs with
  | [] => []
  | c :: rest =>
      match h : readFirst c rest with
      | (none, after) => readAll after
      | (some token, after) => ⟨token, rest.length + 1⟩ :: readAll after
termination_by cs.length
decreasing_by
  all_goals
    have hshorter := readFirst_length c rest
    rw [h] at hshorter
    exact hshorter

end Json
end EventCalculus
