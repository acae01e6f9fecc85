/-!
# Blank characters and lines

Blank characters separate words and are trimmed from both ends of input.  Line
breaks are a separate, smaller class; a carriage return followed by a line feed
is one break.
-/

namespace EventCalculus
namespace Text

/-- The code points of the blank characters of Unicode 14 and the information separators. -/
def blankCodePoints : List Nat :=
  [0x20, 0x9, 0xA, 0xB, 0xC, 0xD, 0x1C, 0x1D, 0x1E, 0x1F, 0x85, 0xA0, 0x1680, 0x2000, 0x2001,
    0x2002, 0x2003, 0x2004, 0x2005, 0x2006, 0x2007, 0x2008, 0x2009, 0x200A, 0x2028, 0x2029,
    0x202F, 0x205F, 0x3000]

/-- A blank character. -/
def isBlank (c : Char) : Bool :=
  blankCodePoints.contains c.toNat

/-- The code points that end a line. -/
def lineBreakCodePoints : List Nat :=
  [0xA, 0xD, 0xB, 0xC, 0x1C, 0x1D, 0x1E, 0x85, 0x2028, 0x2029]

/-- A character that ends a line. -/
def isLineBreak (c : Char) : Bool :=
  lineBreakCodePoints.contains c.toNat

/-- Drops the longest run of accepted characters at the end. -/
def dropEndWhile (p : Char → Bool) (cs : List Char) : List Char :=
  (cs.reverse.dropWhile p).reverse

/-- Removes blank characters from both ends. -/
def trimChars (cs : List Char) : List Char :=
  dropEndWhile isBlank (cs.dropWhile isBlank)

/-- Removes blank characters from both ends of a text. -/
def trim (s : String) : String :=
  String.ofList (trimChars s.toList)

/-- A text with no character that is not blank. -/
def isBlankText (s : String) : Bool :=
  s.toList.all isBlank

/-- The lines of a text, with `current` the reversed beginning of the first one. -/
def linesFrom (current : List Char) : List Char → List (List Char)
  | [] => if current.isEmpty then [] else [current.reverse]
  | '\r' :: '\n' :: rest => current.reverse :: linesFrom [] rest
  | c :: rest =>
      if isLineBreak c then
        current.reverse :: linesFrom [] rest
      else
        linesFrom (c :: current) rest

/-- The lines of a text without their breaks; a final break opens no further line. -/
def lines (cs : List Char) : List (List Char) :=
  linesFrom [] cs

/-- The pieces between occurrences of a separator; there is always at least one. -/
def pieces (separator : Char) : List Char → List (List Char)
  | [] => [[]]
  | c :: rest =>
      if c = separator then
        [] :: pieces separator rest
      else
        match pieces separator rest with
        | [] => [[c]]
        | piece :: others => (c :: piece) :: others

/-- Pieces joined with a separator between neighbours. -/
def joinPieces (separator : Char) : List (List Char) → List Char
  | [] => []
  | [piece] => piece
  | piece :: others => piece ++ separator :: joinPieces separator others

/-- Splits at the first occurrence of a character, which is dropped. -/
def cutFirst (separator : Char) (cs : List Char) : List Char × List Char :=
  (cs.takeWhile (· ≠ separator), (cs.dropWhile (· ≠ separator)).drop 1)

/-- Splits at the last occurrence of a character, which is dropped. -/
def cutLast? (separator : Char) (cs : List Char) : Option (List Char × List Char) :=
  if cs.contains separator then
    let (after, before) := cutFirst separator cs.reverse
    some (before.reverse, after.reverse)
  else
    none

/-- Line feeds in place of carriage returns, alone or before a line feed. -/
def unifyNewlines : List Char → List Char
  | [] => []
  | '\r' :: '\n' :: rest => '\n' :: unifyNewlines rest
  | '\r' :: rest => '\n' :: unifyNewlines rest
  | c :: rest => c :: unifyNewlines rest

/-- The texts joined with a separator between neighbours. -/
def join (separator : String) (texts : List String) : String :=
  separator.intercalate texts

end Text
end EventCalculus
