import EventCalculus.Text.Printable

/-!
# Quoted text

How a text is shown inside a message: between single quotes, or double quotes
when it holds a single quote and no double quote.  The quote in use and the
backslash are escaped, line feed, carriage return and tab have letters, and
every other character that is not printable is written by its code point.
-/

namespace EventCalculus
namespace Text

/-- The lower case hexadecimal digits of a number, padded with zeros to a width. -/
def hexDigits (width n : Nat) : List Char :=
  let digits := Nat.toDigits 16 n
  List.replicate (width - digits.length) '0' ++ digits

/-- The escape of a code point, as wide as its size asks for. -/
def codePointEscape (n : Nat) : List Char :=
  if n < 0x100 then
    '\\' :: 'x' :: hexDigits 2 n
  else if n < 0x10000 then
    '\\' :: 'u' :: hexDigits 4 n
  else
    '\\' :: 'U' :: hexDigits 8 n

/-- One character inside quotes. -/
def quoteChar (quote c : Char) : List Char :=
  if c = quote || c = '\\' then ['\\', c]
  else if c = '\n' then ['\\', 'n']
  else if c = '\r' then ['\\', 'r']
  else if c = '\t' then ['\\', 't']
  else if isPrintable c then [c]
  else codePointEscape c.toNat

/-- The quote that needs the fewest escapes, the single one when both occur. -/
def preferredQuote (cs : List Char) : Char :=
  if cs.contains '\'' && !cs.contains '"' then '"' else '\''

/-- A text between quotes. -/
def quoted (s : String) : String :=
  let quote := preferredQuote s.toList
  String.ofList (quote :: s.toList.flatMap (quoteChar quote) ++ [quote])

end Text
end EventCalculus
