import EventCalculus.Numeric.Number
import EventCalculus.Term.Printer
import EventCalculus.Text.Quoted
import EventCalculus.Value.Basic

/-!
# Writing JSON

A value on a single line of ASCII text: a space follows every comma and colon,
and characters outside of the visible ASCII range are escaped by their UTF-16
code units.  A term is written as its text.
-/

namespace EventCalculus
namespace Json

/-- The escape of a code unit. -/
def unitEscape (n : Nat) : List Char :=
  '\\' :: 'u' :: Text.hexDigits 4 n

/-- The escapes of a character's code units. -/
def charEscape (c : Char) : List Char :=
  if c.toNat < 0x10000 then
    unitEscape c.toNat
  else
    let offset := c.toNat - 0x10000
    unitEscape (0xD800 + offset / 0x400) ++ unitEscape (0xDC00 + offset % 0x400)

/-- A character inside of a text. -/
def writeChar (c : Char) : List Char :=
  match c with
  | '"' => ['\\', '"']
  | '\\' => ['\\', '\\']
  | '\n' => ['\\', 'n']
  | '\r' => ['\\', 'r']
  | '\t' => ['\\', 't']
  | '\x0c' => ['\\', 'f']
  | '\x08' => ['\\', 'b']
  | _ => if ' ' ≤ c && c ≤ '~' then [c] else charEscape c

/-- A text between its quotes. -/
def writeText (s : String) : List Char :=
  '"' :: s.toList.flatMap writeChar ++ ['"']

/-- A number; infinities have a name. -/
def writeNumber : Number -> List Char
  | .int n => Number.intChars n
  | .float x =>
      if x.isFinite then x.chars
      else if x.negative then "-Infinity".toList
      else "Infinity".toList

mutual

/-- The characters of a value. -/
def writeValue : Value -> List Char
  | .null => "null".toList
  | .bool b => if b then "true".toList else "false".toList
  | .number n => writeNumber n
  | .nan => "NaN".toList
  | .text s => writeText s
  | .list items => '[' :: writeItems items ++ [']']
  | .object fields => '\x7b' :: writeFields fields ++ ['\x7d']
  | .term t => writeText t.render

/-- The items of a list. -/
def writeItems : List Value -> List Char
  | [] => []
  | [v] => writeValue v
  | v :: vs => writeValue v ++ ',' :: ' ' :: writeItems vs

/-- The fields of an object. -/
def writeFields : List (String × Value) -> List Char
  | [] => []
  | [(key, v)] => writeText key ++ ':' :: ' ' :: writeValue v
  | (key, v) :: rest =>
      writeText key ++ ':' :: ' ' :: writeValue v ++ ',' :: ' ' :: writeFields rest

end

/-- The JSON text of a value. -/
def render (v : Value) : String :=
  String.ofList (writeValue v)

end Json
end EventCalculus
