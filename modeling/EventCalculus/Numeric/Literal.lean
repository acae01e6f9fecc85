import EventCalculus.Numeric.Number
import EventCalculus.Text.Blank
import EventCalculus.Text.Digit
import EventCalculus.Text.Quoted

/-!
# Number literals

The generous written form of numbers.  A literal may stand between blanks, of which
the information separators are none here, and have a sign.  Its digits are those of
any script, and single underscores may stand between them.  A floating point literal
may have a point and an exponent, or it is a word for a number that is not finite.
-/

namespace EventCalculus

/-- Why a text is no literal. -/
inductive LiteralFault where
  | tooManyDigits (count : Nat)
  | integer (source : String)
  | float (source : String)
deriving DecidableEq

/-- How much is shown of a quoted text that is no integer. -/
def LiteralFault.shownLength : Nat := 200

/-- What is said about a text that is no integer; of a long one only the beginning is shown. -/
def noIntegerMessage (source : String) : String :=
  "invalid literal for int() with base 10: " ++
    String.ofList ((Text.quoted source).toList.take LiteralFault.shownLength)

/-- What is said about a text that is no literal. -/
def LiteralFault.message : LiteralFault -> String
  | .tooManyDigits count => tooManyDigitsMessage count
  | .integer source => noIntegerMessage source
  | .float source => "could not convert string to float: " ++ Text.quoted source

namespace Literal

/-- A blank that may stand around a literal. -/
def isBlank (c : Char) : Bool :=
  Text.isBlank c && !(0x1C ≤ c.toNat && c.toNat ≤ 0x1F)

/-- Removes the blanks around a literal. -/
def trimChars (cs : List Char) : List Char :=
  Text.dropEndWhile isBlank (cs.dropWhile isBlank)

/-- The digits of groups with single underscores between them. -/
def digits? (cs : List Char) : Option (List Char) :=
  if (Text.pieces '_' cs).all fun group => group ≠ [] && group.all Text.isDigit then
    some (cs.filter Text.isDigit)
  else
    none

/-- The digits of groups, of which there may be none. -/
def optionalDigits? (cs : List Char) : Option (List Char) :=
  if cs = [] then some [] else digits? cs

/-- A sign and what follows it; a minus sign gives `true`. -/
def splitSign : List Char -> Bool × List Char
  | '-' :: rest => (true, rest)
  | '+' :: rest => (false, rest)
  | cs => (false, cs)

/-- The most digits that an integer may be written with. -/
def digitLimit : Nat := 4300

/-- The integer that a literal denotes.  Too many digits in front are noticed before anything
that follows them. -/
def readInteger (s : String) : Except LiteralFault Int :=
  let (negative, size) := splitSign (trimChars s.toList)
  let front := size.takeWhile fun c => c == '_' || Text.isDigit c
  match digits? front with
  | none => .error (.integer s)
  | some digits =>
      if digitLimit < digits.length then
        .error (.tooManyDigits digits.length)
      else if front.length < size.length then
        .error (.integer s)
      else
        let n : Int := Text.digitsValue digits
        .ok (if negative then -n else n)

/-- What stands before the first character of a class, and what stands after it, if there is
one. -/
def splitAtFirst (mark : Char -> Bool) (cs : List Char) : List Char × Option (List Char) :=
  let before := cs.takeWhile fun c => !mark c
  match cs.drop before.length with
  | [] => (before, none)
  | _ :: after => (before, some after)

/-- The value of an exponent; a missing one is zero. -/
def exponent? : Option (List Char) -> Option Int
  | none => some 0
  | some cs =>
      let (negative, size) := splitSign cs
      (digits? size).map fun digits =>
        let n : Int := Text.digitsValue digits
        if negative then -n else n

/-- The number of a sign and of digits around a point with an exponent. -/
def readScientific? (negative : Bool) (cs : List Char) : Option Binary64 := do
  let (mantissa, scale) := splitAtFirst (fun c => c == 'e' || c == 'E') cs
  let (before, after) := splitAtFirst (fun c => c == '.') mantissa
  let whole ← optionalDigits? before
  let fraction ← optionalDigits? (after.getD [])
  let exponent ← exponent? scale
  if whole ++ fraction = [] then
    none
  else
    some (Binary64.ofDecimal negative (Text.digitsValue (whole ++ fraction))
      (exponent - fraction.length))

/-- The floating point number that a literal denotes; `none` is the undefined number. -/
def readFloat (s : String) : Except LiteralFault (Option Binary64) :=
  let (negative, size) := splitSign (trimChars s.toList)
  let word := String.ofList (size.map Char.toLower)
  if word = "inf" || word = "infinity" then
    .ok (some (.infinity negative))
  else if word = "nan" then
    .ok none
  else
    match readScientific? negative size with
    | some x => .ok (some x)
    | none => .error (.float s)

end Literal
end EventCalculus
