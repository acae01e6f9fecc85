import EventCalculus.Numeric.Decimal

/-!
# Numbers

Numbers are integers of any size or binary floating point numbers.  Two numbers
are the same when they have the same value, whatever their kind; the canonical
form of a number is the integer that it is equal to, if there is one.
-/

namespace EventCalculus

/-- An integer or a floating point number. -/
inductive Number where
  | int (value : Int)
  | float (value : Binary64)
deriving DecidableEq

/-- What is said about an integer with too many digits. -/
def tooManyDigitsMessage (count : Nat) : String :=
  "Exceeds the limit (4300 digits) for integer string conversion: value has " ++
    toString count ++ " digits; use sys.set_int_max_str_digits() to increase the limit"

namespace Number

/-- The integer of the same value, or the number itself. -/
def canonical : Number -> Number
  | .int n => .int n
  | .float x =>
      match x.toInt? with
      | some n => .int n
      | none => .float x

/-- The two numbers have the same value. -/
def same (a b : Number) : Bool :=
  a.canonical = b.canonical

/-- The decimal digits of an integer after its sign. -/
def intChars (n : Int) : List Char :=
  if n < 0 then '-' :: Nat.toDigits 10 n.natAbs else Nat.toDigits 10 n.natAbs

/-- The text of a number; a floating point number always shows a point or an exponent. -/
def chars : Number -> List Char
  | .int n => intChars n
  | .float x => x.chars

/-- The text of a number. -/
def render (n : Number) : String :=
  String.ofList n.chars

end Number
end EventCalculus
