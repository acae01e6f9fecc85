import EventCalculus.Numeric.Binary64

/-!
# Decimal texts of binary numbers

Reading rounds the exact value of a decimal text.  Writing chooses the fewest
digits that read back as the same number and, among those, the nearest value.
Texts are positional while the first digit stands between the fourth place after
the point and the sixteenth place before it, and scientific otherwise.
-/

namespace EventCalculus
namespace Binary64

/-- The number of decimal digits of a natural number, none for zero. -/
def digitCount (n : Nat) : Nat :=
  if n = 0 then 0 else (Nat.toDigits 10 n).length

/-- The number nearest to `coefficient * 10 ^ exponent`.  Values that are far outside of
the range are recognised by their leading place alone. -/
def ofDecimal (negative : Bool) (coefficient : Nat) (exponent : Int) : Binary64 :=
  let place := (digitCount coefficient : Int) + exponent
  if coefficient = 0 || place < -400 then
    zero negative
  else if 400 < place then
    infinity negative
  else if 0 ≤ exponent then
    ofQuotient negative (coefficient * Nat.pow 10 exponent.toNat) 1
  else
    ofQuotient negative coefficient (Nat.pow 10 (-exponent).toNat)

/-!
# The shortest digits
-/

/-- A decimal value: a coefficient and a power of ten. -/
structure Digits where
  coefficient : Nat
  exponent : Int
deriving DecidableEq, Repr

/-- Moves trailing zeros of the coefficient into the exponent. -/
def Digits.trimZeros (d : Digits) : Nat → Digits
  | 0 => d
  | fuel + 1 =>
      if d.coefficient != 0 && d.coefficient % 10 == 0 then
        Digits.trimZeros ⟨d.coefficient / 10, d.exponent + 1⟩ fuel
      else
        d

/-- A decimal value that reads back as the magnitude of `x`. -/
def readsBack (x : Binary64) (d : Digits) : Bool :=
  (ofDecimal false d.coefficient d.exponent).rank = x.rank

/-- The place of the first digit: the least `k` with the magnitude below `10 ^ k`. -/
def leadingPlace (x : Binary64) : Int :=
  (digitCount (x.units * Nat.pow 10 400 / unitsPerOne) : Int) - 400

/-- The nearest value to the magnitude of `x` with a number of digits, if it or its
neighbour on the other side reads back. -/
def nearestDigits? (x : Binary64) (count : Nat) : Option Digits :=
  let exponent := leadingPlace x - count
  let num := if exponent < 0 then x.units * Nat.pow 10 (-exponent).toNat else x.units
  let den := if exponent < 0 then unitsPerOne else unitsPerOne * Nat.pow 10 exponent.toNat
  let below := num / den
  let low : Digits := ⟨below, exponent⟩
  let high : Digits := ⟨below + 1, exponent⟩
  let twice := 2 * (num % den)
  let lowFirst := twice < den || (twice = den && below % 2 = 0)
  let near := if lowFirst then low else high
  let far := if lowFirst then high else low
  if readsBack x near then some near
  else if readsBack x far then some far
  else none

/-- All digits of the exact magnitude. -/
def exactDigits (x : Binary64) : Digits :=
  ⟨x.units * Nat.pow 5 1074, -1074⟩

/-- The fewest digits that read back as the magnitude of `x`. -/
def shortestDigits (x : Binary64) : Digits :=
  let found := (List.range 17).findSome? fun n => nearestDigits? x (n + 1)
  let d := found.getD (exactDigits x)
  d.trimZeros (digitCount d.coefficient)

/-!
# Layout
-/

/-- Positional text of a digit sequence whose first digit has the given place. -/
def positional (digits : List Char) (place : Int) : List Char :=
  if place ≤ 0 then
    '0' :: '.' :: List.replicate (-place).toNat '0' ++ digits
  else
    let whole := place.toNat
    if digits.length ≤ whole then
      digits ++ List.replicate (whole - digits.length) '0' ++ ['.', '0']
    else
      digits.take whole ++ '.' :: digits.drop whole

/-- The exponent of scientific text: a sign and at least two digits. -/
def exponentText (exponent : Int) : List Char :=
  let digits := Nat.toDigits 10 exponent.natAbs
  (if exponent < 0 then '-' else '+') :: List.replicate (2 - digits.length) '0' ++ digits

/-- Scientific text of a digit sequence whose first digit has the given place. -/
def scientific (digits : List Char) (place : Int) : List Char :=
  digits.take 1 ++ (if digits.length ≤ 1 then [] else '.' :: digits.drop 1) ++
    'e' :: exponentText (place - 1)

/-- The text of a finite magnitude. -/
def magnitudeText (x : Binary64) : List Char :=
  if x.isZero then
    ['0', '.', '0']
  else
    let d := shortestDigits x
    let digits := Nat.toDigits 10 d.coefficient
    let place := (digits.length : Int) + d.exponent
    if -4 < place && place ≤ 16 then
      positional digits place
    else
      scientific digits place

/-- The text of a number; infinities have a name. -/
def chars (x : Binary64) : List Char :=
  let magnitude := if x.isFinite then magnitudeText x else ['i', 'n', 'f']
  if x.negative then '-' :: magnitude else magnitude

/-- The text of a number. -/
def text (x : Binary64) : String :=
  String.ofList x.chars

end Binary64
end EventCalculus
