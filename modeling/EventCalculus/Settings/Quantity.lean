import EventCalculus.Value.Basic

/-!
# Quantities

Settings that are compared with numbers.  The truth values count as one and
zero, and no comparison with an undefined number holds.
-/

namespace EventCalculus

namespace Binary64

/-- The signed magnitude in units. -/
def signedUnits (x : Binary64) : Int :=
  if x.negative then -(x.units : Int) else x.units

/-- The number is less than an integer. -/
def isLess (x : Binary64) (n : Int) : Bool :=
  if x.isFinite then x.signedUnits < n * unitsPerOne else x.negative

end Binary64

/-- A truth value, a number, or an undefined number. -/
inductive Quantity where
  | truth (value : Bool)
  | number (value : Number)
  | undefined
deriving DecidableEq

namespace Quantity

/-- The quantity that a value is. -/
def ofValue? : Value -> Option Quantity
  | .bool b => some (.truth b)
  | .number n => some (.number n)
  | .nan => some .undefined
  | .null | .text _ | .list _ | .object _ | .term _ => none

/-- The value of a quantity. -/
def toValue : Quantity -> Value
  | .truth b => .bool b
  | .number n => .number n
  | .undefined => .nan

/-- The quantity is less than an integer. -/
def isLess (q : Quantity) (n : Int) : Bool :=
  match q with
  | .truth b => (if b then 1 else 0) < n
  | .number (.int m) => m < n
  | .number (.float x) => x.isLess n
  | .undefined => false

/-- The quantity is at most zero. -/
def isAtMostZero : Quantity -> Bool
  | .truth b => !b
  | .number (.int m) => m ≤ 0
  | .number (.float x) => x.isZero || x.negative
  | .undefined => false

/-- The greatest integer that is not above the quantity, as far as there is one. -/
def floor? : Quantity -> Option Int
  | .truth b => some (if b then 1 else 0)
  | .number (.int m) => some m
  | .number (.float x) =>
      if x.isFinite then some (Int.fdiv x.signedUnits Binary64.unitsPerOne) else none
  | .undefined => none

end Quantity
end EventCalculus
