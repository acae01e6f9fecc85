/-!
# Binary floating point numbers of 64 bits

A number is a sign and a rank: its place in the ascending list of magnitudes,
from zero over the subnormal and normal ones to infinity.  Magnitudes are
compared by rank, and all arithmetic is exact arithmetic on natural numbers
followed by one rounding to the nearest rank, ties to the even one.

A magnitude is a whole number of units, where a unit is the least positive
magnitude, `2 ^ (-1074)`.
-/

namespace EventCalculus

/-- A floating point number of 64 bits other than a NaN. -/
structure Binary64 where
  negative : Bool
  rank : Fin (2047 * Nat.pow 2 52 + 1)
deriving DecidableEq

namespace Binary64

/-- The rank of infinity. -/
def infinityRank : Nat := 2047 * Nat.pow 2 52

/-- How many units make one. -/
def unitsPerOne : Nat := Nat.pow 2 1074

/-- The magnitude of a rank in units; infinity counts as the next power of two. -/
def unitsOfRank (rank : Nat) : Nat :=
  let normal := Nat.pow 2 52
  if rank < normal then rank else (normal + rank % normal) * Nat.pow 2 (rank / normal - 1)

/-- The magnitude of a number in units. -/
def units (x : Binary64) : Nat :=
  unitsOfRank x.rank

/-- A number that is not infinite. -/
def isFinite (x : Binary64) : Bool :=
  x.rank < infinityRank

/-- A quotient rounded to the nearest natural number, ties to the even one. -/
def roundQuotient (num den : Nat) : Nat :=
  let whole := num / den
  let twice := 2 * (num % den)
  if twice < den then whole
  else if den < twice then whole + 1
  else whole + whole % 2

/-- The rank nearest to `num / den` units, ties to the even rank. -/
def nearestRank (num den : Nat) : Nat :=
  let whole := num / den
  let shift := if whole < Nat.pow 2 53 then 0 else whole.log2 - 52
  min (shift * Nat.pow 2 52 + roundQuotient num (den * Nat.pow 2 shift)) infinityRank

theorem nearestRank_lt (num den : Nat) : nearestRank num den < 2047 * Nat.pow 2 52 + 1 := by
  have h : nearestRank num den <= infinityRank := Nat.min_le_right _ _
  exact Nat.lt_succ_of_le h

/-- The number nearest to a quotient of natural numbers. -/
def ofQuotient (negative : Bool) (num den : Nat) : Binary64 :=
  ⟨negative, ⟨nearestRank (num * unitsPerOne) den, nearestRank_lt _ _⟩⟩

/-- The infinity of a sign. -/
def infinity (negative : Bool) : Binary64 :=
  ⟨negative, ⟨infinityRank, Nat.lt_succ_self _⟩⟩

/-- The zero of a sign. -/
def zero (negative : Bool) : Binary64 :=
  ⟨negative, ⟨0, Nat.succ_pos _⟩⟩

/-- Neither zero counts as positive or negative. -/
def isZero (x : Binary64) : Bool :=
  x.rank.val == 0

/-- The number nearest to an integer, unless it is too large for any finite one. -/
def ofInt? (n : Int) : Option Binary64 :=
  let x := ofQuotient (n < 0) n.natAbs 1
  if x.isFinite then some x else none

/-- The integer that a number is equal to. -/
def toInt? (x : Binary64) : Option Int :=
  if x.isFinite && x.units % unitsPerOne == 0 then
    let n : Int := (x.units / unitsPerOne : Nat)
    some (if x.negative then -n else n)
  else
    none

/-- Multiplies by `2 ^ k` and drops the fraction, unless the product is infinite. -/
def scaleTruncate? (x : Binary64) (k : Nat) : Option Int :=
  let scaled := x.units * Nat.pow 2 k
  if x.isFinite && scaled < unitsOfRank infinityRank then
    let n : Int := (scaled / unitsPerOne : Nat)
    some (if x.negative then -n else n)
  else
    none

end Binary64
end EventCalculus
