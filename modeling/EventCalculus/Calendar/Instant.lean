import EventCalculus.Text.Digit

/-!
# Instants

Calendar dates and times of day with microseconds.  The text of an instant is
its date, followed by the time unless it is midnight; among such texts the order
of characters is the order of time.
-/

namespace EventCalculus

/-- A date of the Gregorian calendar. -/
structure CalendarDate where
  year : Nat
  month : Nat
  day : Nat
deriving DecidableEq

/-- A date and a time of day. -/
structure Instant where
  date : CalendarDate
  hour : Nat
  minute : Nat
  second : Nat
  microsecond : Nat
deriving DecidableEq

/-- Decimal digits of a number, padded with zeros to a width. -/
def paddedDigits (width n : Nat) : List Char :=
  let digits := Nat.toDigits 10 n
  List.replicate (width - digits.length) '0' ++ digits

namespace CalendarDate

/-- A year with an additional day. -/
def isLeapYear (year : Nat) : Bool :=
  year % 4 == 0 && (year % 100 != 0 || year % 400 == 0)

/-- The number of days of a month. -/
def daysInMonth (year month : Nat) : Nat :=
  if month = 2 then
    if isLeapYear year then 29 else 28
  else if month = 4 || month = 6 || month = 9 || month = 11 then
    30
  else
    31

/-- The date exists; years run from 1 to 9999. -/
def isValid (d : CalendarDate) : Bool :=
  1 ≤ d.year && d.year ≤ 9999 && 1 ≤ d.month && d.month ≤ 12 &&
    1 ≤ d.day && d.day ≤ daysInMonth d.year d.month

/-- The characters of a date. -/
def chars (d : CalendarDate) : List Char :=
  paddedDigits 4 d.year ++ '-' :: paddedDigits 2 d.month ++ '-' :: paddedDigits 2 d.day

/-- The text of a date. -/
def text (d : CalendarDate) : String :=
  String.ofList d.chars

/-- The start of the day. -/
def midnight (d : CalendarDate) : Instant :=
  ⟨d, 0, 0, 0, 0⟩

end CalendarDate

namespace Instant

/-- The time of day exists. -/
def isTimeOfDay (i : Instant) : Bool :=
  i.hour ≤ 23 && i.minute ≤ 59 && i.second ≤ 59 && i.microsecond ≤ 999999

/-- The start of a day. -/
def isMidnight (i : Instant) : Bool :=
  i.hour == 0 && i.minute == 0 && i.second == 0 && i.microsecond == 0

/-- The characters of a time of day; a fraction that is zero is left out. -/
def timeChars (i : Instant) : List Char :=
  paddedDigits 2 i.hour ++ ':' :: paddedDigits 2 i.minute ++ ':' :: paddedDigits 2 i.second ++
    (if i.microsecond = 0 then [] else '.' :: paddedDigits 6 i.microsecond)

/-- The characters of an instant. -/
def chars (i : Instant) : List Char :=
  if i.isMidnight then i.date.chars else i.date.chars ++ 'T' :: i.timeChars

/-- The text of an instant. -/
def text (i : Instant) : String :=
  String.ofList i.chars

/-- The instants in the order of time. -/
def parts (i : Instant) : List Nat :=
  [i.date.year, i.date.month, i.date.day, i.hour, i.minute, i.second, i.microsecond]

/-- The first instant is strictly before the second one. -/
def isBefore (i j : Instant) : Prop :=
  i.parts < j.parts

end Instant
end EventCalculus
