import EventCalculus.Calendar.Instant
import EventCalculus.Text.Blank
import EventCalculus.Text.Quoted
import EventCalculus.Value.Printer

/-!
# Timestamps

A moment is given as a text, a date, a date with a time of day and perhaps a
distance from universal time, or something else that is refused.  A timestamp is
the text of the instant that a moment denotes.
-/

namespace EventCalculus

/-- A point of time as it is given. -/
inductive Moment where
  | text (source : String)
  | date (date : CalendarDate)
  | instant (instant : Instant) (offset : Option Int)
  | other (value : Value)

/-- Why a date does not exist. -/
inductive DateFault where
  | digits (source : List Char)
  | year (year : Int)
  | month
  | day
deriving DecidableEq

/-- What is said about a date that does not exist. -/
def DateFault.message : DateFault -> String
  | .digits source => "Invalid isoformat string: " ++ Text.quoted (String.ofList source)
  | .year n => "year " ++ toString n ++ " is out of range"
  | .month => "month must be in 1..12"
  | .day => "day is out of range for month"

/-- The date, if it exists. -/
def CalendarDate.check (d : CalendarDate) : Except DateFault CalendarDate :=
  if d.year < 1 || 9999 < d.year then
    .error (.year d.year)
  else if d.month < 1 || 12 < d.month then
    .error .month
  else if d.day < 1 || CalendarDate.daysInMonth d.year d.month < d.day then
    .error .day
  else
    .ok d

/-- Why a moment has no timestamp. -/
inductive TimestampFault where
  | offset (seconds : Int)
  | kind (given : Value)
  | encoding (source : String)
  | date (source : String) (fault : DateFault)
  | timeOfDay (source : String)

/-- A span of time in days, hours, minutes and seconds. -/
def spanText (seconds : Int) : String :=
  let days := Int.fdiv seconds 86400
  let rest := (seconds - 86400 * days).toNat
  let dayText :=
    if days = 0 then ""
    else toString days ++ (if days.natAbs = 1 then " day, " else " days, ")
  dayText ++ toString (rest / 3600) ++ ":" ++ String.ofList (paddedDigits 2 (rest / 60 % 60)) ++
    ":" ++ String.ofList (paddedDigits 2 (rest % 60))

/-- What is said about a moment that has no timestamp. -/
def TimestampFault.message : TimestampFault -> String
  | .offset seconds => "Timestamp must be naive or UTC, got offset " ++ spanText seconds
  | .kind v => "Timestamp must be a string or date, got " ++ v.kind
  | .encoding s => "Unsupported timestamp encoding: " ++ Text.quoted s
  | .date s fault => "Invalid calendar date in " ++ Text.quoted s ++ ": " ++ fault.message
  | .timeOfDay s => "Invalid time of day in " ++ Text.quoted s

/-!
# The written form
-/

/-- The digits of a written time of day; seconds and fraction may be missing. -/
structure WrittenTime where
  hour : List Char
  minute : List Char
  second : List Char
  fraction : List Char
deriving DecidableEq

/-- The digits of a written timestamp. -/
structure WrittenTimestamp where
  year : List Char
  month : List Char
  day : List Char
  time : Option WrittenTime
deriving DecidableEq

namespace WrittenTimestamp

/-- Reads as many digits as asked for. -/
def readDigits? (count : Nat) (cs : List Char) : Option (List Char × List Char) :=
  let digits := cs.take count
  if digits.length = count && digits.all Text.isDigit then some (digits, cs.drop count) else none

/-- Reads a character. -/
def readChar? (c : Char) : List Char -> Option (List Char)
  | [] => none
  | d :: rest => if d = c then some rest else none

/-- What may follow a time of day. -/
def isTimeEnd (cs : List Char) : Bool :=
  cs = [] || cs = ['Z']

/-- Reads the seconds and the fraction after hour and minute. -/
def readSeconds? (hour minute cs : List Char) : Option WrittenTime :=
  if isTimeEnd cs then
    some ⟨hour, minute, [], []⟩
  else do
    let (second, afterSecond) ← readDigits? 2 (← readChar? ':' cs)
    if isTimeEnd afterSecond then
      some ⟨hour, minute, second, []⟩
    else
      let afterPoint ← readChar? '.' afterSecond
      let fraction := afterPoint.takeWhile Text.isDigit
      if 1 ≤ fraction.length && fraction.length ≤ 6 &&
          isTimeEnd (afterPoint.dropWhile Text.isDigit) then
        some ⟨hour, minute, second, fraction⟩
      else
        none

/-- Reads a time of day. -/
def readTime? (cs : List Char) : Option WrittenTime := do
  let (hour, afterHour) ← readDigits? 2 cs
  let (minute, afterMinute) ← readDigits? 2 (← readChar? ':' afterHour)
  readSeconds? hour minute afterMinute

/-- Reads a timestamp. -/
def read? (cs : List Char) : Option WrittenTimestamp := do
  let (year, afterYear) ← readDigits? 4 cs
  let (month, afterMonth) ← readDigits? 2 (← readChar? '-' afterYear)
  let (day, afterDay) ← readDigits? 2 (← readChar? '-' afterMonth)
  if afterDay = [] then
    some ⟨year, month, day, none⟩
  else
    let time ← readTime? (← readChar? 'T' afterDay)
    some ⟨year, month, day, some time⟩

/-- The date, if it exists and is written with ASCII digits. -/
def toDate (w : WrittenTimestamp) : Except DateFault CalendarDate :=
  if !(w.year ++ w.month ++ w.day).all Char.isDigit then
    .error (.digits (w.year ++ '-' :: w.month ++ '-' :: w.day))
  else
    CalendarDate.check
      ⟨Text.digitsValue w.year, Text.digitsValue w.month, Text.digitsValue w.day⟩

/-- The instant on a date; missing parts of the time are zero. -/
def toInstant (w : WrittenTimestamp) (date : CalendarDate) : Instant :=
  match w.time with
  | none => date.midnight
  | some t =>
      ⟨date, Text.digitsValue t.hour, Text.digitsValue t.minute, Text.digitsValue t.second,
        Text.digitsValue t.fraction * Nat.pow 10 (6 - t.fraction.length)⟩

end WrittenTimestamp

/-!
# Normal form
-/

namespace Moment

/-- The instant that a text denotes. -/
def ofText (source : String) : Except TimestampFault Instant :=
  match WrittenTimestamp.read? (Text.trimChars source.toList) with
  | none => .error (.encoding source)
  | some written =>
      match written.toDate with
      | .error fault => .error (.date source fault)
      | .ok day =>
          let i := written.toInstant day
          if i.isTimeOfDay then .ok i else .error (.timeOfDay source)

/-- The instant that a moment denotes. -/
def toInstant : Moment -> Except TimestampFault Instant
  | .text source => ofText source
  | .date day => .ok day.midnight
  | .instant i none | .instant i (some 0) => .ok i
  | .instant _ (some seconds) => .error (.offset seconds)
  | .other v => .error (.kind v)

/-- The timestamp of a moment. -/
def timestamp (m : Moment) : Except TimestampFault String :=
  m.toInstant.map Instant.text

/-- The distance from universal time, with its sign. -/
def offsetText (seconds : Int) : String :=
  let size := seconds.natAbs
  (if seconds < 0 then "-" else "+") ++ String.ofList (paddedDigits 2 (size / 3600)) ++ ":" ++
    String.ofList (paddedDigits 2 (size / 60 % 60)) ++
    (if size % 60 = 0 then "" else ":" ++ String.ofList (paddedDigits 2 (size % 60)))

/-- A moment as it reads in running text. -/
def display : Moment -> String
  | .text source => source
  | .date day => day.text
  | .instant i offset =>
      i.date.text ++ " " ++ String.ofList i.timeChars ++
        (match offset with
          | some seconds => offsetText seconds
          | none => "")
  | .other v => v.display

end Moment
end EventCalculus
