import EventCalculus.Calendar.Timestamp

/-!
# Instants from integers

The parts of an instant are its year, month, day, hour, minute, second and
microsecond; what is missing after the day is zero.  A distance from universal time
is a number of seconds, less than a day in either direction.
-/

namespace EventCalculus

/-- Why integers give no instant or no distance from universal time. -/
inductive PartsFault where
  | date (fault : DateFault)
  | time (name : String) (most : Nat)
  | offset (seconds : Int)
  | overflow
deriving DecidableEq

/-- The structure of a span of time in days and seconds. -/
def inspectSpan (seconds : Int) : String :=
  let rest := Int.fmod seconds 86400
  "datetime.timedelta(days=" ++ toString (Int.fdiv seconds 86400) ++
    (if rest = 0 then "" else ", seconds=" ++ toString rest) ++ ")"

/-- What is said about integers that give no instant or no distance. -/
def PartsFault.message : PartsFault -> String
  | .date fault => fault.message
  | .time name most => name ++ " must be in 0.." ++ toString most
  | .offset seconds =>
      "offset must be a timedelta strictly between -timedelta(hours=24) and " ++
        "timedelta(hours=24), not " ++ inspectSpan seconds ++ "."
  | .overflow => "span of too many days"

namespace Instant

/-- The places, names and greatest values of the parts of a time of day. -/
def timeLimits : List (Nat × String × Nat) :=
  [(3, "hour", 23), (4, "minute", 59), (5, "second", 59), (6, "microsecond", 999999)]

/-- The instant of parts. -/
def ofParts (parts : List Int) : Except PartsFault Instant := do
  let part (i : Nat) : Int := parts.getD i 0
  if part 0 < 1 then
    .error (.date (.year (part 0)))
  else
    let date ← (CalendarDate.check
      ⟨(part 0).toNat, (part 1).toNat, (part 2).toNat⟩).mapError .date
    match timeLimits.find? fun (i, _, most) => part i < 0 || (most : Int) < part i with
    | some (_, name, most) => .error (.time name most)
    | none =>
        return ⟨date, (part 3).toNat, (part 4).toNat, (part 5).toNat, (part 6).toNat⟩

end Instant

/-- A distance from universal time, if it is less than a day. -/
def checkOffset (seconds : Int) : Except PartsFault Int :=
  if seconds.natAbs < 86400 then
    .ok seconds
  else if 999999999 < (Int.fdiv seconds 86400).natAbs then
    .error .overflow
  else
    .error (.offset seconds)

end EventCalculus
