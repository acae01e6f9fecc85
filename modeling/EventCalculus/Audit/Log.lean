import EventCalculus.Audit.Entry
import EventCalculus.Calendar.Instant
import EventCalculus.Json.Printer

/-!
# Audit logs

A log writes one line of JSON for every operation.  A file that has reached the
size limit is closed before the next line is written: it takes a name with the
time of its closing, and a new file is begun.

Time comes from a clock that is read once for an entry and once more for a
closing; the log counts the readings.
-/

namespace EventCalculus

/-- A closed file of a log. -/
structure ClosedFile where
  name : String
  lines : List String
deriving DecidableEq

/-- A log: its size limit in bytes, the clock and how often it was read, the closed files, the
oldest first, and the lines of the current file, if there is one. -/
structure AuditLog where
  maxBytes : Int
  clock : Nat -> Instant
  readings : Nat
  closed : List ClosedFile
  current : Option (List String)

namespace AuditLog

/-- The log without files. -/
def empty (maxBytes : Int) (clock : Nat -> Instant) : AuditLog :=
  ⟨maxBytes, clock, 0, [], none⟩

/-- The name of the current file. -/
def currentName : String := "chronicle.jsonl"

/-- The name of a file that is closed at an instant. -/
def closedName (i : Instant) : String :=
  "chronicle_" ++ String.ofList (paddedDigits 4 i.date.year ++ paddedDigits 2 i.date.month ++
    paddedDigits 2 i.date.day ++ '_' :: paddedDigits 2 i.hour ++ paddedDigits 2 i.minute ++
    paddedDigits 2 i.second ++ '_' :: paddedDigits 6 i.microsecond) ++ ".jsonl"

/-- The text of an instant of universal time. -/
def entryTime (i : Instant) : String :=
  i.date.text ++ "T" ++ String.ofList i.timeChars ++ "+00:00"

/-- The bytes of lines, each with its line feed. -/
def byteSize (lines : List String) : Nat :=
  lines.foldl (fun size line => size + line.utf8ByteSize + 1) 0

/-- Reads the clock. -/
def tick (log : AuditLog) : Instant × AuditLog :=
  (log.clock (log.readings + 1), { log with readings := log.readings + 1 })

/-- Closes the current file if it has reached the size limit. -/
def rotate (log : AuditLog) : AuditLog :=
  match log.current with
  | none => log
  | some lines =>
      if log.maxBytes ≤ byteSize lines then
        let (now, log) := log.tick
        { log with closed := log.closed ++ [⟨closedName now, lines⟩], current := none }
      else
        log

/-- Writes a line to the current file, after closing it if it is full. -/
def writeLine (log : AuditLog) (line : String) : AuditLog :=
  let log := log.rotate
  { log with current := some (log.current.getD [] ++ [line]) }

/-- Writes the entry of an operation. -/
def record (log : AuditLog) (event : Value) (details : List (String × Value)) : AuditLog :=
  let (now, log) := log.tick
  let entry := AuditEntry.ofDetails (.text (entryTime now)) event details
  log.writeLine (Json.render entry.toValue)

/-- Writes that an event was stored. -/
def recordAssertion (log : AuditLog) (eventId functor moment : Value) : AuditLog :=
  log.record (.text "event_asserted")
    [("event_id", eventId), ("functor", functor), ("at", moment)]

/-- Writes that a rule was offered for registration. -/
def recordRule (log : AuditLog) (rule source added : Value) : AuditLog :=
  log.record (.text "rule_registered") [("rule", rule), ("source", source), ("added", added)]

/-- Writes a query with the number of its answers. -/
def recordQuery (log : AuditLog) (fluent moment results duration : Value) : AuditLog :=
  log.record (.text "query")
    [("fluent", fluent), ("at", moment), ("results", results), ("duration_ms", duration)]

/-- Writes that an operation was refused. -/
def recordError (log : AuditLog) (operation error : Value) : AuditLog :=
  log.record (.text "error") [("error", error), ("operation", operation)]

/-- The files of a log with their names: the current one and the closed ones, the oldest first. -/
def files (log : AuditLog) : List ClosedFile :=
  (log.current.map fun lines => ⟨currentName, lines⟩).toList ++ log.closed

end AuditLog

end EventCalculus
