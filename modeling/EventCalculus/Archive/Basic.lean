import EventCalculus.Fault
import EventCalculus.OrderedMap
import EventCalculus.Engine.Basic

/-!
# Archives

An archive keeps events as texts, each description at most once per timestamp,
and one record per verb.  Identifiers are never given twice, even after the
archive is cleared, and an attempt to save what is there already takes one too.
-/

namespace EventCalculus

/-- An archived event. -/
structure ArchiveRow where
  id : Nat
  description : String
  verb : String
  timestamp : String
deriving DecidableEq

/-- The rows in the order of insertion, the last identifier given, and the data of the records by
verb. -/
structure Archive where
  rows : List ArchiveRow
  lastId : Nat
  records : OrderedMap String Value

/-- The size of an archive and the times of its first and last events. -/
structure ArchiveStats where
  events : Nat
  verbs : Nat
  records : Nat
  first : Option String
  last : Option String
deriving DecidableEq

/-- The ground compound that a value gives. -/
def readOccurrence (v : Value) : Except Fault Compound := do
  let given ← (readTerm v).mapError .parse
  let t ← given.expectTerm.mapError .notATerm
  match Compound.ofTerm? t with
  | some c => if c.isGround then .ok c else .error (.archived t)
  | none => .error (.archived t)

namespace ArchiveRow

/-- The order of rows by timestamp and identifier. -/
def notAfter (a b : ArchiveRow) : Bool :=
  decide (a.timestamp < b.timestamp) || (a.timestamp == b.timestamp && decide (a.id ≤ b.id))

/-- The event of a row. -/
def toEvent (row : ArchiveRow) : Except Fault Event :=
  (readOccurrence (.text row.description)).map fun description =>
    ⟨row.id, description, row.timestamp⟩

/-- The row lies between a start and an end, both inclusive. -/
def isBetween (start stop : Option String) (row : ArchiveRow) : Bool :=
  start.all (fun t => decide (t ≤ row.timestamp)) &&
    stop.all (fun t => decide (row.timestamp ≤ t))

end ArchiveRow

namespace Archive

/-- The archive before anything was saved. -/
def empty : Archive :=
  ⟨[], 0, OrderedMap.empty⟩

/-- Appends a row with the next identifier. -/
def addRow (a : Archive) (description verb timestamp : String) : Archive :=
  { a with
    rows := a.rows ++ [⟨a.lastId + 1, description, verb, timestamp⟩]
    lastId := a.lastId + 1 }

/-- The description is archived at the timestamp. -/
def contains (a : Archive) (description timestamp : String) : Bool :=
  a.rows.any fun row => row.description == description && row.timestamp == timestamp

/-- Saves an occurrence unless it is archived; tells whether it was new.  The attempt takes an
identifier either way. -/
def save (a : Archive) (c : Compound) (timestamp : String) : Bool × Archive :=
  if a.contains c.render timestamp then
    (false, { a with lastId := a.lastId + 1 })
  else
    (true, a.addRow c.render c.functor.text timestamp)

/-- Saves what a value gives at a moment; tells whether it was new. -/
def saveEvent (a : Archive) (v : Value) (m : Moment) : Except Fault (Bool × Archive) := do
  let c ← readOccurrence v
  let timestamp ← timestampOf m
  return a.save c timestamp

/-- Saves occurrences from first to last and counts the new ones. -/
def saveAll (a : Archive) : List (Compound × String) -> Nat × Archive
  | [] => (0, a)
  | (c, timestamp) :: rest =>
      let (isNew, a) := a.save c timestamp
      let (count, a) := a.saveAll rest
      (if isNew then count + 1 else count, a)

/-- Saves events of a store, whose descriptions are ground and whose timestamps are in normal form,
and counts the new ones. -/
def saveEvents (a : Archive) (events : List Event) : Nat × Archive :=
  a.saveAll (events.map fun e => (e.description, e.timestamp))

/-- Saves any events from first to last, each as a single one is saved, and counts the new ones. -/
def saveEach (a : Archive) : List Event -> Except Fault (Nat × Archive)
  | [] => .ok (0, a)
  | e :: rest => do
      let (isNew, a) ← a.saveEvent (.term e.description.toTerm) (.text e.timestamp)
      let (count, a) ← a.saveEach rest
      return (if isNew then count + 1 else count, a)

/-- Saves a record in place of an earlier one of its verb. -/
def saveRecord (a : Archive) (r : RuleRecord) : Archive :=
  { a with records := a.records.insert r.verb.text r.toValue }

/-- The archived events from a start to an end in the order of time. -/
def loadEvents (a : Archive) (start stop : Option Moment) : Except Fault (List Event) := do
  let first ← start.mapM timestampOf
  let last ← stop.mapM timestampOf
  ((a.rows.filter (ArchiveRow.isBetween first last)).mergeSort ArchiveRow.notAfter).mapM
    ArchiveRow.toEvent

/-- The archived records in the order of their verbs. -/
def loadRecords (a : Archive) : Except Fault (List RuleRecord) :=
  let entries := a.records.entries.mergeSort fun x y => decide (x.1 ≤ y.1)
  entries.mapM fun entry => (RuleRecord.ofValue entry.2 .null).mapError .record

/-- The least of texts. -/
def least? (texts : List String) : Option String :=
  texts.foldl (fun best t => some (match best with
    | none => t
    | some b => if t < b then t else b)) none

/-- The greatest of texts. -/
def greatest? (texts : List String) : Option String :=
  texts.foldl (fun best t => some (match best with
    | none => t
    | some b => if b < t then t else b)) none

/-- The size of an archive and the times of its first and last events. -/
def stats (a : Archive) : ArchiveStats :=
  let times := a.rows.map ArchiveRow.timestamp
  ⟨a.rows.length, (a.rows.map ArchiveRow.verb).eraseDups.length, a.records.size,
    least? times, greatest? times⟩

/-- The archive without events and records. -/
def clear (a : Archive) : Archive :=
  ⟨[], a.lastId, OrderedMap.empty⟩

end Archive
end EventCalculus
