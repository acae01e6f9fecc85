import EventCalculus.Archive.Basic
import EventCalculus.Json.Parser
import EventCalculus.Json.Printer

/-!
# Archive files

An archive is kept in a file as one JSON object: the last identifier given, the
rows in the order of insertion, and the records in the order of their verbs'
first saving.
-/

namespace EventCalculus

namespace ArchiveRow

/-- The object of a row. -/
def toValue (row : ArchiveRow) : Value :=
  .object [
    ("id", .int row.id), ("description", .text row.description), ("functor", .text row.verb),
    ("timestamp", .text row.timestamp)]

/-- The row of an object. -/
def ofValue? (v : Value) : Option ArchiveRow := do
  let .number (.int id) ← v.field? "id" | none
  let .text description ← v.field? "description" | none
  let .text verb ← v.field? "functor" | none
  let .text timestamp ← v.field? "timestamp" | none
  return ⟨id.toNat, description, verb, timestamp⟩

end ArchiveRow

namespace Archive

/-- The object of an archive. -/
def toValue (a : Archive) : Value :=
  .object [
    ("last_id", .int a.lastId), ("events", .list (a.rows.map ArchiveRow.toValue)),
    ("rules", .object a.records.entries)]

/-- The archive of an object. -/
def ofValue? (v : Value) : Option Archive := do
  let .number (.int lastId) ← v.field? "last_id" | none
  let .list rows ← v.field? "events" | none
  let .object records ← v.field? "rules" | none
  return ⟨← rows.mapM ArchiveRow.ofValue?, lastId.toNat, OrderedMap.ofList records⟩

/-- The text of an archive file. -/
def fileText (a : Archive) : String :=
  Json.render a.toValue ++ "\n"

/-- The archive of a file's text. -/
def ofFileText? (source : String) : Option Archive :=
  match Json.parse source with
  | .ok v => ofValue? v
  | .error _ => none

end Archive
end EventCalculus
