import EventCalculus.Value.Form

/-!
# Audit entries

One entry describes one operation.  Its fields are optional; details that have no
field of their own are collected in `extra`.
-/

namespace EventCalculus

namespace Value

mutual

/-- A term as an object of its parts. -/
def partsOfTerm : Term -> Value
  | .atom n => .object [("name", .text n.text)]
  | .number n => .object [("value", .number n)]
  | .text s => .object [("value", .text s)]
  | .var v => .object [("name", .text v.text)]
  | .compound f args =>
      .object [("functor", .text f.text), ("args", .list (partsOfTerms args))]

/-- The objects of arguments. -/
def partsOfTerms : List Term -> List Value
  | [] => []
  | t :: ts => partsOfTerm t :: partsOfTerms ts

end

mutual

/-- The value with every term replaced by an object of its parts. -/
def expandTerms : Value -> Value
  | .term t => partsOfTerm t
  | .list items => .list (expandItems items)
  | .object fields => .object (expandFields fields)
  | .null => .null
  | .bool b => .bool b
  | .number n => .number n
  | .nan => .nan
  | .text s => .text s

/-- The items with every term replaced. -/
def expandItems : List Value -> List Value
  | [] => []
  | v :: vs => expandTerms v :: expandItems vs

/-- The fields with every term replaced. -/
def expandFields : List (String × Value) -> List (String × Value)
  | [] => []
  | (key, v) :: rest => (key, expandTerms v) :: expandFields rest

end

/-- The value says nothing: it is absent or an object without fields. -/
def isVoid : Value -> Bool
  | .null | .object [] => true
  | _ => false

end Value

/-- The description of an operation. -/
structure AuditEntry where
  timestamp : Value
  event : Value
  eventId : Value := .null
  functor : Value := .null
  moment : Value := .null
  fluent : Value := .null
  results : Value := .null
  duration : Value := .null
  error : Value := .null
  extra : Value := .object []

namespace AuditEntry

/-- The keys and values of an entry in their order. -/
def fields (e : AuditEntry) : List (String × Value) :=
  [
    ("timestamp", e.timestamp), ("event", e.event), ("event_id", e.eventId),
    ("functor", e.functor), ("at", e.moment), ("fluent", e.fluent), ("results", e.results),
    ("duration_ms", e.duration), ("error", e.error), ("extra", e.extra)]

/-- The fields of an entry; time and operation have to be there. -/
def form : FieldForm :=
  ⟨["timestamp", "event"],
    ["event_id", "functor", "at", "fluent", "results", "duration_ms", "error", "extra"]⟩

/-- The entry that fields make. -/
def ofFields (fields : List (String × Value)) : Except FormFault AuditEntry := do
  let given ← form.check fields
  let value (key : String) : Value := (findValue? key given).getD .null
  return {
    timestamp := value "timestamp"
    event := value "event"
    eventId := value "event_id"
    functor := value "functor"
    moment := value "at"
    fluent := value "fluent"
    results := value "results"
    duration := value "duration_ms"
    error := value "error"
    extra := (findValue? "extra" given).getD (.object []) }

/-- The object of an entry, without the fields that say nothing. -/
def toValue (e : AuditEntry) : Value :=
  .object ((Value.expandFields e.fields).filter fun field => !field.2.isVoid)

/-- The keys of the fields that every operation may fill. -/
def detailKeys : List String :=
  ["event_id", "functor", "at", "fluent", "results", "duration_ms", "error"]

/-- The entry of an operation with details; those without a field of their own are extra. -/
def ofDetails (timestamp event : Value) (details : List (String × Value)) : AuditEntry :=
  let detail (key : String) : Value := (findValue? key details).getD .null
  {
    timestamp := timestamp
    event := event
    eventId := detail "event_id"
    functor := detail "functor"
    moment := detail "at"
    fluent := detail "fluent"
    results := detail "results"
    duration := detail "duration_ms"
    error := detail "error"
    extra := .object (details.filter fun entry => !detailKeys.contains entry.1) }

end AuditEntry
end EventCalculus
