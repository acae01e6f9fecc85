import EventCalculus.Audit.Log
import EventCalculus.Fault
import EventCalculus.Fluent.Derivation
import EventCalculus.OrderedMap
import EventCalculus.Rule.Rulebook

/-!
# Engines

An engine records events and rules and knows the current date.  Built-in rules
come with the verbs of events, learned rules with records.  An operation gives
its answer, or a fault, together with the engine after it: even an operation that
fails can leave an entry in the audit log.
-/

namespace EventCalculus

/-- The events, the rules, the records behind learned rules, the current date, and the audit log
if one is kept. -/
structure Engine where
  store : EventStore
  rulebook : Rulebook
  records : OrderedMap String RuleRecord
  currentDate : String
  audit : Option AuditLog

/-- A rule to be learned: itself, as a record, or as the data of a record. -/
inductive RuleInput where
  | rule (rule : Rule)
  | record (record : RuleRecord)
  | data (data : Value)

/-- The timestamp of a moment. -/
def timestampOf (m : Moment) : Except Fault String :=
  m.timestamp.mapError .timestamp

/-- The term that a text denotes; any other value stands for itself. -/
def readTerm : Value -> Except ParseFault Value
  | .text source => (Term.parse source).map .term
  | v => .ok v

namespace Engine

/-- An engine without events. -/
def create (date : Moment) (maxDepth : Int) (taxonomy : Taxonomy) (audit : Option AuditLog) :
    Except Fault Engine :=
  (timestampOf date).map fun currentDate =>
    ⟨EventStore.empty maxDepth, Rulebook.ofTaxonomy taxonomy, OrderedMap.empty, currentDate, audit⟩

/-- What decides which fluents hold. -/
def scenario (e : Engine) : Scenario :=
  ⟨e.store, e.rulebook.rules, e.rulebook.exclusive⟩

/-- The engine with an entry in its audit log, if it keeps one. -/
def note (e : Engine) (write : AuditLog -> AuditLog) : Engine :=
  { e with audit := e.audit.map write }

/-- The engine with an audit entry for a fault that rejects what was given. -/
def noteFault (e : Engine) (operation : String) (fault : Fault) : Engine :=
  if fault.isRejection then
    e.note fun log => log.recordError (.text operation) (.text fault.message)
  else
    e

/-- Changes the current date and gives its timestamp. -/
def setCurrentDate (e : Engine) (m : Moment) : Except Fault String × Engine :=
  match timestampOf m with
  | .error fault => (.error fault, e)
  | .ok date =>
      (.ok date, { e with currentDate := date }.note fun log =>
        log.record (.text "current_date_set") [("at", .text date)])

/-!
# Events
-/

/-- The description and the timestamp of an event that can be stored. -/
def prepareEvent (e : Engine) (description : Value) (m : Moment) :
    Except Fault (Compound × String) := do
  let v ← (readTerm description).mapError .parse
  let timestamp ← timestampOf m
  let t ← v.expectTerm.mapError .notATerm
  let compound ← (e.store.validate t).mapError .event
  return (compound, timestamp)

/-- Stores an event and compiles the rules of its verb. -/
def storeEvent (e : Engine) (description : Compound) (timestamp : String) :
    Except Fault Nat × Engine :=
  let (event, store) := e.store.push description timestamp
  match e.rulebook.compileVerb event.verb description.arity with
  | (.error fault, rulebook) =>
      (.error (.taxonomy fault), { e with store := store, rulebook := rulebook })
  | (.ok _, rulebook) =>
      (.ok event.id, { e with store := store, rulebook := rulebook }.note fun log =>
        log.recordAssertion (.int event.id) (.text event.verb) (.text timestamp))

/-- Records that an event happened at a moment and gives its identifier. -/
def assertEvent (e : Engine) (description : Value) (m : Moment) : Except Fault Nat × Engine :=
  match e.prepareEvent description m with
  | .error fault => (.error fault, e.noteFault "assert_event" fault)
  | .ok (compound, timestamp) => e.storeEvent compound timestamp

/-- The events from a start to an end, both inclusive, in the order of time. -/
def events (e : Engine) (start stop : Option Moment) : Except Fault (List Event) := do
  let first ← start.mapM timestampOf
  let last ← stop.mapM timestampOf
  return e.store.between first last

/-!
# Rules
-/

/-- The record that data describe, with its rules. -/
def rulesOfRecord (r : RuleRecord) : Except Fault (List Rule × Option RuleRecord) :=
  match r.rules with
  | .ok rules => .ok (rules, some r)
  | .error fault => .error (.record fault)

/-- The rules of an input and the record behind them, if there is one. -/
def rulesOfInput : RuleInput -> Except Fault (List Rule × Option RuleRecord)
  | .rule r => .ok ([{ r with source := .learned }], none)
  | .record r => rulesOfRecord r
  | .data v =>
      match RuleRecord.ofValue v .null with
      | .ok r => rulesOfRecord r
      | .error fault => .error (.record fault)

/-- The engine with an audit entry for every rule; `added` are those that were new. -/
def noteRules (e : Engine) (rules added : List Rule) : Engine :=
  rules.foldl (fun engine r => engine.note fun log =>
    log.recordRule (.text r.text) (.text r.source.text) (.bool (added.any r.same))) e

/-- Keeps a record, in place of an earlier one of its verb. -/
def keepRecord (e : Engine) : Option RuleRecord -> Engine
  | none => e
  | some r => { e with records := e.records.insert r.verb.text r }

/-- Learns rules and gives those that were new. -/
def learn (e : Engine) (input : RuleInput) : Except Fault (List Rule) × Engine :=
  match rulesOfInput input with
  | .error fault => (.error fault, e.noteFault "register_rule" fault)
  | .ok (rules, record) =>
      let (added, rulebook) := e.rulebook.register rules
      (.ok added, ({ e with rulebook := rulebook }.keepRecord record).noteRules rules added)

/-- The learned rules. -/
def learnedRules (e : Engine) : List Rule :=
  e.rulebook.rules.all.filter fun r => r.source = .learned

/-- Events of the verb have rules, or would have with this number of arguments. -/
def isKnownVerb (e : Engine) (verb : String) (arity : Nat) : Except Fault Bool :=
  if (e.rulebook.rules.forVerb verb).isEmpty then
    (e.rulebook.hasBuiltin verb arity).mapError .taxonomy
  else
    .ok true

/-- Drops every event and every learned rule. -/
def reset (e : Engine) : Engine :=
  let (removed, rulebook) := e.rulebook.reset
  { e with
    store := e.store.clear
    rulebook := rulebook
    records := OrderedMap.empty }.note fun log =>
      log.record (.text "reset") [("events", .int e.store.size), ("rules", .int removed)]

end Engine
end EventCalculus
