import EventCalculus.OrderedMap
import EventCalculus.Term.Printer

/-!
# Event stores

An event is a ground compound that happened at a timestamp.  A store only ever
appends events, numbers them from one, and keeps two indices: the events of each
verb in the order of insertion, and all identifiers in the order of time.
-/

namespace EventCalculus

/-- A ground occurrence at a timestamp. -/
structure Event where
  id : Nat
  description : Compound
  timestamp : String
deriving DecidableEq

namespace Event

/-- The verb of an event. -/
def verb (e : Event) : String :=
  e.description.functor.text

/-- The text of an occurrence. -/
def occurrenceText (description : Compound) (timestamp : String) : String :=
  "happens(" ++ description.render ++ ", \"" ++ timestamp ++ "\")"

/-- The text of an event. -/
def text (e : Event) : String :=
  occurrenceText e.description e.timestamp

end Event

/-- Why a term cannot be stored as an event. -/
inductive EventFault where
  | shape (given : Term)
  | notGround (given : Compound)
  | depth (limit : Int) (functor : Functor)

/-- What is said about a term that cannot be stored. -/
def EventFault.message : EventFault -> String
  | .shape t => "Event description must be a compound term, got " ++ t.render
  | .notGround c => "Event description must be ground: " ++ c.render
  | .depth limit f =>
      "Event description nests deeper than " ++ toString limit ++ ": " ++ f.text

/-- Places a timestamp and an identifier after all entries that are not later. -/
def insertByTime (timestamp : String) (id : Nat) :
    List (String × Nat) -> List (String × Nat)
  | [] => [(timestamp, id)]
  | entry :: rest =>
      if timestamp < entry.1 then
        (timestamp, id) :: entry :: rest
      else
        entry :: insertByTime timestamp id rest

/-- The events so far, indexed by verb and by time, and the deepest nesting they may have. -/
structure EventStore where
  maxDepth : Int
  events : List Event
  byVerb : OrderedMap String (List Event)
  byTime : List (String × Nat)

namespace EventStore

/-- The deepest nesting unless another one is asked for. -/
def defaultMaxDepth : Int := 16

/-- The store without events. -/
def empty (maxDepth : Int) : EventStore :=
  ⟨maxDepth, [], OrderedMap.empty, []⟩

/-- The number of events. -/
def size (s : EventStore) : Nat :=
  s.events.length

/-- The ground compound within the depth limit that a term is. -/
def validate (s : EventStore) (t : Term) : Except EventFault Compound :=
  match Compound.ofTerm? t with
  | none => .error (.shape t)
  | some c =>
      if !c.isGround then .error (.notGround c)
      else if s.maxDepth < t.depth then .error (.depth s.maxDepth c.functor)
      else .ok c

/-- Appends an event with the next identifier. -/
def push (s : EventStore) (description : Compound) (timestamp : String) :
    Event × EventStore :=
  let e : Event := ⟨s.size + 1, description, timestamp⟩
  (e, ⟨s.maxDepth, s.events ++ [e], s.byVerb.push e.verb e, insertByTime timestamp e.id s.byTime⟩)

/-- Appends an event if its description can be stored. -/
def append (s : EventStore) (t : Term) (timestamp : String) :
    Except EventFault (Event × EventStore) :=
  (s.validate t).map fun description => s.push description timestamp

/-- The event of an identifier. -/
def get? (s : EventStore) (id : Int) : Option Event :=
  if 1 ≤ id then s.events[(id - 1).toNat]? else none

/-- The events of a verb in the order of insertion. -/
def withVerb (s : EventStore) (verb : String) : List Event :=
  (s.byVerb.get? verb).getD []

/-- The verbs in the order of their first events. -/
def verbs (s : EventStore) : List String :=
  s.byVerb.keys

/-- An entry is not before the start, if there is one. -/
def isFrom (start : Option String) (entry : String × Nat) : Bool :=
  match start with
  | none => true
  | some t => decide (t ≤ entry.1)

/-- An entry is not after the end, if there is one. -/
def isUntil (stop : Option String) (entry : String × Nat) : Bool :=
  match stop with
  | none => true
  | some t => decide (entry.1 ≤ t)

/-- The events from a start to an end, both inclusive, in the order of time. -/
def between (s : EventStore) (start stop : Option String) : List Event :=
  let entries := (s.byTime.dropWhile fun entry => !isFrom start entry).takeWhile (isUntil stop)
  entries.filterMap fun entry => s.get? entry.2

/-- The store without its events. -/
def clear (s : EventStore) : EventStore :=
  empty s.maxDepth

end EventStore
end EventCalculus
