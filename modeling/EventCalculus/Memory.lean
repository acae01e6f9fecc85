import EventCalculus.Engine.Question
import EventCalculus.Statement.Learning
import EventCalculus.Statement.Reading

/-!
# Memories

A memory reads statements into an engine: a language model finds the events, a
learner describes verbs that the engine does not know, and the events are
asserted in order.  It also tells what holds for a subject.
-/

namespace EventCalculus

/-- A language model, a learner if there is one, and whether it is consulted. -/
structure Memory where
  model : LanguageModel
  learner : Option Learner
  autoLearn : Bool

/-- A memory with its engine and the warnings so far. -/
structure MemoryState where
  memory : Memory
  engine : Engine
  warnings : List Warning

namespace MemoryState

/-- The state with further warnings. -/
def warn (s : MemoryState) (warnings : List Warning) : MemoryState :=
  { s with warnings := s.warnings ++ warnings }

/-- Registers the rules of a record; a record that is refused gives a warning. -/
def register (s : MemoryState) (verb : String) (r : RuleRecord) :
    Except Fault Unit × MemoryState :=
  match s.engine.learn (.record r) with
  | (.ok _, engine) => (.ok (), { s with engine := engine })
  | (.error (.record fault), engine) =>
      let s := { s with engine := engine }
      if fault.isLimit then (.error (.record fault), s)
      else (.ok (), s.warn [.rejectedRules verb fault])
  | (.error fault, engine) => (.error fault, { s with engine := engine })

/-- Learns a verb that came with a statement. -/
def learnVerb (s : MemoryState) (l : Learner) (verb context : String) :
    Except Fault Unit × MemoryState :=
  let (lesson, l, model) := l.learn s.memory.model verb context
  let s := { s with memory := { s.memory with model := model, learner := some l } }
  match lesson with
  | .error fault => (.error fault, s)
  | .ok lesson =>
      let s := s.warn lesson.warnings
      match lesson.record with
      | none => (.ok (), s)
      | some r => s.register verb r

/-- Learns the verb of an event if the engine does not know it. -/
def prepareVerb (s : MemoryState) (c : Compound) (context : String) :
    Except Fault Unit × MemoryState :=
  match s.memory.autoLearn, s.memory.learner with
  | true, some l =>
      match s.engine.isKnownVerb c.functor.text c.arity with
      | .error fault => (.error fault, s)
      | .ok true => (.ok (), s)
      | .ok false => s.learnVerb l c.functor.text context
  | _, _ => (.ok (), s)

/-- Records one compound and gives its identifier. -/
def recordCompound (s : MemoryState) (c : Compound) (context : String) (m : Moment) :
    Except Fault Nat × MemoryState :=
  match s.prepareVerb c context with
  | (.error fault, s) => (.error fault, s)
  | (.ok _, s) =>
      let (id, engine) := s.engine.assertEvent (.term c.toTerm) m
      (id, { s with engine := engine })

/-- Records events from first to last, up to the first fault, and gives their identifiers. -/
def recordEvents (s : MemoryState) (context : String) (m : Moment) :
    List StatedEvent -> Except Fault (List Nat) × MemoryState
  | [] => (.ok [], s)
  | event :: rest =>
      match event.compound with
      | .error fault => (s.warn [.unusableEvent event fault]).recordEvents context m rest
      | .ok c =>
          match s.recordCompound c context m with
          | (.error fault, s) => (.error fault, s)
          | (.ok id, s) =>
              let (ids, s) := s.recordEvents context m rest
              (ids.map (id :: ·), s)

/-- Records the events of a statement, at the current date unless a moment is given. -/
def remember (s : MemoryState) (statement : String) (m : Option Moment) :
    Except Fault (List Nat) × MemoryState :=
  let moment := m.getD (.text s.engine.currentDate)
  let (reading, model) := readStatement s.memory.model statement
  let s := { s with memory := { s.memory with model := model } }
  match reading with
  | .error fault => (.error fault, s)
  | .ok reading => (s.warn reading.warnings).recordEvents statement moment reading.events

end MemoryState

namespace Memory

/-- The memory with everything forgotten that its learner knew. -/
def forgetLearned (m : Memory) : Memory :=
  { m with learner := m.learner.map fun _ => Learner.empty }

end Memory

/-!
# The state of a subject
-/

namespace Holding

/-- The values of a fluent in running text; a fluent without values is affirmed. -/
def valueText (h : Holding) : String :=
  match h.fluent.values with
  | [] => "yes"
  | values => Text.join ", " (values.map fun t => (Value.ofTerm t).display)

/-- The line of a fluent in the state of its subject. -/
def stateLine (h : Holding) : String :=
  "- " ++ h.domain ++ ": " ++ h.valueText ++ " (since " ++ h.since ++ ")"

end Holding

namespace Engine

/-- The fluents that hold for the subject of a phrase. -/
def holdingsFor (e : Engine) (phrase : String) (m : Option Moment) :
    Except Fault (List Holding) := do
  let subject ← (Value.text (snakeCase phrase)).toAtom.mapError .term
  let holdings ← e.allHolding m
  return holdings.filter fun h => h.fluent.subject?.any subject.same

/-- The fluents that hold for the subject of a phrase as a block of text, empty if none does. -/
def stateBlock (e : Engine) (phrase : String) (m : Option Moment) : Except Fault String := do
  let holdings ← e.holdingsFor phrase m
  if holdings.isEmpty then
    return ""
  else
    let time := (m.map Moment.display).getD e.currentDate
    return "<memory>\nWhat holds for " ++ snakeCase phrase ++ " as of " ++ time ++ ":\n" ++
      Text.join "\n" (holdings.map Holding.stateLine) ++ "\n</memory>"

end Engine
end EventCalculus
