import EventCalculus.Statement.Naming
import EventCalculus.Term.Basic
import EventCalculus.Text.Quoted

/-!
# Events in statements

An event as a statement tells it: who did what, and perhaps to what.  Its term
has the names of the phrases.
-/

namespace EventCalculus

/-- A subject, a verb and perhaps an object, as phrases. -/
structure StatedEvent where
  subject : String
  verb : String
  object : Option String
deriving DecidableEq

/-- Why a stated event has no term. -/
inductive StatedEventFault where
  | verb (phrase : String)
  | subject (verb : Functor)

/-- What is said about a stated event that has no term. -/
def StatedEventFault.message : StatedEventFault -> String
  | .verb phrase => "Cannot use " ++ Text.quoted phrase ++ " as an event verb"
  | .subject f => "Event " ++ f.text ++ " has no subject"

namespace StatedEvent

/-- The atom of a phrase, unless its name is empty. -/
def phraseAtom? (phrase : String) : Option Term :=
  (AtomName.ofText? (snakeCase phrase)).map .atom

/-- The compound of a stated event. -/
def compound (e : StatedEvent) : Except StatedEventFault Compound :=
  match Functor.ofText? (snakeCase e.verb) with
  | none => .error (.verb e.verb)
  | some verb =>
      match phraseAtom? e.subject with
      | none => .error (.subject verb)
      | some subject => .ok ⟨verb, subject :: (e.object.bind phraseAtom?).toList⟩

/-- The structure of a stated event, for messages. -/
def inspect (e : StatedEvent) : String :=
  "ParsedEvent(subject=" ++ Text.quoted e.subject ++ ", verb=" ++ Text.quoted e.verb ++
    ", object=" ++ (match e.object with
      | some object => Text.quoted object
      | none => "None") ++ ")"

end StatedEvent
end EventCalculus
