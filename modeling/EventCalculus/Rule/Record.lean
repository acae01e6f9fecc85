import EventCalculus.Term.Parser
import EventCalculus.Text.Blank
import EventCalculus.Value.Printer

/-!
# Rule records

A record is an external description of how a verb affects fluents.  It is read
from an object with a verb, a type and two lists of fluents, each with an
optional pattern.
-/

namespace EventCalculus

/-- The temporal character of a verb. -/
inductive RuleType where
  | stateChange
  | instantaneous
  | continuous
deriving DecidableEq

namespace RuleType

/-- The name of a type. -/
def text : RuleType -> String
  | .stateChange => "state_change"
  | .instantaneous => "instantaneous"
  | .continuous => "continuous"

/-- The type of a name. -/
def ofText? (s : String) : Option RuleType :=
  [stateChange, instantaneous, continuous].find? fun type => type.text == s

end RuleType

/-- A fluent that a verb affects, with a pattern in place of the usual arguments. -/
structure FluentSpec where
  fluent : Functor
  pattern : Option String
deriving DecidableEq

/-- How a verb affects fluents. -/
structure RuleRecord where
  verb : Functor
  type : RuleType
  initiates : List FluentSpec
  terminates : List FluentSpec
deriving DecidableEq

/-- Why a record is refused: its shape is wrong, or one of its patterns is. -/
inductive RecordFault where
  | shape (given : Value)
  | verb (given : Value)
  | type (given : Value)
  | listShape (key : String) (given : Value)
  | entry (key : String) (given : Value)
  | fluentName (given : String)
  | patternShape (fluent : Functor)
  | patternSyntax (fluent : Functor) (fault : ParseFault)
  | patternFunctor (pattern : String) (fluent : Functor)
  | patternSubject (pattern : String)
  | unbound (fluent : Compound) (names : List String)

namespace RecordFault

/-- What is said about a record that is refused. -/
def message : RecordFault -> String
  | .shape v => "Rule record must be an object, got " ++ v.kind
  | .verb v => "Rule record verb must be a lowercase identifier: " ++ v.inspect
  | .type v => "Unknown rule type: " ++ v.inspect
  | .listShape key v => "'" ++ key ++ "' must be a list, got " ++ v.kind
  | .entry key v => "Invalid '" ++ key ++ "' entry: " ++ v.inspect
  | .fluentName s => "Fluent name must be a lowercase identifier: " ++ Text.quoted s
  | .patternShape f => "Pattern for " ++ Text.quoted f.text ++ " must be a string"
  | .patternSyntax f fault =>
      if fault.isLimit then fault.message
      else "Invalid pattern for " ++ Text.quoted f.text ++ ": " ++ fault.message
  | .patternFunctor pattern f =>
      "Pattern " ++ Text.quoted pattern ++ " must be a compound with functor " ++
        Text.quoted f.text
  | .patternSubject pattern => "Pattern " ++ Text.quoted pattern ++ " has no subject argument"
  | .unbound fluent names =>
      "Initiates pattern " ++ fluent.render ++ " uses variables the event does not bind: " ++
        Text.join ", " names

/-- The limit on digits is exceeded; every other fault is one of form. -/
def isLimit : RecordFault -> Bool
  | .patternSyntax _ fault => fault.isLimit
  | _ => false

end RecordFault

namespace FluentSpec

/-- The pattern of an entry; an empty one counts as none. -/
def readPattern (fluent : Functor) : Option Value -> Except RecordFault (Option String)
  | none | some .null => .ok none
  | some (.text s) => .ok (if s = "" then none else some s)
  | some _ => .error (.patternShape fluent)

/-- The fluent of a list entry. -/
def ofValue (key : String) (entry : Value) : Except RecordFault FluentSpec :=
  match (entry.field? "fluent").bind Value.text? with
  | none => .error (.entry key entry)
  | some name =>
      let trimmed := Text.trim name
      match Functor.ofText? trimmed with
      | none => .error (.fluentName trimmed)
      | some fluent => (readPattern fluent (entry.field? "pattern")).map fun pattern =>
          ⟨fluent, pattern⟩

/-- The fluents of a list; an absent list is empty. -/
def listOfValue (key : String) : Option Value -> Except RecordFault (List FluentSpec)
  | none | some .null => .ok []
  | some (.list items) => items.mapM (ofValue key)
  | some v => .error (.listShape key v)

/-- The object of a fluent. -/
def toValue (s : FluentSpec) : Value :=
  .object (("fluent", .text s.fluent.text) ::
    (s.pattern.map fun pattern => ("pattern", Value.text pattern)).toList)

end FluentSpec

namespace RuleRecord

/-- The value of a key, or another one if the key is absent. -/
def fieldOr (data : Value) (key : String) (default : Value) : Value :=
  (data.field? key).getD default

/-- The data are an object. -/
def isObject : Value -> Bool
  | .object _ => true
  | _ => false

/-- The record that data describe; a verb of their own wins over the given one. -/
def ofValue (data givenVerb : Value) : Except RecordFault RuleRecord :=
  if isObject data then do
    let name := fieldOr data "verb" givenVerb
    let verb ← match name.text?.bind Functor.ofText? with
      | some verb => pure verb
      | none => .error (.verb name)
    let typeName := fieldOr data "type" (.text RuleType.instantaneous.text)
    let type ← match typeName.text?.bind RuleType.ofText? with
      | some type => pure type
      | none => .error (.type typeName)
    let initiates ← FluentSpec.listOfValue "initiates" (data.field? "initiates")
    let terminates ← FluentSpec.listOfValue "terminates" (data.field? "terminates")
    return ⟨verb, type, initiates, terminates⟩
  else
    .error (.shape data)

/-- The object of a record. -/
def toValue (r : RuleRecord) : Value :=
  .object [
    ("verb", .text r.verb.text), ("type", .text r.type.text),
    ("initiates", .list (r.initiates.map FluentSpec.toValue)),
    ("terminates", .list (r.terminates.map FluentSpec.toValue))]

end RuleRecord
end EventCalculus
