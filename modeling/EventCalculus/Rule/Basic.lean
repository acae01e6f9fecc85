import EventCalculus.Term.Printer

/-!
# Rules

A rule says which events start or end which fluents.  The variables of its
fluent are shared with its event.  Where a rule came from plays no part in its
identity.
-/

namespace EventCalculus

/-- What an event does to a fluent. -/
inductive Effect where
  | initiates
  | terminates
deriving DecidableEq

namespace Effect

/-- The name of an effect. -/
def text : Effect -> String
  | .initiates => "initiates"
  | .terminates => "terminates"

/-- The effect of a name. -/
def ofText? (s : String) : Option Effect :=
  [initiates, terminates].find? fun effect => effect.text == s

end Effect

/-- Where a rule came from. -/
inductive RuleSource where
  | builtin
  | learned
deriving DecidableEq

namespace RuleSource

/-- The name of a source. -/
def text : RuleSource -> String
  | .builtin => "builtin"
  | .learned => "learned"

/-- The source of a name. -/
def ofText? (s : String) : Option RuleSource :=
  [builtin, learned].find? fun source => source.text == s

end RuleSource

/-- A rule that initiates or terminates a fluent.  The domain of an exclusive rule holds one
value per subject. -/
structure Rule where
  event : Compound
  effect : Effect
  fluent : Compound
  exclusive : Bool
  source : RuleSource
deriving DecidableEq

/-- The variable of the subject, which verbs and fluents have in common. -/
def subjectVariable : VariableName :=
  ⟨"Subject", by decide +kernel⟩

namespace Rule

/-- The name of the fluents that are affected. -/
def domain (r : Rule) : String :=
  r.fluent.functor.text

/-- The verb of the events that trigger the rule. -/
def verb (r : Rule) : String :=
  r.event.functor.text

/-- The rule with numbers in canonical form and without its source. -/
def canonical (r : Rule) : Rule :=
  ⟨r.event.canonical, r.effect, r.fluent.canonical, r.exclusive, .builtin⟩

/-- The rules differ at most in their source and in the kind of numbers of equal value. -/
def same (a b : Rule) : Bool :=
  a.canonical = b.canonical

/-- The text of a rule. -/
def text (r : Rule) : String :=
  r.effect.text ++ "(" ++ r.event.render ++ ", " ++ r.fluent.render ++ ")"

end Rule
end EventCalculus
