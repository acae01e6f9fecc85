import EventCalculus.OrderedMap
import EventCalculus.Rule.Basic

/-!
# Rule sets

A registry of rules with two indices: by the verb of the triggering event and by
domain, arity and effect.  Within an index the order of registration is kept,
and no two rules of a set are the same.
-/

namespace EventCalculus

/-- A set of rules, indexed by verb and by domain, arity and effect. -/
structure RuleSet where
  byVerb : OrderedMap String (List Rule)
  byDomain : OrderedMap (String × Nat × Effect) (List Rule)

namespace RuleSet

/-- The set without rules. -/
def empty : RuleSet :=
  ⟨OrderedMap.empty, OrderedMap.empty⟩

instance : Inhabited RuleSet := ⟨empty⟩

/-- The rules for events of a verb, in the order of registration. -/
def forVerb (s : RuleSet) (verb : String) : List Rule :=
  (s.byVerb.get? verb).getD []

/-- The rules with an effect on a domain of some arity. -/
def affecting (s : RuleSet) (effect : Effect) (domain : String) (arity : Nat) : List Rule :=
  (s.byDomain.get? (domain, arity, effect)).getD []

/-- The rules that initiate fluents of a domain and arity. -/
def initiating (s : RuleSet) (domain : String) (arity : Nat) : List Rule :=
  s.affecting .initiates domain arity

/-- The rules that terminate fluents of a domain and arity. -/
def terminating (s : RuleSet) (domain : String) (arity : Nat) : List Rule :=
  s.affecting .terminates domain arity

/-- Every rule that initiates, grouped by domain. -/
def initiatingAll (s : RuleSet) : List Rule :=
  s.byDomain.entries.flatMap fun (key, rules) =>
    if key.2.2 = .initiates then rules else []

/-- Every rule, grouped by verb. -/
def all (s : RuleSet) : List Rule :=
  s.byVerb.values.flatten

/-- The number of rules. -/
def size (s : RuleSet) : Nat :=
  s.all.length

/-- The set has the same rule. -/
def contains (s : RuleSet) (r : Rule) : Bool :=
  (s.forVerb r.verb).any fun other => other.same r

/-- Registers a rule unless the set has the same one; tells whether it was new. -/
def add (s : RuleSet) (r : Rule) : Bool × RuleSet :=
  if s.contains r then
    (false, s)
  else
    (true, ⟨s.byVerb.push r.verb r, s.byDomain.push (r.domain, r.fluent.arity, r.effect) r⟩)

/-- The set of the rules of a list. -/
def ofList (rules : List Rule) : RuleSet :=
  rules.foldl (fun s r => (s.add r).2) empty

/-- The built-in rules and the number of learned rules that are dropped. -/
def discardLearned (s : RuleSet) : Nat × RuleSet :=
  let kept := s.all.filter fun r => r.source = .builtin
  (s.size - kept.length, ofList kept)

end RuleSet
end EventCalculus
