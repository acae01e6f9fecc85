import EventCalculus.Rule.Compilation
import EventCalculus.Rule.Exclusive
import EventCalculus.Rule.RuleSet
import EventCalculus.Rule.Taxonomy

/-!
# Rulebooks

A rulebook grows with the verbs it meets.  The built-in rules of a verb are
compiled the first time that the verb comes with a number of arguments, records
bring the learned rules, and every exclusive rule makes its domain exclusive.
-/

namespace EventCalculus

/-- The rules in force and how to make more of them. -/
structure Rulebook where
  taxonomy : Taxonomy
  rules : RuleSet
  exclusive : ExclusiveDomains
  compiled : List (String × Nat)

namespace Rulebook

/-- The rulebook of a taxonomy before any verb was met. -/
def ofTaxonomy (taxonomy : Taxonomy) : Rulebook :=
  ⟨taxonomy, RuleSet.empty, ExclusiveDomains.empty, []⟩

/-- Registers a rule and, if it is exclusive, its domain; tells whether it was new. -/
def registerRule (b : Rulebook) (r : Rule) : Bool × Rulebook :=
  let exclusive := if r.exclusive then b.exclusive.insert r.domain else b.exclusive
  let (isNew, rules) := b.rules.add r
  (isNew, { b with rules := rules, exclusive := exclusive })

/-- Registers rules from first to last and gives those that were new. -/
def register (b : Rulebook) : List Rule -> List Rule × Rulebook
  | [] => ([], b)
  | r :: rest =>
      let (isNew, b) := b.registerRule r
      let (added, b) := b.register rest
      (if isNew then r :: added else added, b)

/-- Compiles the built-in rules of a verb on the first meeting and gives those that were new.
A failure counts as a meeting too. -/
def compileVerb (b : Rulebook) (verb : String) (arity : Nat) :
    Except TaxonomyFault (List Rule) × Rulebook :=
  if b.compiled.contains (verb, arity) then
    (.ok [], b)
  else
    let b := { b with compiled := b.compiled ++ [(verb, arity)] }
    match b.taxonomy.classify verb arity with
    | .error fault => (.error fault, b)
    | .ok rules =>
        let (added, b) := b.register rules
        (.ok added, b)

/-- The rulebook with all meetings forgotten. -/
def forgetCompiled (b : Rulebook) : Rulebook :=
  { b with compiled := [] }

/-- The taxonomy has rules for a verb. -/
def hasBuiltin (b : Rulebook) (verb : String) (arity : Nat) : Except TaxonomyFault Bool :=
  (b.taxonomy.classify verb arity).map fun rules => !rules.isEmpty

/-- Compiles and registers the rules of a record and gives those that were new. -/
def compileRecord (b : Rulebook) (r : RuleRecord) :
    Except RecordFault (List Rule) × Rulebook :=
  match r.rules with
  | .error fault => (.error fault, b)
  | .ok rules =>
      let (added, b) := b.register rules
      (.ok added, b)

/-- The exclusive domains of a rule set. -/
def exclusiveDomains (rules : RuleSet) : ExclusiveDomains :=
  rules.all.foldl (fun s r => if r.exclusive then s.insert r.domain else s)
    ExclusiveDomains.empty

/-- Drops the learned rules, the domains that only they made exclusive, and all meetings; gives
the number of rules dropped. -/
def reset (b : Rulebook) : Nat × Rulebook :=
  let (removed, rules) := b.rules.discardLearned
  (removed, ⟨b.taxonomy, rules, exclusiveDomains rules, []⟩)

end Rulebook
end EventCalculus
