import EventCalculus.Rule.Exclusive
import EventCalculus.Rule.RuleSet
import EventCalculus.Store.Basic
import EventCalculus.Term.Match

/-!
# Derivation of fluents

Events start fluents through the rules that initiate, and clip them in two ways:
through the rules that terminate, and by initiating another value for the same
subject of an exclusive domain.

A clipping counts from right after the start of a fluent up to and including the
time in question.
-/

namespace EventCalculus

/-- The events, the rules and the exclusive domains that decide what holds. -/
structure Scenario where
  store : EventStore
  rules : RuleSet
  exclusive : ExclusiveDomains

/-- A ground fluent that an event starts. -/
structure Initiation where
  fluent : Compound
  event : Event
deriving DecidableEq

/-- The time of an initiation. -/
def Initiation.timestamp (i : Initiation) : String :=
  i.event.timestamp

namespace Compound

/-- The first argument of a fluent. -/
def subject? (c : Compound) : Option Term :=
  c.args.head?

/-- The arguments after the subject. -/
def values (c : Compound) : List Term :=
  c.args.drop 1

/-- The fluents have the same subject and different values. -/
def competesWith (a b : Compound) : Bool :=
  match a.args, b.args with
  | s :: xs, t :: ys =>
      s.same t && Term.canonicalAll xs ≠ Term.canonicalAll ys
  | _, _ => false

end Compound

namespace Rule

/-- The fluent of a rule for an event that its pattern matches. -/
def fluentFor? (r : Rule) (e : Event) : Option Compound :=
  (r.event.matchCompound? e.description).map fun bindings => r.fluent.substitute bindings

/-- The ground fluent that a rule starts at an event. -/
def initiated? (r : Rule) (e : Event) : Option Compound :=
  (r.fluentFor? e).filter Compound.isGround

/-- The rule clips a ground fluent at an event. -/
def terminatesAt (r : Rule) (fluent : Compound) (e : Event) : Bool :=
  match r.fluentFor? e with
  | some pattern => (pattern.matchCompound? fluent).isSome
  | none => false

end Rule

namespace Scenario

/-- The event is not later than the limit, if there is one. -/
def isWithin (limit : Option String) (e : Event) : Bool :=
  match limit with
  | none => true
  | some t => decide (e.timestamp ≤ t)

/-- The initiations by one rule up to a limit. -/
def initiationsBy (s : Scenario) (r : Rule) (limit : Option String) : List Initiation :=
  (s.store.withVerb r.verb).filterMap fun e =>
    if isWithin limit e then
      (r.initiated? e).map fun fluent => ⟨fluent, e⟩
    else
      none

/-- The initiations of a domain and arity up to a limit. -/
def initiations (s : Scenario) (domain : String) (arity : Nat) (limit : Option String) :
    List Initiation :=
  (s.rules.initiating domain arity).flatMap fun r => s.initiationsBy r limit

/-- The events that a rule makes terminate a fluent. -/
def terminationsBy (s : Scenario) (fluent : Compound) (r : Rule) : List Event :=
  (s.store.withVerb r.verb).filter (r.terminatesAt fluent)

/-- The events that terminate a fluent. -/
def terminations (s : Scenario) (fluent : Compound) : List Event :=
  (s.rules.terminating fluent.functor.text fluent.arity).flatMap (s.terminationsBy fluent)

/-- The events that give the subject of an exclusive fluent another value. -/
def displacements (s : Scenario) (fluent : Compound) : List Event :=
  if s.exclusive.contains fluent.functor.text then
    ((s.initiations fluent.functor.text fluent.arity none).filter fun other =>
      other.fluent.competesWith fluent).map Initiation.event
  else
    []

/-- The events that clip a fluent. -/
def clippings (s : Scenario) (fluent : Compound) : List Event :=
  s.terminations fluent ++ s.displacements fluent

/-- The fluent is clipped after a start and not after an end. -/
def isClipped (s : Scenario) (fluent : Compound) (start stop : String) : Bool :=
  (s.clippings fluent).any fun e =>
    decide (start < e.timestamp) && decide (e.timestamp ≤ stop)

/-- The initiated fluent still holds at a time. -/
def persists (s : Scenario) (i : Initiation) (time : String) : Bool :=
  !s.isClipped i.fluent i.timestamp time

end Scenario
end EventCalculus
