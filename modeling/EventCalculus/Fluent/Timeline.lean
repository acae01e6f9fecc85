import EventCalculus.Fluent.Query

/-!
# Timelines

The maximal intervals in which fluents hold.  An interval includes its start and
excludes its end; the last one of a fluent may have no end.
-/

namespace EventCalculus

/-- A period in which a ground fluent holds. -/
structure Interval where
  fluent : Compound
  start : String
  stop : Option String
deriving DecidableEq

namespace Interval

/-- The time lies in the interval. -/
def contains (i : Interval) (time : String) : Bool :=
  decide (i.start ≤ time) &&
    match i.stop with
    | none => true
    | some stop => decide (time < stop)

/-- The order of intervals by start and fluent. -/
def notAfter (a b : Interval) : Bool :=
  earlierOrEqual (a.start, a.fluent.render) (b.start, b.fluent.render)

end Interval

/-- The order of initiations by time and fluent. -/
def Initiation.notAfter (a b : Initiation) : Bool :=
  earlierOrEqual (a.timestamp, a.fluent.render) (b.timestamp, b.fluent.render)

/-- The fluents without those that are the same as earlier ones. -/
def distinctFluents (fluents : List Compound) : List Compound :=
  fluents.foldl (fun seen f => if seen.any f.same then seen else seen ++ [f]) []

/-- The intervals of a status that is sampled at ascending times; `start` is where the current
interval began, if one is open. -/
def intervalsFrom (fluent : Compound) (holds : String -> Bool) (start : Option String) :
    List String -> List Interval
  | [] =>
      match start with
      | none => []
      | some begun => [⟨fluent, begun, none⟩]
  | time :: rest =>
      match start, holds time with
      | none, true => intervalsFrom fluent holds (some time) rest
      | none, false => intervalsFrom fluent holds none rest
      | some begun, true => intervalsFrom fluent holds (some begun) rest
      | some begun, false =>
          ⟨fluent, begun, some time⟩ :: intervalsFrom fluent holds none rest

namespace Scenario

/-- The times at which the status of a fluent can change, ascending. -/
def changePoints (s : Scenario) (fluent : Compound) : List String :=
  let started := (s.initiations fluent.functor.text fluent.arity none).filter fun i =>
    i.fluent.same fluent
  let times := started.map Initiation.timestamp ++ (s.clippings fluent).map Event.timestamp
  times.eraseDups.mergeSort fun a b => decide (a ≤ b)

/-- The intervals in which a ground fluent holds. -/
def intervals (s : Scenario) (fluent : Compound) : List Interval :=
  intervalsFrom fluent (s.holdsAt fluent) none (s.changePoints fluent)

/-- The distinct fluents of a pattern in the order of their first initiation. -/
def fluentsOf (s : Scenario) (pattern : Compound) : List Compound :=
  let ordered :=
    (s.initiations pattern.functor.text pattern.arity none).mergeSort Initiation.notAfter
  distinctFluents ((ordered.map Initiation.fluent).filter fun fluent =>
    (pattern.matchCompound? fluent).isSome)

/-- The intervals of every fluent of a pattern. -/
def timeline (s : Scenario) (pattern : Compound) : List Interval :=
  ((s.fluentsOf pattern).flatMap s.intervals).mergeSort Interval.notAfter

end Scenario
end EventCalculus
