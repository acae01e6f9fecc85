import EventCalculus.Engine.Basic
import EventCalculus.Fluent.Holding
import EventCalculus.Fluent.Timeline

/-!
# Questions to an engine

Patterns are given as texts or terms; a time that is not given is the current
date.  A question changes nothing but the audit log.
-/

namespace EventCalculus
namespace Engine

/-- The pattern that a value gives, before it is checked. -/
def readPattern (v : Value) : Except Fault Value :=
  (readTerm v).mapError fun fault => .query (.unreadable fault.source fault)

/-- The timestamp that a question is about. -/
def timeOf (e : Engine) : Option Moment -> Except Fault String
  | none => .ok e.currentDate
  | some m => timestampOf m

/-- The engine after a pattern that cannot be read. -/
def noteUnreadable (e : Engine) (fault : Fault) : Engine :=
  match fault with
  | .query (.unreadable _ cause) => e.noteFault "query" (.parse cause)
  | _ => e

/-- The pattern of a question about fluents in general. -/
def pattern (e : Engine) (v : Value) : Except Fault Compound × Engine :=
  match readPattern v with
  | .error fault => (.error fault, e.noteUnreadable fault)
  | .ok given => ((checkPattern given).mapError .query, e)

/-- The pattern and the time of a question. -/
def patternAt (e : Engine) (v : Value) (m : Option Moment) :
    Except Fault (Compound × String) × Engine :=
  match readPattern v with
  | .error fault => (.error fault, e.noteUnreadable fault)
  | .ok given =>
      (do
        let time ← e.timeOf m
        let c ← (checkPattern given).mapError .query
        return (c, time), e)

/-- The bindings under which a pattern holds at a time. -/
def query (e : Engine) (v : Value) (m : Option Moment) :
    Except Fault (List Bindings) × Engine :=
  match e.patternAt v m with
  | (.error fault, e) => (.error fault, e)
  | (.ok (c, time), e) =>
      let answers := e.scenario.query c time
      (.ok answers, e.note fun log =>
        log.recordQuery (.text c.render) (.text time) (.int answers.length)
          (.number (.float (Binary64.zero false))))

/-- Some fluent of a pattern holds at a time. -/
def holds (e : Engine) (v : Value) (m : Option Moment) : Except Fault Bool × Engine :=
  let (answers, e) := e.query v m
  (answers.map fun bindings => !bindings.isEmpty, e)

/-- Some fluent of a pattern was ever initiated. -/
def everHeld (e : Engine) (v : Value) : Except Fault Bool × Engine :=
  let (c, e) := e.pattern v
  (c.map e.scenario.everHeld, e)

/-- The intervals of every fluent of a pattern. -/
def timeline (e : Engine) (v : Value) : Except Fault (List Interval) × Engine :=
  let (c, e) := e.pattern v
  (c.map e.scenario.timeline, e)

/-- Every fluent that holds at a time. -/
def allHolding (e : Engine) (m : Option Moment) : Except Fault (List Holding) := do
  let time ← e.timeOf m
  match e.scenario.allHolding? time with
  | some holdings => .ok holdings
  | none => .error .noSubject

end Engine
end EventCalculus
