import EventCalculus.Fluent.Derivation
import EventCalculus.Term.Parser
import EventCalculus.Value.Printer

/-!
# Queries

What holds at a time, asked by a pattern.  An answer is the bindings that turn
the pattern into a fluent that holds; answers come in the order of initiation,
and none is given twice.
-/

namespace EventCalculus

/-- Why a pattern cannot be asked for. -/
inductive QueryFault where
  | unreadable (source : String) (fault : ParseFault)
  | shape (given : Value)
  | subject (functor : Functor)

/-- What is said about a pattern that cannot be asked for. -/
def QueryFault.message : QueryFault -> String
  | .unreadable source fault =>
      if fault.isLimit then fault.message
      else "Invalid fluent pattern " ++ Text.quoted source ++ ": " ++ fault.message
  | .shape v => "Fluent pattern must be a compound term, got " ++ v.inspect
  | .subject f => "Fluent pattern " ++ f.text ++ " has no subject argument"

/-- The fluent pattern that a value is: a compound with a subject. -/
def checkPattern (v : Value) : Except QueryFault Compound :=
  match v.term?.bind Compound.ofTerm? with
  | none => .error (.shape v)
  | some c => if c.arity = 0 then .error (.subject c.functor) else .ok c

/-- The order by timestamp and then by text. -/
def earlierOrEqual (a b : String × String) : Bool :=
  decide (a.1 < b.1) || (a.1 == b.1 && decide (a.2 ≤ b.2))

/-- A fluent that holds: when it was initiated, its text, and its bindings. -/
structure Candidate where
  timestamp : String
  text : String
  bindings : Bindings
deriving DecidableEq

/-- The order of candidates. -/
def Candidate.notAfter (a b : Candidate) : Bool :=
  earlierOrEqual (a.timestamp, a.text) (b.timestamp, b.text)

/-- The bindings without those that repeat earlier ones. -/
def distinctBindings (bindings : List Bindings) : List Bindings :=
  bindings.foldl (fun seen b => if seen.any b.same then seen else seen ++ [b]) []

namespace Scenario

/-- The candidate that an initiation is for a pattern at a time. -/
def candidate? (s : Scenario) (pattern : Compound) (time : String) (i : Initiation) :
    Option Candidate :=
  match pattern.matchCompound? i.fluent with
  | none => none
  | some bindings =>
      if s.persists i time then some ⟨i.timestamp, i.fluent.render, bindings⟩ else none

/-- The candidates for a pattern at a time. -/
def candidates (s : Scenario) (pattern : Compound) (time : String) : List Candidate :=
  (s.initiations pattern.functor.text pattern.arity (some time)).filterMap
    (s.candidate? pattern time)

/-- The bindings under which a pattern holds at a time. -/
def query (s : Scenario) (pattern : Compound) (time : String) : List Bindings :=
  distinctBindings
    (((s.candidates pattern time).mergeSort Candidate.notAfter).map Candidate.bindings)

/-- Some fluent of a pattern holds at a time. -/
def holdsAt (s : Scenario) (pattern : Compound) (time : String) : Bool :=
  !(s.query pattern time).isEmpty

/-- Some fluent of a pattern was ever initiated. -/
def everHeld (s : Scenario) (pattern : Compound) : Bool :=
  (s.initiations pattern.functor.text pattern.arity none).any fun i =>
    (pattern.matchCompound? i.fluent).isSome

end Scenario
end EventCalculus
