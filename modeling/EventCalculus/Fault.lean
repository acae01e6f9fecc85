import EventCalculus.Calendar.Timestamp
import EventCalculus.Fluent.Query
import EventCalculus.Rule.Compilation
import EventCalculus.Rule.Taxonomy
import EventCalculus.Statement.Event
import EventCalculus.Store.Basic

/-!
# Faults

Why an operation of an engine or an archive fails.  Most faults reject what was
given; those of the remaining kinds point at a limit or at wrong use.
-/

namespace EventCalculus

/-- What is wrong with a line of a fact file. -/
inductive LineFault where
  | syntaxFault (fault : ParseFault)
  | shape
  | event

/-- Why an operation fails. -/
inductive Fault where
  | parse (fault : ParseFault)
  | notATerm (given : Value)
  | timestamp (fault : TimestampFault)
  | event (fault : EventFault)
  | record (fault : RecordFault)
  | query (fault : QueryFault)
  | taxonomy (fault : TaxonomyFault)
  | noSubject
  | archived (given : Term)
  | line (number : Nat) (fault : LineFault)
  | term (fault : TermFault)
  | statement (fault : StatedEventFault)
  | numeral (count : Nat)

/-- The kinds of faults. -/
inductive FaultKind where
  | malformedTerm
  | ruleRecord
  | timestamp
  | query
  | limit
  | notATerm
  | noCompletion
  | noSubject
deriving DecidableEq

namespace Fault

/-- The kind of a fault. -/
def kind : Fault -> FaultKind
  | .parse fault => if fault.isLimit then .limit else .malformedTerm
  | .notATerm _ => .notATerm
  | .timestamp _ => .timestamp
  | .event _ => .malformedTerm
  | .record fault => if fault.isLimit then .limit else .ruleRecord
  | .query (.unreadable _ fault) => if fault.isLimit then .limit else .query
  | .query (.shape _) | .query (.subject _) => .query
  | .taxonomy (.name _) => .malformedTerm
  | .taxonomy (.noCompletion _) => .noCompletion
  | .noSubject => .noSubject
  | .archived _ => .malformedTerm
  | .line _ (.syntaxFault fault) => if fault.isLimit then .limit else .malformedTerm
  | .line _ .shape | .line _ .event => .malformedTerm
  | .term _ => .malformedTerm
  | .statement _ => .malformedTerm
  | .numeral _ => .limit

/-- The fault rejects what was given. -/
def isRejection (f : Fault) : Bool :=
  match f.kind with
  | .malformedTerm | .ruleRecord | .timestamp | .query => true
  | .limit | .notATerm | .noCompletion | .noSubject => false

/-- What is said about a line of a fact file. -/
def lineMessage (number : Nat) : LineFault -> String
  | .syntaxFault fault =>
      if fault.isLimit then fault.message
      else "Line " ++ toString number ++ ": " ++ fault.message
  | .shape => "Line " ++ toString number ++ ": expected happens(<event>, \"<timestamp>\")"
  | .event => "Line " ++ toString number ++ ": event must be a ground compound"

/-- What is said about a fault. -/
def message : Fault -> String
  | .parse fault => fault.message
  | .notATerm v => "Not a term: " ++ v.inspect
  | .timestamp fault => fault.message
  | .event fault => fault.message
  | .record fault => fault.message
  | .query fault => fault.message
  | .taxonomy (.name fault) => fault.message
  | .taxonomy (.noCompletion verb) => "No completion is known for " ++ Text.quoted verb
  | .noSubject => "A fluent without arguments has no subject"
  | .archived t => "Archived events must be ground compounds: " ++ t.render
  | .line number fault => lineMessage number fault
  | .term fault => fault.message
  | .statement fault => fault.message
  | .numeral count => tooManyDigitsMessage count

end Fault
end EventCalculus
