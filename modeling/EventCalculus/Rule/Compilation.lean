import EventCalculus.Rule.Basic
import EventCalculus.Rule.Record

/-!
# Rules of a record

The rules that a record describes.  Its events have two arguments, the subject
and the object, and its patterns may use no other variables to initiate.  A
state change that initiates and terminates the same domain replaces the previous
value: its rule is exclusive, and exclusivity stands in for the terminating one.
-/

namespace EventCalculus

/-- The variable of the object of a recorded verb. -/
def recordObject : VariableName :=
  ⟨"Object", by decide +kernel⟩

/-- The arguments of a recorded verb and of fluents without a pattern. -/
def recordSlots : List Term :=
  [.var subjectVariable, .var recordObject]

namespace FluentSpec

/-- The fluent that an entry describes. -/
def compound (s : FluentSpec) : Except RecordFault Compound :=
  match s.pattern with
  | none => .ok ⟨s.fluent, recordSlots⟩
  | some source =>
      match Term.parse source with
      | .error fault => .error (.patternSyntax s.fluent fault)
      | .ok t =>
          match Compound.ofTerm? t with
          | none => .error (.patternFunctor source s.fluent)
          | some c =>
              if c.functor ≠ s.fluent then .error (.patternFunctor source s.fluent)
              else if c.arity = 0 then .error (.patternSubject source)
              else .ok c

end FluentSpec

namespace RuleRecord

/-- The events of a record. -/
def event (r : RuleRecord) : Compound :=
  ⟨r.verb, recordSlots⟩

/-- The fluents that take the place of their previous value. -/
def replaced (r : RuleRecord) : List Functor :=
  if r.type = .stateChange then
    (r.initiates.map FluentSpec.fluent).filter fun f =>
      (r.terminates.map FluentSpec.fluent).contains f
  else
    []

/-- The variables of a fluent that the event does not bind, in alphabetical order. -/
def unboundVariables (fluent : Compound) : List String :=
  (fluent.toTerm.variableNames.filter fun name =>
    name ≠ subjectVariable.text ∧ name ≠ recordObject.text).mergeSort fun a b => decide (a ≤ b)

/-- The rule of an initiated fluent. -/
def initiatingRule (r : RuleRecord) (s : FluentSpec) : Except RecordFault Rule := do
  let fluent ← s.compound
  let unbound := unboundVariables fluent
  if unbound.isEmpty then
    return ⟨r.event, .initiates, fluent, r.replaced.contains s.fluent, .learned⟩
  else
    .error (.unbound fluent unbound)

/-- The rule of a terminated fluent. -/
def terminatingRule (r : RuleRecord) (s : FluentSpec) : Except RecordFault Rule := do
  return ⟨r.event, .terminates, ← s.compound, false, .learned⟩

/-- The terminated fluents that are not replaced. -/
def terminatesOnly (r : RuleRecord) : List FluentSpec :=
  r.terminates.filter fun s => !r.replaced.contains s.fluent

/-- The rules that a record describes. -/
def rules (r : RuleRecord) : Except RecordFault (List Rule) := do
  let initiating ← r.initiates.mapM r.initiatingRule
  let terminating ← r.terminatesOnly.mapM r.terminatingRule
  return initiating ++ terminating

end RuleRecord
end EventCalculus
