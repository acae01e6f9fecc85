import EventCalculus.Fluent.Derivation

/-!
# All that holds

Every ground fluent that holds at a time, with the start of the interval in
which it holds.  A fluent without arguments has no subject, so it cannot be
listed.
-/

namespace EventCalculus

/-- A fluent that holds, and since when. -/
structure Holding where
  fluent : Compound
  since : String
deriving DecidableEq

namespace Holding

/-- The name of the fluent. -/
def domain (h : Holding) : String :=
  h.fluent.functor.text

/-- The text of the subject. -/
def subjectText (h : Holding) : String :=
  match h.fluent.subject? with
  | some t => t.render
  | none => ""

/-- The order by domain, subject and fluent. -/
def notAfter (a b : Holding) : Bool :=
  let first := (a.domain, a.subjectText, a.fluent.render)
  let second := (b.domain, b.subjectText, b.fluent.render)
  decide (first.1 < second.1) || (first.1 == second.1 &&
    (decide (first.2.1 < second.2.1) || (first.2.1 == second.2.1 &&
      decide (first.2.2 ≤ second.2.2))))

end Holding

/-- The listed start of a fluent. -/
def sinceOf? (holdings : List Holding) (fluent : Compound) : Option String :=
  (holdings.find? fun h => h.fluent.same fluent).map Holding.since

/-- Sets the start of a fluent, which keeps its place and its form if it is listed. -/
def setSince (fluent : Compound) (since : String) : List Holding -> List Holding
  | [] => [⟨fluent, since⟩]
  | h :: rest =>
      if h.fluent.same fluent then
        ⟨h.fluent, since⟩ :: rest
      else
        h :: setSince fluent since rest

namespace Scenario

/-- Lists an initiated fluent that persists, unless it is listed with a start that is no later. -/
def addHolding (s : Scenario) (time : String) (holdings : List Holding) (i : Initiation) :
    List Holding :=
  let isKnown := match sinceOf? holdings i.fluent with
    | some since => decide (since ≤ i.timestamp)
    | none => false
  if isKnown || !s.persists i time then holdings else setSince i.fluent i.timestamp holdings

/-- The initiations of all domains up to a limit. -/
def allInitiations (s : Scenario) (limit : Option String) : List Initiation :=
  s.rules.initiatingAll.flatMap fun r => s.initiationsBy r limit

/-- The fluents that hold at a time, in the order of domain, subject and text; none if one of
them has no subject. -/
def allHolding? (s : Scenario) (time : String) : Option (List Holding) :=
  let holdings := (s.allInitiations (some time)).foldl (s.addHolding time) []
  if holdings.any fun h => h.fluent.subject?.isNone then
    none
  else
    some (holdings.mergeSort Holding.notAfter)

end Scenario
end EventCalculus
