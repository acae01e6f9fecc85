import EventCalculus.OrderedMap
import EventCalculus.Term.Basic

/-!
# Matching and substitution

Matching compares a pattern with a ground term and extends bindings for the
named variables of the pattern.  A variable that is bound already has to meet
the same term again; the anonymous variable meets anything.
-/

namespace EventCalculus

/-- Terms bound to variable names, in the order of binding. -/
abbrev Bindings := OrderedMap String Term

namespace Term

/-- Meets a variable with a term. -/
def bindVariable (v : VariableName) (t : Term) (given : Bindings) : Option Bindings :=
  if v.isAnonymous then
    some given
  else
    match given.get? v.text with
    | none => some (given.insert v.text t)
    | some bound => if bound.same t then some given else none

mutual

/-- The bindings that extend the given ones and under which the pattern is the term. -/
def matchFrom : Term -> Term -> Bindings -> Option Bindings
  | .var v, t, given => bindVariable v t given
  | .compound f patterns, .compound g args, given =>
      if f = g then matchAllFrom patterns args given else none
  | .compound _ _, _, _ => none
  | .atom n, t, given => if same (.atom n) t then some given else none
  | .number n, t, given => if same (.number n) t then some given else none
  | .text s, t, given => if same (.text s) t then some given else none

/-- Matches argument lists of equal length from left to right. -/
def matchAllFrom : List Term -> List Term -> Bindings -> Option Bindings
  | [], [], given => some given
  | p :: ps, t :: ts, given =>
      match matchFrom p t given with
      | some extended => matchAllFrom ps ts extended
      | none => none
  | [], _ :: _, _ => none
  | _ :: _, [], _ => none

end

/-- The bindings of a pattern that make it the term. -/
def matchTerm? (pattern t : Term) : Option Bindings :=
  matchFrom pattern t OrderedMap.empty

mutual

/-- Replaces bound variables; others stay. -/
def substitute (b : Bindings) : Term -> Term
  | .var v => if v.isAnonymous then .var v else (b.get? v.text).getD (.var v)
  | .compound f args => .compound f (substituteAll b args)
  | .atom n => .atom n
  | .number n => .number n
  | .text s => .text s

/-- Replaces bound variables in a list of terms. -/
def substituteAll (b : Bindings) : List Term -> List Term
  | [] => []
  | t :: ts => substitute b t :: substituteAll b ts

end

theorem substituteAll_eq_map (b : Bindings) (ts : List Term) :
    substituteAll b ts = ts.map (substitute b) := by
  induction ts with
  | nil => rfl
  | cons t ts ih => simp [substituteAll, ih]

end Term

namespace Compound

/-- The bindings of a pattern that make it the compound. -/
def matchCompound? (pattern c : Compound) : Option Bindings :=
  pattern.toTerm.matchTerm? c.toTerm

/-- Replaces bound variables in the arguments. -/
def substitute (b : Bindings) (c : Compound) : Compound :=
  ⟨c.functor, Term.substituteAll b c.args⟩

end Compound

namespace Bindings

/-- The bindings with every term in canonical form. -/
def canonicalEntries (b : Bindings) : List (String × Term) :=
  b.entries.map fun entry => (entry.1, entry.2.canonical)

/-- The same names are bound to the same terms, in whatever order. -/
def same (a b : Bindings) : Bool :=
  a.canonicalEntries.all b.canonicalEntries.contains &&
    b.canonicalEntries.all a.canonicalEntries.contains

end Bindings
end EventCalculus
