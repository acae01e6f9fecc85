import EventCalculus.Numeric.Number
import EventCalculus.Term.Name

/-!
# Terms

Terms describe events, fluents and the patterns that query them.  A term is an
atom, a number, a text, a variable, or a functor applied to a list of terms.

Two terms are the same when they have the same shape and their numbers have the
same values; `canonical` picks one term of every class.
-/

namespace EventCalculus

/-- A symbolic constant, a number, a text, a variable or a compound. -/
inductive Term where
  | atom (name : AtomName)
  | number (value : Number)
  | text (value : String)
  | var (name : VariableName)
  | compound (functor : Functor) (args : List Term)

instance : Inhabited Term := ⟨.text ""⟩

namespace Term

/-!
# Equality of terms
-/

mutual

/-- Decides equality of terms. -/
def decEq : (a b : Term) -> Decidable (a = b)
  | .atom m, .atom n => decidable_of_iff (m = n) (by simp)
  | .number m, .number n => decidable_of_iff (m = n) (by simp)
  | .text m, .text n => decidable_of_iff (m = n) (by simp)
  | .var m, .var n => decidable_of_iff (m = n) (by simp)
  | .compound f xs, .compound g ys =>
      have := decEqAll xs ys
      decidable_of_iff (f = g ∧ xs = ys) (by simp)
  | .atom _, .number _ | .atom _, .text _ | .atom _, .var _ | .atom _, .compound _ _
  | .number _, .atom _ | .number _, .text _ | .number _, .var _ | .number _, .compound _ _
  | .text _, .atom _ | .text _, .number _ | .text _, .var _ | .text _, .compound _ _
  | .var _, .atom _ | .var _, .number _ | .var _, .text _ | .var _, .compound _ _
  | .compound _ _, .atom _ | .compound _ _, .number _ | .compound _ _, .text _
  | .compound _ _, .var _ => isFalse (by simp)

/-- Decides equality of lists of terms. -/
def decEqAll : (xs ys : List Term) -> Decidable (xs = ys)
  | [], [] => isTrue rfl
  | x :: xs, y :: ys =>
      have := decEq x y
      have := decEqAll xs ys
      decidable_of_iff (x = y ∧ xs = ys) (by simp)
  | [], _ :: _ | _ :: _, [] => isFalse (by simp)

end

instance : DecidableEq Term := decEq

mutual

/-- The term with every number in canonical form. -/
def canonical : Term -> Term
  | .number n => .number n.canonical
  | .compound f args => .compound f (canonicalAll args)
  | .atom n => .atom n
  | .text s => .text s
  | .var v => .var v

/-- The terms with every number in canonical form. -/
def canonicalAll : List Term -> List Term
  | [] => []
  | t :: ts => canonical t :: canonicalAll ts

end

/-- The two terms differ at most in the kind of numbers of equal value. -/
def same (a b : Term) : Bool :=
  a.canonical = b.canonical

/-!
# Variables, groundness and depth
-/

mutual

/-- No variable occurs. -/
def isGround : Term -> Bool
  | .var _ => false
  | .compound _ args => isGroundAll args
  | .atom _ | .number _ | .text _ => true

/-- No variable occurs in any of the terms. -/
def isGroundAll : List Term -> Bool
  | [] => true
  | t :: ts => isGround t && isGroundAll ts

end

mutual

/-- The occurrences of named variables from left to right. -/
def occurrences : Term -> List String
  | .var v => if v.isAnonymous then [] else [v.text]
  | .compound _ args => occurrencesAll args
  | .atom _ | .number _ | .text _ => []

/-- The occurrences of named variables in a list of terms from left to right. -/
def occurrencesAll : List Term -> List String
  | [] => []
  | t :: ts => occurrences t ++ occurrencesAll ts

end

/-- The names of the named variables in the order of their first occurrence. -/
def variableNames (t : Term) : List String :=
  t.occurrences.eraseDups

mutual

/-- The nesting depth; a compound is one deeper than its deepest argument. -/
def depth : Term -> Nat
  | .compound _ args => 1 + depthAll args
  | .atom _ | .number _ | .text _ | .var _ => 1

/-- The depth of the deepest term, zero if there is none. -/
def depthAll : List Term -> Nat
  | [] => 0
  | t :: ts => max (depth t) (depthAll ts)

end

theorem canonicalAll_eq_map (ts : List Term) :
    canonicalAll ts = ts.map canonical := by
  induction ts with
  | nil => rfl
  | cons t ts ih => simp [canonicalAll, ih]

end Term

/-!
# Compounds
-/

/-- A functor applied to arguments, the shape of events and fluents. -/
structure Compound where
  functor : Functor
  args : List Term
deriving DecidableEq

namespace Compound

/-- A compound as a term. -/
def toTerm (c : Compound) : Term :=
  .compound c.functor c.args

instance : Coe Compound Term := ⟨toTerm⟩

/-- The compound that a term is, if it is one. -/
def ofTerm? : Term -> Option Compound
  | .compound functor args => some ⟨functor, args⟩
  | .atom _ | .number _ | .text _ | .var _ => none

/-- The number of arguments. -/
def arity (c : Compound) : Nat :=
  c.args.length

/-- No variable occurs. -/
def isGround (c : Compound) : Bool :=
  c.toTerm.isGround

/-- The compound with every number in canonical form. -/
def canonical (c : Compound) : Compound :=
  ⟨c.functor, Term.canonicalAll c.args⟩

/-- The two compounds differ at most in the kind of numbers of equal value. -/
def same (a b : Compound) : Bool :=
  a.canonical = b.canonical

end Compound
end EventCalculus
