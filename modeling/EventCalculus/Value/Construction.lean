import EventCalculus.Term.Match
import EventCalculus.Value.Printer

/-!
# Terms out of values

Building terms from dynamic values, and matching and substitution where a value
that is no term may stand on either side.
-/

namespace EventCalculus

/-- Why values do not make a term. -/
inductive TermFault where
  | atomName (given : Value)
  | numberValue (given : Value)
  | textValue (given : Value)
  | variableName (given : Value)
  | functorName (given : Value)
  | argumentList (given : Value)
  | argument (functor : Functor) (given : Value)
  | truthValue (given : Value)
  | leaf (given : Value)

namespace TermFault

/-- What is said about values that do not make a term. -/
def message : TermFault -> String
  | .atomName v => "Atom name must be a non-empty string, got " ++ v.inspect
  | .numberValue v => "Number value must be int or float, got " ++ v.inspect
  | .textValue v => "Text value must be a string, got " ++ v.inspect
  | .variableName v =>
      "Variable name must start with an uppercase letter or '_', got " ++ v.inspect
  | .functorName v => "Functor must be a lowercase identifier, got " ++ v.inspect
  | .argumentList v => "Compound args must be a tuple, got " ++ v.kind
  | .argument f v => "Argument of " ++ f.text ++ " is not a term: " ++ v.inspect
  | .truthValue v => "Cannot build a term from a bool: " ++ v.inspect
  | .leaf v => "Cannot build a term from " ++ v.kind ++ ": " ++ v.inspect

end TermFault

namespace Value

/-!
# Constructors
-/

/-- The atom of a name. -/
def toAtom (v : Value) : Except TermFault Term :=
  match v.text?.bind AtomName.ofText? with
  | some name => .ok (.atom name)
  | none => .error (.atomName v)

/-- The number term of a value. -/
def toNumber : Value -> Except TermFault Term
  | .number n => .ok (.number n)
  | v => .error (.numberValue v)

/-- The text term of a value. -/
def toText : Value -> Except TermFault Term
  | .text s => .ok (.text s)
  | v => .error (.textValue v)

/-- The variable of a name. -/
def toVariable (v : Value) : Except TermFault Term :=
  match v.text?.bind VariableName.ofText? with
  | some name => .ok (.var name)
  | none => .error (.variableName v)

/-- The functor of a name. -/
def toFunctor (v : Value) : Except TermFault Functor :=
  match v.text?.bind Functor.ofText? with
  | some f => .ok f
  | none => .error (.functorName v)

/-- The terms that arguments are. -/
def toArguments (f : Functor) : List Value -> Except TermFault (List Term)
  | [] => .ok []
  | .term t :: rest => (toArguments f rest).map (t :: ·)
  | v :: _ => .error (.argument f v)

/-- The compound of a functor and a list of terms. -/
def toCompound (functor args : Value) : Except TermFault Compound := do
  let f ← functor.toFunctor
  match args with
  | .list items => return ⟨f, ← toArguments f items⟩
  | v => .error (.argumentList v)

/-- The term that a value stands for: a term itself, a number or a text. -/
def coerceToTerm : Value -> Except TermFault Term
  | .term t => .ok t
  | .number n => .ok (.number n)
  | .text s => .ok (.text s)
  | .bool b => .error (.truthValue (.bool b))
  | v => .error (.leaf v)

/-- The compound of a functor and the terms that values stand for. -/
def buildCompound (functor : Value) (args : List Value) : Except TermFault Compound := do
  let terms ← args.mapM coerceToTerm
  return ⟨← functor.toFunctor, terms⟩

/-- The constant that a term stands for; variables and compounds stand for their texts. -/
def ofTerm : Term -> Value
  | .atom n => .text n.text
  | .number n => .number n
  | .text s => .text s
  | .var v => .text (Term.var v).render
  | .compound f args => .text (Term.compound f args).render

/-- The term that a value is, or the value that is none. -/
def expectTerm (v : Value) : Except Value Term :=
  match v.term? with
  | some t => .ok t
  | none => .error v

/-!
# Matching and substitution with values
-/

/-- Values bound to variable names, in the order of binding. -/
abbrev Assignments := OrderedMap String Value

namespace Assignments

/-- The assignments that are terms. -/
def bindings (a : Assignments) : Bindings :=
  OrderedMap.ofList (a.entries.filterMap fun (name, v) => v.term?.map fun t => (name, t))

/-- The name is assigned to a value that is neither absent nor a term. -/
def isForeign (a : Assignments) (name : String) : Bool :=
  match a.get? name with
  | none | some .null | some (.term _) => false
  | some _ => true

/-- The assignments overwritten and extended by bindings. -/
def extend (a : Assignments) (b : Bindings) : Assignments :=
  b.entries.foldl (fun m entry => m.insert entry.1 (.term entry.2)) a

end Assignments

/-- Matches a variable with any value; an absent value counts as unassigned. -/
def matchVariable (v : VariableName) (subject : Value) (given : Assignments) :
    Option Assignments :=
  if v.isAnonymous then
    some given
  else
    match given.get? v.text with
    | none | some .null => some (given.insert v.text subject)
    | some bound => if bound.same subject then some given else none

/-- Matches a pattern with a value.  Only a variable meets a value that is no term. -/
def matchPattern (pattern : Term) (subject : Value) (given : Assignments) :
    Option Assignments :=
  match subject, pattern with
  | .term t, _ =>
      if pattern.variableNames.any given.isForeign then
        none
      else
        (pattern.matchFrom t given.bindings).map given.extend
  | _, .var v => matchVariable v subject given
  | _, _ => none

mutual

/-- Replaces variables by their values; an argument has to stay a term. -/
def substitute (a : Assignments) : Term -> Except TermFault Value
  | .var v => .ok (if v.isAnonymous then .term (.var v) else (a.get? v.text).getD (.term (.var v)))
  | .compound f args => do
      let values ← substituteAll a args
      return .term (.compound f (← toArguments f values))
  | .atom n => .ok (.term (.atom n))
  | .number n => .ok (.term (.number n))
  | .text s => .ok (.term (.text s))

/-- Replaces variables in a list of terms. -/
def substituteAll (a : Assignments) : List Term -> Except TermFault (List Value)
  | [] => .ok []
  | t :: ts => do
      let v ← substitute a t
      let vs ← substituteAll a ts
      return v :: vs

end

end Value
end EventCalculus
