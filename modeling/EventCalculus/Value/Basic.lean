import EventCalculus.OrderedMap
import EventCalculus.Term.Basic

/-!
# Dynamic values

Rule records, settings, replies of a language model and details of audit entries
are trees of dynamic values.  A term can stand for a leaf of such a tree.
-/

namespace EventCalculus

/-- A tree of dynamic values. -/
inductive Value where
  | null
  | bool (value : Bool)
  | number (value : Number)
  | nan
  | text (value : String)
  | list (items : List Value)
  | object (fields : List (String × Value))
  | term (value : Term)

instance : Inhabited Value := ⟨.null⟩

namespace Value

/-- An integer as a value. -/
def int (n : Int) : Value :=
  .number (.int n)

/-- The value is absent. -/
def isNull : Value -> Bool
  | .null => true
  | _ => false

/-- The field of an object with a key; other values have no fields. -/
def field? (v : Value) (key : String) : Option Value :=
  match v with
  | .object fields => findValue? key fields
  | _ => none

/-- The text that a value is. -/
def text? : Value -> Option String
  | .text s => some s
  | _ => none

/-- The items of a list. -/
def items? : Value -> Option (List Value)
  | .list items => some items
  | _ => none

/-- The term that a value is. -/
def term? : Value -> Option Term
  | .term t => some t
  | _ => none

/-- The value counts as an affirmative answer. -/
def isTruthy : Value -> Bool
  | .null => false
  | .bool b => b
  | .number (.int n) => n != 0
  | .number (.float x) => !x.isZero
  | .nan => true
  | .text s => s != ""
  | .list items => !items.isEmpty
  | .object fields => !fields.isEmpty
  | .term _ => true

/-- The name of the kind of a term. -/
def termKind : Term -> String
  | .atom _ => "Atom"
  | .number _ => "Number"
  | .text _ => "Text"
  | .var _ => "Variable"
  | .compound _ _ => "Compound"

/-- The name of the kind of a value. -/
def kind : Value -> String
  | .null => "NoneType"
  | .bool _ => "bool"
  | .number (.int _) => "int"
  | .number (.float _) | .nan => "float"
  | .text _ => "str"
  | .list _ => "list"
  | .object _ => "dict"
  | .term t => termKind t

/-- The number that a value counts as; the truth values count as one and zero. -/
def asNumber? : Value -> Option Number
  | .bool b => some (.int (if b then 1 else 0))
  | .number n => some n
  | _ => none

/-!
# Equality up to numeric value
-/

/-- Leaves that are equal as numbers, texts, terms or absences. -/
def sameLeaf (a b : Value) : Bool :=
  match a.asNumber?, b.asNumber? with
  | some m, some n => m.same n
  | some _, none | none, some _ => false
  | none, none =>
      match a, b with
      | .null, .null => true
      | .text s, .text t => s == t
      | .term s, .term t => s.same t
      | _, _ => false

mutual

/-- The values are equal, numbers by value and objects in any order of fields. -/
def same : Value -> Value -> Bool
  | .list xs, b => match b with
      | .list ys => sameItems xs ys
      | _ => false
  | .object fields, b => match b with
      | .object others => fields.length == others.length && sameFields fields others
      | _ => false
  | .null, b => sameLeaf .null b
  | .bool x, b => sameLeaf (.bool x) b
  | .number n, b => sameLeaf (.number n) b
  | .nan, _ => false
  | .text s, b => sameLeaf (.text s) b
  | .term t, b => sameLeaf (.term t) b

/-- The lists are equal item by item. -/
def sameItems : List Value -> List Value -> Bool
  | [], [] => true
  | x :: xs, y :: ys => same x y && sameItems xs ys
  | [], _ :: _ | _ :: _, [] => false

/-- Every field has an equal one of the same key among the others. -/
def sameFields : List (String × Value) -> List (String × Value) -> Bool
  | [], _ => true
  | (key, value) :: rest, others =>
      (match findValue? key others with
        | some other => same value other
        | none => false) && sameFields rest others

end

end Value
end EventCalculus
