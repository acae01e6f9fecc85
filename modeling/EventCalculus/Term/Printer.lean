import EventCalculus.Term.Basic
import EventCalculus.Text.Quoted

/-!
# Texts of terms

`Term.render` writes the surface form: identifiers as they are, other atoms in
single quotes, texts in double quotes, and compounds with their arguments in
parentheses.  `Term.inspect` writes the structural form that messages show.
-/

namespace EventCalculus
namespace Term

/-!
# The surface form
-/

/-- One character between the quotes of an atom or a text. -/
def escapeChar (quote c : Char) : List Char :=
  if c = '\\' then ['\\', '\\']
  else if c = quote then ['\\', quote]
  else if c = '\n' then ['\\', 'n']
  else if c = '\t' then ['\\', 't']
  else [c]

/-- Characters between quotes, with escapes. -/
def enclose (quote : Char) (body : List Char) : List Char :=
  quote :: body.flatMap (escapeChar quote) ++ [quote]

mutual

/-- The characters of the surface form. -/
def renderChars : Term -> List Char
  | .atom n => if n.isPlain then n.text.toList else enclose '\'' n.text.toList
  | .text s => enclose '"' s.toList
  | .number n => n.chars
  | .var v => v.text.toList
  | .compound f args => f.text.toList ++ '(' :: renderAll args ++ [')']

/-- The characters of an argument list, with a comma and a space between neighbours. -/
def renderAll : List Term -> List Char
  | [] => []
  | [t] => renderChars t
  | t :: ts => renderChars t ++ ',' :: ' ' :: renderAll ts

end

/-- The surface form of a term. -/
def render (t : Term) : String :=
  String.ofList t.renderChars

/-!
# The structural form
-/

mutual

/-- The structural form of a term. -/
def inspect : Term -> String
  | .atom n => "Atom(name=" ++ Text.quoted n.text ++ ")"
  | .number n => "Number(value=" ++ n.render ++ ")"
  | .text s => "Text(value=" ++ Text.quoted s ++ ")"
  | .var v => "Variable(name=" ++ Text.quoted v.text ++ ")"
  | .compound f args =>
      "Compound(functor=" ++ Text.quoted f.text ++ ", args=(" ++ inspectAll args ++ "))"

/-- The structural forms of arguments; a single one is followed by a comma. -/
def inspectAll : List Term -> String
  | [] => ""
  | [t] => inspect t ++ ","
  | t :: ts => inspect t ++ ", " ++ inspectRest ts

/-- The structural forms of the arguments after the first one. -/
def inspectRest : List Term -> String
  | [] => ""
  | [t] => inspect t
  | t :: ts => inspect t ++ ", " ++ inspectRest ts

end

end Term

/-- The surface form of a compound. -/
def Compound.render (c : Compound) : String :=
  c.toTerm.render

end EventCalculus
