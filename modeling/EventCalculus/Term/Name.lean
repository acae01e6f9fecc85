/-!
# Names

Names of atoms, variables and functors.  An atom may have any name that is not
empty.  The other two are identifiers, and an identifier may carry one line feed
at its end.
-/

namespace EventCalculus

/-- A letter, digit or underscore of the ASCII range. -/
def isWordChar (c : Char) : Bool :=
  c.isAlphanum || c == '_'

/-- A letter or underscore of the ASCII range. -/
def isWordStart (c : Char) : Bool :=
  c.isAlpha || c == '_'

theorem isWordStart_eq (c : Char) : isWordStart c = (c.isUpper || c.isLower || c == '_') := by
  rfl

/-- What may follow the word characters of an identifier. -/
def isIdentifierEnd : List Char -> Bool
  | [] => true
  | [c] => c == '\n'
  | _ => false

/-- An identifier whose first character is of the given class. -/
def isIdentifier (start : Char -> Bool) : List Char -> Bool
  | [] => false
  | c :: rest => start c && isIdentifierEnd (rest.dropWhile isWordChar)

/-- An identifier that starts with a small letter. -/
def isFunctorText (s : String) : Bool :=
  isIdentifier Char.isLower s.toList

/-- The first character of a variable is a capital letter or an underscore. -/
def isVariableStart (c : Char) : Bool :=
  c.isUpper || c == '_'

/-- An identifier that starts with a capital letter or an underscore. -/
def isVariableText (s : String) : Bool :=
  isIdentifier isVariableStart s.toList

/-- The name of a symbolic constant. -/
structure AtomName where
  text : String
  nonempty : text ≠ ""
deriving DecidableEq

/-- The name of a variable. -/
structure VariableName where
  text : String
  valid : isVariableText text = true
deriving DecidableEq

/-- The name of a verb or a fluent domain. -/
structure Functor where
  text : String
  valid : isFunctorText text = true
deriving DecidableEq

/-- The name, if the text is not empty. -/
def AtomName.ofText? (s : String) : Option AtomName :=
  if h : s ≠ "" then some ⟨s, h⟩ else none

/-- The name, if the text is an identifier of a variable. -/
def VariableName.ofText? (s : String) : Option VariableName :=
  if h : isVariableText s = true then some ⟨s, h⟩ else none

/-- The name, if the text is an identifier of a functor. -/
def Functor.ofText? (s : String) : Option Functor :=
  if h : isFunctorText s = true then some ⟨s, h⟩ else none

/-- The variable that matches anything and is never bound. -/
def VariableName.isAnonymous (v : VariableName) : Bool :=
  v.text == "_"

theorem Functor.text_ne_empty (f : Functor) : f.text ≠ "" := by
  intro h
  have hvalid := f.valid
  rw [h] at hvalid
  simp [isFunctorText, isIdentifier] at hvalid

/-- A functor's name as the name of an atom. -/
def Functor.toAtomName (f : Functor) : AtomName :=
  ⟨f.text, f.text_ne_empty⟩

/-- The atom's name can be written without quotes. -/
def AtomName.isPlain (n : AtomName) : Bool :=
  isFunctorText n.text

end EventCalculus
