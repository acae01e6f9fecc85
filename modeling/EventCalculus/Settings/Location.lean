import EventCalculus.Text.Blank

/-!
# Locations

Places in a file system in normal form: empty parts and single points are
dropped.  Exactly two slashes at the start are a root of their own.
-/

namespace EventCalculus

/-- A root, which is empty for a relative location, and the parts below it. -/
structure Location where
  root : String
  parts : List String
deriving DecidableEq

namespace Location

/-- The root of a text: nothing, one slash, or exactly two. -/
def rootOf (cs : List Char) : String :=
  match (cs.takeWhile (· = '/')).length with
  | 0 => ""
  | 2 => "//"
  | _ => "/"

/-- The parts of a text. -/
def partsOf (cs : List Char) : List String :=
  ((Text.pieces '/' cs).filter fun part => part ≠ [] ∧ part ≠ ['.']).map String.ofList

/-- The location that a text names. -/
def ofText (s : String) : Location :=
  ⟨rootOf s.toList, partsOf s.toList⟩

/-- The text of a location; the empty one is a point. -/
def text (l : Location) : String :=
  if l.root = "" && l.parts.isEmpty then "." else l.root ++ Text.join "/" l.parts

/-- The location below another one. -/
def append (l : Location) (parts : List String) : Location :=
  ⟨l.root, l.parts ++ parts⟩

/-- The location with a tilde in front replaced by the home directory; the homes of others are
not known. -/
def expand? (l home : Location) : Option Location :=
  match l.root, l.parts with
  | "", first :: rest =>
      if first = "~" then some (home.append rest)
      else if first.toList.head? = some '~' then none
      else some l
  | _, _ => some l

end Location
end EventCalculus
