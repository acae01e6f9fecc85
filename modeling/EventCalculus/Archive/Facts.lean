import EventCalculus.Archive.Basic
import EventCalculus.Text.Blank

/-!
# Fact files

A fact file has one event on every line.  Blank lines and lines that start with a
percent sign are skipped, and a point may end a line.  All lines are read before
the first event is saved.
-/

namespace EventCalculus

/-- The event and the timestamp text of a fact. -/
def factParts? (t : Term) : Option (Term × String) :=
  match t with
  | .compound f [description, .text timestamp] =>
      if f.text = "happens" then some (description, timestamp) else none
  | _ => none

/-- The line without a point at its end. -/
def dropFinalPoint (cs : List Char) : List Char :=
  if cs.getLast? = some '.' then cs.dropLast else cs

/-- The occurrence on a line. -/
def readFact (number : Nat) (cs : List Char) : Except Fault (Compound × String) :=
  match Term.parse (String.ofList (dropFinalPoint cs)) with
  | .error fault => .error (.line number (.syntaxFault fault))
  | .ok t =>
      match factParts? t with
      | none => .error (.line number .shape)
      | some (description, moment) =>
          match (Compound.ofTerm? description).filter Compound.isGround with
          | none => .error (.line number .event)
          | some c => (timestampOf (.text moment)).map fun timestamp => (c, timestamp)

/-- The line holds no fact. -/
def isSkipped (cs : List Char) : Bool :=
  cs.isEmpty || cs.head? == some '%'

/-- The occurrences on lines, the first of which has the given number. -/
def readFacts (number : Nat) : List (List Char) -> Except Fault (List (Compound × String))
  | [] => .ok []
  | line :: rest => do
      let cs := Text.trimChars line
      if isSkipped cs then
        readFacts (number + 1) rest
      else
        let fact ← readFact number cs
        let facts ← readFacts (number + 1) rest
        return fact :: facts

namespace Archive

/-- Saves the facts of a text and counts the new ones; nothing is saved if a line is no fact. -/
def importFacts (a : Archive) (source : String) : Except Fault (Nat × Archive) :=
  (readFacts 1 (Text.lines source.toList)).map a.saveAll

/-- The archived events as a fact file. -/
def exportFacts (a : Archive) : Except Fault String :=
  (a.loadEvents none none).map fun events =>
    String.join (events.map fun e => e.text ++ ".\n")

end Archive
end EventCalculus
