import EventCalculus.Text.Blank
import EventCalculus.Text.Lowercase

/-!
# Names out of phrases

A phrase becomes a name of small ASCII letters and digits: its words in lower
case, joined by single underscores.
-/

namespace EventCalculus

/-- A character that names made of phrases keep. -/
def isPhraseChar (c : Char) : Bool :=
  c.isLower || c.isDigit

/-- The words of characters: the maximal runs of those that names keep. -/
def phraseWords (cs : List Char) : List (List Char) :=
  (Text.pieces '_' (cs.map fun c => if isPhraseChar c then c else '_')).filter fun word =>
    !word.isEmpty

/-- The characters of the name of a phrase. -/
def snakeCaseChars (cs : List Char) : List Char :=
  Text.joinPieces '_' (phraseWords (Text.lowerChars cs))

/-- The name of a phrase. -/
def snakeCase (phrase : String) : String :=
  String.ofList (snakeCaseChars phrase.toList)

end EventCalculus
