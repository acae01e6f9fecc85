import EventCalculus.Json.Token
import EventCalculus.Term.Parser

/-!
# Reading JSON

One pass over the tokens with a stack of open lists and objects.  A fault is
reported with the place where something else was expected.

The fields of an object keep the order of their first occurrence; a repeated key
takes its last value.
-/

namespace EventCalculus
namespace Json

/-- What was expected or found where reading stopped. -/
inductive Reason where
  | byteOrderMark
  | value
  | key
  | colon
  | comma
  | extraData
  | text (fault : TextFault)
deriving DecidableEq

/-- The wording of a reason. -/
def Reason.wording : Reason -> String
  | .byteOrderMark => "Unexpected UTF-8 BOM (decode using utf-8-sig)"
  | .value => "Expecting value"
  | .key => "Expecting property name enclosed in double quotes"
  | .colon => "Expecting ':' delimiter"
  | .comma => "Expecting ',' delimiter"
  | .extraData => "Extra data"
  | .text .unterminated => "Unterminated string starting at"
  | .text .control => "Invalid control character at"
  | .text .escape => "Invalid \\escape"
  | .text .unicodeEscape => "Invalid \\uXXXX escape"

/-- Why a token list is no value: a reason and a place, or an integer that is too long. -/
inductive Fault where
  | malformed (reason : Reason) (place : Nat)
  | tooManyDigits (count : Nat)

/-- A text that is no JSON. -/
inductive ReadFault where
  | malformed (reason : Reason) (document : List Char) (position : Nat)
  | tooManyDigits (count : Nat)

/-- A reason with its position as line, column and offset. -/
def describe (reason : Reason) (document : List Char) (position : Nat) : String :=
  let before := document.take position
  let line := before.count '\n' + 1
  let column := (before.reverse.takeWhile (· ≠ '\n')).length + 1
  reason.wording ++ ": line " ++ toString line ++ " column " ++ toString column ++
    " (char " ++ toString position ++ ")"

/-- What is said about a text that is no JSON. -/
def ReadFault.message : ReadFault -> String
  | .malformed reason document position => describe reason document position
  | .tooManyDigits count => tooManyDigitsMessage count

/-- An open list, or an open object with the key whose value comes next; contents are reversed. -/
inductive Frame where
  | list (items : List Value)
  | object (fields : List (String × Value)) (key : String)

/-- The object of a list of fields. -/
def objectOf (fields : List (String × Value)) : Value :=
  .object (fields.foldl (fun entries field => insertEntry field.1 field.2 entries) [])

/-- The fault of a token where a value was expected. -/
def valueFault (t : Placed) : Fault :=
  match t.token with
  | .broken fault place => .malformed (.text fault) place
  | _ => .malformed .value t.place

/-- The fault of a token where a key was expected. -/
def keyFault (t : Placed) : Fault :=
  match t.token with
  | .broken fault place => .malformed (.text fault) place
  | _ => .malformed .key t.place

/-- The place of the first token, zero at the end of the text. -/
def placeOf : List Placed -> Nat
  | [] => 0
  | t :: _ => t.place

mutual

/-- Reads a value. -/
def readValue (frames : List Frame) : List Placed -> Except Fault Value
  | [] => .error (.malformed .value 0)
  | ⟨.text s, _⟩ :: rest => afterValue (.text s) frames rest
  | ⟨.word v, _⟩ :: rest => afterValue v frames rest
  | ⟨.number (.ok n), _⟩ :: rest => afterValue (.number n) frames rest
  | ⟨.number (.error count), _⟩ :: _ => .error (.tooManyDigits count)
  | ⟨.openBracket, _⟩ :: ⟨.closeBracket, _⟩ :: rest => afterValue (.list []) frames rest
  | ⟨.openBracket, _⟩ :: rest => readValue (.list [] :: frames) rest
  | ⟨.openBrace, _⟩ :: ⟨.closeBrace, _⟩ :: rest => afterValue (.object []) frames rest
  | ⟨.openBrace, _⟩ :: rest => readKey [] frames rest
  | t :: _ => .error (valueFault t)

/-- Reads a key, its colon and its value; `fields` are those read so far, the last one first. -/
def readKey (fields : List (String × Value)) (frames : List Frame) :
    List Placed -> Except Fault Value
  | [] => .error (.malformed .key 0)
  | ⟨.text key, _⟩ :: ⟨.colon, _⟩ :: rest => readValue (.object fields key :: frames) rest
  | ⟨.text _, _⟩ :: rest => .error (.malformed .colon (placeOf rest))
  | t :: _ => .error (keyFault t)

/-- Continues after a complete value. -/
def afterValue (v : Value) (frames : List Frame) : List Placed -> Except Fault Value
  | [] =>
      match frames with
      | [] => .ok v
      | _ :: _ => .error (.malformed .comma 0)
  | t :: rest =>
      match frames, t.token with
      | [], _ => .error (.malformed .extraData t.place)
      | .list items :: outer, .closeBracket => afterValue (.list (v :: items).reverse) outer rest
      | .list items :: outer, .comma => readValue (.list (v :: items) :: outer) rest
      | .object fields key :: outer, .closeBrace =>
          afterValue (objectOf ((key, v) :: fields).reverse) outer rest
      | .object fields key :: outer, .comma => readKey ((key, v) :: fields) outer rest
      | _, _ => .error (.malformed .comma t.place)

end

/-- The value that a JSON text denotes. -/
def parse (source : String) : Except ReadFault Value :=
  let document := source.toList
  if document.head? = some (Char.ofNat 0xFEFF) then
    .error (.malformed .byteOrderMark document 0)
  else
    match readValue [] (readAll document) with
    | .ok v => .ok v
    | .error (.malformed reason place) =>
        .error (.malformed reason document (document.length - place))
    | .error (.tooManyDigits count) => .error (.tooManyDigits count)

end Json
end EventCalculus
