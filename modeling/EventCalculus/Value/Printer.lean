import EventCalculus.Term.Printer
import EventCalculus.Text.Blank
import EventCalculus.Value.Basic

/-!
# Texts of dynamic values

`Value.inspect` shows the structure of a value, with every text in quotes;
`Value.display` shows a text or a term as it is and all else by its structure.
-/

namespace EventCalculus
namespace Value

mutual

/-- The structure of a value. -/
def inspect : Value -> String
  | .null => "None"
  | .bool b => if b then "True" else "False"
  | .number n => n.render
  | .nan => "nan"
  | .text s => Text.quoted s
  | .list items => "[" ++ Text.join ", " (inspectItems items) ++ "]"
  | .object fields => "\x7b" ++ Text.join ", " (inspectFields fields) ++ "\x7d"
  | .term t => t.inspect

/-- The structures of items. -/
def inspectItems : List Value -> List String
  | [] => []
  | v :: vs => inspect v :: inspectItems vs

/-- The keys and structures of fields. -/
def inspectFields : List (String × Value) -> List String
  | [] => []
  | (key, v) :: rest => (Text.quoted key ++ ": " ++ inspect v) :: inspectFields rest

end

/-- A value as it reads in running text. -/
def display (v : Value) : String :=
  match v with
  | .text s => s
  | .term t => t.render
  | _ => v.inspect

end Value
end EventCalculus
