import EventCalculus.Text.Blank
import EventCalculus.Text.Lowercase

/-!
# Commands

A command is a name, which may be written in any case, and an argument after the
first space.  Times are given after the last at sign of an argument.
-/

namespace EventCalculus

/-- What a command line asks for. -/
inductive Command where
  | leave
  | assert (argument : String)
  | query (argument : String)
  | holds (argument : String)
  | state (argument : String)
  | ever (argument : String)
  | timeline (argument : String)
  | events
  | now (argument : String)
  | learn (argument : String)
  | save
  | reset
  | help
  | unknown (name : String)
deriving DecidableEq

/-- The text before the last at sign and the time after it, both trimmed; an empty time is
none. -/
def splitTime (argument : String) : String × Option String :=
  match Text.cutLast? '@' argument.toList with
  | none => (Text.trim argument, none)
  | some (before, after) =>
      let time := Text.trimChars after
      (String.ofList (Text.trimChars before), if time.isEmpty then none else some (String.ofList time))

namespace Command

/-- The names that end a session without a slash. -/
def isLeaveWord (name : String) : Bool :=
  name == "exit" || name == "quit"

/-- The command of a name and an argument. -/
def ofParts (name argument : String) : Command :=
  match name with
  | "/exit" | "/quit" | "exit" | "quit" => .leave
  | "/assert" => .assert argument
  | "/query" => .query argument
  | "/holds" => .holds argument
  | "/state" => .state argument
  | "/ever" => .ever argument
  | "/timeline" => .timeline argument
  | "/events" => .events
  | "/now" => .now argument
  | "/learn" => .learn argument
  | "/save" => .save
  | "/reset" => .reset
  | "/help" => .help
  | _ => .unknown name

/-- The command of a line. -/
def ofLine (line : String) : Command :=
  let (name, argument) := Text.cutFirst ' ' (Text.trimChars line.toList)
  ofParts (String.ofList (Text.lowerChars name)) (String.ofList (Text.trimChars argument))

end Command
end EventCalculus
