import EventCalculus.Archive.Facts
import EventCalculus.Archive.Snapshot
import EventCalculus.Console.Banner
import EventCalculus.Console.Command
import EventCalculus.Memory

/-!
# Console sessions

A session executes commands on an engine and an archive and shows what they
answer.  A fault that rejects what was given is shown and the session goes on;
any other fault ends it.
-/

namespace EventCalculus

/-- An engine, an archive with the name of its file, and perhaps a memory. -/
structure Console where
  engine : Engine
  archive : Archive
  archiveFile : String
  memory : Option Memory

/-- What executing something gives: an answer or a fault, the text shown, the warnings, and the
console after it. -/
structure Shown (α : Type) where
  answer : Except Fault α
  output : String
  warnings : List Warning
  console : Console

/-- A line of output. -/
def showLine (text : String) : String :=
  text ++ "\n"

/-- Lines of output. -/
def showLines (lines : List String) : String :=
  String.join (lines.map showLine)

/-- Bindings as they are shown; the empty ones affirm. -/
def bindingsText (b : Bindings) : String :=
  if b.isEmpty then "yes"
  else Text.join ", " (b.entries.map fun (name, t) => name ++ " = " ++ t.render)

/-- An identifier as wide as four characters. -/
def idText (id : Nat) : String :=
  let digits := toString id
  String.ofList (List.replicate (4 - digits.length) ' ') ++ digits

namespace Console

/-- The mark of an event that was stored. -/
def storedText (c : Console) (id : Nat) : String :=
  "✓ " ++ (match c.engine.store.get? id with
    | some e => e.text
    | none => "None")

/-- Asserts an event, at the current date unless a time is given. -/
def assertCommand (c : Console) (argument : String) : Except Fault String × Console :=
  let (source, time) := splitTime argument
  let (id, engine) :=
    c.engine.assertEvent (.text source) (.text (time.getD c.engine.currentDate))
  let c := { c with engine := engine }
  (id.map fun n => showLine (c.storedText n), c)

/-- Asks an engine at the time of an argument. -/
def ask (c : Console) (argument : String) (present : List Bindings -> String) :
    Except Fault String × Console :=
  let (source, time) := splitTime argument
  let (answers, engine) := c.engine.query (.text source) (time.map Moment.text)
  (answers.map present, { c with engine := engine })

/-- The answers to a query. -/
def answersText (answers : List Bindings) : String :=
  if answers.isEmpty then showLine "no" else showLines (answers.map bindingsText)

/-- Whether anything holds. -/
def holdsText (answers : List Bindings) : String :=
  showLine (if answers.isEmpty then "no" else "yes")

/-- Lists what holds. -/
def stateText (holdings : List Holding) : String :=
  if holdings.isEmpty then showLine "Nothing holds."
  else showLines (holdings.map fun h => h.fluent.render ++ "  (since " ++ h.since ++ ")")

/-- Lists intervals. -/
def timelineText (intervals : List Interval) : String :=
  if intervals.isEmpty then showLine "Never held."
  else showLines (intervals.map fun i =>
    i.fluent.render ++ "  " ++ i.start ++ " → " ++ i.stop.getD "now")

/-- Lists events. -/
def eventsText (events : List Event) : String :=
  if events.isEmpty then showLine "No events."
  else showLines (events.map fun e => idText e.id ++ "  " ++ e.text)

/-- Shows the current date, after changing it if a time is given. -/
def nowCommand (c : Console) (argument : String) : Except Fault String × Console :=
  let (done, engine) : Except Fault String × Engine :=
    if argument = "" then (.ok "", c.engine) else c.engine.setCurrentDate (.text argument)
  (done.map fun _ => showLine ("Current date: " ++ engine.currentDate),
    { c with engine := engine })

/-- Learns the record of a verb. -/
def learnData (c : Console) (verb : String) (fields : List (String × Value)) :
    Except Fault String × Console :=
  let data : Value := .object (insertEntry "verb" (.text verb) fields)
  let (added, engine) := c.engine.learn (.data data)
  (added.map fun rules =>
    showLine ("✓ " ++ toString rules.length ++ " rule(s) registered for " ++ verb),
    { c with engine := engine })

/-- Reads the record of a verb and learns it. -/
def learnCommand (c : Console) (argument : String) : Except Fault String × Console :=
  let (verb, payload) := Text.cutFirst ' ' argument.toList
  if verb.isEmpty || payload.all Text.isBlank then
    (.ok (showLine "Usage: /learn <verb> <json>"), c)
  else
    match Json.parse (String.ofList payload) with
    | .error (.tooManyDigits count) => (.error (.numeral count), c)
    | .error fault => (.ok (showLine ("❌ Invalid JSON: " ++ fault.message)), c)
    | .ok (.object fields) => c.learnData (String.ofList verb) fields
    | .ok _ => (.ok (showLine "❌ Rule record must be a JSON object"), c)

/-- Archives the events and records of the engine. -/
def saveCommand (c : Console) : Except Fault String × Console :=
  let (count, archive) := c.archive.snapshot c.engine
  (.ok (showLine ("✓ Archived " ++ toString count ++ " new event(s) to " ++ c.archiveFile)),
    { c with archive := archive })

/-- Drops events and learned rules. -/
def resetCommand (c : Console) : Except Fault String × Console :=
  (.ok (showLine "✓ Engine reset. Built-in rules kept."),
    { c with engine := c.engine.reset, memory := c.memory.map Memory.forgetLearned })

/-- What a command other than leaving shows. -/
def perform (c : Console) : Command -> Except Fault String × Console
  | .assert argument => c.assertCommand argument
  | .query argument => c.ask argument answersText
  | .holds argument => c.ask argument holdsText
  | .state argument =>
      let moment := if argument = "" then none else some (.text argument)
      ((c.engine.allHolding moment).map stateText, c)
  | .ever argument =>
      let (answer, engine) := c.engine.everHeld (.text argument)
      (answer.map fun held => showLine (if held then "yes" else "no"), { c with engine := engine })
  | .timeline argument =>
      let (intervals, engine) := c.engine.timeline (.text argument)
      (intervals.map timelineText, { c with engine := engine })
  | .events => ((c.engine.events none none).map eventsText, c)
  | .now argument => c.nowCommand argument
  | .learn argument => c.learnCommand argument
  | .save => c.saveCommand
  | .reset => c.resetCommand
  | .help => (.ok (showLine banner), c)
  | .unknown name =>
      (.ok (showLine ("Unknown command: " ++ name ++ ". Type /help for commands.")), c)
  | .leave => (.ok "", c)

/-- Shows a fault that rejects what was given. -/
def shownFault (f : Fault) : String :=
  showLine ("❌ " ++ f.message)

/-- Executes a command line and tells whether to go on. -/
def handle (c : Console) (line : String) : Shown Bool :=
  match Command.ofLine line with
  | .leave => ⟨.ok false, "\n👋 Goodbye!\n", [], c⟩
  | command =>
      match c.perform command with
      | (.ok output, c) => ⟨.ok true, output, [], c⟩
      | (.error fault, c) =>
          if fault.isRejection then ⟨.ok true, shownFault fault, [], c⟩
          else ⟨.error fault, "", [], c⟩

/-- Records the events of a statement. -/
def remember (c : Console) (statement : String) : Shown Unit :=
  match c.memory with
  | none =>
      ⟨.ok (), showLine
        "Unknown input. Type /help for commands (free text needs GROQ_API_KEY).", [], c⟩
  | some memory =>
      let (ids, s) := MemoryState.remember ⟨memory, c.engine, []⟩ statement none
      let c := { c with engine := s.engine, memory := some s.memory }
      match ids with
      | .ok [] => ⟨.ok (), showLine "Nothing to remember.", s.warnings, c⟩
      | .ok ids => ⟨.ok (), showLines (ids.map c.storedText), s.warnings, c⟩
      | .error fault =>
          if fault.isRejection then ⟨.ok (), shownFault fault, s.warnings, c⟩
          else ⟨.error fault, "", s.warnings, c⟩

end Console
end EventCalculus
