import EventCalculus.Console.Session

/-!
# The console loop

A session restores its archive and then reads lines until it is left.  Lines
that start with a slash and the words for leaving are commands, other lines are
statements.  An interrupt asks whether to leave; the end of the input leaves.
-/

namespace EventCalculus

/-- What reading a line can give. -/
inductive ConsoleInput where
  | line (text : String)
  | interrupt
deriving DecidableEq

/-- What a line that is not blank gives: whether to go on. -/
def Console.respond (c : Console) (line : String) : Shown Bool :=
  if line.toList.head? = some '/' || Command.isLeaveWord (Text.lower line) then
    c.handle line
  else
    let shown := c.remember line
    ⟨shown.answer.map fun _ => true, shown.output, shown.warnings, shown.console⟩

/-- The farewell on a line of its own. -/
def farewell : String := "\n👋 Goodbye!\n"

/-- The reply to the question after an interrupt affirms it. -/
def isConsent (reply : String) : Bool :=
  let word := Text.lower (Text.trim reply)
  word == "y" || word == "yes"

/-- How a session ended: its answer, what it showed, its warnings, the inputs left, and the
console. -/
structure Ended where
  answer : Except Fault Unit
  output : String
  warnings : List Warning
  unread : List ConsoleInput
  console : Console

/-- The end of a session with further output and warnings before it. -/
def Ended.after (e : Ended) (output : String) (warnings : List Warning) : Ended :=
  { e with output := output ++ e.output, warnings := warnings ++ e.warnings }

namespace Console

/-- Reads inputs until the session is left. -/
def loop (c : Console) : List ConsoleInput -> Ended
  | [] => ⟨.ok (), farewell, [], [], c⟩
  | .line text :: rest =>
      let line := Text.trim text
      if line = "" then
        c.loop rest
      else
        let shown := c.respond line
        match shown.answer with
        | .error fault => ⟨.error fault, shown.output, shown.warnings, rest, shown.console⟩
        | .ok false => ⟨.ok (), shown.output, shown.warnings, rest, shown.console⟩
        | .ok true => (shown.console.loop rest).after shown.output shown.warnings
  | .interrupt :: rest =>
      let notice := "\n\n⚡ Interrupted\n"
      match rest with
      | [] => ⟨.ok (), notice ++ farewell, [], [], c⟩
      | .interrupt :: others => ⟨.ok (), notice ++ farewell, [], others, c⟩
      | .line reply :: others =>
          if isConsent reply then ⟨.ok (), notice ++ "👋 Goodbye!\n", [], others, c⟩
          else (c.loop others).after notice []

/-- What a session shows before it reads: the banner, what was restored, and the date. -/
def opening (c : Console) (restored : Nat) : String :=
  (if restored = 0 then ""
    else showLine ("Restored " ++ toString restored ++ " event(s) from " ++ c.archiveFile)) ++
    showLine ("Current date: " ++ c.engine.currentDate ++ "\n")

/-- Restores the archive and gives what a session then shows. -/
def start (c : Console) : Except Fault String × Console :=
  let (restored, engine) := c.archive.restore c.engine
  let c := { c with engine := engine }
  (restored.map c.opening, c)

/-- Runs a session on inputs. -/
def run (c : Console) (inputs : List ConsoleInput) : Ended :=
  match c.start with
  | (.error fault, c) => ⟨.error fault, showLine banner, [], inputs, c⟩
  | (.ok shown, c) => (c.loop inputs).after (showLine banner ++ shown) []

end Console
end EventCalculus
