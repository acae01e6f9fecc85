/-!
# The banner

What a session shows first and what it answers to a call for help.
-/

namespace EventCalculus

/-- The name of the program and its commands. -/
def banner : String :=
  "\n" ++
  "╔══════════════════════════════════════════╗\n" ++
  "║           chronicle v0.1.0               ║\n" ++
  "║    Temporal facts, Event Calculus        ║\n" ++
  "╚══════════════════════════════════════════╝\n" ++
  "\n" ++
  "Commands:\n" ++
  "  /assert <event> [@ <time>]   - Record an event (default: now)\n" ++
  "  /query <pattern> [@ <time>]  - Show bindings for a fluent pattern\n" ++
  "  /holds <fluent> [@ <time>]   - Check whether a fluent holds\n" ++
  "  /state [<time>]              - List every fluent that holds\n" ++
  "  /ever <fluent>               - Check whether a fluent ever held\n" ++
  "  /timeline <fluent>           - Show holding intervals\n" ++
  "  /events                      - List stored events\n" ++
  "  /now [<time>]                - Show or set the current date\n" ++
  "  /learn <verb> <json>         - Register a rule record for a verb\n" ++
  "  /save                        - Archive events and learned rules\n" ++
  "  /reset                       - Drop events and learned rules\n" ++
  "  /help                        - Show this help\n" ++
  "  /exit, /quit                 - Exit the CLI\n" ++
  "\n" ++
  "Other text is read as a statement when GROQ_API_KEY is set.\n"

end EventCalculus
