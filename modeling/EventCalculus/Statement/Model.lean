import EventCalculus.Value.Basic

/-!
# Language models

A language model completes prompts.  Here it is a list of replies that are used
one per call; when the list is used up, the reply is an empty text.
-/

namespace EventCalculus

/-- What a language model answers: a text, or the description of a failure. -/
inductive Reply where
  | text (content : String)
  | failure (cause : String)
deriving DecidableEq

/-- What a language model is asked for. -/
inductive ModelTask where
  | readEvents
  | learnRules
deriving DecidableEq

/-- The instructions for a task. -/
def ModelTask.instructions : ModelTask -> String
  | .readEvents =>
      "You extract events from short statements about people and things.\n\n" ++
      "Return ONLY valid JSON:\n" ++
      "\x7b\n" ++
      "  \"events\": [\n" ++
      "    \x7b\"subject\": \"<who>\", \"verb\": \"<past_tense_verb>\", " ++
      "\"object\": \"<what, or null>\"\x7d,\n" ++
      "    ...\n" ++
      "  ]\n" ++
      "\x7d\n\n" ++
      "Rules:\n" ++
      "- The main person mentioned is always the subject; keep the same actor throughout\n" ++
      "- Verbs are lowercase past tense with underscores: \"moved_to\", \"started_learning\", " ++
      "\"married\"\n" ++
      "- For \"X married Y\", X is the subject, the verb is \"married\" and Y is the object\n" ++
      "- Objects are short noun phrases, without articles\n" ++
      "- If the text describes no event, return \x7b\"events\": []\x7d\n"
  | .learnRules =>
      "You describe how a verb changes the state of the world, for an Event Calculus engine.\n\n" ++
      "Return ONLY valid JSON:\n" ++
      "\x7b\n" ++
      "  \"type\": \"state_change\" | \"instantaneous\" | \"continuous\",\n" ++
      "  \"initiates\": [\x7b\"fluent\": \"<state_name>\", \"pattern\": " ++
      "\"<optional pattern>\"\x7d],\n" ++
      "  \"terminates\": [\x7b\"fluent\": \"<state_name>\", \"pattern\": " ++
      "\"<optional pattern>\"\x7d]\n" ++
      "\x7d\n\n" ++
      "Rules:\n" ++
      "- Events look like verb(Subject, Object); patterns may only use Subject and Object\n" ++
      "- Fluent names are lowercase with underscores: \"lives_in\", \"employed_at\", \"knows\"\n" ++
      "- Use \"state_change\" when the verb replaces a previous value, listing the same\n" ++
      "  fluent under both initiates and terminates (e.g. moving replaces lives_in)\n" ++
      "- Use \"instantaneous\" when the verb only adds or removes a state\n" ++
      "- Leave a list empty when the verb starts or ends nothing\n"

/-- The replies to come and the prompts so far, the oldest first. -/
structure LanguageModel where
  replies : List Reply
  prompts : List (ModelTask × String)
deriving DecidableEq

namespace LanguageModel

/-- A model with a list of replies. -/
def ofReplies (replies : List Reply) : LanguageModel :=
  ⟨replies, []⟩

/-- Completes a prompt. -/
def complete (m : LanguageModel) (task : ModelTask) (prompt : String) : Reply × LanguageModel :=
  (m.replies.head?.getD (.text ""), ⟨m.replies.drop 1, m.prompts ++ [(task, prompt)]⟩)

/-- The model that is asked unless another one is named. -/
def defaultName : String := "llama-3.3-70b-versatile"

/-- How freely the model answers. -/
def temperature : Binary64 :=
  Binary64.ofDecimal false 1 (-1)

/-- A message of a chat. -/
def chatMessage (role content : String) : Value :=
  .object [("role", .text role), ("content", .text content)]

/-- The request for the completion of a prompt; instructions that are empty are left out. -/
def chatRequest (name : String) (instructions : Option String) (prompt : String) : Value :=
  let opening := (instructions.filter fun s => s ≠ "").map (chatMessage "system")
  .object [
    ("model", .text name),
    ("messages", .list (opening.toList ++ [chatMessage "user" prompt])),
    ("temperature", .number (.float temperature))]

/-- The text of a completion; a missing one is empty. -/
def completionText (content : Option String) : String :=
  content.getD ""

end LanguageModel
end EventCalculus
