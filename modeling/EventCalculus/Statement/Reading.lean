import EventCalculus.Fault
import EventCalculus.Statement.Model
import EventCalculus.Statement.Reply
import EventCalculus.Statement.Warning

/-!
# Reading statements

A language model is asked for the events in a statement.  Whatever cannot be used
in its reply is left out with a warning; only a numeral beyond the limit on
digits is a fault.
-/

namespace EventCalculus

/-- The outcome of a reading: the events and the warnings on the way. -/
structure Reading where
  events : List StatedEvent
  warnings : List Warning

namespace Reading

/-- A reading without events. -/
def nothing (warnings : List Warning) : Reading :=
  ⟨[], warnings⟩

/-- The object of an item: a text, or a text made of another value; an empty one is none. -/
def objectText : Option Value -> Option String
  | none | some .null => none
  | some v => if v.display = "" then none else some v.display

/-- The event of an item: its subject and its verb are texts that are not blank. -/
def eventOfItem? (item : Value) : Option StatedEvent :=
  match (item.field? "subject").bind Value.text?, (item.field? "verb").bind Value.text? with
  | some subject, some verb =>
      if Text.isBlankText subject || Text.isBlankText verb then
        none
      else
        some ⟨subject, verb, objectText (item.field? "object")⟩
  | _, _ => none

/-- The items of a reply: those under `events`, a single object, or a bare list. -/
def itemsOf (v : Value) : Value :=
  match v with
  | .object _ => (v.field? "events").getD (.list [v])
  | _ => v

/-- The events of items; the others give warnings. -/
def ofItems : List Value -> Reading
  | [] => nothing []
  | item :: rest =>
      let later := ofItems rest
      match eventOfItem? item with
      | some event => ⟨event :: later.events, later.warnings⟩
      | none => ⟨later.events, .readingItem item :: later.warnings⟩

/-- The events of a reply. -/
def ofReply : Reply -> Except Fault Reading
  | .failure cause => .ok (nothing [.readingFailed cause])
  | .text content =>
      match readReply content with
      | .error (.tooManyDigits count) => .error (.numeral count)
      | .error fault => .ok (nothing [.readingReply fault])
      | .ok v =>
          match itemsOf v with
          | .list items => .ok (ofItems items)
          | _ => .ok (nothing [.readingShape])

end Reading

/-- Asks a language model for the events in a statement; a blank statement has none. -/
def readStatement (m : LanguageModel) (statement : String) :
    Except Fault Reading × LanguageModel :=
  if Text.isBlankText statement then
    (.ok (.nothing []), m)
  else
    let (reply, m) := m.complete .readEvents ("Text: \"" ++ statement ++ "\"")
    (Reading.ofReply reply, m)

end EventCalculus
