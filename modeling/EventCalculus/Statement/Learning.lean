import EventCalculus.Fault
import EventCalculus.OrderedMap
import EventCalculus.Statement.Model
import EventCalculus.Statement.Reply
import EventCalculus.Statement.Warning

/-!
# Learning rules

A language model is asked how an unknown verb affects fluents.  Records that can
be used are kept by verb, so that each verb is asked for once.  The verb in
question always takes the place of the one in a reply.
-/

namespace EventCalculus

/-- The records learned so far, by verb. -/
structure Learner where
  cache : OrderedMap String RuleRecord

/-- The outcome of learning: a record, if the reply gave one, and the warnings on the way. -/
structure Lesson where
  record : Option RuleRecord
  warnings : List Warning

namespace Lesson

/-- The lesson of data about a verb. -/
def ofData (verb : String) (data : Value) : Lesson :=
  match data with
  | .object fields =>
      match RuleRecord.ofValue (.object (insertEntry "verb" (.text verb) fields)) .null with
      | .ok record => ⟨some record, []⟩
      | .error fault => ⟨none, [.learningRecord verb fault]⟩
  | _ => ⟨none, [.learningShape verb]⟩

/-- The lesson of a reply about a verb. -/
def ofReply (verb : String) : Reply -> Except Fault Lesson
  | .failure cause => .ok ⟨none, [.learningFailed verb cause]⟩
  | .text content =>
      match readReply content with
      | .error (.tooManyDigits count) => .error (.numeral count)
      | .error fault => .ok ⟨none, [.learningReply verb fault]⟩
      | .ok data => .ok (ofData verb data)

end Lesson

namespace Learner

/-- The learner that knows no verb. -/
def empty : Learner :=
  ⟨OrderedMap.empty⟩

/-- The record kept for a verb. -/
def cached (l : Learner) (verb : String) : Option RuleRecord :=
  l.cache.get? verb

/-- The question about a verb that came with a statement. -/
def prompt (verb context : String) : String :=
  "Verb: \"" ++ verb ++ "\"" ++
    (if context = "" then "" else "\nContext: \"" ++ context ++ "\"")

/-- Keeps the record of a lesson, if it has one. -/
def keep (l : Learner) (verb : String) (lesson : Lesson) : Learner :=
  match lesson.record with
  | some record => ⟨l.cache.insert verb record⟩
  | none => l

/-- The lesson about a verb: the record that is kept, or what the language model replies. -/
def learn (l : Learner) (m : LanguageModel) (verb context : String) :
    Except Fault Lesson × Learner × LanguageModel :=
  match l.cached verb with
  | some record => (.ok ⟨some record, []⟩, l, m)
  | none =>
      let (reply, m) := m.complete .learnRules (prompt verb context)
      match Lesson.ofReply verb reply with
      | .error fault => (.error fault, l, m)
      | .ok lesson => (.ok lesson, l.keep verb lesson, m)

end Learner
end EventCalculus
