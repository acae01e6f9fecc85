import EventCalculus.Proofs.DigitRuns
import EventCalculus.Statement.Learning
import EventCalculus.Statement.Reading

/-!
# Replies that cannot be used

A language model may fail, or reply with anything.  What cannot be used gives no events and no
record, and leaves the learner as it is.  Only an integer with more digits than can be read stops
a reading or a lesson, and it stands in the reply.
-/

namespace EventCalculus

/-- The reply to the next prompt. -/
def LanguageModel.nextReply (m : LanguageModel) : Reply :=
  m.replies.head?.getD (.text "")

namespace Reply

/-- The JSON value of a reply, if it has one. -/
def value? : Reply -> Option Value
  | .failure _ => none
  | .text content => (readReply content).toOption

/-- The items of a reply, each of which can tell an event. -/
def items (r : Reply) : List Value :=
  ((r.value?.map Reading.itemsOf).bind Value.items?).getD []

/-- The record of a reply about a verb: an object that is one, with the verb in its place. -/
def record? (r : Reply) (verb : String) : Option RuleRecord :=
  match r.value? with
  | some (.object fields) =>
      (RuleRecord.ofValue (.object (insertEntry "verb" (.text verb) fields)) .null).toOption
  | _ => none

/-- In reading the reply an integer with so many digits is met, more than can be read. -/
def MeetsLimit (r : Reply) (count : Nat) : Prop :=
  exists content, r = .text content ∧ readReply content = .error (.tooManyDigits count)

end Reply

/-- An item tells an event: subject and verb are texts of the item and not blank. -/
structure Value.Tells (e : StatedEvent) (item : Value) : Prop where
  subject : item.field? "subject" = some (.text e.subject)
  verb : item.field? "verb" = some (.text e.verb)
  object : e.object = Reading.objectText (item.field? "object")
  subject_not_blank : Text.isBlankText e.subject = false
  verb_not_blank : Text.isBlankText e.verb = false

/-!
# Readings
-/

namespace Reading

variable {r : Reply}

theorem bind_text?_eq_some {v : Option Value} {s : String} :
    v.bind Value.text? = some s ↔ v = some (.text s) := by
  constructor
  · intro h
    rcases Option.bind_eq_some_iff.mp h with ⟨value, rfl, htext⟩
    cases value with
    | text t =>
        cases htext
        rfl
    | _ => cases htext
  · rintro rfl
    rfl

theorem eventOfItem?_eq_some_iff {item : Value} {e : StatedEvent} :
    eventOfItem? item = some e ↔ item.Tells e := by
  constructor
  · intro h
    unfold eventOfItem? at h
    split at h
    · rename_i subject verb hsubject hverb
      split at h
      · cases h
      · rename_i hblank
        cases h
        rw [Bool.not_eq_true, Bool.or_eq_false_iff] at hblank
        exact ⟨bind_text?_eq_some.mp hsubject, bind_text?_eq_some.mp hverb, rfl, hblank.left,
          hblank.right⟩
    · cases h
  · intro h
    rcases e with ⟨subject, verb, object⟩
    have hobject : object = objectText (item.field? "object") := h.object
    have hsubject : Text.isBlankText subject = false := h.subject_not_blank
    have hverb : Text.isBlankText verb = false := h.verb_not_blank
    simp only [eventOfItem?, h.subject, h.verb, Option.bind_some, Value.text?, hsubject, hverb,
      Bool.or_self, Bool.false_eq_true, ↓reduceIte, hobject]

theorem mem_events_ofItems_iff {items : List Value} {e : StatedEvent} :
    e ∈ (ofItems items).events ↔ exists item, item ∈ items ∧ item.Tells e := by
  induction items with
  | nil => simp [ofItems, nothing]
  | cons item rest ih =>
      have hitem : eventOfItem? item = some e ↔ item.Tells e := eventOfItem?_eq_some_iff
      rw [ofItems, List.exists_mem_cons_iff, ← ih, ← hitem]
      cases eventOfItem? item with
      | none => simp
      | some event => simp [eq_comm]

/-- A reply stops a reading only at the limit. -/
theorem ofReply_eq_error_iff {fault : Fault} :
    ofReply r = .error fault ↔ exists count, r.MeetsLimit count ∧ fault = .numeral count := by
  cases r with
  | failure cause =>
      constructor
      · intro h
        cases h
      · rintro ⟨count, ⟨content, hreply, _⟩, _⟩
        cases hreply
  | text content =>
      simp only [ofReply, Reply.MeetsLimit, Reply.text.injEq, exists_eq_left']
      cases hread : readReply content with
      | ok v =>
          simp only [reduceCtorEq, false_and, exists_false, iff_false]
          split
          · exact fun h => by cases h
          · exact fun h => by cases h
      | error reason =>
          cases reason with
          | malformed reason document position => simp
          | tooManyDigits count => simp [eq_comm]

theorem mem_events_of_ofReply {reading : Reading} (h : ofReply r = .ok reading)
    (e : StatedEvent) : e ∈ reading.events ↔ exists item, item ∈ r.items ∧ item.Tells e := by
  cases r with
  | failure cause =>
      cases h
      simp [nothing, Reply.items, Reply.value?]
  | text content =>
      simp only [ofReply] at h
      cases hread : readReply content with
      | ok v =>
          rw [hread] at h
          simp only at h
          have hvalue : (Reply.text content).value? = some v := by
            rw [Reply.value?, hread]
            rfl
          rw [Reply.items, hvalue]
          cases hitems : itemsOf v with
          | list items =>
              rw [hitems] at h
              cases h
              simp only [Option.map_some, hitems, Option.bind_some, Value.items?,
                Option.getD_some]
              exact mem_events_ofItems_iff
          | _ =>
              rw [hitems] at h
              cases h
              simp [nothing, hitems, Value.items?]
      | error reason =>
          have hnone : (Reply.text content).items = [] := by
            rw [Reply.items, Reply.value?, hread]
            rfl
          rw [hread] at h
          cases reason with
          | malformed reason document position =>
              cases h
              simp [hnone, nothing]
          | tooManyDigits count => cases h

end Reading

/-- Reading a statement stops exactly at the limit; otherwise its events are those that items of
the reply tell. -/
structure LanguageModel.ReadsOrStops (m : LanguageModel) (statement : String) : Prop where
  stops_iff : forall fault, (readStatement m statement).1 = .error fault ↔
    Text.isBlankText statement = false ∧
      exists count, m.nextReply.MeetsLimit count ∧ fault = .numeral count
  events : forall reading, (readStatement m statement).1 = .ok reading ->
    forall e, e ∈ reading.events ↔ Text.isBlankText statement = false ∧
      exists item, item ∈ m.nextReply.items ∧ item.Tells e

theorem LanguageModel.readsOrStops (m : LanguageModel) (statement : String) :
    m.ReadsOrStops statement := by
  have hread : (readStatement m statement).1 =
      if Text.isBlankText statement then .ok (.nothing []) else Reading.ofReply m.nextReply := by
    unfold readStatement
    split
    · rfl
    · rfl
  cases hblank : Text.isBlankText statement with
  | true =>
      rw [hblank, if_pos rfl] at hread
      constructor
      case stops_iff =>
        intro fault
        simp [hread, hblank]
      case events =>
        intro reading h e
        rw [hread] at h
        cases h
        simp [Reading.nothing, hblank]
  | false =>
      rw [hblank, if_neg Bool.false_ne_true] at hread
      constructor
      case stops_iff =>
        intro fault
        rw [hread, Reading.ofReply_eq_error_iff]
        exact (and_iff_right hblank).symm
      case events =>
        intro reading h e
        rw [hread] at h
        rw [Reading.mem_events_of_ofReply h]
        exact (and_iff_right hblank).symm

/-!
# Lessons
-/

namespace Lesson

variable {r : Reply} {verb : String}

/-- A reply stops a lesson only at the limit. -/
theorem ofReply_eq_error_iff (verb : String) {fault : Fault} :
    ofReply verb r = .error fault ↔ exists count, r.MeetsLimit count ∧ fault = .numeral count := by
  cases r with
  | failure cause =>
      constructor
      · intro h
        cases h
      · rintro ⟨count, ⟨content, hreply, _⟩, _⟩
        cases hreply
  | text content =>
      simp only [ofReply, Reply.MeetsLimit, Reply.text.injEq, exists_eq_left']
      cases hread : readReply content with
      | ok v => simp
      | error reason =>
          cases reason with
          | malformed reason document position => simp
          | tooManyDigits count => simp [eq_comm]

theorem record_of_ofReply {lesson : Lesson} (h : ofReply verb r = .ok lesson) :
    lesson.record = r.record? verb := by
  cases r with
  | failure cause =>
      cases h
      rfl
  | text content =>
      simp only [ofReply] at h
      cases hread : readReply content with
      | ok v =>
          have hvalue : (Reply.text content).value? = some v := by
            rw [Reply.value?, hread]
            rfl
          rw [hread] at h
          cases h
          rw [Reply.record?, hvalue]
          cases v with
          | object fields =>
              simp only [ofData]
              split
              · rename_i record hrecord
                rw [hrecord]
                rfl
              · rename_i fault hfault
                rw [hfault]
                rfl
          | _ => rfl
      | error reason =>
          have hvalue : (Reply.text content).value? = none := by
            rw [Reply.value?, hread]
            rfl
          rw [hread] at h
          cases reason with
          | malformed reason document position =>
              cases h
              rw [Reply.record?, hvalue]
          | tooManyDigits count => cases h

end Lesson

/-- Learning a verb stops exactly at the limit; otherwise the record is the one that is kept or
that of the reply.  A reply without a record leaves the learner as it is. -/
structure Learner.LearnsOrStops (l : Learner) (m : LanguageModel) (verb context : String) :
    Prop where
  stops_iff : forall fault, (l.learn m verb context).1 = .error fault ↔
    l.cached verb = none ∧ exists count, m.nextReply.MeetsLimit count ∧ fault = .numeral count
  record : forall lesson, (l.learn m verb context).1 = .ok lesson ->
    lesson.record = (l.cached verb).or (m.nextReply.record? verb)
  unchanged : m.nextReply.record? verb = none -> (l.learn m verb context).2.1 = l

theorem LanguageModel.complete_eq (m : LanguageModel) (task : ModelTask) (prompt : String) :
    m.complete task prompt =
      (m.nextReply, ⟨m.replies.drop 1, m.prompts ++ [(task, prompt)]⟩) :=
  rfl

namespace Learner

variable {l : Learner} {verb : String}

theorem learn_of_cached {record : RuleRecord} (h : l.cached verb = some record)
    (m : LanguageModel) (context : String) :
    l.learn m verb context = (.ok ⟨some record, []⟩, l, m) := by
  simp only [learn, h]

theorem learn_of_error (h : l.cached verb = none) {m : LanguageModel} {fault : Fault}
    (hreply : Lesson.ofReply verb m.nextReply = .error fault) (context : String) :
    l.learn m verb context =
      (.error fault, l, (m.complete .learnRules (prompt verb context)).2) := by
  simp only [learn, h, LanguageModel.complete_eq, hreply]

theorem learn_of_lesson (h : l.cached verb = none) {m : LanguageModel} {lesson : Lesson}
    (hreply : Lesson.ofReply verb m.nextReply = .ok lesson) (context : String) :
    l.learn m verb context =
      (.ok lesson, l.keep verb lesson, (m.complete .learnRules (prompt verb context)).2) := by
  simp only [learn, h, LanguageModel.complete_eq, hreply]

theorem learnsOrStops (l : Learner) (m : LanguageModel) (verb context : String) :
    l.LearnsOrStops m verb context := by
  cases hcached : l.cached verb with
  | some record =>
      have hlearn := learn_of_cached hcached m context
      constructor
      case stops_iff =>
        intro fault
        simp [hlearn, hcached]
      case record =>
        intro lesson h
        rw [hlearn] at h
        cases h
        rw [hcached]
        rfl
      case unchanged =>
        intro _
        rw [hlearn]
  | none =>
      cases hreply : Lesson.ofReply verb m.nextReply with
      | error fault =>
          have hlearn := learn_of_error hcached hreply context
          constructor
          case stops_iff =>
            intro other
            rw [hlearn, and_iff_right hcached, ← Lesson.ofReply_eq_error_iff verb, hreply]
          case record =>
            intro lesson h
            rw [hlearn] at h
            cases h
          case unchanged =>
            intro _
            rw [hlearn]
      | ok lesson =>
          have hlearn := learn_of_lesson hcached hreply context
          have hrecord := Lesson.record_of_ofReply hreply
          constructor
          case stops_iff =>
            intro other
            rw [hlearn, and_iff_right hcached, ← Lesson.ofReply_eq_error_iff verb, hreply]
          case record =>
            intro other h
            rw [hlearn] at h
            cases h
            rw [hcached, hrecord]
            rfl
          case unchanged =>
            intro hnone
            rw [hlearn]
            simp only [keep, hrecord, hnone]

end Learner

/-!
# Any reply
-/

namespace LanguageModel

/-- A reply of so many ones. -/
def ones (count : Nat) : Reply :=
  .text (String.ofList (List.replicate count '1'))

theorem meetsLimit_ones {count : Nat} (h : Numeral.digitLimit ≤ count) :
    (ones (count + 1)).MeetsLimit (count + 1) := by
  have hlength : ('1' :: List.replicate count '1').length = count + 1 := by
    rw [List.length_cons, List.length_replicate]
  have hdigits : AllDigits ('1' :: List.replicate count '1') := by
    intro c hc
    rw [← List.replicate_succ] at hc
    rw [List.eq_of_mem_replicate hc]
    rfl
  have hread := readReply_of_allDigits hdigits (by decide) (hlength ▸ Nat.lt_succ_of_le h)
  rw [hlength] at hread
  exact ⟨_, rfl, hread⟩

end LanguageModel
end EventCalculus
