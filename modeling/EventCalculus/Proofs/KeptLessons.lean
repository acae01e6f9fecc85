import EventCalculus.Proofs.RecordText
import EventCalculus.Proofs.UnusableReplies

/-!
# Lessons that are kept

A learner keeps the record that it gets for a verb until it is cleared.  As long as a record is
kept the language model is not asked again, and it is asked once at every attempt to learn a verb
without one.  All records are about the verb in question, whatever a reply names.
-/

namespace EventCalculus

/-- What is asked of a learner. -/
inductive LearnerCall where
  | learn (verb context : String)
  | cached (verb : String)
  | clear
deriving DecidableEq

/-- The verb that a call is about. -/
def LearnerCall.verb? : LearnerCall -> Option String
  | .learn verb _ => some verb
  | .cached verb => some verb
  | .clear => none

/-- A call and what it gave: a record or none, or a fault. -/
structure LearnerStep where
  call : LearnerCall
  answer : Except Fault (Option RuleRecord)

/-- A learner and the language model that it asks. -/
structure LearnerSession where
  learner : Learner
  model : LanguageModel

/-- A record was learned for the verb, and nothing was cleared since. -/
def Taught (steps : List LearnerStep) (verb : String) (record : RuleRecord) : Prop :=
  exists before context after,
    steps = before ++ ⟨.learn verb context, .ok (some record)⟩ :: after ∧
      forall step, step ∈ after -> step.call ≠ .clear

namespace LearnerSession

/-- A learner that knows no verb and a model with replies to come. -/
def start (replies : List Reply) : LearnerSession :=
  ⟨.empty, .ofReplies replies⟩

/-- The answer to a call and the session after it. -/
def perform (s : LearnerSession) :
    LearnerCall -> Except Fault (Option RuleRecord) × LearnerSession
  | .learn verb context =>
      let (lesson, learner, model) := s.learner.learn s.model verb context
      (lesson.map Lesson.record, ⟨learner, model⟩)
  | .cached verb => (.ok (s.learner.cached verb), s)
  | .clear => (.ok none, { s with learner := .empty })

/-- The session after calls. -/
def run (s : LearnerSession) (calls : List LearnerCall) : LearnerSession :=
  calls.foldl (fun s call => (s.perform call).2) s

/-- The calls with their answers. -/
def steps (s : LearnerSession) : List LearnerCall -> List LearnerStep
  | [] => []
  | call :: calls => ⟨call, (s.perform call).1⟩ :: (s.perform call).2.steps calls

/-- What a call asks the model: about the verb to be learned, unless a record of it is kept. -/
def question? (s : LearnerSession) : LearnerCall -> Option (ModelTask × String)
  | .learn verb context =>
      if (s.learner.cached verb).isNone then some (.learnRules, Learner.prompt verb context)
      else none
  | .cached _ | .clear => none

/-- What calls ask the model. -/
def questions (s : LearnerSession) : List LearnerCall -> List (ModelTask × String)
  | [] => []
  | call :: calls => (s.question? call).toList ++ (s.perform call).2.questions calls

variable (s : LearnerSession)

theorem run_append (calls more : List LearnerCall) :
    s.run (calls ++ more) = (s.run calls).run more :=
  List.foldl_append

theorem steps_append (calls more : List LearnerCall) :
    s.steps (calls ++ more) = s.steps calls ++ (s.run calls).steps more := by
  induction calls generalizing s with
  | nil => rfl
  | cons call calls ih => exact congrArg (_ :: ·) (ih (s.perform call).2)

end LearnerSession

/-- A step more shows a new record, or keeps the old ones unless it clears them. -/
theorem taught_snoc_iff {steps : List LearnerStep} {step : LearnerStep} {verb : String}
    {record : RuleRecord} : Taught (steps ++ [step]) verb record ↔
      (exists context, step = ⟨.learn verb context, .ok (some record)⟩) ∨
        step.call ≠ .clear ∧ Taught steps verb record := by
  constructor
  · rintro ⟨before, context, after, heq, hafter⟩
    rcases List.eq_nil_or_concat after with rfl | ⟨others, last, rfl⟩
    · exact Or.inl ⟨context, List.singleton_inj.mp (List.append_inj' heq rfl).right⟩
    · simp only [List.concat_eq_append, List.mem_append, List.mem_singleton] at heq hafter
      rw [← List.cons_append, ← List.append_assoc] at heq
      rcases List.append_inj' heq rfl with ⟨hsteps, hlast⟩
      cases hlast
      exact Or.inr ⟨hafter step (Or.inr rfl), before, context, others, hsteps,
        fun x hx => hafter x (Or.inl hx)⟩
  · rintro (⟨context, rfl⟩ | ⟨hclear, before, context, after, rfl, hafter⟩)
    · exact ⟨steps, context, [], rfl, List.forall_mem_nil _⟩
    · refine ⟨before, context, after ++ [step], by rw [List.append_assoc, List.cons_append], ?_⟩
      intro x hx
      rcases List.mem_append.mp hx with hold | hlast
      · exact hafter x hold
      · rw [List.mem_singleton.mp hlast]
        exact hclear

/-!
# The verb of a record
-/

/-- The verb that is named in an object becomes that of the record. -/
theorem RuleRecord.verb_of_ofValue {fields : List (String × Value)} {given : Value} {s : String}
    {record : RuleRecord} (h : ofValue (.object fields) given = .ok record)
    (hverb : findValue? "verb" fields = some (.text s)) : record.verb.text = s := by
  have hname : fieldOr (.object fields) "verb" given = .text s := by
    rw [fieldOr, Value.field?, hverb]
    rfl
  simp only [ofValue, isObject, ↓reduceIte, hname] at h
  split at h
  · rename_i verb hfunctor
    split at h
    · rcases exists_of_bind_eq_ok h with ⟨_, hread, h⟩
      cases hread
      rcases exists_of_bind_eq_ok h with ⟨_, _, h⟩
      rcases exists_of_bind_eq_ok h with ⟨_, _, h⟩
      rcases exists_of_bind_eq_ok h with ⟨_, _, h⟩
      cases h
      exact Functor.text_of_ofText? hfunctor
    · cases h
  · cases h

/-- The record of a reply is about the verb in question. -/
theorem Reply.verb_of_record? {r : Reply} {verb : String} {record : RuleRecord}
    (h : r.record? verb = some record) : record.verb.text = verb := by
  unfold record? at h
  split at h
  · rename_i fields _
    apply RuleRecord.verb_of_ofValue (toOption_eq_some_iff.mp h)
    rw [findValue?_insertEntry, if_pos rfl]
  · cases h

/-- A reply that stops a lesson has no record. -/
theorem Reply.record?_of_error {r : Reply} {verb : String} {fault : Fault}
    (h : Lesson.ofReply verb r = .error fault) : r.record? verb = none := by
  rcases (Lesson.ofReply_eq_error_iff verb).mp h with ⟨count, ⟨content, rfl, hlimit⟩, _⟩
  rw [record?, value?, hlimit]
  rfl

theorem Learner.cached_keep {l : Learner} {verb : String} (h : l.cached verb = none)
    (lesson : Lesson) (other : String) :
    (l.keep verb lesson).cached other =
      if verb = other then lesson.record else l.cached other := by
  cases hrecord : lesson.record with
  | none =>
      simp only [keep, hrecord]
      split
      · rename_i heq
        exact heq ▸ h
      · rfl
  | some record =>
      simp only [keep, hrecord]
      exact OrderedMap.get?_insert l.cache verb other record

namespace LearnerSession

/-!
# One call
-/

section
variable {s : LearnerSession} {verb : String}

theorem perform_learn_of_cached {record : RuleRecord} (h : s.learner.cached verb = some record)
    (context : String) : s.perform (.learn verb context) = (.ok (some record), s) := by
  simp only [perform, Learner.learn_of_cached h]
  rfl

theorem perform_learn_of_error (h : s.learner.cached verb = none) {fault : Fault}
    (hreply : Lesson.ofReply verb s.model.nextReply = .error fault) (context : String) :
    s.perform (.learn verb context) = (.error fault,
      ⟨s.learner, (s.model.complete .learnRules (Learner.prompt verb context)).2⟩) := by
  simp only [perform, Learner.learn_of_error h hreply]
  rfl

theorem perform_learn_of_lesson (h : s.learner.cached verb = none) {lesson : Lesson}
    (hreply : Lesson.ofReply verb s.model.nextReply = .ok lesson) (context : String) :
    s.perform (.learn verb context) = (.ok lesson.record,
      ⟨s.learner.keep verb lesson,
        (s.model.complete .learnRules (Learner.prompt verb context)).2⟩) := by
  simp only [perform, Learner.learn_of_lesson h hreply]
  rfl

/-- A verb without a record is asked about once, whatever the reply is. -/
theorem prompts_perform_of_unknown (h : s.learner.cached verb = none) (context : String) :
    (s.perform (.learn verb context)).2.model.prompts =
      s.model.prompts ++ [(.learnRules, Learner.prompt verb context)] := by
  cases hreply : Lesson.ofReply verb s.model.nextReply with
  | error fault =>
      rw [perform_learn_of_error h hreply]
      rfl
  | ok lesson =>
      rw [perform_learn_of_lesson h hreply]
      rfl

/-- The record that is learned for a verb without one is that of the next reply. -/
theorem answer_perform_of_unknown (h : s.learner.cached verb = none) (context : String)
    (record : RuleRecord) : (s.perform (.learn verb context)).1 = .ok (some record) ↔
      s.model.nextReply.record? verb = some record := by
  cases hreply : Lesson.ofReply verb s.model.nextReply with
  | error fault =>
      simp [perform_learn_of_error h hreply, Reply.record?_of_error hreply]
  | ok lesson =>
      rw [perform_learn_of_lesson h hreply, ← Lesson.record_of_ofReply hreply, Except.ok.injEq]

theorem cached_perform_of_unknown (h : s.learner.cached verb = none) (context other : String) :
    (s.perform (.learn verb context)).2.learner.cached other =
      if verb = other then s.model.nextReply.record? verb else s.learner.cached other := by
  cases hreply : Lesson.ofReply verb s.model.nextReply with
  | error fault =>
      rw [perform_learn_of_error h hreply, Reply.record?_of_error hreply]
      split
      · rename_i heq
        exact heq ▸ h
      · rfl
  | ok lesson =>
      rw [perform_learn_of_lesson h hreply, ← Lesson.record_of_ofReply hreply]
      exact Learner.cached_keep h lesson other

end

variable (s : LearnerSession)

/-- A call leaves a record for a verb if it gave that record in a lesson, or if the record was
there and the call does not clear it. -/
theorem cached_perform_eq_some_iff (call : LearnerCall) (verb : String) (record : RuleRecord) :
    (s.perform call).2.learner.cached verb = some record ↔
      (exists context, call = .learn verb context ∧ (s.perform call).1 = .ok (some record)) ∨
        call ≠ .clear ∧ s.learner.cached verb = some record := by
  cases call with
  | clear =>
      constructor
      · intro h
        cases h
      · rintro (⟨_, hcall, _⟩ | ⟨hclear, _⟩)
        · cases hcall
        · exact absurd rfl hclear
  | cached other =>
      constructor
      · exact fun h => Or.inr ⟨LearnerCall.noConfusion, h⟩
      · rintro (⟨_, hcall, _⟩ | ⟨_, h⟩)
        · cases hcall
        · exact h
  | learn other context =>
      cases hcached : s.learner.cached other with
      | some kept =>
          rw [perform_learn_of_cached hcached]
          constructor
          · exact fun h => Or.inr ⟨LearnerCall.noConfusion, h⟩
          · rintro (⟨_, hcall, hanswer⟩ | ⟨_, h⟩)
            · cases hcall
              cases hanswer
              exact hcached
            · exact h
      | none =>
          rw [cached_perform_of_unknown hcached]
          split
          · rename_i heq
            cases heq
            rw [← answer_perform_of_unknown hcached context]
            constructor
            · exact fun h => Or.inl ⟨context, rfl, h⟩
            · rintro (⟨_, _, h⟩ | ⟨_, h⟩)
              · exact h
              · cases hcached.symm.trans h
          · rename_i hne
            constructor
            · exact fun h => Or.inr ⟨LearnerCall.noConfusion, h⟩
            · rintro (⟨_, hcall, _⟩ | ⟨_, h⟩)
              · cases hcall
                exact absurd rfl hne
              · exact h

/-- Every record that is kept is about its verb. -/
def Faithful : Prop :=
  forall verb record, s.learner.cached verb = some record -> record.verb.text = verb

variable {s}

/-- A record is only given for the verb that it is about. -/
theorem verb_of_perform (hs : s.Faithful) {call : LearnerCall} {record : RuleRecord}
    (h : (s.perform call).1 = .ok (some record)) : call.verb? = some record.verb.text := by
  cases call with
  | clear => cases h
  | cached verb =>
      have hcached : s.learner.cached verb = some record := Except.ok.inj h
      exact congrArg some (hs verb record hcached).symm
  | learn verb context =>
      cases hcached : s.learner.cached verb with
      | some kept =>
          rw [perform_learn_of_cached hcached] at h
          cases h
          exact congrArg some (hs verb record hcached).symm
      | none =>
          rw [answer_perform_of_unknown hcached] at h
          exact congrArg some (Reply.verb_of_record? h).symm

theorem faithful_perform (hs : s.Faithful) (call : LearnerCall) : (s.perform call).2.Faithful := by
  intro verb record h
  rcases (s.cached_perform_eq_some_iff call verb record).mp h with
    ⟨context, rfl, hanswer⟩ | ⟨_, h⟩
  · exact (Option.some.inj (verb_of_perform hs hanswer)).symm
  · exact hs verb record h

/-- The model is asked what the call asks. -/
theorem prompts_perform (s : LearnerSession) (call : LearnerCall) :
    (s.perform call).2.model.prompts = s.model.prompts ++ (s.question? call).toList := by
  cases call with
  | learn verb context =>
      cases hcached : s.learner.cached verb with
      | some record =>
          rw [perform_learn_of_cached hcached, question?, hcached]
          exact (List.append_nil _).symm
      | none =>
          rw [prompts_perform_of_unknown hcached, question?, hcached]
          rfl
  | cached verb => exact (List.append_nil _).symm
  | clear => exact (List.append_nil _).symm

/-!
# Runs
-/

theorem faithful_run (hs : s.Faithful) (calls : List LearnerCall) : (s.run calls).Faithful := by
  induction calls generalizing s with
  | nil => exact hs
  | cons call calls ih => exact ih (faithful_perform hs call)

theorem prompts_run (s : LearnerSession) (calls : List LearnerCall) :
    (s.run calls).model.prompts = s.model.prompts ++ s.questions calls := by
  induction calls generalizing s with
  | nil => exact (List.append_nil _).symm
  | cons call calls ih =>
      calc ((s.perform call).2.run calls).model.prompts
          = (s.perform call).2.model.prompts ++ (s.perform call).2.questions calls := ih _
        _ = s.model.prompts ++
              ((s.question? call).toList ++ (s.perform call).2.questions calls) := by
            rw [prompts_perform, List.append_assoc]

theorem faithful_start (replies : List Reply) : (start replies).Faithful := by
  intro verb record h
  cases h

/-- The record that is kept for a verb is the one that was learned for it. -/
theorem cached_run_iff (replies : List Reply) (calls : List LearnerCall) (verb : String)
    (record : RuleRecord) : ((start replies).run calls).learner.cached verb = some record ↔
      Taught ((start replies).steps calls) verb record := by
  induction calls using List.reverseRecOn with
  | nil =>
      constructor
      · intro h
        cases h
      · rintro ⟨before, context, after, heq, _⟩
        exact absurd heq.symm (List.append_ne_nil_of_right_ne_nil before (List.cons_ne_nil _ after))
  | append_singleton calls call ih =>
      rw [run_append, steps_append]
      refine (cached_perform_eq_some_iff _ call verb record).trans
        (Iff.trans ?_ taught_snoc_iff.symm)
      rw [ih]
      refine or_congr_left ?_
      constructor
      · rintro ⟨context, rfl, hanswer⟩
        exact ⟨context, congrArg _ hanswer⟩
      · rintro ⟨context, hstep⟩
        cases congrArg LearnerStep.call hstep
        exact ⟨context, rfl, congrArg LearnerStep.answer hstep⟩

/-- What a learner gives and asks after steps: records about the verb in question, the one that
was learned for as long as it was not cleared, and otherwise the one of the next reply, for which
the model is asked once. -/
structure KeepsLessons (s : LearnerSession) (steps : List LearnerStep) : Prop where
  verb : forall call record, (s.perform call).1 = .ok (some record) ->
    call.verb? = some record.verb.text
  kept : forall verb record, Taught steps verb record ->
    (forall context, s.perform (.learn verb context) = (.ok (some record), s)) ∧
      s.perform (.cached verb) = (.ok (some record), s)
  cached_iff : forall verb record, (s.perform (.cached verb)).1 = .ok (some record) ↔
    Taught steps verb record
  asks : forall verb, (forall record, ¬ Taught steps verb record) -> forall context,
    (s.perform (.learn verb context)).2.model.prompts =
        s.model.prompts ++ [(.learnRules, Learner.prompt verb context)] ∧
      forall record, (s.perform (.learn verb context)).1 = .ok (some record) ↔
        s.model.nextReply.record? verb = some record
  silent : (forall verb, (s.perform (.cached verb)).2 = s) ∧ (s.perform .clear).2.model = s.model

/-- Whatever is asked of a learner and whatever the model replies, its records are about their
verbs, they are kept until they are cleared, and the model is asked only at lessons about verbs
without a record, once at each. -/
theorem keeps_lessons (replies : List Reply) (calls : List LearnerCall) :
    ((start replies).run calls).KeepsLessons ((start replies).steps calls) ∧
      ((start replies).run calls).model.prompts = (start replies).questions calls := by
  have hcached := cached_run_iff replies calls
  have hfaithful := faithful_run (faithful_start replies) calls
  constructor
  · constructor
    case verb => exact fun call record h => verb_of_perform hfaithful h
    case kept =>
      intro verb record h
      have hkept := (hcached verb record).mpr h
      have hanswer : (((start replies).run calls).perform (.cached verb)).1 = .ok (some record) :=
        congrArg Except.ok hkept
      exact ⟨perform_learn_of_cached hkept, Prod.ext hanswer rfl⟩
    case cached_iff =>
      intro verb record
      rw [← hcached]
      exact ⟨Except.ok.inj, congrArg Except.ok⟩
    case asks =>
      intro verb h context
      have hunknown : ((start replies).run calls).learner.cached verb = none :=
        Option.eq_none_iff_forall_ne_some.mpr fun record hkept =>
          h record ((hcached verb record).mp hkept)
      exact ⟨prompts_perform_of_unknown hunknown context,
        answer_perform_of_unknown hunknown context⟩
    case silent => exact ⟨fun _ => rfl, rfl⟩
  · exact prompts_run (start replies) calls

end LearnerSession
end EventCalculus
