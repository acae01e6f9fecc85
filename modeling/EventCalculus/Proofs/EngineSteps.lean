import EventCalculus.Engine.Question
import EventCalculus.Proofs.Outcomes

/-!
# Steps of an engine

What an operation does to an engine, apart from what it writes to the log.  A
question does nothing else, and neither does an operation that fails before it
stores or registers something.
-/

namespace EventCalculus

/-!
# Descriptions
-/

theorem Compound.eq_toTerm_of_ofTerm? {t : Term} {c : Compound} (h : ofTerm? t = some c) :
    t = c.toTerm := by
  cases t with
  | compound f args =>
      cases h
      rfl
  | atom name => cases h
  | number n => cases h
  | text s => cases h
  | var v => cases h

/-- A description that can be stored is ground and can be stored again. -/
theorem EventStore.validate_toTerm {s : EventStore} {t : Term} {c : Compound}
    (h : s.validate t = .ok c) : s.validate c.toTerm = .ok c ∧ c.isGround = true := by
  unfold validate at h
  split at h
  · cases h
  · rename_i d hterm
    split at h
    · cases h
    · rename_i hground
      split at h
      · cases h
      · rename_i hdepth
        cases h
        have hsame : Compound.ofTerm? c.toTerm = some c := rfl
        rw [Compound.eq_toTerm_of_ofTerm? hterm] at hdepth
        simp only [Bool.not_eq_true', Bool.not_eq_false] at hground
        simp only [validate, hsame, hground, hdepth, Bool.not_true, Bool.false_eq_true, ↓reduceIte,
          and_self]

namespace Engine

/-- The engine without its log. -/
def unlogged (e : Engine) : Engine :=
  { e with audit := none }

section
variable {a b : Engine} (h : a.unlogged = b.unlogged)
include h

theorem store_eq_of_unlogged_eq : a.store = b.store := by
  show a.unlogged.store = b.unlogged.store
  rw [h]

theorem rulebook_eq_of_unlogged_eq : a.rulebook = b.rulebook := by
  show a.unlogged.rulebook = b.unlogged.rulebook
  rw [h]

theorem records_eq_of_unlogged_eq : a.records = b.records := by
  show a.unlogged.records = b.unlogged.records
  rw [h]

theorem scenario_eq_of_unlogged_eq : a.scenario = b.scenario := by
  show a.unlogged.scenario = b.unlogged.scenario
  rw [h]

theorem currentDate_eq_of_unlogged_eq : a.currentDate = b.currentDate := by
  show a.unlogged.currentDate = b.unlogged.currentDate
  rw [h]

end

variable (e : Engine)

/-!
# The log
-/

theorem unlogged_note (write : AuditLog -> AuditLog) : (e.note write).unlogged = e.unlogged := rfl

theorem unlogged_noteFault (operation : String) (fault : Fault) :
    (e.noteFault operation fault).unlogged = e.unlogged := by
  unfold noteFault
  split
  · exact e.unlogged_note _
  · rfl

theorem unlogged_noteRules (rules added : List Rule) :
    (e.noteRules rules added).unlogged = e.unlogged := by
  unfold noteRules
  induction rules generalizing e with
  | nil => rfl
  | cons r rest ih =>
      rw [List.foldl_cons, ih, unlogged_note]

theorem unlogged_noteUnreadable (fault : Fault) :
    (e.noteUnreadable fault).unlogged = e.unlogged := by
  unfold noteUnreadable
  split
  · exact e.unlogged_noteFault _ _
  · rfl

/-!
# Events
-/

theorem unlogged_storeEvent (description : Compound) (timestamp : String) :
    (e.storeEvent description timestamp).2.unlogged =
      unlogged { e with
        store := (e.store.push description timestamp).2
        rulebook := (e.rulebook.compileVerb description.functor.text description.arity).2 } := by
  have hverb : (e.store.push description timestamp).1.verb = description.functor.text := rfl
  unfold storeEvent
  simp only [hverb]
  cases hcompile : e.rulebook.compileVerb description.functor.text description.arity with
  | mk outcome rulebook =>
      cases outcome with
      | error fault => rfl
      | ok rules => rfl

theorem unlogged_assertEvent_of_error {description : Value} {moment : Moment} {fault : Fault}
    (h : e.prepareEvent description moment = .error fault) :
    (e.assertEvent description moment).2.unlogged = e.unlogged := by
  unfold assertEvent
  rw [h]
  exact e.unlogged_noteFault _ fault

theorem assertEvent_of_ok {description : Value} {moment : Moment} {c : Compound}
    {timestamp : String} (h : e.prepareEvent description moment = .ok (c, timestamp)) :
    e.assertEvent description moment = e.storeEvent c timestamp := by
  unfold assertEvent
  rw [h]

/-- What is prepared is a description that can be stored, at the timestamp of the moment. -/
theorem exists_of_prepareEvent_eq_ok {e : Engine} {v : Value} {moment : Moment} {c : Compound}
    {timestamp : String} (h : e.prepareEvent v moment = .ok (c, timestamp)) :
    timestampOf moment = .ok timestamp ∧ exists t, e.store.validate t = .ok c := by
  rcases exists_of_bind_eq_ok h with ⟨given, _, h⟩
  rcases exists_of_bind_eq_ok h with ⟨time, htime, h⟩
  rcases exists_of_bind_eq_ok h with ⟨t, _, h⟩
  rcases exists_of_bind_eq_ok h with ⟨compound, hcompound, h⟩
  cases h
  exact ⟨htime, t, exists_of_mapError_eq_ok hcompound⟩

/-- Whether a description is stored depends on the depth that the store allows, and on nothing
that the engine was told before. -/
theorem prepareEvent_eq_of_maxDepth {e start : Engine}
    (h : e.store.maxDepth = start.store.maxDepth) (description : Value) (moment : Moment) :
    e.prepareEvent description moment = start.prepareEvent description moment := by
  unfold prepareEvent EventStore.validate
  rw [h]

/-!
# Rules
-/

theorem unlogged_learn_of_error {input : RuleInput} {fault : Fault}
    (h : rulesOfInput input = .error fault) : (e.learn input).2.unlogged = e.unlogged := by
  unfold learn
  rw [h]
  exact e.unlogged_noteFault _ fault

theorem unlogged_learn_of_ok {input : RuleInput} {rules : List Rule}
    {record : Option RuleRecord} (h : rulesOfInput input = .ok (rules, record)) :
    (e.learn input).2.unlogged =
      (keepRecord { e with rulebook := (e.rulebook.register rules).2 } record).unlogged := by
  unfold learn
  rw [h]
  exact unlogged_noteRules _ rules _

theorem fst_learn (input : RuleInput) :
    (e.learn input).1 = (rulesOfInput input).map fun made => (e.rulebook.register made.1).1 := by
  unfold learn
  cases rulesOfInput input with
  | error fault => rfl
  | ok made => rfl

/-- Only rules that cannot be made are refused, and they leave no trace but in the log. -/
theorem learn_eq_error {e : Engine} {input : RuleInput} {fault : Fault}
    (h : (e.learn input).1 = .error fault) :
    rulesOfInput input = .error fault ∧ (e.learn input).2.unlogged = e.unlogged := by
  rw [fst_learn] at h
  have hrules := eq_error_of_map_eq_error h
  exact ⟨hrules, e.unlogged_learn_of_error hrules⟩

theorem store_keepRecord (record : Option RuleRecord) : (e.keepRecord record).store = e.store := by
  cases record with
  | none => rfl
  | some r => rfl

theorem rulebook_keepRecord (record : Option RuleRecord) :
    (e.keepRecord record).rulebook = e.rulebook := by
  cases record with
  | none => rfl
  | some r => rfl

/-!
# Questions

What a question is about is read from the pattern alone, and from the current
date if no time is given.
-/

theorem unlogged_pattern (v : Value) : (e.pattern v).2.unlogged = e.unlogged := by
  unfold pattern
  split
  · exact e.unlogged_noteUnreadable _
  · rfl

theorem unlogged_patternAt (v : Value) (moment : Option Moment) :
    (e.patternAt v moment).2.unlogged = e.unlogged := by
  unfold patternAt
  split
  · exact e.unlogged_noteUnreadable _
  · rfl

theorem unlogged_query (v : Value) (moment : Option Moment) :
    (e.query v moment).2.unlogged = e.unlogged := by
  have hpattern := e.unlogged_patternAt v moment
  unfold query
  split
  · rename_i hquestion
    rw [hquestion] at hpattern
    exact hpattern
  · rename_i hquestion
    rw [hquestion] at hpattern
    exact hpattern

theorem scenario_pattern (v : Value) : (e.pattern v).2.scenario = e.scenario :=
  scenario_eq_of_unlogged_eq (e.unlogged_pattern v)

theorem fst_pattern (a b : Engine) (v : Value) : (a.pattern v).1 = (b.pattern v).1 := by
  unfold pattern
  cases readPattern v with
  | error fault => rfl
  | ok given => rfl

theorem timeOf_eq_of_currentDate {a b : Engine} (h : a.currentDate = b.currentDate)
    (moment : Option Moment) : a.timeOf moment = b.timeOf moment := by
  cases moment with
  | none => exact congrArg Except.ok h
  | some m => rfl

theorem fst_patternAt_eq_map {moment : Option Moment} {time : String}
    (htime : e.timeOf moment = .ok time) (v : Value) :
    (e.patternAt v moment).1 = (e.pattern v).1.map fun c => (c, time) := by
  unfold patternAt pattern
  rw [htime]
  cases readPattern v with
  | error fault => rfl
  | ok given =>
      cases checkPattern given with
      | error fault => rfl
      | ok c => rfl

theorem fst_patternAt (a b : Engine) (v : Value) (moment : Moment) :
    (a.patternAt v (some moment)).1 = (b.patternAt v (some moment)).1 := by
  unfold patternAt
  cases readPattern v with
  | error fault => rfl
  | ok given => rfl

theorem fst_patternAt_eq_of_currentDate {a b : Engine} (h : a.currentDate = b.currentDate)
    (v : Value) (moment : Option Moment) : (a.patternAt v moment).1 = (b.patternAt v moment).1 := by
  unfold patternAt
  rw [timeOf_eq_of_currentDate h]
  cases readPattern v with
  | error fault => rfl
  | ok given => rfl

theorem fst_pattern_of_patternAt {e : Engine} {v : Value} {moment : Option Moment} {c : Compound}
    {time : String} (h : (e.patternAt v moment).1 = .ok (c, time)) : (e.pattern v).1 = .ok c := by
  unfold patternAt at h
  unfold pattern
  cases hread : readPattern v with
  | error fault =>
      rw [hread] at h
      cases h
  | ok given =>
      rw [hread] at h
      rcases exists_of_bind_eq_ok h with ⟨_, _, h⟩
      rcases exists_of_bind_eq_ok h with ⟨compound, hcompound, h⟩
      cases h
      exact hcompound

theorem snd_patternAt {e after : Engine} {v : Value} {moment : Option Moment}
    {question : Compound × String} (h : e.patternAt v moment = (.ok question, after)) :
    after = e := by
  unfold patternAt at h
  cases hread : readPattern v with
  | error fault =>
      rw [hread] at h
      cases (Prod.mk.inj h).left
  | ok given =>
      rw [hread] at h
      exact (Prod.mk.inj h).right.symm

theorem fst_query (v : Value) (moment : Option Moment) :
    (e.query v moment).1 =
      (e.patternAt v moment).1.map fun question => e.scenario.query question.1 question.2 := by
  unfold query
  split
  · rename_i hquestion
    rw [hquestion]
    rfl
  · rename_i hquestion
    rw [hquestion, snd_patternAt hquestion]
    rfl

theorem fst_query_eq_map {moment : Option Moment} {time : String}
    (htime : e.timeOf moment = .ok time) (v : Value) :
    (e.query v moment).1 = (e.pattern v).1.map fun c => e.scenario.query c time := by
  rw [fst_query, e.fst_patternAt_eq_map htime]
  cases (e.pattern v).1 with
  | error fault => rfl
  | ok c => rfl

theorem fst_holds (v : Value) (moment : Option Moment) :
    (e.holds v moment).1 = (e.query v moment).1.map fun answers => !answers.isEmpty := by
  unfold holds
  cases e.query v moment
  rfl

theorem fst_everHeld (v : Value) :
    (e.everHeld v).1 = (e.pattern v).1.map e.scenario.everHeld := by
  rw [← e.scenario_pattern v]
  rfl

theorem fst_timeline (v : Value) :
    (e.timeline v).1 = (e.pattern v).1.map e.scenario.timeline := by
  rw [← e.scenario_pattern v]
  rfl

theorem allHolding_eq {moment : Option Moment} {time : String}
    (htime : e.timeOf moment = .ok time) :
    e.allHolding moment = match e.scenario.allHolding? time with
      | some holdings => .ok holdings
      | none => .error .noSubject := by
  rw [allHolding, htime]
  rfl

end Engine
end EventCalculus
