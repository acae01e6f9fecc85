import EventCalculus.Console.Loop
import EventCalculus.Proofs.FactExchange
import EventCalculus.Proofs.KeptRules
import EventCalculus.Proofs.RememberedStatements
import EventCalculus.Proofs.SnapshotRestore
import EventCalculus.Proofs.SubjectReading

/-!
# States of a console

Commands and statements reach an engine only through its operations, and no record that they can
give makes a fluent without a subject.  So whatever was entered, the taxonomy stays sound, the
indices agree with what they index, every rule gives its fluent a subject, and the current date is
in normal form.
-/

namespace EventCalculus
namespace Engine

/-!
# Engines
-/

/-- What an engine keeps as long as its rules come from verbs and records. -/
structure Orderly (e : Engine) : Prop where
  sound : forall p, p ∈ e.rulebook.taxonomy -> p.IsSound
  indexed : e.scenario.Indexed
  hasSubjects : e.scenario.HasSubjects
  isTimestamp : IsTimestamp e.currentDate

theorem orderly_create {date : Moment} (hdate : date.IsReal) {maxDepth : Int}
    {taxonomy : Taxonomy} (hsound : forall p, p ∈ taxonomy -> p.IsSound) {audit : Option AuditLog}
    {e : Engine} (h : create date maxDepth taxonomy audit = .ok e) : e.Orderly := by
  rcases exists_of_map_eq_ok h with ⟨currentDate, htime, rfl⟩
  constructor
  case sound => exact hsound
  case indexed => exact ⟨EventStore.verbIndexed_empty maxDepth, RuleSet.indexed_empty⟩
  case hasSubjects => exact fun r hr => by cases hr
  case isTimestamp => exact timestampOf_text hdate htime

variable {e : Engine}

theorem Orderly.of_unlogged_eq (h : e.Orderly) {after : Engine}
    (hsame : after.unlogged = e.unlogged) : after.Orderly := by
  constructor
  case sound =>
    rw [rulebook_eq_of_unlogged_eq hsame]
    exact h.sound
  case indexed =>
    rw [scenario_eq_of_unlogged_eq hsame]
    exact h.indexed
  case hasSubjects =>
    rw [scenario_eq_of_unlogged_eq hsame]
    exact h.hasSubjects
  case isTimestamp =>
    rw [currentDate_eq_of_unlogged_eq hsame]
    exact h.isTimestamp

/-- New rules do no harm if they have subjects. -/
theorem Orderly.of_added (h : e.Orderly) {after : Engine} (rules : List Rule)
    (htaxonomy : after.rulebook.taxonomy = e.rulebook.taxonomy)
    (hstore : after.store.VerbIndexed)
    (hrules : after.rulebook.rules = rules.foldl (fun s r => (s.add r).2) e.rulebook.rules)
    (hsubjects : forall r, r ∈ rules -> 1 ≤ r.fluent.arity)
    (hdate : after.currentDate = e.currentDate) : after.Orderly := by
  constructor
  case sound =>
    rw [htaxonomy]
    exact h.sound
  case indexed =>
    refine ⟨hstore, ?_⟩
    show after.rulebook.rules.Indexed
    rw [hrules]
    exact RuleSet.indexed_foldl_add rules h.indexed.rules
  case hasSubjects =>
    intro r hr
    have hmem : r ∈ after.rulebook.rules.all := hr
    rw [hrules] at hmem
    rcases RuleSet.mem_all_of_mem_foldl_add hmem with hold | hnew
    · exact h.hasSubjects r hold
    · exact hsubjects r hnew
  case isTimestamp =>
    rw [hdate]
    exact h.isTimestamp

theorem Orderly.storeEvent (h : e.Orderly) (c : Compound) (timestamp : String) :
    (e.storeEvent c timestamp).2.Orderly := by
  rcases e.rulebook.exists_rules_compileVerb c.functor.text c.arity with ⟨rules, hrules, hmade⟩
  apply h.of_added rules
  case htaxonomy => rw [rulebook_storeEvent, Rulebook.taxonomy_compileVerb]
  case hstore =>
    rw [store_storeEvent]
    exact h.indexed.store.push c timestamp
  case hrules => rw [rulebook_storeEvent, hrules]
  case hsubjects => exact fun r hr => Taxonomy.one_le_arity_of_mem_builtinRules (hmade r hr)
  case hdate => exact currentDate_storeEvent e c timestamp

theorem Orderly.assertEvent (h : e.Orderly) (v : Value) (m : Moment) :
    (e.assertEvent v m).2.Orderly := by
  cases hprepare : e.prepareEvent v m with
  | error fault => exact h.of_unlogged_eq (e.unlogged_assertEvent_of_error hprepare)
  | ok fact =>
      rw [assertEvent_of_ok e hprepare]
      exact h.storeEvent fact.1 fact.2

theorem Orderly.fst_storeEvent (h : e.Orderly) (c : Compound) (timestamp : String) :
    (e.storeEvent c timestamp).1 = .ok (e.store.size + 1) := by
  cases hstore : e.storeEvent c timestamp with
  | mk outcome after =>
      cases outcome with
      | ok id =>
          rw [id_of_storeEvent (congrArg Prod.fst hstore)]
      | error fault =>
          rcases storeEvent_eq_error hstore with ⟨cause, _, _, hclassify, _⟩
          rcases Taxonomy.exists_classify_eq_ok h.sound c.functor.valid c.arity with ⟨rules, hrules⟩
          rw [hclassify] at hrules
          cases hrules

/-- Only what cannot be prepared is refused, and it leaves no trace but in the log. -/
theorem Orderly.assertEvent_eq_error (h : e.Orderly) {v : Value} {m : Moment} {fault : Fault}
    (hassert : (e.assertEvent v m).1 = .error fault) :
    e.prepareEvent v m = .error fault ∧ (e.assertEvent v m).2.unlogged = e.unlogged := by
  cases hprepare : e.prepareEvent v m with
  | error reason =>
      have hfirst : (e.assertEvent v m).1 = .error reason := by
        rw [Engine.assertEvent, hprepare]
      rw [hfirst, Except.error.injEq] at hassert
      exact ⟨congrArg Except.error hassert, e.unlogged_assertEvent_of_error hprepare⟩
  | ok fact =>
      rw [assertEvent_of_ok e hprepare, h.fst_storeEvent] at hassert
      cases hassert

theorem Orderly.learn (h : e.Orderly) {input : RuleInput}
    (hgiven : forall rule, input = .rule rule -> 1 ≤ rule.fluent.arity) :
    (e.learn input).2.Orderly := by
  apply h.of_added (lessonRules input)
  case htaxonomy => rw [rulebook_learn, Rulebook.taxonomy_register]
  case hstore =>
    rw [store_learn]
    exact h.indexed.store
  case hrules => rw [rulebook_learn, Rulebook.rules_register]
  case hsubjects => exact fun r => one_le_arity_of_mem_lessonRules hgiven
  case hdate => exact currentDate_learn e input

theorem Orderly.learn_record (h : e.Orderly) (r : RuleRecord) :
    (e.learn (.record r)).2.Orderly :=
  h.learn fun _ hrule => by cases hrule

theorem Orderly.learn_data (h : e.Orderly) (v : Value) : (e.learn (.data v)).2.Orderly :=
  h.learn fun _ hrule => by cases hrule

theorem Orderly.reset (h : e.Orderly) : e.reset.Orderly := by
  constructor
  case sound =>
    rw [rulebook_reset]
    exact h.sound
  case indexed =>
    constructor
    · show e.reset.store.VerbIndexed
      rw [store_reset]
      exact EventStore.verbIndexed_empty _
    · show e.reset.rulebook.rules.Indexed
      rw [rulebook_reset]
      exact (Rulebook.complete_reset e.rulebook).indexed
  case hasSubjects =>
    intro r hr
    have hmem : r ∈ e.reset.rulebook.rules.all := hr
    rw [rulebook_reset] at hmem
    exact h.hasSubjects r (Rulebook.mem_all_of_mem_reset hmem).left
  case isTimestamp =>
    rw [currentDate_eq_of_unlogged_eq (unlogged_reset e)]
    exact h.isTimestamp

theorem Orderly.setCurrentDate (h : e.Orderly) (source : String) :
    (e.setCurrentDate (.text source)).2.Orderly := by
  unfold Engine.setCurrentDate
  cases htime : timestampOf (.text source) with
  | error fault => exact h
  | ok date =>
      exact ⟨h.sound, h.indexed, h.hasSubjects, timestampOf_text (Moment.isReal_text source) htime⟩

theorem Orderly.taught (h : e.Orderly) (lesson : Option RuleRecord) :
    (e.taught lesson).Orderly := by
  cases lesson with
  | none => exact h
  | some r => exact h.learn_record r

end Engine

/-!
# Archives and memories
-/

namespace Archive
variable {e : Engine}

theorem orderly_replayRecords (h : e.Orderly) (records : List RuleRecord) :
    (replayRecords e records).2.Orderly := by
  induction records generalizing e with
  | nil => exact h
  | cons r rest ih =>
      have hlearn := h.learn_record r
      rw [replayRecords]
      cases houtcome : e.learn (.record r) with
      | mk outcome after =>
          rw [houtcome] at hlearn
          cases outcome with
          | error fault => exact hlearn
          | ok rules => exact ih hlearn

theorem orderly_replayEvents (h : e.Orderly) (events : List Event) :
    (replayEvents e events).2.Orderly := by
  induction events generalizing e with
  | nil => exact h
  | cons x rest ih =>
      have hassert := h.assertEvent (.term x.description.toTerm) (.text x.timestamp)
      rw [replayEvents_cons]
      cases houtcome : e.assertEvent (.term x.description.toTerm) (.text x.timestamp) with
      | mk outcome after =>
          rw [houtcome] at hassert
          cases outcome with
          | error fault => exact hassert
          | ok id => exact ih hassert

theorem orderly_restore (a : Archive) (h : e.Orderly) : (a.restore e).2.Orderly := by
  unfold restore
  cases a.loadRecords with
  | error fault => exact h
  | ok records =>
      have hrecords := orderly_replayRecords h records
      simp only
      cases hreplay : replayRecords e records with
      | mk outcome taught =>
          rw [hreplay] at hrecords
          cases outcome with
          | error fault => exact hrecords
          | ok _ =>
              simp only
              cases a.loadEvents none none with
              | error fault => exact hrecords
              | ok events =>
                  have hevents := orderly_replayEvents hrecords events
                  simp only
                  cases hretell : replayEvents taught events with
                  | mk outcome told =>
                      rw [hretell] at hevents
                      cases outcome with
                      | error fault => exact hevents
                      | ok _ => exact hevents

end Archive

namespace MemoryState
variable {s : MemoryState}

theorem orderly_prepareVerb (h : s.engine.Orderly) (c : Compound) (context : String) :
    (s.prepareVerb c context).2.engine.Orderly := by
  rw [engine_prepareVerb]
  exact h.taught _

theorem orderly_recordCompound (h : s.engine.Orderly) (c : Compound) (context : String)
    (m : Moment) : (s.recordCompound c context m).2.engine.Orderly := by
  rcases s.recordCompound_cases c context m with ⟨fault, hrecord, _⟩ | ⟨_, hengine⟩
  · rw [hrecord]
    exact orderly_prepareVerb h c context
  · rw [hengine]
    exact (h.taught _).assertEvent _ m

theorem orderly_recordEvents (h : s.engine.Orderly) (context : String) (m : Moment)
    (events : List StatedEvent) : (s.recordEvents context m events).2.engine.Orderly := by
  induction events generalizing s with
  | nil => exact h
  | cons e rest ih =>
      cases hcompound : e.compound with
      | error reason =>
          rw [recordEvents_cons_of_unusable hcompound]
          exact ih (s := s.warn [.unusableEvent e reason]) h
      | ok c =>
          have hrecorded := orderly_recordCompound h c context m
          cases hrecord : s.recordCompound c context m with
          | mk outcome next =>
              rw [hrecord] at hrecorded
              cases outcome with
              | error reason =>
                  rw [recordEvents_cons_of_fault hcompound hrecord]
                  exact hrecorded
              | ok id =>
                  rw [recordEvents_cons_of_recorded hcompound hrecord]
                  exact ih hrecorded

theorem orderly_remember (h : s.engine.Orderly) (statement : String) (m : Option Moment) :
    (s.remember statement m).2.engine.Orderly := by
  unfold remember
  cases readStatement s.memory.model statement with
  | mk reading model =>
      cases reading with
      | error fault => exact h
      | ok reading =>
          let asked : MemoryState :=
            warn { s with memory := { s.memory with model := model } } reading.warnings
          exact orderly_recordEvents (s := asked) h statement _ reading.events

end MemoryState

/-!
# Consoles
-/

namespace Console

/-- What a new console becomes by commands, statements, and starting sessions. -/
inductive Reachable : Console -> Prop where
  | fresh {date : Moment} (hdate : date.IsReal) {maxDepth : Int} {taxonomy : Taxonomy}
      (hsound : forall p, p ∈ taxonomy -> p.IsSound) {audit : Option AuditLog} {engine : Engine}
      (h : Engine.create date maxDepth taxonomy audit = .ok engine) (archive : Archive)
      (archiveFile : String) (memory : Option Memory) :
      Reachable ⟨engine, archive, archiveFile, memory⟩
  | handle {c : Console} (hc : Reachable c) (line : String) : Reachable (c.handle line).console
  | remember {c : Console} (hc : Reachable c) (statement : String) :
      Reachable (c.remember statement).console
  | start {c : Console} (hc : Reachable c) : Reachable c.start.2

variable {c : Console}

section
variable {line : String}

theorem handle_of_leave (h : Command.ofLine line = .leave) (c : Console) :
    c.handle line = ⟨.ok false, "\n👋 Goodbye!\n", [], c⟩ := by
  rw [handle, h]

theorem handle_of_ok (hstays : Command.ofLine line ≠ .leave) {text : String} {after : Console}
    (h : c.perform (Command.ofLine line) = (.ok text, after)) :
    c.handle line = ⟨.ok true, text, [], after⟩ := by
  unfold handle
  cases hcommand : Command.ofLine line with
  | leave => exact absurd hcommand hstays
  | _ =>
      rw [hcommand] at h
      simp only [h]

theorem handle_of_error {fault : Fault} {after : Console}
    (h : c.perform (Command.ofLine line) = (.error fault, after)) :
    c.handle line = if fault.isRejection then ⟨.ok true, shownFault fault, [], after⟩
      else ⟨.error fault, "", [], after⟩ := by
  unfold handle
  cases hcommand : Command.ofLine line with
  | leave =>
      rw [hcommand] at h
      cases (Prod.mk.inj h).left
  | _ =>
      rw [hcommand] at h
      simp only [h]

end

theorem console_handle (c : Console) (line : String) :
    (c.handle line).console = (c.perform (Command.ofLine line)).2 := by
  cases hperform : c.perform (Command.ofLine line) with
  | mk outcome after =>
      cases outcome with
      | ok text =>
          by_cases hleave : Command.ofLine line = .leave
          · rw [hleave] at hperform
            rw [handle_of_leave hleave]
            exact (Prod.mk.inj hperform).right
          · rw [handle_of_ok hleave hperform]
      | error fault =>
          rw [handle_of_error hperform]
          split
          · rfl
          · rfl

theorem orderly_perform (h : c.engine.Orderly) (command : Command) :
    (c.perform command).2.engine.Orderly := by
  cases command with
  | assert argument => exact h.assertEvent _ _
  | query argument => exact h.of_unlogged_eq (c.engine.unlogged_query _ _)
  | holds argument => exact h.of_unlogged_eq (c.engine.unlogged_query _ _)
  | ever argument => exact h.of_unlogged_eq (c.engine.unlogged_pattern _)
  | timeline argument => exact h.of_unlogged_eq (c.engine.unlogged_pattern _)
  | now argument =>
      rw [perform, nowCommand]
      by_cases hempty : argument = ""
      · rw [if_pos hempty]
        exact h
      · rw [if_neg hempty]
        exact h.setCurrentDate argument
  | learn argument =>
      rw [perform, learnCommand]
      simp only
      split
      · exact h
      · split
        · exact h
        · exact h
        · exact h.learn_data _
        · exact h
  | reset => exact h.reset
  | state _ | events | save | help | unknown _ | leave => exact h

theorem orderly_remember (h : c.engine.Orderly) (statement : String) :
    (c.remember statement).console.engine.Orderly := by
  unfold remember
  cases c.memory with
  | none => exact h
  | some memory =>
      have hremember := MemoryState.orderly_remember (s := ⟨memory, c.engine, []⟩) h statement none
      simp only
      split
      · exact hremember
      · exact hremember
      · split
        · exact hremember
        · exact hremember

/-- The engine of a console is orderly, whatever was entered. -/
theorem Reachable.orderly (h : c.Reachable) : c.engine.Orderly := by
  induction h with
  | fresh hdate hsound hcreate archive archiveFile memory =>
      exact Engine.orderly_create hdate hsound hcreate
  | handle _ line ih =>
      rw [console_handle]
      exact orderly_perform ih (Command.ofLine line)
  | remember _ statement ih => exact orderly_remember ih statement
  | start _ ih => exact Archive.orderly_restore _ ih

end Console
end EventCalculus
