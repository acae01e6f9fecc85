import EventCalculus.Proofs.EngineHistory
import EventCalculus.Proofs.HoldingState
import EventCalculus.Proofs.PastAnswers

/-!
# Events of unknown verbs

A verb is unknown to an engine if no rule in force has it and the taxonomy makes none for it.  The
evaluator finds events through the verbs of rules, so it does not come across an event of such a
verb: it is stored, and every answer stays as it was.
-/

namespace EventCalculus

namespace Scenario

/-!
# Scenarios that derive the same
-/

/-- The evaluator finds the same initiations and the same clippings, in the same order. -/
structure DerivesSame (s s' : Scenario) : Prop where
  initiations : forall domain arity limit,
    s'.initiations domain arity limit = s.initiations domain arity limit
  allInitiations : forall limit, s'.allInitiations limit = s.allInitiations limit
  clippings : forall fluent, s'.clippings fluent = s.clippings fluent

section
variable {s s' : Scenario} (h : DerivesSame s s')
include h

theorem DerivesSame.persists_eq : s'.persists = s.persists := by
  funext i time
  simp only [persists, isClipped, h.clippings]

theorem DerivesSame.query_eq : s'.query = s.query := by
  have hcandidate : s'.candidate? = s.candidate? := by
    funext p time i
    simp only [candidate?, h.persists_eq]
  funext p time
  simp only [query, candidates, h.initiations, hcandidate]

theorem DerivesSame.everHeld_eq : s'.everHeld = s.everHeld := by
  funext p
  simp only [everHeld, h.initiations]

theorem DerivesSame.timeline_eq : s'.timeline = s.timeline := by
  have hintervals : s'.intervals = s.intervals := by
    funext fluent
    have hholds : s'.holdsAt = s.holdsAt := by
      funext p time
      simp only [holdsAt, h.query_eq]
    simp only [intervals, changePoints, hholds, h.initiations, h.clippings]
  funext p
  simp only [timeline, fluentsOf, h.initiations, hintervals]

theorem DerivesSame.allHolding?_eq : s'.allHolding? = s.allHolding? := by
  have hadd : s'.addHolding = s.addHolding := by
    funext time holdings i
    simp only [addHolding, h.persists_eq]
  funext time
  simp only [allHolding?, h.allInitiations, hadd]

end

/-!
# An event that no rule is about
-/

section
variable {s : Scenario} {c : Compound} (timestamp : String)

/-- The scenario with one more event. -/
def happening (s : Scenario) (c : Compound) (timestamp : String) : Scenario :=
  { s with store := (s.store.push c timestamp).2 }

theorem withVerb_happening {verb : String} (hverb : c.functor.text ≠ verb) :
    (s.happening c timestamp).store.withVerb verb = s.store.withVerb verb := by
  show ((s.store.byVerb.push c.functor.text ⟨s.store.size + 1, c, timestamp⟩).get? verb).getD [] =
    s.store.withVerb verb
  rw [OrderedMap.getD_push, if_neg hverb]
  rfl

/-- If no rule has the verb of the event, nothing is derived from it. -/
theorem derivesSame_happening (hrules : s.rules.Indexed)
    (hnone : s.rules.forVerb c.functor.text = []) :
    DerivesSame s (s.happening c timestamp) := by
  have hverb : forall r, r ∈ s.rules.all -> c.functor.text ≠ r.verb := by
    intro r hr heq
    have hmem := (hrules.mem_forVerb_iff r c.functor.text).mpr ⟨hr, heq.symm⟩
    rw [hnone] at hmem
    cases hmem
  have hinitiationsBy : forall r, r ∈ s.rules.all -> forall limit,
      (s.happening c timestamp).initiationsBy r limit = s.initiationsBy r limit := by
    intro r hr limit
    rw [initiationsBy, withVerb_happening timestamp (hverb r hr), initiationsBy]
  have hinitiations : forall domain arity limit,
      (s.happening c timestamp).initiations domain arity limit =
        s.initiations domain arity limit := by
    intro domain arity limit
    apply List.flatMap_congr
    intro r hr
    exact hinitiationsBy r ((hrules.mem_affecting_iff r _ _ _).mp hr).left limit
  constructor
  case initiations => exact hinitiations
  case allInitiations =>
    intro limit
    apply List.flatMap_congr
    intro r hr
    exact hinitiationsBy r ((RuleSet.mem_initiatingAll_iff hrules r).mp hr).left limit
  case clippings =>
    intro fluent
    have hterminations : (s.happening c timestamp).terminations fluent = s.terminations fluent := by
      apply List.flatMap_congr
      intro r hr
      have hmem := ((hrules.mem_affecting_iff r _ _ _).mp hr).left
      rw [terminationsBy, withVerb_happening timestamp (hverb r hmem), terminationsBy]
    have hdisplacements : (s.happening c timestamp).displacements fluent =
        s.displacements fluent := by
      unfold displacements
      rw [hinitiations]
      rfl
    rw [clippings, clippings, hterminations, hdisplacements]

end
end Scenario

/-!
# Unknown verbs
-/

theorem Rulebook.compileVerb_of_no_rules {b : Rulebook} {verb : String} {arity : Nat}
    (h : b.taxonomy.classify verb arity = .ok []) :
    (b.compileVerb verb arity).2.rules = b.rules ∧
      (b.compileVerb verb arity).2.exclusive = b.exclusive := by
  by_cases hmet : (verb, arity) ∈ b.compiled
  · rw [compileVerb_of_mem hmet]
    exact ⟨rfl, rfl⟩
  · have hnone : b.taxonomy.builtinRules (verb, arity) = [] := by
      simp only [Taxonomy.builtinRules, h]
    rw [compileVerb_of_not_mem hmet, hnone]
    exact ⟨rfl, rfl⟩

namespace Engine
variable {e after : Engine}

theorem isKnownVerb_eq_ok_false_iff {verb : String} {arity : Nat} :
    e.isKnownVerb verb arity = .ok false ↔
      e.rulebook.rules.forVerb verb = [] ∧
        e.rulebook.taxonomy.classify verb arity = .ok [] := by
  unfold isKnownVerb Rulebook.hasBuiltin
  cases hrules : e.rulebook.rules.forVerb verb with
  | cons r rest => simp
  | nil =>
      cases hclassify : e.rulebook.taxonomy.classify verb arity with
      | error fault => simp [Except.map, Except.mapError]
      | ok made => simp [Except.map, Except.mapError]

/-!
# Reachable engines
-/

/-- What any operations make of a new engine, whether they succeed or not. -/
inductive Reachable : Engine -> Prop where
  | create {date : Moment} {maxDepth : Int} {taxonomy : Taxonomy} {audit : Option AuditLog}
      {start : Engine} (h : Engine.create date maxDepth taxonomy audit = .ok start) :
      Reachable start
  | assertEvent {e : Engine} (h : Reachable e) (description : Value) (m : Moment) :
      Reachable (e.assertEvent description m).2
  | learn {e : Engine} (h : Reachable e) (input : RuleInput) : Reachable (e.learn input).2
  | reset {e : Engine} (h : Reachable e) : Reachable e.reset
  | setCurrentDate {e : Engine} (h : Reachable e) (m : Moment) :
      Reachable (e.setCurrentDate m).2
  | query {e : Engine} (h : Reachable e) (v : Value) (m : Option Moment) :
      Reachable (e.query v m).2
  | everHeld {e : Engine} (h : Reachable e) (v : Value) : Reachable (e.everHeld v).2
  | timeline {e : Engine} (h : Reachable e) (v : Value) : Reachable (e.timeline v).2

theorem rulebook_setCurrentDate (e : Engine) (m : Moment) :
    (e.setCurrentDate m).2.rulebook = e.rulebook := by
  unfold setCurrentDate
  cases timestampOf m with
  | error fault => rfl
  | ok date => rfl

theorem Reachable.complete (h : Reachable e) : e.rulebook.Complete := by
  induction h with
  | create h =>
      rcases exists_of_map_eq_ok h with ⟨_, _, rfl⟩
      exact Rulebook.complete_ofTaxonomy _
  | @assertEvent e _ description m ih =>
      cases hfact : e.prepareEvent description m with
      | error fault =>
          rw [rulebook_eq_of_unlogged_eq (e.unlogged_assertEvent_of_error hfact)]
          exact ih
      | ok fact =>
          rw [assertEvent_of_ok e hfact, rulebook_storeEvent]
          exact ih.compileVerb _ _
  | learn _ input ih =>
      rw [rulebook_learn]
      exact ih.register _
  | @reset e _ _ =>
      rw [rulebook_reset]
      exact Rulebook.complete_reset e.rulebook
  | setCurrentDate _ m ih =>
      rw [rulebook_setCurrentDate]
      exact ih
  | @query e _ v m ih =>
      rw [rulebook_eq_of_unlogged_eq (e.unlogged_query v m)]
      exact ih
  | @everHeld e _ v ih =>
      show (e.pattern v).2.rulebook.Complete
      rw [rulebook_eq_of_unlogged_eq (e.unlogged_pattern v)]
      exact ih
  | @timeline e _ v ih =>
      show (e.pattern v).2.rulebook.Complete
      rw [rulebook_eq_of_unlogged_eq (e.unlogged_pattern v)]
      exact ih

/-!
# Assertions
-/

/-- The value denotes the compound. -/
def Denotes (v : Value) (c : Compound) : Prop :=
  readTerm v = .ok (.term c.toTerm)

theorem eq_of_prepareEvent {v : Value} {c other : Compound} (hv : Denotes v c) {m : Moment}
    {timestamp : String} (h : e.prepareEvent v m = .ok (other, timestamp)) : other = c := by
  rcases exists_of_bind_eq_ok h with ⟨given, hgiven, h⟩
  rcases exists_of_bind_eq_ok h with ⟨time, _, h⟩
  rcases exists_of_bind_eq_ok h with ⟨t, ht, h⟩
  rcases exists_of_bind_eq_ok h with ⟨compound, hcompound, h⟩
  cases h
  rw [hv] at hgiven
  cases hgiven
  cases ht
  have hvalid := exists_of_mapError_eq_ok hcompound
  have hterm : Compound.ofTerm? c.toTerm = some c := rfl
  unfold EventStore.validate at hvalid
  simp only [hterm] at hvalid
  split at hvalid
  · cases hvalid
  · split at hvalid
    · cases hvalid
    · cases hvalid
      rfl

theorem id_of_storeEvent {c : Compound} {timestamp : String} {id : Nat}
    (h : (e.storeEvent c timestamp).1 = .ok id) : id = e.store.size + 1 := by
  unfold storeEvent at h
  simp only at h
  split at h
  · cases h
  · cases h
    rfl

/-- Nothing but the event was added, and no answer is another one. -/
structure OnlyRecords (e after : Engine) (x : Event) : Prop where
  events : after.store.events = e.store.events ++ [x]
  rules : after.rulebook.rules = e.rulebook.rules
  exclusive : after.rulebook.exclusive = e.rulebook.exclusive
  records : after.records = e.records
  query : forall v m, (after.query v m).1 = (e.query v m).1
  holds : forall v m, (after.holds v m).1 = (e.holds v m).1
  allHolding : forall m, after.allHolding m = e.allHolding m
  everHeld : forall v, (after.everHeld v).1 = (e.everHeld v).1
  timeline : forall v, (after.timeline v).1 = (e.timeline v).1

theorem Reachable.onlyRecords_storeEvent (he : e.Reachable) {c : Compound} (timestamp : String)
    (hunknown : e.isKnownVerb c.functor.text c.arity = .ok false) :
    OnlyRecords e (e.storeEvent c timestamp).2 ⟨e.store.size + 1, c, timestamp⟩ := by
  rcases isKnownVerb_eq_ok_false_iff.mp hunknown with ⟨hnone, hclassify⟩
  rcases Rulebook.compileVerb_of_no_rules hclassify with ⟨hrules, hexclusive⟩
  rw [← rulebook_storeEvent e c timestamp] at hrules hexclusive
  have hscenario : (e.storeEvent c timestamp).2.scenario = e.scenario.happening c timestamp := by
    rw [scenario, store_storeEvent, hrules, hexclusive]
    rfl
  have hsame : e.scenario.DerivesSame (e.storeEvent c timestamp).2.scenario := by
    rw [hscenario]
    exact Scenario.derivesSame_happening timestamp he.complete.indexed hnone
  have hdate := e.currentDate_storeEvent c timestamp
  have hquery : forall v m, ((e.storeEvent c timestamp).2.query v m).1 = (e.query v m).1 := by
    intro v m
    rw [fst_query, fst_query, fst_patternAt_eq_of_currentDate hdate, hsame.query_eq]
  constructor
  case events =>
    rw [store_storeEvent]
    rfl
  case rules => exact hrules
  case exclusive => exact hexclusive
  case records =>
    have hrecords := congrArg Engine.records (e.unlogged_storeEvent c timestamp)
    exact hrecords
  case query => exact hquery
  case holds =>
    intro v m
    rw [fst_holds, fst_holds, hquery]
  case allHolding =>
    intro m
    rw [allHolding, allHolding, timeOf_eq_of_currentDate hdate, hsame.allHolding?_eq]
  case everHeld =>
    intro v
    rw [fst_everHeld, fst_everHeld, fst_pattern _ e, hsame.everHeld_eq]
  case timeline =>
    intro v
    rw [fst_timeline, fst_timeline, fst_pattern _ e, hsame.timeline_eq]

/-- An event of an unknown verb is recorded, and changes no rule and no answer. -/
theorem unknown_verb_only_recorded (he : e.Reachable) {c : Compound}
    (hunknown : e.isKnownVerb c.functor.text c.arity = .ok false) {v : Value} (hv : Denotes v c)
    {m : Moment} {id : Nat} (hassert : e.assertEvent v m = (.ok id, after)) :
    exists timestamp, timestampOf m = .ok timestamp ∧
      OnlyRecords e after ⟨id, c, timestamp⟩ := by
  cases hprepare : e.prepareEvent v m with
  | error fault =>
      unfold assertEvent at hassert
      rw [hprepare] at hassert
      cases (Prod.mk.inj hassert).left
  | ok fact =>
      rcases fact with ⟨other, timestamp⟩
      rw [eq_of_prepareEvent hv hprepare] at hprepare
      rw [assertEvent_of_ok e hprepare] at hassert
      have hid : id = e.store.size + 1 := id_of_storeEvent (congrArg Prod.fst hassert)
      have hafter : (e.storeEvent c timestamp).2 = after := congrArg Prod.snd hassert
      refine ⟨timestamp, (exists_of_prepareEvent_eq_ok hprepare).left, ?_⟩
      rw [hid, ← hafter]
      exact he.onlyRecords_storeEvent timestamp hunknown

end Engine

namespace Residence

/-- She sneezes after a move. -/
def sneezing : Compound :=
  ⟨⟨"sneezed", by decide +kernel⟩, [alice]⟩

def moved : Engine :=
  (engine.assertEvent (.term (move paris).toTerm) (.date firstDay)).2

theorem reachable_moved : moved.Reachable := by
  have hcreate : Engine.create (.date firstDay) EventStore.defaultMaxDepth Taxonomy.standard none =
      .ok engine := rfl
  exact .assertEvent (.create hcreate) _ _

end Residence

namespace Engine

open Residence

theorem unknown_verb_only_recorded_sneezing :
    moved.Reachable ∧ moved.isKnownVerb sneezing.functor.text sneezing.arity = .ok false ∧
      Denotes (.term sneezing.toTerm) sneezing ∧
      exists id after, moved.assertEvent (.term sneezing.toTerm) (.date firstDay) =
          (.ok id, after) ∧
        exists timestamp, timestampOf (.date firstDay) = .ok timestamp ∧
          OnlyRecords moved after ⟨id, sneezing, timestamp⟩ := by
  have hunknown : (moved.isKnownVerb sneezing.functor.text sneezing.arity).toOption =
      some false := by
    decide +kernel
  have hid : (moved.assertEvent (.term sneezing.toTerm) (.date firstDay)).1.toOption = some 2 := by
    decide +kernel
  have hassert : moved.assertEvent (.term sneezing.toTerm) (.date firstDay) =
      (.ok 2, (moved.assertEvent (.term sneezing.toTerm) (.date firstDay)).2) :=
    Prod.ext (toOption_eq_some_iff.mp hid) rfl
  have hdenotes : Denotes (.term sneezing.toTerm) sneezing := rfl
  exact ⟨reachable_moved, toOption_eq_some_iff.mp hunknown, hdenotes, 2, _, hassert,
    unknown_verb_only_recorded reachable_moved (toOption_eq_some_iff.mp hunknown) hdenotes
      hassert⟩

end Engine
end EventCalculus
