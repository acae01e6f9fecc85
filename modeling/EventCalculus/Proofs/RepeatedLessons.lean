import EventCalculus.Proofs.RegisteredRules
import EventCalculus.Proofs.RuleOrigins
import EventCalculus.Proofs.UnknownVerbs

/-!
# Repeated lessons

Rules are made before any of them is registered, so a lesson that cannot be learned changes nothing.
One that can be brings the rules that are not in force yet, if only by a rule that is the same.
From then on it brings nothing: events and questions take away neither rules nor records, whatever
built-in rules the events bring.
-/

namespace EventCalculus

/-!
# Writing what is there
-/

theorem insertEntry_of_findValue? [DecidableEq κ] {entries : List (κ × α)} {key : κ} {value : α}
    (h : findValue? key entries = some value) : insertEntry key value entries = entries := by
  induction entries with
  | nil => cases h
  | cons entry rest ih =>
      rcases entry with ⟨k, v⟩
      by_cases hk : k = key
      · rw [findValue?, if_pos hk, Option.some.injEq] at h
        rw [insertEntry, if_pos hk, hk, h]
      · rw [findValue?, if_neg hk] at h
        rw [insertEntry, if_neg hk, ih h]

theorem OrderedMap.insert_of_get? [DecidableEq κ] {m : OrderedMap κ α} {key : κ} {value : α}
    (h : m.get? key = some value) : m.insert key value = m := by
  rcases m with ⟨entries, hnodup⟩
  simp only [insert, mk.injEq]
  exact insertEntry_of_findValue? h

theorem ExclusiveDomains.insert_of_contains {s : ExclusiveDomains} {domain : String}
    (h : s.contains domain = true) : s.insert domain = s := by
  unfold insert
  rw [dif_pos (List.contains_iff_mem.mp h)]

/-!
# Registration
-/

namespace Rulebook

variable {b : Rulebook} {rules : List Rule} {r : Rule}

theorem contains_eq_any (hb : b.rules.Indexed) (r : Rule) :
    b.rules.contains r = b.rules.all.any r.same := by
  rw [Bool.eq_iff_iff, RuleSet.contains_iff hb, List.any_eq_true]
  constructor
  · intro h
    rcases h with ⟨other, hother, hsame⟩
    exact ⟨other, hother, Rule.same_symm hsame⟩
  · intro h
    rcases h with ⟨other, hother, hsame⟩
    exact ⟨other, hother, Rule.same_symm hsame⟩

/-- The new rules are those that are the same as none, and they are added to the others. -/
theorem register_adds (hb : b.rules.Indexed) (rules : List Rule) :
    (b.register rules).1 = newEntries Rule.same b.rules.all rules ∧
      (b.register rules).2.rules.all.Perm (b.rules.all ++ (b.register rules).1) := by
  -- Rules are grouped by their verbs, so what is added is not at the end of the list.
  induction rules generalizing b with
  | nil => exact ⟨rfl, by rw [register, List.append_nil]⟩
  | cons r rest ih =>
      rcases ih (b := (b.registerRule r).2) (hb.add r) with ⟨hadded, hperm⟩
      rw [rules_registerRule] at hadded hperm
      have hfirst : (b.registerRule r).1 = (b.rules.add r).1 := rfl
      by_cases hcontains : b.rules.contains r = true
      · have hmet := (contains_eq_any hb r).symm.trans hcontains
        rw [RuleSet.add_of_contains hcontains] at hadded hperm hfirst
        simp only [register, hfirst, Bool.false_eq_true, ↓reduceIte]
        exact ⟨hadded.trans (newEntries_cons_of_any hmet rest).symm, hperm⟩
      · have hnew : ¬ b.rules.all.any r.same = true :=
          fun hmet => hcontains ((contains_eq_any hb r).trans hmet)
        have hpush := b.rules.all_push_perm r
        rw [RuleSet.add_of_not_contains hcontains] at hadded hperm hfirst
        simp only [register, hfirst, ↓reduceIte]
        constructor
        · rw [hadded, newEntries_of_perm hpush, newEntries_cons hnew]
        · rw [List.append_cons]
          exact hperm.trans (hpush.append_right _)

/-- A rule that is in force has made its domain exclusive already. -/
theorem Mirrors.registerRule_of_contains (hb : b.Mirrors) (hr : b.rules.contains r = true) :
    b.registerRule r = (false, b) := by
  unfold Rulebook.registerRule
  simp only [RuleSet.add_of_contains hr]
  split
  · rename_i hexclusive
    rcases (RuleSet.contains_iff hb.indexed r).mp hr with ⟨other, hother, hsame⟩
    have hdomain : b.exclusive.contains r.domain = true :=
      (hb.exclusive_iff r.domain).mpr ⟨other, hother,
        (Rule.exclusive_eq_of_same hsame).trans hexclusive, Rule.domain_eq_of_same hsame⟩
    rw [ExclusiveDomains.insert_of_contains hdomain]
  · rfl

theorem Mirrors.register_of_contains (hb : b.Mirrors)
    (hrules : forall r, r ∈ rules -> b.rules.contains r = true) : b.register rules = ([], b) := by
  induction rules with
  | nil => rfl
  | cons r rest ih =>
      rw [Rulebook.register, hb.registerRule_of_contains (hrules r List.mem_cons_self)]
      simp only [ih fun x hx => hrules x (List.mem_cons_of_mem r hx), Bool.false_eq_true,
        ↓reduceIte]

end Rulebook

namespace Engine
variable {e : Engine}

/-!
# Engines that nothing has changed
-/

/-- Events, rules, exclusive domains and records are the same, and so is every answer. -/
structure Unchanged (e after : Engine) : Prop where
  store : after.store = e.store
  rules : after.rulebook.rules = e.rulebook.rules
  exclusive : after.rulebook.exclusive = e.rulebook.exclusive
  records : after.records = e.records
  events : forall start stop, after.events start stop = e.events start stop
  learnedRules : after.learnedRules = e.learnedRules
  isKnownVerb : forall verb arity, after.isKnownVerb verb arity = e.isKnownVerb verb arity
  query : forall v m, (after.query v m).1 = (e.query v m).1
  holds : forall v m, (after.holds v m).1 = (e.holds v m).1
  allHolding : forall m, after.allHolding m = e.allHolding m
  everHeld : forall v, (after.everHeld v).1 = (e.everHeld v).1
  timeline : forall v, (after.timeline v).1 = (e.timeline v).1

/-- The log has no part in what an engine answers. -/
theorem unchanged_of_unlogged_eq {after : Engine} (h : after.unlogged = e.unlogged) :
    Unchanged e after := by
  have hstore := store_eq_of_unlogged_eq h
  have hrulebook := rulebook_eq_of_unlogged_eq h
  have hscenario := scenario_eq_of_unlogged_eq h
  have hdate := currentDate_eq_of_unlogged_eq h
  have hquery : forall v m, (after.query v m).1 = (e.query v m).1 := by
    intro v m
    rw [fst_query, fst_query, fst_patternAt_eq_of_currentDate hdate, hscenario]
  constructor
  case store => exact hstore
  case rules => rw [hrulebook]
  case exclusive => rw [hrulebook]
  case records => exact records_eq_of_unlogged_eq h
  case events =>
    intro start stop
    rw [Engine.events, Engine.events, hstore]
  case learnedRules => rw [Engine.learnedRules, Engine.learnedRules, hrulebook]
  case isKnownVerb =>
    intro verb arity
    rw [Engine.isKnownVerb, Engine.isKnownVerb, hrulebook]
  case query => exact hquery
  case holds =>
    intro v m
    rw [fst_holds, fst_holds, hquery]
  case allHolding =>
    intro m
    rw [Engine.allHolding, Engine.allHolding, timeOf_eq_of_currentDate hdate, hscenario]
  case everHeld =>
    intro v
    rw [fst_everHeld, fst_everHeld, fst_pattern _ e, hscenario]
  case timeline =>
    intro v
    rw [fst_timeline, fst_timeline, fst_pattern _ e, hscenario]

/-!
# Between two lessons
-/

/-- An operation that teaches no rule: an event, or a question that may leave an entry in the log.
The other questions give no engine back. -/
inductive Use where
  | assertEvent (description : Value) (m : Moment)
  | query (v : Value) (m : Option Moment)
  | holds (v : Value) (m : Option Moment)
  | everHeld (v : Value)
  | timeline (v : Value)

/-- The engine after an operation, whether that succeeds or not. -/
def use (e : Engine) : Use -> Engine
  | .assertEvent description m => (e.assertEvent description m).2
  | .query v m => (e.query v m).2
  | .holds v m => (e.holds v m).2
  | .everHeld v => (e.everHeld v).2
  | .timeline v => (e.timeline v).2

def useAll (e : Engine) (uses : List Use) : Engine :=
  uses.foldl use e

/-- The rules are in force, if only by some that are the same, and the record is kept. -/
structure HasLearned (e : Engine) (rules : List Rule) (record : Option RuleRecord) : Prop where
  complete : e.rulebook.Complete
  contains : forall r, r ∈ rules -> e.rulebook.rules.contains r = true
  kept : forall r, record = some r -> e.records.get? r.verb.text = some r

section
variable {rules : List Rule} {record : Option RuleRecord}

theorem HasLearned.of_unlogged_eq (h : e.HasLearned rules record) {next : Engine}
    (hnext : next.unlogged = e.unlogged) : next.HasLearned rules record := by
  constructor
  case complete =>
    rw [rulebook_eq_of_unlogged_eq hnext]
    exact h.complete
  case contains =>
    rw [rulebook_eq_of_unlogged_eq hnext]
    exact h.contains
  case kept =>
    rw [records_eq_of_unlogged_eq hnext]
    exact h.kept

/-- The rules that come with the verb of an event are added to the others. -/
theorem HasLearned.storeEvent (h : e.HasLearned rules record) (c : Compound) (timestamp : String) :
    (e.storeEvent c timestamp).2.HasLearned rules record := by
  have hrulebook := e.rulebook_storeEvent c timestamp
  constructor
  case complete =>
    rw [hrulebook]
    exact h.complete.compileVerb _ _
  case contains =>
    rcases e.rulebook.exists_rules_compileVerb c.functor.text c.arity with ⟨brought, hrules, _⟩
    intro r hr
    rw [hrulebook, hrules]
    exact RuleSet.contains_foldl_add h.complete.indexed (Or.inl (h.contains r hr))
  case kept =>
    rw [records_eq_of_unlogged_eq (e.unlogged_storeEvent c timestamp)]
    exact h.kept

theorem HasLearned.use (h : e.HasLearned rules record) (u : Use) :
    (e.use u).HasLearned rules record := by
  cases u with
  | assertEvent description m =>
      show (e.assertEvent description m).2.HasLearned rules record
      cases hprepare : e.prepareEvent description m with
      | error fault => exact h.of_unlogged_eq (e.unlogged_assertEvent_of_error hprepare)
      | ok fact =>
          rw [assertEvent_of_ok e hprepare]
          exact h.storeEvent fact.1 fact.2
  | query v m => exact h.of_unlogged_eq (e.unlogged_query v m)
  | holds v m => exact h.of_unlogged_eq (e.unlogged_query v m)
  | everHeld v => exact h.of_unlogged_eq (e.unlogged_pattern v)
  | timeline v => exact h.of_unlogged_eq (e.unlogged_pattern v)

theorem HasLearned.useAll (h : e.HasLearned rules record) (uses : List Use) :
    (e.useAll uses).HasLearned rules record := by
  induction uses generalizing e with
  | nil => exact h
  | cons u rest ih => exact ih (h.use u)

end

/-!
# Lessons
-/

section
variable {input : RuleInput} {rules : List Rule} {record : Option RuleRecord}

theorem hasLearned_learn (he : e.rulebook.Complete)
    (hmade : rulesOfInput input = .ok (rules, record)) :
    (e.learn input).2.HasLearned rules record := by
  have hafter := e.unlogged_learn_of_ok hmade
  have hrulebook := rulebook_eq_of_unlogged_eq hafter
  rw [rulebook_keepRecord] at hrulebook
  constructor
  case complete =>
    rw [hrulebook]
    exact he.register rules
  case contains =>
    intro r hr
    rw [hrulebook, Rulebook.rules_register]
    exact RuleSet.contains_foldl_add he.indexed (Or.inr hr)
  case kept =>
    intro r hr
    rw [records_eq_of_unlogged_eq hafter, hr]
    show (e.records.insert r.verb.text r).get? r.verb.text = some r
    rw [OrderedMap.get?_insert, if_pos rfl]

/-- What the engine has learned brings no rule and leaves at most entries in the log. -/
theorem HasLearned.learn_again (h : e.HasLearned rules record)
    (hmade : rulesOfInput input = .ok (rules, record)) :
    (e.learn input).1 = .ok [] ∧ (e.learn input).2.unlogged = e.unlogged := by
  have hregister := h.complete.toMirrors.register_of_contains h.contains
  constructor
  · rw [fst_learn, hmade]
    show Except.ok (e.rulebook.register rules).1 = Except.ok []
    rw [hregister]
  · rw [e.unlogged_learn_of_ok hmade, hregister]
    cases record with
    | none => rfl
    | some r =>
        show unlogged { e with records := e.records.insert r.verb.text r } = e.unlogged
        rw [OrderedMap.insert_of_get? (h.kept r rfl)]

end

/-- A lesson brings all rules that are not in force, or changes nothing; and from then on it brings
nothing and changes nothing. -/
structure LearnsOnce (e : Engine) (input : RuleInput) : Prop where
  outcome : (e.learn input).1 =
    (rulesOfInput input).map fun made => newEntries Rule.same e.rulebook.rules.all made.1
  failed : forall fault, (e.learn input).1 = .error fault -> Unchanged e (e.learn input).2
  added : forall rules, (e.learn input).1 = .ok rules ->
    (e.learn input).2.rulebook.rules.all.Perm (e.rulebook.rules.all ++ rules)
  again : forall rules, (e.learn input).1 = .ok rules -> forall uses,
    (((e.learn input).2.useAll uses).learn input).1 = .ok [] ∧
      Unchanged ((e.learn input).2.useAll uses) (((e.learn input).2.useAll uses).learn input).2

end Engine

namespace Residence

def visited : Functor :=
  ⟨"visited", by decide +kernel⟩

def visiting : Value :=
  .object [("fluent", .text "visited")]

/-- Whoever moves lives in the new place and has visited it, which is said twice. -/
def movingAround : Value :=
  .object [("verb", .text "moved_to"), ("type", .text "state_change"),
    ("initiates", .list [.object [("fluent", .text "lives_in")], visiting, visiting]),
    ("terminates", .list [.object [("fluent", .text "lives_in")]])]

def movingVisits : Rule :=
  ⟨⟨movedTo, recordSlots⟩, .initiates, ⟨visited, recordSlots⟩, false, .learned⟩

end Residence

namespace Engine

open Residence

end Engine
end EventCalculus
