import EventCalculus.Proofs.Determinacy
import EventCalculus.Proofs.EngineSteps
import EventCalculus.Proofs.RulebookGrowth
import EventCalculus.Proofs.TermText

/-!
# The order in which facts are told

Two engines that learn the same rules in the same order, and are told the same
events in any order and any number of times, answer every question alike.  What
an engine is told is accepted or not whatever it was told before, so a run has
facts and lessons of its own; the invariant says that the store holds these facts
and that the rulebook knows these lessons and the rules of the verbs met.
-/

namespace EventCalculus
namespace Engine

/-!
# Runs
-/

/-- Something that an engine is told: that an event happened, or rules to learn. -/
inductive Input where
  | event (description : Value) (moment : Moment)
  | rules (input : RuleInput)

/-- The engine after an input, whether that was accepted or not. -/
def tell (e : Engine) : Input -> Engine
  | .event description moment => (e.assertEvent description moment).2
  | .rules input => (e.learn input).2

def run (e : Engine) (inputs : List Input) : Engine :=
  inputs.foldl tell e

/-- The event that an input makes the engine store. -/
def fact? (e : Engine) : Input -> Option (Compound × String)
  | .event description moment => (e.prepareEvent description moment).toOption
  | .rules _ => none

/-- The events that inputs make the engine store. -/
def facts (e : Engine) (inputs : List Input) : List (Compound × String) :=
  inputs.filterMap e.fact?

/-- The rules of an input, none if they cannot be made. -/
def lessonRules (input : RuleInput) : List Rule :=
  match rulesOfInput input with
  | .ok (rules, _) => rules
  | .error _ => []

/-- What an input makes an engine learn. -/
def lesson? : Input -> Option RuleInput
  | .event _ _ => none
  | .rules input =>
      match rulesOfInput input with
      | .ok _ => some input
      | .error _ => none

/-- What inputs make an engine learn, from first to last. -/
def lessons (inputs : List Input) : List RuleInput :=
  inputs.filterMap lesson?

def learned (inputs : List Input) : List Rule :=
  (lessons inputs).flatMap lessonRules

/-- The verb of a fact and its number of arguments. -/
def verbOf (fact : Compound × String) : String × Nat :=
  (fact.1.functor.text, fact.1.arity)

theorem facts_append (e : Engine) (inputs more : List Input) :
    e.facts (inputs ++ more) = e.facts inputs ++ e.facts more :=
  List.filterMap_append

theorem learned_append (inputs more : List Input) :
    learned (inputs ++ more) = learned inputs ++ learned more := by
  rw [learned, lessons, List.filterMap_append, List.flatMap_append]
  rfl

theorem learned_rules (input : RuleInput) : learned [.rules input] = lessonRules input := by
  unfold learned lessons lesson? lessonRules
  cases hrules : rulesOfInput input with
  | error fault => simp [hrules]
  | ok made => simp [hrules]

/-!
# What inputs change
-/

section
variable (e : Engine)

theorem store_storeEvent (description : Compound) (timestamp : String) :
    (e.storeEvent description timestamp).2.store = (e.store.push description timestamp).2 :=
  store_eq_of_unlogged_eq (e.unlogged_storeEvent description timestamp)

theorem rulebook_storeEvent (description : Compound) (timestamp : String) :
    (e.storeEvent description timestamp).2.rulebook =
      (e.rulebook.compileVerb description.functor.text description.arity).2 :=
  rulebook_eq_of_unlogged_eq (e.unlogged_storeEvent description timestamp)

theorem store_learn (input : RuleInput) : (e.learn input).2.store = e.store := by
  cases hrules : rulesOfInput input with
  | error fault =>
      exact store_eq_of_unlogged_eq (e.unlogged_learn_of_error hrules)
  | ok made =>
      rw [store_eq_of_unlogged_eq (e.unlogged_learn_of_ok hrules), store_keepRecord]

theorem rulebook_learn (input : RuleInput) :
    (e.learn input).2.rulebook = (e.rulebook.register (lessonRules input)).2 := by
  unfold lessonRules
  cases hrules : rulesOfInput input with
  | error fault =>
      exact rulebook_eq_of_unlogged_eq (e.unlogged_learn_of_error hrules)
  | ok made =>
      rw [rulebook_eq_of_unlogged_eq (e.unlogged_learn_of_ok hrules), rulebook_keepRecord]

end

/-!
# The invariant of a run
-/

/-- The engine is what the start becomes by the inputs. -/
structure Follows (start e : Engine) (inputs : List Input) : Prop where
  maxDepth : e.store.maxDepth = start.store.maxDepth
  taxonomy : e.rulebook.taxonomy = start.rulebook.taxonomy
  verbIndexed : e.store.VerbIndexed
  stored : e.store.events.map (fun x => (x.description, x.timestamp)) = start.facts inputs
  compiled : forall key, key ∈ e.rulebook.compiled ↔ key ∈ (start.facts inputs).map verbOf
  knows : e.rulebook.Knows (learned inputs)
    (((start.facts inputs).map verbOf).flatMap start.rulebook.taxonomy.builtinRules)

theorem follows_create {date : Moment} {maxDepth : Int} {taxonomy : Taxonomy}
    {audit : Option AuditLog} {e : Engine} (h : create date maxDepth taxonomy audit = .ok e) :
    Follows e e [] := by
  rcases exists_of_map_eq_ok h with ⟨currentDate, _, rfl⟩
  constructor
  case maxDepth => rfl
  case taxonomy => rfl
  case verbIndexed => exact EventStore.verbIndexed_empty maxDepth
  case stored => rfl
  case compiled =>
    intro key
    exact Iff.rfl
  case knows => exact Rulebook.knows_ofTaxonomy taxonomy

theorem taxonomy_create {date : Moment} {maxDepth : Int} {taxonomy : Taxonomy}
    {audit : Option AuditLog} {e : Engine} (h : create date maxDepth taxonomy audit = .ok e) :
    e.rulebook.taxonomy = taxonomy := by
  rcases exists_of_map_eq_ok h with ⟨currentDate, _, rfl⟩
  rfl

variable {start e : Engine} {inputs : List Input}

/-- An input that is neither stored nor learned leaves everything but the log. -/
theorem Follows.of_unchanged (h : Follows start e inputs) {next : Engine} {input : Input}
    (hnext : next.unlogged = e.unlogged) (hfact : start.fact? input = none)
    (hlearned : learned [input] = []) : Follows start next (inputs ++ [input]) := by
  have hstore : next.store = e.store := store_eq_of_unlogged_eq hnext
  have hrulebook : next.rulebook = e.rulebook := rulebook_eq_of_unlogged_eq hnext
  have hfacts : start.facts (inputs ++ [input]) = start.facts inputs := by
    rw [facts_append]
    simp [facts, hfact]
  have hlearned' : learned (inputs ++ [input]) = learned inputs := by
    rw [learned_append, hlearned, List.append_nil]
  constructor
  case maxDepth => rw [hstore, h.maxDepth]
  case taxonomy => rw [hrulebook, h.taxonomy]
  case verbIndexed => rw [hstore]; exact h.verbIndexed
  case stored => rw [hstore, hfacts, h.stored]
  case compiled => rw [hrulebook, hfacts]; exact h.compiled
  case knows => rw [hrulebook, hfacts, hlearned']; exact h.knows

theorem Follows.tell_event (h : Follows start e inputs) (description : Value)
    (moment : Moment) :
    Follows start (e.tell (.event description moment))
      (inputs ++ [.event description moment]) := by
  have hprepare := prepareEvent_eq_of_maxDepth h.maxDepth description moment
  show Follows start (e.assertEvent description moment).2 _
  cases hfact : start.prepareEvent description moment with
  | error fault =>
      apply h.of_unchanged
      · exact e.unlogged_assertEvent_of_error (hprepare.trans hfact)
      · simp [fact?, hfact, Except.toOption]
      · rfl
  | ok fact =>
      rcases fact with ⟨c, timestamp⟩
      have hfacts : start.facts (inputs ++ [.event description moment]) =
          start.facts inputs ++ [(c, timestamp)] := by
        rw [facts_append]
        simp [facts, fact?, hfact, Except.toOption]
      have hlearned : learned (inputs ++ [.event description moment]) = learned inputs := by
        rw [learned_append]
        exact List.append_nil _
      rw [assertEvent_of_ok e (hprepare.trans hfact)]
      constructor
      case maxDepth =>
        rw [store_storeEvent]
        exact h.maxDepth
      case taxonomy =>
        rw [rulebook_storeEvent, Rulebook.taxonomy_compileVerb, h.taxonomy]
      case verbIndexed =>
        rw [store_storeEvent]
        exact h.verbIndexed.push c timestamp
      case stored =>
        rw [store_storeEvent, hfacts, ← h.stored]
        simp [EventStore.push]
      case compiled =>
        intro key
        rw [rulebook_storeEvent, Rulebook.mem_compiled_compileVerb_iff, h.compiled, hfacts,
          List.map_append, List.mem_append, List.map_singleton, List.mem_singleton]
        rfl
      case knows =>
        have hknows := h.knows
        rw [← h.taxonomy] at hknows
        have hnext := hknows.compileVerb h.compiled c.functor.text c.arity
        rw [rulebook_storeEvent, hfacts, hlearned, List.map_append, List.map_singleton,
          ← h.taxonomy]
        exact hnext

theorem Follows.tell_rules (h : Follows start e inputs) (input : RuleInput) :
    Follows start (e.tell (.rules input)) (inputs ++ [.rules input]) := by
  have hfacts : start.facts (inputs ++ [.rules input]) = start.facts inputs := by
    rw [facts_append]
    exact List.append_nil _
  have hlearned : learned (inputs ++ [.rules input]) = learned inputs ++ lessonRules input := by
    rw [learned_append, learned_rules]
  show Follows start (e.learn input).2 _
  constructor
  case maxDepth => rw [store_learn, h.maxDepth]
  case taxonomy => rw [rulebook_learn, Rulebook.taxonomy_register, h.taxonomy]
  case verbIndexed => rw [store_learn]; exact h.verbIndexed
  case stored => rw [store_learn, hfacts, h.stored]
  case compiled =>
    rw [rulebook_learn, Rulebook.compiled_register, hfacts]
    exact h.compiled
  case knows =>
    rw [rulebook_learn, hfacts, hlearned]
    exact h.knows.register_learned (lessonRules input)

theorem Follows.tell (h : Follows start e inputs) (input : Input) :
    Follows start (e.tell input) (inputs ++ [input]) := by
  cases input with
  | event description moment => exact h.tell_event description moment
  | rules input => exact h.tell_rules input

theorem Follows.run (h : Follows start e inputs) (more : List Input) :
    Follows start (e.run more) (inputs ++ more) := by
  induction more generalizing e inputs with
  | nil =>
      rw [List.append_nil]
      exact h
  | cons input rest ih =>
      rw [List.append_cons]
      exact ih (h.tell input)

end Engine

/-!
# Scenarios of the same facts and rules

Identifiers of events, sources of rules and all orders are left out of account.
-/

theorem Rule.fluent_eq_of_unsourced_eq {a b : Rule} (h : a.unsourced = b.unsourced) :
    a.fluent = b.fluent := by
  simp only [Rule.unsourced, Rule.mk.injEq] at h
  exact h.right.right.left

theorem Compound.isFinite_of_isSlots {c : Compound} (hc : c.IsSlots) : c.isFinite = true := by
  rcases c with ⟨f, args⟩
  rcases hc with ⟨vars, hargs⟩
  simp only at hargs
  subst hargs
  show Term.isFiniteAll (vars.map Term.var) = true
  induction vars with
  | nil => rfl
  | cons v vars ih => simpa [Term.isFiniteAll, Term.isFinite] using ih

namespace Scenario

/-- Of whatever source a rule is, it fires at the events that its event matches. -/
theorem fires_of_occursIn {s : Scenario} {r : Rule} (hr : r.OccursIn s.rules.all) {e : Event}
    (he : e ∈ s.store.events) {b : Bindings}
    (hmatch : r.event.matchCompound? e.description = some b) :
    s.Fires r.effect (r.fluent.substitute b) e.timestamp := by
  rcases hr with ⟨other, hother, hsource⟩
  simp only [Rule.unsourced, Rule.mk.injEq] at hsource
  rcases hsource with ⟨hevent, heffect, hfluent, _⟩
  rw [← hevent] at hmatch
  exact ⟨other, e, b, hother, heffect, he, rfl, hmatch, by rw [hfluent]⟩

/-- The scenarios have the same events, rules and exclusive domains. -/
structure SameSources (s s' : Scenario) : Prop where
  events_iff : forall fact, fact ∈ s.store.events.map (fun e => (e.description, e.timestamp)) ↔
    fact ∈ s'.store.events.map (fun e => (e.description, e.timestamp))
  rules_iff : forall r : Rule, r.OccursIn s.rules.all ↔ r.OccursIn s'.rules.all
  exclusive_eq : forall domain, s.exclusive.contains domain = s'.exclusive.contains domain

variable {s s' : Scenario}

theorem SameSources.symm (h : s.SameSources s') : s'.SameSources s :=
  ⟨fun fact => (h.events_iff fact).symm, fun r => (h.rules_iff r).symm,
    fun domain => (h.exclusive_eq domain).symm⟩

theorem SameSources.exists_event (h : s.SameSources s') {e : Event}
    (he : e ∈ s.store.events) : exists e', e' ∈ s'.store.events ∧
      e'.description = e.description ∧ e'.timestamp = e.timestamp := by
  have hfact := (h.events_iff _).mp (List.mem_map_of_mem he)
  rcases List.mem_map.mp hfact with ⟨e', he', heq⟩
  exact ⟨e', he', congrArg Prod.fst heq, congrArg Prod.snd heq⟩

theorem SameSources.fires (h : s.SameSources s') {effect : Effect} {fluent : Compound}
    {time : String} (hfires : s.Fires effect fluent time) : s'.Fires effect fluent time := by
  rcases hfires with ⟨r, e, b, hr, rfl, he, rfl, hmatch, rfl⟩
  rcases h.exists_event he with ⟨e', he', hdescription, htimestamp⟩
  rw [← hdescription] at hmatch
  rw [← htimestamp]
  exact fires_of_occursIn ((h.rules_iff r).mp ⟨r, hr, rfl⟩) he' hmatch

theorem SameSources.sameFacts (h : s.SameSources s') : s.SameFacts s' :=
  sameFacts_of_fires_iff (fun _ _ _ => ⟨h.fires, h.symm.fires⟩) h.exclusive_eq

/-- Without infinite numbers in events and fluents of rules, texts tell fluents apart. -/
theorem distinctTexts_of_isFinite
    (hevents : forall e, e ∈ s.store.events -> e.description.isFinite = true)
    (hrules : forall r, r ∈ s.rules.all -> r.fluent.isFinite = true) : s.DistinctTexts := by
  have hfinite : forall fluent time, s.Initiates fluent time -> fluent.isFinite = true := by
    intro fluent time hinitiates
    rcases hinitiates with ⟨r, e, b, hr, _, he, _, hmatch, hfluent, _⟩
    rw [← hfluent]
    exact Compound.isFinite_substitute_of_matchCompound? (hevents e he) (hrules r hr) hmatch
  intro a b start start' ha hb htext
  exact Compound.eq_of_render_eq (hfinite a start ha) (hfinite b start' hb) htext

/-- The scenarios answer every question alike, in the same order. -/
structure SameAnswers (s s' : Scenario) : Prop where
  query : forall p time, s.query p time = s'.query p time
  holdsAt : forall p time, s.holdsAt p time = s'.holdsAt p time
  everHeld : forall p, s.everHeld p = s'.everHeld p
  timeline : forall p, s.timeline p = s'.timeline p

theorem sameAnswers_of_sameFacts (hs : s.Indexed) (hs' : s'.Indexed) (hfacts : s.SameFacts s')
    (htexts : s.DistinctTexts) : s.SameAnswers s' := by
  constructor
  · exact query_eq_of_sameFacts hs hs' hfacts htexts
  · exact holdsAt_eq_of_sameFacts hs hs' hfacts
  · exact everHeld_eq_of_sameFacts hs hs' hfacts
  · exact timeline_eq_of_sameFacts hs hs' hfacts htexts

end Scenario

namespace Engine

/-- The engines answer every question about a given time, or about all times, alike. -/
structure SameAnswers (a b : Engine) : Prop where
  query : forall pattern moment,
    (a.query pattern (some moment)).1 = (b.query pattern (some moment)).1
  holds : forall pattern moment,
    (a.holds pattern (some moment)).1 = (b.holds pattern (some moment)).1
  everHeld : forall pattern, (a.everHeld pattern).1 = (b.everHeld pattern).1
  timeline : forall pattern, (a.timeline pattern).1 = (b.timeline pattern).1
  scenario : a.scenario.SameAnswers b.scenario

theorem sameAnswers_of_scenario {a b : Engine} (h : a.scenario.SameAnswers b.scenario) :
    a.SameAnswers b := by
  have hquery : forall v moment,
      (a.query v (some moment)).1 = (b.query v (some moment)).1 := by
    intro v moment
    rw [fst_query, fst_query, fst_patternAt a b]
    simp only [h.query]
  constructor
  case query =>
    exact hquery
  case holds =>
    intro v moment
    rw [fst_holds, fst_holds, hquery]
  case everHeld =>
    intro v
    rw [fst_everHeld, fst_everHeld, fst_pattern a b, funext h.everHeld]
  case timeline =>
    intro v
    rw [fst_timeline, fst_timeline, fst_pattern a b, funext h.timeline]
  case scenario =>
    exact h

theorem Follows.indexed {start e : Engine} {inputs : List Input}
    (h : Follows start e inputs) : e.scenario.Indexed :=
  ⟨h.verbIndexed, h.knows.indexed⟩

/-- Of what was learned it matters which rules were met, and which of those that are the same were
met first. -/
theorem Follows.sameSources_of_learned {start start' e e' : Engine} {inputs inputs' : List Input}
    (h : Follows start e inputs) (h' : Follows start' e' inputs')
    (htaxonomy : start.rulebook.taxonomy = start'.rulebook.taxonomy)
    (hlearned : forall r, r ∈ learned inputs ↔ r ∈ learned inputs')
    (hfirst : forall r, r ∈ (learned inputs).eraseDupsBy Rule.same ↔
      r ∈ (learned inputs').eraseDupsBy Rule.same)
    (hfacts : forall fact, fact ∈ start.facts inputs ↔ fact ∈ start'.facts inputs') :
    e.scenario.SameSources e'.scenario := by
  have hbuiltin : forall r, r ∈ ((start.facts inputs).map verbOf).flatMap
      start.rulebook.taxonomy.builtinRules ↔
        r ∈ ((start'.facts inputs').map verbOf).flatMap start'.rulebook.taxonomy.builtinRules := by
    intro r
    simp only [List.mem_flatMap, List.mem_map, hfacts, htaxonomy]
  constructor
  case events_iff =>
    intro fact
    show fact ∈ e.store.events.map _ ↔ fact ∈ e'.store.events.map _
    rw [h.stored, h'.stored, hfacts]
  case rules_iff =>
    intro r
    apply (h.knows.occursIn_iff r).trans (Iff.trans _ (h'.knows.occursIn_iff r).symm)
    simp only [Rule.OccursIn, List.mem_append, hfirst, hbuiltin]
  case exclusive_eq =>
    intro domain
    rw [Bool.eq_iff_iff]
    apply (h.knows.exclusive_iff domain).trans (Iff.trans _ (h'.knows.exclusive_iff domain).symm)
    simp only [List.mem_append, hlearned, hbuiltin]

theorem Follows.sameSources {start start' e e' : Engine} {inputs inputs' : List Input}
    (h : Follows start e inputs) (h' : Follows start' e' inputs')
    (htaxonomy : start.rulebook.taxonomy = start'.rulebook.taxonomy)
    (hlessons : lessons inputs = lessons inputs')
    (hfacts : forall fact, fact ∈ start.facts inputs ↔ fact ∈ start'.facts inputs') :
    e.scenario.SameSources e'.scenario := by
  have hlearned : learned inputs = learned inputs' := by
    rw [learned, learned, hlessons]
  apply h.sameSources_of_learned h' htaxonomy _ _ hfacts
  · intro r
    rw [hlearned]
  · intro r
    rw [hlearned]

theorem Follows.distinctTexts {start e : Engine} {inputs : List Input}
    (h : Follows start e inputs)
    (hfacts : forall fact, fact ∈ start.facts inputs -> fact.1.isFinite = true)
    (hrules : forall r, r ∈ learned inputs -> r.fluent.isFinite = true) :
    e.scenario.DistinctTexts := by
  apply Scenario.distinctTexts_of_isFinite
  · intro x hx
    apply hfacts (x.description, x.timestamp)
    rw [← h.stored]
    exact List.mem_map_of_mem hx
  · intro r hr
    cases (Rule.occursIn_append r _ _).mp ((h.knows.occursIn_iff r).mp ⟨r, hr, rfl⟩) with
    | inl hlearned =>
        rcases hlearned with ⟨l, hl, hsource⟩
        rw [← Rule.fluent_eq_of_unsourced_eq hsource]
        exact hrules l ((eraseDupsBy_sublist _ _).subset hl)
    | inr hbuiltin =>
        rcases hbuiltin with ⟨l, hl, hsource⟩
        rw [← Rule.fluent_eq_of_unsourced_eq hsource]
        exact Compound.isFinite_of_isSlots (h.knows.slots l hl).right

end Engine

namespace Residence

def firstDay : CalendarDate :=
  ⟨2024, 1, 1⟩

def engine : Engine :=
  ⟨EventStore.empty EventStore.defaultMaxDepth, Rulebook.ofTaxonomy Taxonomy.standard,
    OrderedMap.empty, firstDay.midnight.text, none⟩

def tellParis : Engine.Input :=
  .event (.term (move paris).toTerm) (.date firstDay)

def tellRome : Engine.Input :=
  .event (.text "moved_to(\"alice\", \"rome\")") (.text "2024-06-01")

def tellRule : Engine.Input :=
  .rules (.rule movingStarts)

/-- Everything is told once, the rule first. -/
def inOrder : List Engine.Input :=
  [tellRule, tellParis, tellRome]

/-- The later move is told twice, first of all and last of all. -/
def outOfOrder : List Engine.Input :=
  [tellRome, tellParis, tellRule, tellRome]

end Residence

namespace Engine

end Engine
end EventCalculus
