import EventCalculus.Proofs.OrderIndependence
import EventCalculus.Proofs.SoundTaxonomy

/-!
# The history of an engine

An engine is told events and rules and is reset now and then.  Built-in rules are made once for a
verb and a number of arguments, a learned rule can stand in for an equal built-in one, and a reset
drops rules by their source.  Two invariants survive every history all the same: the rules of the
verbs met since the last reset are in force, and the register of exclusive domains shows the
exclusive rules in force.
-/

namespace EventCalculus

namespace Rule

variable {a b : Rule}

theorem exclusive_eq_of_same (h : a.same b = true) : a.exclusive = b.exclusive := by
  have hexclusive := congrArg Rule.exclusive (same_iff.mp h)
  exact hexclusive

theorem domain_eq_of_same (h : a.same b = true) : a.domain = b.domain := by
  have hdomain := congrArg (fun r => r.fluent.functor.text) (same_iff.mp h)
  exact hdomain

/-- Some rule of the list makes the domain exclusive. -/
def MakeExclusive (rules : List Rule) (domain : String) : Prop :=
  exists r, r ∈ rules ∧ r.exclusive = true ∧ r.domain = domain

end Rule

/-!
# Rulebooks
-/

namespace Rulebook

/-- The register of exclusive domains shows the exclusive rules. -/
structure Mirrors (b : Rulebook) : Prop where
  indexed : b.rules.Indexed
  exclusive_iff : forall domain,
    b.exclusive.contains domain = true ↔ Rule.MakeExclusive b.rules.all domain

/-- The built-in rules of every verb met are in force. -/
structure Complete (b : Rulebook) : Prop extends b.Mirrors where
  occursIn : forall key, key ∈ b.compiled ->
    forall r, r ∈ b.taxonomy.builtinRules key -> r.OccursIn b.rules.all

variable {b : Rulebook}

theorem mirrors_ofTaxonomy (taxonomy : Taxonomy) : (ofTaxonomy taxonomy).Mirrors := by
  constructor
  · exact RuleSet.indexed_empty
  · intro domain
    simp [ofTaxonomy, ExclusiveDomains.empty, ExclusiveDomains.contains, Rule.MakeExclusive,
      RuleSet.empty, RuleSet.all, OrderedMap.values, OrderedMap.empty]

theorem complete_ofTaxonomy (taxonomy : Taxonomy) : (ofTaxonomy taxonomy).Complete := by
  constructor
  · exact mirrors_ofTaxonomy taxonomy
  · intro key hkey
    cases hkey

theorem rules_registerRule (b : Rulebook) (r : Rule) :
    (b.registerRule r).2.rules = (b.rules.add r).2 := rfl

/-- A rule that the set already has changes the register no more than the set: the same rule has
made the domain exclusive. -/
theorem Mirrors.registerRule (hb : b.Mirrors) (r : Rule) : (b.registerRule r).2.Mirrors := by
  constructor
  case indexed =>
    exact hb.indexed.add r
  case exclusive_iff =>
    intro domain
    rw [contains_registerRule, hb.exclusive_iff, rules_registerRule]
    by_cases hcontains : b.rules.contains r = true
    · rw [RuleSet.add_of_contains hcontains]
      rcases (RuleSet.contains_iff hb.indexed r).mp hcontains with ⟨other, hother, hsame⟩
      constructor
      · intro h
        rcases h with hold | ⟨hexclusive, hdomain⟩
        · exact hold
        · exact ⟨other, hother, (Rule.exclusive_eq_of_same hsame).trans hexclusive,
            (Rule.domain_eq_of_same hsame).trans hdomain⟩
      · intro h
        exact Or.inl h
    · rw [RuleSet.add_of_not_contains hcontains]
      simp only [Rule.MakeExclusive, RuleSet.mem_all_push_iff, or_and_right, exists_or,
        exists_eq_left]

theorem occursIn_registerRule {x : Rule} (h : x.OccursIn b.rules.all) (r : Rule) :
    x.OccursIn (b.registerRule r).2.rules.all := by
  by_cases hcontains : b.rules.contains r = true
  · exact (occursIn_registerRule_of_contains hcontains x).mpr h
  · exact (occursIn_registerRule_of_not_contains hcontains x).mpr (Or.inl h)

/-- The rule that stands in for a rule without numbers differs from it in the source alone. -/
theorem occursIn_registerRule_self (hb : b.rules.Indexed) {r : Rule} (hr : r.IsSlots) :
    r.OccursIn (b.registerRule r).2.rules.all := by
  by_cases hcontains : b.rules.contains r = true
  · rw [occursIn_registerRule_of_contains hcontains]
    rcases (RuleSet.contains_iff hb r).mp hcontains with ⟨other, hother, hsame⟩
    exact ⟨other, hother, Rule.unsourced_eq_of_same hr hsame⟩
  · rw [occursIn_registerRule_of_not_contains hcontains]
    exact Or.inr rfl

theorem Mirrors.register (hb : b.Mirrors) (rules : List Rule) : (b.register rules).2.Mirrors := by
  induction rules generalizing b with
  | nil => exact hb
  | cons r rest ih => exact ih (hb.registerRule r)

theorem occursIn_register {x : Rule} (h : x.OccursIn b.rules.all) (rules : List Rule) :
    x.OccursIn (b.register rules).2.rules.all := by
  induction rules generalizing b with
  | nil => exact h
  | cons r rest ih => exact ih (occursIn_registerRule h r)

theorem occursIn_register_of_mem (hb : b.rules.Indexed) {rules : List Rule} {r : Rule}
    (hmem : r ∈ rules) (hr : r.IsSlots) : r.OccursIn (b.register rules).2.rules.all := by
  induction rules generalizing b with
  | nil => cases hmem
  | cons first rest ih =>
      cases List.mem_cons.mp hmem with
      | inl hfirst =>
          rw [← hfirst]
          have hself := occursIn_registerRule_self hb hr
          exact occursIn_register (b := (b.registerRule r).2) hself rest
      | inr hrest =>
          exact ih (hb.add first) hrest

theorem Complete.register (hb : b.Complete) (rules : List Rule) :
    (b.register rules).2.Complete := by
  constructor
  · exact hb.toMirrors.register rules
  · rw [compiled_register, taxonomy_register]
    intro key hkey r hr
    exact occursIn_register (hb.occursIn key hkey r hr) rules

theorem Complete.compileVerb (hb : b.Complete) (verb : String) (arity : Nat) :
    (b.compileVerb verb arity).2.Complete := by
  by_cases h : (verb, arity) ∈ b.compiled
  · rw [compileVerb_of_mem h]
    exact hb
  · rw [compileVerb_of_not_mem h]
    have hmet : ({ b with compiled := b.compiled ++ [(verb, arity)] } : Rulebook).Mirrors :=
      ⟨hb.indexed, hb.exclusive_iff⟩
    constructor
    · exact hmet.register _
    · rw [compiled_register, taxonomy_register]
      intro key hkey r hr
      cases List.mem_append.mp hkey with
      | inl hold =>
          apply occursIn_register
          exact hb.occursIn key hold r hr
      | inr hnew =>
          rw [List.mem_singleton.mp hnew] at hr
          exact occursIn_register_of_mem hmet.indexed hr (Taxonomy.isSlots_of_mem_builtinRules hr)

theorem contains_foldl_insert (rules : List Rule) (s : ExclusiveDomains) (domain : String) :
    (rules.foldl (fun s r => if r.exclusive then s.insert r.domain else s) s).contains domain =
        true ↔ s.contains domain = true ∨ Rule.MakeExclusive rules domain := by
  induction rules generalizing s with
  | nil =>
      simp [Rule.MakeExclusive]
  | cons r rest ih =>
      have hfirst : (if r.exclusive = true then s.insert r.domain else s).contains domain = true ↔
          s.contains domain = true ∨ (r.exclusive = true ∧ r.domain = domain) := by
        split
        · rename_i hexclusive
          simp [ExclusiveDomains.contains_insert, hexclusive]
        · rename_i hexclusive
          simp [hexclusive]
      rw [List.foldl_cons, ih, hfirst]
      simp only [Rule.MakeExclusive, List.mem_cons, or_and_right, exists_or, exists_eq_left,
        or_assoc]

theorem contains_exclusiveDomains (rules : RuleSet) (domain : String) :
    (exclusiveDomains rules).contains domain = true ↔ Rule.MakeExclusive rules.all domain := by
  rw [exclusiveDomains, contains_foldl_insert]
  simp [ExclusiveDomains.empty, ExclusiveDomains.contains]

/-- A learned rule that stood in for a built-in one is gone, but so is the meeting that would keep
the built-in one from being made again. -/
theorem complete_reset (b : Rulebook) : b.reset.2.Complete := by
  constructor
  · constructor
    · exact RuleSet.indexed_foldl_add _ RuleSet.indexed_empty
    · exact contains_exclusiveDomains _
  · intro key hkey
    cases hkey

end Rulebook

/-!
# Engines
-/

/-- The verb of an event and its number of arguments. -/
def Event.signature (e : Event) : String × Nat :=
  (e.verb, e.description.arity)

namespace Engine

/-- Something done to an engine that can change what it knows. -/
inductive Call where
  | tell (input : Input)
  | reset

/-- The engine after a call, whether that succeeded or not. -/
def perform (e : Engine) : Call -> Engine
  | .tell input => e.tell input
  | .reset => e.reset

def performAll (e : Engine) (calls : List Call) : Engine :=
  calls.foldl perform e

theorem unlogged_reset (e : Engine) : e.reset.unlogged =
    unlogged { e with
      store := e.store.clear
      rulebook := e.rulebook.reset.2
      records := OrderedMap.empty } := rfl

theorem store_reset (e : Engine) : e.reset.store = e.store.clear :=
  store_eq_of_unlogged_eq (unlogged_reset e)

theorem rulebook_reset (e : Engine) : e.reset.rulebook = e.rulebook.reset.2 :=
  rulebook_eq_of_unlogged_eq (unlogged_reset e)

/-- What is in the store after a call was in it before, or the call is an event that makes it. -/
theorem mem_events_perform {e : Engine} {call : Call} {x : Event}
    (hx : x ∈ (e.perform call).store.events) :
    x ∈ e.store.events ∨ exists v m, call = .tell (.event v m) ∧
      e.prepareEvent v m = .ok (x.description, x.timestamp) := by
  cases call with
  | tell input =>
      cases input with
      | event v m =>
          have hafter : x ∈ (e.assertEvent v m).2.store.events := hx
          cases hprepare : e.prepareEvent v m with
          | error fault =>
              rw [store_eq_of_unlogged_eq (e.unlogged_assertEvent_of_error hprepare)] at hafter
              exact Or.inl hafter
          | ok fact =>
              rw [assertEvent_of_ok e hprepare, store_storeEvent] at hafter
              cases List.mem_append.mp hafter with
              | inl hold => exact Or.inl hold
              | inr hnew =>
                  rw [List.mem_singleton.mp hnew]
                  exact Or.inr ⟨v, m, rfl, hprepare⟩
      | rules input =>
          have hafter : x ∈ (e.learn input).2.store.events := hx
          rw [store_learn] at hafter
          exact Or.inl hafter
  | reset =>
      have hafter : x ∈ e.reset.store.events := hx
      rw [store_reset] at hafter
      cases hafter

/-- What is in the store after a history was in it before, or was made from an event of the history
by one of its engines. -/
theorem mem_events_performAll {e : Engine} {calls : List Call} {x : Event}
    (hx : x ∈ (e.performAll calls).store.events) :
    x ∈ e.store.events ∨ exists v m, .tell (.event v m) ∈ calls ∧
      exists before : Engine, before.prepareEvent v m = .ok (x.description, x.timestamp) := by
  induction calls generalizing e with
  | nil => exact Or.inl hx
  | cons call rest ih =>
      rcases ih hx with hmem | ⟨v, m, hcall, before, hprepare⟩
      · rcases mem_events_perform hmem with hold | ⟨v, m, rfl, hprepare⟩
        · exact Or.inl hold
        · exact Or.inr ⟨v, m, List.mem_cons_self, e, hprepare⟩
      · exact Or.inr ⟨v, m, List.mem_cons_of_mem call hcall, before, hprepare⟩

/-- What every history of the start keeps. -/
structure Descends (start e : Engine) : Prop where
  maxDepth : e.store.maxDepth = start.store.maxDepth
  taxonomy : e.rulebook.taxonomy = start.rulebook.taxonomy
  verbIndexed : e.store.VerbIndexed
  compiled_iff : forall key,
    key ∈ e.rulebook.compiled ↔ exists x, x ∈ e.store.events ∧ x.signature = key
  complete : e.rulebook.Complete

theorem descends_create {date : Moment} {maxDepth : Int} {taxonomy : Taxonomy}
    {audit : Option AuditLog} {start : Engine}
    (h : create date maxDepth taxonomy audit = .ok start) : Descends start start := by
  rcases exists_of_map_eq_ok h with ⟨currentDate, _, rfl⟩
  constructor
  case maxDepth => rfl
  case taxonomy => rfl
  case verbIndexed => exact EventStore.verbIndexed_empty maxDepth
  case compiled_iff =>
    intro key
    simp [Rulebook.ofTaxonomy, EventStore.empty]
  case complete => exact Rulebook.complete_ofTaxonomy taxonomy

variable {start e : Engine}

theorem Descends.indexed (h : Descends start e) : e.scenario.Indexed :=
  ⟨h.verbIndexed, h.complete.indexed⟩

theorem Descends.of_unchanged (h : Descends start e) {next : Engine}
    (hnext : next.unlogged = e.unlogged) : Descends start next := by
  have hstore : next.store = e.store := store_eq_of_unlogged_eq hnext
  have hrulebook : next.rulebook = e.rulebook := rulebook_eq_of_unlogged_eq hnext
  constructor
  case maxDepth => rw [hstore, h.maxDepth]
  case taxonomy => rw [hrulebook, h.taxonomy]
  case verbIndexed => rw [hstore]; exact h.verbIndexed
  case compiled_iff => rw [hstore, hrulebook]; exact h.compiled_iff
  case complete => rw [hrulebook]; exact h.complete

theorem Descends.storeEvent (h : Descends start e) (c : Compound) (timestamp : String) :
    Descends start (e.storeEvent c timestamp).2 := by
  constructor
  case maxDepth =>
    rw [store_storeEvent]
    exact h.maxDepth
  case taxonomy => rw [rulebook_storeEvent, Rulebook.taxonomy_compileVerb, h.taxonomy]
  case verbIndexed =>
    rw [store_storeEvent]
    exact h.verbIndexed.push c timestamp
  case compiled_iff =>
    intro key
    rw [rulebook_storeEvent, store_storeEvent, Rulebook.mem_compiled_compileVerb_iff,
      h.compiled_iff]
    simp only [EventStore.push, List.mem_append, List.mem_singleton, or_and_right, exists_or,
      exists_eq_left]
    exact or_congr Iff.rfl eq_comm
  case complete =>
    rw [rulebook_storeEvent]
    exact h.complete.compileVerb _ _

theorem Descends.learn (h : Descends start e) (input : RuleInput) :
    Descends start (e.learn input).2 := by
  constructor
  case maxDepth => rw [store_learn, h.maxDepth]
  case taxonomy => rw [rulebook_learn, Rulebook.taxonomy_register, h.taxonomy]
  case verbIndexed => rw [store_learn]; exact h.verbIndexed
  case compiled_iff =>
    rw [store_learn, rulebook_learn, Rulebook.compiled_register]
    exact h.compiled_iff
  case complete =>
    rw [rulebook_learn]
    exact h.complete.register _

theorem Descends.reset (h : Descends start e) : Descends start e.reset := by
  constructor
  case maxDepth =>
    rw [store_reset]
    exact h.maxDepth
  case taxonomy =>
    rw [rulebook_reset]
    exact h.taxonomy
  case verbIndexed =>
    rw [store_reset]
    exact EventStore.verbIndexed_empty _
  case compiled_iff =>
    intro key
    rw [rulebook_reset, store_reset]
    simp [Rulebook.reset, EventStore.clear, EventStore.empty]
  case complete =>
    rw [rulebook_reset]
    exact Rulebook.complete_reset e.rulebook

theorem Descends.perform (h : Descends start e) (call : Call) :
    Descends start (e.perform call) := by
  cases call with
  | tell input =>
      cases input with
      | event description moment =>
          show Descends start (e.assertEvent description moment).2
          cases hprepare : e.prepareEvent description moment with
          | error fault =>
              exact h.of_unchanged (e.unlogged_assertEvent_of_error hprepare)
          | ok fact =>
              rw [assertEvent_of_ok e hprepare]
              exact h.storeEvent fact.1 fact.2
      | rules input =>
          exact h.learn input
  | reset =>
      exact h.reset

theorem Descends.performAll (h : Descends start e) (calls : List Call) :
    Descends start (e.performAll calls) := by
  induction calls generalizing e with
  | nil => exact h
  | cons call rest ih => exact ih (h.perform call)

/-- The built-in rules of all events in the store and of all verbs met are in force, whatever was
learned and dropped before. -/
theorem builtin_rules_in_force {date : Moment} {maxDepth : Int} {audit : Option AuditLog}
    (hstart : create date maxDepth Taxonomy.standard audit = .ok start) (calls : List Call)
    {key : String × Nat} (hkey : key ∈ (start.performAll calls).rulebook.compiled ∨
      exists x, x ∈ (start.performAll calls).store.events ∧ x.signature = key) :
    exists rules, Taxonomy.standard.classify key.1 key.2 = .ok rules ∧
      forall r, r ∈ rules -> (start.performAll calls).rulebook.rules.contains r = true ∧
        r.OccursIn (start.performAll calls).rulebook.rules.all := by
  have h := (descends_create hstart).performAll calls
  have hcompiled : key ∈ (start.performAll calls).rulebook.compiled := by
    cases hkey with
    | inl hmet => exact hmet
    | inr hstored => exact (h.compiled_iff key).mpr hstored
  rcases (h.compiled_iff key).mp hcompiled with ⟨x, _, hx⟩
  have hverb : isFunctorText key.1 = true := by
    rw [← hx]
    exact x.description.functor.valid
  rcases Taxonomy.exists_classify_eq_ok Taxonomy.isSound_of_mem_standard hverb key.2 with
    ⟨rules, hrules⟩
  have htaxonomy : (start.performAll calls).rulebook.taxonomy = Taxonomy.standard := by
    rw [h.taxonomy, taxonomy_create hstart]
  refine ⟨rules, hrules, ?_⟩
  intro r hr
  have hoccurs : r.OccursIn (start.performAll calls).rulebook.rules.all := by
    apply h.complete.occursIn key hcompiled r
    rw [htaxonomy, Taxonomy.builtinRules, hrules]
    exact hr
  refine ⟨?_, hoccurs⟩
  rcases hoccurs with ⟨other, hother, hsource⟩
  exact (RuleSet.contains_iff h.complete.indexed r).mpr
    ⟨other, hother, Rule.same_of_unsourced_eq hsource⟩

end Engine

namespace Residence

/-- The built-in rule of a move, learned before anybody moves. -/
def copiedRule : Rule :=
  ⟨⟨movedTo, (slotVariables 2).map .var⟩, .initiates, ⟨livesIn, (slotVariables 2).map .var⟩, true,
    .learned⟩

/-- A copy of the built-in rule is learned, stands in for it and is dropped; then the verb is met
again. -/
def relearning : List Engine.Call :=
  [.tell (.rules (.rule copiedRule)), .tell tellParis, .reset, .tell tellRome]

end Residence

namespace Engine

theorem builtin_rules_in_force_relearning :
    create (.date Residence.firstDay) EventStore.defaultMaxDepth Taxonomy.standard none =
        .ok Residence.engine ∧
      ("moved_to", 2) ∈ (Residence.engine.performAll Residence.relearning).rulebook.compiled ∧
      exists rules, Taxonomy.standard.classify "moved_to" 2 = .ok rules ∧
        forall r, r ∈ rules ->
          (Residence.engine.performAll Residence.relearning).rulebook.rules.contains r = true ∧
            r.OccursIn (Residence.engine.performAll Residence.relearning).rulebook.rules.all := by
  have hcreate : create (.date Residence.firstDay) EventStore.defaultMaxDepth Taxonomy.standard
      none = .ok Residence.engine := rfl
  have hmet : ("moved_to", 2) ∈
      (Residence.engine.performAll Residence.relearning).rulebook.compiled := by
    decide +kernel
  exact ⟨hcreate, hmet, builtin_rules_in_force hcreate Residence.relearning (Or.inl hmet)⟩

end Engine
end EventCalculus
