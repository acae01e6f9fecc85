import EventCalculus.Proofs.PastAnswers
import EventCalculus.Proofs.RuleOrigins

/-!
# Rules kept through a reset

A reset engine differs from a fresh one in the built-in rules that it has kept and in the domains
that these make exclusive.  Whatever both are told afterwards, that stays the only difference.  A
kept rule that the fresh engine does not have matches none of the events told since: its verb would
have brought the rule along.
-/

namespace EventCalculus

/-!
# Rulebooks
-/

namespace Rulebook

/-- The second rulebook is the first one with some rules more. -/
structure HasKept (kept : List Rule) (b b' : Rulebook) : Prop where
  taxonomy : b'.taxonomy = b.taxonomy
  compiled : b'.compiled = b.compiled
  indexed : b.rules.Indexed
  indexed_kept : b'.rules.Indexed
  occursIn_iff : forall r : Rule,
    r.OccursIn b'.rules.all ↔ r.OccursIn b.rules.all ∨ r.OccursIn kept
  exclusive_iff : forall domain, b'.exclusive.contains domain = true ↔
    b.exclusive.contains domain = true ∨ Rule.MakeExclusive kept domain

variable {kept : List Rule} {b b' : Rulebook}

theorem HasKept.contains (h : HasKept kept b b') {r : Rule} (hr : b.rules.contains r = true) :
    b'.rules.contains r = true := by
  rcases (RuleSet.contains_iff h.indexed r).mp hr with ⟨other, hother, hsame⟩
  rcases (h.occursIn_iff other).mpr (Or.inl ⟨other, hother, rfl⟩) with ⟨form, hform, hsource⟩
  exact (RuleSet.contains_iff h.indexed_kept r).mpr
    ⟨form, hform, Rule.same_trans (Rule.same_of_unsourced_eq hsource) hsame⟩

/-- What only the second rulebook has is a kept rule. -/
theorem HasKept.occursIn_kept (h : HasKept kept b b') (hkept : forall r, r ∈ kept -> r.IsSlots)
    {r : Rule} (hr : b'.rules.contains r = true) (hnew : ¬ b.rules.contains r = true) :
    r.OccursIn kept := by
  rcases (RuleSet.contains_iff h.indexed_kept r).mp hr with ⟨other, hother, hsame⟩
  cases (h.occursIn_iff other).mp ⟨other, hother, rfl⟩ with
  | inl hold =>
      rcases hold with ⟨form, hform, hsource⟩
      apply absurd _ hnew
      exact (RuleSet.contains_iff h.indexed r).mpr
        ⟨form, hform, Rule.same_trans (Rule.same_of_unsourced_eq hsource) hsame⟩
  | inr hkeptOther =>
      rcases hkeptOther with ⟨form, hform, hsource⟩
      have hsame' : r.same form = true :=
        Rule.same_symm (Rule.same_trans (Rule.same_of_unsourced_eq hsource) hsame)
      exact ⟨form, hform, (Rule.unsourced_eq_of_same (hkept form hform) hsame').symm⟩

theorem HasKept.registerRule (h : HasKept kept b b') (hkept : forall r, r ∈ kept -> r.IsSlots)
    (r : Rule) : HasKept kept (b.registerRule r).2 (b'.registerRule r).2 := by
  constructor
  case taxonomy => exact h.taxonomy
  case compiled => exact h.compiled
  case indexed => exact h.indexed.add r
  case indexed_kept => exact h.indexed_kept.add r
  case exclusive_iff =>
    intro domain
    rw [contains_registerRule, contains_registerRule, h.exclusive_iff, or_right_comm]
  case occursIn_iff =>
    intro x
    by_cases hcontains : b.rules.contains r = true
    · rw [occursIn_registerRule_of_contains hcontains,
        occursIn_registerRule_of_contains (h.contains hcontains), h.occursIn_iff]
    · rw [occursIn_registerRule_of_not_contains hcontains]
      by_cases hcontains' : b'.rules.contains r = true
      · -- Only the second rulebook has the rule, so it is a kept one and is not lost.
        rw [occursIn_registerRule_of_contains hcontains', h.occursIn_iff]
        have hr := h.occursIn_kept hkept hcontains' hcontains
        constructor
        · intro hx
          exact hx.imp Or.inl id
        · intro hx
          rcases hx with (hold | hsource) | hmem
          · exact Or.inl hold
          · exact Or.inr (Rule.occursIn_of_unsourced_eq hsource.symm hr)
          · exact Or.inr hmem
      · rw [occursIn_registerRule_of_not_contains hcontains', h.occursIn_iff, or_right_comm]

theorem HasKept.register (h : HasKept kept b b') (hkept : forall r, r ∈ kept -> r.IsSlots)
    (rules : List Rule) : HasKept kept (b.register rules).2 (b'.register rules).2 := by
  induction rules generalizing b b' with
  | nil => exact h
  | cons r rest ih => exact ih (h.registerRule hkept r)

theorem HasKept.compileVerb (h : HasKept kept b b') (hkept : forall r, r ∈ kept -> r.IsSlots)
    (verb : String) (arity : Nat) :
    HasKept kept (b.compileVerb verb arity).2 (b'.compileVerb verb arity).2 := by
  by_cases hmet : (verb, arity) ∈ b.compiled
  · have hmet' : (verb, arity) ∈ b'.compiled := h.compiled ▸ hmet
    rw [compileVerb_of_mem hmet, compileVerb_of_mem hmet']
    exact h
  · have hmet' : (verb, arity) ∉ b'.compiled := h.compiled ▸ hmet
    rw [compileVerb_of_not_mem hmet, compileVerb_of_not_mem hmet', h.taxonomy]
    apply HasKept.register _ hkept
    exact ⟨rfl, congrArg (· ++ [(verb, arity)]) h.compiled, h.indexed, h.indexed_kept,
      h.occursIn_iff, h.exclusive_iff⟩

end Rulebook

/-!
# Engines
-/

namespace Engine

/-- The second engine is the first one with some rules more. -/
structure HasKept (kept : List Rule) (fresh e : Engine) : Prop where
  store : e.store = fresh.store
  currentDate : e.currentDate = fresh.currentDate
  rulebook : Rulebook.HasKept kept fresh.rulebook e.rulebook

theorem currentDate_learn (e : Engine) (input : RuleInput) :
    (e.learn input).2.currentDate = e.currentDate := by
  cases hrules : rulesOfInput input with
  | error fault => exact currentDate_eq_of_unlogged_eq (e.unlogged_learn_of_error hrules)
  | ok made =>
      rw [currentDate_eq_of_unlogged_eq (e.unlogged_learn_of_ok hrules)]
      cases made.2 with
      | none => rfl
      | some record => rfl

variable {kept : List Rule} {fresh e : Engine}

theorem HasKept.tell (h : HasKept kept fresh e) (hkept : forall r, r ∈ kept -> r.IsSlots)
    (input : Input) : HasKept kept (fresh.tell input) (e.tell input) := by
  cases input with
  | event description moment =>
      have hprepare : e.prepareEvent description moment = fresh.prepareEvent description moment :=
        prepareEvent_eq_of_maxDepth (congrArg EventStore.maxDepth h.store) description moment
      show HasKept kept (fresh.assertEvent description moment).2
        (e.assertEvent description moment).2
      cases hfact : fresh.prepareEvent description moment with
      | error fault =>
          have hfresh := fresh.unlogged_assertEvent_of_error hfact
          have hsame := e.unlogged_assertEvent_of_error (hprepare.trans hfact)
          constructor
          case store =>
            rw [store_eq_of_unlogged_eq hsame, store_eq_of_unlogged_eq hfresh, h.store]
          case currentDate =>
            rw [currentDate_eq_of_unlogged_eq hsame, currentDate_eq_of_unlogged_eq hfresh,
              h.currentDate]
          case rulebook =>
            rw [rulebook_eq_of_unlogged_eq hsame, rulebook_eq_of_unlogged_eq hfresh]
            exact h.rulebook
      | ok fact =>
          rw [assertEvent_of_ok fresh hfact, assertEvent_of_ok e (hprepare.trans hfact)]
          constructor
          case store => rw [store_storeEvent, store_storeEvent, h.store]
          case currentDate => rw [currentDate_storeEvent, currentDate_storeEvent, h.currentDate]
          case rulebook =>
            rw [rulebook_storeEvent, rulebook_storeEvent]
            exact h.rulebook.compileVerb hkept _ _
  | rules input =>
      show HasKept kept (fresh.learn input).2 (e.learn input).2
      constructor
      case store => rw [store_learn, store_learn, h.store]
      case currentDate => rw [currentDate_learn, currentDate_learn, h.currentDate]
      case rulebook =>
        rw [rulebook_learn, rulebook_learn]
        exact h.rulebook.register hkept _

theorem HasKept.run (h : HasKept kept fresh e) (hkept : forall r, r ∈ kept -> r.IsSlots)
    (inputs : List Input) : HasKept kept (fresh.run inputs) (e.run inputs) := by
  induction inputs generalizing fresh e with
  | nil => exact h
  | cons input rest ih => exact ih (h.tell hkept input)

theorem currentDate_perform (e : Engine) (call : Call) :
    (e.perform call).currentDate = e.currentDate := by
  cases call with
  | tell input =>
      cases input with
      | event description moment =>
          show (e.assertEvent description moment).2.currentDate = _
          cases hfact : e.prepareEvent description moment with
          | error fault =>
              exact currentDate_eq_of_unlogged_eq (e.unlogged_assertEvent_of_error hfact)
          | ok fact =>
              rw [assertEvent_of_ok e hfact]
              exact currentDate_storeEvent e _ _
      | rules input => exact currentDate_learn e input
  | reset =>
      show e.reset.currentDate = _
      rw [currentDate_eq_of_unlogged_eq (unlogged_reset e)]

theorem currentDate_performAll (e : Engine) (calls : List Call) :
    (e.performAll calls).currentDate = e.currentDate := by
  induction calls generalizing e with
  | nil => rfl
  | cons call rest ih => exact (ih (e.perform call)).trans (currentDate_perform e call)

/-- The rules that a reset of the engine keeps. -/
def keptRules (e : Engine) : List Rule :=
  e.reset.rulebook.rules.all

variable {start : Engine} {calls : List Call}

/-- A kept rule was made for the verb of an event that was told before the reset. -/
theorem Origins.exists_key_of_mem_keptRules (h : Origins start e calls) {r : Rule}
    (hr : r ∈ e.keptRules) : exists key, key ∈ (start.facts (told calls)).map verbOf ∧
      r ∈ start.rulebook.taxonomy.builtinRules key := by
  rw [keptRules, rulebook_reset] at hr
  rcases Rulebook.mem_all_of_mem_reset hr with ⟨hmem, hsource⟩
  exact h.builtin r hmem hsource

theorem Origins.isSlots_of_mem_keptRules (h : Origins start e calls) {r : Rule}
    (hr : r ∈ e.keptRules) : r.IsSlots := by
  rcases h.exists_key_of_mem_keptRules hr with ⟨key, _, hmade⟩
  exact Taxonomy.isSlots_of_mem_builtinRules hmade

/-- After a reset nothing is left but the rules it keeps. -/
theorem hasKept_reset {date : Moment} {maxDepth : Int} {taxonomy : Taxonomy}
    {audit audit' : Option AuditLog} (hstart : create date maxDepth taxonomy audit = .ok start)
    (hfresh : create date maxDepth taxonomy audit' = .ok fresh) (calls : List Call) :
    HasKept (start.performAll calls).keptRules fresh (start.performAll calls).reset := by
  have h := (descends_create hstart).performAll calls
  have htaxonomy := taxonomy_create hstart
  have hdate := currentDate_performAll start calls
  have hmaxDepth := h.maxDepth
  rcases exists_of_map_eq_ok hstart with ⟨currentDate, htime, rfl⟩
  rcases exists_of_map_eq_ok hfresh with ⟨currentDate', htime', rfl⟩
  constructor
  case store =>
    rw [store_reset, EventStore.clear, hmaxDepth]
    rfl
  case currentDate =>
    rw [currentDate_eq_of_unlogged_eq (unlogged_reset _)]
    rw [htime, Except.ok.injEq] at htime'
    exact hdate.trans htime'
  case rulebook =>
    constructor
    case taxonomy =>
      rw [rulebook_reset]
      exact h.taxonomy.trans htaxonomy
    case compiled =>
      rw [rulebook_reset]
      rfl
    case indexed => exact RuleSet.indexed_empty
    case indexed_kept => exact h.reset.complete.indexed
    case occursIn_iff =>
      intro r
      constructor
      · exact Or.inr
      · intro hr
        rcases hr with ⟨other, hnone, _⟩ | hkept
        · cases hnone
        · exact hkept
    case exclusive_iff =>
      intro domain
      rw [h.reset.complete.exclusive_iff]
      constructor
      · exact Or.inr
      · intro hexclusive
        cases hexclusive with
        | inl hnone => cases hnone
        | inr hkept => exact hkept

/-- A kept rule that matches an event is a rule of the engine that has kept none. -/
theorem HasKept.occursIn_of_matchCompound? {inputs : List Input} (h : HasKept kept fresh e)
    (hfollows : Follows start fresh inputs)
    (hkept : forall r, r ∈ kept -> exists key, r ∈ start.rulebook.taxonomy.builtinRules key)
    {r : Rule} (hr : r ∈ e.rulebook.rules.all) {x : Event} (hx : x ∈ fresh.store.events)
    {b : Bindings} (hmatch : r.event.matchCompound? x.description = some b) :
    r.OccursIn fresh.rulebook.rules.all := by
  cases (h.rulebook.occursIn_iff r).mp ⟨r, hr, rfl⟩ with
  | inl hown => exact hown
  | inr hmem =>
      rcases hmem with ⟨other, hother, hsource⟩
      rcases hkept other hother with ⟨key, hmade⟩
      have hevent : other.event = r.event := by
        simp only [Rule.unsourced, Rule.mk.injEq] at hsource
        exact hsource.left
      rw [← hevent] at hmatch
      -- The event has met the verb of the rule, so the engine has made the rule itself.
      have hsignature := Taxonomy.signature_of_matchCompound? hmade hmatch
      have hkey : key ∈ (start.facts inputs).map verbOf := by
        rw [← hfollows.stored, List.map_map, ← hsignature]
        exact List.mem_map_of_mem (f := Event.signature) hx
      rw [hfollows.knows.occursIn_iff, Rule.occursIn_append]
      exact Or.inr ⟨other, List.mem_flatMap.mpr ⟨key, hkey, hmade⟩, hsource⟩

/-- A kept rule brings nothing about that the other engine would not see. -/
theorem HasKept.fires_iff {inputs : List Input} (h : HasKept kept fresh e)
    (hfollows : Follows start fresh inputs)
    (hkept : forall r, r ∈ kept -> exists key, r ∈ start.rulebook.taxonomy.builtinRules key)
    (effect : Effect) (fluent : Compound) (time : String) :
    e.scenario.Fires effect fluent time ↔ fresh.scenario.Fires effect fluent time := by
  have hstore : e.scenario.store = fresh.scenario.store := h.store
  constructor
  · intro hfires
    rcases hfires with ⟨r, x, b, hr, rfl, hx, rfl, hmatch, rfl⟩
    rw [hstore] at hx
    have hown := h.occursIn_of_matchCompound? hfollows hkept hr hx hmatch
    exact Scenario.fires_of_occursIn hown hx hmatch
  · intro hfires
    rcases hfires with ⟨r, x, b, hr, rfl, hx, rfl, hmatch, rfl⟩
    rw [← hstore] at hx
    exact Scenario.fires_of_occursIn ((h.rulebook.occursIn_iff r).mpr (Or.inl ⟨r, hr, rfl⟩)) hx
      hmatch

end Engine
end EventCalculus
