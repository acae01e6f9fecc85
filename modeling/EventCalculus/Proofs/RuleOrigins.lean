import EventCalculus.Proofs.EngineHistory
import EventCalculus.Proofs.KeptRecords

/-!
# Where rules come from

A rule in force is built in or learned.  A built-in one was made for the verb of some event that
the engine was ever told, and may outlive this event; a learned one was learned since the last
reset.  All that was learned since then is in force, if only by a rule that is the same.
-/

namespace EventCalculus

theorem Taxonomy.source_of_mem_builtinRules {taxonomy : Taxonomy} {key : String × Nat} {r : Rule}
    (hr : r ∈ taxonomy.builtinRules key) : r.source = .builtin := by
  rcases (isSlotRule_of_mem_builtinRules hr).left with ⟨effect, exclusive, domain, hrule⟩
  rcases exists_of_bind_eq_ok hrule with ⟨event, _, hrule⟩
  rcases exists_of_bind_eq_ok hrule with ⟨fluent, _, hrule⟩
  cases hrule
  rfl

/-!
# Rule sets

A set has no rules but those that were added, and keeps them.
-/

namespace RuleSet

variable {s : RuleSet} {rules : List Rule} {r : Rule}

theorem mem_all_of_mem_add {first : Rule} (hr : r ∈ (s.add first).2.all) :
    r ∈ s.all ∨ r = first := by
  by_cases hcontains : s.contains first = true
  · rw [add_of_contains hcontains] at hr
    exact Or.inl hr
  · rw [add_of_not_contains hcontains] at hr
    exact (mem_all_push_iff s first r).mp hr

theorem mem_all_of_mem_foldl_add (hr : r ∈ (rules.foldl (fun s x => (s.add x).2) s).all) :
    r ∈ s.all ∨ r ∈ rules := by
  induction rules generalizing s with
  | nil => exact Or.inl hr
  | cons first rest ih =>
      cases ih hr with
      | inr hrest => exact Or.inr (List.mem_cons_of_mem first hrest)
      | inl hadd =>
          cases mem_all_of_mem_add hadd with
          | inl hold => exact Or.inl hold
          | inr hfirst => exact Or.inr (hfirst ▸ List.mem_cons_self)

theorem contains_add_of_contains (hs : s.Indexed) (hr : s.contains r = true) (x : Rule) :
    (s.add x).2.contains r = true := by
  by_cases hcontains : s.contains x = true
  · rw [add_of_contains hcontains]
    exact hr
  · rw [add_of_not_contains hcontains, contains_iff (hs.push x)]
    rcases (contains_iff hs r).mp hr with ⟨other, hother, hsame⟩
    exact ⟨other, (mem_all_push_iff s x other).mpr (Or.inl hother), hsame⟩

theorem contains_add_self (hs : s.Indexed) (r : Rule) : (s.add r).2.contains r = true := by
  by_cases hcontains : s.contains r = true
  · rw [add_of_contains hcontains]
    exact hcontains
  · rw [add_of_not_contains hcontains, contains_iff (hs.push r)]
    exact ⟨r, (mem_all_push_iff s r r).mpr (Or.inr rfl), Rule.same_iff.mpr rfl⟩

theorem contains_foldl_add (hs : s.Indexed) (hr : s.contains r = true ∨ r ∈ rules) :
    (rules.foldl (fun s x => (s.add x).2) s).contains r = true := by
  induction rules generalizing s with
  | nil =>
      cases hr with
      | inl hold => exact hold
      | inr hnone => cases hnone
  | cons first rest ih =>
      apply ih (hs.add first)
      rcases hr with hold | hmem
      · exact Or.inl (contains_add_of_contains hs hold first)
      · cases List.mem_cons.mp hmem with
        | inl hfirst => exact Or.inl (hfirst ▸ contains_add_self hs r)
        | inr hrest => exact Or.inr hrest

end RuleSet

/-!
# Rulebooks
-/

namespace Rulebook

variable {b : Rulebook} {r : Rule}

theorem rules_register (b : Rulebook) (rules : List Rule) :
    (b.register rules).2.rules = rules.foldl (fun s r => (s.add r).2) b.rules := by
  induction rules generalizing b with
  | nil => rfl
  | cons first rest ih => exact ih (b.registerRule first).2

/-- A verb that was met brings no rules. -/
theorem exists_rules_compileVerb (b : Rulebook) (verb : String) (arity : Nat) :
    exists rules : List Rule, (b.compileVerb verb arity).2.rules =
        rules.foldl (fun s r => (s.add r).2) b.rules ∧
      forall r, r ∈ rules -> r ∈ b.taxonomy.builtinRules (verb, arity) := by
  by_cases hmet : (verb, arity) ∈ b.compiled
  · rw [compileVerb_of_mem hmet]
    refine ⟨[], rfl, ?_⟩
    intro r hr
    cases hr
  · rw [compileVerb_of_not_mem hmet, rules_register]
    exact ⟨_, rfl, fun _ hr => hr⟩

theorem mem_all_of_mem_reset (hr : r ∈ b.reset.2.rules.all) :
    r ∈ b.rules.all ∧ r.source = .builtin := by
  cases RuleSet.mem_all_of_mem_foldl_add (s := RuleSet.empty) hr with
  | inl hnone => cases hnone
  | inr hkept =>
      rw [List.mem_filter, decide_eq_true_eq] at hkept
      exact hkept

theorem occursIn_compileVerb (hr : r.OccursIn b.rules.all) (verb : String) (arity : Nat) :
    r.OccursIn (b.compileVerb verb arity).2.rules.all := by
  by_cases hmet : (verb, arity) ∈ b.compiled
  · rw [compileVerb_of_mem hmet]
    exact hr
  · rw [compileVerb_of_not_mem hmet]
    exact occursIn_register
      (b := { b with compiled := b.compiled ++ [(verb, arity)] }) hr _

/-- A reset keeps all rules if none of them is learned. -/
theorem occursIn_reset (hb : forall x, x ∈ b.rules.all -> x.source = .builtin) (hslots : r.IsSlots)
    (hr : r.OccursIn b.rules.all) : r.OccursIn b.reset.2.rules.all := by
  rcases hr with ⟨other, hother, hsource⟩
  have hkept : other ∈ b.rules.all.filter fun x => x.source = .builtin := by
    rw [List.mem_filter, decide_eq_true_eq]
    exact ⟨hother, hb other hother⟩
  have hcontains : b.reset.2.rules.contains other = true :=
    RuleSet.contains_foldl_add RuleSet.indexed_empty (Or.inr hkept)
  rcases (RuleSet.contains_iff (RuleSet.indexed_foldl_add _ RuleSet.indexed_empty) other).mp
    hcontains with ⟨form, hform, hsame⟩
  exact ⟨form, hform, Rule.unsourced_eq_of_same hslots
    (Rule.same_trans hsame (Rule.same_of_unsourced_eq hsource))⟩

end Rulebook

/-!
# Histories
-/

namespace Engine

theorem source_of_mem_lessonRules {input : RuleInput} {r : Rule} (hr : r ∈ lessonRules input) :
    r.source = .learned := by
  unfold lessonRules at hr
  split at hr
  · rename_i rules record hrules
    rcases exists_of_rulesOfInput hrules with ⟨rule, rfl, _⟩ | ⟨given, _, hmade, _⟩
    · cases hrules
      rw [List.mem_singleton.mp hr]
    · exact (RuleRecord.exists_spec_of_mem_rules hmade hr).right.left
  · cases hr

/-- What was told in the course of the calls. -/
def told (calls : List Call) : List Input :=
  calls.filterMap fun call =>
    match call with
    | .tell input => some input
    | .reset => none

/-- What was told since the last reset, after one more call. -/
def toldAfter (inputs : List Input) : Call -> List Input
  | .tell input => inputs ++ [input]
  | .reset => []

/-- What was told since the last reset. -/
def sinceReset (calls : List Call) : List Input :=
  calls.foldl toldAfter []

theorem told_append (calls more : List Call) : told (calls ++ more) = told calls ++ told more :=
  List.filterMap_append

theorem sinceReset_snoc (calls : List Call) (call : Call) :
    sinceReset (calls ++ [call]) = toldAfter (sinceReset calls) call :=
  List.foldl_append

theorem tell_mem_of_mem_told {calls : List Call} {input : Input} (h : input ∈ told calls) :
    .tell input ∈ calls := by
  rcases List.mem_filterMap.mp h with ⟨call, hcall, hinput⟩
  cases call with
  | tell given =>
      cases hinput
      exact hcall
  | reset => cases hinput

theorem mem_told_of_mem_sinceReset {calls : List Call} {input : Input}
    (h : input ∈ sinceReset calls) : input ∈ told calls := by
  induction calls using List.reverseRecOn with
  | nil => cases h
  | append_singleton rest last ih =>
      rw [sinceReset_snoc] at h
      rw [told_append]
      cases last with
      | tell given =>
          cases List.mem_append.mp h with
          | inl hold => exact List.mem_append_left _ (ih hold)
          | inr hnew => exact List.mem_append_right _ hnew
      | reset => cases h

/-- The rules in force, by their source. -/
structure Origins (start e : Engine) (calls : List Call) : Prop where
  builtin : forall r, r ∈ e.rulebook.rules.all -> r.source = .builtin ->
    exists key, key ∈ (start.facts (told calls)).map verbOf ∧
      r ∈ start.rulebook.taxonomy.builtinRules key
  learned : forall r, r ∈ e.rulebook.rules.all -> r.source = .learned ->
    r ∈ Engine.learned (sinceReset calls)
  in_force : forall r, r ∈ Engine.learned (sinceReset calls) ->
    e.rulebook.rules.contains r = true

theorem origins_create {date : Moment} {maxDepth : Int} {taxonomy : Taxonomy}
    {audit : Option AuditLog} {start : Engine}
    (h : create date maxDepth taxonomy audit = .ok start) : Origins start start [] := by
  rcases exists_of_map_eq_ok h with ⟨currentDate, _, rfl⟩
  constructor
  · intro r hr
    cases hr
  · intro r hr
    cases hr
  · intro r hr
    cases hr

variable {start e : Engine} {calls : List Call}

/-- What is told adds rules of the verb of its event, or of its lesson. -/
theorem Origins.tell (h : Origins start e calls) (hindexed : e.rulebook.rules.Indexed)
    {next : Engine} {input : Input} (rules : List Rule)
    (hnext : next.rulebook.rules = rules.foldl (fun s r => (s.add r).2) e.rulebook.rules)
    (hbuiltin : forall r, r ∈ rules -> r.source = .builtin ->
      exists key, key ∈ (start.facts [input]).map verbOf ∧
        r ∈ start.rulebook.taxonomy.builtinRules key)
    (hlearned : forall r, r ∈ rules -> r.source = .learned -> r ∈ Engine.learned [input])
    (hlesson : forall r, r ∈ Engine.learned [input] -> r ∈ rules) :
    Origins start next (calls ++ [.tell input]) := by
  have hsince : Engine.learned (sinceReset (calls ++ [.tell input])) =
      Engine.learned (sinceReset calls) ++ Engine.learned [input] := by
    rw [sinceReset_snoc, toldAfter, learned_append]
  have hfacts : start.facts (told (calls ++ [.tell input])) =
      start.facts (told calls) ++ start.facts [input] := by
    rw [told_append, facts_append]
    rfl
  constructor
  case builtin =>
    intro r hr hsource
    rw [hnext] at hr
    simp only [hfacts, List.map_append, List.mem_append, or_and_right, exists_or]
    cases RuleSet.mem_all_of_mem_foldl_add hr with
    | inl hold => exact Or.inl (h.builtin r hold hsource)
    | inr hnew => exact Or.inr (hbuiltin r hnew hsource)
  case learned =>
    intro r hr hsource
    rw [hnext] at hr
    rw [hsince, List.mem_append]
    cases RuleSet.mem_all_of_mem_foldl_add hr with
    | inl hold => exact Or.inl (h.learned r hold hsource)
    | inr hnew => exact Or.inr (hlearned r hnew hsource)
  case in_force =>
    intro r hr
    rw [hsince, List.mem_append] at hr
    rw [hnext]
    apply RuleSet.contains_foldl_add hindexed
    exact hr.imp (h.in_force r) (hlesson r)

theorem Origins.tell_event (h : Origins start e calls) (hdescends : Descends start e)
    (description : Value) (moment : Moment) :
    Origins start (e.tell (.event description moment))
      (calls ++ [.tell (.event description moment)]) := by
  have hprepare := prepareEvent_eq_of_maxDepth hdescends.maxDepth description moment
  have hindexed := hdescends.complete.indexed
  have hlesson : forall r, r ∈ Engine.learned [.event description moment] -> False := by
    intro r hr
    cases hr
  show Origins start (e.assertEvent description moment).2 _
  cases hfact : start.prepareEvent description moment with
  | error fault =>
      have hnext := e.unlogged_assertEvent_of_error (hprepare.trans hfact)
      apply h.tell hindexed []
      · rw [rulebook_eq_of_unlogged_eq hnext]
        rfl
      · intro r hr
        cases hr
      · intro r hr
        cases hr
      · exact fun r hr => (hlesson r hr).elim
  | ok fact =>
      rcases e.rulebook.exists_rules_compileVerb fact.1.functor.text fact.1.arity with
        ⟨rules, hrules, hmade⟩
      rw [assertEvent_of_ok e (hprepare.trans hfact)]
      apply h.tell hindexed rules
      · rw [rulebook_storeEvent, hrules]
      · intro r hr _
        have hkey := hmade r hr
        rw [hdescends.taxonomy] at hkey
        refine ⟨verbOf fact, ?_, hkey⟩
        simp [facts, fact?, hfact, Except.toOption]
      · intro r hr hsource
        rw [Taxonomy.source_of_mem_builtinRules (hmade r hr)] at hsource
        cases hsource
      · exact fun r hr => (hlesson r hr).elim

theorem Origins.tell_rules (h : Origins start e calls) (hdescends : Descends start e)
    (input : RuleInput) :
    Origins start (e.tell (.rules input)) (calls ++ [.tell (.rules input)]) := by
  apply h.tell hdescends.complete.indexed (lessonRules input)
  · show (e.learn input).2.rulebook.rules = _
    rw [rulebook_learn, Rulebook.rules_register]
  · intro r hr hsource
    rw [source_of_mem_lessonRules hr] at hsource
    cases hsource
  · intro r hr _
    rw [learned_rules]
    exact hr
  · intro r hr
    rw [learned_rules] at hr
    exact hr

/-- A reset keeps the origins of the built-in rules, and nothing has been learned since. -/
theorem Origins.reset (h : Origins start e calls) :
    Origins start e.reset (calls ++ [.reset]) := by
  have htold : told (calls ++ [.reset]) = told calls := by
    rw [told_append]
    exact List.append_nil _
  have hsince : sinceReset (calls ++ [.reset]) = [] := sinceReset_snoc calls .reset
  constructor
  case builtin =>
    intro r hr hsource
    rw [rulebook_reset] at hr
    rw [htold]
    exact h.builtin r (Rulebook.mem_all_of_mem_reset hr).left hsource
  case learned =>
    intro r hr hsource
    rw [rulebook_reset] at hr
    rw [(Rulebook.mem_all_of_mem_reset hr).right] at hsource
    cases hsource
  case in_force =>
    intro r hr
    rw [hsince] at hr
    cases hr

theorem Origins.perform (h : Origins start e calls) (hdescends : Descends start e) (call : Call) :
    Origins start (e.perform call) (calls ++ [call]) := by
  cases call with
  | tell input =>
      cases input with
      | event description moment => exact h.tell_event hdescends description moment
      | rules input => exact h.tell_rules hdescends input
  | reset => exact h.reset

theorem Origins.performAll (h : Origins start e calls) (hdescends : Descends start e)
    (more : List Call) : Origins start (e.performAll more) (calls ++ more) := by
  induction more generalizing e calls with
  | nil =>
      rw [List.append_nil]
      exact h
  | cons call rest ih =>
      rw [List.append_cons]
      exact ih (h.perform hdescends call) (hdescends.perform call)

/-- What was told since the last reset is all that the records show. -/
theorem Remembers.performAll {inputs : List Input} (h : e.Remembers inputs) (calls : List Call) :
    (e.performAll calls).Remembers (calls.foldl toldAfter inputs) := by
  induction calls generalizing e inputs with
  | nil => exact h
  | cons call rest ih =>
      cases call with
      | tell input => exact ih (h.tell input)
      | reset =>
          apply ih (e := e.reset)
          constructor
          case timeIndexed =>
            rw [store_reset]
            exact EventStore.timeIndexed_empty _
          case records => exact records_eq_of_unlogged_eq (unlogged_reset e)

/-!
# Histories without learned rules
-/

theorem mem_learned_of_subset {inputs more : List Input}
    (h : forall input, input ∈ inputs -> input ∈ more) {r : Rule} (hr : r ∈ learned inputs) :
    r ∈ learned more := by
  rcases List.mem_flatMap.mp hr with ⟨lesson, hlesson, hmem⟩
  rcases List.mem_filterMap.mp hlesson with ⟨input, hinput, hread⟩
  exact List.mem_flatMap.mpr ⟨lesson, List.mem_filterMap.mpr ⟨input, h input hinput, hread⟩, hmem⟩

theorem Origins.source_of_not_learned (h : Origins start e calls)
    (hnone : Engine.learned (told calls) = []) {r : Rule} (hr : r ∈ e.rulebook.rules.all) :
    r.source = .builtin := by
  cases hsource : r.source with
  | builtin => rfl
  | learned =>
      have hmem := mem_learned_of_subset (fun _ => mem_told_of_mem_sinceReset)
        (h.learned r hr hsource)
      rw [hnone] at hmem
      cases hmem

/-- The built-in rules of every verb that was ever told are in force, also after a reset. -/
def Retains (start e : Engine) (calls : List Call) : Prop :=
  forall key, key ∈ (start.facts (told calls)).map verbOf ->
    forall r, r ∈ start.rulebook.taxonomy.builtinRules key -> r.OccursIn e.rulebook.rules.all

theorem Retains.perform (h : Retains start e calls) (horigins : Origins start e calls)
    (hdescends : Descends start e) (hnone : Engine.learned (told calls) = []) (call : Call) :
    Retains start (e.perform call) (calls ++ [call]) := by
  intro key hkey r hr
  rw [told_append, facts_append, List.map_append, List.mem_append] at hkey
  cases call with
  | tell input =>
      cases input with
      | event description moment =>
          have hprepare := prepareEvent_eq_of_maxDepth hdescends.maxDepth description moment
          have hnext := hdescends.perform (.tell (.event description moment))
          show r.OccursIn (e.assertEvent description moment).2.rulebook.rules.all
          cases hfact : start.prepareEvent description moment with
          | error fault =>
              rw [rulebook_eq_of_unlogged_eq
                (e.unlogged_assertEvent_of_error (hprepare.trans hfact))]
              cases hkey with
              | inl hold => exact h key hold r hr
              | inr hnew => simp [told, facts, fact?, hfact, Except.toOption] at hnew
          | ok fact =>
              rw [assertEvent_of_ok e (hprepare.trans hfact), rulebook_storeEvent]
              cases hkey with
              | inl hold => exact Rulebook.occursIn_compileVerb (h key hold r hr) _ _
              | inr hnew =>
                  have hverb : key = verbOf fact := by
                    simpa [told, facts, fact?, hfact, Except.toOption] using hnew
                  rw [← hdescends.taxonomy, ← Rulebook.taxonomy_compileVerb] at hr
                  apply (hdescends.complete.compileVerb _ _).occursIn key _ r hr
                  exact (Rulebook.mem_compiled_compileVerb_iff _ _ _ _).mpr (Or.inr hverb)
      | rules input =>
          show r.OccursIn (e.learn input).2.rulebook.rules.all
          rw [rulebook_learn]
          cases hkey with
          | inl hold => exact Rulebook.occursIn_register (h key hold r hr) _
          | inr hnew => cases hnew
  | reset =>
      show r.OccursIn e.reset.rulebook.rules.all
      rw [rulebook_reset]
      -- A learned copy that stands in for a built-in rule would be dropped, but there is none.
      cases hkey with
      | inl hold =>
          exact Rulebook.occursIn_reset (fun x hx => horigins.source_of_not_learned hnone hx)
            (Taxonomy.isSlots_of_mem_builtinRules hr) (h key hold r hr)
      | inr hnew => cases hnew

theorem Retains.performAll (h : Retains start e calls) (horigins : Origins start e calls)
    (hdescends : Descends start e) {more : List Call}
    (hnone : Engine.learned (told (calls ++ more)) = []) :
    Retains start (e.performAll more) (calls ++ more) := by
  induction more generalizing e calls with
  | nil =>
      rw [List.append_nil]
      exact h
  | cons call rest ih =>
      have hfirst : Engine.learned (told calls) = [] := by
        rw [told_append, learned_append, List.append_eq_nil_iff] at hnone
        exact hnone.left
      rw [List.append_cons] at hnone ⊢
      exact ih (h.perform horigins hdescends hfirst call) (horigins.perform hdescends call)
        (hdescends.perform call) hnone

section
variable {date : Moment} {maxDepth : Int} {taxonomy : Taxonomy} {audit : Option AuditLog}
  (hstart : create date maxDepth taxonomy audit = .ok start)
  (hnone : Engine.learned (told calls) = [])
include hstart hnone

/-- Without learned rules every rule in force was made for a verb that was told. -/
theorem exists_key_of_not_learned {r : Rule}
    (hr : r ∈ (start.performAll calls).rulebook.rules.all) :
    exists key, key ∈ (start.facts (told calls)).map verbOf ∧ r ∈ taxonomy.builtinRules key := by
  have horigins := (origins_create hstart).performAll (descends_create hstart) calls
  rw [List.nil_append] at horigins
  rw [← taxonomy_create hstart]
  exact horigins.builtin r hr (horigins.source_of_not_learned hnone hr)

/-- Without learned rules exactly the rules of the verbs that were ever told are in force. -/
theorem occursIn_iff_of_not_learned (r : Rule) :
    r.OccursIn (start.performAll calls).rulebook.rules.all ↔
      r.OccursIn (((start.facts (told calls)).map verbOf).flatMap taxonomy.builtinRules) := by
  have hretains : Retains start (start.performAll calls) ([] ++ calls) := by
    apply Retains.performAll _ (origins_create hstart) (descends_create hstart) hnone
    intro key hkey
    cases hkey
  rw [List.nil_append] at hretains
  constructor
  · intro h
    rcases h with ⟨other, hother, hsource⟩
    rcases exists_key_of_not_learned hstart hnone hother with ⟨key, hkey, hmade⟩
    exact ⟨other, List.mem_flatMap.mpr ⟨key, hkey, hmade⟩, hsource⟩
  · intro h
    rcases h with ⟨other, hother, hsource⟩
    rcases List.mem_flatMap.mp hother with ⟨key, hkey, hmade⟩
    rw [← taxonomy_create hstart] at hmade
    exact Rule.occursIn_of_unsourced_eq hsource.symm (hretains key hkey other hmade)

end

end Engine
end EventCalculus
