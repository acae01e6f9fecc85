import EventCalculus.Proofs.RecordText
import EventCalculus.Proofs.SingleEvent

/-!
# What records initiate

A record is refused if a pattern that initiates has a named variable which the event does not bind.
The anonymous variable has no name, so a pattern with it is accepted, and its rule derives nothing.
Every other rule that initiates derives one ground fluent of its domain from each event.
-/

namespace EventCalculus

/-!
# Substituted patterns
-/

namespace Term

mutual

/-- The anonymous variable occurs. -/
def hasWildcard : Term -> Bool
  | .var v => v.isAnonymous
  | .compound _ args => hasWildcardAny args
  | .atom _ | .number _ | .text _ => false

/-- The anonymous variable occurs in one of the terms. -/
def hasWildcardAny : List Term -> Bool
  | [] => false
  | t :: ts => hasWildcard t || hasWildcardAny ts

end

mutual

/-- If every named variable becomes ground, wildcards decide whether the whole term does. -/
theorem isGround_substitute {b : Bindings} : (t : Term) ->
    (forall name, name ∈ t.occurrences -> exists u, b.get? name = some u ∧ u.isGround = true) ->
      (t.substitute b).isGround = !t.hasWildcard
  | .var v, h => by
      rw [substitute, hasWildcard]
      cases hv : v.isAnonymous with
      | true => rfl
      | false =>
          rcases h v.text (by simp [occurrences, hv]) with ⟨u, hu, hground⟩
          rw [hu]
          exact hground
  | .compound f args, h => isGroundAll_substituteAll args h
  | .atom n, _ => rfl
  | .number n, _ => rfl
  | .text s, _ => rfl

theorem isGroundAll_substituteAll {b : Bindings} : (ts : List Term) ->
    (forall name, name ∈ occurrencesAll ts ->
      exists u, b.get? name = some u ∧ u.isGround = true) ->
      isGroundAll (substituteAll b ts) = !hasWildcardAny ts
  | [], _ => rfl
  | t :: ts, h => by
      have hhead := isGround_substitute t fun name hname => h name (List.mem_append_left _ hname)
      have htail := isGroundAll_substituteAll ts fun name hname =>
        h name (List.mem_append_right _ hname)
      rw [substituteAll, isGroundAll, hasWildcardAny, hhead, htail, Bool.not_or]

end

end Term

/-- The anonymous variable occurs. -/
def Compound.hasWildcard (c : Compound) : Bool :=
  c.toTerm.hasWildcard

/-!
# Patterns of records
-/

theorem FluentSpec.functor_of_compound {spec : FluentSpec} {c : Compound}
    (h : spec.compound = .ok c) : c.functor = spec.fluent := by
  unfold compound at h
  split at h
  · cases h
    rfl
  · split at h
    · cases h
    · split at h
      · cases h
      · split at h
        · cases h
        · rename_i hfunctor
          split at h
          · cases h
          · cases h
            exact not_not.mp hfunctor

/-- What the event of a record binds. -/
def recordBindings (subject object : Term) : Bindings :=
  (OrderedMap.empty.insert subjectVariable.text subject).insert recordObject.text object

theorem get?_recordBindings_subject (subject object : Term) :
    (recordBindings subject object).get? subjectVariable.text = some subject := by
  rfl

theorem get?_recordBindings_object (subject object : Term) :
    (recordBindings subject object).get? recordObject.text = some object := by
  rfl

namespace RuleRecord
variable {r : RuleRecord} {rules : List Rule} {rule : Rule}

theorem matchCompound?_event (r : RuleRecord) (subject object : Term) :
    r.event.matchCompound? ⟨r.verb, [subject, object]⟩ = some (recordBindings subject object) := by
  rw [event, Compound.matchCompound?, Term.matchTerm?, Compound.toTerm, Compound.toTerm,
    Term.matchFrom, if_pos rfl]
  rfl

theorem mem_slots_of_isEmpty_unboundVariables {fluent : Compound}
    (h : (unboundVariables fluent).isEmpty = true) {name : String}
    (hname : name ∈ fluent.toTerm.occurrences) :
    name = subjectVariable.text ∨ name = recordObject.text := by
  by_contra hneither
  rw [not_or] at hneither
  have hmem : name ∈ unboundVariables fluent := by
    rw [unboundVariables, List.mem_mergeSort, List.mem_filter, Term.variableNames,
      List.mem_eraseDups]
    exact ⟨hname, decide_eq_true hneither⟩
  rw [List.isEmpty_iff.mp h] at hmem
  cases hmem

/-- The rule has the event of the record and initiates the fluent of one of its entries, in which
only the variables of the event have names. -/
structure Initiates (r : RuleRecord) (spec : FluentSpec) (rule : Rule) : Prop where
  event : rule.event = r.event
  effect : rule.effect = .initiates
  fluent : spec.compound = .ok rule.fluent
  exclusive : rule.exclusive = r.replaced.contains spec.fluent
  names : forall name, name ∈ rule.fluent.toTerm.occurrences ->
    name = subjectVariable.text ∨ name = recordObject.text

theorem initiates_of_initiatingRule {spec : FluentSpec} (h : r.initiatingRule spec = .ok rule) :
    r.Initiates spec rule := by
  rcases exists_of_bind_eq_ok h with ⟨fluent, hfluent, hmade⟩
  simp only at hmade
  split at hmade
  · rename_i hbound
    cases hmade
    exact ⟨rfl, rfl, hfluent, rfl, fun name => mem_slots_of_isEmpty_unboundVariables hbound⟩
  · cases hmade

/-- The entries of a record and its rules that initiate go together. -/
theorem exists_initiates_of_mem_rules (h : r.rules = .ok rules) (hrule : rule ∈ rules)
    (heffect : rule.effect = .initiates) :
    exists spec, spec ∈ r.initiates ∧ r.Initiates spec rule := by
  rcases (mem_rules_iff h rule).mp hrule with ⟨spec, hspec, hmade⟩ | ⟨spec, _, hmade⟩
  · exact ⟨spec, hspec, initiates_of_initiatingRule hmade⟩
  · rcases exists_of_bind_eq_ok hmade with ⟨fluent, _, hmade⟩
    cases hmade
    cases heffect

theorem exists_mem_rules_of_initiates (h : r.rules = .ok rules) {spec : FluentSpec}
    (hspec : spec ∈ r.initiates) : exists rule, rule ∈ rules ∧ r.Initiates spec rule := by
  rcases exists_of_bind_eq_ok h with ⟨initiating, hinitiating, _⟩
  rcases exists_of_mapM_eq_ok hinitiating hspec with ⟨rule, hmade⟩
  exact ⟨rule, (mem_rules_iff h rule).mpr (Or.inl ⟨spec, hspec, hmade⟩),
    initiates_of_initiatingRule hmade⟩

/-!
# What their rules derive
-/

section
variable {spec : FluentSpec} {subject object : Term}

theorem Initiates.fluentFor? (h : r.Initiates spec rule) {e : Event}
    (he : e.description = ⟨r.verb, [subject, object]⟩) :
    rule.fluentFor? e = some (rule.fluent.substitute (recordBindings subject object)) := by
  rw [Rule.fluentFor?, h.event, he, matchCompound?_event]
  rfl

theorem Initiates.isGround_substitute (h : r.Initiates spec rule)
    (hground : (⟨r.verb, [subject, object]⟩ : Compound).isGround = true) :
    (rule.fluent.substitute (recordBindings subject object)).isGround =
      !rule.fluent.hasWildcard := by
  have hargs : subject.isGround = true ∧ object.isGround = true := by
    simpa [Compound.isGround, Compound.toTerm, Term.isGround, Term.isGroundAll] using hground
  apply Term.isGround_substitute rule.fluent.toTerm
  intro name hname
  rcases h.names name hname with rfl | rfl
  · exact ⟨subject, get?_recordBindings_subject subject object, hargs.left⟩
  · exact ⟨object, get?_recordBindings_object subject object, hargs.right⟩

/-- An event starts the fluent of the rule with its subject and its object, unless there is a
wildcard in it. -/
theorem Initiates.initiated? (h : r.Initiates spec rule) {e : Event}
    (hground : e.description.isGround = true)
    (he : e.description = ⟨r.verb, [subject, object]⟩) :
    rule.initiated? e = if rule.fluent.hasWildcard then none
      else some (rule.fluent.substitute (recordBindings subject object)) := by
  rw [Rule.initiated?, h.fluentFor? he, Option.filter_some,
    h.isGround_substitute (he ▸ hground)]
  cases rule.fluent.hasWildcard with
  | true => rfl
  | false => rfl

theorem Initiates.initiationsAt (h : r.Initiates spec rule) {s : Scenario}
    (hs : s.store.Reachable) {limit : Option String} {e : Event} (hmem : e ∈ s.store.events)
    (hlimit : Scenario.isWithin limit e = true)
    (he : e.description = ⟨r.verb, [subject, object]⟩) :
    s.initiationsAt rule limit e =
      if rule.fluent.hasWildcard then []
      else [⟨rule.fluent.substitute (recordBindings subject object), e⟩] := by
  rw [Scenario.initiationsAt_eq hs hmem hlimit, h.initiated? (hs.isGround hmem) he]
  cases rule.fluent.hasWildcard with
  | true => rfl
  | false => rfl

end

/-- From each event of the record in a store the rule derives one initiation: of the ground fluent
of the domain that has the subject and the object of the event for their variables. -/
def DerivesFluents (r : RuleRecord) (rule : Rule) (domain : Functor) : Prop :=
  forall (s : Scenario) (limit : Option String) (e : Event) (subject object : Term),
    s.store.Reachable -> e ∈ s.store.events -> Scenario.isWithin limit e = true ->
      e.description = ⟨r.verb, [subject, object]⟩ ->
        exists fluent, fluent = rule.fluent.substitute (recordBindings subject object) ∧
          fluent.isGround = true ∧ fluent.functor = domain ∧
          s.initiationsAt rule limit e = [⟨fluent, e⟩]

/-- No event of a store starts anything through the rule. -/
def IsInert (r : RuleRecord) (rule : Rule) : Prop :=
  forall (s : Scenario) (limit : Option String) (e : Event) (subject object : Term),
    s.store.Reachable -> e ∈ s.store.events -> Scenario.isWithin limit e = true ->
      e.description = ⟨r.verb, [subject, object]⟩ -> s.initiationsAt rule limit e = []

theorem Initiates.derivesFluents {spec : FluentSpec} (h : r.Initiates spec rule)
    (hnone : rule.fluent.hasWildcard = false) : r.DerivesFluents rule spec.fluent := by
  intro s limit e subject object hs hmem hlimit he
  have hground := h.isGround_substitute (he ▸ hs.isGround hmem)
  have hderived := h.initiationsAt hs hmem hlimit he
  rw [hnone] at hground hderived
  have hfunctor : rule.fluent.functor = spec.fluent := FluentSpec.functor_of_compound h.fluent
  exact ⟨_, rfl, hground, hfunctor, hderived⟩

theorem Initiates.isInert {spec : FluentSpec} (h : r.Initiates spec rule)
    (hsome : rule.fluent.hasWildcard = true) : r.IsInert rule := by
  intro s limit e subject object hs hmem hlimit he
  rw [h.initiationsAt hs hmem hlimit he, hsome]
  rfl

/-- An accepted record has an initiating rule for each of its entries and no others.  A rule without
a wildcard derives its fluent from every event of the record, and one with a wildcard derives
nothing. -/
theorem initiating_rules_derive_unless_wildcard (h : r.rules = .ok rules) :
    (forall spec, spec ∈ r.initiates -> exists rule, rule ∈ rules ∧ r.Initiates spec rule) ∧
      forall rule, rule ∈ rules -> rule.effect = .initiates ->
        exists spec, spec ∈ r.initiates ∧ r.Initiates spec rule ∧
          (rule.fluent.hasWildcard = false -> r.DerivesFluents rule spec.fluent) ∧
          (rule.fluent.hasWildcard = true -> r.IsInert rule) := by
  constructor
  · intro spec hspec
    exact exists_mem_rules_of_initiates h hspec
  · intro rule hrule heffect
    rcases exists_initiates_of_mem_rules h hrule heffect with ⟨spec, hspec, hinitiates⟩
    exact ⟨spec, hspec, hinitiates, hinitiates.derivesFluents, hinitiates.isInert⟩

end RuleRecord

/-!
# Somebody settles somewhere
-/

namespace Residence

/-- Whoever settles in a place lives as the pattern says. -/
def settlingStarts (pattern : String) : RuleRecord :=
  ⟨⟨"settled_in", Eq.refl true⟩, .instantaneous, [⟨livesIn, some pattern⟩], []⟩

def livingThere : Rule :=
  ⟨(settlingStarts "").event, .initiates, ⟨livesIn, recordSlots⟩, false, .learned⟩

def livingSomewhere : Rule :=
  ⟨(settlingStarts "").event, .initiates,
    ⟨livesIn, [.var subjectVariable, .var ⟨"_", Eq.refl true⟩]⟩, false, .learned⟩

def settlement : EventStore :=
  ((EventStore.empty EventStore.defaultMaxDepth).push
    ⟨(settlingStarts "").verb, [alice, rome]⟩ "2024-01-01").2

theorem reachable_settlement : settlement.Reachable :=
  EventStore.Reachable.append (t := .compound (settlingStarts "").verb [alice, rome])
    (.empty EventStore.defaultMaxDepth) rfl

end Residence

namespace RuleRecord

open Residence

theorem initiating_rules_derive_unless_wildcard_settlement :
    (settlingStarts "lives_in(Subject, Object)").rules = .ok [livingThere] ∧
      livingThere.fluent.hasWildcard = false ∧
      forall rule, rule ∈ [livingThere] -> rule.effect = .initiates ->
        exists spec, spec ∈ (settlingStarts "lives_in(Subject, Object)").initiates ∧
          (settlingStarts "lives_in(Subject, Object)").Initiates spec rule ∧
          (rule.fluent.hasWildcard = false ->
            (settlingStarts "lives_in(Subject, Object)").DerivesFluents rule spec.fluent) ∧
          (rule.fluent.hasWildcard = true ->
            (settlingStarts "lives_in(Subject, Object)").IsInert rule) := by
  have hrules : (settlingStarts "lives_in(Subject, Object)").rules.toOption =
      some [livingThere] := by
    decide +kernel
  have haccepted := toOption_eq_some_iff.mp hrules
  exact ⟨haccepted, rfl, (initiating_rules_derive_unless_wildcard haccepted).right⟩

/-- The record is accepted, and its rule derives nothing from an event in the store. -/
theorem accepted_rule_derives_nothing :
    (settlingStarts "lives_in(Subject, _)").rules = .ok [livingSomewhere] ∧
      livingSomewhere.effect = .initiates ∧ settlement.Reachable ∧
      settlement.events.map Event.description =
        [⟨(settlingStarts "lives_in(Subject, _)").verb, [alice, rome]⟩] ∧
      (Scenario.mk settlement (RuleSet.ofList [livingSomewhere])
        ExclusiveDomains.empty).initiationsBy livingSomewhere none = [] := by
  have hrules : (settlingStarts "lives_in(Subject, _)").rules.toOption =
      some [livingSomewhere] := by
    decide +kernel
  exact ⟨toOption_eq_some_iff.mp hrules, rfl, reachable_settlement, rfl, by decide +kernel⟩

end RuleRecord
end EventCalculus
