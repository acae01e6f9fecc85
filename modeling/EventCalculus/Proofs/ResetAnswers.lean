import EventCalculus.Proofs.KeptRules
import EventCalculus.Proofs.SoundTaxonomy

/-!
# Answers after a reset

A reset keeps the built-in rules and makes their domains exclusive again.  A kept rule brings
nothing about that a fresh engine would not see as well, so all that is left of the time before the
reset are exclusive domains.  In the domains that a fresh engine does not have among its own, less
may hold than there; whatever else is asked is answered as by a fresh engine.
-/

namespace EventCalculus
namespace Scenario

/-!
# More exclusive domains
-/

/-- The scenarios differ in nothing but in exclusive domains, of which the second one has more. -/
structure OnlyMoreExclusive (s s' : Scenario) : Prop where
  fires_iff : forall effect fluent time,
    s'.Fires effect fluent time ↔ s.Fires effect fluent time
  exclusive : forall domain, s.exclusive.contains domain = true ->
    s'.exclusive.contains domain = true

variable {s s' : Scenario} (h : OnlyMoreExclusive s s')
include h

theorem OnlyMoreExclusive.initiates_iff (fluent : Compound) (time : String) :
    s'.Initiates fluent time ↔ s.Initiates fluent time := by
  rw [initiates_iff_fires, initiates_iff_fires, h.fires_iff]

theorem OnlyMoreExclusive.terminates_iff (fluent : Compound) (time : String) :
    s'.Terminates fluent time ↔ s.Terminates fluent time := by
  simp only [terminates_iff_fires, h.fires_iff]

/-- The second scenario is like the first one with the exclusive domains of the second one. -/
theorem OnlyMoreExclusive.sameFacts : s'.SameFacts { s with exclusive := s'.exclusive } :=
  sameFacts_of_fires_iff h.fires_iff fun _ => rfl

theorem OnlyMoreExclusive.narrows (time : String) : Narrows time s s' := by
  constructor
  case initiates =>
    intro fluent start _
    exact (h.initiates_iff fluent start).mp
  case clips =>
    intro fluent clip _ hclips
    cases hclips with
    | inl hterminates => exact Or.inl ((h.terminates_iff fluent clip).mpr hterminates)
    | inr hdisplaces =>
        rcases hdisplaces with ⟨hexclusive, other, hother, hcompetes⟩
        exact Or.inr ⟨h.exclusive _ hexclusive, other, (h.initiates_iff other clip).mpr hother,
          hcompetes⟩

theorem OnlyMoreExclusive.agreeAbout :
    AgreeAbout (fun c => isSeenAlike s s' c = true) s s' := by
  apply agreeAbout_of_terminates_iff
  case of_same =>
    intro a b hsame ha
    rw [← isSeenAlike_of_same hsame]
    exact ha
  case hcompeting =>
    intro a b hfunctor hsubject hb
    rcases hsubject with ⟨_, t, _, ht, _⟩
    unfold isSeenAlike at hb ⊢
    rw [ht] at hb
    rw [hfunctor, Bool.or_eq_true]
    exact Or.inr hb
  case hinitiates =>
    intro fluent _ time
    simp only [InitiatesSame, h.initiates_iff]
  case hterminates =>
    intro fluent _ time
    exact (h.terminates_iff fluent time).symm
  case hexclusive =>
    intro fluent t hfluent ht
    rw [isSeenAlike, ht] at hfluent
    exact beq_iff_eq.mp hfluent

/-- Without newly exclusive domains in question, and if texts tell fluents apart, answers come in
the same order. -/
theorem OnlyMoreExclusive.query_eq (hs : s.Indexed) (hs' : s'.Indexed) (htexts : s.DistinctTexts)
    {p : Compound} (hp : s.exclusive.contains p.functor.text = s'.exclusive.contains p.functor.text)
    (time : String) : s'.query p time = s.query p time := by
  have hmiddle : Indexed { s with exclusive := s'.exclusive } := ⟨hs.store, hs.rules⟩
  have hpast : SamePast time s { s with exclusive := s'.exclusive } :=
    samePast_withExclusive s s'.exclusive
  rw [← hpast.query_eq hs hmiddle hp]
  exact (query_eq_of_sameFacts hmiddle hs' h.sameFacts.symm htexts p time).symm

theorem OnlyMoreExclusive.timeline_eq (hs : s.Indexed) (hs' : s'.Indexed)
    (htexts : s.DistinctTexts) {p : Compound}
    (hp : s.exclusive.contains p.functor.text = s'.exclusive.contains p.functor.text) :
    s'.timeline p = s.timeline p := by
  have hmiddle : Indexed { s with exclusive := s'.exclusive } := ⟨hs.store, hs.rules⟩
  -- Which fluents there are does not depend on the exclusive domains, but their intervals do.
  have hforms : s.fluentsOf p = s'.fluentsOf p :=
    fluentsOf_eq_of_sameFacts hmiddle hs' h.sameFacts.symm htexts p
  have hintervals : (s.fluentsOf p).flatMap s.intervals = (s.fluentsOf p).flatMap s'.intervals := by
    apply List.flatMap_congr
    intro fluent hmem
    rcases exists_initiates_of_mem_fluentsOf hs hmem with ⟨_, hinitiates⟩
    rcases Option.isSome_iff_exists.mp (isSome_matchCompound?_of_mem_fluentsOf hmem) with
      ⟨b, hmatch⟩
    apply h.agreeAbout.intervals_eq _ hs hs' (isGround_of_initiates hinitiates)
    rw [isSeenAlike, ← Compound.functor_eq_of_matchCompound? hmatch, hp, beq_self_eq_true,
      Bool.or_true]
  rw [timeline, timeline, ← hforms, hintervals]

theorem OnlyMoreExclusive.everHeld_eq (hs : s.Indexed) (hs' : s'.Indexed) (p : Compound) :
    s'.everHeld p = s.everHeld p := by
  have hmiddle : Indexed { s with exclusive := s'.exclusive } := ⟨hs.store, hs.rules⟩
  exact everHeld_eq_of_sameFacts hs' hmiddle h.sameFacts p

/-- One list of all that holds fails if the other does.  Of what is seen alike both list the same,
and for the rest the second one lists nothing new and nothing that holds since earlier. -/
theorem OnlyMoreExclusive.holdings_or_none (hs : s.Indexed) (hs' : s'.Indexed) (time : String) :
    (s'.allHolding? time = none ∧ s.allHolding? time = none) ∨
      exists holdings' holdings, s'.allHolding? time = some holdings' ∧
        s.allHolding? time = some holdings ∧
        (forall x, x ∈ holdings' -> isSeenAlike s s' x.fluent = true ->
          exists y, y ∈ holdings ∧ x.Agree y) ∧
        (forall x, x ∈ holdings -> isSeenAlike s s' x.fluent = true ->
          exists y, y ∈ holdings' ∧ x.Agree y) ∧
        Covers (fun x y : Holding => y.fluent.same x.fluent = true ∧ y.since ≤ x.since) holdings'
          holdings := by
  have hsubject : forall c : Compound, c.subject? = none -> isSeenAlike s s' c = true := by
    intro c hc
    rw [isSeenAlike, hc]
    rfl
  have hnone : s'.allHolding? time = none ↔ s.allHolding? time = none :=
    ⟨h.agreeAbout.symm.allHolding?_eq_none hs' hs hsubject,
      h.agreeAbout.allHolding?_eq_none hs hs' hsubject⟩
  rcases allHolding?_none_or_some hnone with
    hboth | ⟨holdings', holdings, hafter, hbefore, hperm', hperm⟩
  · exact Or.inl hboth
  · refine Or.inr ⟨holdings', holdings, hafter, hbefore, ?_, ?_,
      ((h.narrows time).covers_unsortedHoldings hs hs').of_perm hperm' hperm⟩
    · intro x hx hseen
      simp only [hperm.mem_iff]
      exact h.agreeAbout.symm.exists_mem_unsortedHoldings hs' hs (hperm'.mem_iff.mp hx) hseen
    · intro x hx hseen
      simp only [hperm'.mem_iff]
      exact h.agreeAbout.exists_mem_unsortedHoldings hs hs' (hperm.mem_iff.mp hx) hseen

end Scenario

/-!
# Known verbs

Whether a verb has built-in rules does not depend on the number of its arguments, if it has any.
-/

namespace Taxonomy

variable {verb domain : String} {arity : Nat} {rules : List Rule}

theorem isFunctorText_of_slotCompound {name : String} {c : Compound}
    (h : slotCompound name arity = .ok c) : isFunctorText name = true := by
  rw [← functor_of_slotCompound h]
  exact c.functor.valid

theorem exists_slotRule_of_slotRule {effect : Effect} {exclusive : Bool} {r : Rule}
    (h : slotRule effect exclusive verb domain arity = .ok r) (other : Nat) :
    exists r', slotRule effect exclusive verb domain other = .ok r' := by
  rcases exists_of_bind_eq_ok h with ⟨event, hevent, h⟩
  rcases exists_of_bind_eq_ok h with ⟨fluent, hfluent, _⟩
  exact exists_slotRule_eq_ok (isFunctorText_of_slotCompound hevent)
    (isFunctorText_of_slotCompound hfluent) effect exclusive other

theorem exists_singleton_of_singleton {effect : Effect} {exclusive : Bool}
    (h : (do return [← slotRule effect exclusive verb domain arity]) = .ok rules) (other : Nat) :
    exists rules', (do return [← slotRule effect exclusive verb domain other]) = .ok rules' ∧
      rules' ≠ [] := by
  rcases exists_of_bind_eq_ok h with ⟨r, hr, _⟩
  rcases exists_slotRule_of_slotRule hr other with ⟨r', hr'⟩
  rw [hr']
  exact ⟨[r'], rfl, List.cons_ne_nil _ _⟩

theorem exists_rules_of_rules {t : Template} (h : t.rules verb domain arity = .ok rules)
    (other : Nat) : exists rules', t.rules verb domain other = .ok rules' ∧ rules' ≠ [] := by
  cases t with
  | accumulate => exact exists_singleton_of_singleton h other
  | terminate => exact exists_singleton_of_singleton h other
  | replace => exact exists_singleton_of_singleton h other
  | complete =>
      unfold Template.rules at h ⊢
      simp only at h ⊢
      split at h
      · rcases exists_of_bind_eq_ok h with ⟨_, hended, h⟩
        rcases exists_of_bind_eq_ok h with ⟨_, hstarted, _⟩
        rcases exists_slotRule_of_slotRule hended other with ⟨first, hfirst⟩
        rcases exists_slotRule_of_slotRule hstarted other with ⟨second, hsecond⟩
        rw [hfirst, hsecond]
        exact ⟨[first, second], rfl, List.cons_ne_nil _ _⟩
      · cases h

theorem exists_classify_of_mem_builtinRules {taxonomy : Taxonomy} {r : Rule}
    (hr : r ∈ taxonomy.builtinRules (verb, arity)) {other : Nat} (hother : other ≠ 0) :
    exists rules, taxonomy.classify verb other = .ok rules ∧ rules ≠ [] := by
  have harity := (isSlotRule_of_mem_builtinRules hr).right
  unfold builtinRules classify at hr
  unfold classify
  rw [if_neg harity] at hr
  rw [if_neg hother]
  cases hfind : taxonomy.find? verb with
  | none => simp [hfind] at hr
  | some p =>
      simp only [hfind, VerbPattern.rulesFor?] at hr ⊢
      cases hdomain : p.matcher.domain? verb with
      | none => simp [hdomain, Except.map] at hr
      | some domain =>
          simp only [hdomain] at hr ⊢
          cases hrules : p.template.rules verb domain arity with
          | error fault => simp [hrules, Except.map] at hr
          | ok rules =>
              rcases exists_rules_of_rules hrules other with ⟨rules', hrules', hne⟩
              rw [hrules']
              exact ⟨rules', rfl, hne⟩

end Taxonomy

/-!
# Engines
-/

namespace Engine

instance (e after : Engine) (domain : String) : Decidable (NewlyExclusive e after domain) :=
  inferInstanceAs (Decidable (_ ∧ _))

/-- What the value asks for, if it can be read, is not of a newly exclusive domain. -/
def AsksElsewhere (fresh e : Engine) (v : Value) : Prop :=
  forall c, (fresh.pattern v).1 = .ok c -> ¬ NewlyExclusive fresh e c.functor.text

/-- The holdings that are not of a newly exclusive domain. -/
def elsewhere (fresh e : Engine) (holdings : List Holding) : List Holding :=
  holdings.filter fun h => ¬ NewlyExclusive fresh e h.domain

/-- The engine answers like a fresh one, except in the domains that kept rules alone make exclusive.
There it adds no answer, no time to an interval, and no holding or earlier start of one. -/
structure AnswersLike (kept : List Rule) (fresh e : Engine) : Prop where
  newlyExclusive : forall domain, NewlyExclusive fresh e domain -> Rule.MakeExclusive kept domain
  query : forall v moment, AsksElsewhere fresh e v ->
    SameOutcome (SameMembers Bindings.Agree) (e.query v moment).1 (fresh.query v moment).1
  timeline : forall v, AsksElsewhere fresh e v ->
    SameOutcome (SameMembers Interval.Agree) (e.timeline v).1 (fresh.timeline v).1
  ordered : fresh.scenario.DistinctTexts -> forall v, AsksElsewhere fresh e v ->
    (forall moment, (e.query v moment).1 = (fresh.query v moment).1) ∧
      (e.timeline v).1 = (fresh.timeline v).1
  allHolding : forall moment, SameOutcome (fun holdings' holdings =>
      SameMembers Holding.Agree (elsewhere fresh e holdings') (elsewhere fresh e holdings) ∧
        Covers (fun x y => y.fluent.same x.fluent = true ∧ y.since ≤ x.since) holdings' holdings)
    (e.allHolding moment) (fresh.allHolding moment)
  query_covered : forall v moment,
    SameOutcome (Covers Bindings.Agree) (e.query v moment).1 (fresh.query v moment).1
  timeline_covered : forall v,
    SameOutcome (Covers Interval.LiesIn) (e.timeline v).1 (fresh.timeline v).1
  everHeld : forall v, (e.everHeld v).1 = (fresh.everHeld v).1
  isKnownVerb : forall verb arity, (arity = 0 -> forall r, r ∈ kept -> r.verb ≠ verb) ->
    e.isKnownVerb verb arity = fresh.isKnownVerb verb arity

variable {kept : List Rule} {start fresh e : Engine} {inputs : List Input}

theorem HasKept.onlyMoreExclusive (h : HasKept kept fresh e) (hfollows : Follows start fresh inputs)
    (hkept : forall r, r ∈ kept -> exists key, r ∈ start.rulebook.taxonomy.builtinRules key) :
    Scenario.OnlyMoreExclusive fresh.scenario e.scenario :=
  ⟨h.fires_iff hfollows hkept, fun domain hdomain =>
    (h.rulebook.exclusive_iff domain).mpr (Or.inl hdomain)⟩

theorem isKnownVerb_of_occursIn (hindexed : e.rulebook.rules.Indexed) {r : Rule}
    (hr : r.OccursIn e.rulebook.rules.all) (arity : Nat) :
    e.isKnownVerb r.verb arity = .ok true := by
  rcases hr with ⟨other, hother, hsource⟩
  have hverb := Rule.verb_eq_of_same (Rule.same_of_unsourced_eq hsource)
  have hmem := (hindexed.mem_forVerb_iff other r.verb).mpr ⟨hother, hverb⟩
  rw [isKnownVerb, if_neg]
  intro hempty
  rw [List.isEmpty_iff.mp hempty] at hmem
  cases hmem

theorem isKnownVerb_of_not_occursIn (hindexed : e.rulebook.rules.Indexed) {verb : String}
    (hnone : forall r : Rule, r.OccursIn e.rulebook.rules.all -> r.verb ≠ verb) (arity : Nat) :
    e.isKnownVerb verb arity = (e.rulebook.hasBuiltin verb arity).mapError .taxonomy := by
  rw [isKnownVerb, if_pos]
  rw [List.isEmpty_iff, List.eq_nil_iff_forall_not_mem]
  intro r hr
  rcases (hindexed.mem_forVerb_iff r verb).mp hr with ⟨hmem, hverb⟩
  exact hnone r ⟨r, hmem, rfl⟩ hverb

theorem hasBuiltin_of_mem_builtinRules {b : Rulebook} {key : String × Nat} {r : Rule}
    (hr : r ∈ b.taxonomy.builtinRules key) {arity : Nat} (harity : arity ≠ 0) :
    b.hasBuiltin r.verb arity = .ok true := by
  have hverb : r.verb = key.1 :=
    congrArg Prod.fst (Taxonomy.isSlotRule_of_mem_builtinRules hr).left.signature
  rcases Taxonomy.exists_classify_of_mem_builtinRules hr harity with ⟨rules, hrules, hne⟩
  rw [Rulebook.hasBuiltin, hverb, hrules]
  simp [Except.map, hne]

/-- A verb that only the kept rules have is known to a fresh engine by its built-in rules. -/
theorem HasKept.isKnownVerb_eq (h : HasKept kept fresh e)
    (hkept : forall r, r ∈ kept -> exists key, r ∈ fresh.rulebook.taxonomy.builtinRules key)
    {verb : String} {arity : Nat} (harity : arity = 0 -> forall r, r ∈ kept -> r.verb ≠ verb) :
    e.isKnownVerb verb arity = fresh.isKnownVerb verb arity := by
  have hfresh := h.rulebook.indexed
  have hindexed := h.rulebook.indexed_kept
  by_cases hown : exists r : Rule, r.OccursIn fresh.rulebook.rules.all ∧ r.verb = verb
  · rcases hown with ⟨r, hr, rfl⟩
    rw [isKnownVerb_of_occursIn hfresh hr, isKnownVerb_of_occursIn hindexed
      ((h.rulebook.occursIn_iff r).mpr (Or.inl hr))]
  · have hnone : forall r : Rule, r.OccursIn fresh.rulebook.rules.all -> r.verb ≠ verb :=
      fun r hr hverb => hown ⟨r, hr, hverb⟩
    rw [isKnownVerb_of_not_occursIn hfresh hnone]
    by_cases hmem : exists r : Rule, r.OccursIn kept ∧ r.verb = verb
    · rcases hmem with ⟨r, hr, rfl⟩
      rw [isKnownVerb_of_occursIn hindexed ((h.rulebook.occursIn_iff r).mpr (Or.inr hr))]
      rcases hr with ⟨other, hother, hsource⟩
      have hverb := Rule.verb_eq_of_same (Rule.same_of_unsourced_eq hsource)
      rcases hkept other hother with ⟨key, hmade⟩
      rw [← hverb, hasBuiltin_of_mem_builtinRules hmade]
      · rfl
      · intro hzero
        exact harity hzero other hother hverb
    · have hnone' : forall r : Rule, r.OccursIn e.rulebook.rules.all -> r.verb ≠ verb := by
        intro r hr hverb
        cases (h.rulebook.occursIn_iff r).mp hr with
        | inl hold => exact hnone r hold hverb
        | inr hkeptRule => exact hmem ⟨r, hkeptRule, hverb⟩
      rw [isKnownVerb_of_not_occursIn hindexed hnone', Rulebook.hasBuiltin, Rulebook.hasBuiltin,
        h.rulebook.taxonomy]

theorem HasKept.exclusive_eq (h : HasKept kept fresh e) {domain : String}
    (hdomain : ¬ NewlyExclusive fresh e domain) :
    fresh.scenario.exclusive.contains domain = e.scenario.exclusive.contains domain :=
  exclusive_eq_of_not_newlyExclusive
    (fun hold => (h.rulebook.exclusive_iff domain).mpr (Or.inl hold)) hdomain

theorem HasKept.isSeenAlike (h : HasKept kept fresh e) {c : Compound}
    (hdomain : ¬ NewlyExclusive fresh e c.functor.text) :
    Scenario.isSeenAlike fresh.scenario e.scenario c = true := by
  rw [Scenario.isSeenAlike, h.exclusive_eq hdomain, beq_self_eq_true, Bool.or_true]

theorem HasKept.sameOutcome_allHolding (h : HasKept kept fresh e)
    (hmore : Scenario.OnlyMoreExclusive fresh.scenario e.scenario) (hs : fresh.scenario.Indexed)
    (hs' : e.scenario.Indexed) (moment : Option Moment) :
    SameOutcome (fun holdings' holdings =>
        SameMembers Holding.Agree (elsewhere fresh e holdings') (elsewhere fresh e holdings) ∧
          Covers (fun x y => y.fluent.same x.fluent = true ∧ y.since ≤ x.since) holdings' holdings)
      (e.allHolding moment) (fresh.allHolding moment) := by
  have hagree : forall x y : Holding, x.Agree y ->
      decide (¬ NewlyExclusive fresh e x.domain) = decide (¬ NewlyExclusive fresh e y.domain) := by
    intro x y hagree
    rw [Holding.domain, Holding.domain, Compound.functor_eq_of_same hagree.fluent]
  have htimeOf := timeOf_eq_of_currentDate h.currentDate moment
  cases htime : fresh.timeOf moment with
  | error fault =>
      rw [allHolding, allHolding, htimeOf, htime]
      exact .error fault
  | ok time =>
      rw [e.allHolding_eq (htimeOf.trans htime), fresh.allHolding_eq htime]
      rcases hmore.holdings_or_none hs hs' time with
        ⟨hafter, hbefore⟩ | ⟨holdings', holdings, hafter, hbefore, hcovers, hcovered, hless⟩
      · rw [hafter, hbefore]
        exact .error Fault.noSubject
      · rw [hafter, hbefore]
        refine .ok ⟨⟨?_, ?_⟩, hless⟩
        · apply covers_filter hagree
          intro x hx hdomain
          exact hcovers x hx (h.isSeenAlike (of_decide_eq_true hdomain))
        · apply covers_filter hagree
          intro x hx hdomain
          exact hcovered x hx (h.isSeenAlike (of_decide_eq_true hdomain))

theorem HasKept.answersLike (h : HasKept kept fresh e) (hfollows : Follows start fresh inputs)
    (hkept : forall r, r ∈ kept -> exists key, r ∈ start.rulebook.taxonomy.builtinRules key) :
    AnswersLike kept fresh e := by
  have hmore := h.onlyMoreExclusive hfollows hkept
  have hs := hfollows.indexed
  have hs' : e.scenario.Indexed := by
    refine ⟨?_, h.rulebook.indexed_kept⟩
    show e.store.VerbIndexed
    rw [h.store]
    exact hs.store
  have hquestion := fst_patternAt_eq_of_currentDate h.currentDate
  have helsewhere : forall {c : Compound}, ¬ NewlyExclusive fresh e c.functor.text ->
      forall fluent, (c.matchCompound? fluent).isSome = true ->
        Scenario.isSeenAlike fresh.scenario e.scenario fluent = true := by
    intro c hc fluent hmatch
    rcases Option.isSome_iff_exists.mp hmatch with ⟨b, hb⟩
    apply h.isSeenAlike
    rw [← Compound.functor_eq_of_matchCompound? hb]
    exact hc
  constructor
  case newlyExclusive =>
    intro domain hnew
    cases (h.rulebook.exclusive_iff domain).mp hnew.right with
    | inl hold =>
        rw [hnew.left] at hold
        cases hold
    | inr hmade => exact hmade
  case query =>
    intro v moment hasks
    rw [fst_query, fst_query, hquestion]
    apply sameOutcome_map_of_ok
    intro question hask
    exact hmore.agreeAbout.symm.sameMembers_query hs' hs
      (helsewhere (hasks _ (fst_pattern_of_patternAt hask))) question.2
  case timeline =>
    intro v hasks
    rw [fst_timeline, fst_timeline, fst_pattern e fresh]
    apply sameOutcome_map_of_ok
    intro c hask
    exact hmore.agreeAbout.symm.sameMembers_timeline hs' hs (helsewhere (hasks c hask))
  case ordered =>
    intro htexts v hasks
    constructor
    · intro moment
      rw [fst_query, fst_query, hquestion]
      apply map_eq_map_of_ok
      intro question hask
      exact hmore.query_eq hs hs' htexts
        (h.exclusive_eq (hasks _ (fst_pattern_of_patternAt hask))) question.2
    · rw [fst_timeline, fst_timeline, fst_pattern e fresh]
      apply map_eq_map_of_ok
      intro c hask
      exact hmore.timeline_eq hs hs' htexts (h.exclusive_eq (hasks c hask))
  case allHolding => exact h.sameOutcome_allHolding hmore hs hs'
  case query_covered =>
    intro v moment
    rw [fst_query, fst_query, hquestion]
    exact sameOutcome_map _ fun question =>
      (hmore.narrows question.2).covers_query hs hs' question.1
  case timeline_covered =>
    intro v
    rw [fst_timeline, fst_timeline, fst_pattern e fresh]
    exact sameOutcome_map _ fun c =>
      Scenario.covers_timeline_of_narrows hmore.narrows hs hs' c
  case everHeld =>
    intro v
    rw [fst_everHeld, fst_everHeld, fst_pattern e fresh, funext (hmore.everHeld_eq hs hs')]
  case isKnownVerb =>
    intro verb arity harity
    apply h.isKnownVerb_eq _ harity
    rw [hfollows.taxonomy]
    exact hkept

end Engine

namespace Employment

open Residence (engine)

/-- Somebody gets a job, which replaces the job before; then all that is forgotten. -/
def hiring : List Engine.Call :=
  [.tell (.event gettingJob (.text "2019-01-01"))]

end Employment

namespace Engine

open Employment

end Engine
end EventCalculus
