import EventCalculus.Proofs.ExclusiveRegister
import EventCalculus.Proofs.HoldingStart
import EventCalculus.Proofs.LearnedRecords
import EventCalculus.Proofs.MatchedTerms
import EventCalculus.Proofs.RecordInitiations

/-!
# Terminations that a record drops

A state change that initiates and terminates one domain gets no terminating rules for it; the next
value is to end the last one, as the domain is exclusive.  So it does for fluents with the subject
and the number of arguments of what the event initiates, and then the dropped rule would change
nothing.  No rule of the record ends any other fluent that the dropped rule would.
-/

namespace EventCalculus

/-!
# Rules that are the same
-/

namespace Rule
variable {r r' : Rule}

theorem effect_eq_of_same (h : r.same r' = true) : r.effect = r'.effect := by
  have heffect := congrArg Rule.effect (same_iff.mp h)
  exact heffect

theorem map_canonical_fluentFor?_of_same (h : r.same r' = true) (e : Event) :
    (r.fluentFor? e).map Compound.canonical = (r'.fluentFor? e).map Compound.canonical := by
  have hsplit := same_iff.mp h
  simp only [canonical, mk.injEq] at hsplit
  rcases hsplit with ⟨hevent, _, hfluent, _⟩
  have hmatch := Compound.map_canonical_matchCompound?_of_same (Compound.same_iff.mpr hevent)
    (Compound.same_refl e.description)
  have hread : forall rule : Rule, (rule.fluentFor? e).map Compound.canonical =
      ((rule.event.matchCompound? e.description).map Bindings.canonical).map
        fun b => rule.fluent.canonical.substitute b := by
    intro rule
    rw [fluentFor?, Option.map_map, Option.map_map]
    congr 1
    funext b
    exact (Compound.substitute_canonical b rule.fluent).symm
  rw [hread r, hread r', hmatch, hfluent]

theorem exists_initiated?_of_same (h : r.same r' = true) {e : Event} {fluent : Compound}
    (hfluent : r.initiated? e = some fluent) :
    exists form, r'.initiated? e = some form ∧ form.same fluent = true := by
  rcases Option.filter_eq_some_iff.mp hfluent with ⟨hbrings, hground⟩
  have hboth := map_canonical_fluentFor?_of_same h e
  rw [hbrings, Option.map_some] at hboth
  rcases Option.map_eq_some_iff.mp hboth.symm with ⟨form, hform, hsame⟩
  have hsame' : form.same fluent = true := Compound.same_iff.mpr hsame
  refine ⟨form, Option.filter_eq_some_iff.mpr ⟨hform, ?_⟩, hsame'⟩
  rw [Compound.isGround_eq_of_same hsame']
  exact hground

theorem terminatesAt_eq_of_same (h : r.same r' = true) (fluent : Compound) (e : Event) :
    r.terminatesAt fluent e = r'.terminatesAt fluent e := by
  have hboth := map_canonical_fluentFor?_of_same h e
  unfold terminatesAt
  cases hleft : r.fluentFor? e with
  | none =>
      rw [hleft, Option.map_none] at hboth
      rw [Option.map_eq_none_iff.mp hboth.symm]
  | some pattern =>
      rw [hleft, Option.map_some] at hboth
      rcases Option.map_eq_some_iff.mp hboth.symm with ⟨form, hform, hsame⟩
      rw [hform]
      exact Compound.isSome_matchCompound?_of_same (Compound.same_iff.mpr hsame.symm)
        (Compound.same_refl fluent)

end Rule

/-!
# One more terminating rule
-/

namespace Scenario
variable {s : Scenario} {fluent : Compound} {time : String} {dropped : Rule}

/-- The scenario with one more rule. -/
def adding (s : Scenario) (r : Rule) : Scenario :=
  { s with rules := (s.rules.add r).2 }

theorem indexed_adding (hs : s.Indexed) (r : Rule) : (s.adding r).Indexed :=
  ⟨hs.store, hs.rules.add r⟩

theorem mem_all_adding_of_mem {r : Rule} (hr : r ∈ s.rules.all) (x : Rule) :
    r ∈ (s.adding x).rules.all := by
  show r ∈ (s.rules.add x).2.all
  by_cases hcontains : s.rules.contains x = true
  · rw [RuleSet.add_of_contains hcontains]
    exact hr
  · rw [RuleSet.add_of_not_contains hcontains, RuleSet.mem_all_push_iff]
    exact Or.inl hr

theorem terminates_iff_exists_event :
    s.Terminates fluent time ↔ exists e, e ∈ s.store.events ∧ e.timestamp = time ∧
      exists r, r ∈ s.rules.all ∧ r.effect = .terminates ∧ r.terminatesAt fluent e = true := by
  simp only [Rule.terminatesAt_iff]
  constructor
  · intro h
    rcases h with ⟨r, e, b, hr, heffect, he, htime, hmatch, hsome⟩
    exact ⟨e, he, htime, r, hr, heffect, b, hmatch, hsome⟩
  · intro h
    rcases h with ⟨e, he, htime, r, hr, heffect, b, hmatch, hsome⟩
    exact ⟨r, e, b, hr, heffect, he, htime, hmatch, hsome⟩

section
variable (heffect : dropped.effect = .terminates)
include heffect

theorem initiates_adding_iff : (s.adding dropped).Initiates fluent time ↔
    s.Initiates fluent time := by
  constructor
  · intro h
    rcases h with ⟨r, e, b, hr, hinitiates, hrest⟩
    cases RuleSet.mem_all_of_mem_add hr with
    | inl hold => exact ⟨r, e, b, hold, hinitiates, hrest⟩
    | inr hnew =>
        rw [hnew, heffect] at hinitiates
        cases hinitiates
  · intro h
    rcases h with ⟨r, e, b, hr, hrest⟩
    exact ⟨r, e, b, mem_all_adding_of_mem hr dropped, hrest⟩

theorem initiatesSame_adding_iff : (s.adding dropped).InitiatesSame fluent time ↔
    s.InitiatesSame fluent time := by
  simp only [InitiatesSame, initiates_adding_iff heffect]

theorem clips_adding_iff (hs : s.Indexed) : (s.adding dropped).Clips fluent time ↔
    s.Clips fluent time ∨
      exists e, e ∈ s.store.events ∧ e.timestamp = time ∧ dropped.terminatesAt fluent e = true := by
  have hdisplaces : (s.adding dropped).Displaces fluent time ↔ s.Displaces fluent time := by
    simp only [Displaces, initiates_adding_iff heffect]
    exact Iff.rfl
  have hterminates : (s.adding dropped).Terminates fluent time ↔ s.Terminates fluent time ∨
      exists e, e ∈ s.store.events ∧ e.timestamp = time ∧
        dropped.terminatesAt fluent e = true := by
    rw [terminates_iff_exists_event, terminates_iff_exists_event]
    constructor
    · intro h
      rcases h with ⟨e, he, htime, r, hr, hterminates, hends⟩
      cases RuleSet.mem_all_of_mem_add hr with
      | inl hold => exact Or.inl ⟨e, he, htime, r, hold, hterminates, hends⟩
      | inr hnew => exact Or.inr ⟨e, he, htime, hnew ▸ hends⟩
    · intro h
      rcases h with ⟨e, he, htime, r, hr, hterminates, hends⟩ | ⟨e, he, htime, hends⟩
      · exact ⟨e, he, htime, r, mem_all_adding_of_mem hr dropped, hterminates, hends⟩
      · -- The set may have had the same rule before.
        rcases (RuleSet.contains_iff (hs.rules.add dropped) dropped).mp
          (RuleSet.contains_add_self hs.rules dropped) with ⟨form, hform, hsame⟩
        refine ⟨e, he, htime, form, hform, (Rule.effect_eq_of_same hsame).trans heffect, ?_⟩
        rw [Rule.terminatesAt_eq_of_same hsame]
        exact hends
  rw [Clips, Clips, hdisplaces, hterminates, or_assoc, or_assoc]
  exact or_congr Iff.rfl or_comm

end

theorem holds_iff_initiatesSame (h : s.Clips fluent time ∨ s.InitiatesSame fluent time) :
    s.Holds fluent time ↔ s.InitiatesSame fluent time := by
  constructor
  · intro hholds
    cases h with
    | inl hclips => exact initiatesSame_of_holds_of_clips hholds hclips
    | inr hinitiates => exact hinitiates
  · exact holds_of_initiatesSame

/-- If whatever the rule ends was ended before or is initiated there, the rule is superfluous. -/
theorem holds_adding_iff (hs : s.Indexed) (heffect : dropped.effect = .terminates)
    (hcovered : forall e, e ∈ s.store.events -> dropped.terminatesAt fluent e = true ->
      s.Clips fluent e.timestamp ∨ s.InitiatesSame fluent e.timestamp) :
    (s.adding dropped).Holds fluent time ↔ s.Holds fluent time := by
  constructor
  · intro h
    rcases h with ⟨start, hinitiates, hle, hunclipped⟩
    refine ⟨start, (initiatesSame_adding_iff heffect).mp hinitiates, hle, ?_⟩
    intro clip hafter hbefore hclips
    exact hunclipped clip hafter hbefore ((clips_adding_iff heffect hs).mpr (Or.inl hclips))
  · intro h
    rcases h with ⟨start, hinitiates, hle, hunclipped⟩
    have hagain : forall clip, start < clip -> clip ≤ time ->
        (s.adding dropped).Clips fluent clip -> s.InitiatesSame fluent clip := by
      intro clip hafter hbefore hclips
      rcases (clips_adding_iff heffect hs).mp hclips with hold | ⟨e, he, rfl, hends⟩
      · exact absurd hold (hunclipped clip hafter hbefore)
      · exact (hcovered e he hends).resolve_left (hunclipped _ hafter hbefore)
    by_cases hnone : forall clip, start < clip -> clip ≤ time ->
        ¬ (s.adding dropped).Clips fluent clip
    · exact ⟨start, (initiatesSame_adding_iff heffect).mpr hinitiates, hle, hnone⟩
    · -- The fluent is initiated again at the last of the new clippings.
      simp only [not_forall, not_not] at hnone
      rcases hnone with ⟨clip, hafter, hbefore, hclips⟩
      have hfinite : { clip | (s.adding dropped).Clips fluent clip ∧ clip ≤ time }.Finite :=
        (finite_clips (indexed_adding hs dropped) fluent).subset fun _ h => h.left
      rcases Set.exists_max_image _ id hfinite ⟨clip, hclips, hbefore⟩ with
        ⟨last, ⟨hlast, hlastLe⟩, hgreatest⟩
      have hstart : start < last := lt_of_lt_of_le hafter (hgreatest clip ⟨hclips, hbefore⟩)
      refine ⟨last, (initiatesSame_adding_iff heffect).mpr (hagain last hstart hlastLe hlast),
        hlastLe, ?_⟩
      intro other hlater hotherLe hother
      exact absurd hlater (not_lt.mpr (hgreatest other ⟨hother, hotherLe⟩))

end Scenario

/-!
# Rules that cover a fluent
-/

/-- What is ground and has the subject of a pattern has the subject of what the pattern matches. -/
theorem Compound.sameSubject_of_matchCompound? {p c other : Compound} {b : Bindings}
    (h : p.matchCompound? c = some b) (hsubject : other.subject? = p.subject?)
    (hground : other.isGround = true) (hone : 1 ≤ other.arity) : other.SameSubject c := by
  rcases exists_subject? hone with ⟨t, ht⟩
  rcases exists_subject_of_matchCompound? h (hsubject.symm.trans ht)
    (isGround_of_subject? hground ht) with ⟨u, hu, hsame⟩
  exact ⟨t, u, ht, hu, hsame⟩

/-- One of the rules initiates, at the event, a fluent with the domain, the number of arguments and
the subject of this one. -/
def Rule.Cover (rules : List Rule) (e : Event) (fluent : Compound) : Prop :=
  exists rule other, rule ∈ rules ∧ rule.effect = .initiates ∧ rule.initiated? e = some other ∧
    other.functor = fluent.functor ∧ other.arity = fluent.arity ∧ other.SameSubject fluent

/-- The rules are in force, and the domains of the exclusive ones are exclusive. -/
structure Scenario.Enforces (s : Scenario) (rules : List Rule) : Prop where
  in_force : forall rule, rule ∈ rules -> s.rules.contains rule = true
  exclusive : forall rule, rule ∈ rules -> rule.exclusive = true ->
    s.exclusive.contains rule.domain = true

/-- What is covered is displaced, unless it is initiated itself. -/
theorem Scenario.clips_or_initiatesSame_of_cover {s : Scenario} (hs : s.Indexed)
    {rules : List Rule} (henforces : s.Enforces rules) {fluent : Compound}
    (hexclusive : forall rule, rule ∈ rules -> rule.effect = .initiates ->
      rule.fluent.functor = fluent.functor -> rule.exclusive = true)
    {e : Event} (he : e ∈ s.store.events) (hcover : Rule.Cover rules e fluent) :
    s.Clips fluent e.timestamp ∨ s.InitiatesSame fluent e.timestamp := by
  rcases hcover with ⟨rule, other, hrule, heffect, hother, hfunctor, harity, t, u, ht, hu, htu⟩
  rcases (RuleSet.contains_iff hs.rules rule).mp (henforces.in_force rule hrule) with
    ⟨form, hform, hsame⟩
  rcases Rule.exists_initiated?_of_same (Rule.same_symm hsame) hother with
    ⟨started, hstarted, hstartedSame⟩
  have hinitiates : s.Initiates started e.timestamp :=
    (initiates_iff_exists_event started e.timestamp).mpr
      ⟨e, he, rfl, form, hform, (Rule.effect_eq_of_same hsame).trans heffect, hstarted⟩
  by_cases hitself : started.same fluent = true
  · exact Or.inr ⟨started, hitself, hinitiates⟩
  · refine Or.inl (Or.inr ?_)
    rcases (rule.initiated?_eq_some_iff e other).mp hother with ⟨⟨b, _, hsubst⟩, _⟩
    have hdomain : rule.fluent.functor = fluent.functor := by
      rw [← hfunctor, ← hsubst, Compound.functor_substitute]
    have hin : fluent.IsIn fluent.functor fluent.arity u :=
      ⟨rfl, rfl, u, hu, Term.same_iff.mpr rfl⟩
    have hotherIn : other.IsIn fluent.functor fluent.arity u := ⟨hfunctor, harity, t, ht, htu⟩
    apply displaces_of_write _ hin (Compound.isIn_of_same hstartedSame hotherIn) hinitiates hitself
    rw [← hdomain]
    exact henforces.exclusive rule hrule (hexclusive rule hrule heffect hdomain)

/-- The fluents of the rules have one domain, one number of arguments and one subject, and the first
is ground for every event. -/
structure Rule.SharesSubject (rule dropped : Rule) : Prop where
  functor : rule.fluent.functor = dropped.fluent.functor
  arity : rule.fluent.arity = dropped.fluent.arity
  subject : rule.fluent.subject? = dropped.fluent.subject?
  wildcard : rule.fluent.hasWildcard = false

namespace RuleRecord
variable {r : RuleRecord} {rules : List Rule} {rule dropped : Rule} {spec : FluentSpec}

theorem contains_replaced_iff (f : Functor) : r.replaced.contains f = true ↔
    r.type = .stateChange ∧ f ∈ r.initiates.map FluentSpec.fluent ∧
      f ∈ r.terminates.map FluentSpec.fluent := by
  rw [replaced, List.contains_iff_mem]
  by_cases htype : r.type = .stateChange
  · rw [if_pos htype, List.mem_filter, List.contains_iff_mem]
    simp only [htype, true_and]
  · rw [if_neg htype]
    simp only [htype, false_and, List.not_mem_nil]

theorem exists_terminates_of_mem_rules (h : r.rules = .ok rules) (hrule : rule ∈ rules)
    (heffect : rule.effect = .terminates) :
    exists spec : FluentSpec, r.replaced.contains spec.fluent = false ∧
      spec.compound = .ok rule.fluent := by
  rcases (mem_rules_iff h rule).mp hrule with ⟨spec, _, hmade⟩ | ⟨spec, hspec, hmade⟩
  · rw [(initiates_of_initiatingRule hmade).effect] at heffect
    cases heffect
  · rcases exists_of_bind_eq_ok hmade with ⟨fluent, hfluent, hmade⟩
    cases hmade
    have hkept := (List.mem_filter.mp hspec).right
    exact ⟨spec, by simpa using hkept, hfluent⟩

/-- The rule was dropped: the record initiates and terminates its domain. -/
structure Drops (r : RuleRecord) (dropped : Rule) : Prop where
  event : dropped.event = r.event
  effect : dropped.effect = .terminates
  replaced : r.replaced.contains dropped.fluent.functor = true
  one_le_arity : 1 ≤ dropped.fluent.arity

theorem drops_of_terminatingRule (htype : r.type = .stateChange) (hspec : spec ∈ r.terminates)
    (hboth : spec.fluent ∈ r.initiates.map FluentSpec.fluent)
    (hdropped : r.terminatingRule spec = .ok dropped) : r.Drops dropped := by
  rcases exists_of_bind_eq_ok hdropped with ⟨fluent, hfluent, hmade⟩
  cases hmade
  refine ⟨rfl, rfl, ?_, FluentSpec.one_le_arity_of_compound hfluent⟩
  rw [FluentSpec.functor_of_compound hfluent, contains_replaced_iff]
  exact ⟨htype, hboth, List.mem_map_of_mem hspec⟩

theorem exists_args_of_matchCompound?_event {c : Compound} {b : Bindings}
    (h : r.event.matchCompound? c = some b) :
    exists subject object, c = ⟨r.verb, [subject, object]⟩ := by
  have hfunctor : r.verb = c.functor := Compound.functor_eq_of_matchCompound? h
  have hlength : 2 = c.args.length := Compound.arity_eq_of_matchCompound? h
  rcases List.length_eq_two.mp hlength.symm with ⟨subject, object, hargs⟩
  refine ⟨subject, object, ?_⟩
  rw [hfunctor, ← hargs]

theorem functor_of_terminatesAt {fluent : Compound} {e : Event}
    (h : rule.terminatesAt fluent e = true) : rule.fluent.functor = fluent.functor := by
  rcases (rule.terminatesAt_iff fluent e).mp h with ⟨b, _, hsome⟩
  rcases Option.isSome_iff_exists.mp hsome with ⟨b', hb'⟩
  exact (Compound.functor_substitute b rule.fluent).symm.trans
    (Compound.functor_eq_of_matchCompound? hb')

theorem Drops.exclusive (h : r.Drops dropped) (hrules : r.rules = .ok rules)
    (hrule : rule ∈ rules) (heffect : rule.effect = .initiates)
    (hfunctor : rule.fluent.functor = dropped.fluent.functor) : rule.exclusive = true := by
  rcases exists_initiates_of_mem_rules hrules hrule heffect with ⟨spec, _, hinitiates⟩
  rw [hinitiates.exclusive, ← FluentSpec.functor_of_compound hinitiates.fluent, hfunctor]
  exact h.replaced

theorem Drops.terminatesAt_eq_false (h : r.Drops dropped) (hrules : r.rules = .ok rules)
    (hrule : rule ∈ rules) (heffect : rule.effect = .terminates) {e : Event} {fluent : Compound}
    (hends : dropped.terminatesAt fluent e = true) : rule.terminatesAt fluent e = false := by
  rcases exists_terminates_of_mem_rules hrules hrule heffect with ⟨spec, hkept, hfluent⟩
  rw [Bool.eq_false_iff]
  intro hother
  have hfunctor := (functor_of_terminatesAt hother).trans (functor_of_terminatesAt hends).symm
  rw [← FluentSpec.functor_of_compound hfluent, hfunctor, h.replaced] at hkept
  cases hkept

theorem Drops.cover_of_sharesSubject (h : r.Drops dropped) (hrules : r.rules = .ok rules)
    (hrule : rule ∈ rules) (heffect : rule.effect = .initiates)
    (hshares : rule.SharesSubject dropped) {e : Event} (hground : e.description.isGround = true)
    {fluent : Compound} (hends : dropped.terminatesAt fluent e = true) :
    Rule.Cover rules e fluent := by
  rcases (dropped.terminatesAt_iff fluent e).mp hends with ⟨b, hmatch, hsome⟩
  rcases Option.isSome_iff_exists.mp hsome with ⟨b', hb'⟩
  rw [h.event] at hmatch
  rcases exists_args_of_matchCompound?_event hmatch with ⟨subject, object, he⟩
  rw [he, matchCompound?_event, Option.some.injEq] at hmatch
  subst hmatch
  rcases exists_initiates_of_mem_rules hrules hrule heffect with ⟨spec, _, hinitiates⟩
  have hstarted := hinitiates.initiated? hground he
  rw [hshares.wildcard, if_neg Bool.false_ne_true] at hstarted
  have harity := Compound.arity_eq_of_matchCompound? hb'
  rw [Compound.arity_substitute, ← hshares.arity,
    ← Compound.arity_substitute (recordBindings subject object)] at harity
  refine ⟨rule, _, hrule, heffect, hstarted,
    hshares.functor.trans (functor_of_terminatesAt hends), harity, ?_⟩
  -- Both fluents have the subject that the event gives to the common first argument.
  apply Compound.sameSubject_of_matchCompound? hb'
  · rw [Compound.subject?_substitute, Compound.subject?_substitute, hshares.subject]
  · exact ((rule.initiated?_eq_some_iff e _).mp hstarted).right
  · rw [Compound.arity_substitute, hshares.arity]
    exact h.one_le_arity

end RuleRecord

/-!
# Engines
-/

/-- What the rules do in place of the one that was dropped.  With it, what it would end does not
hold, unless it is initiated at the same time; without it this is so for what the rules cover, and
if they cover all that it would end, nothing is lost. -/
structure Scenario.MakesUpFor (s : Scenario) (rules : List Rule) (dropped : Rule) : Prop where
  with_rule : forall e, e ∈ s.store.events -> forall fluent, fluent.isGround = true ->
    dropped.terminatesAt fluent e = true ->
      ((s.adding dropped).holdsAt fluent e.timestamp = true ↔ s.InitiatesSame fluent e.timestamp)
  without_rule : forall e, e ∈ s.store.events -> forall fluent, fluent.isGround = true ->
    dropped.terminatesAt fluent e = true -> Rule.Cover rules e fluent ->
      (s.holdsAt fluent e.timestamp = true ↔ s.InitiatesSame fluent e.timestamp)
  superfluous : forall fluent, fluent.isGround = true ->
    (forall e, e ∈ s.store.events -> dropped.terminatesAt fluent e = true ->
      Rule.Cover rules e fluent) ->
      forall time, (s.adding dropped).holdsAt fluent time = s.holdsAt fluent time
  cover : forall rule, rule ∈ rules -> rule.effect = .initiates ->
    rule.SharesSubject dropped -> forall e, e ∈ s.store.events -> forall fluent,
      dropped.terminatesAt fluent e = true -> Rule.Cover rules e fluent
  alone : forall rule, rule ∈ rules -> rule.effect = .terminates -> forall e fluent,
    dropped.terminatesAt fluent e = true -> rule.terminatesAt fluent e = false

theorem RuleRecord.Drops.makesUpFor {r : RuleRecord} {rules : List Rule} {dropped : Rule}
    (h : r.Drops dropped) (hrules : r.rules = .ok rules) {s : Scenario} (hs : s.Indexed)
    (hground : forall e, e ∈ s.store.events -> e.description.isGround = true)
    (henforces : s.Enforces rules) : s.MakesUpFor rules dropped := by
  have hcovered : forall e, e ∈ s.store.events -> forall fluent,
      dropped.terminatesAt fluent e = true -> Rule.Cover rules e fluent ->
        s.Clips fluent e.timestamp ∨ s.InitiatesSame fluent e.timestamp := by
    intro e he fluent hends hcover
    apply s.clips_or_initiatesSame_of_cover hs henforces _ he hcover
    intro rule hrule heffect hfunctor
    exact h.exclusive hrules hrule heffect (hfunctor.trans (functor_of_terminatesAt hends).symm)
  constructor
  case with_rule =>
    intro e he fluent hfluent hends
    have hclips := (Scenario.clips_adding_iff h.effect hs).mpr (Or.inr ⟨e, he, rfl, hends⟩)
    rw [Scenario.holdsAt_iff_holds (Scenario.indexed_adding hs dropped) hfluent,
      Scenario.holds_iff_initiatesSame (Or.inl hclips),
      Scenario.initiatesSame_adding_iff h.effect]
  case without_rule =>
    intro e he fluent hfluent hends hcover
    rw [Scenario.holdsAt_iff_holds hs hfluent]
    exact Scenario.holds_iff_initiatesSame (hcovered e he fluent hends hcover)
  case superfluous =>
    intro fluent hfluent hall time
    rw [Bool.eq_iff_iff, Scenario.holdsAt_iff_holds (Scenario.indexed_adding hs dropped) hfluent,
      Scenario.holdsAt_iff_holds hs hfluent]
    exact Scenario.holds_adding_iff hs h.effect fun e he hends =>
      hcovered e he fluent hends (hall e he hends)
  case cover =>
    intro rule hrule heffect hshares e he fluent hends
    exact h.cover_of_sharesSubject hrules hrule heffect hshares (hground e he) hends
  case alone =>
    intro rule hrule heffect e fluent hends
    exact h.terminatesAt_eq_false hrules hrule heffect hends

namespace Engine
variable {start : Engine} {calls : List Call}

theorem mem_learned_of_mem_recorded {inputs : List Input} {r : RuleRecord}
    (hr : r ∈ recorded inputs) {rules : List Rule} (hrules : r.rules = .ok rules) {rule : Rule}
    (hrule : rule ∈ rules) : rule ∈ learned inputs := by
  rcases List.mem_filterMap.mp hr with ⟨input, hinput, hrecord⟩
  cases input with
  | event description moment => cases hrecord
  | rules input =>
      rcases Option.bind_eq_some_iff.mp hrecord with ⟨made, hmade, hkept⟩
      have hread := toOption_eq_some_iff.mp hmade
      rcases exists_of_rulesOfInput hread with ⟨_, _, hnone⟩ | ⟨other, hother, hothers, _⟩
      · rw [hnone] at hkept
        cases hkept
      · rw [hother, Option.some.injEq] at hkept
        rw [hkept, hrules, Except.ok.injEq] at hothers
        have hsubset : forall single, single ∈ [Input.rules input] -> single ∈ inputs := by
          intro single hsingle
          rw [List.mem_singleton.mp hsingle]
          exact hinput
        apply mem_learned_of_subset hsubset
        rw [learned_rules, lessonRules, hread]
        show rule ∈ made.1
        rw [← hothers]
        exact hrule

variable {date : Moment} {maxDepth : Int} {taxonomy : Taxonomy} {audit : Option AuditLog}
  {r : RuleRecord} {rules : List Rule}

/-- The rules of a record that was told since the last reset are in force, whatever the store. -/
theorem enforces_of_mem_recorded (hstart : create date maxDepth taxonomy audit = .ok start)
    (hr : r ∈ recorded (sinceReset calls)) (hrules : r.rules = .ok rules) (store : EventStore) :
    { (start.performAll calls).scenario with store := store }.Enforces rules := by
  have horigins := (origins_create hstart).performAll (descends_create hstart) calls
  rw [List.nil_append] at horigins
  have hcomplete := ((descends_create hstart).performAll calls).complete
  have hin_force : forall rule, rule ∈ rules ->
      (start.performAll calls).rulebook.rules.contains rule = true :=
    fun rule hrule => horigins.in_force rule (mem_learned_of_mem_recorded hr hrules hrule)
  refine ⟨hin_force, ?_⟩
  intro rule hrule hexclusive
  rcases (RuleSet.contains_iff hcomplete.indexed rule).mp (hin_force rule hrule) with
    ⟨form, hform, hsame⟩
  apply (hcomplete.exclusive_iff rule.domain).mpr
  refine ⟨form, hform, ?_, Rule.domain_eq_of_same hsame⟩
  exact (congrArg Rule.exclusive (Rule.same_iff.mp hsame)).trans hexclusive

/-- A record that replaces the fluents of a domain has been told since the last reset.  Whatever the
store, exclusivity ends what the dropped terminating rule of the domain would end, as far as an
initiating rule of the record covers it; then the dropped rule would be superfluous. -/
theorem exclusivity_makes_up_for_dropped_termination
    (hstart : create date maxDepth taxonomy audit = .ok start)
    (hr : r ∈ recorded (sinceReset calls)) (htype : r.type = .stateChange) {spec : FluentSpec}
    (hspec : spec ∈ r.terminates) (hboth : spec.fluent ∈ r.initiates.map FluentSpec.fluent)
    {dropped : Rule} (hdropped : r.terminatingRule spec = .ok dropped) {store : EventStore}
    (hstore : store.Reachable) :
    exists rules, r.rules = .ok rules ∧
      { (start.performAll calls).scenario with store := store }.MakesUpFor rules dropped := by
  rcases exists_rules_of_mem_recorded hr with ⟨rules, hrules⟩
  have hdrops := RuleRecord.drops_of_terminatingRule htype hspec hboth hdropped
  have hindexed : { (start.performAll calls).scenario with store := store }.Indexed :=
    ⟨hstore.verbIndexed, ((descends_create hstart).performAll calls).complete.indexed⟩
  exact ⟨rules, hrules, hdrops.makesUpFor hrules hindexed (fun _ he => hstore.isGround he)
    (enforces_of_mem_recorded hstart hr hrules store)⟩

end Engine

/-!
# A key that is handed over
-/

namespace Keys

def hasKey : Functor :=
  ⟨"has_key", by decide +kernel⟩

/-- Whoever gets the key has it, and whoever gives it away has it no longer. -/
def handing : RuleRecord where
  verb := ⟨"handed_over", by decide +kernel⟩
  type := .stateChange
  initiates := [⟨hasKey, some "has_key(Object)"⟩]
  terminates := [⟨hasKey, some "has_key(Subject)"⟩]

def getting : Rule :=
  ⟨handing.event, .initiates, ⟨hasKey, [.var recordObject]⟩, true, .learned⟩

def giving : Rule :=
  ⟨handing.event, .terminates, ⟨hasKey, [.var subjectVariable]⟩, false, .learned⟩

def key (subject : String) : Compound :=
  ⟨hasKey, [.text subject]⟩

def handed (subject object : String) : Compound :=
  ⟨handing.verb, [.text subject, .text object]⟩

/-- She gets the key and gives it away again. -/
def handovers : EventStore :=
  (((EventStore.empty EventStore.defaultMaxDepth).push (handed "carol" "alice") "2024-01-01").2.push
    (handed "alice" "bob") "2024-02-01").2

theorem reachable_handovers : handovers.Reachable := by
  have hfirst : ((EventStore.empty EventStore.defaultMaxDepth).push (handed "carol" "alice")
      "2024-01-01").2.Reachable :=
    EventStore.Reachable.append (t := (handed "carol" "alice").toTerm)
      (.empty EventStore.defaultMaxDepth) rfl
  exact EventStore.Reachable.append (t := (handed "alice" "bob").toTerm) hfirst rfl

def taught : List Engine.Call :=
  [.tell (.rules (.record handing))]

def possession : Scenario :=
  { (Residence.engine.performAll taught).scenario with store := handovers }

end Keys

namespace Residence

def taughtSettled : List Engine.Call :=
  [.tell (.rules (.record settled))]

/-- The rule that the record drops. -/
def movingOut : Rule :=
  ⟨settled.event, .terminates, ⟨livesIn, recordSlots⟩, false, .learned⟩

end Residence

namespace Engine

open Residence Keys

theorem exclusivity_makes_up_for_dropped_termination_settled :
    create (.date firstDay) EventStore.defaultMaxDepth Taxonomy.standard none = .ok engine ∧
      settled ∈ recorded (sinceReset taughtSettled) ∧ settled.type = .stateChange ∧
      (⟨livesIn, none⟩ : FluentSpec) ∈ settled.terminates ∧
      livesIn ∈ settled.initiates.map FluentSpec.fluent ∧
      settled.terminatingRule ⟨livesIn, none⟩ = .ok movingOut ∧ settlement.Reachable ∧
      settlingHome.SharesSubject movingOut ∧
      exists rules, settled.rules = .ok rules ∧
        { (engine.performAll taughtSettled).scenario with store := settlement }.MakesUpFor rules
          movingOut := by
  have hcreate : create (.date firstDay) EventStore.defaultMaxDepth Taxonomy.standard none =
      .ok engine := rfl
  have hrecorded : settled ∈ recorded (sinceReset taughtSettled) := by decide +kernel
  have hspec : (⟨livesIn, none⟩ : FluentSpec) ∈ settled.terminates := List.mem_singleton.mpr rfl
  have hboth : livesIn ∈ settled.initiates.map FluentSpec.fluent := List.mem_singleton.mpr rfl
  have hdropped : settled.terminatingRule ⟨livesIn, none⟩ = .ok movingOut := rfl
  exact ⟨hcreate, hrecorded, rfl, hspec, hboth, hdropped, reachable_settlement,
    ⟨rfl, rfl, rfl, rfl⟩,
    exclusivity_makes_up_for_dropped_termination hcreate hrecorded rfl hspec hboth hdropped
      reachable_settlement⟩

/-- The dropped rule would end her having the key when she gives it away.  Nothing else does: the
key is had by somebody else then, which is another subject. -/
theorem dropped_termination_leaves_key :
    create (.date firstDay) EventStore.defaultMaxDepth Taxonomy.standard none =
        .ok engine ∧
      handing ∈ recorded (sinceReset taught) ∧ handing.type = .stateChange ∧
      handing.rules = .ok [getting] ∧
      (⟨hasKey, some "has_key(Subject)"⟩ : FluentSpec) ∈ handing.terminates ∧
      handing.terminatingRule ⟨hasKey, some "has_key(Subject)"⟩ = .ok giving ∧
      handovers.Reachable ∧
      (handovers.events.map fun e => (e.timestamp, giving.terminatesAt (key "alice") e)) =
        [("2024-01-01", false), ("2024-02-01", true)] ∧
      possession.holdsAt (key "alice") "2024-02-01" = true ∧
      (possession.adding giving).holdsAt (key "alice") "2024-02-01" = false := by
  have hrecorded : handing ∈ recorded (sinceReset taught) := by decide +kernel
  have hrules : handing.rules.toOption = some [getting] := by decide +kernel
  have hdropped : (handing.terminatingRule ⟨hasKey, some "has_key(Subject)"⟩).toOption =
      some giving := by
    decide +kernel
  have hends : (handovers.events.map fun e => (e.timestamp, giving.terminatesAt (key "alice") e)) =
      [("2024-01-01", false), ("2024-02-01", true)] := by
    decide +kernel
  have hholds : possession.holdsAt (key "alice") "2024-02-01" = true := by decide +kernel
  have hended : (possession.adding giving).holdsAt (key "alice") "2024-02-01" = false := by
    decide +kernel
  exact ⟨rfl, hrecorded, rfl, toOption_eq_some_iff.mp hrules, List.mem_singleton.mpr rfl,
    toOption_eq_some_iff.mp hdropped, reachable_handovers, hends, hholds, hended⟩

end Engine
end EventCalculus
