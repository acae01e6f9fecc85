import EventCalculus.Proofs.AnswerSets
import EventCalculus.Proofs.MatchedTerms
import EventCalculus.Proofs.RuleOrigins

/-!
# Subjects do not interfere

Built-in rules bring about fluents of the subject of their event, and what displaces a fluent has
its subject as well.  So the events of one subject say nothing about the fluents of another one.
The verbs alone matter across subjects: they bring the rules, and with them exclusive domains.
-/

namespace EventCalculus

namespace Compound

/-- The first argument is the subject. -/
def isAbout (subject : Term) (c : Compound) : Bool :=
  c.subject?.any fun t => t.same subject

variable {subject : Term} {a b c : Compound}

theorem isAbout_iff : c.isAbout subject = true ↔
    exists t, c.subject? = some t ∧ t.same subject = true := by
  rw [isAbout, Option.any_eq_true]

theorem isAbout_eq_of_same (h : a.same b = true) : a.isAbout subject = b.isAbout subject := by
  have hcanonical : forall d : Compound, d.isAbout subject = d.canonical.isAbout subject := by
    intro d
    rw [isAbout, isAbout, subject?_canonical, Option.any_map]
    congr 1
    funext t
    simp [Term.same, Term.canonical_canonical]
  rw [hcanonical a, hcanonical b, same_iff.mp h]

theorem isAbout_of_sameSubject (h : a.SameSubject b) (hb : b.isAbout subject = true) :
    a.isAbout subject = true := by
  rcases h with ⟨s, t, hs, ht, hsame⟩
  rcases isAbout_iff.mp hb with ⟨u, hu, hsubject⟩
  rw [ht, Option.some.injEq] at hu
  rw [Term.same_iff] at hsame hsubject
  exact isAbout_iff.mpr ⟨s, hs, Term.same_iff.mpr (hsame.trans (hu ▸ hsubject))⟩

/-- A pattern with a ground subject is about the subject of what it matches. -/
theorem isAbout_eq_of_matchCompound? (h : (a.matchCompound? b).isSome = true) {t : Term}
    (ht : a.subject? = some t) (hground : t.isGround = true) :
    a.isAbout subject = b.isAbout subject := by
  rcases Option.isSome_iff_exists.mp h with ⟨_, hmatch⟩
  rcases exists_subject_of_matchCompound? hmatch ht hground with ⟨u, hu, hsame⟩
  rw [isAbout, isAbout, ht, hu, Option.any_some, Option.any_some, Term.same, Term.same,
    Term.same_iff.mp hsame]

/-- A pattern about a ground subject matches only what is about it. -/
theorem isAbout_of_matchCompound? (hground : subject.isGround = true)
    (ha : a.isAbout subject = true) (h : (a.matchCompound? b).isSome = true) :
    b.isAbout subject = true := by
  rcases isAbout_iff.mp ha with ⟨t, ht, hsame⟩
  rw [← isAbout_eq_of_matchCompound? h ht ((Term.isGround_eq_of_same hsame).trans hground)]
  exact ha

end Compound

/-- The descriptions differ at most in the kind of numbers of equal value, and the timestamps are
the same. -/
structure Event.Agree (x y : Event) : Prop where
  description : x.description.same y.description = true
  timestamp : x.timestamp = y.timestamp

/-- The events about the subject. -/
def EventStore.about (s : EventStore) (subject : Term) : List Event :=
  s.events.filter fun x => x.description.isAbout subject

/-!
# Scenarios
-/

namespace Scenario

/-- What a rule brings about has the subject of the event, and this subject is ground. -/
structure CarriesSubjects (s : Scenario) : Prop where
  carried : forall r, r ∈ s.rules.all -> forall c b, r.event.matchCompound? c = some b ->
    exists t, c.subject? = some t ∧ (r.fluent.substitute b).subject? = some t
  ground : forall x, x ∈ s.store.events -> x.description.isGround = true

/-- The second scenario has all rules of the first one, of whatever source, and all its events about
the subject. -/
structure CoversSubject (subject : Term) (s s' : Scenario) : Prop where
  occursIn : forall r, r ∈ s.rules.all -> r.OccursIn s'.rules.all
  events : Covers Event.Agree (s.store.about subject) (s'.store.about subject)

variable {subject : Term} {s s' : Scenario}

theorem CarriesSubjects.exists_of_fires (hs : s.CarriesSubjects) {effect : Effect}
    {fluent : Compound} {time : String} (h : s.Fires effect fluent time) :
    exists t, fluent.subject? = some t ∧ t.isGround = true := by
  rcases h with ⟨r, x, b, hr, rfl, hx, rfl, hmatch, rfl⟩
  rcases hs.carried r hr _ b hmatch with ⟨t, hsubject, ht⟩
  exact ⟨t, ht, Compound.isGround_of_subject? (hs.ground x hx) hsubject⟩

/-- What is brought about for the subject in the first scenario comes from an event about it, so
some form of it is brought about in the second one. -/
theorem CoversSubject.fires (h : CoversSubject subject s s') (hs : s.CarriesSubjects)
    {effect : Effect} {fluent : Compound} {time : String}
    (habout : fluent.isAbout subject = true) (hfires : s.Fires effect fluent time) :
    exists form, form.same fluent = true ∧ s'.Fires effect form time := by
  rcases hfires with ⟨r, x, b, hr, rfl, hx, rfl, hmatch, rfl⟩
  rcases hs.carried r hr _ b hmatch with ⟨t, hsubject, ht⟩
  have hevent : x ∈ s.store.about subject := by
    apply List.mem_filter.mpr
    refine ⟨hx, ?_⟩
    rw [Compound.isAbout, ht] at habout
    rw [Compound.isAbout, hsubject]
    exact habout
  rcases h.events x hevent with ⟨x', hx', hagree⟩
  have hforms := Compound.map_canonical_matchCompound?_of_same (Compound.same_refl r.event)
    hagree.description
  rw [hmatch, Option.map_some] at hforms
  rcases Option.map_eq_some_iff.mp hforms.symm with ⟨b', hmatch', hbindings⟩
  refine ⟨r.fluent.substitute b', ?_, ?_⟩
  · rw [Compound.same_iff, ← Compound.substitute_canonical, ← Compound.substitute_canonical,
      hbindings]
  · rw [hagree.timestamp]
    exact fires_of_occursIn (h.occursIn r hr) (List.mem_filter.mp hx').left hmatch'

theorem CoversSubject.initiatesSame (h : CoversSubject subject s s') (hs : s.CarriesSubjects)
    {fluent : Compound} {time : String} (habout : fluent.isAbout subject = true)
    (hinitiates : s.InitiatesSame fluent time) : s'.InitiatesSame fluent time := by
  rcases hinitiates with ⟨form, hsame, hform⟩
  rcases initiates_iff_fires.mp hform with ⟨hfires, hground⟩
  rw [← Compound.isAbout_eq_of_same hsame] at habout
  rcases h.fires hs habout hfires with ⟨form', hsame', hfires'⟩
  refine ⟨form', Compound.same_trans hsame' hsame, initiates_iff_fires.mpr ⟨hfires', ?_⟩⟩
  rw [Compound.isGround_eq_of_same hsame']
  exact hground

theorem CoversSubject.terminates (h : CoversSubject subject s s') (hs : s.CarriesSubjects)
    {fluent : Compound} {time : String} (habout : fluent.isAbout subject = true)
    (hterminates : s.Terminates fluent time) : s'.Terminates fluent time := by
  rcases terminates_iff_fires.mp hterminates with ⟨pattern, hfires, hmatch⟩
  -- The pattern can have variables, but not for its subject, so it is about the subject as well.
  rcases hs.exists_of_fires hfires with ⟨t, ht, hground⟩
  rw [← Compound.isAbout_eq_of_matchCompound? hmatch ht hground] at habout
  rcases h.fires hs habout hfires with ⟨form, hsame, hfires'⟩
  refine terminates_iff_fires.mpr ⟨form, hfires', ?_⟩
  rw [Compound.isSome_matchCompound?_of_same hsame (Compound.same_refl fluent)]
  exact hmatch

/-- Scenarios that cover each other about a subject agree about it, if they have the same exclusive
domains. -/
theorem agreeAbout_of_coversSubject (h : CoversSubject subject s s')
    (h' : CoversSubject subject s' s) (hs : s.CarriesSubjects) (hs' : s'.CarriesSubjects)
    (hexclusive : forall domain, s.exclusive.contains domain = s'.exclusive.contains domain) :
    AgreeAbout (fun c => c.isAbout subject = true) s s' := by
  apply agreeAbout_of_terminates_iff
  case of_same =>
    intro a b hsame ha
    rw [← Compound.isAbout_eq_of_same hsame]
    exact ha
  case hcompeting =>
    intro a b _ hsubject hb
    exact Compound.isAbout_of_sameSubject hsubject hb
  case hinitiates =>
    intro fluent habout time
    exact ⟨h.initiatesSame hs habout, h'.initiatesSame hs' habout⟩
  case hterminates =>
    intro fluent habout time
    exact ⟨h.terminates hs habout, h'.terminates hs' habout⟩
  case hexclusive =>
    intro fluent _ _ _
    exact hexclusive fluent.functor.text

end Scenario
theorem Rule.makeExclusive_of_occursIn {rules more : List Rule}
    (h : forall r : Rule, r.OccursIn rules -> r.OccursIn more) {domain : String}
    (hexclusive : Rule.MakeExclusive rules domain) : Rule.MakeExclusive more domain := by
  rcases hexclusive with ⟨r, hr, hmade, hdomain⟩
  rcases h r ⟨r, hr, rfl⟩ with ⟨other, hother, hsource⟩
  have hsame := Rule.same_of_unsourced_eq hsource
  exact ⟨other, hother, (Rule.exclusive_eq_of_same hsame).trans hmade,
    (Rule.domain_eq_of_same hsame).trans hdomain⟩

/-!
# Engines
-/

namespace Engine

/-- The engines give the same sets of answers about the subject at given times. -/
structure SameAnswersAbout (subject : Term) (a b : Engine) : Prop where
  allHolding : forall moment time, timestampOf moment = .ok time ->
    exists holdings holdings', a.allHolding (some moment) = .ok holdings ∧
      b.allHolding (some moment) = .ok holdings' ∧
      SameMembers Holding.Agree (holdings.filter fun h => h.fluent.isAbout subject)
        (holdings'.filter fun h => h.fluent.isAbout subject)
  query : forall v moment, (forall c, (a.pattern v).1 = .ok c -> c.isAbout subject = true) ->
    SameOutcome (SameMembers Bindings.Agree) (a.query v (some moment)).1
      (b.query v (some moment)).1
  timeline : forall v, (forall c, (a.pattern v).1 = .ok c -> c.isAbout subject = true) ->
    SameOutcome (SameMembers Interval.Agree) (a.timeline v).1 (b.timeline v).1

variable {subject : Term} {a b : Engine}

theorem sameAnswersAbout_of_agreeAbout (hground : subject.isGround = true)
    (h : Scenario.AgreeAbout (fun c => c.isAbout subject = true) a.scenario b.scenario)
    (ha : a.scenario.Indexed) (hb : b.scenario.Indexed) (hsubjects : a.scenario.HasSubjects)
    (hsubjects' : b.scenario.HasSubjects) : SameAnswersAbout subject a b := by
  have hmatched : forall {c : Compound}, c.isAbout subject = true -> forall fluent,
      (c.matchCompound? fluent).isSome = true -> fluent.isAbout subject = true :=
    fun hc _ hmatch => Compound.isAbout_of_matchCompound? hground hc hmatch
  constructor
  case allHolding =>
    intro moment time htime
    refine ⟨_, _, a.allHolding_of_scenario htime (Scenario.allHolding?_eq_some ha hsubjects time),
      b.allHolding_of_scenario htime (Scenario.allHolding?_eq_some hb hsubjects' time), ?_⟩
    apply (h.sameMembers_unsortedHoldings ha hb time).of_perm
    · exact (List.mergeSort_perm _ _).filter _
    · exact (List.mergeSort_perm _ _).filter _
  case query =>
    intro v moment habout
    rw [fst_query, fst_query, ← fst_patternAt a b]
    apply sameOutcome_map_of_ok
    intro question hask
    exact h.sameMembers_query ha hb (hmatched (habout _ (fst_pattern_of_patternAt hask))) question.2
  case timeline =>
    intro v habout
    rw [fst_timeline, fst_timeline, ← fst_pattern a b]
    apply sameOutcome_map_of_ok
    intro c hask
    exact h.sameMembers_timeline ha hb (hmatched (habout c hask))

section
variable {date : Moment} {maxDepth : Int} {taxonomy : Taxonomy} {audit : Option AuditLog}
  {start : Engine} {calls : List Call}
  (hstart : create date maxDepth taxonomy audit = .ok start)
include hstart

theorem isGround_of_mem_events {x : Event} (hx : x ∈ (start.performAll calls).store.events) :
    x.description.isGround = true := by
  rcases mem_events_performAll hx with hold | ⟨v, m, _, before, hprepare⟩
  · rcases exists_of_map_eq_ok hstart with ⟨_, _, rfl⟩
    cases hold
  · rcases exists_of_prepareEvent_eq_ok hprepare with ⟨_, t, hcompound⟩
    exact (EventStore.validate_toTerm hcompound).right

variable (hnone : learned (told calls) = [])
include hnone

theorem carriesSubjects_of_not_learned : (start.performAll calls).scenario.CarriesSubjects := by
  constructor
  case carried =>
    intro r hr c b hmatch
    rcases exists_key_of_not_learned hstart hnone hr with ⟨key, _, hmade⟩
    exact Taxonomy.subject?_of_matchCompound? hmade hmatch
  case ground =>
    intro x hx
    exact isGround_of_mem_events hstart hx

theorem hasSubjects_of_not_learned : (start.performAll calls).scenario.HasSubjects := by
  intro r hr
  rcases exists_key_of_not_learned hstart hnone hr with ⟨key, _, hmade⟩
  exact Taxonomy.one_le_arity_of_mem_builtinRules hmade

end

section
variable {date date' : Moment} {maxDepth maxDepth' : Int} {taxonomy : Taxonomy}
  {audit audit' : Option AuditLog} {start start' : Engine} {calls calls' : List Call}
  (hstart : create date maxDepth taxonomy audit = .ok start)
  (hstart' : create date' maxDepth' taxonomy audit' = .ok start')
  (hnone : learned (told calls) = []) (hnone' : learned (told calls') = [])
  (hverbs : forall key, key ∈ (start.facts (told calls)).map verbOf ↔
    key ∈ (start'.facts (told calls')).map verbOf)
include hstart hstart' hnone hnone' hverbs

theorem occursIn_iff_of_same_verbs (r : Rule) :
    r.OccursIn (start.performAll calls).rulebook.rules.all ↔
      r.OccursIn (start'.performAll calls').rulebook.rules.all := by
  rw [occursIn_iff_of_not_learned hstart hnone, occursIn_iff_of_not_learned hstart' hnone']
  simp only [Rule.OccursIn, List.mem_flatMap, hverbs]

theorem exclusive_eq_of_same_verbs (domain : String) :
    (start.performAll calls).scenario.exclusive.contains domain =
      (start'.performAll calls').scenario.exclusive.contains domain := by
  have hoccurs := occursIn_iff_of_same_verbs hstart hstart' hnone hnone' hverbs
  have hmirrors := ((descends_create hstart).performAll calls).complete.exclusive_iff domain
  have hmirrors' := ((descends_create hstart').performAll calls').complete.exclusive_iff domain
  show (start.performAll calls).rulebook.exclusive.contains domain =
    (start'.performAll calls').rulebook.exclusive.contains domain
  rw [Bool.eq_iff_iff, hmirrors, hmirrors']
  constructor
  · exact Rule.makeExclusive_of_occursIn fun r => (hoccurs r).mp
  · exact Rule.makeExclusive_of_occursIn fun r => (hoccurs r).mpr

end

end Engine

namespace Residence

/-- Somebody else moves before and after her, to where she does not live and where she lives. -/
def neighbours : List Engine.Call :=
  [.tell (.event (.text "moved_to(\"bob\", \"rome\")") (.text "2023-01-01")),
    .tell tellParis,
    .tell (.event (.text "moved_to(\"bob\", \"paris\")") (.text "2024-06-01"))]

/-- She moves alone. -/
def alone : List Engine.Call :=
  [.tell tellParis]

end Residence

namespace Engine

open Residence

end Engine
end EventCalculus
