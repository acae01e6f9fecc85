import EventCalculus.Proofs.Reachability

/-!
# Initiation and clipping as relations

What rules and events say about a ground fluent, without indices and without an
order of evaluation: when it is initiated, when it is terminated, when another
value displaces it, and from which initiation it holds at a time.  The evaluator
finds exactly these initiations and clippings.
-/

namespace EventCalculus

namespace Compound

/-- Both fluents have a subject, and it is the same. -/
def SameSubject (a b : Compound) : Prop :=
  exists s t, a.subject? = some s ∧ b.subject? = some t ∧ s.same t = true

/-- The arguments after the subject are the same. -/
def SameValues (a b : Compound) : Prop :=
  Term.canonicalAll a.values = Term.canonicalAll b.values

theorem exists_subject? {c : Compound} (h : 1 ≤ c.arity) : exists t, c.subject? = some t := by
  rcases List.exists_cons_of_length_pos h with ⟨t, ts, hargs⟩
  refine ⟨t, ?_⟩
  rw [subject?, hargs, List.head?_cons]

theorem subject?_canonical (c : Compound) :
    c.canonical.subject? = c.subject?.map Term.canonical := by
  rcases c with ⟨f, xs⟩
  cases xs with
  | nil => rfl
  | cons x xs => rfl

theorem sameSubject_of_same {a b : Compound} (hsame : a.same b = true) {t : Term}
    (hb : b.subject? = some t) : a.SameSubject b := by
  have hcanonical : a.subject?.map Term.canonical = some t.canonical := by
    rw [← subject?_canonical, same_iff.mp hsame, subject?_canonical, hb]
    rfl
  rcases Option.map_eq_some_iff.mp hcanonical with ⟨u, hu, heq⟩
  exact ⟨u, t, hu, hb, Term.same_iff.mpr heq⟩

theorem competesWith_iff (a b : Compound) :
    a.competesWith b = true ↔ a.SameSubject b ∧ ¬ a.SameValues b := by
  rcases a with ⟨f, xs⟩
  rcases b with ⟨g, ys⟩
  cases xs with
  | nil =>
      simp [competesWith, SameSubject, subject?]
  | cons x xs =>
      cases ys with
      | nil => simp [competesWith, SameSubject, subject?]
      | cons y ys => simp [competesWith, SameSubject, SameValues, subject?, values]

theorem competesWith_canonical (a b : Compound) :
    a.canonical.competesWith b.canonical = a.competesWith b := by
  rcases a with ⟨f, xs⟩
  rcases b with ⟨g, ys⟩
  cases xs with
  | nil => rfl
  | cons x xs =>
      cases ys with
      | nil => rfl
      | cons y ys =>
          simp [competesWith, canonical, Term.canonicalAll, Term.same_canonical,
            Term.canonicalAll_canonicalAll]

theorem competesWith_of_same {a b c : Compound} (h : b.same c = true) :
    a.competesWith b = a.competesWith c := by
  rw [← competesWith_canonical a b, ← competesWith_canonical a c, same_iff.mp h]

/-- Fluents of one name with the same subject and the same values are the same. -/
theorem same_of_sameSubject_of_sameValues {a b : Compound} (hfunctor : a.functor = b.functor)
    (hsubject : a.SameSubject b) (hvalues : a.SameValues b) : a.same b = true := by
  rcases a with ⟨f, xs⟩
  rcases b with ⟨g, ys⟩
  cases xs with
  | nil =>
      simp [SameSubject, subject?] at hsubject
  | cons x xs =>
      cases ys with
      | nil =>
          simp [SameSubject, subject?] at hsubject
      | cons y ys =>
          have hhead : x.canonical = y.canonical := by
            simpa [SameSubject, subject?, Term.same_iff] using hsubject
          have htail : Term.canonicalAll xs = Term.canonicalAll ys := by
            simpa [SameValues, values] using hvalues
          simp only at hfunctor
          simp [same, canonical, Term.canonicalAll, hfunctor, hhead, htail]

end Compound

namespace Rule

theorem initiated?_eq_some_iff (r : Rule) (e : Event) (fluent : Compound) :
    r.initiated? e = some fluent ↔
      (exists b, r.event.matchCompound? e.description = some b ∧ r.fluent.substitute b = fluent) ∧
        fluent.isGround = true := by
  simp only [initiated?, fluentFor?, Option.filter_eq_some_iff, Option.map_eq_some_iff]

theorem terminatesAt_iff (r : Rule) (fluent : Compound) (e : Event) :
    r.terminatesAt fluent e = true ↔
      exists b, r.event.matchCompound? e.description = some b ∧
        ((r.fluent.substitute b).matchCompound? fluent).isSome = true := by
  unfold terminatesAt fluentFor?
  cases r.event.matchCompound? e.description with
  | none => simp
  | some b => simp

theorem verb_eq_of_matchCompound? {r : Rule} {e : Event} {b : Bindings}
    (h : r.event.matchCompound? e.description = some b) : e.verb = r.verb :=
  congrArg Functor.text (Compound.functor_eq_of_matchCompound? h).symm

end Rule

namespace Scenario

/-!
# The relations
-/

/-- Some event at the time starts the fluent through some rule that initiates. -/
def Initiates (s : Scenario) (fluent : Compound) (time : String) : Prop :=
  exists r e b, r ∈ s.rules.all ∧ r.effect = .initiates ∧ e ∈ s.store.events ∧
    e.timestamp = time ∧ r.event.matchCompound? e.description = some b ∧
    r.fluent.substitute b = fluent ∧ fluent.isGround = true

/-- Some event at the time ends the fluent through some rule that terminates. -/
def Terminates (s : Scenario) (fluent : Compound) (time : String) : Prop :=
  exists r e b, r ∈ s.rules.all ∧ r.effect = .terminates ∧ e ∈ s.store.events ∧
    e.timestamp = time ∧ r.event.matchCompound? e.description = some b ∧
    ((r.fluent.substitute b).matchCompound? fluent).isSome = true

/-- Some event at the time brings the fluent about through some rule with the effect; the fluent may
still have variables. -/
def Fires (s : Scenario) (effect : Effect) (fluent : Compound) (time : String) : Prop :=
  exists r e b, r ∈ s.rules.all ∧ r.effect = effect ∧ e ∈ s.store.events ∧ e.timestamp = time ∧
    r.event.matchCompound? e.description = some b ∧ r.fluent.substitute b = fluent

theorem initiates_iff_fires {s : Scenario} {fluent : Compound} {time : String} :
    s.Initiates fluent time ↔ s.Fires .initiates fluent time ∧ fluent.isGround = true := by
  simp only [Initiates, Fires, ← exists_and_right, and_assoc]

theorem terminates_iff_fires {s : Scenario} {fluent : Compound} {time : String} :
    s.Terminates fluent time ↔ exists pattern, s.Fires .terminates pattern time ∧
      (pattern.matchCompound? fluent).isSome = true := by
  constructor
  · intro h
    rcases h with ⟨r, e, b, hr, heffect, he, htime, hmatch, hsome⟩
    exact ⟨_, ⟨r, e, b, hr, heffect, he, htime, hmatch, rfl⟩, hsome⟩
  · intro h
    rcases h with ⟨pattern, ⟨r, e, b, hr, heffect, he, htime, hmatch, rfl⟩, hsome⟩
    exact ⟨r, e, b, hr, heffect, he, htime, hmatch, hsome⟩

/-- The domain of the fluent is exclusive, and another value is initiated for its subject. -/
def Displaces (s : Scenario) (fluent : Compound) (time : String) : Prop :=
  s.exclusive.contains fluent.functor.text = true ∧
    exists other, s.Initiates other time ∧ other.functor = fluent.functor ∧
      other.arity = fluent.arity ∧ other.SameSubject fluent ∧ ¬ other.SameValues fluent

/-- The fluent ends at the time, in one way or the other. -/
def Clips (s : Scenario) (fluent : Compound) (time : String) : Prop :=
  s.Terminates fluent time ∨ s.Displaces fluent time

/-- The fluent is initiated at the start and not clipped from then on up to the time. -/
def HoldsFrom (s : Scenario) (fluent : Compound) (start time : String) : Prop :=
  s.Initiates fluent start ∧ start ≤ time ∧
    forall clip, start < clip -> clip ≤ time -> ¬ s.Clips fluent clip

/-- A fluent that is the same is initiated at the time. -/
def InitiatesSame (s : Scenario) (fluent : Compound) (time : String) : Prop :=
  exists form, form.same fluent = true ∧ s.Initiates form time

/-!
# What the evaluator finds
-/

variable {s : Scenario}

theorem mem_initiationsBy_iff (hs : s.Indexed) (r : Rule) (limit : Option String)
    (i : Initiation) :
    i ∈ s.initiationsBy r limit ↔
      i.event ∈ s.store.events ∧ isWithin limit i.event = true ∧
        r.initiated? i.event = some i.fluent := by
  unfold initiationsBy
  rw [List.mem_filterMap]
  constructor
  · intro h
    rcases h with ⟨e, he, hfound⟩
    have hmem := ((EventStore.mem_withVerb_iff hs.store e r.verb).mp he).left
    by_cases hlimit : isWithin limit e = true
    · rw [if_pos hlimit, Option.map_eq_some_iff] at hfound
      rcases hfound with ⟨fluent, hfluent, rfl⟩
      exact ⟨hmem, hlimit, hfluent⟩
    · rw [if_neg hlimit] at hfound
      cases hfound
  · intro h
    rcases h with ⟨hmem, hlimit, hfluent⟩
    exists i.event
    constructor
    · rcases (r.initiated?_eq_some_iff i.event i.fluent).mp hfluent with ⟨⟨b, hmatch, _⟩, _⟩
      apply (EventStore.mem_withVerb_iff hs.store i.event r.verb).mpr
      exact ⟨hmem, Rule.verb_eq_of_matchCompound? hmatch⟩
    · rw [if_pos hlimit, hfluent]
      rfl

theorem mem_initiations_iff (hs : s.Indexed) (domain : String) (arity : Nat)
    (limit : Option String) (i : Initiation) :
    i ∈ s.initiations domain arity limit ↔
      i.event ∈ s.store.events ∧ isWithin limit i.event = true ∧
        i.fluent.functor.text = domain ∧ i.fluent.arity = arity ∧
        exists r, r ∈ s.rules.all ∧ r.effect = .initiates ∧
          r.initiated? i.event = some i.fluent := by
  unfold initiations RuleSet.initiating
  simp only [List.mem_flatMap, hs.rules.mem_affecting_iff, mem_initiationsBy_iff hs]
  constructor
  · intro h
    rcases h with ⟨r, ⟨hr, heffect, hdomain, harity⟩, hmem, hlimit, hfluent⟩
    rcases (r.initiated?_eq_some_iff i.event i.fluent).mp hfluent with ⟨⟨b, _, hsubst⟩, _⟩
    have hfunctor : i.fluent.functor = r.fluent.functor := by
      rw [← hsubst, Compound.functor_substitute]
    have harity' : i.fluent.arity = r.fluent.arity := by
      rw [← hsubst, Compound.arity_substitute]
    refine ⟨hmem, hlimit, ?_, harity'.trans harity, r, hr, heffect, hfluent⟩
    rw [hfunctor]
    exact hdomain
  · intro h
    rcases h with ⟨hmem, hlimit, hdomain, harity, r, hr, heffect, hfluent⟩
    rcases (r.initiated?_eq_some_iff i.event i.fluent).mp hfluent with ⟨⟨b, _, hsubst⟩, _⟩
    have hfunctor : i.fluent.functor = r.fluent.functor := by
      rw [← hsubst, Compound.functor_substitute]
    have harity' : i.fluent.arity = r.fluent.arity := by
      rw [← hsubst, Compound.arity_substitute]
    refine ⟨r, ⟨hr, heffect, ?_, harity'.symm.trans harity⟩, hmem, hlimit, hfluent⟩
    rw [← hdomain, hfunctor]
    rfl

theorem initiates_iff_exists_event (fluent : Compound) (time : String) :
    s.Initiates fluent time ↔
      exists e, e ∈ s.store.events ∧ e.timestamp = time ∧
        exists r, r ∈ s.rules.all ∧ r.effect = .initiates ∧ r.initiated? e = some fluent := by
  constructor
  · intro h
    rcases h with ⟨r, e, b, hr, heffect, he, htime, hmatch, hsubst, hground⟩
    refine ⟨e, he, htime, r, hr, heffect, ?_⟩
    exact (r.initiated?_eq_some_iff e fluent).mpr ⟨⟨b, hmatch, hsubst⟩, hground⟩
  · intro h
    rcases h with ⟨e, he, htime, r, hr, heffect, hfluent⟩
    rcases (r.initiated?_eq_some_iff e fluent).mp hfluent with ⟨⟨b, hmatch, hsubst⟩, hground⟩
    exact ⟨r, e, b, hr, heffect, he, htime, hmatch, hsubst, hground⟩

/-- The evaluator enumerates the initiations of a domain and arity up to the limit. -/
theorem exists_mem_initiations_iff (hs : s.Indexed) (domain : String) (arity : Nat)
    (limit : Option String) (fluent : Compound) (time : String) :
    (exists i, i ∈ s.initiations domain arity limit ∧ i.fluent = fluent ∧ i.timestamp = time) ↔
      s.Initiates fluent time ∧ (forall t, limit = some t -> time ≤ t) ∧
        fluent.functor.text = domain ∧ fluent.arity = arity := by
  rw [initiates_iff_exists_event]
  constructor
  · intro h
    rcases h with ⟨i, hi, rfl, rfl⟩
    rcases (mem_initiations_iff hs domain arity limit i).mp hi with
      ⟨hmem, hlimit, hdomain, harity, hrule⟩
    refine ⟨⟨i.event, hmem, rfl, hrule⟩, ?_, hdomain, harity⟩
    intro t ht
    cases ht
    exact of_decide_eq_true hlimit
  · intro h
    rcases h with ⟨⟨e, he, htime, hrule⟩, hlimit, hdomain, harity⟩
    refine ⟨⟨fluent, e⟩, ?_, rfl, htime⟩
    apply (mem_initiations_iff hs domain arity limit ⟨fluent, e⟩).mpr
    refine ⟨he, ?_, hdomain, harity, hrule⟩
    cases limit with
    | none => rfl
    | some t =>
        rw [← htime] at hlimit
        exact decide_eq_true (hlimit t rfl)

theorem exists_mem_terminations_iff (hs : s.Indexed) (fluent : Compound) (time : String) :
    (exists e, e ∈ s.terminations fluent ∧ e.timestamp = time) ↔ s.Terminates fluent time := by
  unfold terminations RuleSet.terminating terminationsBy
  simp only [List.mem_flatMap, List.mem_filter, hs.rules.mem_affecting_iff,
    EventStore.mem_withVerb_iff hs.store, Rule.terminatesAt_iff]
  constructor
  · intro h
    rcases h with ⟨e, ⟨r, ⟨hr, heffect, _⟩, ⟨he, _⟩, b, hmatch, hsome⟩, htime⟩
    exact ⟨r, e, b, hr, heffect, he, htime, hmatch, hsome⟩
  · intro h
    rcases h with ⟨r, e, b, hr, heffect, he, htime, hmatch, hsome⟩
    rcases Option.isSome_iff_exists.mp hsome with ⟨b', hb'⟩
    have hfunctor := Compound.functor_eq_of_matchCompound? hb'
    have harity := Compound.arity_eq_of_matchCompound? hb'
    rw [Compound.functor_substitute] at hfunctor
    rw [Compound.arity_substitute] at harity
    have hdomain : r.domain = fluent.functor.text := congrArg Functor.text hfunctor
    exact ⟨e, ⟨r, ⟨hr, heffect, hdomain, harity⟩,
      ⟨he, Rule.verb_eq_of_matchCompound? hmatch⟩, b, hmatch, hsome⟩, htime⟩

theorem exists_mem_displacements_iff (hs : s.Indexed) (fluent : Compound) (time : String) :
    (exists e, e ∈ s.displacements fluent ∧ e.timestamp = time) ↔ s.Displaces fluent time := by
  unfold displacements Displaces
  by_cases hexclusive : s.exclusive.contains fluent.functor.text = true
  · rw [if_pos hexclusive]
    constructor
    · intro h
      rcases h with ⟨e, he, htime⟩
      rcases List.mem_map.mp he with ⟨i, hi, rfl⟩
      rcases List.mem_filter.mp hi with ⟨hinit, hcompetes⟩
      rcases (exists_mem_initiations_iff hs fluent.functor.text fluent.arity none i.fluent
        i.timestamp).mp ⟨i, hinit, rfl, rfl⟩ with ⟨hinitiates, _, hdomain, harity⟩
      rcases (Compound.competesWith_iff i.fluent fluent).mp hcompetes with ⟨hsubject, hvalues⟩
      rw [← htime]
      exact ⟨hexclusive, i.fluent, hinitiates, Functor.eq_of_text_eq hdomain, harity, hsubject,
        hvalues⟩
    · intro h
      rcases h with ⟨_, other, hinitiates, hfunctor, harity, hsubject, hvalues⟩
      rcases (exists_mem_initiations_iff hs fluent.functor.text fluent.arity none other
        time).mpr ⟨hinitiates, by simp, by rw [hfunctor], harity⟩ with ⟨i, hi, rfl, rfl⟩
      refine ⟨i.event, List.mem_map.mpr ⟨i, List.mem_filter.mpr ⟨hi, ?_⟩, rfl⟩, rfl⟩
      exact (Compound.competesWith_iff i.fluent fluent).mpr ⟨hsubject, hvalues⟩
  · rw [if_neg hexclusive]
    constructor
    · intro h
      rcases h with ⟨e, he, _⟩
      cases he
    · intro h
      exact absurd h.left hexclusive

theorem exists_mem_clippings_iff (hs : s.Indexed) (fluent : Compound) (time : String) :
    (exists e, e ∈ s.clippings fluent ∧ e.timestamp = time) ↔ s.Clips fluent time := by
  unfold clippings Clips
  rw [← exists_mem_terminations_iff hs, ← exists_mem_displacements_iff hs, ← exists_or]
  simp only [List.mem_append, or_and_right]

theorem persists_iff (hs : s.Indexed) (i : Initiation) (time : String) :
    s.persists i time = true ↔
      forall clip, i.timestamp < clip -> clip ≤ time -> ¬ s.Clips i.fluent clip := by
  simp only [persists, isClipped, Bool.not_eq_true', List.any_eq_false, Bool.and_eq_true,
    decide_eq_true_eq, not_and]
  constructor
  · intro h clip hafter hbefore hclips
    rcases (exists_mem_clippings_iff hs i.fluent clip).mpr hclips with ⟨e, he, rfl⟩
    exact h e he hafter hbefore
  · intro h e he hafter hbefore
    exact h e.timestamp hafter hbefore ((exists_mem_clippings_iff hs _ _).mp ⟨e, he, rfl⟩)

/-!
# Fluents that are the same
-/

theorem terminates_of_same {fluent form : Compound} (hsame : fluent.same form = true)
    {time : String} (h : s.Terminates fluent time) : s.Terminates form time := by
  rcases h with ⟨r, e, b, hr, heffect, he, htime, hmatch, hsome⟩
  refine ⟨r, e, b, hr, heffect, he, htime, hmatch, ?_⟩
  rw [← Compound.isSome_matchCompound?_of_same (Compound.same_refl _) hsame]
  exact hsome

theorem displaces_of_same {fluent form : Compound} (hsame : fluent.same form = true)
    {time : String} (h : s.Displaces fluent time) : s.Displaces form time := by
  rcases h with ⟨hexclusive, other, hother, hfunctor, harity, hcompete⟩
  have hcompete' := (Compound.competesWith_iff other fluent).mpr hcompete
  rw [Compound.competesWith_of_same hsame] at hcompete'
  rw [Compound.functor_eq_of_same hsame] at hexclusive hfunctor
  rw [Compound.arity_eq_of_same hsame] at harity
  exact ⟨hexclusive, other, hother, hfunctor, harity,
    (Compound.competesWith_iff other form).mp hcompete'⟩

theorem clips_of_same {fluent form : Compound} (hsame : fluent.same form = true)
    {time : String} (h : s.Clips fluent time) : s.Clips form time := by
  cases h with
  | inl hterminates => exact Or.inl (terminates_of_same hsame hterminates)
  | inr hdisplaces => exact Or.inr (displaces_of_same hsame hdisplaces)

end Scenario
end EventCalculus
